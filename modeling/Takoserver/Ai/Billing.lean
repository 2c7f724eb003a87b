import Takoserver.Ai.AtMostOnce

/-!
# What a key is charged

The ledger has, under the reference of a key, what the row of the key says: the
hold of the ceiling, then the capture of the outcome, then the release of the
rest.  Requests that settle the same row ask for the same entries, so it does not
matter how many of them there are, or where each of them stops.
-/

namespace Takoserver.Ai

open Machine

/-- The ledger entries under the references the requests of a key have drawn. -/
def System.effect (s : System) (scope : Scope) : Funds.Ledger :=
  s.db.ledger.filter fun e => decide (e.organizationId = scope.organizationId) &&
    s.workers.any fun w => decide (w.scope = scope ∧ w.requestId = some e.reference)

/-- A row whose response is final. -/
def Row.IsCompleted (row : Row) (r : AiSettledRequest) : Prop :=
  row.record = .settled r ∧ r.phase = .completed

/-- The checks of a process pass a request. -/
def ChatRequest.IsServed (E : Codec) (cat : Catalog) (r : ChatRequest) : Prop :=
  invalidRequest? r = none ∧ ∃ plan, planRequest E cat r = .ok plan

/-- The calls of request `n` do not throw, and are made before an instant. -/
def Action.isPrompt (n : ℕ) (expiresAt : Instant) : Action → Prop
  | .step m c => m = n → c.fault = .none ∧ c.now < expiresAt
  | _ => True

section Effects

variable {E : Codec} {receipts : Receipts} {s s' : System} {scope : Scope}

theorem mem_effect {e : Funds.Entry} : e ∈ s.effect scope ↔
    e ∈ s.db.ledger ∧ e.organizationId = scope.organizationId ∧
      ∃ w ∈ s.workers, w.scope = scope ∧ w.requestId = some e.reference := by
  simp [System.effect]

/-- An entry of a key is under the reference of the row of the key. -/
theorem row_of_effect (h : Holds E s) {e : Funds.Entry} (he : e ∈ s.effect scope) :
    ∃ row ∈ s.db.journal, row.scope = scope ∧ ∃ c, row.record.account? = some (e.reference, c) := by
  obtain ⟨hmem, -, w, hw, hscope, hid⟩ := mem_effect.mp he
  obtain ⟨row, hrow, -, c, haccount⟩ := h.booked e hmem
  obtain ⟨m, v, hv, hidv, hvscope⟩ := h.drawn row hrow _ _ haccount
  obtain ⟨n, hn⟩ := List.mem_iff_getElem?.mp hw
  obtain rfl := h.ids n m w v _ hn hv hid hidv
  rw [hn] at hv
  cases hv
  exact ⟨row, hrow, hvscope.symm.trans hscope, c, haccount⟩

variable {row : Row} {r : AiSettledRequest}

theorem effect_eq_of (h : Holds E s) (hrow : row ∈ s.db.journal) (hscope : row.scope = scope)
    {requestId : String} {c : ℕ} (haccount : row.record.account? = some (requestId, c)) :
    s.effect scope = Funds.of s.db.ledger scope.organizationId requestId := by
  refine List.filter_congr fun e he => ?_
  rw [Bool.eq_iff_iff]
  constructor
  · intro hmem
    obtain ⟨_, hrow', hscope', _, haccount'⟩ :=
      row_of_effect h (List.mem_filter.mpr ⟨he, hmem⟩)
    obtain rfl := Table.eq_of_key h.scopes hrow' hrow (hscope'.trans hscope.symm)
    obtain ⟨hid, -⟩ := Prod.mk.inj (Option.some.inj (haccount'.symm.trans haccount))
    simp only [Bool.and_eq_true, decide_eq_true_eq] at hmem
    exact decide_eq_true ⟨hmem.1, hid⟩
  · intro hmem
    obtain ⟨horg, rfl⟩ := of_decide_eq_true hmem
    obtain ⟨m, v, hv, hid, hvscope⟩ := h.drawn row hrow _ _ haccount
    simp only [Bool.and_eq_true, decide_eq_true_eq, List.any_eq_true]
    exact ⟨horg, v, List.mem_of_getElem? hv, hvscope.trans hscope, hid⟩

theorem holdOf_starts_charge {organizationId : String} :
    holdOf organizationId r.requestId r.ceilingMicros <+: chargeOf organizationId r := by
  rw [chargeOf, List.append_assoc]
  exact List.prefix_append _ _

/-- **A key is charged along one outcome**, with its journaled ceiling. -/
theorem effect_along_charge (h : Holds E s) (scope : Scope) :
    ∃ r : AiSettledRequest, r.actualMicros ≤ r.ceilingMicros ∧
      s.effect scope <+: chargeOf scope.organizationId r ∧
      ∀ row ∈ s.db.journal, row.scope = scope → ∀ account, row.record.account? = some account →
        account = (r.requestId, r.ceilingMicros) := by
  by_cases hnone : ∃ row ∈ s.db.journal, row.scope = scope ∧ row.record.account? ≠ none
  · obtain ⟨row, hrow, hscope, haccount⟩ := hnone
    have hunique : ∀ row' ∈ s.db.journal, row'.scope = scope → row' = row := fun row' hrow' hk =>
      Table.eq_of_key h.scopes hrow' hrow (hk.trans hscope.symm)
    have hcharged := h.charged row hrow
    have hsound := h.sound row hrow
    unfold Row.Charged at hcharged
    unfold Row.Sound at hsound
    rw [hscope] at hcharged
    cases hrecord : row.record with
    | pending p =>
      rw [hrecord] at hcharged
      -- a request that is not over is on its way to an outcome that charges nothing
      refine ⟨failedOutcome p "", Nat.zero_le _, ?_, fun row' hrow' hk account ha => ?_⟩
      · rw [effect_eq_of h hrow hscope (by rw [hrecord]; rfl)]
        rcases hcharged with hcharged | ⟨-, hcharged⟩
        · rw [hcharged]
          exact holdOf_starts_charge (r := failedOutcome p "")
        · rw [hcharged]
          exact List.nil_prefix
      · rw [hunique row' hrow' hk, hrecord] at ha
        exact (Option.some.inj ha).symm
    | settled r =>
      rw [hrecord] at hcharged hsound
      refine ⟨r, hsound.1.actual, ?_, fun row' hrow' hk account ha => ?_⟩
      · rw [effect_eq_of h hrow hscope (by rw [hrecord]; rfl)]
        rcases hcharged with hcharged | ⟨-, hcharged | hcharged⟩
        · exact hcharged ▸ List.prefix_rfl
        · rw [hcharged]
          exact holdOf_starts_charge
        · rw [hcharged]
          exact List.prefix_append _ _
      · rw [hunique row' hrow' hk, hrecord] at ha
        exact (Option.some.inj ha).symm
    | legacy l =>
      rw [hrecord] at haccount
      exact absurd rfl haccount
    | rejected =>
      rw [hrecord] at haccount
      exact absurd rfl haccount
  · refine ⟨failedOutcome ⟨.claimed, "", 0⟩ "", Nat.zero_le _, ?_, fun row hrow hk account ha => ?_⟩
    · have hnil : s.effect scope = [] := by
        refine List.eq_nil_iff_forall_not_mem.mpr fun e he => hnone ?_
        obtain ⟨row, hrow, hk, c, ha⟩ := row_of_effect h he
        exact ⟨row, hrow, hk, by rw [ha]; simp⟩
      rw [hnil]
      exact List.nil_prefix
    · exact absurd ⟨row, hrow, hk, by rw [ha]; simp⟩ hnone

theorem effect_of_completed (h : Holds E s) (hrow : row ∈ s.db.journal) (hr : row.IsCompleted r) :
    s.effect row.scope = chargeOf row.scope.organizationId r := by
  obtain ⟨hrecord, hphase⟩ := hr
  have hcharged := h.charged row hrow
  unfold Row.Charged at hcharged
  rw [hrecord] at hcharged
  rw [effect_eq_of h hrow rfl (by rw [hrecord]; rfl)]
  rcases hcharged with hcharged | ⟨hstaged, -⟩
  · exact hcharged
  · rw [hphase] at hstaged
    cases hstaged

theorem completed_next {a : Action} (h : Holds E s) (hn : (requests E receipts).next s a = some s')
    (hrow : row ∈ s.db.journal) (hr : row.IsCompleted r) : row ∈ s'.db.journal := by
  obtain ⟨hrecord, hphase⟩ := hr
  obtain ⟨row', hrow', hscope, hfp, hexpires, hsame⟩ := (leads_next h hn).rows row hrow
  have hsame : row'.record = row.record := by
    refine hsame.resolve_right ?_
    rintro ⟨t, hm, -⟩
    rw [hrecord] at hm
    have hfinal : (AiRequestRecord.settled r).Final (resultResponse r) := ⟨hphase, rfl⟩
    exact hfinal.move hm
  have hstatus := h.sound row hrow
  have hstatus' := (holds_next h hn).sound row' hrow'
  unfold Row.Sound at hstatus hstatus'
  rw [hsame, hrecord] at hstatus'
  rw [hrecord] at hstatus
  have heq : row' = row := by
    obtain ⟨_, _, _, _, _⟩ := row
    obtain ⟨_, _, _, _, _⟩ := row'
    simp only at hscope hfp hexpires hsame hstatus hstatus'
    rw [hscope, hfp, hexpires, hsame, hstatus'.2, hstatus.2]
  exact heq ▸ hrow'

theorem completed_path {ok : System → Action → Prop} (h : Holds E s)
    (hpath : (requests E receipts).PathVia ok s s') (hrow : row ∈ s.db.journal)
    (hr : row.IsCompleted r) : Holds E s' ∧ row ∈ s'.db.journal := by
  refine hpath.invariant (P := fun s => Holds E s ∧ row ∈ s.db.journal) ?_ ⟨h, hrow⟩
  rintro s a _ ⟨hs, hmem⟩ - hn
  exact ⟨holds_next hs hn, completed_next hs hn hmem hr⟩

/-- The stages of a request that comes after its row is completed. -/
def Stage.IsLate (r : AiSettledRequest) (stage : Stage) : Prop :=
  match stage with
  | .lookup | .claim .. | .existing _ | .stopped => True
  | .replied reply => reply = resultResponse r
  | _ => False

/-- The next call of a late request finds the row. -/
theorem late_step (h : Holds E s) {w w' : Worker} (hrow : row ∈ s.db.journal)
    (hr : row.IsCompleted r) (hscope : w.scope = row.scope)
    (hfp : E.canonicalDigest w.request.body = row.fingerprint)
    (hserved : w.request.IsServed E w.catalog) (hlate : w.stage.IsLate r) {c : Circumstance}
    (hfault : c.fault = .none) (hnow : c.now < row.expiresAt) {db' : Shared}
    (hstep : w.step E c s.db = (w', db')) : w'.stage.IsLate r := by
  obtain ⟨hrecord, hphase⟩ := hr
  have hparse := parse_of_sound (h.sound row hrow) fun l hl => by
    rw [hrecord] at hl
    cases hl
  have hread := read_of_mem h.scopes hrow hnow hparse
  have hperform : w.step E c s.db = w.perform E c s.db := by
    unfold Worker.step
    rw [hfault]
    split <;> first | rfl | (next h => cases h) | (next h _ => cases h)
  rw [hperform] at hstep
  cases hstage : w.stage with
  | lookup =>
    obtain ⟨-, _, hplan⟩ := hserved
    have hlookup : lookupCompletedLegacy s.db.journal w.scope
        (E.canonicalDigest w.request.body) c.now = .ok none := by
      unfold lookupCompletedLegacy
      rw [hscope, hfp, Table.find_of_mem h.scopes hrow]
      dsimp only
      rw [if_neg (not_le.mpr hnow), if_neg (not_not.mpr rfl), hparse, hrecord]
    simp only [Worker.perform, hstage, hlookup, hplan] at hstep
    obtain ⟨rfl, -⟩ := Prod.mk.inj hstep
    trivial
  | claim =>
    simp only [Worker.perform, hstage] at hstep
    split at hstep
    · next hinsert =>
      exact absurd hscope.symm ((insertClaim_eq_some hinsert).1 row hrow)
    · obtain ⟨rfl, -⟩ := Prod.mk.inj hstep
      trivial
  | existing =>
    simp only [Worker.perform, hstage, hscope, hfp, hread, hrecord, resume, hphase] at hstep
    obtain ⟨rfl, -⟩ := Prod.mk.inj hstep
    rfl
  | replied =>
    simp only [Worker.perform, hstage] at hstep
    obtain ⟨rfl, -⟩ := Prod.mk.inj hstep
    exact hlate
  | stopped =>
    simp only [Worker.perform, hstage] at hstep
    obtain ⟨rfl, -⟩ := Prod.mk.inj hstep
    exact hlate
  | _ =>
    rw [hstage] at hlate
    exact hlate.elim

/-- Where request `n` is, if it has come. -/
def IsLateAt (E : Codec) (row : Row) (r : AiSettledRequest) (n : ℕ) (s : System) : Prop :=
  ∀ w, s.workers[n]? = some w → w.scope = row.scope →
    E.canonicalDigest w.request.body = row.fingerprint → w.request.IsServed E w.catalog →
      w.stage.IsLate r

theorem late_next {a : Action} (h : Holds E s) {n : ℕ} (hrow : row ∈ s.db.journal)
    (hr : row.IsCompleted r) (hlate : IsLateAt E row r n s) (hprompt : a.isPrompt n row.expiresAt)
    (hn : (requests E receipts).next s a = some s') : IsLateAt E row r n s' := by
  intro v hv hscope hfp hserved
  cases a with
  | arrive =>
    cases hn
    rw [List.getElem?_append] at hv
    split at hv
    · exact hlate v hv hscope hfp hserved
    · have hv' := List.mem_of_getElem? hv
      obtain rfl := List.mem_singleton.mp hv'
      rw [hserved.1]
      trivial
  | step m c =>
    obtain ⟨w, hw, hstep⟩ := Option.bind_eq_some_iff.mp hn
    obtain ⟨-, heq⟩ := Option.ite_none_right_eq_some.mp hstep
    cases heq
    rcases getElem?_set_cases hv with ⟨rfl, rfl⟩ | ⟨-, hv⟩
    · obtain ⟨hfault, hnow⟩ := hprompt rfl
      have hmoved : w.step E c s.db = ((w.step E c s.db).1, (w.step E c s.db).2) := rfl
      obtain ⟨hrequest, hcatalog, -⟩ := step_request hmoved
      rw [hrequest] at hfp hserved
      rw [hcatalog] at hserved
      rw [Worker.scope, hrequest] at hscope
      exact late_step h hrow hr hscope hfp hserved (hlate w hw hscope hfp hserved) hfault hnow rfl
    · exact hlate v hv hscope hfp hserved
  | crash m =>
    obtain ⟨w, -, rfl⟩ := Option.map_eq_some_iff.mp hn
    rcases getElem?_set_cases hv with ⟨rfl, rfl⟩ | ⟨-, hv⟩
    · trivial
    · exact hlate v hv hscope hfp hserved

end Effects

/-- **A key is charged once.**  Whatever requests of it there are, and wherever they stop: the
ledger has of the key a hold of the journaled ceiling, then a capture within it, then a release of
the rest, or the first of these.  Once its row is completed the charge is whole, and nothing is
added to it.  Every reply of the key is the final one of its row, or refuses; and a request that
comes once the row is completed, with the same body and past the checks of its process, gets no
other reply than the journaled one while its calls are answered within the retention. -/
theorem billed_once (E : Codec) (receipts : Receipts) (s : System) (scope : Scope)
    (hs : (requests E receipts).Reachable s) :
    (∃ r : AiSettledRequest, r.actualMicros ≤ r.ceilingMicros ∧
      s.effect scope <+: chargeOf scope.organizationId r ∧
      ∀ row ∈ s.db.journal, row.scope = scope → ∀ account, row.record.account? = some account →
        account = (r.requestId, r.ceilingMicros)) ∧
    (∀ w ∈ s.workers, w.scope = scope → ∀ reply, w.stage = .replied reply →
      reply.IsRefusal ∨ ∃ row ∈ s.db.journal, row.scope = scope ∧ row.record.Final reply) ∧
    ∀ row ∈ s.db.journal, row.scope = scope → ∀ r, row.IsCompleted r →
      s.effect scope = chargeOf scope.organizationId r ∧
      (∀ s', (requests E receipts).Path s s' →
        row ∈ s'.db.journal ∧ s'.effect scope = s.effect scope) ∧
      ∀ n, s.workers.length ≤ n → ∀ s',
        (requests E receipts).PathVia (fun _ a => a.isPrompt n row.expiresAt) s s' →
        ∀ w, s'.workers[n]? = some w → w.scope = scope →
          E.canonicalDigest w.request.body = row.fingerprint → w.request.IsServed E w.catalog →
          ∀ reply, w.stage = .replied reply → reply = resultResponse r := by
  have h := holds_of_reachVia hs
  refine ⟨effect_along_charge h scope, ?_, ?_⟩
  · intro w hw hscope reply hreply
    obtain ⟨n, hn⟩ := List.mem_iff_getElem?.mp hw
    have hknows := h.knows n w hn
    unfold Worker.Knows at hknows
    rw [hreply] at hknows
    refine hknows.imp id ?_
    rintro ⟨row, hrow, hk, -, hfinal⟩
    exact ⟨row, hrow, hk.trans hscope, hfinal⟩
  · rintro row hrow rfl r hr
    have heffect := effect_of_completed h hrow hr
    refine ⟨heffect, fun s' hpath => ?_, fun n hlen s' hpath w hw hscope hfp hserved => ?_⟩
    · obtain ⟨h', hrow'⟩ := completed_path h hpath hrow hr
      exact ⟨hrow', (effect_of_completed h' hrow' hr).trans heffect.symm⟩
    have key : (Holds E s' ∧ row ∈ s'.db.journal) ∧ IsLateAt E row r n s' := by
      refine hpath.invariant
        (P := fun s => (Holds E s ∧ row ∈ s.db.journal) ∧ IsLateAt E row r n s) ?_
        ⟨⟨h, hrow⟩, fun v hv => ?_⟩
      · rintro s a _ ⟨⟨hholds, hmem⟩, hlate⟩ hprompt hn
        exact ⟨⟨holds_next hholds hn, completed_next hholds hn hmem hr⟩,
          late_next hholds hmem hr hlate hprompt hn⟩
      · -- the request has not come yet
        have hlt := (List.getElem?_eq_some_iff.mp hv).1
        omega
    intro reply hreply
    have hlate := key.2 w hw hscope hfp hserved
    rw [hreply] at hlate
    exact hlate

/-! ### Runs -/

section Examples

/-- What the upstream answers to `hello`. -/
def helloCompletion : Json :=
  .obj [("id", .str "chatcmpl_1"), ("object", .str "chat.completion"), ("created", .num 1787054400),
    ("model", .str "takoserver-text"),
    ("choices", .arr [.obj [("index", .num 0),
      ("message", .obj [("role", .str "assistant"), ("content", .str "hello")])]]),
    ("usage", .obj [("prompt_tokens", .num 3), ("completion_tokens", .num 2),
      ("total_tokens", .num 5)])]

/-- `hello` is answered, and its row is completed. -/
def completedRun : List Action :=
  callingRun ++ [.step 0 { now := 2, answer := some helloCompletion }, .step 0 (calledAt 2 ""),
    .step 0 (calledAt 2 ""), .step 0 (calledAt 2 ""), .step 0 (calledAt 2 ""),
    .step 0 (calledAt 2 "")]

/-- What a completed `hello` leaves: a hold of its ceiling, a capture and a release. -/
def System.isBilled (s : System) : Bool :=
  decide (s.effect hello.scope =
    [⟨"org_acme", .hold, "ai_0", 1100000⟩, ⟨"org_acme", .capture, "ai_0", 50000⟩,
      ⟨"org_acme", .release, "ai_0", 1050000⟩]) &&
    s.db.journal.any fun row => decide (row.status = 200 ∧ row.scope = hello.scope)

/-- A request that is answered: what its key is charged is not added to. -/
theorem billed_once_completedRun :
    ∃ s, (requests plainCodec noReceipts).Reachable s ∧ s.isBilled = true ∧
      ∀ row ∈ s.db.journal, row.scope = hello.scope → ∀ r, row.IsCompleted r →
        ∀ s', (requests plainCodec noReceipts).Path s s' →
          s'.effect hello.scope = s.effect hello.scope := by
  obtain ⟨s, hs, hp⟩ := exists_reachable_of_run (M := requests plainCodec noReceipts) completedRun
    System.isBilled (by decide +kernel)
  refine ⟨s, hs, hp, fun row hrow hscope r hr s' hpath => ?_⟩
  have hbilled := billed_once plainCodec noReceipts s hello.scope hs
  exact ((hbilled.2.2 row hrow hscope r hr).2.1 s' hpath).2

/-- The same request comes again after the retention of its row. -/
def lateRun : List Action :=
  [.arrive hello textCatalog, .step 1 (calledAt (retentionMs + 3) "1")]

/-- The outcome `hello` is answered with. -/
def helloOutcome : AiSettledRequest :=
  { phase := .completed, requestId := "ai_0", ceilingMicros := 1100000, actualMicros := 50000,
    responseStatus := 200, responseBody := helloCompletion, usageModel := some "takoserver-text",
    inputTokens := 3, outputTokens := 2 }

def System.hasCompleted (s : System) : Bool :=
  (s.db.journal.any fun row =>
    decide (row.record = .settled helloOutcome ∧ row.scope = hello.scope)) &&
    decide (s.workers.length = 1)

def System.hasRefused (s : System) : Bool :=
  s.workers[1]?.any fun w => decide (w.scope = hello.scope ∧
    w.stage = .replied (openAiFailure "request_state_unavailable" 503 none))

/-- A request of a completed key whose reply is not the journaled one: it reads the row after its
retention is over. -/
theorem late_reply_is_refused :
    ¬∀ (E : Codec) (receipts : Receipts) (s s' : System) (row : Row) (r : AiSettledRequest) (n : ℕ)
      (w : Worker) (reply : Reply), (requests E receipts).Reachable s → row ∈ s.db.journal →
        row.IsCompleted r → (requests E receipts).Path s s' → s.workers.length ≤ n →
          s'.workers[n]? = some w → w.scope = row.scope → w.stage = .replied reply →
            reply = resultResponse r := by
  intro h
  obtain ⟨s, hs, hp⟩ := exists_reachable_of_run (M := requests plainCodec noReceipts) completedRun
    (fun s => s.hasCompleted && ((requests plainCodec noReceipts).run s lateRun).any
      System.hasRefused) (by decide +kernel)
  simp only [Bool.and_eq_true, Option.any_eq_true, System.hasCompleted, System.hasRefused,
    List.any_eq_true, decide_eq_true_eq] at hp
  obtain ⟨⟨⟨row, hrow, hrecord, hscope⟩, hlen⟩, s', hrun, w, hw, hwscope, hstage⟩ := hp
  have hreply := h plainCodec noReceipts s s' row helloOutcome 1 w _ hs hrow ⟨hrecord, rfl⟩
    (path_of_run lateRun s s' hrun) hlen.le hw (hwscope.trans hscope.symm) hstage
  exact absurd hreply (by decide +kernel)

end Examples

end Takoserver.Ai
