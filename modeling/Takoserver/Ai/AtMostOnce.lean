import Takoserver.Ai.Interleavings

/-!
# One upstream call for a key

`dispatched` is durable before `gateway.chat` is called, and a row that is read
dispatched is not dispatched again.  But `transition` takes a row that already
is what it wants for its own doing: of two requests that read the row ready, the
one that comes second finds it dispatched, goes on, and calls the upstream again.
-/

namespace Takoserver.Ai

open Machine

/-- The request has marked its row dispatched, and is about to call the upstream. -/
def Worker.isCalling (w : Worker) : Bool :=
  match w.stage with
  | .chat .. => true
  | _ => false

/-- A request whose `dispatched` transition changed no row reads the row back, and it is already
dispatched. -/
def System.takesOver (E : Codec) (s : System) : Action → Bool
  | .step n c =>
    match s.workers[n]? with
    | none => false
    | some w =>
      match w.stage, c.fault with
      | .recheck _ (.dispatched p), .none =>
        match read s.db.journal w.scope (E.canonicalDigest w.request.body) c.now with
        | .ok record => decide (record = (Transition.dispatched p).record)
        | .error _ => false
      | _, _ => false
  | _ => false

/-- How often the upstream was called for a key. -/
def Shared.callsOf (db : Shared) (scope : Scope) : ℕ :=
  db.calls.countP fun call => decide (call.scope = scope)

/-- How many requests of a key are about to call it. -/
def System.callersOf (s : System) (scope : Scope) : ℕ :=
  s.workers.countP fun w => decide (w.scope = scope) && w.isCalling

/-! ### Who gets to call -/

section Stages

variable {w : Worker} {model : AiModel}

theorem settled_not_calling (r : AiSettledRequest) :
    (w.atStage (settled model r)).isCalling = false := by
  unfold settled
  split <;> rfl

theorem captured_not_calling (r : AiSettledRequest) :
    (w.atStage (captured model r)).isCalling = false := by
  unfold captured
  split
  · rfl
  · exact settled_not_calling r

theorem settle_not_calling (r : AiSettledRequest) :
    (w.atStage (settle model r)).isCalling = false := by
  unfold settle
  split
  · rfl
  · exact captured_not_calling r

theorem resume_not_calling (record : AiRequestRecord) :
    (w.atStage (resume model record)).isCalling = false := by
  unfold resume
  split
  · rfl
  · rfl
  · split
    · rfl
    · exact settle_not_calling _
  · split <;> rfl

theorem thrown_not_calling (h : w.isCalling = false) :
    (w.atStage w.stage.thrown).isCalling = false := by
  cases hstage : w.stage with
  | chat => simp [Worker.isCalling, hstage] at h
  | _ => rfl

end Stages

/-- Only a `dispatched` transition leads to a call. -/
theorem next_calling {w : Worker} {model : AiModel} {t : Transition}
    (h : (w.atStage (t.next model)).isCalling = true) : ∃ p, t = .dispatched p := by
  cases t with
  | ready p =>
    rw [Transition.next, resume_not_calling] at h
    cases h
  | dispatched p => exact ⟨p, rfl⟩
  | stage r =>
    rw [Transition.next, settle_not_calling] at h
    cases h
  | finish r => cases h
  | reject => cases h

section Steps

variable {E : Codec} {receipts : Receipts} {s s' : System} {n : ℕ} {w w' : Worker}
  {c : Circumstance} {db' : Shared}

/-- A request that is let to the upstream has dispatched its row, or found it dispatched. -/
theorem calling_of_perform (hn : (s.db.journal.map Row.scope).Nodup)
    (hw : s.workers[n]? = some w) (hfault : c.fault = .none)
    (hstep : w.perform E c s.db = (w', db')) (hcalls : w'.isCalling = true)
    (hbefore : w.isCalling = false) :
    (∃ model p, w.stage = .update model (.dispatched p) ∧ ∃ row ∈ s.db.journal,
        row.scope = w.scope ∧ row.status = 101 ∧ db'.calls = s.db.calls ∧
        db'.journal = Table.put Row.scope (row.after (.dispatched p)) s.db.journal) ∨
      s.takesOver E (.step n c) = true := by
  cases hstage : w.stage <;> simp only [Worker.perform, hstage] at hstep
  case update model _ =>
    split at hstep
    · next hmove =>
      cases hstep
      obtain ⟨p, rfl⟩ := next_calling hcalls
      obtain ⟨row, hrow, hscope, -, hstatus, -, rfl⟩ := transition_eq_some hn hmove
      exact Or.inl ⟨model, p, rfl, row, hrow, hscope, hstatus, rfl, rfl⟩
    · cases hstep
      cases hcalls
  case recheck =>
    split at hstep
    · cases hstep
      cases hcalls
    · next hread =>
      cases hstep
      split_ifs at hcalls with heq
      · obtain ⟨p, rfl⟩ := next_calling hcalls
        right
        simp [System.takesOver, hw, hstage, hfault, hread, heq]
      · cases hcalls
  case chat =>
    unfold Worker.isCalling at hbefore
    rw [hstage] at hbefore
    cases hbefore
  case claim =>
    split at hstep
    · cases hstep
      unfold claimed at hcalls
      split at hcalls <;> cases hcalls
    · cases hstep
      cases hcalls
  case existing =>
    split at hstep
    · cases hstep
      cases hcalls
    · cases hstep
      rw [resume_not_calling] at hcalls
      cases hcalls
  case capture =>
    split at hstep
    · cases hstep
      rw [captured_not_calling] at hcalls
      cases hcalls
    · cases hstep
      cases hcalls
  case release =>
    split at hstep
    · cases hstep
      rw [settled_not_calling] at hcalls
      cases hcalls
    · cases hstep
      cases hcalls
  case lookup | hold =>
    repeat' split at hstep
    all_goals
      cases hstep
      cases hcalls
  case completion | recordUsage =>
    cases hstep
    cases hcalls
  case replied | stopped =>
    cases hstep
    rw [hbefore] at hcalls
    cases hcalls

theorem step_calling (h : w.isCalling = true) (hstep : w.step E c s.db = (w', db')) :
    db'.journal = s.db.journal ∧ w'.isCalling = false ∧
      ∃ requestId, db'.calls = s.db.calls ++ [⟨w.scope, requestId⟩] := by
  cases hstage : w.stage with
  | chat _ p =>
    simp only [Worker.step, hstage, Worker.perform] at hstep
    cases hstep
    exact ⟨rfl, rfl, p.requestId, rfl⟩
  | _ => simp [Worker.isCalling, hstage] at h

theorem perform_calls (h : w.isCalling = false) (hstep : w.perform E c s.db = (w', db')) :
    db'.calls = s.db.calls := by
  unfold Worker.perform at hstep
  dsimp only at hstep
  repeat' split at hstep
  case h_7 hstage => simp [Worker.isCalling, hstage] at h
  all_goals
    obtain ⟨-, rfl⟩ := Prod.mk.inj hstep
    rfl

theorem step_calls (h : w.isCalling = false) (hstep : w.step E c s.db = (w', db')) :
    db'.calls = s.db.calls := by
  unfold Worker.step at hstep
  split at hstep
  · exact perform_calls h hstep
  · exact perform_calls h hstep
  · obtain ⟨-, rfl⟩ := Prod.mk.inj hstep
    rfl
  · obtain ⟨-, rfl⟩ := Prod.mk.inj hstep
    exact perform_calls h rfl

theorem calling_of_step (hn : (s.db.journal.map Row.scope).Nodup) (hw : s.workers[n]? = some w)
    (hstep : w.step E c s.db = (w', db')) (hcalls : w'.isCalling = true)
    (hbefore : w.isCalling = false) :
    (∃ model p, w.stage = .update model (.dispatched p) ∧ ∃ row ∈ s.db.journal,
        row.scope = w.scope ∧ row.status = 101 ∧ db'.calls = s.db.calls ∧
        db'.journal = Table.put Row.scope (row.after (.dispatched p)) s.db.journal) ∨
      s.takesOver E (.step n c) = true := by
  unfold Worker.step at hstep
  split at hstep
  · next hstage => simp [Worker.isCalling, hstage] at hbefore
  · next hfault _ => exact calling_of_perform hn hw hfault hstep hcalls hbefore
  · obtain ⟨rfl, -⟩ := Prod.mk.inj hstep
    cases (thrown_not_calling hbefore).symm.trans hcalls
  · obtain ⟨rfl, -⟩ := Prod.mk.inj hstep
    cases (thrown_not_calling hbefore).symm.trans hcalls

/-! ### The count -/

/-- How often the upstream was called for a key, or is about to be. -/
def System.callsOf (s : System) (scope : Scope) : ℕ := s.db.callsOf scope + s.callersOf scope

/-- The upstream is called once for a key, and only when its row is dispatched. -/
structure CalledOnce (s : System) : Prop where
  once : ∀ scope, s.callsOf scope ≤ 1
  dispatched : ∀ scope, 0 < s.callsOf scope →
    ∃ row ∈ s.db.journal, row.scope = scope ∧ 2 ≤ row.record.rank

/-- What the move of one worker does to the count of its key. -/
theorem callersOf_set (db' : Shared) (w' : Worker) (hw : s.workers[n]? = some w)
    (hscope : w'.scope = w.scope) (scope : Scope) :
    (System.mk db' (s.workers.set n w')).callersOf scope +
        (if w.scope = scope ∧ w.isCalling = true then 1 else 0) =
      s.callersOf scope +
        (if w.scope = scope ∧ w'.isCalling = true then 1 else 0) := by
  obtain ⟨hlt, hget⟩ := List.getElem?_eq_some_iff.mp hw
  have hpos : w.scope = scope ∧ w.isCalling = true →
      0 < s.workers.countP fun v => decide (v.scope = scope) && v.isCalling := by
    rintro ⟨hk, hcalls⟩
    refine List.countP_pos_iff.mpr ⟨w, List.mem_of_getElem? hw, ?_⟩
    simp [hk, hcalls]
  unfold System.callersOf
  rw [List.countP_set hlt, hget, hscope]
  simp only [Bool.and_eq_true, decide_eq_true_eq]
  by_cases h : w.scope = scope ∧ w.isCalling = true
  · have := hpos h
    rw [if_pos h]
    omega
  · rw [if_neg h]
    omega

theorem rank_leads {db : Shared} (hl : s.db.Leads db) {scope : Scope} {k : ℕ}
    (h : ∃ row ∈ s.db.journal, row.scope = scope ∧ k ≤ row.record.rank) :
    ∃ row ∈ db.journal, row.scope = scope ∧ k ≤ row.record.rank := by
  obtain ⟨row, hrow, hscope, hrank⟩ := h
  obtain ⟨row', hrow', hscope', -, -, hsame | ⟨t, hm, ht⟩⟩ := hl.rows row hrow
  · exact ⟨row', hrow', hscope'.trans hscope, by rw [hsame]; exact hrank⟩
  · refine ⟨row', hrow', hscope'.trans hscope, hrank.trans ?_⟩
    rw [ht]
    exact hm.rank_le

theorem calledOnce_step (hs : Holds E s) (h : CalledOnce s) (hw : s.workers[n]? = some w)
    (hover : s.takesOver E (.step n c) = false)
    (hstep : w.step E c s.db = (w', db')) :
    CalledOnce { db := db', workers := s.workers.set n w' } := by
  have hleads := leads_of_writes hs hw (step_writes hs.scopes hstep) rfl rfl
  obtain ⟨hrequest, -⟩ := step_request hstep
  have hscope : w'.scope = w.scope := by rw [Worker.scope, hrequest, Worker.scope]
  have hcallers := callersOf_set db' w' hw hscope
  have hkeep : (∀ scope, System.callsOf { db := db', workers := s.workers.set n w' } scope =
      s.callsOf scope) → CalledOnce { db := db', workers := s.workers.set n w' } := by
    refine fun hsame => ⟨fun scope => (hsame scope).trans_le (h.once scope), fun scope hpos => ?_⟩
    rw [hsame] at hpos
    exact rank_leads hleads (h.dispatched scope hpos)
  cases hcalls : w.isCalling with
  | true =>
    -- a call that was about to be made is made: the count is the same
    obtain ⟨-, hafter, _, hlog⟩ := step_calling hcalls hstep
    refine hkeep fun scope => ?_
    have := hcallers scope
    rw [hcalls, hafter] at this
    simp only [Bool.false_eq_true, and_false, and_true, if_false] at this
    unfold System.callsOf Shared.callsOf
    rw [hlog, List.countP_append, List.countP_singleton]
    simp only [decide_eq_true_eq]
    omega
  | false =>
    have hlog := step_calls hcalls hstep
    cases hafter : w'.isCalling with
    | false =>
      refine hkeep fun scope => ?_
      have := hcallers scope
      rw [hcalls, hafter] at this
      simp only [Bool.false_eq_true, and_false, if_false, add_zero] at this
      unfold System.callsOf Shared.callsOf
      rw [hlog, this]
    | true =>
      -- the row was ready, so the upstream was not called before
      rcases calling_of_step hs.scopes hw hstep hafter hcalls with
        ⟨model, p, hstage, row, hrow, hrscope, hstatus, -, hjournal⟩ | htakes
      · have hm := (hs.update hw hstage hrow hrscope hstatus).2
        have hnone : s.callsOf w.scope = 0 := by
          by_contra hne
          obtain ⟨row', hrow', hscope', hrank⟩ := h.dispatched w.scope (Nat.pos_of_ne_zero hne)
          obtain rfl := Table.eq_of_key hs.scopes hrow' hrow (hscope'.trans hrscope.symm)
          generalize row'.record = record at hm hrank
          cases hm with
          | dispatched p hp => simp [AiRequestRecord.rank, hp] at hrank
        have hone : ∀ scope, System.callsOf { db := db', workers := s.workers.set n w' } scope =
            s.callsOf scope + if w.scope = scope then 1 else 0 := by
          intro scope
          have := hcallers scope
          rw [hcalls, hafter] at this
          simp only [Bool.false_eq_true, and_false, and_true, if_false] at this
          unfold System.callsOf Shared.callsOf
          rw [hlog]
          omega
        refine ⟨fun scope => ?_, fun scope hpos => ?_⟩
        · rw [hone]
          split_ifs with hk
          · rw [← hk, hnone]
          · exact h.once scope
        · by_cases hk : w.scope = scope
          · refine ⟨row.after (.dispatched p), ?_, hrscope.trans hk, le_rfl⟩
            rw [hjournal]
            exact Table.mem_put_self hrow rfl
          · rw [hone, if_neg hk] at hpos
            exact rank_leads hleads (h.dispatched scope hpos)
      · cases hover.symm.trans htakes

theorem calledOnce_next {a : Action} (hs : Holds E s) (h : CalledOnce s)
    (hover : s.takesOver E a = false) (hnext : (requests E receipts).next s a = some s') :
    CalledOnce s' := by
  cases a with
  | arrive r cat =>
    cases hnext
    have hadds : ∀ u : Worker, u.isCalling = false →
        CalledOnce { s with workers := s.workers ++ [u] } := by
      intro u hu
      have hsame : ∀ scope, System.callsOf { s with workers := s.workers ++ [u] } scope =
          s.callsOf scope := by
        intro scope
        unfold System.callsOf System.callersOf
        rw [List.countP_append, List.countP_singleton]
        simp [hu]
      refine ⟨fun scope => (hsame scope).trans_le (h.once scope), fun scope hpos => ?_⟩
      exact h.dispatched scope (hpos.trans_eq (hsame scope))
    exact hadds _ (by cases invalidRequest? r <;> rfl)
  | crash n =>
    obtain ⟨w, hw, rfl⟩ := Option.map_eq_some_iff.mp hnext
    have hle : ∀ scope, System.callsOf { s with workers := s.workers.set n (w.atStage .stopped) }
        scope ≤ s.callsOf scope := by
      intro scope
      have := callersOf_set s.db (w.atStage .stopped) hw rfl scope
      have hstopped : (w.atStage .stopped).isCalling = false := rfl
      rw [hstopped] at this
      simp only [Bool.false_eq_true, and_false, if_false] at this
      unfold System.callsOf
      dsimp only
      omega
    exact ⟨fun scope => (hle scope).trans (h.once scope),
      fun scope hpos => h.dispatched scope (hpos.trans_le (hle scope))⟩
  | step =>
    obtain ⟨w, hw, hstep⟩ := Option.bind_eq_some_iff.mp hnext
    obtain ⟨-, heq⟩ := Option.ite_none_right_eq_some.mp hstep
    cases heq
    exact calledOnce_step hs h hw hover rfl

end Steps

/-- **The upstream is called at most once for a key**, in every run in which no request goes on
with a row it finds dispatched by another. -/
theorem chat_at_most_once (E : Codec) (receipts : Receipts) (s : System) (scope : Scope)
    (h : (requests E receipts).ReachVia (fun s a => s.takesOver E a = false) s) :
    s.db.callsOf scope ≤ 1 := by
  have hs : CalledOnce s := by
    have key : Holds E s ∧ CalledOnce s := by
      refine ReachVia.invariant (P := fun s => Holds E s ∧ CalledOnce s) ?_ ?_ h
      · refine ⟨holds_of_reachVia (PathVia.refl _ : (requests E receipts).Reachable _), ?_, ?_⟩
        · intro scope
          exact Nat.zero_le 1
        · intro scope hpos
          cases hpos
      · rintro s a _ ⟨hholds, honce⟩ hover hnext
        exact ⟨holds_next hholds hnext, calledOnce_next hholds honce hover hnext⟩
    exact key.2
  exact (Nat.le_add_right _ _).trans (hs.once scope)

/-! ### Runs -/

section Examples

/-- A catalog and a request, for the runs below. -/
def textModel : AiModel :=
  { id := "takoserver-text", created := 1787054400, ownedBy := "takoserver",
    limits := ⟨100, 10⟩, price := ⟨1000000, 1000000⟩ }

def textCatalog : Catalog := ⟨[textModel], by decide +kernel⟩

def plainCodec : Codec := ⟨fun _ => "sha256:0", fun _ => 100⟩

def noReceipts : Receipts := ⟨[], by simp, by simp⟩

def hello : ChatRequest :=
  { organizationId := "org_acme", idempotencyKey := some "chat", expectedPricingRevision := none,
    body := .obj [("model", .str "takoserver-text"),
      ("messages", .arr [.obj [("role", .str "user"), ("content", .str "hello")]])] }

def calledAt (now : Instant) (randomId : String) : Circumstance := { now, randomId }

/-- One request, up to its call of the upstream. -/
def callingRun : List Action :=
  [.arrive hello textCatalog, .step 0 (calledAt 1 "0"), .step 0 (calledAt 1 ""), .step 0 (calledAt 1 ""),
    .step 0 (calledAt 1 ""), .step 0 (calledAt 1 ""), .step 0 (calledAt 1 "")]

/-- The upstream is called once. -/
theorem chat_at_most_once_callingRun :
    ∃ s, (requests plainCodec noReceipts).ReachVia (fun s a => s.takesOver plainCodec a = false) s ∧
      s.db.calls = [⟨hello.scope, "ai_0"⟩] ∧ s.db.callsOf hello.scope ≤ 1 := by
  obtain ⟨s, hs, hp⟩ := exists_reachVia_of_run (M := requests plainCodec noReceipts)
    (fun s a => !s.takesOver plainCodec a) callingRun
    (fun s => decide (s.db.calls = [⟨hello.scope, "ai_0"⟩])) (by decide +kernel)
  simp only [Bool.not_eq_true'] at hs
  exact ⟨s, hs, of_decide_eq_true hp, chat_at_most_once plainCodec noReceipts s hello.scope hs⟩

/-- A second request of the key reads the row while it is ready, and makes its `UPDATE` once the
first has dispatched. -/
def secondCallRun : List Action :=
  [.arrive hello textCatalog, .step 0 (calledAt 1 "0"), .step 0 (calledAt 1 ""), .step 0 (calledAt 1 ""),
    .step 0 (calledAt 1 ""),
    .arrive hello textCatalog, .step 1 (calledAt 1 "1"), .step 1 (calledAt 1 ""), .step 1 (calledAt 1 ""),
    .step 0 (calledAt 1 ""), .step 0 (calledAt 1 ""),
    .step 1 (calledAt 1 ""), .step 1 (calledAt 1 ""), .step 1 (calledAt 1 "")]

/-- The upstream is called twice for one key. -/
theorem second_chat_call :
    ¬∀ (E : Codec) (receipts : Receipts) (s : System) (scope : Scope),
      (requests E receipts).Reachable s → s.db.callsOf scope ≤ 1 := by
  intro h
  obtain ⟨s, hs, hp⟩ := exists_reachable_of_run (M := requests plainCodec noReceipts) secondCallRun
    (fun s => decide (s.db.callsOf hello.scope = 2)) (by decide +kernel)
  have := h plainCodec noReceipts s hello.scope hs
  have := of_decide_eq_true hp
  omega

end Examples

end Takoserver.Ai
