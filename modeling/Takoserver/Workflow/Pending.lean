import Takoserver.CanonicalJson
import Takoserver.Workflow.Wakes

/-!
# The events of an instance that are pending

Under the exact v3 contract the insert of an event counts what is queued and its bytes, so that
no interleaving leaves an instance with more than the limits.  The size that it adds up is the
length of the canonical document of the event.  Without the contract nothing is counted.
-/

namespace Takoserver.Workflow

open JsonText

variable {db db' : Db} {s s' : System} {a : Action} {e : EventRow}

/-! ### The size of an event -/

def eventDocument (type : String) (payload : Option Json) : Json :=
  .obj (("type", .str type) :: (payload.map fun d => ("payload", d)).toList)

/-- The bytes of a row as the query counts them; `json_quote` writes what `JSON.stringify` does. -/
def queryBytes (type : String) : Option String → ℕ
  | none => 9 + (String.ofList (quote type)).utf8ByteSize
  | some payload =>
      20 + payload.utf8ByteSize + (String.ofList (quote type)).utf8ByteSize

theorem utf8ByteSize_ofList (text : List Char) :
    (String.ofList text).utf8ByteSize = (text.map Char.utf8Size).sum := by
  induction text with
  | nil => rfl
  | cons c text ih => simp [String.ofList_cons, ih]

theorem utf8Size_escape (c : Char) : ((escape c).map Char.utf8Size).sum = jsonCharBytes c := by
  by_cases hc : c.toNat < 0x80
  · have hsmall : ∀ n < 0x80, ((escape (Char.ofNat n)).map Char.utf8Size).sum =
        jsonCharBytes (Char.ofNat n) := by decide +kernel
    simpa using hsmall c.toNat hc
  · have hne {c' : Char} (hc' : c'.toNat < 0x80) : c ≠ c' := fun heq => hc (heq ▸ hc')
    have hnot : ∀ n < 0x80, c.toNat ≠ n := by omega
    have hplain : ¬ c.toNat < 0x20 := by omega
    simp [escape, jsonCharBytes, hne, hnot, hplain]

theorem utf8Size_quote (value : String) :
    ((quote value).map Char.utf8Size).sum = canonicalJsonStringBytes value := by
  have hescape : ∀ cs : List Char, ((cs.flatMap escape).map Char.utf8Size).sum =
      (cs.map jsonCharBytes).sum := by
    intro cs
    induction cs with
    | nil => rfl
    | cons c cs ih => simp [List.flatMap_cons, ih, utf8Size_escape]
  have hmark : Char.utf8Size '"' = 1 := rfl
  rw [quote, canonicalJsonStringBytes, ← hescape]
  simp [hmark]
  omega

/-- **The size of an event is the length of its canonical document**, and the query counts it. -/
theorem documentBytes_eq (type : String) (payload : Option Json) :
    documentBytes type (payload.map fun d => String.ofList (canonicalJson d)) =
      (String.ofList (canonicalJson (eventDocument type payload))).utf8ByteSize ∧
    ∀ payloadJson, queryBytes type payloadJson = documentBytes type payloadJson := by
  constructor
  · have hmarks : canonicalJsonStringBytes "type" = 6 ∧ canonicalJsonStringBytes "payload" = 9 ∧
        ['\x7b', '\x7d', ':', ','].map Char.utf8Size = [1, 1, 1, 1] := by decide +kernel
    simp only [List.map_cons, List.cons.injEq] at hmarks
    rw [utf8ByteSize_ofList]
    cases payload with
    | none =>
      simp [documentBytes, eventDocument, canonicalJson, canonicalMembers, sortByName, joinComma,
        memberText, utf8Size_quote, hmarks]
      omega
    | some d =>
      have hsort : sortByName [("type", quote type), ("payload", canonicalJson d)] =
          [("payload", canonicalJson d), ("type", quote type)] := by
        have hle : ¬ V2.codeUnits "type" ≤ V2.codeUnits "payload" := by decide +kernel
        simp [sortByName, List.orderedInsert, hle]
      simp [documentBytes, eventDocument, canonicalJson, canonicalMembers, hsort, joinComma,
        memberText, utf8Size_quote, utf8ByteSize_ofList, hmarks]
      omega
  · intro payloadJson
    cases payloadJson <;> simp only [queryBytes, documentBytes, utf8ByteSize_ofList, utf8Size_quote]

/-! ### The limits -/

namespace Db

/-- The events of an instance. -/
def pending (db : Db) (key : InstanceKey) : List EventRow :=
  db.events.filter fun e => decide (e.key = key)

/-- The events of an execution, as the query of `queueInsertStatement` selects them. -/
def existing (db : Db) (key : InstanceKey) (executionId : String) : List EventRow :=
  db.events.filter fun e => decide (e.key = key ∧ e.executionId = executionId)

end Db

/-- The events keep to the limits. -/
def Admitted (events : List EventRow) : Prop :=
  events.length ≤ maxPendingEventCount ∧
    (events.map fun e => documentBytes e.type e.payloadJson).sum ≤ maxPendingEventBytes

/-- What the queue of every execution keeps to. -/
def WithinLimits (db : Db) : Prop := ∀ key executionId, Admitted (db.existing key executionId)

theorem admitted_nil : Admitted [] := by simp [Admitted]

/-- Fewer events keep to the limits. -/
theorem Admitted.anti {events events' : List EventRow} (h : Admitted events)
    (hnodup : events'.Nodup) (hsub : events' ⊆ events) : Admitted events' := by
  obtain ⟨hlength, hbytes⟩ := h
  have hsubperm := List.subperm_of_subset hnodup hsub
  refine ⟨hsubperm.length_le.trans hlength, le_trans ?_ hbytes⟩
  obtain ⟨_, hperm, hsublist⟩ := hsubperm
  rw [← (hperm.map _).sum_eq]
  exact (hsublist.map _).sum_le_sum fun _ _ => Nat.zero_le _

theorem WithinLimits.anti {minted : List String} (h : WithinLimits db) (ht : Tidy minted db')
    (hsub : db'.events ⊆ db.events) : WithinLimits db' := fun key executionId =>
  (h key executionId).anti (ht.eventIds.of_map _ |>.filter _) (List.filter_subset _ hsub)

theorem WithinLimits.queueInsert (h : WithinLimits db) (attempt : InstanceRow) (event : Db.Event)
    (live : Bool) : WithinLimits (db.queueInsert attempt event live).1 := by
  by_cases hc : (db.queueInsert attempt event live).2 = true
  · intro key executionId
    obtain ⟨-, -, -, -, hevents, -⟩ := enqueued_queueInsert hc
    have hguard := hc
    simp only [Db.queueInsert, Bool.and_eq_true, decide_eq_true_eq] at hguard
    obtain ⟨-, hcount, hbytes⟩ := hguard
    rw [Db.existing, hevents, List.filter_append]
    by_cases hkey : attempt.toInstanceKey = key ∧ attempt.executionId = executionId
    · obtain ⟨rfl, rfl⟩ := hkey
      have hown : [db.queued attempt.toIncarnation event].filter (fun e => decide
          (e.key = attempt.toInstanceKey ∧ e.executionId = attempt.executionId)) =
          [db.queued attempt.toIncarnation event] := by
        simp [Db.queued]
      rw [hown, Admitted, List.length_append, List.map_append, List.sum_append]
      exact ⟨hcount, by simpa [Db.queued] using hbytes⟩
    · have hother : [db.queued attempt.toIncarnation event].filter (fun e =>
          decide (e.key = key ∧ e.executionId = executionId)) = [] := by
        simpa [Db.queued] using hkey
      rw [hother, List.append_nil]
      exact h key executionId
  · rw [queueInsert_fst (Bool.eq_false_iff.mpr hc)]
    exact h

theorem WithinLimits.sendV3 (h : WithinLimits db) (attempt : InstanceRow) (event : Db.Event)
    (wait : Option Db.PendingWait) (live : Bool) :
    WithinLimits (db.sendV3 attempt event wait live).1 := by
  cases wait with
  | none => exact h.queueInsert attempt event live
  | some wait =>
    -- the delivery leaves the queue alone
    have hdelivered : WithinLimits (db.deliver attempt event wait live).1 := h
    exact hdelivered.queueInsert attempt event live

/-! ### Runs -/

/-- A sender keeps to the exact v3 contract. -/
def Action.exact : Action → Bool
  | .send _ _ _ v3 => v3
  | _ => true

theorem Send.step_v3 {send : Send} {live : Bool} {result : Db × Send}
    (hn : send.step db live = some result) : result.2.v3 = send.v3 := by
  unfold Send.step at hn
  (repeat' split at hn) <;> cases hn <;> rfl

theorem exact_of_next (ha : a.exact = true) (hn : s.next a = some s')
    (h : ∀ send ∈ s.sends, send.v3 = true) : ∀ send ∈ s'.sends, send.v3 = true := by
  intro send hsend
  rcases senders_of_next hn with ⟨k, before, _, _, -, hbefore, hstep, -, -, hsends⟩ |
    ⟨-, hsends⟩
  · rw [hsends] at hsend
    rcases List.mem_or_eq_of_mem_set hsend with hold | rfl
    · exact h send hold
    · rw [Send.step_v3 hstep]
      exact h before (List.mem_of_getElem? hbefore)
  · rcases hsends send hsend with hold | ⟨_, _, _, _, rfl, rfl⟩
    · exact h send hold
    · exact ha

/-- A step of a sender under the contract keeps to the limits, and no other action queues. -/
theorem WithinLimits.next (hs : Sound s) (hv : ∀ send ∈ s.sends, send.v3 = true)
    (h : WithinLimits s.db) (hn : s.next a = some s') : WithinLimits s'.db := by
  have ht' := (hs.next hn).tidy
  obtain ⟨-, hback⟩ := (changes_of_next hs hn).event_back (hs.tidy.mono (minted_of_next hn))
  have hsame (heq : s'.db.lastEventId = s.db.lastEventId) : WithinLimits s'.db := by
    refine h.anti ht' fun e he => (hback e he).resolve_right fun hlt => ?_
    have hle := ht'.lastEventId e he
    omega
  rcases accepted_of_next hn with ⟨k, live, rfl, -⟩ | ⟨-, heq⟩
  · simp only [System.next] at hn
    split at hn
    · cases hn
    next send hsend =>
    have hv3 := hv send (List.mem_of_getElem? hsend)
    obtain ⟨_, hstep, rfl⟩ := Option.map_eq_some_iff.mp hn
    unfold Send.step at hstep
    split at hstep
    case h_3 =>
      rw [if_pos hv3] at hstep
      cases hstep
      exact hsame rfl
    case h_4 row wait _ =>
      cases hstep
      exact h.sendV3 row send.event wait live
    all_goals (repeat' split at hstep) <;> cases hstep <;> exact hsame rfl
  · exact hsame heq

/-- **The events of an instance that are pending keep to the limits**, whatever the order in which
they are sent, consumed and removed, and the size that counts is the length of the canonical
document, which the query computes from the row. -/
theorem pending_bounded (h : workflows.ReachVia (fun _ a => a.exact) s) (key : InstanceKey) :
    (s.db.pending key).length ≤ maxPendingEventCount ∧
    ((s.db.pending key).map fun e => documentBytes e.type e.payloadJson).sum ≤
      maxPendingEventBytes ∧
    ∀ type, (∀ payload : Option Json,
      documentBytes type (payload.map fun d => String.ofList (canonicalJson d)) =
        (String.ofList (canonicalJson (eventDocument type payload))).utf8ByteSize) ∧
      ∀ payloadJson, queryBytes type payloadJson = documentBytes type payloadJson := by
  have hlimits : workflows.Reachable s ∧ (∀ send ∈ s.sends, send.v3 = true) ∧
      WithinLimits s.db := by
    refine Machine.ReachVia.invariant (P := fun s => workflows.Reachable s ∧
      (∀ send ∈ s.sends, send.v3 = true) ∧ WithinLimits s.db) ?_ ?_ h
    · exact ⟨Machine.PathVia.refl _, (fun _ hsend => by cases hsend), fun _ _ => admitted_nil⟩
    · rintro s a _ ⟨hr, hv, hw⟩ ha hn
      exact ⟨hr.next hn, exact_of_next ha hn hv, hw.next (sound_of_reachable hr) hv hn⟩
  obtain ⟨hr, -, hw⟩ := hlimits
  have ht := (sound_of_reachable hr).tidy
  have hadmitted : Admitted (s.db.pending key) := by
    by_cases hrow : ∃ e ∈ s.db.events, e.key = key
    · obtain ⟨e, he, rfl⟩ := hrow
      -- an instance has one execution, whose events they are
      have hpending : s.db.pending e.key = s.db.existing e.key e.executionId := by
        refine List.filter_congr fun e' he' => decide_eq_decide.mpr
          ⟨fun hkey => ⟨hkey, ?_⟩, And.left⟩
        obtain ⟨r, hr, hrk, hre, -⟩ := ht.eventOf e he
        obtain ⟨_, hr', hrk', hre', -⟩ := ht.eventOf e' he'
        rw [hre, hre', Table.eq_of_key ht.keys hr hr' (by rw [← hrk, ← hrk', hkey])]
      rw [hpending]
      exact hw _ _
    · have hnone : s.db.pending key = [] :=
        List.filter_eq_nil_iff.mpr fun e he heq => hrow ⟨e, he, of_decide_eq_true heq⟩
      rw [hnone]
      exact admitted_nil
  refine ⟨hadmitted.1, hadmitted.2, fun type => ⟨fun payload => ?_, ?_⟩⟩
  · exact (documentBytes_eq type payload).1
  · exact (documentBytes_eq type none).2

/-- An event is sent to an instance that has just been created. -/
def sendActions (payloadJson : Option String) (v3 : Bool) : List Action :=
  [.create someIncarnation true, .send someKey "type" payloadJson v3, .sendStep 0 true,
    .sendStep 0 true, .sendStep 0 true]

theorem pending_bounded_sendActions :
    ∃ s, workflows.ReachVia (fun _ a => a.exact) s ∧ (s.db.pending someKey).length = 1 ∧
      ((s.db.pending someKey).map fun e => documentBytes e.type e.payloadJson).sum ≤
        maxPendingEventBytes := by
  obtain ⟨s, hs, hp⟩ := Machine.exists_reachVia_of_run (M := workflows) (fun _ a => a.exact)
    (sendActions none true ++ [.sendStep 0 true])
    (fun s => decide ((s.db.pending someKey).length = 1)) (by decide +kernel)
  exact ⟨s, hs, of_decide_eq_true hp, (pending_bounded hs someKey).2.1⟩

/-- A document of `n + 6` bytes. -/
def longPayload (n : ℕ) : String := "\x7b\"" ++ String.ofList (List.replicate n 'a') ++ "\":1\x7d"

theorem utf8ByteSize_longPayload (n : ℕ) : (longPayload n).utf8ByteSize = n + 6 := by
  have hends : ("\x7b\"" : String).utf8ByteSize = 2 ∧ ("\":1\x7d" : String).utf8ByteSize = 4 ∧
      Char.utf8Size 'a' = 1 := by decide +kernel
  simp only [longPayload, String.utf8ByteSize_append, utf8ByteSize_ofList, List.map_replicate,
    List.sum_replicate_nat, hends]
  omega

theorem pending_sendActions {payload : String} (h : maxPendingEventBytes ≤ payload.utf8ByteSize) :
    ∃ s, workflows.Reachable s ∧ maxPendingEventBytes <
      ((s.db.pending someKey).map fun e => documentBytes e.type e.payloadJson).sum := by
  have hrun : (workflows.run workflows.init (sendActions (some payload) false)).map
      (fun s => (s.db.pending someKey).map fun e => (e.type, e.payloadJson)) =
        some [("type", some payload)] := rfl
  obtain ⟨s, hs, hpending⟩ := Option.map_eq_some_iff.mp hrun
  refine ⟨s, Machine.reachable_of_run hs, ?_⟩
  have hbytes : (s.db.pending someKey).map (fun e => documentBytes e.type e.payloadJson) =
      [documentBytes "type" (some payload)] := by
    simpa only [List.map_map, Function.comp_def, List.map_cons, List.map_nil] using
      congrArg (List.map fun e : String × Option String => documentBytes e.1 e.2) hpending
  rw [hbytes, List.sum_singleton, documentBytes]
  omega

/-- Without the contract a document of the greatest length is taken, and is too long as an event. -/
theorem not_pending_bounded :
    (longPayload 1048570).utf8ByteSize = 1048576 ∧ ∃ s, workflows.Reachable s ∧
      maxPendingEventBytes <
        ((s.db.pending someKey).map fun e => documentBytes e.type e.payloadJson).sum := by
  have hsize := utf8ByteSize_longPayload 1048570
  exact ⟨hsize, pending_sendActions (Nat.le_of_eq hsize.symm)⟩

end Takoserver.Workflow
