import Takoserver.Workflow.Memo

/-!
# The events of an execution

An event that is queued stays queued until a wait consumes it or its execution ends, and a wait
consumes the first event of its type that came in time.
-/

namespace Takoserver.Workflow

open Db (Assignment Outcome)

variable {minted : List String} {db db' : Db} {m : Move} {s s' : System} {a : Action}
  {clock : Instant}

/-! ### The query of a wait -/

theorem least_foldl (es : List EventRow) (best : Option EventRow) :
    ∀ e, es.foldl (fun best e => match best with
        | none => some e
        | some b => if b.eventId ≤ e.eventId then some b else some e) best = some e →
      (e ∈ es ∨ best = some e) ∧ (∀ e' ∈ es, e.eventId ≤ e'.eventId) ∧
        ∀ b, best = some b → e.eventId ≤ b.eventId := by
  induction es generalizing best with
  | nil =>
    intro e h
    refine ⟨Or.inr h, by simp, fun b hb => ?_⟩
    rw [List.foldl_nil, hb] at h
    exact Nat.le_of_eq (congrArg EventRow.eventId (Option.some.inj h).symm)
  | cons x es ih =>
    intro e h
    rw [List.foldl_cons] at h
    obtain ⟨hmem, hleast, hbest⟩ := ih _ e h
    cases best with
    | none =>
      have hx := hbest x rfl
      refine ⟨Or.inl ?_, ?_, by simp⟩
      · rcases hmem with hmem | heq
        · exact List.mem_cons_of_mem _ hmem
        · rw [Option.some.inj heq]
          exact List.mem_cons_self
      · intro e' he'
        rcases List.mem_cons.mp he' with rfl | he'
        · exact hx
        · exact hleast e' he'
    | some b =>
      by_cases hle : b.eventId ≤ x.eventId
      · simp only [if_pos hle] at hmem hbest
        have hb := hbest b rfl
        refine ⟨hmem.imp_left (List.mem_cons_of_mem _), ?_, ?_⟩
        · intro e' he'
          rcases List.mem_cons.mp he' with rfl | he'
          · omega
          · exact hleast e' he'
        · intro b' hb'
          rw [← Option.some.inj hb']
          exact hb
      · simp only [if_neg hle] at hmem hbest
        have hx := hbest x rfl
        refine ⟨Or.inl ?_, ?_, ?_⟩
        · rcases hmem with hmem | heq
          · exact List.mem_cons_of_mem _ hmem
          · rw [Option.some.inj heq]
            exact List.mem_cons_self
        · intro e' he'
          rcases List.mem_cons.mp he' with rfl | he'
          · exact hx
          · exact hleast e' he'
        · intro b' hb'
          rw [← Option.some.inj hb']
          omega

variable {i : Incarnation} {e : EventRow} {run : Run} {step : Run.Step} {result : Run.Result}
  {live : Bool} {name : String} {w : EventWhere}

/-- **The query of a wait finds the least event id.** -/
theorem nextEvent_least {type : String} {timeoutAt : Instant}
    (h : db.nextEvent i type timeoutAt = some e) :
    e ∈ db.events ∧ ∀ e' ∈ db.events, e'.key = i.toInstanceKey → e'.executionId = i.executionId →
      e'.type = type → e'.createdAt ≤ timeoutAt → e.eventId ≤ e'.eventId := by
  obtain ⟨hmem, hleast, -⟩ := least_foldl _ _ e h
  rcases hmem with hmem | hnone
  · refine ⟨(List.mem_filter.mp hmem).1, fun e' he' hkey hexec htype hle => ?_⟩
    exact hleast e' (List.mem_filter.mpr ⟨he', decide_eq_true ⟨hkey, hexec, htype, hle⟩⟩)
  · cases hnone

/-! ### What actions record -/

/-- A wait is the only action that consumes, and it consumes the event that it has found. -/
theorem Run.step_consumed (hn : run.step db clock step = some result) :
    result.consumed = none ∨ ∃ key row w timestamp live e, step = .take timestamp live ∧
      run.call = .taking key row w ∧
      (db.consume run.identity key row.revision w timestamp live).2 = true ∧
      result.db = (db.consume run.identity key row.revision w timestamp live).1 ∧
      db.events.find? (EventRow.meets run.identity.toIncarnation w) = some e ∧
      result.consumed = some (e, key) := by
  cases Run.stepped hn with
  | look =>
    obtain ⟨_, _, heq⟩ := look_eq
    rw [heq]
    exact Or.inl rfl
  | readBack =>
    obtain ⟨_, _, heq⟩ := readBack_eq
    rw [heq]
    exact Or.inl rfl
  | take key row w timestamp live hcall =>
    split
    · next htaken =>
      cases hfind : db.events.find? (EventRow.meets run.identity.toIncarnation w) with
      | none => exact Or.inl rfl
      | some e => exact Or.inr ⟨key, row, w, timestamp, live, e, rfl, hcall, htaken, rfl, hfind, rfl⟩
    · exact Or.inl rfl
  | _ => exact Or.inl rfl

theorem consumed_of_next (hn : s.next a = some s') :
    s'.consumed = s.consumed ∨ ∃ i run key row w timestamp live e, a = .run i (.take timestamp live) ∧
      s.runs[i]? = some run ∧ run.call = .taking key row w ∧
      (s.db.consume run.identity key row.revision w timestamp live).2 = true ∧
      s'.db = (s.db.consume run.identity key row.revision w timestamp live).1 ∧
      s.db.events.find? (EventRow.meets run.identity.toIncarnation w) = some e ∧
      s'.consumed = s.consumed ++ [(e, run.identity.toIncarnation, key)] := by
  cases a <;> simp only [System.next, System.caller] at hn
  case sendStep =>
    split at hn
    · cases hn
    · obtain ⟨_, -, rfl⟩ := Option.map_eq_some_iff.mp hn
      exact Or.inl rfl
  case run i _ =>
    split at hn
    · cases hn
    · next run hrun =>
      obtain ⟨_, hstep, rfl⟩ := Option.map_eq_some_iff.mp hn
      rcases Run.step_consumed hstep with hnone |
        ⟨key, row, w, timestamp, live, e, rfl, hcall, htaken, hdb, hfind, hconsumed⟩
      · simp [hnone]
      · exact Or.inr ⟨i, run, key, row, w, timestamp, live, e, rfl, hrun, hcall, htaken, hdb, hfind,
          by simp [hconsumed]⟩
  all_goals (repeat' split at hn) <;> cases hn <;> exact Or.inl rfl

/-! Only a sender draws an event id. -/

theorem create_lastEventId :
    (db.create i live).lastEventId = db.lastEventId := by
  unfold Db.create
  dsimp only
  split <;> rfl

theorem cleanup_lastEventId {guard : InstanceRow → Bool} :
    (db.cleanup i guard).lastEventId = db.lastEventId := by
  unfold Db.cleanup
  split <;> rfl

theorem insertStep_lastEventId {identity : RunIdentity} {config : StepConfig} {timestamp : Instant} :
    (db.insertStep identity name config timestamp live).1.lastEventId = db.lastEventId := by
  unfold Db.insertStep
  split <;> rfl

theorem Run.step_lastEventId (hn : run.step db clock step = some result) :
    result.db.lastEventId = db.lastEventId := by
  cases Run.stepped hn with
  | terminalize => exact cleanup_lastEventId
  | look => rw [look_db]
  | insert => exact insertStep_lastEventId
  | readBack => rw [readBack_db]
  | _ => rfl

theorem accepted_of_next (hn : s.next a = some s') :
    (∃ k live, a = .sendStep k live ∧ s'.accepted = s.accepted ++
        s'.db.events.filter fun e => decide (s.db.lastEventId < e.eventId)) ∨
      s'.accepted = s.accepted ∧ s'.db.lastEventId = s.db.lastEventId := by
  cases a <;> simp only [System.next, System.caller] at hn
  case create =>
    split at hn
    · cases hn
      exact Or.inr ⟨rfl, create_lastEventId⟩
    · cases hn
  case terminate =>
    split at hn
    · cases hn
      exact Or.inr ⟨rfl, cleanup_lastEventId⟩
    · cases hn
  case finalizeTermination =>
    split at hn
    · cases hn
    · split at hn
      · cases hn
        exact Or.inr ⟨rfl, cleanup_lastEventId⟩
      · cases hn
  case sendStep k live =>
    split at hn
    · cases hn
    · obtain ⟨_, -, rfl⟩ := Option.map_eq_some_iff.mp hn
      exact Or.inl ⟨k, live, rfl, rfl⟩
  case run =>
    split at hn
    · cases hn
    · obtain ⟨_, hstep, rfl⟩ := Option.map_eq_some_iff.mp hn
      exact Or.inr ⟨rfl, Run.step_lastEventId hstep⟩
  all_goals (repeat' split at hn) <;> cases hn <;> exact Or.inr ⟨rfl, rfl⟩

/-! ### The history of the queue -/

/-- No open row has the execution id. -/
def Ended (db : Db) (executionId : String) : Prop :=
  ∀ r ∈ db.instances, r.executionId = executionId → r.status.terminal = true

theorem Change.ended (hc : Change m db db') {executionId : String} (hi : executionId ∈ m.former)
    (h : Ended db executionId) : Ended db' executionId := by
  intro r' hr' heq
  rcases hc.row_back hr' with ⟨r, hr, hb⟩ | hfresh
  · exact hb.terminal (h r hr (by rw [← hb.incarnation, heq]))
  · refine absurd ?_ hfresh.former
    rw [heq]
    exact hi

/-- An event stays, or is consumed, or its execution ends. -/
theorem Changes.event_kept (h : Tidy m.minted db) (hc : Changes m db db')
    (hi : e.executionId ∈ m.former) (he : e ∈ db.events ∨ e ∈ m.taken ∨ Ended db e.executionId) :
    e ∈ db'.events ∨ e ∈ m.taken ∨ Ended db' e.executionId := by
  refine hc.induct h
    (P := fun d => e ∈ d.events ∨ e ∈ m.taken ∨ Ended d e.executionId) ?_ he
  rintro d _ hd hc (hmem | htaken | hended)
  · exact (hc.event_forth hd hmem).imp_right (Or.imp_left And.left)
  · exact Or.inr (Or.inl htaken)
  · exact Or.inr (Or.inr (hc.ended hi hended))

theorem Changes.event_back (h : Tidy m.minted db) (hc : Changes m db db') :
    db.lastEventId ≤ db'.lastEventId ∧
      ∀ e ∈ db'.events, e ∈ db.events ∨ db.lastEventId < e.eventId := by
  refine hc.induct h (P := fun d => db.lastEventId ≤ d.lastEventId ∧
    ∀ e ∈ d.events, e ∈ db.events ∨ db.lastEventId < e.eventId) ?_
    ⟨Nat.le_refl _, fun _ he => Or.inl he⟩
  rintro d _ - hc ⟨hle, hevents⟩
  refine ⟨Nat.le_trans hle hc.lastEventId, fun e he => ?_⟩
  rcases hc.event_back he with hold | hnew
  · exact hevents e hold
  · exact Or.inr (Nat.lt_of_le_of_lt hle hnew)

/-- The history of the queue: what was accepted, what is queued and what was consumed. -/
structure Recorded (s : System) : Prop where
  ids : (s.accepted.map EventRow.eventId).Nodup
  accepted : ∀ e ∈ s.accepted, e.eventId ≤ s.db.lastEventId ∧ e.executionId ∈ s.minted
  queued : ∀ e ∈ s.db.events, e ∈ s.accepted
  once : (s.consumed.map fun c => c.1.eventId).Nodup
  consumed : ∀ c ∈ s.consumed, c.1 ∈ s.accepted ∧ c.1 ∉ s.db.events
  kept : ∀ e ∈ s.accepted,
    e ∈ s.db.events ∨ (∃ c ∈ s.consumed, c.1 = e) ∨ Ended s.db e.executionId

theorem not_mem_consume {identity : RunIdentity} {revision : ℕ} {timestamp : Instant}
    (htaken : (db.consume identity name revision w timestamp live).2 = true)
    (hmeets : e.meets identity.toIncarnation w = true) :
    e ∉ (db.consume identity name revision w timestamp live).1.events := by
  intro hmem
  obtain ⟨-, hany⟩ := Bool.and_eq_true_iff.mp htaken
  obtain ⟨_, -, hc⟩ := List.any_eq_true.mp hany
  obtain ⟨hc, hruns⟩ := Bool.and_eq_true_iff.mp hc
  obtain ⟨-, hsettled⟩ := Bool.and_eq_true_iff.mp hc
  have hnot := (Table.mem_delete.mp hmem).2
  simp only [hmeets, hsettled, hruns, Bool.and_self] at hnot
  cases hnot

theorem Recorded.next (h : Sound s) (hr : Recorded s) (hn : s.next a = some s') : Recorded s' := by
  have hsub := minted_of_next hn
  have ht : Tidy (s.move s' a).minted s.db := h.tidy.mono hsub
  have hc := changes_of_next h hn
  have ht' := (h.next hn).tidy
  obtain ⟨hlast, hback⟩ := hc.event_back ht
  -- what is accepted by the action is queued by it
  have haccepted : ∃ new, s'.accepted = s.accepted ++ new ∧ (new.map EventRow.eventId).Nodup ∧
      (∀ e ∈ new, s.db.lastEventId < e.eventId ∧ e ∈ s'.db.events) ∧
      ∀ e ∈ s'.db.events, e ∈ s.db.events ∨ e ∈ new := by
    rcases accepted_of_next hn with ⟨k, _, -, heq⟩ | ⟨heq, _⟩
    · refine ⟨_, heq, ht'.eventIds.sublist (List.filter_sublist.map _), fun e he => ?_,
        fun e he => (hback e he).imp_right fun hnew => ?_⟩
      · exact ⟨of_decide_eq_true (List.mem_filter.mp he).2, (List.mem_filter.mp he).1⟩
      · exact List.mem_filter.mpr ⟨he, decide_eq_true hnew⟩
    · refine ⟨[], by rw [heq, List.append_nil], List.nodup_nil, by simp, fun e he => ?_⟩
      rcases hback e he with hold | _
      · exact Or.inl hold
      · have hle := ht'.lastEventId e he
        omega
  obtain ⟨_, heq, hnodup, hnew, hevents⟩ := haccepted
  have hgrows : ∀ e ∈ s.accepted, e ∈ s'.accepted := by
    intro e he
    rw [heq]
    exact List.mem_append_left _ he
  -- what has been consumed does not come back
  have hgone : ∀ c ∈ s.consumed, c.1 ∉ s'.db.events := by
    intro c hmem he
    obtain ⟨hin, hout⟩ := hr.consumed c hmem
    rcases hevents c.1 he with hold | hmem'
    · exact hout hold
    · have hlt := (hnew c.1 hmem').1
      have hle := (hr.accepted c.1 hin).1
      omega
  have hconsumed : (s'.consumed.map fun c => c.1.eventId).Nodup ∧
      (∀ c ∈ s'.consumed, c.1 ∈ s'.accepted ∧ c.1 ∉ s'.db.events) ∧
      ∀ c ∈ s.consumed, c ∈ s'.consumed := by
    rcases consumed_of_next hn with hsame |
      ⟨i, _, _, _, w, _, _, e, -, -, -, htaken, hdb, hfind, hsame⟩
    · rw [hsame]
      exact ⟨hr.once, fun c hmem => ⟨hgrows _ (hr.consumed c hmem).1, hgone c hmem⟩, fun _ h => h⟩
    have he := List.mem_of_find?_eq_some hfind
    have hmeets := List.find?_some hfind
    have hqueued := hr.queued e he
    rw [hsame]
    refine ⟨?_, fun c hmem => ?_, fun c hmem => List.mem_append_left _ hmem⟩
    · refine Table.nodup_insert hr.once fun c hmem hid => ?_
      obtain ⟨hin, hout⟩ := hr.consumed c hmem
      rw [Table.eq_of_key hr.ids hin hqueued hid] at hout
      exact hout he
    · rcases List.mem_append.mp hmem with hmem | hmem
      · exact ⟨hgrows _ (hr.consumed c hmem).1, hgone c hmem⟩
      · rw [List.mem_singleton.mp hmem, hdb]
        exact ⟨hgrows e hqueued, not_mem_consume htaken hmeets⟩
  exact
    { ids := by
        rw [heq, List.map_append, List.nodup_append]
        refine ⟨hr.ids, hnodup, ?_⟩
        intro id hid id' hid' hsame
        obtain ⟨e, he, rfl⟩ := List.mem_map.mp hid
        obtain ⟨e', he', rfl⟩ := List.mem_map.mp hid'
        have hlt := (hnew e' he').1
        have hle := (hr.accepted e he).1
        omega
      accepted := by
        intro e he
        rw [heq] at he
        rcases List.mem_append.mp he with hold | hmem
        · obtain ⟨hle, hminted⟩ := hr.accepted e hold
          exact ⟨Nat.le_trans hle hlast, hsub hminted⟩
        · have hqueued := (hnew e hmem).2
          obtain ⟨r, hr', -, hexec, -⟩ := ht'.eventOf e hqueued
          refine ⟨ht'.lastEventId e hqueued, ?_⟩
          rw [hexec]
          exact ht'.minted r hr'
      queued := by
        intro e he
        rcases hevents e he with hold | hmem
        · exact hgrows e (hr.queued e hold)
        · rw [heq]
          exact List.mem_append_right _ hmem
      once := hconsumed.1
      consumed := hconsumed.2.1
      kept := by
        intro e he
        rw [heq] at he
        rcases List.mem_append.mp he with hold | hmem
        · have hkept : (∃ c ∈ s'.consumed, c.1 = e) ∨ e ∈ s'.db.events ∨
              e ∈ (s.move s' a).taken ∨ Ended s'.db e.executionId := by
            rcases hr.kept e hold with hqueued | ⟨c, hmem, heq⟩ | hended
            · exact Or.inr (hc.event_kept ht (hr.accepted e hold).2 (Or.inl hqueued))
            · exact Or.inl ⟨c, hconsumed.2.2 c hmem, heq⟩
            · exact Or.inr (hc.event_kept ht (hr.accepted e hold).2 (Or.inr (Or.inr hended)))
          rcases hkept with hout | hin | htaken | hended
          · exact Or.inr (Or.inl hout)
          · exact Or.inl hin
          · obtain ⟨c, hmem, heq⟩ := List.mem_map.mp htaken
            exact Or.inr (Or.inl ⟨c, List.mem_of_mem_drop hmem, heq⟩)
          · exact Or.inr (Or.inr hended)
        · exact Or.inl (hnew e hmem).2 }

/-- **What was accepted is queued, or consumed once, or its execution has ended.** -/
theorem recorded_of_reachable (h : workflows.Reachable s) : Recorded s := by
  refine Machine.Reachable.invariant (P := Recorded) ?_
    (fun s a s' hs hr hn => hr.next (sound_of_reachable hs) hn) h
  constructor <;> simp [workflows]

/-! ### Between the query and the batch -/

/-- What a wait knows of the event that it has found: none of its type that came in time is
before it. -/
def Aim (db : Db) (i : Incarnation) (row : StepRow) (w : EventWhere) : Prop :=
  w.eventId ≤ db.lastEventId ∧
    (∀ e ∈ db.events, e.key = i.toInstanceKey → e.executionId = i.executionId → e.type = w.type →
      e.createdAt ≤ w.timeoutAt → w.eventId ≤ e.eventId) ∧
    ∃ type seconds, row.config = .wait type seconds ∧ w.type = type ∧
      w.timeoutAt = Run.waitTimeout row seconds

/-- A wait aims at the event that its query finds. -/
theorem Run.taking_back {key : String} {row : StepRow} (ht : Tidy minted db)
    (hn : run.step db clock step = some result) (h : result.run.call = .taking key row w) :
    run.call = .taking key row w ∨ Aim db run.identity.toIncarnation row w := by
  cases Run.stepped hn with
  | start _ _ _ hrun =>
    rcases hrun with rfl | rfl <;> exact Or.inl h
  | begin _ _ _ _ _ _ hcall =>
    rcases hcall with rfl | rfl <;> cases h
  | look =>
    unfold Run.look at h
    (repeat' split at h) <;> cases h
  | find =>
    dsimp only [Run.goes, Run.find] at h
    (repeat' split at h) <;> cases h
  | insert | expire | take | write =>
    split at h <;> cases h
  | readBack =>
    unfold Run.readBack at h
    (repeat' split at h) <;> cases h
  | decide =>
    unfold Run.decides at h
    split at h
    · (repeat' split at h) <;> cases h
    · (repeat' split at h) <;> cases h
    next type seconds hconfig =>
    split at h
    · cases h
    · split at h
      · next e hnext =>
        cases h
        obtain ⟨he, hleast⟩ := nextEvent_least hnext
        exact Or.inr ⟨ht.lastEventId e he, hleast, type, seconds, hconfig, rfl, rfl⟩
      · cases h
  | settle =>
    unfold Run.attempted at h
    (repeat' split at h) <;> cases h
  | effect | park => cases h
  | _ => exact Or.inl h

theorem Changes.aim (h : Tidy m.minted db) (hc : Changes m db db') {row : StepRow}
    (ha : Aim db i row w) : Aim db' i row w := by
  obtain ⟨hlast, hback⟩ := hc.event_back h
  obtain ⟨hid, hleast, hconfig⟩ := ha
  refine ⟨Nat.le_trans hid hlast, fun e he hkey hexec htype hle => ?_, hconfig⟩
  rcases hback e he with hold | hnew
  · exact hleast e hold hkey hexec htype hle
  · exact Nat.le_of_lt (Nat.lt_of_le_of_lt hid hnew)

/-- Every wait that has found an event aims at the first. -/
def Aimed (s : System) : Prop :=
  ∀ run ∈ s.runs, ∀ key row w, run.call = .taking key row w →
    Aim s.db run.identity.toIncarnation row w

theorem Aimed.next (h : Sound s) (ha : Aimed s) (hn : s.next a = some s') : Aimed s' := by
  have ht : Tidy (s.move s' a).minted s.db := h.tidy.mono (minted_of_next hn)
  have hc := changes_of_next h hn
  intro run' hrun' key row w hcall
  rcases runs_of_next hn with ⟨i, _, run, _, rfl, hrun, hstep, -, -, hruns⟩ |
    ⟨_, -, _, _, _, _, -, -, -, -, -, -, -, hruns⟩ | ⟨hruns, -⟩
  · rw [hruns] at hrun'
    rcases List.mem_or_eq_of_mem_set hrun' with hold | rfl
    · exact hc.aim ht (ha run' hold key row w hcall)
    · rw [Run.step_identity hstep]
      refine hc.aim ht ?_
      rcases Run.taking_back h.tidy hstep hcall with hbefore | haim
      · exact ha run (List.mem_of_getElem? hrun) key row w hbefore
      · exact haim
  · rw [hruns] at hrun'
    rcases List.mem_append.mp hrun' with hold | hnew
    · exact hc.aim ht (ha run' hold key row w hcall)
    · rw [List.mem_singleton.mp hnew] at hcall
      cases hcall
  · rw [hruns] at hrun'
    exact hc.aim ht (ha run' hrun' key row w hcall)

/-- Between the query and the batch no event comes before the one found. -/
theorem aimed_of_reachable (h : workflows.Reachable s) : Aimed s :=
  Machine.Reachable.invariant (P := Aimed) (fun _ h => by cases h)
    (fun _ _ _ hs ha hn => ha.next (sound_of_reachable hs) hn) h

/-- **A wait consumes the first event of its type that came in time.** -/
theorem consumes_first (h : workflows.Reachable s) (hn : s.next a = some s')
    (hconsumed : s'.consumed = s.consumed ++ [(e, i, name)]) :
    ∃ type seconds, ∃ p ∈ s.db.steps, p.execution = i ∧ p.name = name ∧
      p.config = .wait type seconds ∧ p.state = .waiting ∧
      e ∈ s.db.events ∧ e.executionId = i.executionId ∧ e.type = type ∧
      e.createdAt ≤ Run.waitTimeout p seconds ∧
      (∀ e' ∈ s.db.events, e'.executionId = i.executionId → e'.type = type →
        e'.createdAt ≤ Run.waitTimeout p seconds → e.eventId ≤ e'.eventId) ∧
      ∃ p' ∈ s'.db.steps, p'.execution = i ∧ p'.name = name ∧ p'.state = .complete ∧
        p'.resultJson = e.payloadJson := by
  have hsound := sound_of_reachable h
  rcases consumed_of_next hn with hsame |
    ⟨j, run, key, row, w, _, _, _, -, hrun, hcall, htaken, hdb, hfind, hsame⟩
  · rw [hsame] at hconsumed
    have hlength := congrArg List.length hconsumed
    simp at hlength
  rw [hsame] at hconsumed
  have hlast := List.append_cancel_left hconsumed
  obtain ⟨rfl, rfl, rfl⟩ := hlast
  have hmem := List.mem_of_getElem? hrun
  obtain ⟨hany, -⟩ := Bool.and_eq_true_iff.mp htaken
  obtain ⟨p, hp, hc⟩ := List.any_eq_true.mp hany
  have hc' := hc
  simp only [Bool.and_eq_true, decide_eq_true_eq] at hc'
  obtain ⟨⟨hchanges, hwaiting⟩, -⟩ := hc'
  obtain ⟨hstep, -, hruns⟩ := changes_iff.mp hchanges
  have howns := owns_of_runExists hruns
  have hfits := (hsound.runs run hmem).call howns
  rw [hcall] at hfits
  obtain rfl := hfits.1.eq_of_isStep hsound.tidy howns.row hp hstep
  obtain ⟨r, hr, hinc⟩ := howns.row
  obtain ⟨hexec, hname⟩ := (isStep_iff hsound.tidy hp hr hinc).mp hstep
  obtain ⟨-, hleast, type, seconds, hconfig, htype, htimeout⟩ :=
    aimed_of_reachable h run hmem _ _ _ hcall
  have he := List.mem_of_find?_eq_some hfind
  have hmeets := List.find?_some hfind
  obtain ⟨hid, -, hexecution, htype', hle⟩ := of_decide_eq_true hmeets
  refine ⟨type, seconds, p, hp, hexec, hname, hconfig, hwaiting, he, hexecution,
    htype'.trans htype, by rw [← htimeout]; exact hle, ?_, ?_⟩
  · intro e' he' hexec' htype'' hle'
    have hkey : e'.key = run.identity.toInstanceKey := by
      obtain ⟨_, hr', hkey, hid', -⟩ := hsound.tidy.eventOf e' he'
      rw [hkey, hsound.tidy.row_unique hr' hr (by rw [← hid', hexec', hinc]), hinc]
    rw [hid]
    exact hleast e' he' hkey hexec' (htype''.trans htype.symm) (by rw [htimeout]; exact hle')
  · rw [hdb]
    refine ⟨_, Table.mem_update.mpr (Or.inr ⟨p, hp, hc, rfl⟩), hexec, hname, rfl, ?_⟩
    simp [hfind]

end Takoserver.Workflow
