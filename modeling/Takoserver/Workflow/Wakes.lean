import Takoserver.Workflow.Events

/-!
# No lost wake-up

The sender of an event and the run that parks for it meet through two guarded batches.  The run
that parks looks at the queue in the statement that parks; a sender that finds the instance parked
makes it due, or completes its step; and a sender that has read the instance before it was parked
is refused by the revision of the row and looks again.
-/

namespace Takoserver.Workflow

open Db (Assignment Outcome PendingWait)

variable {minted : List String} {db db' : Db} {m : Move} {s s' : System} {a : Action}
  {clock : Instant}

/-! ### A wait that could be met -/

variable {p : StepRow} {e : EventRow} {r row : InstanceRow} {send : Send} {result : Db × Send}

theorem awaits_iff : p.awaits e = true ↔
    e.executionId = p.execution.executionId ∧ p.waitType = some e.type ∧
      ∃ timeoutAt, p.timeoutAt = some timeoutAt ∧ e.createdAt ≤ timeoutAt := by
  simp only [StepRow.awaits, Bool.and_eq_true, decide_eq_true_eq, Option.any_eq_true, and_assoc]

/-- An instance is parked in a wait. -/
structure Parked (db : Db) (r : InstanceRow) (p : StepRow) : Prop where
  row : r ∈ db.instances
  waiting : r.status = .waiting
  step : p ∈ db.steps
  execution : p.execution = r.toIncarnation
  pending : r.pendingStepName = some p.name
  kind : p.config.kind = .wait
  state : p.state = .waiting

/-- An event of the type it waits for is queued, and came in time. -/
structure Meets (db : Db) (r : InstanceRow) (p : StepRow) (e : EventRow) : Prop extends
    Parked db r p where
  event : e ∈ db.events
  awaits : p.awaits e = true

/-- Every instance whose wait could be met is due. -/
def Due (clock : Instant) (db : Db) : Prop :=
  ∀ r p e, Meets db r p e → ∃ wakeAt, r.wakeAt = some wakeAt ∧ wakeAt ≤ clock

/-- A step that is written is not one that an instance goes on waiting for. -/
theorem StepWrite.not_waiting (h : Tidy minted db) {p' : StepRow} (hw : StepWrite m db p p')
    (hr : r ∈ db.instances) (hexec : p'.execution = r.toIncarnation)
    (hwaiting : r.status = .waiting) : p'.state ≠ .waiting := by
  obtain ⟨q, hq, hexec', -, -, hwho⟩ := hw.journals
  obtain rfl := h.incarnation_unique hq hr (hexec'.symm.trans (hw.execution.symm.trans hexec))
  rcases hwho with ⟨-, hrunning⟩ | ⟨hnone, -, -⟩
  · rw [hwaiting] at hrunning
    cases hrunning
  · rw [(hw.completes hnone).1]
    exact fun hstate => by cases hstate

theorem Change.due (h : Tidy m.minted db) (hc : Change m db db') (hparks : m.parks = false)
    (hsame : db'.lastEventId = db.lastEventId) (hd : Due m.clock db) : Due m.clock db' := by
  intro r' p e hm
  -- a wait that meets an event was there before, or was just given its wake
  cases hc with
  | rows _ _ hstep =>
    rcases mem_updateInstances.mp hm.row with ⟨hr, -⟩ | ⟨r, hr, hc, rfl⟩
    · exact hd r' p e { hm with row := hr }
    have hs := hstep r hr hc
    rcases hs.waits hm.waiting with ⟨htrue, -⟩ | ⟨hwaiting, hpending, -, hwake⟩
    · rw [hparks] at htrue
      cases htrue
    have hbefore : Meets db r p e :=
      { hm with
        row := hr
        waiting := hwaiting
        execution := hm.execution.trans hs.incarnation
        pending := hpending.symm.trans hm.pending }
    rcases hwake with hkept | ⟨wakeAt, heq, hle, -⟩
    · rw [hkept]
      exact hd r p e hbefore
    · exact ⟨wakeAt, heq, hle⟩
  | ends _ _ hstep =>
    rcases mem_updateInstances.mp hm.row with ⟨hr, -⟩ | ⟨r, hr, hc, rfl⟩
    · exact hd r' p e { hm with
        row := hr
        step := (mem_ends_steps.mp hm.step).1
        event := (mem_ends_events.mp hm.event).1 }
    · have hends := (hstep r hr hc).ends
      rw [hm.waiting] at hends
      cases hends
  | remove =>
    exact hd r' p e { hm with
      row := (mem_remove_instances.mp hm.row).1
      step := (mem_remove_steps.mp hm.step).1
      event := (mem_remove_events.mp hm.event).1 }
  | create row hqueued =>
    rcases List.mem_append.mp hm.row with hr | hr
    · exact hd r' p e { hm with row := hr }
    · have hwaiting := hm.waiting
      rw [List.mem_singleton.mp hr, hqueued] at hwaiting
      cases hwaiting
  | enqueue => exact absurd hsame (Nat.succ_ne_self _)
  | insertStep _ _ hpending =>
    rcases List.mem_append.mp hm.step with hp | hp
    · exact hd r' p e { hm with step := hp }
    · have hstate := hm.state
      rw [List.mem_singleton.mp hp, hpending] at hstate
      cases hstate
  | steps _ _ hstep =>
    rcases Table.mem_update.mp hm.step with ⟨hp, -⟩ | ⟨q, hq, hc, rfl⟩
    · exact hd r' p e { hm with step := hp }
    · exact absurd hm.state ((hstep q hq hc).not_waiting h hm.row hm.execution hm.waiting)
  | dropEvents =>
    exact hd r' p e { hm with event := (Table.mem_delete.mp hm.event).1 }

theorem Changes.due (h : Tidy m.minted db) (hc : Changes m db db') (hparks : m.parks = false)
    (hsame : db'.lastEventId = db.lastEventId) (hd : Due m.clock db) : Due m.clock db' := by
  have key : db.lastEventId ≤ db'.lastEventId ∧
      (db'.lastEventId = db.lastEventId → Due m.clock db') := by
    refine hc.induct h (P := fun d => db.lastEventId ≤ d.lastEventId ∧
      (d.lastEventId = db.lastEventId → Due m.clock d)) ?_ ⟨Nat.le_refl _, fun _ => hd⟩
    rintro d _ ht hc ⟨hle, ih⟩
    have hle' := hc.lastEventId
    refine ⟨Nat.le_trans hle hle', fun hsame => ?_⟩
    have hlast : d.lastEventId = db.lastEventId := by omega
    exact hc.due ht hparks (hsame.trans hlast.symm) (ih hlast)
  exact key.2 hsame

variable {live : Bool}

theorem due_park {identity : RunIdentity} {name : String} {status : Status}
    {wakeAt timestamp : Instant} (hclock : timestamp ≤ clock) (hd : Due clock db) :
    Due clock (db.park identity name status wakeAt timestamp live) := by
  intro r' p e hm
  rcases mem_updateInstances.mp hm.row with ⟨hr, -⟩ | ⟨r, hr, -, rfl⟩
  · exact hd r' p e { hm with row := hr }
  refine ⟨_, rfl, ?_⟩
  have hmet : status = .waiting ∧ (db.steps.any fun p => p.isOf r &&
      decide (p.name = name) && db.events.any fun e => p.awaits e) = true := by
    refine ⟨hm.waiting, List.any_eq_true.mpr ⟨p, hm.step, ?_⟩⟩
    have hname : name = p.name := Option.some.inj hm.pending
    simp only [Bool.and_eq_true, decide_eq_true_eq, List.any_eq_true]
    exact ⟨⟨isOf_of_execution hm.execution, hname.symm⟩, e, hm.event, hm.awaits⟩
  rw [if_pos hmet]
  exact hclock

theorem due_sendLegacy (h : Tidy minted db) {i : Incarnation} {event : Db.Event}
    (hclock : event.timestamp ≤ clock) (hd : Due clock db) : Due clock (db.sendLegacy i event).1 := by
  intro r' p e hm
  unfold Db.sendLegacy at hm
  rcases mem_updateInstances.mp hm.row with ⟨hr, hnot⟩ | ⟨r, hr, -, rfl⟩
  · split at hr
    · next haccepted =>
      simp only [if_pos haccepted] at hm hnot
      rcases List.mem_append.mp hm.event with he | he
      · exact hd r' p e { hm with row := hr, event := he }
      -- the instance waits for the new event, so the statement has made it due
      obtain ⟨r₀, hr₀, hopen⟩ := List.any_eq_true.mp haccepted
      obtain ⟨hopen, -⟩ := Bool.and_eq_true_iff.mp hopen
      obtain ⟨hexec, htype, -⟩ := awaits_iff.mp hm.awaits
      rw [List.mem_singleton.mp he] at hexec htype
      obtain rfl : r₀ = r' := by
        refine h.row_unique hr₀ hr ?_
        rw [(of_decide_eq_true hopen).1, ← congrArg Incarnation.executionId hm.execution]
        exact hexec
      refine absurd ?_ (Bool.eq_false_iff.mp hnot)
      simp only [hopen, Bool.true_and, Bool.and_eq_true, decide_eq_true_eq, List.any_eq_true]
      exact ⟨hm.waiting, p, hm.step, isOf_of_execution hm.execution, hm.pending, hm.kind, htype,
        hm.state⟩
    · next haccepted =>
      simp only [if_neg haccepted] at hm
      exact hd r' p e { hm with row := hr }
  · refine ⟨_, rfl, ?_⟩
    split
    · exact hclock
    · exact Nat.le_trans (Nat.min_le_right _ _) hclock

/-! ### The wait that a sender reads -/

/-- **The wait that a sender reads** is the step in which the instance is parked, if it waits for
the type and the event comes in time. -/
theorem readPendingWait_iff (h : Tidy minted db) (hr : row ∈ db.instances) {event : Db.Event}
    {wait : PendingWait} :
    db.readPendingWait row event = some wait ↔ Db.parked row row event wait.name = true ∧
      ∃ p ∈ db.steps, p.execution = row.toIncarnation ∧ p.name = wait.name ∧
        p.config.kind = .wait ∧ p.state = .waiting ∧ p.waitType = some event.type ∧
        p.timeoutAt = some wait.timeoutAt ∧ event.timestamp ≤ wait.timeoutAt ∧
        p.revision = wait.revision := by
  have hfound : ∀ {q : StepRow}, db.pendingWaitRow row event = some q → q ∈ db.steps ∧
      q.execution = row.toIncarnation ∧ Db.parked row row event q.name = true ∧
      q.config.kind = .wait ∧ q.state = .waiting ∧ q.waitType = some event.type := by
    intro q hq
    have hmem := List.mem_of_find?_eq_some hq
    have hc := List.find?_some hq
    simp only [Bool.and_eq_true, List.any_eq_true, decide_eq_true_eq] at hc
    obtain ⟨⟨r, hr', hof, hparked⟩, hrest⟩ := hc
    obtain rfl := h.incarnation_unique hr' hr (awake_iff.mp (parked_iff.mp hparked).1).1
    exact ⟨hmem, h.execution_of_isOf hmem hr hof, hparked, hrest⟩
  constructor
  · intro hread
    unfold Db.readPendingWait at hread
    split at hread
    · cases hread
    next q hq =>
    split at hread
    · cases hread
    · next htimeout =>
      split at hread
      · cases hread
      · next hlate =>
        cases hread
        obtain ⟨hmem, hexec, hparked, hkind, hstate, htype⟩ := hfound hq
        exact ⟨hparked, q, hmem, hexec, rfl, hkind, hstate, htype, htimeout,
          Nat.le_of_not_lt hlate, rfl⟩
  · rintro ⟨hparked, p, hp, hexec, hname, hkind, hstate, htype, htimeout, hle, hrevision⟩
    have hq : db.pendingWaitRow row event = some p := by
      cases hq : db.pendingWaitRow row event with
      | none =>
        refine absurd ?_ (List.find?_eq_none.mp hq p hp)
        simp only [Bool.and_eq_true, List.any_eq_true, decide_eq_true_eq]
        exact ⟨⟨row, hr, isOf_of_execution hexec, by rw [hname]; exact hparked⟩, hkind, hstate,
          htype⟩
      | some q =>
        obtain ⟨hmem, hexec', hparked', -⟩ := hfound hq
        have hname' : q.name = p.name := by
          have hpending := (parked_iff.mp hparked).2.2.1
          rw [(parked_iff.mp hparked').2.2.1] at hpending
          rw [hname]
          exact Option.some.inj hpending
        refine congrArg some (Table.eq_of_key h.stepIds hmem hp ?_)
        rw [hexec, hexec', hname']
    unfold Db.readPendingWait
    simp only [hq, htimeout, if_neg (Nat.not_lt_of_le hle), hname, hrevision]

/-! ### What a sender has read -/

/-- The row was of the incarnation, and any of its revision is the same. -/
def Seen (db : Db) (row : InstanceRow) : Prop :=
  ∀ r ∈ db.instances, r.toIncarnation = row.toIncarnation →
    row.revision ≤ r.revision ∧ (r.revision = row.revision → r = row)

theorem Change.seen (hc : Change m db db') (hi : row.executionId ∈ m.former) (h : Seen db row) :
    Seen db' row := by
  intro r' hr' hinc
  rcases hc.row_back hr' with ⟨r, hr, hb⟩ | hfresh
  · obtain ⟨hle, hsame⟩ := h r hr (hb.incarnation.symm.trans hinc)
    rcases hb.revision with rfl | _
    · exact ⟨hle, hsame⟩
    · exact ⟨by omega, fun heq => by omega⟩
  · refine absurd ?_ hfresh.former
    rw [hinc]
    exact hi

section

variable (h : Tidy m.minted db) (hc : Changes m db db') (hi : row.executionId ∈ m.former)
  (hs : Seen db row)

include h hc hi hs

theorem Changes.seen : Seen db' row :=
  hc.induct h (P := fun d => Seen d row) (fun _ _ _ hc hs => hc.seen hi hs) hs

/-- A row that is still there was there. -/
theorem Changes.seen_back (hr : row ∈ db'.instances) :
    row ∈ db.instances := by
  have key : Seen db' row ∧ (row ∈ db'.instances → row ∈ db.instances) := by
    refine hc.induct h (P := fun d => Seen d row ∧ (row ∈ d.instances → row ∈ db.instances)) ?_
      ⟨hs, id⟩
    rintro d _ - hc ⟨hd, ih⟩
    refine ⟨hc.seen hi hd, fun hr' => ?_⟩
    rcases hc.row_back hr' with ⟨r, hr, hb⟩ | hfresh
    · obtain ⟨_, _⟩ := hd r hr hb.incarnation.symm
      rcases hb.revision with heq | _
      · rw [heq]
        rw [heq] at ih
        exact ih hr
      · omega
    · exact absurd hi hfresh.former
  exact key.2 hr

end

/-- What the sender has read is what the tables hold, as long as they hold the row. -/
structure Noted (minted : List String) (db : Db) (event : Db.Event) (row : InstanceRow)
    (wait : Option PendingWait) : Prop where
  minted : row.executionId ∈ minted
  seen : Seen db row
  wait : row ∈ db.instances →
    wait = if row.status = .waiting then db.readPendingWait row event else none

/-- Others leave what a sender has read, or it is refused. -/
theorem Noted.keep (h : Tidy m.minted db) (h' : Tidy m.minted db') (hc : Changes m db db')
    (hsub : m.former ⊆ m.minted) {event : Db.Event} {wait : Option PendingWait}
    (hsteps : row ∈ db.instances → row ∈ db'.instances → row.status = .waiting →
      ∀ p, p.execution = row.toIncarnation → (p ∈ db'.steps ↔ p ∈ db.steps))
    (hn : Noted m.former db event row wait) : Noted m.minted db' event row wait where
  minted := hsub hn.minted
  seen := hc.seen h hn.minted hn.seen
  wait := by
    intro hr'
    have hr := hc.seen_back h hn.minted hn.seen hr'
    rw [hn.wait hr]
    split
    · next hwaiting =>
      refine Option.ext fun w => ?_
      rw [readPendingWait_iff h hr, readPendingWait_iff h' hr']
      have hsame := hsteps hr hr' hwaiting
      refine and_congr_right fun _ => ⟨?_, ?_⟩
      · rintro ⟨p, hp, hexec, hrest⟩
        exact ⟨p, (hsame p hexec).mpr hp, hexec, hrest⟩
      · rintro ⟨p, hp, hexec, hrest⟩
        exact ⟨p, (hsame p hexec).mp hp, hexec, hrest⟩
    · rfl

/-! ### The steps of an instance that is parked -/

theorem Change.steps_parked (h : Tidy m.minted db) (hc : Change m db db')
    (hdelivers : m.delivers = false) (hr : r ∈ db.instances) (hr' : r ∈ db'.instances)
    (hwaiting : r.status = .waiting) (hexec : p.execution = r.toIncarnation) :
    p ∈ db'.steps ↔ p ∈ db.steps := by
  have hnot : ∀ q : StepRow, q.execution = r.toIncarnation → ¬ Journals m db q := by
    rintro q hq ⟨_, hr₀, hexec', -, -, ⟨-, hrunning⟩ | ⟨-, htrue, -⟩⟩
    · obtain rfl := h.incarnation_unique hr₀ hr (hexec'.symm.trans hq)
      rw [hwaiting] at hrunning
      cases hrunning
    · rw [hdelivers] at htrue
      cases htrue
  cases hc with
  | rows => exact Iff.rfl
  | ends _ _ hstep =>
    rw [mem_ends_steps]
    refine ⟨And.left, fun hp => ⟨hp, fun q hq hcq => Bool.eq_false_iff.mpr fun hof => ?_⟩⟩
    obtain rfl := h.incarnation_unique hq hr ((h.execution_of_isOf hp hq hof).symm.trans hexec)
    have hends := h.gone_of_ends hq hcq hstep q hr' rfl
    rw [hwaiting] at hends
    cases hends
  | remove =>
    rw [mem_remove_steps]
    refine ⟨And.left, fun hp => ⟨hp, fun q hq hcq => Bool.eq_false_iff.mpr fun hof => ?_⟩⟩
    obtain rfl := h.incarnation_unique hq hr ((h.execution_of_isOf hp hq hof).symm.trans hexec)
    exact h.gone_of_remove hq hcq q hr' rfl
  | create => exact Iff.rfl
  | enqueue => exact Iff.rfl
  | insertStep row _ _ _ hlive =>
    refine ⟨fun hp => ?_, List.mem_append_left _⟩
    rcases List.mem_append.mp hp with hp | hp
    · exact hp
    · rw [List.mem_singleton.mp hp] at hexec
      exact absurd hlive (hnot row hexec)
  | steps _ _ hstep =>
    refine Table.mem_update.trans ⟨?_, fun hp => Or.inl ⟨hp, Bool.eq_false_iff.mpr fun hcp => ?_⟩⟩
    · rintro (⟨hp, -⟩ | ⟨q, hq, hcq, rfl⟩)
      · exact hp
      · have hw := hstep q hq hcq
        exact absurd hw.journals (hnot q (hw.execution.symm.trans hexec))
    · exact hnot p hexec (hstep p hp hcp).journals
  | dropEvents => exact Iff.rfl

theorem Changes.steps_parked (h : Tidy m.minted db) (hc : Changes m db db')
    (hdelivers : m.delivers = false) (hi : row.executionId ∈ m.former) (hs : Seen db row)
    (hr : row ∈ db'.instances) (hwaiting : row.status = .waiting)
    (hexec : p.execution = row.toIncarnation) : p ∈ db'.steps ↔ p ∈ db.steps := by
  have key : Seen db' row ∧ (row ∈ db'.instances → (p ∈ db'.steps ↔ p ∈ db.steps)) := by
    refine hc.induct h (P := fun d => Seen d row ∧
      (row ∈ d.instances → (p ∈ d.steps ↔ p ∈ db.steps))) ?_ ⟨hs, fun _ => Iff.rfl⟩
    rintro d _ ht hc ⟨hd, ih⟩
    refine ⟨hc.seen hi hd, fun hr' => ?_⟩
    have hr := hc.one.seen_back ht hi hd hr'
    exact (hc.steps_parked ht hdelivers hr hr' hwaiting hexec).trans (ih hr)
  exact key.2 hr

/-! ### A direct delivery -/

section Deliver

variable {current : InstanceRow} {event : Db.Event} {wait : PendingWait} {live : Bool}

theorem revised_of_direct (h : Tidy minted db) {q : StepRow} (hq : q ∈ db.steps)
    (hc : db.direct current event wait live q = true) :
    ∃ r ∈ db.instances, q.execution = r.toIncarnation ∧
      Db.parked current r event wait.name = true ∧
        r ∉ (db.deliver current event wait live).1.instances := by
  obtain ⟨hstep, ⟨hkind, -, htype, htimeout, hrevision⟩, ⟨⟨r, hr, hparked⟩, hlive⟩, -⟩ :=
    direct_iff.mp hc
  subst hlive
  have hinc := (awake_iff.mp (parked_iff.mp hparked).1).1
  have hexec := (h.execution_of_isStep hq hr hinc hstep).trans hinc.symm
  refine ⟨r, hr, hexec, hparked, fun hmem => ?_⟩
  rcases mem_updateInstances.mp hmem with ⟨-, hnot⟩ | ⟨r₀, hr₀, -, heq⟩
  · refine absurd ?_ (Bool.eq_false_iff.mp hnot)
    simp only [hparked, Bool.and_self, Bool.true_and, List.any_eq_true]
    refine ⟨_, Table.mem_update.mpr (Or.inr ⟨q, hq, hc, rfl⟩), ?_⟩
    have hof := isOf_of_execution hexec
    simp only [StepRow.isOf] at hof ⊢
    simp [of_decide_eq_true hof, (of_decide_eq_true hstep).2.2, hkind, htype, htimeout, hrevision]
  · have hsame : r₀ = r := h.incarnation_unique hr₀ hr (congrArg InstanceRow.toIncarnation heq).symm
    have hnext := congrArg InstanceRow.revision heq
    rw [hsame] at hnext
    exact Nat.succ_ne_self _ hnext.symm

theorem steps_deliver (h : Tidy minted db) (hr : r ∈ db.instances)
    (hr' : r ∈ (db.deliver current event wait live).1.instances)
    (hexec : p.execution = r.toIncarnation) :
    p ∈ (db.deliver current event wait live).1.steps ↔ p ∈ db.steps := by
  have hnot : ∀ q ∈ db.steps, q.execution = r.toIncarnation →
      db.direct current event wait live q = false := by
    refine fun q hq hexec => Bool.eq_false_iff.mpr fun hc => ?_
    obtain ⟨_, hr₀, hexec₀, -, hgone⟩ := revised_of_direct h hq hc
    rw [h.incarnation_unique hr₀ hr (hexec₀.symm.trans hexec)] at hgone
    exact hgone hr'
  refine Table.mem_update.trans ⟨?_, fun hp => Or.inl ⟨hp, hnot p hp hexec⟩⟩
  rintro (⟨hp, -⟩ | ⟨q, hq, hc, rfl⟩)
  · exact hp
  · rw [hnot q hq hexec] at hc
    cases hc

/-! ### What a sender does to the queue -/

theorem queueInsert_instances : (db.queueInsert current event live).1.instances = db.instances := by
  unfold Db.queueInsert
  dsimp only
  split <;> rfl

theorem queueInsert_steps : (db.queueInsert current event live).1.steps = db.steps := by
  unfold Db.queueInsert
  dsimp only
  split <;> rfl

theorem due_queueInsert (h : Tidy minted db) (hd : Due clock db)
    (hnew : live = true → ∀ r p, Parked db r p → Db.awake current r event = true →
      p.awaits (db.queued current.toIncarnation event) = true →
        ∃ wakeAt, r.wakeAt = some wakeAt ∧ wakeAt ≤ clock) :
    Due clock (db.queueInsert current event live).1 := by
  unfold Db.queueInsert
  dsimp only
  split
  · next hc =>
    simp only [Bool.and_eq_true, List.any_eq_true] at hc
    obtain ⟨⟨⟨r₀, hr₀, hawake, -⟩, hlive⟩, -⟩ := hc
    intro r p e hm
    rcases List.mem_append.mp hm.event with he | he
    · exact hd r p e { hm with event := he }
    · have hawaits := hm.awaits
      rw [List.mem_singleton.mp he] at hawaits
      have hrow : r₀ = r := by
        refine h.row_unique hr₀ hm.row ?_
        rw [(awake_iff.mp hawake).1, ← congrArg Incarnation.executionId hm.execution]
        exact (awaits_iff.mp hawaits).1
      rw [hrow] at hawake
      exact hnew hlive r p { hm with } hawake hawaits
  · exact hd

theorem readPendingWait_of_parked (h : Tidy minted db) (hp : Parked db current p)
    (hawake : Db.awake current current event = true) (htype : e.type = event.type)
    (hcreated : e.createdAt = event.timestamp) (hawaits : p.awaits e = true) :
    ∃ wait, db.readPendingWait current event = some wait ∧ wait.name = p.name ∧
      p.waitType = some event.type ∧ p.timeoutAt = some wait.timeoutAt ∧
      p.revision = wait.revision := by
  obtain ⟨-, hwait, timeoutAt, htimeout, hle⟩ := awaits_iff.mp hawaits
  rw [htype] at hwait
  rw [hcreated] at hle
  have howner := h.parked current hp.row hp.waiting
  have hparked : Db.parked current current event p.name = true :=
    parked_iff.mpr ⟨hawake, hp.waiting, hp.pending, howner, (h.leases current hp.row).mp howner⟩
  refine ⟨⟨p.name, timeoutAt, p.revision⟩, (readPendingWait_iff h hp.row).mpr ⟨hparked, p, hp.step,
    hp.execution, rfl, hp.kind, hp.state, hwait, htimeout, hle, rfl⟩, rfl, hwait, htimeout, rfl⟩

/-- **A sender that has read the instance wakes it, or is refused.** -/
theorem due_sendV3 (h : Tidy m.minted db) {wait : Option PendingWait}
    (hn : Noted m.former db event current wait) (hclock : event.timestamp ≤ m.clock)
    (hwriter : m.writer = none) (hparks : m.parks = false) (hdelivers : m.delivers = true)
    (hd : Due m.clock db) : Due m.clock (db.sendV3 current event wait live).1 := by
  cases wait with
  | none =>
    refine due_queueInsert h hd fun _ r p hp hawake hawaits => ?_
    obtain ⟨hinc, hrevision, -⟩ := awake_iff.mp hawake
    obtain rfl := (hn.seen r hp.row hinc).2 hrevision
    obtain ⟨wait, hread, -⟩ := readPendingWait_of_parked h hp hawake rfl rfl hawaits
    have hnone := hn.wait hp.row
    rw [if_pos hp.waiting, hread] at hnone
    cases hnone
  | some wait =>
    have hc : Changes m db (db.deliver current event wait live).1 :=
      changes_deliver h hwriter hdelivers hclock
    have hd' : Due m.clock (db.deliver current event wait live).1 := hc.due h hparks rfl hd
    refine due_queueInsert (h.changes hc) hd' fun hlive r p hp hawake hawaits => ?_
    obtain ⟨hinc, hrevision, -⟩ := awake_iff.mp hawake
    obtain rfl := (hc.seen h hn.minted hn.seen r hp.row hinc).2 hrevision
    have hr := hc.seen_back h hn.minted hn.seen hp.row
    have hstep := (steps_deliver h hr hp.row hp.execution).mp hp.step
    have hbefore : Parked db r p := { hp with row := hr, step := hstep }
    obtain ⟨_, hread, hname, htype, htimeout, hrevision'⟩ :=
      readPendingWait_of_parked h hbefore hawake rfl rfl hawaits
    have hnoted := hn.wait hr
    rw [if_pos hp.waiting, hread] at hnoted
    cases hnoted
    have howner := h.parked r hr hp.waiting
    have hparked : Db.parked r r event wait.name = true :=
      parked_iff.mpr ⟨hawake, hp.waiting, by rw [hname]; exact hp.pending, howner,
        (h.leases r hr).mp howner⟩
    have hisStep : p.isStep r.toIncarnation wait.name = true :=
      (isStep_iff h hstep hr rfl).mpr ⟨hp.execution, hname.symm⟩
    -- the delivery did not take the step, for an event is queued before this one
    by_cases hqueued : ∃ e ∈ db.events, e.key = r.toInstanceKey ∧ e.executionId = r.executionId ∧
        e.type = event.type ∧ e.createdAt ≤ wait.timeoutAt
    · obtain ⟨e, he, -, hexec, htype', hle⟩ := hqueued
      refine hd r p e { hbefore with event := he, awaits := ?_ }
      refine awaits_iff.mpr ⟨?_, by rw [htype, htype'], wait.timeoutAt, htimeout, hle⟩
      rw [hexec, hp.execution]
    · have hdirect : db.direct r event wait live p = true :=
        direct_iff.mpr ⟨hisStep, ⟨hp.kind, hp.state, htype, htimeout, hrevision'⟩,
          ⟨⟨r, hr, hparked⟩, hlive⟩, fun e he hmet => hqueued ⟨e, he, hmet⟩⟩
      obtain ⟨_, hr₀, hexec₀, -, hgone⟩ := revised_of_direct h hstep hdirect
      rw [h.incarnation_unique hr₀ hr (hexec₀.symm.trans hp.execution)] at hgone
      exact absurd hp.row hgone

end Deliver

/-! ### What every sender has read -/

/-- What a sender knows of the instance that it sends to. -/
def Send.Informed (minted : List String) (db : Db) (send : Send) : Prop :=
  match send.stage with
  | .attempt row | .again row => row.executionId ∈ minted ∧ Seen db row
  | .ready row wait => Noted minted db send.event row wait
  | _ => True

/-- What others do leaves what a sender knows, or the sender is refused. -/
theorem Send.Informed.keep (h : Tidy m.minted db) (hc : Changes m db db')
    (hsub : m.former ⊆ m.minted)
    (hsteps : ∀ row : InstanceRow, row.executionId ∈ m.former → Seen db row → row ∈ db'.instances →
      row.status = .waiting → ∀ p, p.execution = row.toIncarnation → (p ∈ db'.steps ↔ p ∈ db.steps))
    (hi : send.Informed m.former db) : send.Informed m.minted db' := by
  unfold Send.Informed at hi ⊢
  split
  · next heq =>
    simp only [heq] at hi
    exact ⟨hsub hi.1, hc.seen h hi.1 hi.2⟩
  · next heq =>
    simp only [heq] at hi
    exact ⟨hsub hi.1, hc.seen h hi.1 hi.2⟩
  · next row _ heq =>
    simp only [heq] at hi
    exact hi.keep h (h.changes hc) hc hsub
      fun _ hr' hwaiting => hsteps row hi.minted hi.seen hr' hwaiting
  · trivial

theorem visibleInstance_mem {key : InstanceKey} {timestamp : Instant}
    (h : db.visibleInstance key timestamp = some r) : r ∈ db.instances :=
  (Table.find_some (Option.filter_eq_some_iff.mp h).1).1

theorem seen_of_mem (h : Tidy minted db) (hr : r ∈ db.instances) : Seen db r := by
  intro r' hr' hinc
  rw [h.incarnation_unique hr' hr hinc]
  exact ⟨Nat.le_refl _, fun _ => rfl⟩

theorem Send.step_informed (h : Tidy m.minted db) (hsame : m.former = m.minted)
    (hc : Changes m db result.1) (hn : send.step db live = some result)
    (hi : send.Informed m.former db) :
    result.2.Informed m.minted result.1 := by
  unfold Send.Informed at hi
  unfold Send.step at hn
  split at hn
  · cases hn
    trivial
  · split at hn
    · cases hn
      trivial
    · next row hread =>
      cases hn
      have hr := visibleInstance_mem hread
      cases row.status.terminal with
      | true => trivial
      | false => exact ⟨h.minted row hr, seen_of_mem h hr⟩
  · next row heq =>
    simp only [heq] at hi
    split at hn
    · cases hn
      exact ⟨hsame ▸ hi.1, hi.2, fun _ => rfl⟩
    · cases hn
      cases (db.sendLegacy row.toIncarnation send.event).2 <;> trivial
  · next row wait heq =>
    simp only [heq] at hi
    cases hn
    have hseen := hc.seen h hi.minted hi.seen
    cases (db.sendV3 row send.event wait live).2 with
    | true => trivial
    | false => exact ⟨hsame ▸ hi.minted, hseen⟩
  · next row _ =>
    split at hn
    · cases hn
      trivial
    next after hread =>
    cases hn
    have hr := visibleInstance_mem hread
    by_cases hc' : after.toIncarnation = row.toIncarnation ∧ after.status.terminal = false ∧
        after.revision ≠ row.revision
    · rw [if_pos hc']
      exact ⟨h.minted after hr, seen_of_mem h hr⟩
    · rw [if_neg hc']
      trivial
  · cases hn
  · cases hn

/-! ### No wake-up is lost -/

structure Wakeful (s : System) : Prop where
  due : Due s.clock s.db
  sends : ∀ send ∈ s.sends, send.Informed s.minted s.db

theorem Send.step_due (h : Tidy m.minted db) (hn : send.step db live = some result)
    (hi : send.Informed m.former db) (hclock : send.event.timestamp ≤ m.clock)
    (hwriter : m.writer = none) (hparks : m.parks = false) (hdelivers : m.delivers = true)
    (hd : Due m.clock db) :
    Due m.clock result.1 := by
  unfold Send.Informed at hi
  unfold Send.step at hn
  split at hn
  · cases hn
    exact change_settleExpired.one.due h hparks rfl hd
  · split at hn
    · cases hn
      exact hd
    · cases hn
      exact hd
  · split at hn
    · cases hn
      exact hd
    · cases hn
      exact due_sendLegacy h hclock hd
  · next heq =>
    simp only [heq] at hi
    cases hn
    exact due_sendV3 h hi hclock hwriter hparks hdelivers hd
  · split at hn
    · cases hn
      exact hd
    · cases hn
      exact hd
  · cases hn
  · cases hn

theorem Send.step_steps (h : Tidy m.minted db) (hn : send.step db live = some result)
    (hr : row ∈ db.instances) (hr' : row ∈ result.1.instances) (hwaiting : row.status = .waiting)
    (hexec : p.execution = row.toIncarnation) :
    p ∈ result.1.steps ↔ p ∈ db.steps := by
  -- the same statements as a move that delivers nothing
  have hquiet : Tidy ({ m with delivers := false } : Move).minted db := h
  unfold Send.step at hn
  split at hn
  · cases hn
    exact (change_settleExpired (m := { m with delivers := false })).steps_parked hquiet rfl hr hr'
      hwaiting hexec
  · split at hn
    · cases hn
      exact Iff.rfl
    · cases hn
      exact Iff.rfl
  · split at hn
    · cases hn
      exact Iff.rfl
    · cases hn
      dsimp only [Db.sendLegacy, Db.updateInstances]
      split <;> exact Iff.rfl
  · next wait _ =>
    cases hn
    cases wait with
    | none =>
      dsimp only [Db.sendV3]
      rw [queueInsert_steps]
    | some =>
      dsimp only [Db.sendV3] at hr' ⊢
      rw [queueInsert_instances] at hr'
      rw [queueInsert_steps]
      exact steps_deliver h hr hr' hexec
  · split at hn
    · cases hn
      exact Iff.rfl
    · cases hn
      exact Iff.rfl
  · cases hn
  · cases hn

theorem Due.mono {clock' : Instant} (hle : clock ≤ clock') (h : Due clock db) : Due clock' db := by
  intro r p e hm
  obtain ⟨wakeAt, heq, hwake⟩ := h r p e hm
  exact ⟨wakeAt, heq, Nat.le_trans hwake hle⟩

theorem due_of_next (h : Sound s) (hw : Wakeful s) (hn : s.next a = some s') :
    Due s'.clock s'.db := by
  have ht : Tidy (s.move s' a).minted s.db := h.tidy.mono (minted_of_next hn)
  refine Due.mono (clock_of_next hn) ?_
  rcases accepted_of_next hn with ⟨k, live, rfl, -⟩ | ⟨-, hlast⟩
  · simp only [System.next] at hn
    split at hn
    · cases hn
    · next send hsend =>
      obtain ⟨_, hstep, rfl⟩ := Option.map_eq_some_iff.mp hn
      have hmem := List.mem_of_getElem? hsend
      exact Send.step_due (m := s.move _ (.sendStep k live)) ht hstep (hw.sends send hmem)
        (h.sends send hmem) rfl rfl rfl hw.due
  · cases hparks : a.parks with
    | false => exact (changes_of_next h hn).due ht hparks hlast hw.due
    | true =>
      -- a run parks
      cases a <;> try cases hparks
      case run step =>
        cases step <;> try cases hparks
        case park =>
          simp only [System.next] at hn
          split at hn
          · cases hn
          obtain ⟨_, hstep, rfl⟩ := Option.map_eq_some_iff.mp hn
          simp only [Run.step] at hstep
          split at hstep
          · split at hstep
            · next hc =>
              cases hstep
              exact due_park hc.1 hw.due
            · cases hstep
          · cases hstep

theorem informed_of_next (h : Sound s) (hw : Wakeful s) (hn : s.next a = some s') :
    ∀ send ∈ s'.sends, send.Informed s'.minted s'.db := by
  have hsub := minted_of_next hn
  have ht : Tidy (s.move s' a).minted s.db := h.tidy.mono hsub
  have hc := changes_of_next h hn
  intro send' hsend'
  rcases senders_of_next hn with ⟨k, send, live, _, rfl, hsend, hstep, hdb, hminted, hsends⟩ |
    ⟨hquiet, hsends⟩
  · rw [hsends] at hsend'
    have hmem := List.mem_of_getElem? hsend
    rcases List.mem_or_eq_of_mem_set hsend' with hold | rfl
    · refine Send.Informed.keep (m := s.move s' (.sendStep k live)) ht hc hsub ?_ (hw.sends send' hold)
      intro row hi hseen hr' hwaiting p hexec
      have hr := hc.seen_back ht hi hseen hr'
      rw [hdb] at hr' ⊢
      exact Send.step_steps (m := s.move s' (.sendStep k live)) ht hstep hr hr' hwaiting hexec
    · rw [hdb] at hc ⊢
      exact Send.step_informed (m := s.move s' (.sendStep k live)) ht hminted.symm hc hstep
        (hw.sends send hmem)
  · rcases hsends send' hsend' with hold | ⟨_, _, _, _, -, rfl⟩
    · refine Send.Informed.keep (m := s.move s' a) ht hc hsub ?_ (hw.sends send' hold)
      intro row hi hseen hr' hwaiting p hexec
      exact hc.steps_parked ht hquiet hi hseen hr' hwaiting hexec
    · trivial

/-- **No wake-up is lost**: in every reachable state, an instance that is parked for a type of
which an event is queued that came in time is due. -/
theorem wakeful_of_reachable (h : workflows.Reachable s) : Wakeful s := by
  refine Machine.Reachable.invariant (P := Wakeful) ?_ (fun s a s' hs hw hn => ?_) h
  · exact ⟨fun r p e hm => (List.not_mem_nil hm.row).elim, fun _ h => by cases h⟩
  · have hsound := sound_of_reachable hs
    exact ⟨due_of_next hsound hw hn, informed_of_next hsound hw hn⟩

/-! ### An instance that is due stays due -/

/-- While the instance is parked as it was in an epoch, it is due at an instant, or its step is
complete. -/
def Woken (db : Db) (i : Incarnation) (epoch : ℕ) (instant : Instant) : Prop :=
  ∀ r ∈ db.instances, r.toIncarnation = i → epoch ≤ r.runEpoch ∧
    (r.runEpoch = epoch → r.status.terminal = false → r.status = .waiting ∧
      ((∃ wakeAt, r.wakeAt = some wakeAt ∧ wakeAt ≤ instant) ∨
        ∃ p ∈ db.steps, p.execution = i ∧ r.pendingStepName = some p.name ∧ p.state = .complete))

/-- **A wake-up is kept**: no change delays it. -/
theorem Change.woken (h : Tidy m.minted db) (hc : Change m db db') {i : Incarnation} {epoch : ℕ}
    {instant : Instant} (hi : i.executionId ∈ m.former) (hw : Woken db i epoch instant) :
    Woken db' i epoch instant := by
  intro r' hr' hinc'
  rcases hc.row_back hr' with ⟨r, hr, hb⟩ | hfresh
  · have hinc := hb.incarnation.symm.trans hinc'
    obtain ⟨hle, hparked⟩ := hw r hr hinc
    refine ⟨Nat.le_trans hle hb.epoch, fun hepoch hlive => ?_⟩
    -- a complete step of an open instance stays complete
    have hcomplete : ∀ p ∈ db.steps, p.execution = i → p.state = .complete → p ∈ db'.steps := by
      intro p hp hexec hstate
      rcases hc.step_forth h hp with hkept | ⟨_, -, hwrite⟩ | hgone
      · exact hkept
      · have hunsettled := hwrite.unsettled
        rw [hstate] at hunsettled
        cases hunsettled
      · rw [hgone r' hr' (hinc'.trans hexec.symm)] at hlive
        cases hlive
    have hbefore : r.runEpoch = epoch := Nat.le_antisymm (Nat.le_trans hb.epoch (Nat.le_of_eq hepoch)) hle
    rcases hb with rfl | hs | hends
    · obtain ⟨hwaiting, hdue⟩ := hparked hbefore hlive
      refine ⟨hwaiting, hdue.imp_right ?_⟩
      rintro ⟨p, hp, hexec, hpending, hstate⟩
      exact ⟨p, hcomplete p hp hexec hstate, hexec, hpending, hstate⟩
    · obtain ⟨hwaiting, hdue⟩ := hparked hbefore (hs.lives.symm.trans hlive)
      have hwaiting' := hs.waiting (hepoch.trans hbefore.symm) hwaiting
      refine ⟨hwaiting', ?_⟩
      rcases hs.waits hwaiting' with ⟨-, -, hrunning⟩ | ⟨-, hpending, -, hwake⟩
      · rw [hwaiting] at hrunning
        cases hrunning
      · rw [hpending]
        rcases hdue with ⟨wakeAt, heq, hle⟩ | ⟨p, hp, hexec, hname, hstate⟩
        · rcases hwake with hkept | ⟨next, hnext, -, hearlier | ⟨p, hp, hexec, hname, hstate⟩⟩
          · exact Or.inl ⟨wakeAt, hkept.trans heq, hle⟩
          · exact Or.inl ⟨next, hnext, Nat.le_trans (hearlier wakeAt heq) hle⟩
          · exact Or.inr ⟨p, hcomplete p hp (hexec.trans hinc) hstate, hexec.trans hinc, hname, hstate⟩
        · exact Or.inr ⟨p, hcomplete p hp hexec hstate, hexec, hname, hstate⟩
    · rw [hends.ends] at hlive
      cases hlive
  · refine absurd ?_ hfresh.former
    rw [hinc']
    exact hi

theorem due_of_path {t : System} (h : workflows.Reachable s) (hpath : workflows.Path s t)
    (hm : Meets s.db r p e) {r' : InstanceRow} {p' : StepRow} {e' : EventRow}
    (hm' : Meets t.db r' p' e') (hinc : r'.toIncarnation = r.toIncarnation)
    (hepoch : r'.runEpoch = r.runEpoch) :
    ∃ wakeAt, r'.wakeAt = some wakeAt ∧ wakeAt ≤ s.clock := by
  have hsound := sound_of_reachable h
  have hwoken : Woken s.db r.toIncarnation r.runEpoch s.clock := by
    intro q hq hinc
    rw [hsound.tidy.incarnation_unique hq hm.row hinc]
    exact ⟨Nat.le_refl _, fun _ _ =>
      ⟨hm.waiting, Or.inl ((wakeful_of_reachable h).due r p e hm)⟩⟩
  have hkept : r.executionId ∈ t.minted ∧ Woken t.db r.toIncarnation r.runEpoch s.clock := by
    refine Machine.Path.invariant (P := fun u => r.executionId ∈ u.minted ∧
      Woken u.db r.toIncarnation r.runEpoch s.clock) ?_ h hpath
      ⟨hsound.tidy.minted r hm.row, hwoken⟩
    rintro u a _ hu ⟨hi, hw⟩ hn
    have hsound' := sound_of_reachable hu
    have hsub := minted_of_next hn
    refine ⟨hsub hi, (changes_of_next hsound' hn).induct (hsound'.tidy.mono hsub)
      (P := fun d => Woken d r.toIncarnation r.runEpoch s.clock)
      (fun d d' hd hc hw => hc.woken hd hi hw) hw⟩
  have ht : Tidy t.minted t.db :=
    (sound_of_reachable (Machine.PathVia.trans h hpath)).tidy
  have hlive : r'.status.terminal = false := by
    rw [hm'.waiting]
    rfl
  obtain ⟨-, hdue | ⟨q, hq, hexec, hpending, hcomplete⟩⟩ := (hkept.2 r' hm'.row hinc).2 hepoch hlive
  · exact hdue
  · -- the step that the instance waits for is not complete
    rw [hm'.pending] at hpending
    have hsame : q = p' := by
      refine Table.eq_of_key ht.stepIds hq hm'.step ?_
      rw [hexec, hm'.execution, hinc, Option.some.inj hpending]
    rw [hsame, hm'.state] at hcomplete
    cases hcomplete

/-! ### What becomes of an event that is sent -/

/-- The event is at the end of the queue. -/
def Enqueued (db db' : Db) (event : Db.Event) (e : EventRow) : Prop :=
  e.type = event.type ∧ e.payloadJson = event.payloadJson ∧ e.createdAt = event.timestamp ∧
    db.lastEventId < e.eventId ∧ db'.events = db.events ++ [e] ∧ db'.steps = db.steps

/-- The event is the result of one step, that waited for it when none was queued before it. -/
def Delivered (db db' : Db) (event : Db.Event) : Prop :=
  db'.events = db.events ∧ ∃ p ∈ db.steps, p.config.kind = .wait ∧ p.state = .waiting ∧
    p.waitType = some event.type ∧
    (∃ timeoutAt, p.timeoutAt = some timeoutAt ∧ event.timestamp ≤ timeoutAt) ∧
    (∀ e ∈ db.events, p.awaits e = false) ∧
    ∃ p', p'.execution = p.execution ∧ p'.name = p.name ∧ p'.state = .complete ∧
      p'.resultJson = event.payloadJson ∧ ∀ q, q ∈ db'.steps ↔ q = p' ∨ q ∈ db.steps ∧ q ≠ p

section Accepted

variable {current : InstanceRow} {event : Db.Event} {live : Bool}

theorem enqueued_queueInsert (hc : (db.queueInsert current event live).2 = true) :
    Enqueued db (db.queueInsert current event live).1 event
      (db.queued current.toIncarnation event) := by
  unfold Db.queueInsert at hc ⊢
  dsimp only at hc ⊢
  rw [if_pos hc]
  exact ⟨rfl, rfl, rfl, Nat.lt_succ_self _, rfl, rfl⟩

theorem queueInsert_fst (hc : (db.queueInsert current event live).2 = false) :
    (db.queueInsert current event live).1 = db := by
  unfold Db.queueInsert at hc ⊢
  dsimp only at hc ⊢
  rw [if_neg (by rw [hc]; exact Bool.false_ne_true)]

/-- A sender that delivers its event does not queue it. -/
theorem delivered_sendV3 (h : Tidy m.minted db) {wait : PendingWait}
    (hn : Noted m.former db event current (some wait)) (hclock : event.timestamp ≤ m.clock)
    (hwriter : m.writer = none) (hdelivers : m.delivers = true)
    (hc : (db.deliver current event wait live).2 = true) :
    Delivered db (db.sendV3 current event (some wait) live).1 event := by
  obtain ⟨p, hp, hdirect⟩ := List.any_eq_true.mp hc
  obtain ⟨r, hr, -, hparked, hgone⟩ := revised_of_direct h hp hdirect
  obtain ⟨hinc, hrevision, -⟩ := awake_iff.mp (parked_iff.mp hparked).1
  obtain rfl := (hn.seen r hr hinc).2 hrevision
  -- the row has its next revision, and the queue takes nothing
  have hchanges : Changes m db (db.deliver r event wait live).1 :=
    changes_deliver h hwriter hdelivers hclock
  have hnone : ((db.deliver r event wait live).1.queueInsert r event live).2 = false := by
    refine Bool.eq_false_iff.mpr fun htrue => ?_
    unfold Db.queueInsert at htrue
    simp only [Bool.and_eq_true, List.any_eq_true] at htrue
    obtain ⟨⟨⟨r₀, hr₀, hawake, -⟩, -⟩, -⟩ := htrue
    obtain ⟨hinc₀, hrevision₀, -⟩ := awake_iff.mp hawake
    rw [(hchanges.seen h hn.minted hn.seen r₀ hr₀ hinc₀).2 hrevision₀] at hr₀
    exact hgone hr₀
  have heq : (db.sendV3 r event (some wait) live).1 = (db.deliver r event wait live).1 :=
    queueInsert_fst hnone
  rw [heq]
  obtain ⟨hstep, ⟨hkind, hwaiting, htype, htimeout, -⟩, -⟩ := direct_iff.mp hdirect
  refine ⟨rfl, p, hp, hkind, hwaiting, htype, ⟨wait.timeoutAt, htimeout, ?_⟩,
    fun e he => not_awaits_of_direct h hp hdirect he, ?_⟩
  · have hread := hn.wait hr
    rw [if_pos (parked_iff.mp hparked).2.1] at hread
    obtain ⟨-, q, -, -, -, -, -, -, -, hle, -⟩ := (readPendingWait_iff h hr).mp hread.symm
    exact hle
  · have hunique : ∀ q ∈ db.steps, db.direct r event wait live q = true → q = p := by
      intro q hq hcq
      obtain ⟨hexecq, hnameq⟩ := (isStep_iff h hq hr rfl).mp (direct_iff.mp hcq).1
      obtain ⟨hexecp, hnamep⟩ := (isStep_iff h hp hr rfl).mp hstep
      exact Table.eq_of_key h.stepIds hq hp (by rw [hexecq, hexecp, hnameq, hnamep])
    refine ⟨{ p with
      state := .complete
      resultJson := event.payloadJson
      error := none
      wakeAt := none
      updatedAt := event.timestamp
      revision := p.revision + 1 }, rfl, rfl, rfl, rfl, fun q => ?_⟩
    show q ∈ Table.update _ _ db.steps ↔ _
    rw [Table.mem_update]
    constructor
    · rintro (⟨hq, hcq⟩ | ⟨q₀, hq₀, hcq, rfl⟩)
      · refine Or.inr ⟨hq, fun heq => ?_⟩
        rw [heq, hdirect] at hcq
        cases hcq
      · rw [hunique q₀ hq₀ hcq]
        exact Or.inl rfl
    · rintro (rfl | ⟨hq, hne⟩)
      · exact Or.inr ⟨p, hp, hdirect, rfl⟩
      · exact Or.inl ⟨hq, Bool.eq_false_iff.mpr fun hcq => hne (hunique q hq hcq)⟩

theorem enqueued_sendV3 {wait : Option PendingWait}
    (hc : (db.sendV3 current event wait live).2 = true)
    (hnot : ∀ w, wait = some w → (db.deliver current event w live).2 = false) :
    ∃ e, Enqueued db (db.sendV3 current event wait live).1 event e := by
  cases wait with
  | none => exact ⟨_, enqueued_queueInsert hc⟩
  | some wait =>
    have hnone := hnot wait rfl
    have hqueued : ((db.deliver current event wait live).1.queueInsert current event live).2 =
        true := by
      rcases Bool.or_eq_true_iff.mp hc with htrue | htrue
      · rw [hnone] at htrue
        cases htrue
      · exact htrue
    have hsteps : (db.deliver current event wait live).1.steps = db.steps := by
      refine Table.update_eq_self fun q hq => ?_
      exact Bool.eq_false_iff.mpr fun hcq => List.any_eq_false.mp hnone q hq hcq
    obtain ⟨htype, hpayload, hcreated, hid, hevents, hkept⟩ := enqueued_queueInsert hqueued
    exact ⟨_, htype, hpayload, hcreated, hid, hevents, hkept.trans hsteps⟩

end Accepted

/-- **What becomes of an event that is sent**: it is queued, or it is the result of one step. -/
theorem Send.step_accepted (h : Tidy m.minted db)
    (hn : send.step db live = some result) (hi : send.Informed m.former db)
    (hclock : send.event.timestamp ≤ m.clock) (hwriter : m.writer = none)
    (hdelivers : m.delivers = true) (hc : result.2.stage = .accepted) :
    (∃ e, Enqueued db result.1 send.event e) ∨ Delivered db result.1 send.event := by
  unfold Send.Informed at hi
  unfold Send.step at hn
  split at hn
  · cases hn
    cases hc
  · split at hn
    · cases hn
      cases hc
    · cases hn
      split at hc <;> cases hc
  · next row _ =>
    split at hn
    · cases hn
      cases hc
    cases hn
    have haccepted : (db.sendLegacy row.toIncarnation send.event).2 = true := by
      split at hc
      · next htrue => exact htrue
      · cases hc
    refine Or.inl ⟨db.queued row.toIncarnation send.event, rfl, rfl, rfl, Nat.lt_succ_self _, ?_⟩
    unfold Db.sendLegacy at haccepted ⊢
    dsimp only [Db.updateInstances] at haccepted ⊢
    rw [if_pos haccepted]
    exact ⟨rfl, rfl⟩
  · next row wait heq =>
    simp only [heq] at hi
    cases hn
    have haccepted : (db.sendV3 row send.event wait live).2 = true := by
      split at hc
      · next htrue => exact htrue
      · cases hc
    by_cases hdeliver : ∃ w, wait = some w ∧ (db.deliver row send.event w live).2 = true
    · obtain ⟨w, rfl, hdeliver⟩ := hdeliver
      exact Or.inr (delivered_sendV3 h hi hclock hwriter hdelivers hdeliver)
    · refine Or.inl (enqueued_sendV3 haccepted fun w heq => Bool.eq_false_iff.mpr fun htrue => ?_)
      exact hdeliver ⟨w, heq, htrue⟩
  · split at hn
    · cases hn
      cases hc
    · cases hn
      split at hc <;> cases hc
  · cases hn
  · cases hn

theorem Tidy.none_new (h : Tidy minted db) :
    db.events.filter (fun e => decide (db.lastEventId < e.eventId)) = [] := by
  refine List.filter_eq_nil_iff.mpr fun e he hlt => ?_
  exact absurd (of_decide_eq_true hlt) (Nat.not_lt_of_le (h.lastEventId e he))

theorem accepted_of_sendStep (h : Sound s) (hw : Wakeful s) {k : ℕ}
    (hn : s.next (.sendStep k live) = some s') (hsend : s.sends[k]? = some send)
    (haccepted : ∃ send', s'.sends[k]? = some send' ∧ send'.stage = .accepted) :
    (∃ e, Enqueued s.db s'.db send.event e ∧ s'.accepted = s.accepted ++ [e]) ∨
      Delivered s.db s'.db send.event ∧ s'.accepted = s.accepted := by
  have hmem := List.mem_of_getElem? hsend
  obtain ⟨_, hsend', hstage⟩ := haccepted
  simp only [System.next, hsend] at hn
  obtain ⟨_, hstep, rfl⟩ := Option.map_eq_some_iff.mp hn
  rw [List.getElem?_set_self (List.getElem?_eq_some_iff.mp hsend).1] at hsend'
  cases hsend'
  rcases Send.step_accepted (m := s.move s (.sendStep k live)) h.tidy hstep (hw.sends send hmem)
    (h.sends send hmem) rfl rfl hstage with ⟨e, he⟩ | hdelivered
  · refine Or.inl ⟨e, he, ?_⟩
    obtain ⟨-, -, -, hid, hevents, -⟩ := he
    rw [hevents, List.filter_append, h.tidy.none_new]
    simp [hid]
  · refine Or.inr ⟨hdelivered, ?_⟩
    rw [hdelivered.1, h.tidy.none_new, List.append_nil]

/-! ### The events of an execution -/

/-- A wait of the execution consumes the event: the least of its type that came in time, and its
payload is the result of the step. -/
def Consumes (db db' : Db) (e : EventRow) (i : Incarnation) (name : String) : Prop :=
  ∃ type seconds, ∃ p ∈ db.steps, p.execution = i ∧ p.name = name ∧
    p.config = .wait type seconds ∧ p.state = .waiting ∧
    e ∈ db.events ∧ e.executionId = i.executionId ∧ e.type = type ∧
    e.createdAt ≤ Run.waitTimeout p seconds ∧
    (∀ e' ∈ db.events, e'.executionId = i.executionId → e'.type = type →
      e'.createdAt ≤ Run.waitTimeout p seconds → e.eventId ≤ e'.eventId) ∧
    ∃ p' ∈ db'.steps, p'.execution = i ∧ p'.name = name ∧ p'.state = .complete ∧
      p'.resultJson = e.payloadJson

/-- **What becomes of the events of an execution.** -/
theorem events_delivered (h : workflows.Reachable s) :
    (s.accepted.map EventRow.eventId).Nodup ∧ (s.consumed.map fun c => c.1.eventId).Nodup ∧
    (∀ c ∈ s.consumed, c.1 ∈ s.accepted ∧ c.1 ∉ s.db.events) ∧
    (∀ e ∈ s.db.events, e ∈ s.accepted) ∧
    (∀ e ∈ s.accepted,
      e ∈ s.db.events ∨ (∃ c ∈ s.consumed, c.1 = e) ∨ Ended s.db e.executionId) ∧
    (∀ r p e, Meets s.db r p e → (∃ wakeAt, r.wakeAt = some wakeAt ∧ wakeAt ≤ s.clock) ∧
      ∀ t, workflows.Path s t → ∀ r' p' e', Meets t.db r' p' e' →
        r'.toIncarnation = r.toIncarnation → r'.runEpoch = r.runEpoch →
          ∃ wakeAt, r'.wakeAt = some wakeAt ∧ wakeAt ≤ s.clock) ∧
    ∀ a s', s.next a = some s' →
      (s'.consumed = s.consumed ∨ ∃ e i name, s'.consumed = s.consumed ++ [(e, i, name)] ∧
        Consumes s.db s'.db e i name) ∧
      ∀ k live send, a = .sendStep k live → s.sends[k]? = some send →
        (∃ send', s'.sends[k]? = some send' ∧ send'.stage = .accepted) →
        (∃ e, Enqueued s.db s'.db send.event e ∧ s'.accepted = s.accepted ++ [e]) ∨
          Delivered s.db s'.db send.event ∧ s'.accepted = s.accepted := by
  have hrecorded := recorded_of_reachable h
  have hwakeful := wakeful_of_reachable h
  refine ⟨hrecorded.ids, hrecorded.once, hrecorded.consumed, hrecorded.queued, hrecorded.kept,
    fun r p e hm => ⟨hwakeful.due r p e hm, fun t hpath r' p' e' hm' hinc hepoch =>
      due_of_path h hpath hm hm' hinc hepoch⟩, fun a s' hn => ⟨?_, ?_⟩⟩
  · rcases consumed_of_next hn with hsame | ⟨_, run, key, _, _, _, _, e, -, -, -, -, -, -, hsame⟩
    · exact Or.inl hsame
    · exact Or.inr ⟨e, run.identity.toIncarnation, key, hsame, consumes_first h hn hsame⟩
  · rintro k _ _ rfl hsend haccepted
    exact accepted_of_sendStep (sound_of_reachable h) hwakeful hn hsend haccepted

/-! ### Runs that wait -/

/-- A run is about to look for the event that its step waits for. -/
def waitActions : List Action :=
  [.create someIncarnation true, .read someKey, .claim 0 "owner" 10000 0 true, .run 0 (.start 0 true),
    .run 0 (.begin .wait "first" 0 true), .run 0 (.look (.wait "type" 1)), .run 0 .find,
    .run 0 (.insert 0 true), .run 0 .readBack, .run 0 (.decide 0), .run 0 (.write 0 true),
    .run 0 .readBack]

/-- It finds none and parks, and an event is sent. -/
def wakeActions : List Action :=
  waitActions ++ [.run 0 (.decide 0), .run 0 (.expire 0), .run 0 .stop, .run 0 (.park 0 true),
    .tick 5, .send someKey "type" none true, .sendStep 0 true, .sendStep 0 true, .sendStep 0 true,
    .tick 5, .send someKey "type" none false, .sendStep 1 true, .sendStep 1 true, .sendStep 1 true]

theorem events_delivered_wakeActions :
    ∃ s r p e, workflows.Reachable s ∧ Meets s.db r p e ∧
      ∃ wakeAt, r.wakeAt = some wakeAt ∧ wakeAt ≤ s.clock := by
  obtain ⟨s, hs, hp⟩ := Machine.exists_reachable_of_run (M := workflows) wakeActions
    (fun s => s.db.instances.any fun r => s.db.steps.any fun p => s.db.events.any fun e =>
      decide (r.status = .waiting ∧ p.execution = r.toIncarnation ∧
        r.pendingStepName = some p.name ∧ p.config.kind = .wait ∧ p.state = .waiting ∧
        p.awaits e = true)) (by decide +kernel)
  obtain ⟨r, hr, hp⟩ := List.any_eq_true.mp hp
  obtain ⟨p, hp', hp⟩ := List.any_eq_true.mp hp
  obtain ⟨e, he, hp⟩ := List.any_eq_true.mp hp
  obtain ⟨hwaiting, hexec, hpending, hkind, hstate, hawaits⟩ := of_decide_eq_true hp
  have hm : Meets s.db r p e := ⟨⟨hr, hwaiting, hp', hexec, hpending, hkind, hstate⟩, he, hawaits⟩
  obtain ⟨-, -, -, -, -, hdue, -⟩ := events_delivered hs
  exact ⟨s, r, p, e, hs, hm, (hdue r p e hm).1⟩

/-- A sender samples its instant before the wait is over, and queues its event after one that was
sent later. -/
def overtakeActions : List Action :=
  waitActions ++ [.send someKey "type" none false, .tick 1500, .send someKey "type" none false,
    .sendStep 1 true, .sendStep 1 true, .sendStep 1 true,
    .sendStep 0 true, .sendStep 0 true, .sendStep 0 true,
    .run 0 (.decide 1500), .run 0 (.take 1500 true), .run 0 .readBack,
    .run 0 (.begin .wait "second" 1500 true), .run 0 (.look (.wait "type" 1)), .run 0 .find,
    .run 0 (.insert 1500 true), .run 0 .readBack, .run 0 (.decide 1500), .run 0 (.write 1500 true),
    .run 0 .readBack, .run 0 (.decide 1500), .run 0 (.take 1500 true)]

/-- Two events of a type are consumed against the order of their ids. -/
theorem events_delivered_overtakeActions :
    ∃ s : System, workflows.Reachable s ∧
      s.consumed.map (fun c => (c.1.type, c.1.eventId, c.2.2)) =
        [("type", 2, "first"), ("type", 1, "second")] := by
  obtain ⟨s, hs, hp⟩ := Machine.exists_reachable_of_run (M := workflows) overtakeActions
    (fun s => decide (s.consumed.map (fun c => (c.1.type, c.1.eventId, c.2.2)) =
      [("type", 2, "first"), ("type", 1, "second")])) (by decide +kernel)
  exact ⟨s, hs, of_decide_eq_true hp⟩

end Takoserver.Workflow
