import Takoserver.Workflow.Runs

/-!
# What a statement changes

Every statement on the tables is one of eight elementary changes, or two of them in a row.  What
an elementary change keeps is said here once: `Tidy` holds the keys of the tables, that a step or
an event belongs to an instance that has not ended, and that no termination that was requested
ends in success.
-/

namespace Takoserver.Workflow

open Relation (ReflTransGen)

/-! ### Tidy tables -/

/-- The keys, and what ties the three tables together. -/
structure Tidy (minted : List String) (db : Db) : Prop where
  keys : (db.instances.map fun r => r.toInstanceKey).Nodup
  executions : (db.instances.map fun r => r.executionId).Nodup
  minted : ∀ r ∈ db.instances, r.executionId ∈ minted
  /-- An owner has a lease. -/
  leases : ∀ r ∈ db.instances, r.runOwner = none ↔ r.runLeaseUntil = none
  /-- A parked instance has no owner. -/
  parked : ∀ r ∈ db.instances, r.status = .waiting → r.runOwner = none
  requested : ∀ r ∈ db.instances, r.terminationRequested = true → r.status ≠ .complete
  /-- A step is one of an instance that has not ended. -/
  stepOf : ∀ p ∈ db.steps, ∃ r ∈ db.instances, p.execution = r.toIncarnation ∧
    r.status.terminal = false
  eventOf : ∀ e ∈ db.events, ∃ r ∈ db.instances, e.key = r.toInstanceKey ∧
    e.executionId = r.executionId ∧ r.status.terminal = false
  stepIds : (db.steps.map fun p => (p.execution, p.name)).Nodup
  eventIds : (db.events.map EventRow.eventId).Nodup
  lastEventId : ∀ e ∈ db.events, e.eventId ≤ db.lastEventId

variable {minted : List String} {db db' : Db}

variable {r : InstanceRow}

variable {r' : InstanceRow}

/-- An execution has one row. -/
theorem Tidy.row_unique (h : Tidy minted db) (hr : r ∈ db.instances)
    (hr' : r' ∈ db.instances) (heq : r.executionId = r'.executionId) : r = r' :=
  Table.eq_of_key h.executions hr hr' heq

theorem Tidy.incarnation_unique (h : Tidy minted db) (hr : r ∈ db.instances)
    (hr' : r' ∈ db.instances) (heq : r.toIncarnation = r'.toIncarnation) : r = r' :=
  h.row_unique hr hr' (congrArg Incarnation.executionId heq)

variable {p : StepRow} {i : Incarnation} {e : EventRow}

theorem Tidy.execution_of_isOf (h : Tidy minted db) (hp : p ∈ db.steps)
    (hr : r ∈ db.instances) (hof : p.isOf r = true) :
    p.execution = r.toIncarnation := by
  obtain ⟨r', hr', heq, -⟩ := h.stepOf p hp
  have hsame : r' = r := by
    refine h.row_unique hr' hr ?_
    rw [← (of_decide_eq_true hof).1, heq]
  rw [heq, hsame]

theorem isOf_of_execution (h : p.execution = r.toIncarnation) :
    p.isOf r = true := by
  simp [StepRow.isOf, h]

theorem Tidy.clean (h : Tidy minted db) (hr : r ∈ db.instances)
    (ht : r.status.terminal = true) :
    (∀ p ∈ db.steps, p.isOf r = false) ∧ ∀ e ∈ db.events, e.executionId ≠ r.executionId := by
  constructor
  · intro p hp
    refine Bool.eq_false_iff.mpr fun hof => ?_
    obtain ⟨r', hr', heq, hlive⟩ := h.stepOf p hp
    have hsame : r' = r :=
      h.incarnation_unique hr' hr (heq.symm.trans (h.execution_of_isOf hp hr hof))
    rw [hsame, ht] at hlive
    cases hlive
  · intro e he heq
    obtain ⟨_, hr', -, hexec, hlive⟩ := h.eventOf e he
    rw [h.row_unique hr' hr (hexec.symm.trans heq), ht] at hlive
    cases hlive

/-! ### Batches that end an execution -/

/-- The executions that meet a condition end: their steps and events go, and the rows are set. -/
def Db.ends (db : Db) (condition : InstanceRow → Bool) (set : InstanceRow → InstanceRow) : Db :=
  (db.dropJournal condition).updateInstances condition set

variable {condition : InstanceRow → Bool} {set : InstanceRow → InstanceRow}

section

variable (h : ∀ r ∈ db.instances, condition r = false)

include h

theorem updateInstances_eq_self : db.updateInstances condition set = db := by
  simp only [Db.updateInstances]
  rw [Table.update_eq_self h]

theorem dropJournal_eq_self : db.dropJournal condition = db := by
  have hs : Table.delete (fun p => db.instances.any fun r => condition r && p.isOf r) db.steps =
      db.steps := by
    refine List.filter_eq_self.mpr fun p _ => ?_
    simp only [Bool.not_eq_true', List.any_eq_false, Bool.and_eq_true, not_and]
    exact fun r hr hc => absurd hc (by simp [h r hr])
  have he : Table.delete (fun e : EventRow => db.instances.any fun r =>
      condition r && decide (e.executionId = r.executionId)) db.events = db.events := by
    refine List.filter_eq_self.mpr fun e _ => ?_
    simp only [Bool.not_eq_true', List.any_eq_false, Bool.and_eq_true, not_and]
    exact fun r hr hc => absurd hc (by simp [h r hr])
  simp only [Db.dropJournal, hs, he]

/-- Where no execution ends, nothing changes. -/
theorem ends_eq_self : db.ends condition set = db := by
  rw [Db.ends, dropJournal_eq_self h, updateInstances_eq_self h]

end

/-- **The batches that end an execution.**  Where the row is set, the two last statements delete
its journal and its events; where it is not, it has ended before and has none. -/
theorem cleanup_eq_ends (h : Tidy minted db) {guard : InstanceRow → Bool}
    (hcondition : ∀ r, condition r = true → r.toIncarnation = i)
    (hset : ∀ r, condition r = true → guard ((set r).revised r) = true)
    (hguard : ∀ r, guard r = true → r.toIncarnation = i ∧ r.status.terminal = true) :
    (db.updateInstances condition set).cleanup i guard = db.ends condition set := by
  -- one row is met, or none is and there is nothing to delete
  by_cases hmet : ∃ r ∈ db.instances, condition r = true
  · obtain ⟨r, hr, hc⟩ := hmet
    have hinc := hcondition r hc
    have hany : (db.updateInstances condition set).instances.any guard = true := by
      refine List.any_eq_true.mpr ⟨_, Table.mem_update_of_mem (p := condition) hr, ?_⟩
      rw [if_pos hc]
      exact hset r hc
    have hsteps : Table.delete (fun p : StepRow => decide (p.execution.executionId =
        i.executionId ∧ p.execution.createdAt = i.createdAt)) db.steps =
          Table.delete (fun p => db.instances.any fun r => condition r && p.isOf r) db.steps := by
      refine List.filter_congr fun p _ => congrArg not ?_
      rw [Bool.eq_iff_iff, List.any_eq_true, decide_eq_true_iff]
      constructor
      · rintro ⟨he, hcr⟩
        exact ⟨r, hr, by simp [StepRow.isOf, hc, hinc, he, hcr]⟩
      · rintro ⟨r', -, hr'⟩
        obtain ⟨hc', hof⟩ := Bool.and_eq_true_iff.mp hr'
        rw [← hcondition r' hc']
        exact of_decide_eq_true hof
    have hevents : Table.delete (fun e : EventRow => decide (e.executionId = i.executionId))
        db.events = Table.delete (fun e => db.instances.any fun r =>
          condition r && decide (e.executionId = r.executionId)) db.events := by
      refine List.filter_congr fun e _ => congrArg not ?_
      rw [Bool.eq_iff_iff, List.any_eq_true, decide_eq_true_iff]
      constructor
      · intro he
        exact ⟨r, hr, by simp [hc, hinc, he]⟩
      · rintro ⟨r', -, hr'⟩
        obtain ⟨hc', he⟩ := Bool.and_eq_true_iff.mp hr'
        rw [← hcondition r' hc']
        exact of_decide_eq_true he
    unfold Db.cleanup
    rw [if_pos hany]
    simp only [Db.ends, Db.dropJournal, Db.updateInstances, hsteps, hevents]
  · have hnone : ∀ r ∈ db.instances, condition r = false := by
      intro r hr
      exact Bool.eq_false_iff.mpr fun hc => hmet ⟨r, hr, hc⟩
    rw [updateInstances_eq_self hnone, ends_eq_self hnone]
    unfold Db.cleanup
    split
    · next hany =>
      obtain ⟨r, hr, hg⟩ := List.any_eq_true.mp hany
      obtain ⟨hinc, ht⟩ := hguard r hg
      obtain ⟨hsteps, hevents⟩ := h.clean hr ht
      have hs : Table.delete (fun p : StepRow => decide (p.execution.executionId = i.executionId ∧
          p.execution.createdAt = i.createdAt)) db.steps = db.steps := by
        refine List.filter_eq_self.mpr fun p hp => ?_
        have hnot := hsteps p hp
        rw [StepRow.isOf, hinc] at hnot
        exact congrArg not hnot
      have he : Table.delete (fun e : EventRow => decide (e.executionId = i.executionId)) db.events =
          db.events := by
        refine List.filter_eq_self.mpr fun e he => ?_
        have hne := hevents e he
        rw [hinc] at hne
        simpa using hne
      rw [hs, he]
    · rfl

/-! ### Elementary changes -/

/-- What stands around a change: who makes it, when, and what the history records with it. -/
structure Move where
  /-- The execution ids that were given before it, and after it. -/
  former : List String
  minted : List String
  clock : Instant
  /-- The run that writes, if it is one. -/
  writer : Option RunIdentity := none
  /-- The events that a wait consumes by it. -/
  taken : List EventRow := []
  /-- It may write a `do`. -/
  works : Bool := false
  /-- It may park an instance. -/
  parks : Bool := false
  /-- It may complete the wait of an instance that is parked. -/
  delivers : Bool := false

variable {m : Move}

/-- The run that writes has the claim. -/
def Move.Claims (m : Move) (r : InstanceRow) : Prop :=
  ∃ identity, m.writer = some identity ∧ r.claimedBy identity = true

/-- What a change leaves of an instance that waits: it was parked by it, or waited before and is
due no later, unless its step has just been completed. -/
def Waits (m : Move) (db : Db) (r r' : InstanceRow) : Prop :=
  (m.parks = true ∧ m.Claims r ∧ r.status = .running) ∨
    r.status = .waiting ∧ r'.pendingStepName = r.pendingStepName ∧ r'.runEpoch = r.runEpoch ∧
      (r'.wakeAt = r.wakeAt ∨ ∃ wakeAt, r'.wakeAt = some wakeAt ∧ wakeAt ≤ m.clock ∧
        ((∀ former, r.wakeAt = some former → wakeAt ≤ former) ∨
          ∃ p ∈ db.steps, p.execution = r.toIncarnation ∧ r.pendingStepName = some p.name ∧
            p.state = .complete))

/-- What happens to the row of an instance that does not end by it. -/
structure RowStep (m : Move) (db : Db) (r r' : InstanceRow) : Prop where
  incarnation : r'.toIncarnation = r.toIncarnation
  deadlineAt : r'.deadlineAt = r.deadlineAt
  retentionUntil : r'.retentionUntil = r.retentionUntil
  outputJson : r'.outputJson = r.outputJson
  error : r'.error = r.error
  revision : r'.revision = r.revision + 1
  lives : r'.status.terminal = r.status.terminal
  stays : r.status.terminal = true → r'.status = r.status
  leases : (r.runOwner = none ↔ r.runLeaseUntil = none) →
    (r'.runOwner = none ↔ r'.runLeaseUntil = none)
  parked : (r.status = .waiting → r.runOwner = none) → r'.status = .waiting → r'.runOwner = none
  requested : r.terminationRequested = true →
    r'.terminationRequested = true ∨ r.status.terminal = true
  asked : r'.terminationRequested = true →
    r.terminationRequested = true ∨ r.status.terminal = false
  epoch : r.runEpoch ≤ r'.runEpoch
  /-- In one epoch an owner is only ever lost. -/
  owner : r'.runEpoch = r.runEpoch → r'.runOwner = none ∨ r'.runOwner = r.runOwner
  /-- A claim is nobody else's to touch before its lease has run out. -/
  kept : r.status.terminal = false → r.leased m.clock = true → ¬ m.Claims r →
    r'.runEpoch = r.runEpoch ∧ r'.runOwner = r.runOwner ∧ r'.runLeaseUntil = r.runLeaseUntil
  waits : r'.status = .waiting → Waits m db r r'
  waiting : r'.runEpoch = r.runEpoch → r.status = .waiting → r'.status = .waiting

/-- What happens to the row of an instance that ends. -/
structure EndStep (r r' : InstanceRow) : Prop where
  incarnation : r'.toIncarnation = r.toIncarnation
  deadlineAt : r'.deadlineAt = r.deadlineAt
  revision : r'.revision = r.revision + 1
  lives : r.status.terminal = false
  ends : r'.status.terminal = true
  leases : (r.runOwner = none ↔ r.runLeaseUntil = none) →
    (r'.runOwner = none ↔ r'.runLeaseUntil = none)
  requested : r.terminationRequested = true → r'.status ≠ .complete
  asked : r'.terminationRequested = true → r.terminationRequested = true
  epoch : r.runEpoch ≤ r'.runEpoch

/-- The step is of an instance that has not ended and is not asked to, and it is written by the
run that has the claim, or by a caller while the instance waits. -/
def Journals (m : Move) (db : Db) (p : StepRow) : Prop :=
  ∃ r ∈ db.instances, p.execution = r.toIncarnation ∧ r.status.terminal = false ∧
    r.terminationRequested = false ∧
      ((m.Claims r ∧ r.status = .running) ∨
        m.writer = none ∧ m.delivers = true ∧ r.status = .waiting)

/-- What happens to a step that is written. -/
structure StepWrite (m : Move) (db : Db) (p p' : StepRow) : Prop where
  execution : p'.execution = p.execution
  name : p'.name = p.name
  config : p'.config = p.config
  revision : p'.revision = p.revision + 1
  /-- Only a step without its result is written. -/
  unsettled : p.state.settled = false
  works : p.config.kind = .run → m.works = true
  /-- A caller completes a step for which no event is queued. -/
  completes : m.writer = none → p'.state = .complete ∧ ∀ e ∈ db.events, p.awaits e = false
  journals : Journals m db p

/-- An elementary change of the tables. -/
inductive Change (m : Move) (db : Db) : Db → Prop
  | rows (condition : InstanceRow → Bool) (set : InstanceRow → InstanceRow)
      (h : ∀ r ∈ db.instances, condition r = true → RowStep m db r ((set r).revised r)) :
      Change m db (db.updateInstances condition set)
  | ends (condition : InstanceRow → Bool) (set : InstanceRow → InstanceRow)
      (h : ∀ r ∈ db.instances, condition r = true → EndStep r ((set r).revised r)) :
      Change m db (db.ends condition set)
  | remove (condition : InstanceRow → Bool)
      (h : ∀ r ∈ db.instances, condition r = true → r.retentionUntil ≤ m.clock) :
      Change m db (db.remove condition)
  | create (row : InstanceRow) (hqueued : row.status = .queued) (howner : row.runOwner = none)
      (hlease : row.runLeaseUntil = none) (hrequested : row.terminationRequested = false)
      (hkey : ∀ r ∈ db.instances, r.toInstanceKey ≠ row.toInstanceKey)
      (hfresh : ∀ r ∈ db.instances, r.executionId ≠ row.executionId)
      (hformer : row.executionId ∉ m.former) (hminted : row.executionId ∈ m.minted) :
      Change m db { db with instances := db.instances ++ [row] }
  | enqueue (i : Incarnation) (event : Db.Event)
      (h : ∃ r ∈ db.instances, r.toIncarnation = i ∧ r.status.terminal = false) :
      Change m db (db.enqueue i event)
  | insertStep (row : StepRow)
      (hfresh : ∀ p ∈ db.steps, ¬ (p.execution = row.execution ∧ p.name = row.name))
      (hpending : row.state = .pending) (hprogress : row.retryProgress = none)
      (h : Journals m db row) : Change m db { db with steps := db.steps ++ [row] }
  | steps (condition : StepRow → Bool) (set : StepRow → StepRow)
      (h : ∀ p ∈ db.steps, condition p = true → StepWrite m db p (set p)) :
      Change m db { db with steps := Table.update condition set db.steps }
  | dropEvents (condition : EventRow → Bool)
      (h : ∀ e ∈ db.events, condition e = true → e ∈ m.taken ∧
        ∃ r ∈ db.instances, r.executionId = e.executionId ∧ r.status = .running) :
      Change m db { db with events := Table.delete condition db.events }

/-- Some changes in a row. -/
def Changes (m : Move) : Db → Db → Prop := ReflTransGen (Change m)

theorem Change.one (h : Change m db db') : Changes m db db' := .single h

/-! ### The rows after an update -/

section Update

variable {condition : InstanceRow → Bool} {set : InstanceRow → InstanceRow}

theorem mem_updateInstances :
    r' ∈ (db.updateInstances condition set).instances ↔
      (r' ∈ db.instances ∧ condition r' = false) ∨
        ∃ r ∈ db.instances, condition r = true ∧ r' = (set r).revised r :=
  Table.mem_update

theorem mem_ends_steps :
    p ∈ (db.ends condition set).steps ↔
      p ∈ db.steps ∧ ∀ r ∈ db.instances, condition r = true → p.isOf r = false := by
  simp [Db.ends, Db.updateInstances, Db.dropJournal, Table.mem_delete]

theorem mem_ends_events :
    e ∈ (db.ends condition set).events ↔
      e ∈ db.events ∧ ∀ r ∈ db.instances, condition r = true → e.executionId ≠ r.executionId := by
  simp [Db.ends, Db.updateInstances, Db.dropJournal, Table.mem_delete]

theorem mem_remove_instances :
    r ∈ (db.remove condition).instances ↔ r ∈ db.instances ∧ condition r = false := by
  simp [Db.remove, Table.mem_delete]

theorem mem_remove_steps :
    p ∈ (db.remove condition).steps ↔
      p ∈ db.steps ∧ ∀ r ∈ db.instances, condition r = true → p.isOf r = false := by
  simp [Db.remove, Db.dropJournal, Table.mem_delete]

theorem mem_remove_events :
    e ∈ (db.remove condition).events ↔
      e ∈ db.events ∧ ∀ r ∈ db.instances, condition r = true → e.executionId ≠ r.executionId := by
  simp [Db.remove, Db.dropJournal, Table.mem_delete]

end Update

/-! ### The step lemma -/

/-- A change that keeps the incarnations keeps the keys of the rows. -/
theorem Tidy.map_updateInstances {β : Type} (g : Incarnation → β)
    (h : ∀ r ∈ db.instances, condition r = true →
      ((set r).revised r).toIncarnation = r.toIncarnation) :
    (db.updateInstances condition set).instances.map (fun r => g r.toIncarnation) =
      db.instances.map fun r => g r.toIncarnation := by
  refine Table.map_update_of_mem fun r hr hc => ?_
  rw [h r hr hc]

/-- What every row of tidy tables meets by itself. -/
def RowTidy (minted : List String) (r : InstanceRow) : Prop :=
  r.executionId ∈ minted ∧ (r.runOwner = none ↔ r.runLeaseUntil = none) ∧
    (r.status = .waiting → r.runOwner = none) ∧
    (r.terminationRequested = true → r.status ≠ .complete)

/-- A change of the rows leaves no step and no event but those of a row that lives on. -/
theorem Tidy.of_rows (h : Tidy minted db)
    (hkeys : (db'.instances.map fun r => r.toInstanceKey).Nodup)
    (hexecutions : (db'.instances.map fun r => r.executionId).Nodup)
    (hrows : ∀ r ∈ db'.instances, r ∈ db.instances ∨ RowTidy minted r)
    (hsteps : db'.steps.Sublist db.steps) (hevents : db'.events.Sublist db.events)
    (hlast : db'.lastEventId = db.lastEventId)
    (hlives : ∀ r ∈ db.instances, (∃ r' ∈ db'.instances, r'.toIncarnation = r.toIncarnation ∧
        r'.status.terminal = r.status.terminal) ∨
      (∀ p ∈ db'.steps, p.isOf r = false) ∧ ∀ e ∈ db'.events, e.executionId ≠ r.executionId) :
    Tidy minted db' := by
  have htidy : ∀ r ∈ db'.instances, RowTidy minted r := by
    intro r hr
    rcases hrows r hr with hr | htidy
    · exact ⟨h.minted r hr, h.leases r hr, h.parked r hr, h.requested r hr⟩
    · exact htidy
  refine ⟨hkeys, hexecutions, fun r hr => (htidy r hr).1, fun r hr => (htidy r hr).2.1,
    fun r hr => (htidy r hr).2.2.1, fun r hr => (htidy r hr).2.2.2, ?_, ?_,
    h.stepIds.sublist (hsteps.map _), h.eventIds.sublist (hevents.map _), ?_⟩
  · intro p hp
    obtain ⟨r, hr, heq, hlive⟩ := h.stepOf p (hsteps.subset hp)
    rcases hlives r hr with ⟨r', hr', hinc, hlives⟩ | ⟨hnone, -⟩
    · exact ⟨r', hr', heq.trans hinc.symm, hlives.trans hlive⟩
    · have hof := isOf_of_execution heq
      rw [hnone p hp] at hof
      cases hof
  · intro e he
    obtain ⟨r, hr, hkey, hexec, hlive⟩ := h.eventOf e (hevents.subset he)
    rcases hlives r hr with ⟨r', hr', hinc, hlives⟩ | ⟨-, hnone⟩
    · exact ⟨r', hr', by rw [hkey, hinc], by rw [hexec, hinc], hlives.trans hlive⟩
    · exact absurd hexec (hnone e he)
  · intro e he
    rw [hlast]
    exact h.lastEventId e (hevents.subset he)

/-- **Every elementary change keeps the tables tidy.** -/
theorem Tidy.change (h : Tidy m.minted db) (hc : Change m db db') : Tidy m.minted db' := by
  cases hc with
  -- the rows change in place, their keys and incarnations stand
  | rows condition set hstep =>
    have hinc := fun r hr hc => (hstep r hr hc).incarnation
    refine h.of_rows ?_ ?_ ?_ (.refl _) (.refl _) rfl ?_
    · rw [Tidy.map_updateInstances (fun i => i.toInstanceKey) hinc]
      exact h.keys
    · rw [Tidy.map_updateInstances (fun i => i.executionId) hinc]
      exact h.executions
    · intro r' hr'
      rcases mem_updateInstances.mp hr' with ⟨hr, -⟩ | ⟨r, hr, hc, rfl⟩
      · exact Or.inl hr
      have hs := hstep r hr hc
      refine Or.inr ⟨?_, hs.leases (h.leases r hr), hs.parked (h.parked r hr), ?_⟩
      · rw [hs.incarnation]
        exact h.minted r hr
      · intro hreq hcomplete
        have hterminal : r.status.terminal = true := by
          rw [← hs.lives, hcomplete]
          rfl
        rcases hs.asked hreq with hreq' | hlive
        · exact h.requested r hr hreq' ((hs.stays hterminal).symm.trans hcomplete)
        · rw [hterminal] at hlive
          cases hlive
    · intro r hr
      refine Or.inl ⟨_, Table.mem_update_of_mem hr, ?_⟩
      split
      · next hc => exact ⟨(hstep r hr hc).incarnation, (hstep r hr hc).lives⟩
      · exact ⟨rfl, rfl⟩
  -- an end takes the steps and waits of its rows along
  | ends condition set hstep =>
    have hinc := fun r hr hc => (hstep r hr hc).incarnation
    refine h.of_rows ?_ ?_ ?_ List.filter_sublist List.filter_sublist rfl ?_
    · have hmap : (db.updateInstances condition set).instances.map (fun r => r.toInstanceKey) = _ :=
        Tidy.map_updateInstances (fun i => i.toInstanceKey) hinc
      exact (congrArg List.Nodup hmap).mpr h.keys
    · have hmap : (db.updateInstances condition set).instances.map (fun r => r.executionId) = _ :=
        Tidy.map_updateInstances (fun i => i.executionId) hinc
      exact (congrArg List.Nodup hmap).mpr h.executions
    · intro r' hr'
      rcases mem_updateInstances.mp hr' with ⟨hr, -⟩ | ⟨r, hr, hc, rfl⟩
      · exact Or.inl hr
      · have hs := hstep r hr hc
        refine Or.inr ⟨?_, hs.leases (h.leases r hr), ?_, fun hreq => hs.requested (hs.asked hreq)⟩
        · rw [hs.incarnation]
          exact h.minted r hr
        · intro hwaiting
          have hends := hs.ends
          rw [hwaiting] at hends
          cases hends
    · intro r hr
      cases hc : condition r with
      | false => exact Or.inl ⟨r, mem_updateInstances.mpr (Or.inl ⟨hr, hc⟩), rfl, rfl⟩
      | true =>
        exact Or.inr ⟨fun p hp => (mem_ends_steps.mp hp).2 r hr hc,
          fun e he => (mem_ends_events.mp he).2 r hr hc⟩
  | remove condition =>
    refine h.of_rows (Table.nodup_delete h.keys) (Table.nodup_delete h.executions)
      (fun r hr => Or.inl (mem_remove_instances.mp hr).1) List.filter_sublist List.filter_sublist
      rfl ?_
    intro r hr
    cases hc : condition r with
    | false => exact Or.inl ⟨r, mem_remove_instances.mpr ⟨hr, hc⟩, rfl, rfl⟩
    | true =>
      exact Or.inr ⟨fun p hp => (mem_remove_steps.mp hp).2 r hr hc,
        fun e he => (mem_remove_events.mp he).2 r hr hc⟩
  | create row _ howner hlease hrequested hkey hfresh _ hminted =>
    refine h.of_rows ?_ ?_ ?_ (.refl _) (.refl _) rfl
      fun r hr => Or.inl ⟨r, List.mem_append_left _ hr, rfl, rfl⟩
    · rw [List.map_append, List.nodup_append]
      refine ⟨h.keys, by simp, ?_⟩
      simpa using hkey
    · rw [List.map_append, List.nodup_append]
      refine ⟨h.executions, by simp, ?_⟩
      simpa using hfresh
    · intro r hr
      rcases List.mem_append.mp hr with hr | hr
      · exact Or.inl hr
      · rw [List.mem_singleton.mp hr]
        exact Or.inr ⟨hminted, by simp [howner, hlease], fun _ => howner, by simp [hrequested]⟩
  | enqueue _ _ hlive =>
    refine ⟨h.keys, h.executions, h.minted, h.leases, h.parked, h.requested, h.stepOf, ?_,
      h.stepIds, ?_, ?_⟩
    · intro e he
      rcases List.mem_append.mp he with he | he
      · exact h.eventOf e he
      · obtain ⟨r, hr, hinc, hlive⟩ := hlive
        rw [List.mem_singleton.mp he]
        exact ⟨r, hr, by simp [Db.queued, hinc], by simp [Db.queued, hinc], hlive⟩
    · simp only [Db.enqueue, List.map_append, List.map_cons, List.map_nil, List.nodup_append]
      refine ⟨h.eventIds, by simp, ?_⟩
      intro a ha b hb
      obtain ⟨e, he, rfl⟩ := List.mem_map.mp ha
      have hle := h.lastEventId e he
      rw [List.mem_singleton] at hb
      simp only [Db.queued] at hb
      omega
    · intro e he
      rcases Table.mem_insert.mp he with he | rfl
      · have hle := h.lastEventId e he
        simp only [Db.enqueue]
        omega
      · exact Nat.le_refl _
  | insertStep _ hfresh _ _ hlive =>
    refine ⟨h.keys, h.executions, h.minted, h.leases, h.parked, h.requested, ?_, h.eventOf, ?_,
      h.eventIds, h.lastEventId⟩
    · intro p hp
      rcases List.mem_append.mp hp with hp | hp
      · exact h.stepOf p hp
      · obtain ⟨r, hr, heq, hlive, -⟩ := hlive
        rw [List.mem_singleton.mp hp]
        exact ⟨r, hr, heq, hlive⟩
    · rw [List.map_append, List.nodup_append]
      refine ⟨h.stepIds, by simp, ?_⟩
      intro a ha b hb hab
      obtain ⟨p, hp, rfl⟩ := List.mem_map.mp ha
      rw [List.map_cons, List.map_nil, List.mem_singleton] at hb
      rw [hb, Prod.mk.injEq] at hab
      exact hfresh p hp hab
  | steps _ _ hstep =>
    refine ⟨h.keys, h.executions, h.minted, h.leases, h.parked, h.requested, ?_, h.eventOf, ?_,
      h.eventIds, h.lastEventId⟩
    · intro p' hp'
      rcases Table.mem_update.mp hp' with ⟨hp, -⟩ | ⟨p, hp, hc, rfl⟩
      · exact h.stepOf p' hp
      · rw [(hstep p hp hc).execution]
        exact h.stepOf p hp
    · rw [Table.map_update_of_mem fun p hp hc => by
        rw [(hstep p hp hc).execution, (hstep p hp hc).name]]
      exact h.stepIds
  | dropEvents =>
    refine ⟨h.keys, h.executions, h.minted, h.leases, h.parked, h.requested, h.stepOf, ?_,
      h.stepIds, ?_, ?_⟩
    · exact fun e he => h.eventOf e (Table.mem_delete.mp he).1
    · exact Table.nodup_delete h.eventIds
    · exact fun e he => h.lastEventId e (Table.mem_delete.mp he).1

theorem Tidy.changes (h : Tidy m.minted db) (hc : Changes m db db') : Tidy m.minted db' := by
  induction hc with
  | refl => exact h
  | tail _ hc ih => exact ih.change hc

theorem Changes.induct {P : Db → Prop} (h : Tidy m.minted db) (hc : Changes m db db')
    (hstep : ∀ d d', Tidy m.minted d → Change m d d' → P d → P d') (hp : P db) : P db' := by
  have key : Tidy m.minted db' ∧ P db' := by
    induction hc with
    | refl => exact ⟨h, hp⟩
    | tail _ hc ih => exact ⟨ih.1.change hc, hstep _ _ ih.1 hc ih.2⟩
  exact key.2

/-! ### What a change makes of a row -/

/-- The incarnation has no open row. -/
def Gone (db : Db) (i : Incarnation) : Prop :=
  ∀ r ∈ db.instances, r.toIncarnation = i → r.status.terminal = true

/-- What a change makes of the row of an instance. -/
def Becomes (m : Move) (db : Db) (r r' : InstanceRow) : Prop :=
  r' = r ∨ RowStep m db r r' ∨ EndStep r r'

/-- A row that is created. -/
structure Fresh (m : Move) (r : InstanceRow) : Prop where
  queued : r.status = .queued
  owner : r.runOwner = none
  requested : r.terminationRequested = false
  former : r.executionId ∉ m.former

section Becomes

variable {r r' : InstanceRow}

section

variable (h : Becomes m db r r')

include h

theorem Becomes.incarnation : r'.toIncarnation = r.toIncarnation := by
  obtain rfl | h | h := h
  · rfl
  · exact h.incarnation
  · exact h.incarnation

theorem Becomes.deadlineAt : r'.deadlineAt = r.deadlineAt := by
  obtain rfl | h | h := h
  · rfl
  · exact h.deadlineAt
  · exact h.deadlineAt

theorem Becomes.epoch : r.runEpoch ≤ r'.runEpoch := by
  obtain rfl | h | h := h
  · exact Nat.le_refl _
  · exact h.epoch
  · exact h.epoch

/-- A row that has ended stays ended. -/
theorem Becomes.terminal (ht : r.status.terminal = true) :
    r'.status.terminal = true := by
  obtain rfl | h | h := h
  · exact ht
  · rw [h.lives, ht]
  · exact h.ends

theorem Becomes.revision : r' = r ∨ r'.revision = r.revision + 1 := by
  obtain rfl | h | h := h
  · exact Or.inl rfl
  · exact Or.inr h.revision
  · exact Or.inr h.revision

end

theorem Becomes.claimedBy {identity : RunIdentity} (h : Becomes m db r r')
    (hepoch : identity.epoch ≤ r.runEpoch) (hclaimed : r'.claimedBy identity = true)
    (hlive : r'.status.terminal = false) :
    r.claimedBy identity = true ∧ r.status.terminal = false := by
  obtain rfl | h | h := h
  · exact ⟨hclaimed, hlive⟩
  · obtain ⟨hinc, hepoch', howner⟩ := of_decide_eq_true hclaimed
    have hsame : r'.runEpoch = r.runEpoch :=
      Nat.le_antisymm (by rw [hepoch']; exact hepoch) h.epoch
    refine ⟨decide_eq_true ⟨h.incarnation.symm.trans hinc, hsame.symm.trans hepoch', ?_⟩,
      h.lives.symm.trans hlive⟩
    rcases h.owner hsame with hnone | hkept
    · rw [hnone] at howner
      cases howner
    · exact hkept.symm.trans howner
  · rw [h.ends] at hlive
    cases hlive

end Becomes

/-- **Where a row comes from.** -/
theorem Change.row_back (hc : Change m db db') (hr' : r' ∈ db'.instances) :
    (∃ r ∈ db.instances, Becomes m db r r') ∨ Fresh m r' := by
  cases hc with
  | rows _ _ hstep =>
    rcases mem_updateInstances.mp hr' with ⟨hr, -⟩ | ⟨r, hr, hc, rfl⟩
    · exact Or.inl ⟨r', hr, Or.inl rfl⟩
    · exact Or.inl ⟨r, hr, Or.inr (Or.inl (hstep r hr hc))⟩
  | ends _ _ hstep =>
    rcases mem_updateInstances.mp hr' with ⟨hr, -⟩ | ⟨r, hr, hc, rfl⟩
    · exact Or.inl ⟨r', hr, Or.inl rfl⟩
    · exact Or.inl ⟨r, hr, Or.inr (Or.inr (hstep r hr hc))⟩
  | remove => exact Or.inl ⟨r', (mem_remove_instances.mp hr').1, Or.inl rfl⟩
  | create _ hqueued howner _ hrequested _ _ hformer =>
    rcases List.mem_append.mp hr' with hr | hr
    · exact Or.inl ⟨r', hr, Or.inl rfl⟩
    · rw [List.mem_singleton.mp hr]
      exact Or.inr ⟨hqueued, howner, hrequested, hformer⟩
  | enqueue => exact Or.inl ⟨r', hr', Or.inl rfl⟩
  | insertStep => exact Or.inl ⟨r', hr', Or.inl rfl⟩
  | steps => exact Or.inl ⟨r', hr', Or.inl rfl⟩
  | dropEvents => exact Or.inl ⟨r', hr', Or.inl rfl⟩

/-- **What becomes of a row.** -/
theorem Change.row_forth (h : Tidy m.minted db) (hc : Change m db db')
    (hr : r ∈ db.instances) :
    (∃ r' ∈ db'.instances, Becomes m db r r') ∨
      r.retentionUntil ≤ m.clock ∧ ∀ r' ∈ db'.instances, r'.toIncarnation ≠ r.toIncarnation := by
  cases hc with
  | rows _ _ hstep =>
    refine Or.inl ⟨_, Table.mem_update_of_mem hr, ?_⟩
    split
    · next hc => exact Or.inr (Or.inl (hstep r hr hc))
    · exact Or.inl rfl
  | ends condition set hstep =>
    refine Or.inl ⟨_, Table.mem_update_of_mem (p := condition) hr, ?_⟩
    split
    · next hc => exact Or.inr (Or.inr (hstep r hr hc))
    · exact Or.inl rfl
  | remove condition hretained =>
    cases hc : condition r with
    | false => exact Or.inl ⟨r, mem_remove_instances.mpr ⟨hr, hc⟩, Or.inl rfl⟩
    | true =>
      refine Or.inr ⟨hretained r hr hc, fun r' hr' heq => ?_⟩
      obtain ⟨hr', hc'⟩ := mem_remove_instances.mp hr'
      rw [h.incarnation_unique hr' hr heq, hc] at hc'
      cases hc'
  | create =>
    exact Or.inl ⟨r, List.mem_append_left _ hr, Or.inl rfl⟩
  | enqueue => exact Or.inl ⟨r, hr, Or.inl rfl⟩
  | insertStep => exact Or.inl ⟨r, hr, Or.inl rfl⟩
  | steps => exact Or.inl ⟨r, hr, Or.inl rfl⟩
  | dropEvents => exact Or.inl ⟨r, hr, Or.inl rfl⟩

theorem Change.gone (hc : Change m db db') (hi : i.executionId ∈ m.former) (h : Gone db i) :
    Gone db' i := by
  intro r' hr' hinc
  rcases hc.row_back hr' with ⟨r, hr, hb⟩ | hfresh
  · exact hb.terminal (h r hr (hb.incarnation.symm.trans hinc))
  · exact absurd (by rw [hinc]; exact hi) hfresh.former

theorem Changes.gone (h : Tidy m.minted db) (hc : Changes m db db') (hi : i.executionId ∈ m.former)
    (hgone : Gone db i) : Gone db' i :=
  hc.induct h (P := fun d => Gone d i) (fun _ _ _ hc h => hc.gone hi h) hgone

theorem Tidy.no_step (h : Tidy minted db) (hgone : Gone db i) (hp : p ∈ db.steps) :
    p.execution ≠ i := by
  intro heq
  obtain ⟨r, hr, hexec, hlive⟩ := h.stepOf p hp
  rw [hgone r hr (hexec.symm.trans heq)] at hlive
  cases hlive

/-! ### What a change makes of steps and events -/

/-- **Where a step comes from.** -/
theorem Change.step_back (hc : Change m db db') {p' : StepRow} (hp' : p' ∈ db'.steps) :
    p' ∈ db.steps ∨ (∃ p ∈ db.steps, StepWrite m db p p') ∨
      (∀ p ∈ db.steps, ¬ (p.execution = p'.execution ∧ p.name = p'.name)) ∧
        p'.state = .pending ∧ p'.retryProgress = none ∧ Journals m db p' := by
  cases hc with
  | rows => exact Or.inl hp'
  | ends => exact Or.inl (mem_ends_steps.mp hp').1
  | remove => exact Or.inl (mem_remove_steps.mp hp').1
  | create => exact Or.inl hp'
  | enqueue => exact Or.inl hp'
  | insertStep row hfresh hpending hprogress hlive =>
    rcases List.mem_append.mp hp' with hp | hp
    · exact Or.inl hp
    · rw [List.mem_singleton.mp hp]
      exact Or.inr (Or.inr ⟨hfresh, hpending, hprogress, hlive⟩)
  | steps _ _ hstep =>
    rcases Table.mem_update.mp hp' with ⟨hp, -⟩ | ⟨p, hp, hc, rfl⟩
    · exact Or.inl hp
    · exact Or.inr (Or.inl ⟨p, hp, hstep p hp hc⟩)
  | dropEvents => exact Or.inl hp'

theorem Tidy.gone_of_ends (h : Tidy minted db)
    (hr : r ∈ db.instances)
    (hc : condition r = true)
    (hstep : ∀ r ∈ db.instances, condition r = true → EndStep r ((set r).revised r)) :
    ∀ r' ∈ (db.ends condition set).instances, r'.executionId = r.executionId →
      r'.status.terminal = true := by
  intro r' hr' heq
  rcases mem_updateInstances.mp hr' with ⟨hr', hc'⟩ | ⟨q, hq, hcq, rfl⟩
  · rw [h.row_unique hr' hr heq, hc] at hc'
    cases hc'
  · exact (hstep q hq hcq).ends

theorem Tidy.gone_of_remove (h : Tidy minted db)
    (hr : r ∈ db.instances) (hc : condition r = true) :
    ∀ r' ∈ (db.remove condition).instances, r'.executionId ≠ r.executionId := by
  intro r' hr' heq
  obtain ⟨hr', hc'⟩ := mem_remove_instances.mp hr'
  rw [h.row_unique hr' hr heq, hc] at hc'
  cases hc'

/-- **What becomes of a step.**  It stays, or is written before it has its result, or goes when
its instance does. -/
theorem Change.step_forth (h : Tidy m.minted db) (hc : Change m db db') (hp : p ∈ db.steps) :
    p ∈ db'.steps ∨ (∃ p' ∈ db'.steps, StepWrite m db p p') ∨ Gone db' p.execution := by
  cases hc with
  | rows => exact Or.inl hp
  | ends condition set hstep =>
    by_cases hkept : p ∈ (db.ends condition set).steps
    · exact Or.inl hkept
    · refine Or.inr (Or.inr fun r' hr' heq => ?_)
      simp only [mem_ends_steps, not_and, not_forall] at hkept
      obtain ⟨r, hr, hc, hof⟩ := hkept hp
      have hexec := h.execution_of_isOf hp hr (Bool.not_eq_false _ ▸ hof)
      exact h.gone_of_ends hr hc hstep r' hr' (by rw [heq, hexec])
  | remove condition =>
    by_cases hkept : p ∈ (db.remove condition).steps
    · exact Or.inl hkept
    · refine Or.inr (Or.inr fun r' hr' heq => ?_)
      simp only [mem_remove_steps, not_and, not_forall] at hkept
      obtain ⟨r, hr, hc, hof⟩ := hkept hp
      have hexec := h.execution_of_isOf hp hr (Bool.not_eq_false _ ▸ hof)
      exact absurd (by rw [heq, hexec]) (h.gone_of_remove hr hc r' hr')
  | create => exact Or.inl hp
  | enqueue => exact Or.inl hp
  | insertStep => exact Or.inl (List.mem_append_left _ hp)
  | steps condition set hstep =>
    have hmem := Table.mem_update_of_mem (p := condition) (f := set) hp
    cases hc : condition p with
    | false =>
      rw [hc, if_neg Bool.false_ne_true] at hmem
      exact Or.inl hmem
    | true =>
      rw [hc, if_pos rfl] at hmem
      exact Or.inr (Or.inl ⟨_, hmem, hstep p hp hc⟩)
  | dropEvents => exact Or.inl hp

theorem Change.event_back (hc : Change m db db') (he : e ∈ db'.events) :
    e ∈ db.events ∨ db.lastEventId < e.eventId := by
  cases hc with
  | rows => exact Or.inl he
  | ends => exact Or.inl (mem_ends_events.mp he).1
  | remove => exact Or.inl (mem_remove_events.mp he).1
  | create => exact Or.inl he
  | enqueue =>
    rcases Table.mem_insert.mp he with he | rfl
    · exact Or.inl he
    · exact Or.inr (Nat.lt_succ_self _)
  | insertStep => exact Or.inl he
  | steps => exact Or.inl he
  | dropEvents => exact Or.inl (Table.mem_delete.mp he).1

theorem Change.lastEventId (hc : Change m db db') : db.lastEventId ≤ db'.lastEventId := by
  cases hc with
  | enqueue => exact Nat.le_succ _
  | _ => exact Nat.le_refl _

/-- **What becomes of an event.**  It stays, or a wait consumes it, or it goes when its instance
does. -/
theorem Change.event_forth (h : Tidy m.minted db) (hc : Change m db db') (he : e ∈ db.events) :
    e ∈ db'.events ∨
      (e ∈ m.taken ∧ ∃ r ∈ db.instances, r.executionId = e.executionId ∧ r.status = .running) ∨
        ∀ r' ∈ db'.instances, r'.executionId = e.executionId → r'.status.terminal = true := by
  cases hc with
  | rows => exact Or.inl he
  | ends condition set hstep =>
    by_cases hkept : e ∈ (db.ends condition set).events
    · exact Or.inl hkept
    · refine Or.inr (Or.inr fun r' hr' heq => ?_)
      simp only [mem_ends_events, not_and, not_forall, ne_eq, not_not] at hkept
      obtain ⟨r, hr, hc, hexec⟩ := hkept he
      exact h.gone_of_ends hr hc hstep r' hr' (heq.trans hexec)
  | remove condition =>
    by_cases hkept : e ∈ (db.remove condition).events
    · exact Or.inl hkept
    · refine Or.inr (Or.inr fun r' hr' heq => ?_)
      simp only [mem_remove_events, not_and, not_forall, ne_eq, not_not] at hkept
      obtain ⟨r, hr, hc, hexec⟩ := hkept he
      exact absurd (heq.trans hexec) (h.gone_of_remove hr hc r' hr')
  | create => exact Or.inl he
  | enqueue => exact Or.inl (List.mem_append_left _ he)
  | insertStep => exact Or.inl he
  | steps => exact Or.inl he
  | dropEvents condition htaken =>
    cases hc : condition e with
    | false => exact Or.inl (Table.mem_delete.mpr ⟨he, hc⟩)
    | true => exact Or.inr (Or.inl (htaken e he hc))

end Takoserver.Workflow
