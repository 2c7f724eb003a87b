import Takoserver.Workflow.Changes

/-!
# What the statements change

Each statement of a run or of a caller, as the changes that it makes.
-/

namespace Takoserver.Workflow

open Relation (ReflTransGen)

variable {minted : List String} {db db' : Db} {m : Move}

variable {identity : RunIdentity} {current : InstanceRow} {i : Incarnation} {timestamp : Instant}
  {live : Bool}

variable {r : InstanceRow} {name : String} {outcome : Db.Outcome} {p : StepRow} {revision : ℕ}
  {event : Db.Event} {wait : Db.PendingWait}

theorem claimedBy_iff : r.claimedBy identity = true ↔
    r.toIncarnation = identity.toIncarnation ∧ r.runEpoch = identity.epoch ∧
      r.runOwner = some identity.owner := decide_eq_true_iff

theorem runnable_iff : r.runnable identity timestamp live = true ↔
    r.claimedBy identity = true ∧ r.terminationRequested = false ∧ r.status = .running ∧
      r.leased timestamp = true ∧ timestamp < r.deadlineAt ∧ timestamp < r.retentionUntil ∧
        live = true := by
  simp only [InstanceRow.runnable, Bool.and_eq_true, decide_eq_true_eq]
  tauto

theorem asRead_iff : Db.asRead current r = true ↔
    r.toIncarnation = current.toIncarnation ∧ r.runEpoch = current.runEpoch ∧
      r.runOwner = current.runOwner := decide_eq_true_iff

theorem rowStep_of_kept {r' : InstanceRow} (hinc : r'.toIncarnation = r.toIncarnation)
    (hdeadline : r'.deadlineAt = r.deadlineAt) (hretention : r'.retentionUntil = r.retentionUntil)
    (houtput : r'.outputJson = r.outputJson) (herror : r'.error = r.error)
    (hrevision : r'.revision = r.revision + 1) (hstatus : r'.status = r.status)
    (hepoch : r'.runEpoch = r.runEpoch) (hpending : r'.pendingStepName = r.pendingStepName)
    (hwake : r'.wakeAt = r.wakeAt)
    (hrequested : r.terminationRequested = true →
      r'.terminationRequested = true ∨ r.status.terminal = true)
    (hasked : r'.terminationRequested = true →
      r.terminationRequested = true ∨ r.status.terminal = false)
    (howner : r'.runOwner = none ∧ r'.runLeaseUntil = none ∨
      r'.runOwner = r.runOwner ∧ (r.runLeaseUntil = none ↔ r'.runLeaseUntil = none))
    (hkept : r.status.terminal = false → ¬ m.Claims r →
      r'.runOwner = r.runOwner ∧ r'.runLeaseUntil = r.runLeaseUntil) : RowStep m db r r' where
  incarnation := hinc
  deadlineAt := hdeadline
  retentionUntil := hretention
  outputJson := houtput
  error := herror
  revision := hrevision
  lives := by rw [hstatus]
  stays := fun _ => hstatus
  leases := fun h => by
    obtain ⟨ho, hl⟩ | ⟨ho, hl⟩ := howner
    · simp [ho, hl]
    · rw [ho, h, hl]
  parked := fun h hwaiting => by
    obtain ⟨ho, -⟩ | ⟨ho, -⟩ := howner
    · exact ho
    · rw [ho]
      exact h (hstatus.symm.trans hwaiting)
  requested := hrequested
  asked := hasked
  epoch := Nat.le_of_eq hepoch.symm
  owner := fun _ => howner.imp And.left And.left
  kept := fun hlive _ hnot => ⟨hepoch, hkept hlive hnot⟩
  waits := fun h => Or.inr ⟨hstatus.symm.trans h, hpending, hepoch, Or.inl hwake⟩
  waiting := fun _ h => hstatus.trans h

theorem change_clearOwner (hwriter : m.writer = some identity) :
    Change m db (db.clearOwner identity) := by
  refine .rows _ _ fun r _ hc => ?_
  refine rowStep_of_kept rfl rfl rfl rfl rfl rfl rfl rfl rfl rfl Or.inl Or.inl
    (Or.inl ⟨rfl, rfl⟩) ?_
  exact fun _ hnot => absurd ⟨identity, hwriter, hc⟩ hnot

theorem change_heartbeat {next : Instant} (hwriter : m.writer = some identity) :
    Change m db (db.heartbeat identity next timestamp live) := by
  refine .rows _ _ fun r _ hc => ?_
  obtain ⟨hclaimed, -, -, hleased, -⟩ := runnable_iff.mp hc
  refine rowStep_of_kept rfl rfl rfl rfl rfl rfl rfl rfl rfl rfl Or.inl Or.inl
    (Or.inr ⟨rfl, ?_⟩) ?_
  · have hsome : r.runLeaseUntil ≠ none := fun hnone => by
      rw [InstanceRow.leased, hnone] at hleased
      cases hleased
    exact ⟨fun h => absurd h hsome, fun h => by cases h⟩
  · exact fun _ hnot => absurd ⟨identity, hwriter, hclaimed⟩ hnot

/-- Parking a run is one change of its row. -/
theorem change_park {status : Status} {wakeAt : Instant} (hwriter : m.writer = some identity)
    (hparks : m.parks = true) (hstatus : status.terminal = false) :
    Change m db (db.park identity name status wakeAt timestamp live) := by
  refine .rows _ _ fun r _ hc => ?_
  obtain ⟨hclaimed, -, hrunning, -⟩ := runnable_iff.mp hc
  exact
    { incarnation := rfl, deadlineAt := rfl, retentionUntil := rfl, outputJson := rfl, error := rfl
      revision := rfl
      lives := by
        show status.terminal = r.status.terminal
        rw [hstatus, hrunning]
        rfl
      stays := fun h => by
        rw [hrunning] at h
        cases h
      leases := fun _ => ⟨fun _ => rfl, fun _ => rfl⟩
      parked := fun _ _ => rfl, requested := Or.inl, asked := Or.inl, epoch := Nat.le_refl _
      owner := fun _ => Or.inl rfl
      kept := fun _ _ hnot => absurd ⟨identity, hwriter, hclaimed⟩ hnot
      waits := fun _ => Or.inl ⟨hparks, ⟨identity, hwriter, hclaimed⟩, hrunning⟩
      waiting := fun _ hwaiting => by
        rw [hrunning] at hwaiting
        cases hwaiting }

theorem claimable_iff : Db.claimable current timestamp live r = true ↔
    r.toIncarnation = current.toIncarnation ∧ r.runEpoch = current.runEpoch ∧
      r.status.terminal = false ∧ timestamp < r.deadlineAt ∧ timestamp < r.retentionUntil ∧
      r.terminationRequested = false ∧
      (r.runOwner = none ∨ ∃ untilMs, r.runLeaseUntil = some untilMs ∧ untilMs ≤ timestamp) ∧
      (∀ wakeAt, r.wakeAt = some wakeAt → wakeAt ≤ timestamp) ∧ live = true := by
  simp only [Db.claimable, Bool.and_eq_true, Bool.or_eq_true, decide_eq_true_eq, Bool.not_eq_true',
    Option.any_eq_true, Option.all_eq_true]
  constructor
  · rintro ⟨⟨⟨⟨⟨⟨h1, h2⟩, h3⟩, h4, h5, h6⟩, h7⟩, h8⟩, h9⟩
    exact ⟨h1, h2, h3, h4, h5, h6, h7, h8, h9⟩
  · rintro ⟨h1, h2, h3, h4, h5, h6, h7, h8, h9⟩
    exact ⟨⟨⟨⟨⟨⟨h1, h2⟩, h3⟩, h4, h5, h6⟩, h7⟩, h8⟩, h9⟩

/-- A claim is one change of its row. -/
theorem change_claim {owner : String} {leaseUntil : Instant} (h : Tidy m.minted db)
    (hclock : timestamp ≤ m.clock) :
    Change m db (db.claim current owner leaseUntil timestamp live) := by
  refine .rows _ _ fun r hr hc => ?_
  obtain ⟨-, -, hlive, -, -, -, howner, -⟩ := claimable_iff.mp hc
  exact
    { incarnation := rfl, deadlineAt := rfl, retentionUntil := rfl, outputJson := rfl, error := rfl
      revision := rfl
      lives := hlive.symm
      stays := fun h => by
        rw [hlive] at h
        cases h
      leases := fun _ => by simp [InstanceRow.revised]
      parked := fun _ h => by cases h
      requested := Or.inl, asked := Or.inl, epoch := Nat.le_succ _
      owner := fun h => absurd h (Nat.succ_ne_self r.runEpoch)
      -- the lease has run out, or there is none
      kept := fun _ hleased _ => by
        obtain ⟨_, heq, hlt⟩ := (Option.any_eq_true _ _).mp hleased
        have hlt := of_decide_eq_true hlt
        rcases howner with hnone | ⟨_, heq', hle⟩
        · rw [(h.leases r hr).mp hnone] at heq
          cases heq
        · rw [heq'] at heq
          cases heq
          exact absurd (Nat.le_trans hle hclock) (Nat.not_le_of_lt hlt)
      waits := fun h => by cases h
      waiting := fun h => absurd h (Nat.succ_ne_self r.runEpoch) }

theorem change_requestTermination :
    Change m db (db.requestTermination current timestamp) := by
  refine .rows _ _ fun r _ hc => ?_
  simp only [Bool.and_eq_true, Bool.not_eq_true'] at hc
  exact rowStep_of_kept rfl rfl rfl rfl rfl rfl rfl rfl rfl rfl (fun _ => Or.inl rfl)
    (fun _ => Or.inr hc.1.2) (Or.inr ⟨rfl, Iff.rfl⟩) fun _ _ => ⟨rfl, rfl⟩

theorem change_clearTerminalTermination :
    Change m db (db.clearTerminalTermination current timestamp) := by
  refine .rows _ _ fun r _ hc => ?_
  simp only [Bool.and_eq_true] at hc
  refine rowStep_of_kept rfl rfl rfl rfl rfl rfl rfl rfl rfl rfl (fun _ => Or.inr hc.1.2)
    (fun h => by cases h) (Or.inl ⟨rfl, rfl⟩) ?_
  intro hlive
  rw [hc.1.2] at hlive
  cases hlive

theorem change_settleExpired {key : InstanceKey} :
    Change m db (db.settleExpired key timestamp) := by
  refine .ends _ _ fun r _ hc => ?_
  simp only [Db.lapsed, Bool.and_eq_true, Bool.not_eq_true'] at hc
  exact
    { incarnation := rfl, deadlineAt := rfl, revision := rfl, lives := hc.2, ends := rfl
      leases := fun h => h
      requested := fun _ => by simp [InstanceRow.revised]
      asked := id
      epoch := Nat.le_refl _ }

/-- A termination is one change of its row. -/
theorem change_terminate (h : Tidy m.minted db) :
    Change m db (db.terminate i timestamp) := by
  unfold Db.terminate
  rw [cleanup_eq_ends h]
  · refine .ends _ _ fun r _ hc => ?_
    simp only [Bool.and_eq_true, Bool.not_eq_true'] at hc
    exact
      { incarnation := rfl, deadlineAt := rfl, revision := rfl, lives := hc.2, ends := rfl
        leases := fun h => h
        requested := fun _ => by simp [InstanceRow.revised]
        asked := id
        epoch := Nat.le_refl _ }
  · intro r hc
    simp only [Bool.and_eq_true, decide_eq_true_eq] at hc
    exact hc.1.1
  · intro r hc
    simp only [Bool.and_eq_true, decide_eq_true_eq] at hc
    have hpos : 0 < retentionMs := by decide
    exact decide_eq_true ⟨hc.1.1, Nat.lt_add_of_pos_right hpos, rfl⟩
  · intro r hg
    obtain ⟨hinc, -, hstatus⟩ := of_decide_eq_true hg
    exact ⟨hinc, by rw [hstatus]; rfl⟩

theorem terminationStatus_terminal :
    (Db.terminationStatus current timestamp).terminal = true ∧
      Db.terminationStatus current timestamp ≠ .complete := by
  unfold Db.terminationStatus
  split <;> exact ⟨rfl, by decide⟩

theorem change_finalizeTermination (h : Tidy m.minted db) :
    Change m db (db.finalizeTermination current timestamp) := by
  unfold Db.finalizeTermination
  rw [cleanup_eq_ends h]
  · refine .ends _ _ fun r _ hc => ?_
    simp only [Bool.and_eq_true, Bool.not_eq_true'] at hc
    exact
      { incarnation := rfl, deadlineAt := rfl, revision := rfl, lives := hc.1.2
        ends := terminationStatus_terminal.1
        leases := fun _ => ⟨fun _ => rfl, fun _ => rfl⟩
        requested := fun _ => terminationStatus_terminal.2
        asked := fun h => by cases h
        epoch := Nat.le_refl _ }
  · intro r hc
    simp only [Bool.and_eq_true] at hc
    exact (asRead_iff.mp hc.1.1).1
  · intro r hc
    simp only [Bool.and_eq_true] at hc
    simp only [InstanceRow.revised, decide_eq_true_eq]
    exact ⟨(asRead_iff.mp hc.1.1).1, trivial⟩
  · intro r hg
    obtain ⟨hinc, hstatus⟩ := of_decide_eq_true hg
    exact ⟨hinc, by rw [hstatus]; exact terminationStatus_terminal.1⟩

theorem published_terminal :
    (Db.published identity outcome timestamp).1.terminal = true := by
  unfold Db.published
  split
  · rfl
  · cases outcome <;> rfl

theorem terminalGuard_iff :
    Db.terminalGuard identity timestamp live r = true ↔
      r.claimedBy identity = true ∧ r.terminationRequested = false ∧ r.status.terminal = false ∧
        live = true ∧ (if identity.deadlineAt ≤ timestamp then r.deadlineAt ≤ timestamp
          else r.status = .running ∧ r.leased timestamp = true ∧ timestamp < r.deadlineAt) := by
  simp only [Db.terminalGuard, Bool.and_eq_true, decide_eq_true_eq, Bool.not_eq_true']
  split <;> simp only [Bool.and_eq_true, decide_eq_true_eq] <;> tauto

theorem terminalize_eq_ends (h : Tidy minted db) :
    db.terminalize identity outcome timestamp live =
      db.ends (Db.terminalGuard identity timestamp live) fun r =>
        { r with
          status := (Db.published identity outcome timestamp).1
          outputJson := (Db.published identity outcome timestamp).2.1
          error := (Db.published identity outcome timestamp).2.2
          retentionUntil := Db.endedAt identity.deadlineAt timestamp + retentionMs
          wakeAt := none
          pendingStepName := none
          updatedAt := Db.endedAt identity.deadlineAt timestamp } := by
  refine cleanup_eq_ends h ?_ ?_ ?_
  · exact fun r hc => (claimedBy_iff.mp (terminalGuard_iff.mp hc).1).1
  · intro r hc
    refine Bool.and_eq_true_iff.mpr ⟨?_, published_terminal⟩
    exact claimedBy_iff.mpr (claimedBy_iff.mp (terminalGuard_iff.mp hc).1)
  · intro r hg
    obtain ⟨hclaimed, ht⟩ := Bool.and_eq_true_iff.mp hg
    exact ⟨(claimedBy_iff.mp hclaimed).1, ht⟩

/-- The end of an execution is one change. -/
theorem change_terminalize (h : Tidy m.minted db) :
    Change m db (db.terminalize identity outcome timestamp live) := by
  rw [terminalize_eq_ends h]
  refine .ends _ _ fun r _ hc => ?_
  obtain ⟨-, hrequested, hlive, -⟩ := terminalGuard_iff.mp hc
  exact
    { incarnation := rfl, deadlineAt := rfl, revision := rfl, lives := hlive
      ends := published_terminal
      leases := fun h => h
      requested := fun h => by
        rw [hrequested] at h
        cases h
      asked := id
      epoch := Nat.le_refl _ }

theorem changes_create (hfresh : ∀ r ∈ db.instances, r.executionId ≠ i.executionId)
    (hformer : i.executionId ∉ m.former) (hminted : i.executionId ∈ m.minted)
    (hclock : i.createdAt ≤ m.clock) : Changes m db (db.create i live) := by
  have hremove : Change m db (db.remove fun r =>
      decide (r.toInstanceKey = i.toInstanceKey ∧ r.retentionUntil ≤ i.createdAt)) :=
    .remove _ fun r _ hc => Nat.le_trans (of_decide_eq_true hc).2 hclock
  unfold Db.create
  dsimp only
  split
  · next hc =>
    obtain ⟨hkey, -⟩ := Bool.and_eq_true_iff.mp hc
    refine ReflTransGen.tail hremove.one (.create _ rfl rfl rfl rfl ?_ ?_ hformer hminted)
    · exact fun r hr => of_decide_eq_true (List.all_eq_true.mp hkey r hr)
    · exact fun r hr => hfresh r (mem_remove_instances.mp hr).1
  · exact hremove.one

/-- The sweep removes whole executions. -/
theorem change_sweep {executionIds : List String} (hclock : timestamp ≤ m.clock) :
    Change m db (db.sweep executionIds timestamp) :=
  .remove _ fun _ _ hc => Nat.le_trans (of_decide_eq_true hc).2 hclock

theorem journals_of_runExists (hwriter : m.writer = some identity)
    (h : db.runExists identity timestamp live = true) (hp : p.execution = identity.toIncarnation) :
    Journals m db p := by
  obtain ⟨r, hr, hrun⟩ := List.any_eq_true.mp h
  obtain ⟨hclaimed, hrequested, hrunning, -⟩ := runnable_iff.mp hrun
  refine ⟨r, hr, hp.trans (claimedBy_iff.mp hclaimed).1.symm, ?_, hrequested,
    Or.inl ⟨⟨identity, hwriter, hclaimed⟩, hrunning⟩⟩
  rw [hrunning]
  rfl

section

variable (h : Tidy minted db) (hp : p ∈ db.steps) (hr : r ∈ db.instances)
  (hinc : r.toIncarnation = i)

include h hp hr hinc

theorem Tidy.execution_of_isStep (hstep : p.isStep i name = true) : p.execution = i := by
  obtain ⟨he, hcr, -⟩ := of_decide_eq_true hstep
  rw [← hinc]
  exact h.execution_of_isOf hp hr (decide_eq_true ⟨by rw [he, ← hinc], by rw [hcr, ← hinc]⟩)

theorem isStep_iff :
    p.isStep i name = true ↔ p.execution = i ∧ p.name = name := by
  constructor
  · exact fun hstep => ⟨h.execution_of_isStep hp hr hinc hstep, (of_decide_eq_true hstep).2.2⟩
  · rintro ⟨rfl, rfl⟩
    simp [StepRow.isStep]

end

theorem changes_iff :
    db.changes identity name revision timestamp live p = true ↔
      p.isStep identity.toIncarnation name = true ∧ p.revision = revision ∧
        db.runExists identity timestamp live = true := by
  simp only [Db.changes, Bool.and_eq_true, decide_eq_true_eq, and_assoc]

theorem row_of_runExists (h : db.runExists identity timestamp live = true) :
    ∃ r ∈ db.instances, r.runnable identity timestamp live = true ∧
      r.toIncarnation = identity.toIncarnation := by
  obtain ⟨r, hr, hrun⟩ := List.any_eq_true.mp h
  exact ⟨r, hr, hrun, (claimedBy_iff.mp (runnable_iff.mp hrun).1).1⟩

theorem execution_of_changes (h : Tidy minted db) (hp : p ∈ db.steps)
    (hc : db.changes identity name revision timestamp live p = true) :
    p.execution = identity.toIncarnation := by
  obtain ⟨hstep, -, hruns⟩ := changes_iff.mp hc
  obtain ⟨r, hr, -, hinc⟩ := row_of_runExists hruns
  exact h.execution_of_isStep hp hr hinc hstep

@[simp] theorem apply_execution (a : Db.Assignment) (p : StepRow) :
    (a.apply p).execution = p.execution := by cases a <;> rfl

@[simp] theorem apply_name (a : Db.Assignment) (p : StepRow) : (a.apply p).name = p.name := by
  cases a <;> rfl

@[simp] theorem apply_config (a : Db.Assignment) (p : StepRow) : (a.apply p).config = p.config := by
  cases a <;> rfl

theorem change_changeStep (h : Tidy m.minted db) {assignment : Db.Assignment}
    (hwriter : m.writer = some identity)
    (hheld : db.runExists identity timestamp live = true → ∀ p ∈ db.steps,
      p.isStep identity.toIncarnation name = true →
        p.state.settled = false ∧ (p.config.kind = .run → m.works = true)) :
    Change m db (db.changeStep identity name revision assignment timestamp live).1 := by
  refine .steps _ _ fun p hp hc => ?_
  obtain ⟨hstep, -, hruns⟩ := changes_iff.mp hc
  exact
    { execution := apply_execution assignment p
      name := apply_name assignment p
      config := apply_config assignment p
      revision := rfl
      unsettled := (hheld hruns p hp hstep).1
      works := (hheld hruns p hp hstep).2
      completes := fun hnone => by
        rw [hwriter] at hnone
        cases hnone
      journals := journals_of_runExists hwriter hruns (execution_of_changes h hp hc) }

theorem readStep_none (h : db.readStep i name = none) (hp : p ∈ db.steps) :
    ¬ (p.execution = i ∧ p.name = name) := by
  rintro ⟨rfl, rfl⟩
  have hnot := List.find?_eq_none.mp h p hp
  simp [StepRow.isStep] at hnot

/-- A new step is a change of the journal. -/
theorem changes_insertStep {config : StepConfig} (hwriter : m.writer = some identity) :
    Changes m db (db.insertStep identity name config timestamp live).1 := by
  unfold Db.insertStep
  split
  · next hc =>
    simp only [Bool.and_eq_true, Option.isNone_iff_eq_none] at hc
    refine Change.one (.insertStep _ (fun p hp => readStep_none hc.2 hp) rfl rfl ?_)
    exact journals_of_runExists hwriter hc.1.1 rfl
  · exact .refl

/-- The first statement of `waitForEvent` completes its step only where the second deletes the
event, and the other way round. -/
theorem taken_of_settled (hheld : db.runExists identity timestamp live = true → ∀ p ∈ db.steps,
      p.isStep identity.toIncarnation name = true → p.revision = revision)
    (hruns : db.runExists identity timestamp live = true) {taken : StepRow → Bool}
    {set : StepRow → StepRow} (hsettled : ((Table.update taken set db.steps).any fun p =>
      p.isStep identity.toIncarnation name &&
        decide (p.revision = revision + 1 ∧ p.state = .complete)) = true) :
    db.steps.any taken = true := by
  obtain ⟨p', hp', hc⟩ := List.any_eq_true.mp hsettled
  obtain ⟨hstep, hc⟩ := Bool.and_eq_true_iff.mp hc
  rcases Table.mem_update.mp hp' with ⟨hp, -⟩ | ⟨p, hp, htaken, -⟩
  · have hsame := hheld hruns p' hp hstep
    have hnext := (of_decide_eq_true hc).1
    omega
  · exact List.any_eq_true.mpr ⟨p, hp, htaken⟩

/-- Consuming an event changes its step and deletes the event. -/
theorem changes_consume (h : Tidy m.minted db) {w : EventWhere} (hwriter : m.writer = some identity)
    (hheld : db.runExists identity timestamp live = true → ∀ p ∈ db.steps,
      p.isStep identity.toIncarnation name = true →
        p.revision = revision ∧ p.config.kind = .wait)
    (htaken : (db.consume identity name revision w timestamp live).2 = true →
      ∀ e ∈ db.events, e.meets identity.toIncarnation w = true → e ∈ m.taken) :
    Changes m db (db.consume identity name revision w timestamp live).1 := by
  refine ReflTransGen.tail (Change.one (.steps _ _ fun p hp hc => ?_)) (.dropEvents _ ?_)
  · simp only [Bool.and_eq_true, decide_eq_true_eq] at hc
    obtain ⟨⟨hchanges, hwaiting⟩, -⟩ := hc
    obtain ⟨hstep, -, hruns⟩ := changes_iff.mp hchanges
    exact
      { execution := rfl
        name := rfl
        config := rfl
        revision := rfl
        unsettled := by
          rw [hwaiting]
          rfl
        works := fun hrun => by
          rw [(hheld hruns p hp hstep).2] at hrun
          cases hrun
        completes := fun hnone => by
          rw [hwriter] at hnone
          cases hnone
        journals := journals_of_runExists hwriter hruns (execution_of_changes h hp hchanges) }
  · intro e he hc
    obtain ⟨hc', hruns⟩ := Bool.and_eq_true_iff.mp hc
    obtain ⟨hmeets, hsettled⟩ := Bool.and_eq_true_iff.mp hc'
    refine ⟨htaken ?_ e he hmeets, ?_⟩
    · refine Bool.and_eq_true_iff.mpr ⟨?_, List.any_eq_true.mpr ⟨e, he, hc⟩⟩
      exact taken_of_settled (fun hruns p hp hstep => (hheld hruns p hp hstep).1) hruns hsettled
    · obtain ⟨r, hr, hrun, hinc⟩ := row_of_runExists hruns
      refine ⟨r, hr, ?_, (runnable_iff.mp hrun).2.2.1⟩
      rw [hinc, (of_decide_eq_true hmeets).2.2.1]

theorem rowStep_wake {wakeAt updatedAt : Instant} (hclock : wakeAt ≤ m.clock)
    (hdue : (∀ former, r.wakeAt = some former → wakeAt ≤ former) ∨
      ∃ p ∈ db.steps, p.execution = r.toIncarnation ∧ r.pendingStepName = some p.name ∧
        p.state = .complete) :
    RowStep m db r { r with wakeAt := some wakeAt, updatedAt, revision := r.revision + 1 } where
  incarnation := rfl
  deadlineAt := rfl
  retentionUntil := rfl
  outputJson := rfl
  error := rfl
  revision := rfl
  lives := rfl
  stays := fun _ => rfl
  leases := id
  parked := id
  requested := Or.inl
  asked := Or.inl
  epoch := Nat.le_refl _
  owner := fun _ => Or.inr rfl
  kept := fun _ _ _ => ⟨rfl, rfl, rfl⟩
  waits := fun h => Or.inr ⟨h, rfl, rfl, Or.inr ⟨wakeAt, rfl, hclock, hdue⟩⟩
  waiting := fun _ h => h

/-- A legacy send inserts its event, and may wake the run. -/
theorem changes_sendLegacy (hclock : event.timestamp ≤ m.clock) :
    Changes m db (db.sendLegacy i event).1 := by
  refine ReflTransGen.tail ?_ (.rows _ _ fun r _ _ => rowStep_wake ?_ (Or.inl ?_))
  · split
    · next hc =>
      obtain ⟨r, hr, hopen⟩ := List.any_eq_true.mp hc
      simp only [Bool.and_eq_true, decide_eq_true_eq, Bool.not_eq_true'] at hopen
      exact Change.one (.enqueue _ _ ⟨r, hr, hopen.1.1, hopen.2⟩)
    · exact .refl
  · split
    · exact hclock
    · exact Nat.le_trans (Nat.min_le_right _ _) hclock
  · intro former heq
    rw [heq]
    exact Nat.min_le_left _ _

theorem awake_iff : Db.awake current r event = true ↔
    r.toIncarnation = current.toIncarnation ∧ r.revision = current.revision ∧
      r.terminationRequested = false ∧ event.timestamp < r.deadlineAt ∧
      event.timestamp < r.retentionUntil := decide_eq_true_iff

theorem parked_iff :
    Db.parked current r event name = true ↔ Db.awake current r event = true ∧
      r.status = .waiting ∧ r.pendingStepName = some name ∧ r.runOwner = none ∧
        r.runLeaseUntil = none := by
  simp only [Db.parked, Bool.and_eq_true, decide_eq_true_eq]

theorem changes_queueInsert :
    Changes m db (db.queueInsert current event live).1 := by
  unfold Db.queueInsert
  dsimp only
  split
  · next hc =>
    simp only [Bool.and_eq_true, List.any_eq_true] at hc
    obtain ⟨⟨⟨r, hr, hawake, hlive⟩, -⟩, -⟩ := hc
    exact Change.one (.enqueue _ _ ⟨r, hr, (awake_iff.mp hawake).1, by simpa using hlive⟩)
  · exact .refl

theorem direct_iff :
    db.direct current event wait live p = true ↔
      p.isStep current.toIncarnation wait.name = true ∧
        (p.config.kind = .wait ∧ p.state = .waiting ∧ p.waitType = some event.type ∧
          p.timeoutAt = some wait.timeoutAt ∧ p.revision = wait.revision) ∧
        ((∃ r ∈ db.instances, Db.parked current r event wait.name = true) ∧ live = true) ∧
        ∀ e ∈ db.events, ¬ (e.key = current.toInstanceKey ∧ e.executionId = current.executionId ∧
          e.type = event.type ∧ e.createdAt ≤ wait.timeoutAt) := by
  simp only [Db.direct, Bool.and_eq_true, List.any_eq_true, decide_eq_true_eq, List.all_eq_true,
    Bool.not_eq_true', decide_eq_false_iff_not, and_assoc]
  constructor
  · rintro ⟨hstep, h1, h2, h3, h4, h5, ⟨r, hr, hparked, hlive⟩, hnone⟩
    exact ⟨hstep, h1, h2, h3, h4, h5, ⟨r, hr, hparked⟩, hlive, hnone⟩
  · rintro ⟨hstep, h1, h2, h3, h4, h5, ⟨r, hr, hparked⟩, hlive, hnone⟩
    exact ⟨hstep, h1, h2, h3, h4, h5, ⟨r, hr, hparked, hlive⟩, hnone⟩

theorem journals_of_direct (h : Tidy m.minted db) (hwriter : m.writer = none)
    (hdelivers : m.delivers = true) (hp : p ∈ db.steps)
    (hc : db.direct current event wait live p = true) :
    Journals m db p := by
  obtain ⟨hstep, -, ⟨⟨r, hr, hparked⟩, -⟩, -⟩ := direct_iff.mp hc
  obtain ⟨hawake, hwaiting, -⟩ := parked_iff.mp hparked
  obtain ⟨hinc, -, hrequested, -⟩ := awake_iff.mp hawake
  refine ⟨r, hr, (h.execution_of_isStep hp hr hinc hstep).trans hinc.symm, ?_, hrequested,
    Or.inr ⟨hwriter, hdelivers, hwaiting⟩⟩
  rw [hwaiting]
  rfl

theorem not_awaits_of_direct (h : Tidy minted db) (hp : p ∈ db.steps)
    (hc : db.direct current event wait live p = true) {e : EventRow} (he : e ∈ db.events) :
    p.awaits e = false := by
  obtain ⟨hstep, ⟨-, -, htype, htimeout, -⟩, ⟨⟨r, hr, hparked⟩, -⟩, hnone⟩ := direct_iff.mp hc
  have hinc := (awake_iff.mp (parked_iff.mp hparked).1).1
  have hexec := h.execution_of_isStep hp hr hinc hstep
  refine Bool.eq_false_iff.mpr fun hawaits => hnone e he ?_
  simp only [StepRow.awaits, Bool.and_eq_true, decide_eq_true_eq, htype, htimeout,
    Option.any_some, Option.some.injEq] at hawaits
  obtain ⟨⟨hid, hsame⟩, hle⟩ := hawaits
  obtain ⟨r', hr', hkey, hid', -⟩ := h.eventOf e he
  have hrow : r' = r := h.row_unique hr' hr (by rw [← hid', hid, hexec, hinc])
  refine ⟨?_, by rw [hid, hexec], hsame.symm, hle⟩
  rw [hkey, hrow, hinc]

theorem changes_deliver (h : Tidy m.minted db) (hwriter : m.writer = none)
    (hdelivers : m.delivers = true) (hclock : event.timestamp ≤ m.clock) :
    Changes m db (db.deliver current event wait live).1 := by
  have hfirst : Change m db { db with
      steps := Table.update (db.direct current event wait live) (fun p =>
        { p with
          state := .complete
          resultJson := event.payloadJson
          error := none
          wakeAt := none
          updatedAt := event.timestamp
          revision := p.revision + 1 }) db.steps } := by
    refine .steps _ _ fun p hp hc => ?_
    obtain ⟨-, ⟨hkind, hwaiting, -⟩, -⟩ := direct_iff.mp hc
    exact
      { execution := rfl
        name := rfl
        config := rfl
        revision := rfl
        unsettled := by
          rw [hwaiting]
          rfl
        works := fun hrun => by
          rw [hkind] at hrun
          cases hrun
        completes := fun _ => ⟨rfl, fun e he => not_awaits_of_direct h hp hc he⟩
        journals := journals_of_direct h hwriter hdelivers hp hc }
  have htidy := h.change hfirst
  refine ReflTransGen.tail hfirst.one (.rows _ _ fun r hr hc => rowStep_wake hclock (Or.inr ?_))
  simp only [Bool.and_eq_true, List.any_eq_true, decide_eq_true_eq] at hc
  obtain ⟨⟨hparked, -⟩, p, hp, hof, hname, -, hcomplete, -⟩ := hc
  obtain ⟨-, -, hpending, -⟩ := parked_iff.mp hparked
  refine ⟨p, hp, htidy.execution_of_isOf hp hr hof, ?_, hcomplete⟩
  rw [hpending, hname]

/-- A v3 send inserts its event and wakes the run that waits for it. -/
theorem changes_sendV3 (h : Tidy m.minted db) {wait : Option Db.PendingWait}
    (hwriter : m.writer = none) (hdelivers : m.delivers = true) (hclock : event.timestamp ≤ m.clock) :
    Changes m db (db.sendV3 current event wait live).1 := by
  cases wait with
  | none => exact changes_queueInsert
  | some => exact (changes_deliver h hwriter hdelivers hclock).trans changes_queueInsert

end Takoserver.Workflow
