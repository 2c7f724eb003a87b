import Takoserver.Workflow.Endings

/-!
# The claim of a run

A controller that has lost its claim may still be about to write.  Each statement of a run carries
the claim in its condition, so under a claim that was taken over it finds no row; and a statement
that writes the journal also asks for a lease that lasts beyond the reading of the clock that it
binds.  One statement asks for less: past the lifetime of an instance, a finish needs the claim but
no lease, since whoever writes then writes that the lifetime is exceeded.
-/

namespace Takoserver.Workflow

open Db (Assignment Outcome)

variable {db db' : Db} {s s' : System} {a : Action} {identity : RunIdentity} {timestamp : Instant}
  {live : Bool}

/-! ### Statements without a claim -/

variable {minted : List String} {run : Run}

section Fenced

theorem heartbeat_fenced {next : Instant} (h : db.runExists identity timestamp live = false) :
    db.heartbeat identity next timestamp live = db :=
  updateInstances_eq_self fun r hr => Bool.eq_false_iff.mpr (List.any_eq_false.mp h r hr)

variable {name : String}

theorem park_fenced {status : Status} {wakeAt : Instant}
    (h : db.runExists identity timestamp live = false) :
    db.park identity name status wakeAt timestamp live = db :=
  updateInstances_eq_self fun r hr => Bool.eq_false_iff.mpr (List.any_eq_false.mp h r hr)

theorem insertStep_fenced {config : StepConfig} (h : db.runExists identity timestamp live = false) :
    db.insertStep identity name config timestamp live = (db, false) := by
  simp [Db.insertStep, h]

theorem changeStep_fenced {revision : ℕ} {assignment : Assignment}
    (h : db.runExists identity timestamp live = false) :
    (db.changeStep identity name revision assignment timestamp live).1 = db := by
  simp only [Db.changeStep]
  rw [Table.update_eq_self fun p _ => by simp [Db.changes, h]]

theorem consume_fenced {revision : ℕ} {w : EventWhere}
    (h : db.runExists identity timestamp live = false) :
    (db.consume identity name revision w timestamp live).1 = db := by
  have hsteps : ∀ set : StepRow → StepRow, Table.update (fun p =>
      db.changes identity name revision timestamp live p && decide (p.state = .waiting) &&
        db.events.any (EventRow.meets identity.toIncarnation w)) set db.steps = db.steps :=
    fun set => Table.update_eq_self fun p _ => by simp [Db.changes, h]
  simp only [Db.consume, hsteps, h, Bool.and_false]
  simp [Table.delete]

/-- No instance is claimed by the run. -/
def Unclaimed (db : Db) (identity : RunIdentity) : Prop :=
  ∀ r ∈ db.instances, r.claimedBy identity = false

/-- The lease of the claim is not after the reading of the clock. -/
def Expired (db : Db) (identity : RunIdentity) (timestamp : Instant) : Prop :=
  ∀ r ∈ db.instances, r.claimedBy identity = true → r.leased timestamp = false

theorem Unclaimed.expired (h : Unclaimed db identity) : Expired db identity timestamp := by
  intro r hr hclaimed
  rw [h r hr] at hclaimed
  cases hclaimed

/-- Without a lease no run is runnable. -/
theorem Expired.runExists (h : Expired db identity timestamp) :
    db.runExists identity timestamp live = false := by
  refine List.any_eq_false.mpr fun r hr hrun => ?_
  obtain ⟨hclaimed, -, -, hleased, -⟩ := runnable_iff.mp hrun
  rw [h r hr hclaimed] at hleased
  cases hleased

theorem clearOwner_fenced (h : Unclaimed db identity) : db.clearOwner identity = db :=
  updateInstances_eq_self h

theorem terminalize_fenced (ht : Tidy minted db) (h : Unclaimed db identity) {outcome : Outcome} :
    db.terminalize identity outcome timestamp live = db := by
  rw [terminalize_eq_ends ht]
  refine ends_eq_self fun r hr => Bool.eq_false_iff.mpr fun hc => ?_
  have hclaimed := (terminalGuard_iff.mp hc).1
  rw [h r hr] at hclaimed
  cases hclaimed

end Fenced

/-! ### Statements of a run -/

/-- The statements of a run that ask for its lease, with the reading of the clock that they bind. -/
def Run.Step.journals : Run.Step → Option Instant
  | .heartbeat timestamp _ => some timestamp
  | .insert timestamp _ => some timestamp
  | .take timestamp _ => some timestamp
  | .write timestamp _ => some timestamp
  | .park timestamp _ => some timestamp
  | _ => none

/-- **A statement under an expired claim changes nothing.** -/
theorem Run.step_expired {clock : Instant} {step : Run.Step} {result : Run.Result}
    (hn : run.step db clock step = some result) (hjournals : step.journals = some timestamp)
    (h : Expired db run.identity timestamp) : result.db = db := by
  cases Run.stepped hn with
  | heartbeat =>
    cases hjournals
    exact heartbeat_fenced h.runExists
  | insert =>
    cases hjournals
    exact congrArg Prod.fst (insertStep_fenced h.runExists)
  | take =>
    cases hjournals
    exact consume_fenced h.runExists
  | write =>
    cases hjournals
    exact changeStep_fenced h.runExists
  | park =>
    cases hjournals
    exact park_fenced h.runExists
  | _ => cases hjournals

/-- **A statement without a claim changes nothing.** -/
theorem Run.step_unclaimed {clock : Instant} {step : Run.Step} {result : Run.Result}
    (ht : Tidy minted db) (hn : run.step db clock step = some result)
    (h : Unclaimed db run.identity) : result.db = db := by
  cases hjournals : step.journals with
  | some => exact Run.step_expired hn hjournals h.expired
  | none =>
    cases Run.stepped hn with
    | release => exact clearOwner_fenced h
    | terminalize => exact terminalize_fenced ht h
    | look => exact look_db
    | readBack => exact readBack_db
    | heartbeat | insert | take | write | park => cases hjournals
    | _ => rfl

/-- What a finish under an expired claim writes: the lifetime of the instance is exceeded. -/
theorem terminalize_expired (ht : Tidy minted db) {outcome : Outcome}
    (h : Expired db identity timestamp) :
    db.terminalize identity outcome timestamp live = db ∨ identity.deadlineAt ≤ timestamp ∧
      ∀ r' ∈ (db.terminalize identity outcome timestamp live).instances, r' ∈ db.instances ∨
        ∃ r ∈ db.instances, r.claimedBy identity = true ∧ r.deadlineAt ≤ timestamp ∧
          r'.toIncarnation = r.toIncarnation ∧ r'.status = .errored ∧ r'.outputJson = none ∧
          r'.error = some .lifetimeExceeded := by
  rw [terminalize_eq_ends ht]
  by_cases hpast : identity.deadlineAt ≤ timestamp
  · refine Or.inr ⟨hpast, fun r' hr' => ?_⟩
    rcases mem_updateInstances.mp hr' with ⟨hr, -⟩ | ⟨r, hr, hc, rfl⟩
    · exact Or.inl hr
    · obtain ⟨hclaimed, -, -, -, hguard⟩ := terminalGuard_iff.mp hc
      rw [if_pos hpast] at hguard
      refine Or.inr ⟨r, hr, hclaimed, hguard, rfl, ?_⟩
      simp [InstanceRow.revised, Db.published, hpast]
  · refine Or.inl (ends_eq_self fun r hr => Bool.eq_false_iff.mpr fun hc => ?_)
    obtain ⟨hclaimed, -, -, -, hguard⟩ := terminalGuard_iff.mp hc
    rw [if_neg hpast, h r hr hclaimed] at hguard
    cases hguard.2.1

/-! ### Claims -/

/-- An epoch only grows. -/
theorem epoch_of_path (h : workflows.Reachable s) (hpath : workflows.Path s s') {r : InstanceRow}
    (hr : r ∈ s.db.instances) :
    ∀ r' ∈ s'.db.instances, r'.toIncarnation = r.toIncarnation → r.runEpoch ≤ r'.runEpoch := by
  let identity : RunIdentity :=
    { toIncarnation := r.toIncarnation, epoch := r.runEpoch, owner := "", deadlineAt := r.deadlineAt }
  have hsound := sound_of_reachable h
  have hkept : r.executionId ∈ s'.minted ∧ Below s'.db identity := by
    refine Machine.Path.invariant (P := fun t => r.executionId ∈ t.minted ∧ Below t.db identity) ?_ h
      hpath ⟨hsound.tidy.minted r hr, fun q hq hinc => ?_⟩
    · rintro t b _ ht ⟨hi, hb⟩ hn
      have hsound := sound_of_reachable ht
      have hsub := minted_of_next hn
      exact ⟨hsub hi, (changes_of_next hsound hn).below (hsound.tidy.mono hsub) hi hb⟩
    · obtain rfl := hsound.tidy.incarnation_unique hq hr hinc
      exact ⟨Nat.le_refl _, rfl⟩
  exact fun r' hr' hinc => (hkept.2 r' hr' hinc).1

/-- A claim that changes a row takes its next epoch, and the row was free: it had no owner, or the
lease of its owner had run out. -/
theorem claimed_of_next {j : ℕ} {owner : String} {leaseMs : ℕ}
    (hn : s.next (.claim j owner leaseMs timestamp live) = some s') :
    (s'.db = s.db ∧ s'.runs = s.runs) ∨ timestamp ≤ s.clock ∧ ∃ r ∈ s.db.instances,
      ∃ r' ∈ s'.db.instances, r'.toIncarnation = r.toIncarnation ∧ r'.runEpoch = r.runEpoch + 1 ∧
        r'.runOwner = some owner ∧
        (r.runOwner = none ∨ ∃ untilMs, r.runLeaseUntil = some untilMs ∧ untilMs ≤ timestamp) := by
  simp only [System.next] at hn
  split at hn
  · cases hn
  next current _ =>
  split at hn
  · next hc =>
    cases hn
    by_cases hany : s.db.instances.any (Db.claimable current timestamp live) = true
    · obtain ⟨r, hr, hclaimable⟩ := List.any_eq_true.mp hany
      obtain ⟨-, -, -, -, -, -, howner, -⟩ := claimable_iff.mp hclaimable
      exact Or.inr ⟨hc.1, r, hr, _, mem_updateInstances.mpr (Or.inr ⟨r, hr, hclaimable, rfl⟩), rfl,
        rfl, rfl, howner⟩
    · refine Or.inl ⟨updateInstances_eq_self fun r hr => ?_, if_neg hany⟩
      exact Bool.eq_false_iff.mpr fun hc => hany (List.any_eq_true.mpr ⟨r, hr, hc⟩)
  · cases hn

/-- One claim of an incarnation is runnable. -/
theorem runnable_unique (ht : Tidy minted db) {identity' : RunIdentity} {timestamp' : Instant}
    {live' : Bool} (hinc : identity.toIncarnation = identity'.toIncarnation)
    (h : db.runExists identity timestamp live = true)
    (h' : db.runExists identity' timestamp' live' = true) :
    identity.epoch = identity'.epoch ∧ identity.owner = identity'.owner := by
  obtain ⟨r, hr, hrun, hinc₁⟩ := row_of_runExists h
  obtain ⟨_, hr', hrun', hinc₂⟩ := row_of_runExists h'
  obtain rfl := ht.incarnation_unique hr hr' (hinc₁.trans (hinc.trans hinc₂.symm))
  obtain ⟨-, hepoch, howner⟩ := claimedBy_iff.mp (runnable_iff.mp hrun).1
  obtain ⟨-, hepoch', howner'⟩ := claimedBy_iff.mp (runnable_iff.mp hrun').1
  exact ⟨hepoch.symm.trans hepoch', Option.some.inj (howner.symm.trans howner')⟩

/-- A later run has claimed the incarnation. -/
def Superseded (s : System) (run : Run) : Prop :=
  ∃ later ∈ s.runs, later.identity.toIncarnation = run.identity.toIncarnation ∧
    run.identity.epoch < later.identity.epoch

theorem Superseded.unclaimed (h : Sound s) (hs : Superseded s run) :
    Unclaimed s.db run.identity := by
  obtain ⟨later, hlater, hinc, _⟩ := hs
  refine fun r hr => Bool.eq_false_iff.mpr fun hclaimed => ?_
  obtain ⟨hinc', _, -⟩ := claimedBy_iff.mp hclaimed
  have hbelow := ((h.runs later hlater).below r hr (hinc'.trans hinc.symm)).1
  omega

/-- A later claim has a later epoch. -/
theorem epoch_lt_of_lt (h : Sound s) {i j : ℕ} {run' : Run} (hij : i < j)
    (hi : s.runs[i]? = some run) (hj : s.runs[j]? = some run')
    (hinc : run.identity.toIncarnation = run'.identity.toIncarnation) :
    run.identity.epoch < run'.identity.epoch := by
  obtain ⟨hilt, rfl⟩ := List.getElem?_eq_some_iff.mp hi
  obtain ⟨hjlt, rfl⟩ := List.getElem?_eq_some_iff.mp hj
  have horder := List.pairwise_iff_getElem.mp h.order i j (by simpa using hilt)
    (by simpa using hjlt) hij
  simp only [List.getElem_map] at horder
  exact horder hinc

/-- **Runs are fenced by their epoch.**  The epoch of an instance grows with every claim and never
falls; a claim needs an instance without an owner, or one whose lease has run out; one claim is
runnable; no statement under a superseded claim changes the tables; and none under an expired one
does, but that a finish past the lifetime records that it is exceeded. -/
theorem claims_fence (h : workflows.Reachable s) :
    (∀ s', workflows.Path s s' → ∀ r ∈ s.db.instances, ∀ r' ∈ s'.db.instances,
      r'.toIncarnation = r.toIncarnation → r.runEpoch ≤ r'.runEpoch) ∧
    (∀ (i j : ℕ) (run run' : Run), i < j → s.runs[i]? = some run → s.runs[j]? = some run' →
      run.identity.toIncarnation = run'.identity.toIncarnation →
        run.identity.epoch < run'.identity.epoch) ∧
    (∀ j owner leaseMs timestamp live s',
      s.next (.claim j owner leaseMs timestamp live) = some s' →
        (s'.db = s.db ∧ s'.runs = s.runs) ∨ timestamp ≤ s.clock ∧ ∃ r ∈ s.db.instances,
          ∃ r' ∈ s'.db.instances, r'.toIncarnation = r.toIncarnation ∧
            r'.runEpoch = r.runEpoch + 1 ∧ r'.runOwner = some owner ∧
            (r.runOwner = none ∨
              ∃ untilMs, r.runLeaseUntil = some untilMs ∧ untilMs ≤ timestamp)) ∧
    (∀ identity identity' timestamp timestamp' live live',
      identity.toIncarnation = identity'.toIncarnation →
      s.db.runExists identity timestamp live = true →
      s.db.runExists identity' timestamp' live' = true →
        identity.epoch = identity'.epoch ∧ identity.owner = identity'.owner) ∧
    ∀ i run step s', s.runs[i]? = some run → s.next (.run i step) = some s' →
      (Superseded s run → s'.db = s.db) ∧
      (∀ timestamp, step.journals = some timestamp → Expired s.db run.identity timestamp →
        s'.db = s.db) ∧
      ∀ timestamp live, step = .terminalize timestamp live →
        Expired s.db run.identity timestamp → s'.db = s.db ∨
          run.identity.deadlineAt ≤ timestamp ∧ ∀ r' ∈ s'.db.instances, r' ∈ s.db.instances ∨
            ∃ r ∈ s.db.instances, r.claimedBy run.identity = true ∧ r.deadlineAt ≤ timestamp ∧
              r'.toIncarnation = r.toIncarnation ∧ r'.status = .errored ∧ r'.outputJson = none ∧
              r'.error = some .lifetimeExceeded := by
  have hsound := sound_of_reachable h
  refine ⟨fun s' hpath r hr => epoch_of_path h hpath hr,
    fun _ _ _ _ hij hi hj hinc => epoch_lt_of_lt hsound hij hi hj hinc,
    fun _ _ _ _ _ _ hn => claimed_of_next hn,
    fun _ _ _ _ _ _ hinc => runnable_unique hsound.tidy hinc, ?_⟩
  intro i run step s' hrun hn
  simp only [System.next, hrun] at hn
  obtain ⟨_, hstep, rfl⟩ := Option.map_eq_some_iff.mp hn
  refine ⟨fun hs => Run.step_unclaimed hsound.tidy hstep (hs.unclaimed hsound),
    fun timestamp hjournals hexpired => Run.step_expired hstep hjournals hexpired, ?_⟩
  rintro _ _ rfl hexpired
  simp only [Run.step] at hstep
  split at hstep
  · cases hstep
  · split at hstep
    · cases hstep
      exact terminalize_expired hsound.tidy hexpired
    · cases hstep

/-! ### Runs that lose their claim -/

/-- A run is about to insert its first step when another controller claims the instance. -/
def supersedeActions : List Action :=
  [.create someIncarnation true, .read someKey, .claim 0 "first" 10 0 true, .run 0 (.start 0 true),
    .run 0 (.begin .run "step" 0 true), .run 0 (.look (.run [])), .run 0 .find, .tick 20,
    .read someKey, .claim 1 "second" 10 20 true]

theorem claims_fence_supersedeActions :
    ∃ s s' run, workflows.Reachable s ∧ s.runs[0]? = some run ∧ Superseded s run ∧
      s.next (.run 0 (.insert 5 true)) = some s' ∧ s'.db = s.db := by
  obtain ⟨s, hs, hp⟩ := Machine.exists_reachable_of_run (M := workflows) supersedeActions
    (fun s => (s.next (.run 0 (.insert 5 true))).isSome && (s.runs[0]?).any fun run =>
      s.runs.any fun later => decide (later.identity.toIncarnation = run.identity.toIncarnation ∧
        run.identity.epoch < later.identity.epoch)) (by decide +kernel)
  obtain ⟨hsome, hany⟩ := Bool.and_eq_true_iff.mp hp
  obtain ⟨s', hn⟩ := Option.isSome_iff_exists.mp hsome
  obtain ⟨run, hrun, hany⟩ := (Option.any_eq_true _ _).mp hany
  obtain ⟨later, hlater, hc⟩ := List.any_eq_true.mp hany
  have hsuperseded : Superseded s run := ⟨later, hlater, of_decide_eq_true hc⟩
  obtain ⟨-, -, -, -, hfenced⟩ := claims_fence hs
  exact ⟨s, s', run, hs, hrun, hsuperseded, hn, (hfenced 0 run _ s' hrun hn).1 hsuperseded⟩

/-- A run outlives its instance, and finishes. -/
def lifetimeActions : List Action :=
  [.create someIncarnation true, .read someKey, .claim 0 "owner" 1000 0 true, .tick lifetimeMs,
    .run 0 (.lapse lifetimeMs), .run 0 (.latch (.failed .runThrew))]

/-- Its lease has run out, and yet its finish changes the row. -/
theorem claims_fence_lifetimeActions :
    ∃ (s s' : System) (run : Run), workflows.Reachable s ∧ s.runs[0]? = some run ∧
      (∀ r ∈ s.db.instances, r.claimedBy run.identity = true → r.leased s.clock = false) ∧
      s.next (.run 0 (.terminalize s.clock true)) = some s' ∧ s'.db ≠ s.db := by
  obtain ⟨s, hs, hp⟩ := Machine.exists_reachable_of_run (M := workflows) lifetimeActions
    (fun s => (s.next (.run 0 (.terminalize s.clock true))).any
        (fun s' : System => decide (s'.db ≠ s.db)) &&
      (s.runs[0]?).any fun run : Run => decide (∀ r ∈ s.db.instances,
        r.claimedBy run.identity = true → r.leased s.clock = false)) (by decide +kernel)
  obtain ⟨hany, hrun⟩ := Bool.and_eq_true_iff.mp hp
  obtain ⟨s', hn, hne⟩ := (Option.any_eq_true _ _).mp hany
  obtain ⟨run, hrun, hexpired⟩ := (Option.any_eq_true _ _).mp hrun
  exact ⟨s, s', run, hs, hrun, of_decide_eq_true hexpired, hn, of_decide_eq_true hne⟩

end Takoserver.Workflow
