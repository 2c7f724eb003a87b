import Takoserver.Workflow.System

/-!
# Executions that have ended

An execution ends at a run that finishes, at a termination, at its lifetime; whichever writes
first, what it writes stays until the retention of the row is over, and the batch that writes it
deletes the journal and the events.  A termination that has been requested is the end of the
journal already.
-/

namespace Takoserver.Workflow

variable {db db' : Db} {m : Move} {s s' : System} {a : Action} {clock : Instant}

/-! ### The row of an execution that has ended -/

/-- The row is as it ended, or it is removed and its retention is over. -/
def Final (r : InstanceRow) (db : Db) (clock : Instant) : Prop :=
  (∃ r' ∈ db.instances, r'.toIncarnation = r.toIncarnation ∧ r'.status = r.status ∧
      r'.outputJson = r.outputJson ∧ r'.error = r.error ∧ r'.retentionUntil = r.retentionUntil) ∨
    r.retentionUntil ≤ clock ∧ ∀ r' ∈ db.instances, r'.toIncarnation ≠ r.toIncarnation

theorem Change.final (h : Tidy m.minted db) (hc : Change m db db') {r : InstanceRow}
    (hi : r.executionId ∈ m.former) (ht : r.status.terminal = true) (hf : Final r db m.clock) :
    Final r db' m.clock := by
  rcases hf with ⟨q, hq, hinc, hstatus, houtput, herror, hretention⟩ | ⟨hover, hnone⟩
  · rcases hc.row_forth h hq with ⟨q', hq', rfl | hs | he⟩ | ⟨hover, hnone⟩
    · exact Or.inl ⟨q', hq', hinc, hstatus, houtput, herror, hretention⟩
    · have hstays := hs.stays (by rw [hstatus, ht])
      exact Or.inl ⟨q', hq', hs.incarnation.trans hinc, hstays.trans hstatus,
        hs.outputJson.trans houtput, hs.error.trans herror, hs.retentionUntil.trans hretention⟩
    · have hlives := he.lives
      rw [hstatus, ht] at hlives
      cases hlives
    · rw [hretention] at hover
      rw [hinc] at hnone
      exact Or.inr ⟨hover, hnone⟩
  · refine Or.inr ⟨hover, fun r' hr' heq => ?_⟩
    rcases hc.row_back hr' with ⟨q, hq, hb⟩ | hfresh
    · exact hnone q hq (hb.incarnation.symm.trans heq)
    · refine absurd ?_ hfresh.former
      rw [heq]
      exact hi

theorem final_of_next (h : Sound s) (hn : s.next a = some s') {r : InstanceRow}
    (hi : r.executionId ∈ s.minted) (ht : r.status.terminal = true) (hf : Final r s.db s.clock) :
    Final r s'.db s'.clock := by
  have hfinal : Final r s'.db s.clock :=
    (changes_of_next h hn).induct (h.tidy.mono (minted_of_next hn))
      (P := fun d => Final r d s.clock) (fun _ _ hd hc hf => hc.final hd hi ht hf) hf
  exact hfinal.imp_right fun ⟨hover, hnone⟩ => ⟨Nat.le_trans hover (clock_of_next hn), hnone⟩

/-! ### An execution that is asked to end -/

/-- The execution has ended without success, or is asked to end. -/
def Halted (db : Db) (i : Incarnation) : Prop :=
  ∀ r ∈ db.instances, r.toIncarnation = i → r.status ≠ .complete ∧
    (r.status.terminal = false → r.terminationRequested = true)

variable {i : Incarnation}

theorem Change.halted (hc : Change m db db') (hi : i.executionId ∈ m.former)
    (h : Halted db i) : Halted db' i := by
  intro r' hr' hinc
  rcases hc.row_back hr' with ⟨r, hr, hb⟩ | hfresh
  · obtain ⟨hstatus, hrequested⟩ := h r hr (hb.incarnation.symm.trans hinc)
    obtain rfl | hs | he := hb
    · exact ⟨hstatus, hrequested⟩
    · cases hlive : r.status.terminal with
      | true =>
        refine ⟨by rw [hs.stays hlive]; exact hstatus, fun hlive' => ?_⟩
        rw [hs.lives, hlive] at hlive'
        cases hlive'
      | false =>
        refine ⟨fun hcomplete => ?_, fun _ => ?_⟩
        · have hlives := hs.lives
          rw [hcomplete, hlive] at hlives
          cases hlives
        · rcases hs.requested (hrequested hlive) with hkept | hterminal
          · exact hkept
          · rw [hlive] at hterminal
            cases hterminal
    · refine ⟨he.requested (hrequested he.lives), fun hlive => ?_⟩
      rw [he.ends] at hlive
      cases hlive
  · refine absurd ?_ hfresh.former
    rw [hinc]
    exact hi

/-- No step of an execution that is halted is written. -/
theorem Halted.not_journals (h : Halted db i) {p : StepRow}
    (hp : p.execution = i) : ¬ Journals m db p := by
  rintro ⟨r, hr, hexec, hlive, hnot, -⟩
  have hrequested := (h r hr (hexec.symm.trans hp)).2 hlive
  rw [hnot] at hrequested
  cases hrequested

theorem Change.halted_steps (hc : Change m db db') (h : Halted db i)
    {p : StepRow} (hp : p ∈ db'.steps) (hexec : p.execution = i) : p ∈ db.steps := by
  rcases hc.step_back hp with hkept | ⟨q, -, hwrite⟩ | ⟨-, -, -, hjournals⟩
  · exact hkept
  · exact absurd hwrite.journals (h.not_journals (hwrite.execution.symm.trans hexec))
  · exact absurd hjournals (h.not_journals hexec)

theorem journaled_of_next (hn : s.next a = some s') :
    s'.journaled = s.journaled ∨ ∃ i run key row assignment next timestamp live,
      a = .run i (.write timestamp live) ∧ s.runs[i]? = some run ∧
        run.call = .writing key row assignment next ∧ Run.journals row assignment = true ∧
        (s.db.changeStep run.identity key row.revision assignment timestamp live).2 = true ∧
        s'.db = (s.db.changeStep run.identity key row.revision assignment timestamp live).1 ∧
        s'.journaled = s.journaled ++ [(run.identity.toIncarnation, key)] := by
  cases a <;> simp only [System.next, System.caller] at hn
  case sendStep =>
    split at hn
    · cases hn
    · obtain ⟨_, -, rfl⟩ := Option.map_eq_some_iff.mp hn
      exact Or.inl rfl
  case run i _ =>
    split at hn
    · cases hn
    · next run hrun =>
      obtain ⟨_, hstep, rfl⟩ := Option.map_eq_some_iff.mp hn
      rcases Run.step_journaled hstep with hnone |
        ⟨key, row, assignment, next, timestamp, live, rfl, hcall, hjournals, hchanged, hdb, hkey⟩
      · simp [hnone]
      · exact Or.inr ⟨i, run, key, row, assignment, next, timestamp, live, rfl, hrun, hcall,
          hjournals, hchanged, hdb, by simp [hkey]⟩
  all_goals (repeat' split at hn) <;> cases hn <;> exact Or.inl rfl

theorem halted_of_next (h : Sound s) (hn : s.next a = some s')
    (hi : i.executionId ∈ s.minted) (hhalted : Halted s.db i) :
    Halted s'.db i ∧ (∀ p ∈ s'.db.steps, p.execution = i → p ∈ s.db.steps) ∧
      ∀ name, s'.journaled.count (i, name) = s.journaled.count (i, name) := by
  have hkept : Halted s'.db i ∧ ∀ p ∈ s'.db.steps, p.execution = i → p ∈ s.db.steps := by
    refine (changes_of_next h hn).induct (h.tidy.mono (minted_of_next hn))
      (P := fun d => Halted d i ∧ ∀ p ∈ d.steps, p.execution = i → p ∈ s.db.steps) ?_
      ⟨hhalted, fun _ hp _ => hp⟩
    rintro d _ - hc ⟨hd, hsteps⟩
    exact ⟨hc.halted hi hd, fun p hp hexec => hsteps p (hc.halted_steps hd hp hexec) hexec⟩
  refine ⟨hkept.1, hkept.2, fun name => ?_⟩
  rcases journaled_of_next hn with hsame |
    ⟨j, run, _, _, _, _, _, _, -, -, -, -, hchanged, -, heq⟩
  · rw [hsame]
  obtain ⟨p, -, hc⟩ := List.any_eq_true.mp hchanged
  obtain ⟨r, hr, hrun, hinc⟩ := row_of_runExists (changes_iff.mp hc).2.2
  obtain ⟨-, hnot, hrunning, -⟩ := runnable_iff.mp hrun
  have hne : run.identity.toIncarnation ≠ i := by
    intro hsame
    have hrequested := (hhalted r hr (hinc.trans hsame)).2 (by rw [hrunning]; rfl)
    rw [hnot] at hrequested
    cases hrequested
  rw [heq, List.count_append, List.count_singleton, beq_false_of_ne, if_neg Bool.false_ne_true,
    Nat.add_zero]
  exact fun hpair => hne (congrArg Prod.fst hpair)

/-! ### The claim of an ended execution -/

/-- **What an execution ended with stays.**  Once its status is terminal, its status, output and
error never change until its row is removed at the end of its retention, and it has no step and no
event.  Once a termination is requested, it never completes, and its journal never changes. -/
theorem ended_stays_ended (h : workflows.Reachable s) (hpath : workflows.Path s s')
    {r : InstanceRow} (hr : r ∈ s.db.instances) :
    (r.status.terminal = true →
      ((∀ p ∈ s.db.steps, p.isOf r = false) ∧ ∀ e ∈ s.db.events, e.executionId ≠ r.executionId) ∧
        ((∃ r' ∈ s'.db.instances, r'.toIncarnation = r.toIncarnation ∧ r'.status = r.status ∧
            r'.outputJson = r.outputJson ∧ r'.error = r.error) ∨
          r.retentionUntil ≤ s'.clock ∧
            ∀ r' ∈ s'.db.instances, r'.toIncarnation ≠ r.toIncarnation)) ∧
      (r.terminationRequested = true →
        (∀ r' ∈ s'.db.instances, r'.toIncarnation = r.toIncarnation → r'.status ≠ .complete) ∧
          (∀ p ∈ s'.db.steps, p.execution = r.toIncarnation → p ∈ s.db.steps) ∧
          ∀ name, s'.journaled.count (r.toIncarnation, name) =
            s.journaled.count (r.toIncarnation, name)) := by
  have hsound := sound_of_reachable h
  have hminted : r.executionId ∈ s.minted := hsound.tidy.minted r hr
  refine ⟨fun ht => ⟨hsound.tidy.clean hr ht, ?_⟩, fun hrequested => ?_⟩
  · have hfinal : r.executionId ∈ s'.minted ∧ Final r s'.db s'.clock := by
      refine Machine.Path.invariant
        (P := fun t => r.executionId ∈ t.minted ∧ Final r t.db t.clock) ?_ h hpath
        ⟨hminted, Or.inl ⟨r, hr, rfl, rfl, rfl, rfl, rfl⟩⟩
      rintro t b _ ht' ⟨hi, hf⟩ hn
      exact ⟨minted_of_next hn hi, final_of_next (sound_of_reachable ht') hn hi ht hf⟩
    refine hfinal.2.imp_left ?_
    rintro ⟨r', hr', hinc, hstatus, houtput, herror, -⟩
    exact ⟨r', hr', hinc, hstatus, houtput, herror⟩
  · have hhalted : Halted s.db r.toIncarnation := by
      intro r' hr' hinc
      obtain rfl := hsound.tidy.incarnation_unique hr' hr hinc
      exact ⟨hsound.tidy.requested r' hr hrequested, fun _ => hrequested⟩
    have hkept : r.executionId ∈ s'.minted ∧ Halted s'.db r.toIncarnation ∧
        (∀ p ∈ s'.db.steps, p.execution = r.toIncarnation → p ∈ s.db.steps) ∧
        ∀ name, s'.journaled.count (r.toIncarnation, name) =
          s.journaled.count (r.toIncarnation, name) := by
      refine Machine.Path.invariant (P := fun t => r.executionId ∈ t.minted ∧
        Halted t.db r.toIncarnation ∧
        (∀ p ∈ t.db.steps, p.execution = r.toIncarnation → p ∈ s.db.steps) ∧
        ∀ name, t.journaled.count (r.toIncarnation, name) =
          s.journaled.count (r.toIncarnation, name)) ?_ h hpath
        ⟨hminted, hhalted, fun _ hp _ => hp, fun _ => rfl⟩
      rintro t b _ ht' ⟨hi, hd, hsteps, hcount⟩ hn
      obtain ⟨hd', hsteps', hcount'⟩ := halted_of_next (sound_of_reachable ht') hn hi hd
      exact ⟨minted_of_next hn hi, hd', fun p hp hexec => hsteps p (hsteps' p hp hexec) hexec,
        fun name => (hcount' name).trans (hcount name)⟩
    exact ⟨fun r' hr' hinc => (hkept.2.1 r' hr' hinc).1, hkept.2.2⟩

/-! ### A run that is terminated -/

/-- An execution, for the runs below. -/
def someKey : InstanceKey := ⟨"tenant", "workflow", "instance"⟩

def someIncarnation : Incarnation := { toInstanceKey := someKey, executionId := "execution", createdAt := 0 }

/-- An instance is created and claimed, and its run has inserted a step. -/
def stepActions (config : StepConfig) : List Action :=
  [.create someIncarnation true, .read someKey, .claim 0 "owner" 1000 0 true, .run 0 (.start 0 true),
    .run 0 (.begin config.kind "step" 0 true), .run 0 (.look config), .run 0 .find,
    .run 0 (.insert 0 true), .run 0 .readBack]

/-- A termination is requested while a step is open. -/
def requestActions : List Action :=
  stepActions (.run []) ++ [.read someKey, .requestTermination 1 0]

/-- It is finalized, and the row is swept at the end of its retention. -/
def finalizeActions : List Action := [.read someKey, .finalizeTermination 2 0]

def sweepActions : List Action := [.tick retentionMs, .sweep ["execution"] retentionMs]

/-- **The tables of every run**: their keys, an owner that has a lease and is not parked, and a
journal and a queue that belong to executions that have not ended. -/
theorem tables_tidy (h : workflows.Reachable s) :
    (s.db.instances.map fun r => r.toInstanceKey).Nodup ∧
    (s.db.instances.map fun r => r.executionId).Nodup ∧
    (∀ r ∈ s.db.instances, (r.runOwner = none ↔ r.runLeaseUntil = none) ∧
      (r.status = .waiting → r.runOwner = none)) ∧
    (s.db.steps.map fun p => (p.execution, p.name)).Nodup ∧
    (∀ p ∈ s.db.steps, ∃ r ∈ s.db.instances, p.execution = r.toIncarnation ∧
      r.status.terminal = false) ∧
    (s.db.events.map EventRow.eventId).Nodup ∧
    ∀ e ∈ s.db.events, ∃ r ∈ s.db.instances, e.key = r.toInstanceKey ∧
      e.executionId = r.executionId ∧ r.status.terminal = false := by
  have ht := (sound_of_reachable h).tidy
  exact ⟨ht.keys, ht.executions, fun r hr => ⟨ht.leases r hr, ht.parked r hr⟩, ht.stepIds,
    ht.stepOf, ht.eventIds, ht.eventOf⟩

theorem tables_tidy_requestActions : ∃ s, workflows.Reachable s ∧ s.db.steps.length = 1 ∧
    ∀ p ∈ s.db.steps, ∃ r ∈ s.db.instances, p.execution = r.toIncarnation ∧
      r.status.terminal = false := by
  obtain ⟨s, hs, hp⟩ := Machine.exists_reachable_of_run (M := workflows) requestActions
    (fun s => decide (s.db.steps.length = 1)) (by decide +kernel)
  exact ⟨s, hs, of_decide_eq_true hp, (tables_tidy hs).2.2.2.2.1⟩

theorem ended_stays_ended_requestActions :
    (∃ s t, workflows.Reachable s ∧ workflows.Path s t ∧ s.db.steps.length = 1 ∧
      t.db.instances.length = 1 ∧ ∃ r ∈ s.db.instances, ∀ q ∈ t.db.instances,
        q.toIncarnation = r.toIncarnation → q.status ≠ .complete) ∧
      ∃ s t, workflows.Reachable s ∧ workflows.Path s t ∧ t.db.instances = [] ∧
        ∃ r ∈ s.db.instances, r.status = .terminated ∧ ∀ p ∈ s.db.steps, p.isOf r = false := by
  constructor
  · obtain ⟨s, t, hs, hpath, hp⟩ := Machine.exists_path_of_run (M := workflows) requestActions
      finalizeActions (fun s t => decide (s.db.steps.length = 1 ∧ t.db.instances.length = 1) &&
        s.db.instances.any InstanceRow.terminationRequested) (by decide +kernel)
    obtain ⟨hlength, hany⟩ := Bool.and_eq_true_iff.mp hp
    obtain ⟨hsteps, hinstances⟩ := of_decide_eq_true hlength
    obtain ⟨r, hr, hrequested⟩ := List.any_eq_true.mp hany
    exact ⟨s, t, hs, hpath, hsteps, hinstances, r, hr,
      ((ended_stays_ended hs hpath hr).2 hrequested).1⟩
  · obtain ⟨s, t, hs, hpath, hp⟩ := Machine.exists_path_of_run (M := workflows)
      (requestActions ++ finalizeActions) sweepActions (fun s t => decide (t.db.instances = []) &&
        s.db.instances.any fun r => decide (r.status = .terminated)) (by decide +kernel)
    obtain ⟨hnone, hany⟩ := Bool.and_eq_true_iff.mp hp
    obtain ⟨r, hr, hterminated⟩ := List.any_eq_true.mp hany
    have hstatus := of_decide_eq_true hterminated
    have hterminal : r.status.terminal = true := by rw [hstatus]; rfl
    exact ⟨s, t, hs, hpath, of_decide_eq_true hnone, r, hr, hstatus,
      ((ended_stays_ended hs hpath hr).1 hterminal).1.1⟩

end Takoserver.Workflow
