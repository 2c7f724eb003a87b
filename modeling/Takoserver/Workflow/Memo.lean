import Takoserver.Workflow.Fencing

/-!
# Steps that have their result

A step that is complete or errored never changes, and its effect never runs again: a driver call
that comes to it reads the result, and a call that is still about to run the effect belongs to a
run whose context executes nothing any more.  An attempt is journaled with the write of its outcome,
and the plan of the row bounds how many there are.
-/

namespace Takoserver.Workflow

open Db (Assignment Outcome)

variable {minted : List String} {db db' : Db} {m : Move} {s s' : System} {a : Action}
  {clock : Instant}

/-! ### Calls on a step -/

def Call.key : Call → Option String
  | .idle => none
  | .named _ key => some key
  | .prepared key _ => some key
  | .inserting key _ => some key
  | .holds key _ => some key
  | .due key _ => some key
  | .running key _ => some key
  | .taking key _ _ => some key
  | .unmet key _ _ => some key
  | .writing key _ _ _ => some key
  | .wrote key _ => some key
  | .parking key _ _ => some key
  | .over => none

/-- The call goes on to the effect or to a write of the step without looking at its state. -/
def Call.Armed (name : String) : Call → Prop
  | .holds key _ => key = name
  | .due key _ => key = name
  | .running key _ => key = name
  | .taking key _ _ => key = name
  | .unmet key _ _ => key = name
  | .writing key _ _ _ => key = name
  | .wrote key next => key = name ∧ (next = .hold ∨ next = .effect)
  | _ => False

variable {i : Incarnation} {p row : StepRow} {run : Run} {key name : String} {timestamp : Instant}
  {config : StepConfig} {step : Run.Step} {result : Run.Result} {assignment : Assignment}
  {delays : List ℕ}

/-- A run that has the claim of an instance has no such call on a settled step. -/
theorem Call.Fits.not_armed {call : Call} (h : call.Fits db i)
    (hread : db.readStep i p.name = some p) (hsettled : p.state.settled = true) :
    ¬ call.Armed p.name := by
  have hheld : ∀ {key : String} {row : StepRow}, Held db i key row → key ≠ p.name := by
    rintro _ _ ⟨hrow, hunsettled⟩ rfl
    rw [hread] at hrow
    cases hrow
    rw [hsettled] at hunsettled
    cases hunsettled
  cases call with
  | holds => exact hheld h
  | due => exact hheld h.1
  | running => exact hheld h.1
  | taking => exact hheld h.1
  | unmet => exact hheld h
  | writing => exact hheld h.1
  | wrote =>
    rintro ⟨rfl, rfl | rfl⟩
    · have hunsettled := h p hread
      rw [show p.state.settled = false from hunsettled] at hsettled
      cases hsettled
    · have hunsettled := (h p hread).1
      rw [hunsettled] at hsettled
      cases hsettled
  | _ => exact id

theorem Run.decides_armed (h : (run.decides db key row timestamp).Armed name) : key = name := by
  unfold Run.decides at h
  split at h
  · split at h
    · split at h
      · exact h.elim
      · split at h
        · exact h.elim
        · exact h
    · exact h
  · split at h
    · exact h.elim
    · split at h
      · exact h
      · split at h
        · exact h
        · split at h <;> exact h.elim
  · split at h
    · exact h
    · split at h <;> exact h

theorem Run.attempted_armed {value : Option (Option String)}
    (h : (run.attempted key row value timestamp).Armed name) : key = name := by
  unfold Run.attempted at h
  split at h
  · exact h
  · split at h <;> exact h
  · exact h.elim

theorem Run.look_armed {kind : StepKind} :
    ¬ (run.look db kind key config).run.call.Armed name := by
  unfold Run.look
  split
  · split
    · exact id
    · split
      · exact id
      · split <;> exact id
  · split <;> exact id

theorem Run.readBack_armed {next : Then} (h : (run.readBack db key next).run.call.Armed name) :
    key = name ∧ (next = .hold ∨ next = .effect) := by
  unfold Run.readBack at h
  split at h
  · exact h.elim
  · cases next with
    | hold => exact ⟨h, Or.inl rfl⟩
    | effect => exact ⟨h, Or.inr rfl⟩
    | park =>
      dsimp only at h
      split at h <;> exact h.elim
    | _ => exact h.elim

theorem Run.find_armed (h : (run.find db key config).Armed name) :
    key = name ∧ ∃ row, db.readStep run.identity.toIncarnation key = some row := by
  unfold Run.find at h
  split at h
  · next row hread =>
    split at h
    · exact h.elim
    · exact ⟨h, row, hread⟩
  · exact h.elim

theorem Run.armed_back (hn : run.step db clock step = some result) (h : result.run.call.Armed name) :
    run.call.Armed name ∨
      (∃ config row, run.call = .prepared name config ∧
        db.readStep run.identity.toIncarnation name = some row) ∨
      ∃ timestamp live, db.runExists run.identity timestamp live = true ∧
        db.readStep run.identity.toIncarnation name = none := by
  cases Run.stepped hn with
  | start _ _ _ hrun =>
    rcases hrun with rfl | rfl <;> exact Or.inl h
  | begin _ _ _ _ _ _ hcall =>
    rcases hcall with rfl | rfl <;> exact h.elim
  | look => exact (Run.look_armed h).elim
  | find key config hcall =>
    obtain ⟨rfl, row, hread⟩ := Run.find_armed h
    exact Or.inr (Or.inl ⟨config, row, hcall, hread⟩)
  | insert _ _ timestamp live =>
    split at h
    · next hinserted =>
      obtain ⟨rfl, -⟩ := h
      unfold Db.insertStep at hinserted
      split at hinserted
      · next hc =>
        simp only [Bool.and_eq_true, Option.isNone_iff_eq_none] at hc
        exact Or.inr (Or.inr ⟨timestamp, live, hc.1.1, hc.2⟩)
      · cases hinserted
    · exact h.elim
  | readBack _ _ hcall =>
    rw [hcall]
    exact Or.inl (Run.readBack_armed h)
  | decide _ _ _ hcall =>
    rw [hcall]
    exact Or.inl (Run.decides_armed h)
  | effect _ _ hcall =>
    rw [hcall]
    exact Or.inl h
  | settle _ _ _ _ hcall =>
    rw [hcall]
    exact Or.inl (Run.attempted_armed h)
  | expire _ _ _ _ hcall =>
    rw [hcall]
    split at h
    · exact Or.inl h
    · exact h.elim
  | take =>
    split at h
    · rcases h with ⟨-, h | h⟩ <;> cases h
    · exact h.elim
  | write _ _ _ _ _ _ hcall =>
    rw [hcall]
    split at h
    · exact Or.inl h.1
    · exact h.elim
  | park => exact h.elim
  | _ => exact Or.inl h

theorem Run.step_spent (hn : run.step db clock step = some result) (h : run.spent clock) :
    result.run.spent clock := by
  cases Run.stepped hn with
  | start _ _ _ hrun =>
    rcases hrun with rfl | rfl
    · exact h
    · exact Or.inl rfl
  | stop => exact Or.inl rfl
  | extend =>
    have halive : run.alive clock = false := by
      rcases h with hs | hs
      · simp [Run.alive, hs]
      · simp [Run.alive, Nat.not_lt_of_le hs]
    rw [halive, if_neg Bool.false_ne_true]
    exact h
  | look =>
    obtain ⟨_, _, heq⟩ := look_eq
    rw [heq]
    exact h
  | readBack =>
    obtain ⟨_, _, heq⟩ := readBack_eq
    rw [heq]
    exact h
  | _ => exact h

/-! ### No effect of a settled step becomes due -/

/-- The context of no run that executes is about to run the effect of the step. -/
def Disarmed (s : System) (p : StepRow) : Prop :=
  ∀ run ∈ s.runs, run.identity.toIncarnation = p.execution → ¬ run.spent s.clock →
    ¬ run.call.Armed p.name

/-- A context that executes has its claim, unless its instance has ended. -/
theorem Hosted.owns (h : Hosted minted db clock run) (hspent : ¬ run.spent clock)
    (hlive : ∃ r ∈ db.instances, r.toIncarnation = run.identity.toIncarnation ∧
      r.status.terminal = false) : Owns db run.identity := by
  obtain ⟨r, hr, hinc, hlive⟩ := hlive
  exact ⟨r, hr, (h.leased hspent r hr hinc hlive).1, hlive⟩

theorem Tidy.readStep_of_mem (h : Tidy minted db) (hp : p ∈ db.steps) :
    db.readStep p.execution p.name = some p := by
  obtain ⟨r, hr, hexec, -⟩ := h.stepOf p hp
  exact (h.readStep_iff hr hexec.symm).mpr ⟨hp, rfl, rfl⟩

/-- The execution id belongs to the incarnation. -/
def Sole (db : Db) (i : Incarnation) : Prop :=
  ∀ r ∈ db.instances, r.executionId = i.executionId → r.toIncarnation = i

theorem Change.sole (hc : Change m db db') (hi : i.executionId ∈ m.former) (h : Sole db i) :
    Sole db' i := by
  intro r' hr' heq
  rcases hc.row_back hr' with ⟨r, hr, hb⟩ | hfresh
  · have hinc := hb.incarnation
    exact hinc.trans (h r hr ((congrArg Incarnation.executionId hinc).symm.trans heq))
  · refine absurd ?_ hfresh.former
    rw [heq]
    exact hi

/-- Nothing is read of an incarnation that is gone. -/
theorem Tidy.readStep_gone (h : Tidy minted db) (hsole : Sole db i) (hgone : Gone db i)
    (key : String) : db.readStep i key = none := by
  refine List.find?_eq_none.mpr fun p hp hstep => ?_
  obtain ⟨r, hr, hexec, hlive⟩ := h.stepOf p hp
  have hinc := hsole r hr (by rw [← (of_decide_eq_true hstep).1, hexec])
  rw [hgone r hr hinc] at hlive
  cases hlive

theorem disarmed_of_mem (h : Sound s) (hp : p ∈ s.db.steps) (hsettled : p.state.settled = true) :
    Disarmed s p := by
  intro run hrun hinc hspent
  obtain ⟨r, hr, hexec, hlive⟩ := h.tidy.stepOf p hp
  have hhosted := h.runs run hrun
  have howns := hhosted.owns hspent ⟨r, hr, hexec.symm.trans hinc.symm, hlive⟩
  refine (hhosted.call howns).not_armed ?_ hsettled
  rw [hinc]
  exact h.tidy.readStep_of_mem hp

/-- **No effect of a settled step becomes due**, nor after its instance has ended. -/
theorem disarmed_of_next (h : Sound s) (hn : s.next a = some s') (hsettled : p.state.settled = true)
    (hsole : Sole s.db p.execution) (hgone : p ∈ s.db.steps ∨ Gone s.db p.execution)
    (hd : Disarmed s p) : Disarmed s' p := by
  have hclock := clock_of_next hn
  intro run' hrun' hinc hspent harmed
  rcases runs_of_next hn with ⟨i, _, run, _, rfl, hrun, hstep, -, hclock', hruns⟩ |
    ⟨_, -, _, _, _, _, -, -, -, -, -, -, -, hruns⟩ | ⟨hruns, -⟩
  · rw [hruns] at hrun'
    rcases List.mem_or_eq_of_mem_set hrun' with hold | rfl
    · exact hd run' hold hinc (fun hs => hspent (hs.imp_right fun hle => Nat.le_trans hle hclock))
        harmed
    rw [hclock'] at hspent
    have hmem := List.mem_of_getElem? hrun
    have hspent' : ¬ run.spent s.clock := fun hs => hspent (Run.step_spent hstep hs)
    rw [Run.step_identity hstep] at hinc
    rcases Run.armed_back hstep harmed with hbefore | ⟨_, _, hcall, hread⟩ |
      ⟨_, _, hruns, hread⟩
    · exact hd run hmem hinc hspent' hbefore
    · rcases hgone with hp | hgone
      · obtain ⟨r, hr, hexec, hlive⟩ := h.tidy.stepOf p hp
        have hhosted := h.runs run hmem
        have hfits := hhosted.call
          (hhosted.owns hspent' ⟨r, hr, hexec.symm.trans hinc.symm, hlive⟩)
        rw [hcall, hinc] at hfits
        have hunsettled := hfits p (h.tidy.readStep_of_mem hp)
        rw [hunsettled] at hsettled
        cases hsettled
      · rw [hinc, h.tidy.readStep_gone hsole hgone] at hread
        cases hread
    · rw [hinc] at hread
      rcases hgone with hp | hgone
      · rw [h.tidy.readStep_of_mem hp] at hread
        cases hread
      · obtain ⟨r, hr, hrun, hinc'⟩ := row_of_runExists hruns
        have hterminal := hgone r hr (hinc'.trans hinc)
        rw [(runnable_iff.mp hrun).2.2.1] at hterminal
        cases hterminal
  · rw [hruns] at hrun'
    rcases List.mem_append.mp hrun' with hold | hnew
    · exact hd run' hold hinc (fun hs => hspent (hs.imp_right fun hle => Nat.le_trans hle hclock))
        harmed
    · rw [List.mem_singleton.mp hnew] at harmed
      exact harmed
  · rw [hruns] at hrun'
    exact hd run' hrun' hinc (fun hs => hspent (hs.imp_right fun hle => Nat.le_trans hle hclock))
      harmed

/-! ### What a call on a settled step answers -/

theorem Run.find_ne_idle :
    run.find db key config ≠ .idle := by
  unfold Run.find
  split
  · split <;> exact Call.noConfusion
  · exact Call.noConfusion

theorem Run.decides_ne_idle :
    run.decides db key row timestamp ≠ .idle := by
  unfold Run.decides
  split
  · split
    · split
      · exact Call.noConfusion
      · split <;> exact Call.noConfusion
    · exact Call.noConfusion
  · split
    · exact Call.noConfusion
    · split
      · exact Call.noConfusion
      · split
        · exact Call.noConfusion
        · split <;> exact Call.noConfusion
  · split
    · exact Call.noConfusion
    · split <;> exact Call.noConfusion

theorem Run.attempted_ne_idle {value : Option (Option String)} :
    run.attempted key row value timestamp ≠ .idle := by
  unfold Run.attempted
  split
  · exact Call.noConfusion
  · split <;> exact Call.noConfusion
  · exact Call.noConfusion

theorem Run.idle_back (hn : run.step db clock step = some result) (hkey : run.call.key = some name)
    (hidle : result.run.call = .idle) :
    (∃ kind config, run.call = .named kind name ∧ result = run.look db kind name config) ∨
      ∃ next, run.call = .wrote name next ∧ result = run.readBack db name next := by
  have hbusy : run.call ≠ .idle := by
    intro hcall
    rw [hcall] at hkey
    cases hkey
  cases Run.stepped hn with
  | start _ _ _ hrun =>
    rcases hrun with rfl | rfl <;> exact absurd hidle hbusy
  | begin _ _ _ _ _ hcall => exact absurd hcall hbusy
  | look kind key config hcall =>
    rw [hcall] at hkey
    cases hkey
    exact Or.inl ⟨kind, config, hcall, rfl⟩
  | find => exact absurd hidle Run.find_ne_idle
  | readBack key next hcall =>
    rw [hcall] at hkey
    cases hkey
    exact Or.inr ⟨next, hcall, rfl⟩
  | decide => exact absurd hidle Run.decides_ne_idle
  | settle => exact absurd hidle Run.attempted_ne_idle
  | insert | expire | take | write =>
    split at hidle <;> cases hidle
  | effect | park => cases hidle
  | _ => exact absurd hidle hbusy

/-- **A call on a settled step is answered with its result.** -/
theorem answer_of_step (h : Hosted minted db clock run) (ht : Tidy minted db)
    (hn : run.step db clock step = some result) (hinc : run.identity.toIncarnation = p.execution)
    (hp : p ∈ db.steps) (hsettled : p.state.settled = true) (hkey : run.call.key = some p.name)
    (hidle : result.run.call = .idle) : result.run.answer = some (memo p) := by
  have hread : db.readStep run.identity.toIncarnation p.name = some p := by
    rw [hinc]
    exact ht.readStep_of_mem hp
  rcases Run.idle_back hn hkey hidle with ⟨_, _, -, rfl⟩ | ⟨next, hcall, rfl⟩
  · simp [Run.look, hread, hsettled, Run.answers]
  have hstands := h.stands
  rw [hcall] at hstands
  unfold Run.readBack at hidle ⊢
  simp only [hread] at hidle ⊢
  cases next with
  | memo => rfl
  | throw reason =>
    -- what is thrown is what was journaled
    rcases hstands reason rfl with hgone | ⟨q, hq, hexec, hname, hstate, herror⟩
    · rw [hinc] at hgone
      exact absurd rfl (ht.no_step hgone hp)
    · have hsame : q = p := by
        have hread' := ht.readStep_of_mem hq
        rw [hexec, hname, hread] at hread'
        exact (Option.some.inj hread').symm
      subst hsame
      show some (Answer.error reason) = some (memo q)
      simp [memo, hstate, herror]
  | hold => cases hidle
  | effect => cases hidle
  | park =>
    dsimp only at hidle
    split at hidle <;> cases hidle
  | parkUntil => cases hidle

theorem look_of_settled {kind : StepKind} (ht : Tidy minted db)
    (hinc : run.identity.toIncarnation = p.execution) (hp : p ∈ db.steps)
    (hsettled : p.state.settled = true) :
    run.look db kind p.name config = run.answers db (memo p) := by
  have hread : db.readStep run.identity.toIncarnation p.name = some p := by
    rw [hinc]
    exact ht.readStep_of_mem hp
  simp [Run.look, hread, hsettled]

/-! ### The attempts that are journaled -/

/-- The attempts that the row of a step has had. -/
def StepRow.attempts (p : StepRow) : ℕ :=
  p.retryProgress.getD 0 + if p.state.settled then 1 else 0

/-- The attempts that are journaled, by the row of their step. -/
structure Ledger (minted : List String) (db : Db) (journaled : List (Incarnation × String)) :
    Prop where
  counts : ∀ p ∈ db.steps, ∀ delays, p.config = .run delays →
    journaled.count (p.execution, p.name) = p.attempts ∧ p.retryProgress.getD 0 ≤ delays.length
  /-- What is journaled is of a step, or of an incarnation that is gone. -/
  entered : ∀ c ∈ journaled, c.1.executionId ∈ minted ∧
    ((∃ p ∈ db.steps, p.execution = c.1 ∧ p.name = c.2) ∨ Gone db c.1)

variable {journaled : List (Incarnation × String)}

/-- What is journaled stays of a step, or of an incarnation that is gone. -/
theorem Change.entered (h : Tidy m.minted db) (hc : Change m db db') (hi : i.executionId ∈ m.former)
    (he : (∃ p ∈ db.steps, p.execution = i ∧ p.name = name) ∨ Gone db i) :
    (∃ p ∈ db'.steps, p.execution = i ∧ p.name = name) ∨ Gone db' i := by
  rcases he with ⟨p, hp, hexec, hname⟩ | hgone
  · rcases hc.step_forth h hp with hkept | ⟨p', hp', hwrite⟩ | hgone
    · exact Or.inl ⟨p, hkept, hexec, hname⟩
    · exact Or.inl ⟨p', hp', hwrite.execution.trans hexec, hwrite.name.trans hname⟩
    · rw [hexec] at hgone
      exact Or.inr hgone
  · exact Or.inr (hc.gone hi hgone)

/-- A change that writes no `do` keeps the ledger. -/
theorem Change.ledger (h : Tidy m.minted db) (hc : Change m db db') (hworks : m.works = false)
    (hl : Ledger m.former db journaled) : Ledger m.former db' journaled where
  counts := by
    intro p' hp' delays hconfig
    rcases hc.step_back hp' with hkept | ⟨p, -, hwrite⟩ | ⟨hfresh, hpending, hprogress, hjournals⟩
    · exact hl.counts p' hkept delays hconfig
    · have hrun : p.config.kind = .run := by
        rw [← hwrite.config, hconfig]
        rfl
      have hwrites := hwrite.works hrun
      rw [hworks] at hwrites
      cases hwrites
    · have hnone : (p'.execution, p'.name) ∉ journaled := by
        intro hmem
        obtain ⟨r, hr, hexec, hlive, -⟩ := hjournals
        rcases (hl.entered _ hmem).2 with ⟨p, hp, hid⟩ | hgone
        · exact hfresh p hp hid
        · rw [hgone r hr hexec.symm] at hlive
          cases hlive
      rw [List.count_eq_zero_of_not_mem hnone]
      simp [StepRow.attempts, hpending, hprogress, StepState.settled]
  entered := fun c hmem =>
    ⟨(hl.entered c hmem).1, hc.entered h (hl.entered c hmem).1 (hl.entered c hmem).2⟩

theorem attempts_apply (hunsettled : row.state.settled = false) (hconfig : row.config = .run delays)
    (hplanned : Planned assignment row) (hle : row.retryProgress.getD 0 ≤ delays.length) :
    (assignment.apply row).attempts =
        row.attempts + (if Run.journals row assignment then 1 else 0) ∧
      (assignment.apply row).retryProgress.getD 0 ≤ delays.length := by
  have hkind : row.config.kind = .run := by
    rw [hconfig]
    rfl
  have hattempts : row.attempts = row.retryProgress.getD 0 := by
    simp [StepRow.attempts, hunsettled]
  rw [hattempts]
  cases assignment with
  | retry attempt wakeAt =>
    obtain ⟨rfl, _, hconfig', hlt⟩ := hplanned attempt wakeAt rfl
    rw [hconfig] at hconfig'
    cases hconfig'
    refine ⟨?_, hlt⟩
    simp [StepRow.attempts, Assignment.apply, Run.journals, hkind, StepState.settled]
  | _ =>
    refine ⟨?_, hle⟩
    simp [StepRow.attempts, Assignment.apply, Run.journals, hkind, StepState.settled]

theorem Hosted.ledger (h : Hosted minted db clock run) (ht : Tidy minted db) {next : Then}
    {live : Bool} (hcall : run.call = .writing key row assignment next)
    (hchanged : (db.changeStep run.identity key row.revision assignment timestamp live).2 = true)
    (hl : Ledger minted db journaled) :
    Ledger minted (db.changeStep run.identity key row.revision assignment timestamp live).1
      (journaled ++ if Run.journals row assignment then [(run.identity.toIncarnation, key)]
        else []) := by
  obtain ⟨p₀, hp₀, hc₀⟩ := List.any_eq_true.mp hchanged
  obtain ⟨hstep₀, -, hruns⟩ := changes_iff.mp hc₀
  have howns := owns_of_runExists hruns
  have hrow := howns.row
  have hfits := h.call howns
  rw [hcall] at hfits
  obtain ⟨hheld, -, hplanned⟩ := hfits
  obtain rfl := hheld.eq_of_isStep ht hrow hp₀ hstep₀
  obtain ⟨r, hr, hinc⟩ := hrow
  obtain ⟨hexec, hname⟩ := (isStep_iff ht hp₀ hr hinc).mp hstep₀
  have hid : (run.identity.toIncarnation, key) = (p₀.execution, p₀.name) := by rw [hexec, hname]
  -- the ledger grows where the run journals, and by one
  have hcount : ∀ c, (journaled ++ if Run.journals p₀ assignment then
      [(run.identity.toIncarnation, key)] else []).count c = journaled.count c +
        if Run.journals p₀ assignment = true ∧ c = (p₀.execution, p₀.name) then 1 else 0 := by
    intro c
    rw [hid]
    by_cases hj : Run.journals p₀ assignment = true
    · by_cases hsame : c = (p₀.execution, p₀.name)
      · simp [hj, hsame]
      · have hne : (p₀.execution, p₀.name) ≠ c := fun heq => hsame heq.symm
        simp [hj, hsame, hne]
    · simp [hj]
  constructor
  · intro p' hp' delays hconfig
    rw [hcount]
    rcases Table.mem_update.mp hp' with ⟨hp, hnot⟩ | ⟨p, hp, hc, rfl⟩
    · have hne : ¬ (Run.journals p₀ assignment = true ∧
          (p'.execution, p'.name) = (p₀.execution, p₀.name)) := by
        rintro ⟨-, hsame⟩
        rw [Table.eq_of_key ht.stepIds hp hp₀ hsame, hc₀] at hnot
        cases hnot
      rw [if_neg hne]
      exact hl.counts p' hp delays hconfig
    · obtain rfl := hheld.eq_of_isStep ht ⟨r, hr, hinc⟩ hp (changes_iff.mp hc).1
      have hconfig' : p.config = .run delays := (apply_config assignment p).symm.trans hconfig
      obtain ⟨hcounts, hle⟩ := hl.counts p hp delays hconfig'
      obtain ⟨hattempts, hle'⟩ := attempts_apply hheld.2 hconfig' hplanned hle
      refine ⟨?_, hle'⟩
      have hsame : ((assignment.apply p).execution, (assignment.apply p).name) =
          (p.execution, p.name) := by simp
      show journaled.count ((assignment.apply p).execution, (assignment.apply p).name) +
        (if Run.journals p assignment = true ∧ ((assignment.apply p).execution,
          (assignment.apply p).name) = (p.execution, p.name) then 1 else 0) =
            (assignment.apply p).attempts
      rw [hsame, hcounts, hattempts]
      simp
  · intro c hc
    rcases List.mem_append.mp hc with hc | hc
    · refine ⟨(hl.entered c hc).1, (hl.entered c hc).2.imp_left ?_⟩
      rintro ⟨p, hp, hexec', hname'⟩
      refine ⟨_, Table.mem_update_of_mem hp, ?_⟩
      split
      · exact ⟨(apply_execution assignment p).trans hexec', (apply_name assignment p).trans hname'⟩
      · exact ⟨hexec', hname'⟩
    · split at hc
      · obtain rfl := List.mem_singleton.mp hc
        refine ⟨h.minted, Or.inl ⟨_, Table.mem_update.mpr (Or.inr ⟨p₀, hp₀, hc₀, rfl⟩), ?_, ?_⟩⟩
        · exact (apply_execution assignment p₀).trans hexec
        · exact (apply_name assignment p₀).trans hname
      · cases hc

theorem Ledger.mono {minted' : List String} (h : Ledger minted db journaled)
    (hsub : minted ⊆ minted') : Ledger minted' db journaled :=
  ⟨h.counts, fun c hc => ⟨hsub (h.entered c hc).1, (h.entered c hc).2⟩⟩

theorem changeStep_eq_self {identity : RunIdentity} {revision : ℕ} {live : Bool}
    (h : ¬ (db.changeStep identity key revision assignment timestamp live).2 = true) :
    (db.changeStep identity key revision assignment timestamp live).1 = db := by
  simp only [Db.changeStep]
  rw [Table.update_eq_self fun p hp => Bool.eq_false_iff.mpr fun hc =>
    h (List.any_eq_true.mpr ⟨p, hp, hc⟩)]

theorem ledger_of_next (h : Sound s) (hn : s.next a = some s')
    (hl : Ledger s.minted s.db s.journaled) : Ledger s'.minted s'.db s'.journaled := by
  have hsub := minted_of_next hn
  cases hworks : a.works with
  | false =>
    have hjournaled : s'.journaled = s.journaled := by
      rcases journaled_of_next hn with hsame | ⟨i, _, _, _, _, _, _, _,
        rfl, -⟩
      · exact hsame
      · cases hworks
    have hkept : Ledger s.minted s'.db s.journaled :=
      (changes_of_next h hn).induct (h.tidy.mono hsub)
        (P := fun d => Ledger s.minted d s.journaled)
        (fun _ _ hd hc hl => hc.ledger hd hworks hl) hl
    rw [hjournaled]
    exact hkept.mono hsub
  | true =>
    obtain ⟨i, timestamp, live, rfl⟩ : ∃ i timestamp live, a = .run i (.write timestamp live) := by
      cases a with
      | run i step =>
        cases step with
        | write timestamp live => exact ⟨i, timestamp, live, rfl⟩
        | _ => cases hworks
      | _ => cases hworks
    simp only [System.next] at hn
    split at hn
    · cases hn
    next run hrun =>
    obtain ⟨_, hstep, rfl⟩ := Option.map_eq_some_iff.mp hn
    simp only [Run.step] at hstep
    split at hstep
    · next key row assignment _ hcall =>
      split at hstep
      · cases hstep
        have hhosted := h.runs run (List.mem_of_getElem? hrun)
        by_cases hchanged : (s.db.changeStep run.identity key row.revision assignment timestamp
            live).2 = true
        · refine Eq.mpr (congrArg (Ledger s.minted _) (congrArg (s.journaled ++ ·) ?_))
            (hhosted.ledger h.tidy hcall hchanged hl)
          rw [hchanged]
          cases Run.journals row assignment <;> rfl
        · dsimp only [Run.goes]
          rw [changeStep_eq_self hchanged, Bool.eq_false_iff.mpr hchanged]
          simpa using hl
      · cases hstep
    · cases hstep

/-- The journal counts its attempts. -/
theorem ledger_of_reachable (h : workflows.Reachable s) :
    Ledger s.minted s.db s.journaled := by
  refine Machine.Reachable.invariant (P := fun s => Ledger s.minted s.db s.journaled) ?_
    (fun s a s' hs hl hn => ledger_of_next (sound_of_reachable hs) hn hl) h
  constructor
  · intro p hp
    cases hp
  · intro c hc
    cases hc

/-! ### What the executions of a step have in common -/

/-- The step has had no more attempts than its plan has, and one. -/
def Bounded (s : System) (p : StepRow) (delays : List ℕ) : Prop :=
  (∃ q ∈ s.db.steps, q.execution = p.execution ∧ q.name = p.name ∧ q.config = .run delays) ∨
    Gone s.db p.execution ∧ s.journaled.count (p.execution, p.name) ≤ delays.length + 1

theorem Ledger.count_le (h : Ledger minted db journaled) (hp : p ∈ db.steps)
    (hconfig : p.config = .run delays) :
    journaled.count (p.execution, p.name) ≤ delays.length + 1 := by
  obtain ⟨hcount, _⟩ := h.counts p hp delays hconfig
  rw [hcount, StepRow.attempts]
  split <;> omega

theorem bounded_of_next (h : Sound s) (hl : Ledger s.minted s.db s.journaled)
    (hn : s.next a = some s') (hi : p.execution.executionId ∈ s.minted) (hb : Bounded s p delays) :
    Bounded s' p delays := by
  have ht : Tidy (s.move s' a).minted s.db := h.tidy.mono (minted_of_next hn)
  have hc := changes_of_next h hn
  rcases journaled_of_next hn with hsame | ⟨i, run, _, _, assignment, _, _, _, -,
    -, -, -, hchanged, hdb, heq⟩
  · rcases hb with ⟨q, hq, hexec, hname, hconfig⟩ | ⟨hgone, hle⟩
    · have hkept : (∃ q ∈ s'.db.steps, q.execution = p.execution ∧ q.name = p.name ∧
          q.config = .run delays) ∨ Gone s'.db p.execution := by
        refine hc.induct ht (P := fun d => (∃ q ∈ d.steps, q.execution = p.execution ∧
          q.name = p.name ∧ q.config = .run delays) ∨ Gone d p.execution) ?_
          (Or.inl ⟨q, hq, hexec, hname, hconfig⟩)
        rintro d _ hd hc (⟨q, hq, hexec, hname, hconfig⟩ | hgone)
        · rcases hc.step_forth hd hq with hkept | ⟨q', hq', hwrite⟩ | hgone
          · exact Or.inl ⟨q, hkept, hexec, hname, hconfig⟩
          · exact Or.inl ⟨q', hq', hwrite.execution.trans hexec, hwrite.name.trans hname,
              hwrite.config.trans hconfig⟩
          · rw [hexec] at hgone
            exact Or.inr hgone
        · exact Or.inr (hc.gone hi hgone)
      refine hkept.imp_right fun hgone => ⟨hgone, ?_⟩
      have hle := hl.count_le hq hconfig
      rw [hexec, hname] at hle
      rwa [hsame]
    · exact Or.inr ⟨hc.gone ht hi hgone, by rwa [hsame]⟩
  · rcases hb with ⟨q, hq, hexec, hname, hconfig⟩ | ⟨hgone, hle⟩
    · refine Or.inl ?_
      rw [hdb]
      refine ⟨_, Table.mem_update_of_mem hq, ?_⟩
      split
      · exact ⟨(apply_execution assignment q).trans hexec, (apply_name assignment q).trans hname,
          (apply_config assignment q).trans hconfig⟩
      · exact ⟨hexec, hname, hconfig⟩
    · refine Or.inr ⟨hc.gone ht hi hgone, ?_⟩
      have hne : run.identity.toIncarnation ≠ p.execution := by
        intro hinc
        obtain ⟨q, -, hc⟩ := List.any_eq_true.mp hchanged
        obtain ⟨r, hr, hrun, hinc'⟩ := row_of_runExists (changes_iff.mp hc).2.2
        have hterminal := hgone r hr (hinc'.trans hinc)
        rw [(runnable_iff.mp hrun).2.2.1] at hterminal
        cases hterminal
      rw [heq, List.count_append, List.count_singleton, beq_false_of_ne, if_neg Bool.false_ne_true,
        Nat.add_zero]
      · exact hle
      · exact fun hpair => hne (congrArg Prod.fst hpair)

/-- What stays of a settled step along a run. -/
structure Settled (s : System) (p : StepRow) : Prop where
  minted : p.execution.executionId ∈ s.minted
  sole : Sole s.db p.execution
  kept : p ∈ s.db.steps ∨ Gone s.db p.execution
  disarmed : Disarmed s p

theorem settled_of_mem (h : Sound s) (hp : p ∈ s.db.steps) (hsettled : p.state.settled = true) :
    Settled s p := by
  obtain ⟨r, hr, hexec, -⟩ := h.tidy.stepOf p hp
  refine ⟨?_, fun q hq heq => ?_, Or.inl hp, disarmed_of_mem h hp hsettled⟩
  · rw [hexec]
    exact h.tidy.minted r hr
  · rw [hexec] at heq ⊢
    rw [h.tidy.row_unique hq hr heq]

theorem Settled.next (h : Sound s) (hn : s.next a = some s') (hsettled : p.state.settled = true)
    (hp : Settled s p) : Settled s' p := by
  have ht : Tidy (s.move s' a).minted s.db := h.tidy.mono (minted_of_next hn)
  have hc := changes_of_next h hn
  exact
    { minted := minted_of_next hn hp.minted
      sole := hc.induct ht (P := fun d => Sole d p.execution)
        (fun _ _ _ hc hd => hc.sole hp.minted hd) hp.sole
      kept := hp.kept.elim (fun hmem => hc.settled_kept ht hp.minted hmem hsettled)
        fun hgone => Or.inr (hc.gone ht hp.minted hgone)
      disarmed := disarmed_of_next h hn hsettled hp.sole hp.kept hp.disarmed }

/-- The effect of a step starts in a context that executes. -/
theorem Run.effect_due (hn : run.step db clock .effect = some result)
    (hkey : run.call.key = some name) :
    run.call.Armed name ∧ ¬ run.spent clock := by
  simp only [Run.step] at hn
  split at hn
  · next hcall =>
    split at hn
    · next halive =>
      rw [hcall] at hkey ⊢
      refine ⟨Option.some.inj hkey, ?_⟩
      simp only [Run.alive, Bool.and_eq_true, Bool.not_eq_true', decide_eq_true_eq] at halive
      rintro (hs | hs)
      · rw [halive.1.2] at hs
        cases hs
      · exact absurd halive.2 (Nat.not_lt_of_le hs)
    · cases hn
  · cases hn

/-- The effect of a step fails once and then has a value, and the value is journaled. -/
def completeActions : List Action :=
  stepActions (.run [0]) ++ [.run 0 (.decide 0), .run 0 .effect, .run 0 (.settle none 0),
    .run 0 (.write 0 true), .run 0 .readBack, .run 0 .stop, .run 0 (.park 0 true),
    .read someKey, .claim 1 "second" 1000 0 true, .run 1 (.start 0 true),
    .run 1 (.begin .run "step" 0 true), .run 1 (.look (.run [0])), .run 1 .find,
    .run 1 (.decide 0), .run 1 (.write 0 true), .run 1 .readBack, .run 1 .effect,
    .run 1 (.settle (some (some "value")) 0), .run 1 (.write 0 true)]

/-- Its controller is lost, and another comes to the step. -/
def replayActions : List Action :=
  [.tick 1000, .read someKey, .claim 2 "third" 1000 1000 true, .run 2 (.start 1000 true),
    .run 2 (.begin .run "step" 1000 true)]

/-- The step is complete, and the run has come to it. -/
def replays (s s' : System) : Bool :=
  s.db.steps.any (fun p => decide (p.state.settled = true ∧ p.config = .run [0] ∧
    p.resultJson = some "value" ∧ p ∈ s'.db.steps) && (s'.runs[2]?).any fun run =>
      decide (run.identity.toIncarnation = p.execution ∧ run.call = .named .run p.name)) &&
    decide (s'.journaled.length = 2) &&
    (s'.next (.run 2 (.look (.run [0])))).any fun s'' => (s''.runs[2]?).isSome

end Takoserver.Workflow
