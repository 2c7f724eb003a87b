import Takoserver.Workflow.Steps

/-!
# What holds in every state

The tables are tidy, and around every run holds what `Hosted` says.  Each action makes changes
only, as the *move* of the action: who writes, when, and which events are consumed by it.
-/

namespace Takoserver.Workflow

variable {minted : List String} {db db' : Db} {s s' : System} {a : Action}

/-! ### Moves -/

/-- The run that an action is a step of. -/
def Action.writer (s : System) : Action → Option RunIdentity
  | .run i _ => (s.runs[i]?).map Run.identity
  | _ => none

/-- The action journals a step. -/
def Action.works : Action → Bool
  | .run _ step => step.works
  | _ => false

/-- The action parks its run. -/
def Action.parks : Action → Bool
  | .run _ step => step.parks
  | _ => false

/-- The action may deliver an event to a wait. -/
def Action.delivers : Action → Bool
  | .sendStep _ _ => true
  | _ => false

/-- What an action may have changed. -/
def System.move (s s' : System) (a : Action) : Move where
  former := s.minted
  minted := s'.minted
  clock := s.clock
  writer := a.writer s
  taken := (s'.consumed.drop s.consumed.length).map fun c => c.1
  works := a.works
  parks := a.parks
  delivers := a.delivers

theorem Tidy.mono {minted' : List String} (h : Tidy minted db) (hsub : minted ⊆ minted') :
    Tidy minted' db :=
  { h with minted := fun r hr => hsub (h.minted r hr) }

theorem minted_of_next (hn : s.next a = some s') : s.minted ⊆ s'.minted := by
  cases a <;> simp only [System.next, System.caller] at hn
  case create =>
    split at hn
    · cases hn
      exact List.subset_cons_self _ _
    · cases hn
  case sendStep =>
    split at hn
    · cases hn
    · obtain ⟨_, -, rfl⟩ := Option.map_eq_some_iff.mp hn
      exact List.Subset.refl _
  case run =>
    split at hn
    · cases hn
    · obtain ⟨_, -, rfl⟩ := Option.map_eq_some_iff.mp hn
      exact List.Subset.refl _
  all_goals (repeat' split at hn) <;> cases hn <;> exact List.Subset.refl _

theorem clock_of_next (hn : s.next a = some s') : s.clock ≤ s'.clock := by
  cases a <;> simp only [System.next, System.caller] at hn
  case tick =>
    cases hn
    exact Nat.le_add_right _ _
  case sendStep =>
    split at hn
    · cases hn
    · obtain ⟨_, -, rfl⟩ := Option.map_eq_some_iff.mp hn
      exact Nat.le_refl _
  case run =>
    split at hn
    · cases hn
    · obtain ⟨_, -, rfl⟩ := Option.map_eq_some_iff.mp hn
      exact Nat.le_refl _
  all_goals (repeat' split at hn) <;> cases hn <;> exact Nat.le_refl _

theorem Run.step_identity {run : Run} {clock : Instant} {step : Run.Step} {result : Run.Result}
    (hn : run.step db clock step = some result) : result.run.identity = run.identity := by
  cases Run.stepped hn with
  | start _ _ _ hrun => rcases hrun with rfl | rfl <;> rfl
  | look =>
    obtain ⟨_, _, heq⟩ := look_eq
    rw [heq]
  | readBack =>
    obtain ⟨_, _, heq⟩ := readBack_eq
    rw [heq]
  | _ => rfl

theorem Send.step_event {send : Send} {live : Bool} {result : Db × Send}
    (hn : send.step db live = some result) : result.2.event = send.event := by
  unfold Send.step at hn
  (repeat' split at hn) <;> cases hn <;> rfl

/-! ### The invariant -/

/-- What holds in every state. -/
structure Sound (s : System) : Prop where
  tidy : Tidy s.minted s.db
  seen : ∀ current ∈ s.seen, current.executionId ∈ s.minted ∧
    ∀ r ∈ s.db.instances, r.toIncarnation = current.toIncarnation →
      r.deadlineAt = current.deadlineAt
  /-- The epochs of an incarnation are claimed one after the other. -/
  order : (s.runs.map Run.identity).Pairwise fun former later =>
    former.toIncarnation = later.toIncarnation → former.epoch < later.epoch
  runs : ∀ run ∈ s.runs, Hosted s.minted s.db s.clock run
  sends : ∀ send ∈ s.sends, send.event.timestamp ≤ s.clock

/-- Two runs of one incarnation have claimed different epochs. -/
theorem Sound.epoch_ne (h : Sound s) {i j : ℕ} {run run' : Run} (hi : s.runs[i]? = some run)
    (hj : s.runs[j]? = some run') (hij : i ≠ j)
    (hinc : run.identity.toIncarnation = run'.identity.toIncarnation) :
    run.identity.epoch ≠ run'.identity.epoch := by
  obtain ⟨hilt, rfl⟩ := List.getElem?_eq_some_iff.mp hi
  obtain ⟨hjlt, rfl⟩ := List.getElem?_eq_some_iff.mp hj
  have horder := List.pairwise_iff_getElem.mp h.order
  rcases Nat.lt_or_gt_of_ne hij with hlt | hlt
  · have hepoch := horder i j (by simpa using hilt) (by simpa using hjlt) hlt
    simp only [List.getElem_map] at hepoch
    exact Nat.ne_of_lt (hepoch hinc)
  · have hepoch := horder j i (by simpa using hjlt) (by simpa using hilt) hlt
    simp only [List.getElem_map] at hepoch
    exact Nat.ne_of_gt (hepoch hinc.symm)

section

variable (hn : s.next a = some s')

include hn

/-- What an action does to the runs: it is a step of one, or a claim, or none of theirs. -/
theorem runs_of_next :
    (∃ i step run result, a = .run i step ∧ s.runs[i]? = some run ∧
        run.step s.db s.clock step = some result ∧ s'.db = result.db ∧ s'.clock = s.clock ∧
        s'.runs = s.runs.set i result.run) ∨
      (∃ current ∈ s.seen, ∃ owner leaseMs timestamp live, timestamp ≤ s.clock ∧
        System.claims current leaseMs timestamp = true ∧
        s.db.instances.any (Db.claimable current timestamp live) = true ∧
        s'.db = s.db.claim current owner (System.leaseUntil current leaseMs timestamp) timestamp live ∧
        s'.clock = s.clock ∧ s'.minted = s.minted ∧ a.writer s = none ∧
        s'.runs = s.runs ++ [System.claimed current owner leaseMs timestamp]) ∨
      s'.runs = s.runs ∧ a.writer s = none := by
  cases a <;> simp only [System.next, System.caller] at hn
  case claim owner leaseMs timestamp live =>
    split at hn
    · cases hn
    next current hcurrent =>
    split at hn
    · next hc =>
      cases hn
      by_cases hany : s.db.instances.any (Db.claimable current timestamp live) = true
      · refine Or.inr (Or.inl ⟨current, List.mem_of_getElem? hcurrent, owner, leaseMs, timestamp,
          live, hc.1, hc.2, hany, rfl, rfl, rfl, rfl, if_pos hany⟩)
      · exact Or.inr (Or.inr ⟨if_neg hany, rfl⟩)
    · cases hn
  case sendStep =>
    split at hn
    · cases hn
    · obtain ⟨_, -, rfl⟩ := Option.map_eq_some_iff.mp hn
      exact Or.inr (Or.inr ⟨rfl, rfl⟩)
  case run i step =>
    split at hn
    · cases hn
    · next run hrun =>
      obtain ⟨result, hstep, rfl⟩ := Option.map_eq_some_iff.mp hn
      exact Or.inl ⟨i, step, run, result, rfl, hrun, hstep, rfl, rfl, rfl⟩
  all_goals
    repeat' split at hn
    all_goals cases hn
    all_goals exact Or.inr (Or.inr ⟨rfl, rfl⟩)

theorem seen_mem_of_next {current : InstanceRow} (hcurrent : current ∈ s'.seen) :
    current ∈ s.seen ∨ current ∈ s.db.instances ∧ s'.db = s.db := by
  cases a <;> simp only [System.next, System.caller] at hn
  case read =>
    split at hn
    · cases hn
    · next hread =>
      cases hn
      rcases Table.mem_insert.mp hcurrent with hold | rfl
      · exact Or.inl hold
      · exact Or.inr ⟨(Table.find_some hread).1, rfl⟩
  case sendStep =>
    split at hn
    · cases hn
    · obtain ⟨_, -, rfl⟩ := Option.map_eq_some_iff.mp hn
      exact Or.inl hcurrent
  case run =>
    split at hn
    · cases hn
    · obtain ⟨_, -, rfl⟩ := Option.map_eq_some_iff.mp hn
      exact Or.inl hcurrent
  all_goals (repeat' split at hn) <;> cases hn <;> exact Or.inl hcurrent

/-- What an action does to the senders: it is a step of one, or a new one, or none of theirs. -/
theorem senders_of_next :
    (∃ k send live result, a = .sendStep k live ∧ s.sends[k]? = some send ∧
        send.step s.db live = some result ∧ s'.db = result.1 ∧ s'.minted = s.minted ∧
        s'.sends = s.sends.set k result.2) ∨
      a.delivers = false ∧ ∀ send ∈ s'.sends, send ∈ s.sends ∨
        ∃ key type payloadJson v3, a = .send key type payloadJson v3 ∧
          send = { key := key, event := ⟨type, payloadJson, s.clock⟩, v3 := v3 } := by
  cases a <;> simp only [System.next, System.caller] at hn
  case send key type payloadJson v3 =>
    cases hn
    refine Or.inr ⟨rfl, fun send hsend => ?_⟩
    rcases Table.mem_insert.mp hsend with hold | rfl
    · exact Or.inl hold
    · exact Or.inr ⟨key, type, payloadJson, v3, rfl, rfl⟩
  case sendStep k live =>
    split at hn
    · cases hn
    · next send hsend =>
      obtain ⟨result, hstep, rfl⟩ := Option.map_eq_some_iff.mp hn
      exact Or.inl ⟨k, send, live, result, rfl, hsend, hstep, rfl, rfl, rfl⟩
  case run =>
    split at hn
    · cases hn
    · obtain ⟨_, -, rfl⟩ := Option.map_eq_some_iff.mp hn
      exact Or.inr ⟨rfl, fun send hsend => Or.inl hsend⟩
  all_goals
    (repeat' split at hn) <;> cases hn <;> exact Or.inr ⟨rfl, fun send hsend => Or.inl hsend⟩

theorem sends_of_next (h : ∀ send ∈ s.sends, send.event.timestamp ≤ s.clock) :
    ∀ send ∈ s'.sends, send.event.timestamp ≤ s'.clock := by
  intro send hsend
  refine Nat.le_trans ?_ (clock_of_next hn)
  rcases senders_of_next hn with ⟨k, before, _, _, -, hbefore, hstep, -, -, hsends⟩ |
    ⟨-, hsends⟩
  · rw [hsends] at hsend
    rcases List.mem_or_eq_of_mem_set hsend with hold | rfl
    · exact h send hold
    · rw [Send.step_event hstep]
      exact h before (List.mem_of_getElem? hbefore)
  · rcases hsends send hsend with hold | ⟨_, _, _, _, -, rfl⟩
    · exact h send hold
    · exact Nat.le_refl _

end

/-- **Every action makes elementary changes only.** -/
theorem changes_of_next (h : Sound s) (hn : s.next a = some s') :
    Changes (s.move s' a) s.db s'.db := by
  have ht : Tidy (s.move s' a).minted s.db := h.tidy.mono (minted_of_next hn)
  cases a <;> simp only [System.next, System.caller] at hn
  case tick =>
    cases hn
    exact .refl
  case create =>
    split at hn
    · next hc =>
      cases hn
      refine changes_create (fun r hr heq => hc.2 ?_) hc.2 List.mem_cons_self hc.1
      rw [← heq]
      exact h.tidy.minted r hr
    · cases hn
  case settleExpired =>
    split at hn
    · cases hn
      exact change_settleExpired.one
    · cases hn
  case terminate =>
    split at hn
    · cases hn
      exact (change_terminate ht).one
    · cases hn
  case read =>
    split at hn
    · cases hn
    · cases hn
      exact .refl
  case requestTermination =>
    split at hn
    · cases hn
    · split at hn
      · cases hn
        exact change_requestTermination.one
      · cases hn
  case clearTerminalTermination =>
    split at hn
    · cases hn
    · split at hn
      · cases hn
        exact change_clearTerminalTermination.one
      · cases hn
  case finalizeTermination =>
    split at hn
    · cases hn
    · split at hn
      · cases hn
        exact (change_finalizeTermination ht).one
      · cases hn
  case sweep =>
    split at hn
    · next hc =>
      cases hn
      exact (change_sweep hc).one
    · cases hn
  case claim =>
    split at hn
    · cases hn
    · split at hn
      · next hc =>
        cases hn
        exact (change_claim ht hc.1).one
      · cases hn
  case send =>
    cases hn
    exact .refl
  case sendStep =>
    split at hn
    · cases hn
    next send hsend =>
    obtain ⟨_, hstep, rfl⟩ := Option.map_eq_some_iff.mp hn
    have hclock := h.sends send (List.mem_of_getElem? hsend)
    unfold Send.step at hstep
    split at hstep
    · cases hstep
      exact change_settleExpired.one
    · split at hstep
      · cases hstep
        exact .refl
      · cases hstep
        exact .refl
    · split at hstep
      · cases hstep
        exact .refl
      · cases hstep
        exact changes_sendLegacy hclock
    · cases hstep
      exact changes_sendV3 ht rfl rfl hclock
    · split at hstep
      · cases hstep
        exact .refl
      · cases hstep
        exact .refl
    · cases hstep
    · cases hstep
  -- what a run does was shown of its steps
  case run i _ =>
    split at hn
    · cases hn
    · next run hrun =>
      obtain ⟨_, hstep, rfl⟩ := Option.map_eq_some_iff.mp hn
      refine (h.runs run (List.mem_of_getElem? hrun)).changes ht hstep ?_ id id ?_
      · show (s.runs[i]?).map Run.identity = _
        rw [hrun]
        rfl
      · intro e name hconsumed
        simp [System.move, hconsumed]

/-! ### The step lemma -/

/-- A run has its claim when it starts. -/
theorem hosted_claimed (h : Sound s) {current : InstanceRow} {owner : String} {leaseMs : ℕ}
    {timestamp : Instant} {live : Bool} (hseen : current ∈ s.seen)
    (hany : s.db.instances.any (Db.claimable current timestamp live) = true) :
    Hosted s.minted (s.db.claim current owner (System.leaseUntil current leaseMs timestamp) timestamp
      live) s.clock (System.claimed current owner leaseMs timestamp) := by
  obtain ⟨hminted, hdeadline⟩ := h.seen current hseen
  obtain ⟨r, hr, hc⟩ := List.any_eq_true.mp hany
  obtain ⟨hinc, -⟩ := claimable_iff.mp hc
  -- the claimed row is the only one of the incarnation
  have hrow : ∀ r' ∈ (s.db.claim current owner (System.leaseUntil current leaseMs timestamp)
      timestamp live).instances, r'.toIncarnation = current.toIncarnation →
        r'.claimedBy (System.claimed current owner leaseMs timestamp).identity = true ∧
          r'.deadlineAt = current.deadlineAt ∧
          r'.runLeaseUntil = some (System.leaseUntil current leaseMs timestamp) := by
    intro r' hr' hinc'
    rcases mem_updateInstances.mp hr' with ⟨hold, hnot⟩ | ⟨q, hq, hcq, rfl⟩
    · rw [h.tidy.incarnation_unique hold hr (hinc'.trans hinc.symm), hc] at hnot
      cases hnot
    · obtain ⟨-, hepoch', -⟩ := claimable_iff.mp hcq
      exact ⟨claimedBy_iff.mpr ⟨hinc', congrArg (· + 1) hepoch', rfl⟩, hdeadline q hq hinc', rfl⟩
  exact
    { minted := hminted
      below := fun r' hr' hinc' =>
        ⟨Nat.le_of_eq (claimedBy_iff.mp (hrow r' hr' hinc').1).2.1.symm, (hrow r' hr' hinc').2.1⟩
      context := Nat.le_refl _
      renewal := fun _ h => by cases h
      leased := fun _ r' hr' hinc' _ =>
        ⟨(hrow r' hr' hinc').1, _, (hrow r' hr' hinc').2.2, Nat.le_refl _, fun _ h => by cases h⟩
      ended := fun h => by cases h
      call := fun _ => trivial
      stands := trivial }

theorem Change.dated {m : Move} (hc : Change m db db') {i : Incarnation} {deadlineAt : Instant}
    (hi : i.executionId ∈ m.former)
    (h : ∀ r ∈ db.instances, r.toIncarnation = i → r.deadlineAt = deadlineAt) :
    ∀ r ∈ db'.instances, r.toIncarnation = i → r.deadlineAt = deadlineAt := by
  intro r' hr' hinc
  rcases hc.row_back hr' with ⟨r, hr, hb⟩ | hfresh
  · exact hb.deadlineAt.trans (h r hr (hb.incarnation.symm.trans hinc))
  · refine absurd ?_ hfresh.former
    rw [hinc]
    exact hi

section

variable (h : Sound s) (hn : s.next a = some s')

include h hn

theorem seen_of_next :
    ∀ current ∈ s'.seen, current.executionId ∈ s'.minted ∧
      ∀ r ∈ s'.db.instances, r.toIncarnation = current.toIncarnation →
        r.deadlineAt = current.deadlineAt := by
  have hsub := minted_of_next hn
  have hc := changes_of_next h hn
  intro current hcurrent
  rcases seen_mem_of_next hn hcurrent with hseen | ⟨hr, hdb⟩
  · obtain ⟨hminted, hdated⟩ := h.seen current hseen
    refine ⟨hsub hminted, ?_⟩
    exact hc.induct (h.tidy.mono hsub) (P := fun d => ∀ r ∈ d.instances,
      r.toIncarnation = current.toIncarnation → r.deadlineAt = current.deadlineAt)
      (fun _ _ _ hc h => hc.dated hminted h) hdated
  · refine ⟨hsub (h.tidy.minted current hr), fun r hr' hinc => ?_⟩
    rw [hdb] at hr'
    rw [h.tidy.incarnation_unique hr' hr hinc]

theorem order_of_next :
    (s'.runs.map Run.identity).Pairwise fun former later =>
      former.toIncarnation = later.toIncarnation → former.epoch < later.epoch := by
  rcases runs_of_next hn with ⟨i, _, run, _, -, hrun, hstep, -, -, hruns⟩ |
    ⟨current, -, _, _, _, _, -, -, hany, -, -, -, -, hruns⟩ | ⟨hruns, -⟩
  · have hsame : s'.runs.map Run.identity = s.runs.map Run.identity := by
      obtain ⟨hlt, heq⟩ := List.getElem?_eq_some_iff.mp hrun
      rw [hruns, List.map_set, Run.step_identity hstep, ← heq]
      have hlt' : i < (s.runs.map Run.identity).length := by simpa using hlt
      rw [← List.getElem_map Run.identity (h := hlt'), List.set_getElem_self]
    rw [hsame]
    exact h.order
  · rw [hruns, List.map_append, List.pairwise_append]
    refine ⟨h.order, List.pairwise_singleton _ _, ?_⟩
    intro former hformer later hlater hinc
    obtain ⟨run, hrun, rfl⟩ := List.mem_map.mp hformer
    rw [List.map_cons, List.map_nil, List.mem_singleton] at hlater
    subst hlater
    obtain ⟨r, hr, hc⟩ := List.any_eq_true.mp hany
    obtain ⟨hinc', _, -⟩ := claimable_iff.mp hc
    have hbelow := ((h.runs run hrun).below r hr (hinc'.trans hinc.symm)).1
    show run.identity.epoch < current.runEpoch + 1
    omega
  · rw [hruns]
    exact h.order

theorem hosted_of_next :
    ∀ run ∈ s'.runs, Hosted s'.minted s'.db s'.clock run := by
  have hsub := minted_of_next hn
  have ht : Tidy (s.move s' a).minted s.db := h.tidy.mono hsub
  have hc := changes_of_next h hn
  have hclock := clock_of_next hn
  -- a run that the action is not a step of
  have hothers : ∀ run ∈ s.runs, (s.move s' a).Elsewhere run.identity →
      Hosted s'.minted s'.db s'.clock run := fun run hrun hm =>
    Hosted.later (Hosted.frame (m := s.move s' a) (h.runs run hrun) ht hc hsub hm) hclock
  intro run' hrun'
  rcases runs_of_next hn with ⟨i, step, run, _, rfl, hrun, hstep, hdb, hclock', hruns⟩ |
    ⟨_, hseen, _, _, _, _, -, -, hany, hdb, hclock', hminted, hwriter,
      hruns⟩ |
    ⟨hruns, hwriter⟩
  · have hwriter : (s.move s' (.run i step)).writer = some run.identity := by
      show (s.runs[i]?).map Run.identity = _
      rw [hrun]
      rfl
    rw [hruns] at hrun'
    obtain ⟨j, hj⟩ := List.getElem?_of_mem hrun'
    by_cases hij : i = j
    · subst hij
      rw [List.getElem?_set_self (List.getElem?_eq_some_iff.mp hrun).1] at hj
      cases hj
      rw [hdb] at hc ⊢
      rw [hclock']
      exact Hosted.step (m := s.move s' (.run i step)) (h.runs run (List.mem_of_getElem? hrun)) ht
        hsub hc hstep hwriter id
    · rw [List.getElem?_set_ne hij] at hj
      refine hothers run' (List.mem_of_getElem? hj) fun writer heq hinc => ?_
      rw [hwriter] at heq
      cases heq
      exact h.epoch_ne hrun hj hij hinc
  · rw [hruns] at hrun'
    rcases List.mem_append.mp hrun' with hold | hnew
    · refine hothers run' hold fun writer heq => ?_
      change a.writer s = some writer at heq
      rw [hwriter] at heq
      cases heq
    · rw [List.mem_singleton.mp hnew, hdb, hclock', hminted]
      exact hosted_claimed h hseen hany
  · rw [hruns] at hrun'
    refine hothers run' hrun' fun writer heq => ?_
    change a.writer s = some writer at heq
    rw [hwriter] at heq
    cases heq

/-- **The step lemma.** -/
theorem Sound.next : Sound s' where
  tidy := (h.tidy.mono (minted_of_next hn)).changes (m := s.move s' a) (changes_of_next h hn)
  seen := seen_of_next h hn
  order := order_of_next h hn
  runs := hosted_of_next h hn
  sends := sends_of_next hn h.sends

end

/-- **What holds in every reachable state.** -/
theorem sound_of_reachable (h : workflows.Reachable s) : Sound s := by
  refine Machine.ReachVia.invariant (P := Sound) ?_ (fun s a s' h _ hn => h.next hn) h
  exact
    { tidy := by
        constructor <;> simp [workflows]
      seen := fun _ h => by cases h
      order := List.Pairwise.nil
      runs := fun _ h => by cases h
      sends := fun _ h => by cases h }

end Takoserver.Workflow
