import Takoserver.Workflow.Statements

/-!
# What holds around a run

A run whose context may still execute application code has the claim, with a lease that outlasts
the context; and as long as it has the claim nobody else writes its journal, so that the row it
holds in a driver call is the row of the table, without a result.
-/

namespace Takoserver.Workflow

open Relation (ReflTransGen)
open Db (Assignment Outcome)

variable {minted : List String} {db db' : Db} {m : Move} {clock : Instant}

/-! ### The row of a step -/

variable {i : Incarnation} {r : InstanceRow} {p : StepRow} {identity : RunIdentity}

theorem Tidy.readStep_iff (h : Tidy minted db) {key : String} (hr : r ∈ db.instances)
    (hinc : r.toIncarnation = i) :
    db.readStep i key = some p ↔ p ∈ db.steps ∧ p.execution = i ∧ p.name = key := by
  constructor
  · intro hread
    have hp := List.mem_of_find?_eq_some hread
    have hstep := List.find?_some hread
    exact ⟨hp, (isStep_iff h hp hr hinc).mp hstep⟩
  · rintro ⟨hp, hexec, hname⟩
    cases hread : db.readStep i key with
    | none => exact absurd ⟨hexec, hname⟩ (readStep_none hread hp)
    | some q =>
      have hq := List.mem_of_find?_eq_some hread
      obtain ⟨hexec', hname'⟩ := (isStep_iff h hq hr hinc).mp (List.find?_some hread)
      refine congrArg some (Table.eq_of_key h.stepIds hq hp ?_)
      rw [hexec, hname, hexec', hname']

theorem Change.settled_kept (h : Tidy m.minted db) (hc : Change m db db') (hp : p ∈ db.steps)
    (hsettled : p.state.settled = true) : p ∈ db'.steps ∨ Gone db' p.execution := by
  rcases hc.step_forth h hp with hkept | ⟨_, -, hwrite⟩ | hgone
  · exact Or.inl hkept
  · rw [hwrite.unsettled] at hsettled
    cases hsettled
  · exact Or.inr hgone

theorem Changes.settled_kept (h : Tidy m.minted db) (hc : Changes m db db')
    (hi : p.execution.executionId ∈ m.former) (hp : p ∈ db.steps)
    (hsettled : p.state.settled = true) : p ∈ db'.steps ∨ Gone db' p.execution := by
  refine hc.induct h (P := fun d => p ∈ d.steps ∨ Gone d p.execution) ?_ (Or.inl hp)
  rintro d _ hd hc (hp | hgone)
  · exact hc.settled_kept hd hp hsettled
  · exact Or.inr (hc.gone hi hgone)

/-! ### A claim -/

/-- The run has the claim of an instance that has not ended. -/
def Owns (db : Db) (identity : RunIdentity) : Prop :=
  ∃ r ∈ db.instances, r.claimedBy identity = true ∧ r.status.terminal = false

/-- The instance of a run has had its claim. -/
def Below (db : Db) (identity : RunIdentity) : Prop :=
  ∀ r ∈ db.instances, r.toIncarnation = identity.toIncarnation →
    identity.epoch ≤ r.runEpoch ∧ r.deadlineAt = identity.deadlineAt

/-- The run that writes is another. -/
def Move.Elsewhere (m : Move) (identity : RunIdentity) : Prop :=
  ∀ writer, m.writer = some writer → writer.toIncarnation = identity.toIncarnation →
    writer.epoch ≠ identity.epoch

theorem Move.Elsewhere.not_claims (h : m.Elsewhere identity)
    (hclaimed : r.claimedBy identity = true) : ¬ m.Claims r := by
  rintro ⟨writer, hwriter, hclaims⟩
  obtain ⟨hinc, hepoch, -⟩ := claimedBy_iff.mp hclaimed
  obtain ⟨hinc', hepoch', -⟩ := claimedBy_iff.mp hclaims
  exact h writer hwriter (hinc'.symm.trans hinc) (hepoch'.symm.trans hepoch)

theorem Change.below (hc : Change m db db') (hi : identity.executionId ∈ m.former)
    (h : Below db identity) : Below db' identity := by
  intro r' hr' hinc
  rcases hc.row_back hr' with ⟨r, hr, hb⟩ | hfresh
  · obtain ⟨hepoch, hdeadline⟩ := h r hr (hb.incarnation.symm.trans hinc)
    exact ⟨Nat.le_trans hepoch hb.epoch, hb.deadlineAt.trans hdeadline⟩
  · refine absurd ?_ hfresh.former
    rw [hinc]
    exact hi

theorem Changes.below (h : Tidy m.minted db) (hc : Changes m db db')
    (hi : identity.executionId ∈ m.former) (hbelow : Below db identity) : Below db' identity :=
  hc.induct h (P := fun d => Below d identity) (fun _ _ _ hc h => hc.below hi h) hbelow

theorem Change.owns_back (hc : Change m db db') (hbelow : Below db identity) (h : Owns db' identity) :
    Owns db identity := by
  obtain ⟨_, hr', hclaimed, hlive⟩ := h
  rcases hc.row_back hr' with ⟨r, hr, hb⟩ | hfresh
  · have hinc := hb.incarnation.symm.trans (claimedBy_iff.mp hclaimed).1
    exact ⟨r, hr, hb.claimedBy (hbelow r hr hinc).1 hclaimed hlive⟩
  · have howner := (claimedBy_iff.mp hclaimed).2.2
    rw [hfresh.owner] at howner
    cases howner

/-- A claim is never had again. -/
theorem Changes.owns_back (h : Tidy m.minted db) (hc : Changes m db db')
    (hi : identity.executionId ∈ m.former) (hbelow : Below db identity) (howns : Owns db' identity) :
    Owns db identity := by
  have key : Below db' identity ∧ (Owns db' identity → Owns db identity) := by
    refine hc.induct h
      (P := fun d => Below d identity ∧ (Owns d identity → Owns db identity)) ?_ ⟨hbelow, id⟩
    exact fun d d' _ hc hd => ⟨hc.below hi hd.1, fun h => hd.2 (hc.owns_back hd.1 h)⟩
  exact key.2 howns

theorem Journals.not_elsewhere (h : Tidy minted db) (hr : r ∈ db.instances)
    (hclaimed : r.claimedBy identity = true) (hm : m.Elsewhere identity)
    (hp : p.execution = identity.toIncarnation) : ¬ Journals m db p := by
  rintro ⟨q, hq, hexec, -, -, hwho⟩
  have hinc := (claimedBy_iff.mp hclaimed).1
  have hsame : q = r := h.incarnation_unique hq hr (hexec.symm.trans (hp.trans hinc.symm))
  subst hsame
  rcases hwho with ⟨hclaims, -⟩ | ⟨-, -, hwaiting⟩
  · exact hm.not_claims hclaimed hclaims
  · have howner := (claimedBy_iff.mp hclaimed).2.2
    rw [h.parked q hq hwaiting] at howner
    cases howner

theorem Change.readStep_kept (h : Tidy m.minted db) (hc : Change m db db')
    (hbelow : Below db identity) (hm : m.Elsewhere identity) (howns : Owns db' identity)
    (key : String) :
    db'.readStep identity.toIncarnation key = db.readStep identity.toIncarnation key := by
  have h' := h.change hc
  obtain ⟨r, hr, hclaimed, -⟩ := hc.owns_back hbelow howns
  obtain ⟨r', hr', hclaimed', hlive'⟩ := howns
  have hinc := (claimedBy_iff.mp hclaimed).1
  have hinc' := (claimedBy_iff.mp hclaimed').1
  refine Option.ext fun p => ?_
  rw [h'.readStep_iff hr' hinc', h.readStep_iff hr hinc]
  constructor
  · rintro ⟨hp, hexec, hname⟩
    rcases hc.step_back hp with hp | ⟨q, -, hwrite⟩ | ⟨-, -, -, hjournals⟩
    · exact ⟨hp, hexec, hname⟩
    · exact absurd hwrite.journals
        (Journals.not_elsewhere h hr hclaimed hm (hwrite.execution.symm.trans hexec))
    · exact absurd hjournals (Journals.not_elsewhere h hr hclaimed hm hexec)
  · rintro ⟨hp, hexec, hname⟩
    rcases hc.step_forth h hp with hp | ⟨q, -, hwrite⟩ | hgone
    · exact ⟨hp, hexec, hname⟩
    · exact absurd hwrite.journals (Journals.not_elsewhere h hr hclaimed hm hexec)
    · rw [hgone r' hr' (hinc'.trans hexec.symm)] at hlive'
      cases hlive'

/-- **Under a claim, others leave the journal as it is.** -/
theorem Changes.readStep_kept (h : Tidy m.minted db) (hc : Changes m db db')
    (hi : identity.executionId ∈ m.former) (hbelow : Below db identity) (hm : m.Elsewhere identity)
    (howns : Owns db' identity) (key : String) :
    db'.readStep identity.toIncarnation key = db.readStep identity.toIncarnation key := by
  have hchain : Below db' identity ∧ (Owns db' identity →
      db'.readStep identity.toIncarnation key = db.readStep identity.toIncarnation key) := by
    refine hc.induct h (P := fun d => Below d identity ∧ (Owns d identity →
      d.readStep identity.toIncarnation key = db.readStep identity.toIncarnation key)) ?_
      ⟨hbelow, fun _ => rfl⟩
    intro d d' hd hc ⟨hb, ih⟩
    refine ⟨hc.below hi hb, fun howns => ?_⟩
    exact (hc.readStep_kept hd hb hm howns key).trans (ih (hc.owns_back hb howns))
  exact hchain.2 howns

/-- The claim is that of the run, with a lease of which `P` holds. -/
def Leased (db : Db) (identity : RunIdentity) (P : Instant → Prop) : Prop :=
  ∀ r ∈ db.instances, r.toIncarnation = identity.toIncarnation → r.status.terminal = false →
    r.claimedBy identity = true ∧ ∃ untilMs, r.runLeaseUntil = some untilMs ∧ P untilMs

theorem Change.leased (hc : Change m db db') {P : Instant → Prop}
    (hi : identity.executionId ∈ m.former) (hm : m.Elsewhere identity)
    (hlater : ∀ untilMs, P untilMs → m.clock < untilMs) (h : Leased db identity P) :
    Leased db' identity P := by
  intro r' hr' hinc hlive
  rcases hc.row_back hr' with ⟨r, hr, rfl | hs | he⟩ | hfresh
  · exact h r' hr hinc hlive
  · have hlive' : r.status.terminal = false := hs.lives.symm.trans hlive
    obtain ⟨hclaimed, untilMs, hlease, hp⟩ := h r hr (hs.incarnation.symm.trans hinc) hlive'
    have hleased : r.leased m.clock = true := by
      rw [InstanceRow.leased, hlease]
      exact decide_eq_true (hlater untilMs hp)
    obtain ⟨hepoch, howner, hlease'⟩ := hs.kept hlive' hleased (hm.not_claims hclaimed)
    refine ⟨?_, untilMs, hlease'.trans hlease, hp⟩
    obtain ⟨-, hepoch', howner'⟩ := claimedBy_iff.mp hclaimed
    exact claimedBy_iff.mpr ⟨hinc, hepoch.trans hepoch', howner.trans howner'⟩
  · rw [he.ends] at hlive
    cases hlive
  · refine absurd ?_ hfresh.former
    rw [hinc]
    exact hi

theorem Changes.leased (h : Tidy m.minted db) (hc : Changes m db db') {P : Instant → Prop}
    (hi : identity.executionId ∈ m.former) (hm : m.Elsewhere identity)
    (hlater : ∀ untilMs, P untilMs → m.clock < untilMs) (hleased : Leased db identity P) :
    Leased db' identity P :=
  hc.induct h (P := fun d => Leased d identity P)
    (fun _ _ _ hc h => hc.leased hi hm hlater h) hleased

/-! ### A driver call -/

/-- The row is the one of the table, and has no result. -/
def Held (db : Db) (i : Incarnation) (key : String) (row : StepRow) : Prop :=
  db.readStep i key = some row ∧ row.state.settled = false

/-- What the row that is read back has to be. -/
def Then.Fits : Then → StepRow → Prop
  | .hold, p => p.state.settled = false
  | .effect, p => p.state.settled = false ∧ p.config.kind = .run
  | _, _ => True

/-- A retry is one that the plan of the step has. -/
def Planned (assignment : Assignment) (row : StepRow) : Prop :=
  ∀ attempt wakeAt, assignment = .retry attempt wakeAt →
    attempt = row.retryProgress.getD 0 + 1 ∧
      ∃ delays, row.config = .run delays ∧ row.retryProgress.getD 0 < delays.length

/-- What a run that has the claim knows of the step of its call. -/
def Call.Fits (db : Db) (i : Incarnation) : Call → Prop
  | .prepared key _ => ∀ p, db.readStep i key = some p → p.state.settled = false
  | .holds key row => Held db i key row
  | .due key row => Held db i key row ∧ row.config.kind = .run
  | .running key row => Held db i key row ∧ row.config.kind = .run
  | .taking key row _ => Held db i key row ∧ row.config.kind = .wait
  | .unmet key row _ => Held db i key row
  | .writing key row assignment next =>
      Held db i key row ∧ next.Fits (assignment.apply row) ∧ Planned assignment row
  | .wrote key next => ∀ p, db.readStep i key = some p → next.Fits p
  | _ => True

/-- What a call knows, it knows from the rows that it can read. -/
theorem Call.Fits.congr {call : Call} (hread : ∀ key, db'.readStep i key = db.readStep i key)
    (h : call.Fits db i) :
    call.Fits db' i := by
  cases call <;> simp only [Call.Fits, Held, hread] at h ⊢ <;> exact h

/-- What stands in a call whoever has the claim: a run parks an open instance, and throws what it
has journaled. -/
def Call.Stands (db : Db) (i : Incarnation) : Call → Prop
  | .parking _ status _ => status = .sleeping ∨ status = .waiting
  | .writing _ _ assignment next => ∀ reason, next = .throw reason → assignment = .errored reason
  | .wrote key next => ∀ reason, next = .throw reason →
      Gone db i ∨ ∃ p ∈ db.steps, p.execution = i ∧ p.name = key ∧ p.state = .errored ∧
        p.error = some reason
  | _ => True

theorem Changes.stands (h : Tidy m.minted db) (hc : Changes m db db')
    (hi : i.executionId ∈ m.former) {call : Call} (hstands : call.Stands db i) :
    call.Stands db' i := by
  cases call with
  | wrote =>
    intro reason hreason
    rcases hstands reason hreason with hgone | ⟨p, hp, hexec, hname, hstate, herror⟩
    · exact Or.inl (hc.gone h hi hgone)
    · have hsettled : p.state.settled = true := by
        rw [hstate]
        rfl
      rcases hc.settled_kept h (by rw [hexec]; exact hi) hp hsettled with hkept | hgone
      · exact Or.inr ⟨p, hkept, hexec, hname, hstate, herror⟩
      · rw [hexec] at hgone
        exact Or.inl hgone
  | _ => exact hstands

/-! ### What holds around a run -/

/-- The context of the run executes nothing any more. -/
def Run.spent (run : Run) (clock : Instant) : Prop :=
  run.stopped = true ∨ run.contextUntil ≤ clock

/-- The leases that the context of the run rests on. -/
def Run.Covers (run : Run) (untilMs : Instant) : Prop :=
  run.contextUntil ≤ untilMs ∧ ∀ next, run.renewing = some next → next ≤ untilMs

/-- What holds around a run. -/
structure Hosted (minted : List String) (db : Db) (clock : Instant) (run : Run) : Prop where
  minted : run.identity.executionId ∈ minted
  below : Below db run.identity
  context : run.contextUntil ≤ min run.identity.deadlineAt (run.sampled + run.leaseMs)
  renewal : ∀ next, run.renewing = some next →
    next ≤ min run.identity.deadlineAt (run.sampled + run.leaseMs)
  /-- A context that executes has the claim, and the lease outlasts it. -/
  leased : ¬ run.spent clock → Leased db run.identity run.Covers
  /-- A run that has ended executes nothing, unless its instance has ended. -/
  ended : run.ended = true → run.spent clock ∨ Gone db run.identity.toIncarnation
  call : Owns db run.identity → run.call.Fits db run.identity.toIncarnation
  stands : run.call.Stands db run.identity.toIncarnation

/-- **What others do keeps what holds around a run.** -/
theorem Hosted.frame {run : Run} (h : Hosted m.former db m.clock run) (ht : Tidy m.minted db)
    (hc : Changes m db db') (hsub : m.former ⊆ m.minted) (hm : m.Elsewhere run.identity) :
    Hosted m.minted db' m.clock run where
  minted := hsub h.minted
  below := hc.below ht h.minted h.below
  context := h.context
  renewal := h.renewal
  leased := by
    intro hspent
    have hlater : m.clock < run.contextUntil := Nat.lt_of_not_le fun hle => hspent (Or.inr hle)
    exact hc.leased ht h.minted hm (fun untilMs hu => Nat.lt_of_lt_of_le hlater hu.1)
      (h.leased hspent)
  ended := fun hended => (h.ended hended).imp_right (hc.gone ht h.minted)
  call := by
    intro howns
    refine Call.Fits.congr (hc.readStep_kept ht h.minted h.below hm howns) (h.call ?_)
    exact hc.owns_back ht h.minted h.below howns
  stands := hc.stands ht h.minted h.stands

theorem Hosted.later {run : Run} {clock' : Instant} (h : Hosted minted db clock run)
    (hle : clock ≤ clock') : Hosted minted db clock' run := by
  have hspent : run.spent clock → run.spent clock' := Or.imp_right fun hs => Nat.le_trans hs hle
  exact
    { h with
      leased := fun hnot => h.leased fun hs => hnot (hspent hs)
      ended := fun hended => (h.ended hended).imp_left hspent }

end Takoserver.Workflow
