import Mathlib

/-!
# Machines and the states their runs reach

A machine is an initial state and a partial step function: `next s a` is the
state after action `a`, or `none` when `a` is not enabled in `s`.  Everything
nondeterministic about a system (who moves, what the clock reads, what an
oracle answers) is carried by the action, so one interleaving of any number of
parties is one list of actions.

A run may be restricted by a condition on each of its steps: `ReachVia ok` is
what the runs reach all of whose steps satisfy `ok`, and `Reachable` is the
unrestricted case.
-/

/-- A machine: an initial state, and the effect of an action where it is enabled. -/
structure Machine (σ α : Type*) where
  /-- The state every run starts in. -/
  init : σ
  /-- The state after an action, or `none` when the action is not enabled. -/
  next : σ → α → Option σ

namespace Machine

variable {σ α : Type*} (M : Machine σ α)

/-- One permitted step of a machine. -/
def StepVia (ok : σ → α → Prop) (s s' : σ) : Prop := ∃ a, ok s a ∧ M.next s a = some s'

/-- Some action leads from one state to the other. -/
def Step (s s' : σ) : Prop := M.StepVia (fun _ _ => True) s s'

/-- `s'` is reached from `s` by finitely many permitted steps. -/
def PathVia (ok : σ → α → Prop) : σ → σ → Prop := Relation.ReflTransGen (M.StepVia ok)

/-- `s'` is reached from `s` by finitely many steps. -/
def Path (s s' : σ) : Prop := M.PathVia (fun _ _ => True) s s'

/-- A run all of whose steps satisfy `ok` reaches `s`. -/
def ReachVia (ok : σ → α → Prop) (s : σ) : Prop := M.PathVia ok M.init s

/-- Some run reaches `s`. -/
def Reachable (s : σ) : Prop := M.ReachVia (fun _ _ => True) s

variable {M}

theorem step_of_next {s s' : σ} {a : α} (h : M.next s a = some s') : M.Step s s' :=
  ⟨a, trivial, h⟩

variable {ok : σ → α → Prop}

theorem PathVia.refl (s : σ) : M.PathVia ok s s := Relation.ReflTransGen.refl

theorem PathVia.trans {s t u : σ} (h : M.PathVia ok s t)
    (h' : M.PathVia ok t u) : M.PathVia ok s u :=
  Relation.ReflTransGen.trans h h'

theorem ReachVia.path {s t : σ} (h : M.ReachVia ok s)
    (h' : M.PathVia ok s t) : M.ReachVia ok t :=
  PathVia.trans h h'

theorem ReachVia.next {s s' : σ} {a : α} (h : M.ReachVia ok s)
    (ha : ok s a) (hn : M.next s a = some s') : M.ReachVia ok s' :=
  Relation.ReflTransGen.tail h ⟨a, ha, hn⟩

/-- What permitted runs reach, runs reach. -/
theorem ReachVia.reachable {s : σ} (h : M.ReachVia ok s) : M.Reachable s :=
  Relation.ReflTransGen.mono (fun _ _ ⟨a, _, hn⟩ => ⟨a, trivial, hn⟩) _ _ h

theorem Reachable.next {s s' : σ} {a : α} (h : M.Reachable s)
    (hn : M.next s a = some s') : M.Reachable s' :=
  ReachVia.next h trivial hn

variable {P : σ → Prop}

/-- What every permitted step keeps, every path of permitted steps keeps. -/
theorem PathVia.invariant
    (hstep : ∀ s a s', P s → ok s a → M.next s a = some s' → P s')
    {s t : σ} (h : M.PathVia ok s t) (hs : P s) : P t := by
  induction h with
  | refl => exact hs
  | tail _ hst ih =>
    obtain ⟨a, ha, hn⟩ := hst
    exact hstep _ a _ ih ha hn

/-- **The invariant rule.**  What holds initially and is kept by each permitted
step holds of every state the permitted runs reach. -/
theorem ReachVia.invariant (hinit : P M.init)
    (hstep : ∀ s a s', P s → ok s a → M.next s a = some s' → P s')
    {s : σ} (h : M.ReachVia ok s) : P s :=
  PathVia.invariant hstep h hinit

/-- The invariant rule where each step may also use that its state was reached:
one invariant is proved on top of another. -/
theorem Reachable.invariant (hinit : P M.init)
    (hstep : ∀ s a s', M.Reachable s → P s → M.next s a = some s' → P s')
    {s : σ} (h : M.Reachable s) : P s := by
  have key : M.Reachable s ∧ P s := by
    refine ReachVia.invariant (P := fun s => M.Reachable s ∧ P s) ⟨PathVia.refl _, hinit⟩ ?_ h
    rintro s a s' ⟨hr, hp⟩ - hn
    exact ⟨hr.next hn, hstep s a s' hr hp hn⟩
  exact key.2

/-- What every step from a reached state keeps, the rest of the run keeps. -/
theorem Path.invariant
    (hstep : ∀ s a s', M.Reachable s → P s → M.next s a = some s' → P s')
    {s t : σ} (hr : M.Reachable s) (h : M.Path s t) (hs : P s) : P t := by
  have key : M.Reachable t ∧ P t := by
    refine PathVia.invariant (P := fun s => M.Reachable s ∧ P s) ?_ h ⟨hr, hs⟩
    rintro s a s' ⟨hr, hp⟩ - hn
    exact ⟨hr.next hn, hstep s a s' hr hp hn⟩
  exact key.2

/-- What holds at one state of a run and not at a later one, some step between them ends. -/
theorem PathVia.exists_step {s t : σ} (h : M.PathVia ok s t)
    (hs : P s) (ht : ¬P t) :
    ∃ u a u', M.PathVia ok s u ∧ ok u a ∧ M.next u a = some u' ∧ M.PathVia ok u' t ∧ P u ∧ ¬P u' := by
  induction h with
  | refl => exact absurd hs ht
  | @tail b c hsb hbc ih =>
    by_cases hb : P b
    · obtain ⟨a, ha, hn⟩ := hbc
      exact ⟨b, a, c, hsb, ha, hn, PathVia.refl c, hb, ht⟩
    · obtain ⟨u, a, u', hsu, ha, hn, hub, hu, hu'⟩ := ih hb
      exact ⟨u, a, u', hsu, ha, hn, Relation.ReflTransGen.tail hub hbc, hu, hu'⟩

/-! ### Concrete runs -/

/-- Run a list of actions. -/
def run (M : Machine σ α) : σ → List α → Option σ
  | s, [] => some s
  | s, a :: as => (M.next s a).bind fun s' => M.run s' as

theorem path_of_run : ∀ (as : List α) (s t : σ), M.run s as = some t → M.Path s t := by
  intro as
  induction as with
  | nil =>
    intro s t h
    simp only [run, Option.some.injEq] at h
    subst h
    exact PathVia.refl s
  | cons a as ih =>
    intro s t h
    simp only [run, Option.bind_eq_some_iff] at h
    obtain ⟨s', hn, hr⟩ := h
    exact Relation.ReflTransGen.head (step_of_next hn) (ih s' t hr)

/-- A list of actions enabled from the start reaches the state it computes. -/
theorem reachable_of_run {as : List α} {s : σ} (h : M.run M.init as = some s) : M.Reachable s :=
  path_of_run as M.init s h

theorem exists_reachable_of_run (as : List α) (p : σ → Bool)
    (h : (M.run M.init as).any p = true) : ∃ s, M.Reachable s ∧ p s = true := by
  cases hr : M.run M.init as with
  | none => simp [hr] at h
  | some s => exact ⟨s, reachable_of_run hr, by simpa [hr] using h⟩

theorem exists_path_of_run (as bs : List α) (p : σ → σ → Bool)
    (h : ((M.run M.init as).any fun s => (M.run s bs).any (p s)) = true) :
    ∃ s t, M.Reachable s ∧ M.Path s t ∧ p s t = true := by
  obtain ⟨s, hs, h⟩ := (Option.any_eq_true _ _).mp h
  obtain ⟨t, ht, h⟩ := (Option.any_eq_true _ _).mp h
  exact ⟨s, t, reachable_of_run hs, path_of_run bs s t ht, h⟩

theorem exists_next_of_run (as : List α) (a : α) (p : σ → σ → Bool)
    (h : ((M.run M.init as).any fun s => (M.next s a).any (p s)) = true) :
    ∃ s t, M.Reachable s ∧ M.next s a = some t ∧ p s t = true := by
  obtain ⟨s, hs, h⟩ := (Option.any_eq_true _ _).mp h
  obtain ⟨t, ht, h⟩ := (Option.any_eq_true _ _).mp h
  exact ⟨s, t, reachable_of_run hs, ht, h⟩

/-- Run a list of actions each of which is permitted. -/
def runVia (M : Machine σ α) (ok : σ → α → Bool) : σ → List α → Option σ
  | s, [] => some s
  | s, a :: as => if ok s a then (M.next s a).bind fun s' => M.runVia ok s' as else none

theorem pathVia_of_runVia {ok : σ → α → Bool} :
    ∀ (as : List α) (s t : σ), M.runVia ok s as = some t → M.PathVia (fun s a => ok s a) s t := by
  intro as
  induction as with
  | nil =>
    intro s t h
    simp only [runVia, Option.some.injEq] at h
    subst h
    exact PathVia.refl s
  | cons a as ih =>
    intro s t h
    simp only [runVia] at h
    split at h
    · next hok =>
      rw [Option.bind_eq_some_iff] at h
      obtain ⟨s', hn, hr⟩ := h
      exact Relation.ReflTransGen.head ⟨a, hok, hn⟩ (ih s' t hr)
    · cases h

/-- A state property a concrete run of permitted actions ends in is one of a state such
runs reach. -/
theorem exists_reachVia_of_run (ok : σ → α → Bool) (as : List α) (p : σ → Bool)
    (h : (M.runVia ok M.init as).any p = true) :
    ∃ s, M.ReachVia (fun s a => ok s a) s ∧ p s = true := by
  cases hr : M.runVia ok M.init as with
  | none => simp [hr] at h
  | some s => exact ⟨s, pathVia_of_runVia as M.init s hr, by simpa [hr] using h⟩

end Machine
