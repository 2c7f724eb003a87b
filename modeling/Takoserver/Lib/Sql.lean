import Mathlib

/-!
# Statements and batches

A statement of an SQL store is a function of the store: the store after it and the
number of rows it changed, or `none` where a `CHECK`, a key or a trigger aborts
it.  A batch runs its statements one after the other and commits all of them or,
when one aborts, none.  A clock that the statements read is part of the store;
`clocked` moves it before each statement of a batch.
-/

/-- A statement: the store after it and the number of rows it changed, or `none` where it
aborts. -/
abbrev Statement (σ : Type*) := σ → Option (σ × ℕ)

namespace Statement

variable {σ τ : Type*}

/-- `Sql.batch`: the store after all statements and the changes of each. -/
def batch : List (Statement σ) → σ → Option (σ × List ℕ)
  | [], s => some (s, [])
  | st :: sts, s =>
    (st s).bind fun r => (batch sts r.1).map fun rs => (rs.1, r.2 :: rs.2)

/-- Two statements of a batch, as one with the changes of the second. -/
def andThen (st st' : Statement σ) : Statement σ := fun s => (st s).bind fun r => st' r.1

/-- The statements of a batch, each at the next reading of the clock that `set` sets. -/
def clocked (set : τ → σ → σ) : List τ → List (Statement σ) → List (Statement σ)
  | c :: cs, st :: sts => (fun s => st (set c s)) :: clocked set cs sts
  | _, sts => sts

/-- The statement leads from stores with `P` to stores with `P`. -/
def Keeps (P : σ → Prop) (st : Statement σ) : Prop :=
  ∀ s s' n, P s → st s = some (s', n) → P s'

/-- Where the statement does not abort, it goes from its store by finitely many steps of `R`. -/
def Within (R : σ → σ → Prop) (st : Statement σ) : Prop :=
  ∀ s s' n, st s = some (s', n) → Relation.ReflTransGen R s s'

variable {P : σ → Prop} {R : σ → σ → Prop} {st st' : Statement σ} {sts sts' : List (Statement σ)} {s s' : σ}
  {n : ℕ} {ns : List ℕ}

@[simp] theorem batch_nil : batch [] s = some (s, []) := rfl

theorem batch_cons_eq_some :
    batch (st :: sts) s = some (s', ns) ↔
      ∃ u n ns', st s = some (u, n) ∧ batch sts u = some (s', ns') ∧ ns = n :: ns' := by
  simp only [batch, Option.bind_eq_some_iff, Option.map_eq_some_iff, Prod.exists, Prod.mk.injEq]
  constructor
  · rintro ⟨u, n, hst, t, ns', hrest, rfl, rfl⟩
    exact ⟨u, n, ns', hst, hrest, rfl⟩
  · rintro ⟨u, n, ns', hst, hrest, rfl⟩
    exact ⟨u, n, hst, s', ns', hrest, rfl, rfl⟩

theorem andThen_eq_some :
    st.andThen st' s = some (s', n) ↔ ∃ u m, st s = some (u, m) ∧ st' u = some (s', n) := by
  simp [andThen, Option.bind_eq_some_iff]

/-- **The batch rule.**  What each statement keeps, the batch keeps. -/
theorem Keeps.batch (h : ∀ st ∈ sts, Keeps P st) (hs : P s)
    (hrun : Statement.batch sts s = some (s', ns)) : P s' := by
  induction sts generalizing s ns with
  | nil =>
    simp only [batch_nil, Option.some.injEq, Prod.mk.injEq] at hrun
    rw [← hrun.1]
    exact hs
  | cons st sts ih =>
    obtain ⟨u, n, _, hst, hrest, rfl⟩ := batch_cons_eq_some.mp hrun
    exact ih (fun st' hmem => h st' (List.mem_cons_of_mem _ hmem))
      (h st List.mem_cons_self s u n hs hst) hrest

/-- Each statement of a clocked batch is one of the batch, after the clock has moved or not. -/
theorem mem_clocked {set : τ → σ → σ} {cs : List τ} (h : st ∈ clocked set cs sts) :
    ∃ st₀ ∈ sts, st = st₀ ∨ ∃ c ∈ cs, st = fun s => st₀ (set c s) := by
  induction cs generalizing sts with
  | nil =>
    have hmem : st ∈ sts := by simpa [clocked] using h
    exact ⟨st, hmem, Or.inl rfl⟩
  | cons c cs ih =>
    cases sts with
    | nil => simp [clocked] at h
    | cons st₀ =>
      rcases List.mem_cons.mp h with rfl | h
      · exact ⟨st₀, List.mem_cons_self, Or.inr ⟨c, List.mem_cons_self, rfl⟩⟩
      · obtain ⟨st₁, hmem, heq⟩ := ih h
        refine ⟨st₁, List.mem_cons_of_mem _ hmem, heq.imp_right ?_⟩
        rintro ⟨d, hd, heq⟩
        exact ⟨d, List.mem_cons_of_mem _ hd, heq⟩

/-- What moving the clock keeps and each statement keeps, the clocked batch keeps. -/
theorem Keeps.clocked {set : τ → σ → σ} {cs : List τ} (hset : ∀ c s, P s → P (set c s))
    (h : ∀ st ∈ sts, Keeps P st) : ∀ st ∈ clocked set cs sts, Keeps P st := by
  intro st hmem
  obtain ⟨st₀, hst₀, rfl | ⟨c, -, rfl⟩⟩ := mem_clocked hmem
  · exact h _ hst₀
  · exact fun s s' n hs hrun => h st₀ hst₀ (set c s) s' n (hset c s hs) hrun

end Statement
