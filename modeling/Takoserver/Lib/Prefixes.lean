import Mathlib

/-!
# Prefixes as ranges

In the lexicographic order the lists that start with `p` are an interval: they
are at least `p` and below its ceiling, the list that ends with the successor of
the last of its elements that has one.  A prefix of greatest elements has no
ceiling, and what is at least it starts with it.
-/

namespace Prefixes

/-- `next c` is the least element above `c`, and there is none where `c` is greatest. -/
structure Successor {α : Type*} [LinearOrder α] (next : α → Option α) : Prop where
  lt_iff : ∀ {c d}, next c = some d → ∀ x, x < d ↔ x ≤ c
  greatest : ∀ {c}, next c = none → ∀ x, x ≤ c

variable {α : Type*}

/-- The exclusive upper bound of the lists that start with `p`, if they have one. -/
def ceiling (next : α → Option α) : List α → Option (List α)
  | [] => none
  | c :: p =>
    match ceiling next p with
    | some q => some (c :: q)
    | none => (next c).map fun d => [d]

variable {next : α → Option α}

@[simp] theorem ceiling_nil : ceiling next [] = none := rfl

theorem ceiling_cons_some {c : α} {p q : List α} (h : ceiling next p = some q) :
    ceiling next (c :: p) = some (c :: q) := by
  simp [ceiling, h]

theorem ceiling_cons_none {c : α} {p : List α} (h : ceiling next p = none) :
    ceiling next (c :: p) = (next c).map fun d => [d] := by
  simp [ceiling, h]

/-- The ceiling from the other end: the last element that has a successor is raised. -/
theorem ceiling_concat (p : List α) (c : α) :
    ceiling next (p ++ [c]) =
      match next c with
      | some d => some (p ++ [d])
      | none => ceiling next p := by
  induction p with
  | nil =>
    rw [List.nil_append, ceiling_cons_none ceiling_nil]
    cases next c <;> rfl
  | cons b p ih =>
    rw [List.cons_append]
    cases hc : next c with
    | some d =>
      rw [hc] at ih
      exact ceiling_cons_some ih
    | none =>
      rw [hc] at ih
      cases hp : ceiling next p with
      | some q => rw [ceiling_cons_some (ih.trans hp), ceiling_cons_some hp]
      | none => rw [ceiling_cons_none (ih.trans hp), ceiling_cons_none hp]

variable [LinearOrder α]

/-- **A list starts with `p` exactly when it is at least `p` and below its ceiling.** -/
theorem prefix_iff (hnext : Successor next) {p s : List α} :
    p <+: s ↔ ¬s < p ∧ ∀ q, ceiling next p = some q → s < q := by
  induction p generalizing s with
  | nil => simp
  | cons c p ih =>
    cases s with
    | nil => simp
    | cons x s =>
      rw [List.cons_prefix_cons, List.cons_lt_cons_iff, ih]
      cases hp : ceiling next p with
      | some q =>
        rw [ceiling_cons_some hp]
        simp only [Option.some.injEq, forall_eq', List.cons_lt_cons_iff]
        constructor
        · rintro ⟨rfl, hle, hlt⟩
          exact ⟨by simpa using hle, Or.inr ⟨rfl, hlt⟩⟩
        · rintro ⟨hle, hlt | ⟨rfl, hlt⟩⟩
          · exact absurd (Or.inl hlt) hle
          · exact ⟨rfl, fun h => hle (Or.inr ⟨rfl, h⟩), hlt⟩
      | none =>
        rw [ceiling_cons_none hp]
        cases hc : next c with
        | some d =>
          simp only [Option.map_some, Option.some.injEq, forall_eq', List.cons_lt_cons_iff,
            List.not_lt_nil, and_false, or_false, reduceCtorEq, false_implies, implies_true,
            and_true, hnext.lt_iff hc x]
          constructor
          · rintro ⟨rfl, hle⟩
            exact ⟨by simpa using hle, le_refl _⟩
          · rintro ⟨hle, hx⟩
            obtain rfl : c = x := le_antisymm (not_lt.mp fun h => hle (Or.inl h)) hx
            exact ⟨rfl, fun h => hle (Or.inr ⟨rfl, h⟩)⟩
        | none =>
          simp only [Option.map_none, reduceCtorEq, false_implies, implies_true, and_true]
          constructor
          · rintro ⟨rfl, hle⟩
            simpa using hle
          · intro hle
            obtain rfl : c = x := le_antisymm (not_lt.mp fun h => hle (Or.inl h))
              (hnext.greatest hc x)
            exact ⟨rfl, fun h => hle (Or.inr ⟨rfl, h⟩)⟩

/-- What lies between `p` and a list that starts with `p` starts with `p`. -/
theorem prefix_of_between (hnext : Successor next) {p r s : List α} (hr : p <+: r) (hp : ¬s < p)
    (hs : ¬r < s) : p <+: s := by
  rw [prefix_iff hnext] at hr ⊢
  refine ⟨hp, fun q hq => ?_⟩
  exact lt_of_le_of_lt (not_lt.mp hs) (hr.2 q hq)

/-- A list that starts with `p` is not below it. -/
theorem not_lt_of_prefix (hnext : Successor next) {p s : List α} (h : p <+: s) : ¬s < p :=
  ((prefix_iff hnext).mp h).1

end Prefixes
