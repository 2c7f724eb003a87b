import Mathlib

/-!
# Tilings of a line by steps

A cursor moves up a linear order from a start, from the lower end of a tile to
its upper end.  `T a b` says that there is a tile from `a` to `b`, and `R a b`
that the cursor has moved over it.
-/

namespace Tiling

variable {α : Type*} [LinearOrder α] {R T : α → α → Prop} {start a b a' b' t : α}

/-- The cursor only moves up. -/
theorem le_of_reached (hR : ∀ a b, R a b → a < b) (h : Relation.ReflTransGen R a b) : a ≤ b := by
  induction h with
  | refl => exact le_refl a
  | tail _ hbc ih => exact ih.trans (hR _ _ hbc).le

/-- **What lies below the cursor lies on a tile it moved over.** -/
theorem exists_tile (h : Relation.ReflTransGen R a b) (ha : a ≤ t) (hb : t < b) :
    ∃ x y, R x y ∧ x ≤ t ∧ t < y := by
  induction h with
  | refl => exact absurd (ha.trans_lt hb) (lt_irrefl a)
  | @tail x y hax hxy ih =>
    by_cases hx : t < x
    · exact ih hx
    · exact ⟨x, y, hxy, not_lt.mp hx, hb⟩

section

variable (hT : ∀ a b, T a b → a < b) (hsub : ∀ a b, R a b → T a b)
  (hends : ∀ a b c, T a b → T a c → b = c)

include hT hsub hends

theorem le_of_reached_tile (h : T a b) (hreach : Relation.ReflTransGen R a a') :
    a = a' ∨ b ≤ a' := by
  cases hreach.cases_head with
  | inl heq => exact Or.inl heq
  | inr hstep =>
    obtain ⟨x, hax, hxa'⟩ := hstep
    obtain rfl : b = x := hends a b x h (hsub a x hax)
    exact Or.inr (le_of_reached (fun _ _ hr => hT _ _ (hsub _ _ hr)) hxa')

/-- **Where no two tiles begin together but end apart, tiles do not overlap**, also those the cursor
never moved over. -/
theorem apart (hreach : ∀ a b, T a b → Relation.ReflTransGen R start a) (h : T a b) (h' : T a' b') :
    (a = a' ∧ b = b') ∨ b ≤ a' ∨ b' ≤ a := by
  have hunique : Relator.RightUnique R := fun x y z hy hz => hends x y z (hsub x y hy) (hsub x z hz)
  have htotal := Relation.ReflTransGen.total_of_right_unique hunique (hreach a b h)
    (hreach a' b' h')
  rcases htotal with hto | hto
  · rcases le_of_reached_tile hT hsub hends h hto with rfl | hle
    · exact Or.inl ⟨rfl, hends a b b' h h'⟩
    · exact Or.inr (Or.inl hle)
  · rcases le_of_reached_tile hT hsub hends h' hto with rfl | hle
    · exact Or.inl ⟨rfl, hends a' b b' h h'⟩
    · exact Or.inr (Or.inr hle)

end

end Tiling
