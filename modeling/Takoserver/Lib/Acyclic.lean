import Mathlib

/-!
# Acyclic relations

No element reaches itself.  An acyclic relation stays so when edges go, and when
the edges out of one element are replaced by edges from whose ends the element
is not reached.

Where the edges are a list, what an element reaches is computed in rounds, as a
recursive query does: each round adds what an edge leads to, and after as many
rounds as there are edges nothing is left to add.
-/

namespace Relation

variable {α : Type*} {R R' : α → α → Prop}

/-- No element reaches itself in one step or more. -/
def Acyclic (R : α → α → Prop) : Prop := ∀ a, ¬TransGen R a a

theorem Acyclic.mono (hR : Acyclic R) (h : ∀ a b, R' a b → R a b) : Acyclic R' :=
  fun a ha => hR a (TransGen.mono h _ _ ha)

variable {a b u : α}

/-- What is reached stays in a set that no edge leaves. -/
theorem ReflTransGen.mem_of_closed {S : α → Prop} (hS : ∀ a b, S a → R a b → S b)
    (h : ReflTransGen R a b) (ha : S a) : S b := by
  induction h with
  | refl => exact ha
  | tail _ hbc ih => exact hS _ _ ih hbc

/-- A path uses no edge out of `u`, or it passes `u`. -/
theorem TransGen.avoids_or_passes (hother : ∀ a b, a ≠ u → R' a b → R a b) (h : TransGen R' a b) :
    TransGen R a b ∨ ReflTransGen R' a u ∧ ∃ c, R' u c ∧ ReflTransGen R' c b := by
  induction h with
  | single hab =>
    by_cases hau : a = u
    · subst hau
      exact Or.inr ⟨.refl, _, hab, .refl⟩
    · exact Or.inl (.single (hother _ _ hau hab))
  | @tail b c hpath hbc ih =>
    rcases ih with hold | ⟨hau, d, hud, hdb⟩
    · by_cases hbu : b = u
      · subst hbu
        exact Or.inr ⟨hpath.to_reflTransGen, _, hbc, .refl⟩
      · exact Or.inl (hold.tail (hother _ _ hbu hbc))
    · exact Or.inr ⟨hau, d, hud, hdb.tail hbc⟩

/-- **Redirecting one element.**  The edges out of `u` are new, and from none of their ends is
`u` reached. -/
theorem Acyclic.redirect (hR : Acyclic R) (hother : ∀ a b, a ≠ u → R' a b → R a b)
    (hu : ∀ b, R' u b → ¬ReflTransGen R' b u) : Acyclic R' := by
  intro a ha
  rcases TransGen.avoids_or_passes hother ha with hold | ⟨hau, c, huc, hca⟩
  · exact hR a hold
  · exact hu c huc (hca.trans hau)

/-- A path to `u` first comes to `u` along the edges of the others. -/
theorem ReflTransGen.to_first (hother : ∀ a b, a ≠ u → R' a b → R a b) (h : ReflTransGen R' a u) :
    ReflTransGen R a u := by
  induction h using ReflTransGen.head_induction_on with
  | refl => exact .refl
  | @head b c hbc _ ih =>
    by_cases hbu : b = u
    · rw [hbu]
    · exact ReflTransGen.head (hother b c hbu hbc) ih

/-! ### Edges in a list -/

section Edges

variable [DecidableEq α] (edges : List (α × α))

/-- The pair is an edge. -/
def Edge (a b : α) : Prop := (a, b) ∈ edges

/-- What the edges that leave a set lead to. -/
def frontier (reached : List α) : List α :=
  (edges.filter fun e => decide (e.1 ∈ reached ∧ e.2 ∉ reached)).map Prod.snd

/-- `n` rounds, each of which adds what an edge leads to. -/
def rounds : ℕ → List α → List α
  | 0, reached => reached
  | n + 1, reached => rounds n (reached ++ frontier edges reached)

/-- What is reached from a node. -/
def reach (a : α) : List α := rounds edges edges.length [a]

variable {edges}

theorem mem_frontier {reached : List α} :
    b ∈ frontier edges reached ↔ b ∉ reached ∧ ∃ a ∈ reached, Edge edges a b := by
  simp only [frontier, Edge, List.mem_map, List.mem_filter, decide_eq_true_eq, Prod.exists]
  constructor
  · rintro ⟨a, c, ⟨he, ha, hc⟩, rfl⟩
    exact ⟨hc, a, ha, he⟩
  · rintro ⟨hb, a, ha, he⟩
    exact ⟨a, b, ⟨he, ha, hb⟩, rfl⟩

theorem subset_rounds (n : ℕ) : ∀ reached : List α, reached ⊆ rounds edges n reached := by
  induction n with
  | zero => exact fun reached => List.Subset.refl reached
  | succ n ih =>
    intro reached
    exact List.Subset.trans (List.subset_append_left _ _) (ih _)

/-- What the rounds add is reached. -/
theorem reached_of_mem_rounds (n : ℕ) : ∀ reached : List α,
    (∀ b ∈ reached, ReflTransGen (Edge edges) a b) →
    ∀ b ∈ rounds edges n reached, ReflTransGen (Edge edges) a b := by
  induction n with
  | zero => exact fun reached h => h
  | succ n ih =>
    intro reached h
    refine ih _ fun b hb => ?_
    rcases List.mem_append.mp hb with hb | hb
    · exact h b hb
    · obtain ⟨-, c, hc, he⟩ := mem_frontier.mp hb
      exact (h c hc).tail he

theorem countP_frontier_lt {reached : List α} (hb : b ∈ frontier edges reached) :
    edges.countP (fun e => decide (e.2 ∉ reached ++ frontier edges reached)) <
      edges.countP fun e => decide (e.2 ∉ reached) := by
  obtain ⟨hnot, a, -, he⟩ := mem_frontier.mp hb
  have hfewer : ∀ e : α × α, decide (e.2 ∉ reached ++ frontier edges reached) =
      (decide (e.2 ∉ reached ++ frontier edges reached) && decide (e.2 ∉ reached)) := by
    intro e
    simp only [List.mem_append, not_or, ← Bool.decide_and]
    exact decide_eq_decide.mpr ⟨fun h => ⟨h, h.1⟩, fun h => h.1⟩
  rw [List.countP_congr fun e _ => by rw [hfewer e], ← List.countP_filter,
    List.countP_eq_length_filter (l := edges)]
  refine List.countP_lt_length_iff.mpr ⟨(a, b), ?_, ?_⟩
  · exact List.mem_filter.mpr ⟨he, decide_eq_true hnot⟩
  · exact decide_eq_false fun h => h (List.mem_append_right _ hb)

/-- **After as many rounds as edges nothing is left to add.** -/
theorem rounds_closed (n : ℕ) : ∀ reached : List α,
    edges.countP (fun e => decide (e.2 ∉ reached)) ≤ n →
    ∀ a b, a ∈ rounds edges n reached → Edge edges a b → b ∈ rounds edges n reached := by
  induction n with
  | zero =>
    intro reached hcount a b _ he
    have hnone := List.countP_eq_zero.mp (Nat.le_zero.mp hcount) (a, b) he
    simpa [rounds] using hnone
  | succ n ih =>
    intro reached hcount
    by_cases hstays : frontier edges reached = []
    · -- a set that no edge leaves is all that the rounds reach
      have hclosed : ∀ a b, a ∈ reached → Edge edges a b → b ∈ reached := by
        intro a b ha he
        by_contra hb
        have hmem : b ∈ frontier edges reached := mem_frontier.mpr ⟨hb, a, ha, he⟩
        rw [hstays] at hmem
        cases hmem
      have hfix : ∀ m, rounds edges m reached = reached := by
        intro m
        induction m with
        | zero => rfl
        | succ m ihm => rw [rounds, hstays, List.append_nil, ihm]
      rw [hfix]
      exact hclosed
    · obtain ⟨b, hb⟩ := List.exists_mem_of_ne_nil _ hstays
      have hless := countP_frontier_lt hb
      exact ih _ (by omega)

/-- **The rounds compute what is reached.** -/
theorem mem_reach_iff : b ∈ reach edges a ↔ ReflTransGen (Edge edges) a b := by
  constructor
  · refine reached_of_mem_rounds _ [a] (fun c hc => ?_) b
    rw [List.mem_singleton] at hc
    rw [hc]
  · intro h
    refine ReflTransGen.mem_of_closed (rounds_closed _ [a] List.countP_le_length) h ?_
    exact subset_rounds _ _ (List.mem_singleton_self a)

/-- **No walk along finitely many edges without a cycle goes on forever.** -/
theorem Acyclic.no_walk (h : Acyclic (Edge edges)) (walk : ℕ → α) :
    ¬ ∀ n, Edge edges (walk n) (walk (n + 1)) := by
  intro hwalk
  have hpath : ∀ i j, i < j → TransGen (Edge edges) (walk i) (walk j) := by
    intro i j hij
    induction j, hij using Nat.le_induction with
    | base => exact .single (hwalk i)
    | succ j _ ih => exact ih.tail (hwalk j)
  -- infinitely many steps end in finitely many elements
  obtain ⟨i, j, hne, heq⟩ := Finite.exists_ne_map_eq_of_infinite
    (fun n => (⟨walk (n + 1), List.mem_map_of_mem (f := Prod.snd) (hwalk n)⟩ :
      {x // x ∈ edges.map Prod.snd}))
  have heq' : walk (i + 1) = walk (j + 1) := congrArg Subtype.val heq
  rcases Nat.lt_or_gt_of_ne hne with hlt | hlt
  · exact h _ (heq' ▸ hpath (i + 1) (j + 1) (by omega))
  · exact h _ (heq' ▸ hpath (j + 1) (i + 1) (by omega))

end Edges

end Relation
