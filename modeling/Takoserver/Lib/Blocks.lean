import Mathlib

/-!
# Folding over whole blocks

A sequence that comes in pieces is folded block by block, all blocks of one length; what is short of
a block is kept for the next piece.
-/

variable {α β γ : Type*} {n : ℕ} {f : β → List α → β} {b : β} {l : List α}

/-- Folds over the whole blocks of a sequence; beside the result, what is left. -/
def blocks (n : ℕ) (f : β → List α → β) (b : β) (l : List α) : β × List α :=
  if 0 < n ∧ n ≤ l.length then blocks n f (f b (l.take n)) (l.drop n) else (b, l)
termination_by l.length
decreasing_by
  simp only [List.length_drop]
  omega

theorem blocks_of_length_lt (h : l.length < n) : blocks n f b l = (b, l) := by
  rw [blocks, if_neg (by omega)]

theorem blocks_append_of_length_eq (hpos : 0 < n) (h : l.length = n) (l' : List α) :
    blocks n f b (l ++ l') = blocks n f (f b l) l' := by
  subst h
  rw [blocks, if_pos ⟨hpos, by simp⟩, List.take_left, List.drop_left]

/-- **What is kept of one piece goes before the next.** -/
theorem blocks_append (l' : List α) :
    blocks n f b (l ++ l') = blocks n f (blocks n f b l).1 ((blocks n f b l).2 ++ l') := by
  fun_induction blocks n f b l with
  | case1 b l h ih =>
    rw [blocks, if_pos ⟨h.1, by rw [List.length_append]; omega⟩, List.take_append_of_le_length h.2,
      List.drop_append_of_le_length h.2]
    exact ih
  | case2 => rfl

theorem length_blocks_lt (hpos : 0 < n) : (blocks n f b l).2.length < n := by
  fun_induction blocks n f b l with
  | case1 _ _ _ ih => exact ih
  | case2 _ l h =>
    show l.length < n
    omega

/-- A map that goes with the two functions goes with the two folds. -/
theorem blocks_map (g : γ → β) {f' : γ → List α → γ}
    (h : ∀ c block, block.length = n → g (f' c block) = f (g c) block) (c : γ) (l : List α) :
    blocks n f (g c) l = (g (blocks n f' c l).1, (blocks n f' c l).2) := by
  fun_induction blocks n f' c l with
  | case1 c l hl ih =>
    rw [blocks, if_pos hl, ← h c _ (by rw [List.length_take]; omega)]
    exact ih
  | case2 c l hl => rw [blocks, if_neg hl]
