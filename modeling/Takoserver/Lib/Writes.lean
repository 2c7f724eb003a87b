import Takoserver.Lib.Table

/-!
# What a statement does to a table

A statement updates the rows of a condition, inserts one row, or deletes the
rows of a condition.  `Write steps enters leaves` is such a statement, with a
bound on each: what an update may make of a row, which row an insert may add,
and which rows a deletion may remove.  What a protocol relies on is then read
off the bounds, whichever statement it was.
-/

namespace Table

variable {α κ : Type*} {steps : α → α → Prop} {enters : List α → α → Prop} {leaves : α → Prop}

/-- One statement on a table. -/
inductive Write (steps : α → α → Prop) (enters : List α → α → Prop) (leaves : α → Prop)
    (t : List α) : List α → Prop where
  | update (p : α → Bool) (f : α → α) (h : ∀ r ∈ t, p r = true → steps r (f r)) :
    Write steps enters leaves t (update p f t)
  | insert (row : α) (h : enters t row) : Write steps enters leaves t (t ++ [row])
  | delete (p : α → Bool) (h : ∀ r ∈ t, p r = true → leaves r) :
    Write steps enters leaves t (delete p t)

namespace Write

variable {t t' : List α}

theorem refl (t : List α) : Write steps enters leaves t t := by
  have h : Table.update (fun _ => false) id t = t := update_eq_self fun _ _ => rfl
  conv => arg 5; rw [← h]
  exact update _ _ fun _ _ hp => by cases hp

/-- A write is one under weaker bounds. -/
theorem mono {steps' : α → α → Prop} {enters' : List α → α → Prop} {leaves' : α → Prop}
    (hs : ∀ r r', steps r r' → steps' r r') (he : ∀ r, enters t r → enters' t r)
    (hl : ∀ r ∈ t, leaves r → leaves' r) (h : Write steps enters leaves t t') :
    Write steps' enters' leaves' t t' := by
  cases h with
  | update p f h => exact update p f fun r hr hp => hs _ _ (h r hr hp)
  | insert row h => exact insert row (he _ h)
  | delete p h => exact delete p fun r hr hp => hl r hr (h r hr hp)

/-- Where a row comes from. -/
theorem origin (hrefl : ∀ r, steps r r) (h : Write steps enters leaves t t') {r' : α}
    (hr' : r' ∈ t') : (∃ r ∈ t, steps r r') ∨ enters t r' := by
  cases h with
  | update p f h =>
    rcases mem_update.mp hr' with ⟨hr, -⟩ | ⟨r, hr, hp, rfl⟩
    · exact Or.inl ⟨r', hr, hrefl r'⟩
    · exact Or.inl ⟨r, hr, h r hr hp⟩
  | insert row h =>
    rcases List.mem_append.mp hr' with hr | hr
    · exact Or.inl ⟨r', hr, hrefl r'⟩
    · rw [List.mem_singleton.mp hr]
      exact Or.inr h
  | delete => exact Or.inl ⟨r', (mem_delete.mp hr').1, hrefl r'⟩

/-- What becomes of a row. -/
theorem fate (hrefl : ∀ r, steps r r) (h : Write steps enters leaves t t') {r : α} (hr : r ∈ t) :
    (∃ r' ∈ t', steps r r') ∨ leaves r := by
  cases h with
  | update p f h =>
    refine Or.inl ⟨_, mem_update_of_mem hr, ?_⟩
    split
    · next hp => exact h r hr hp
    · exact hrefl r
  | insert => exact Or.inl ⟨r, List.mem_append_left _ hr, hrefl r⟩
  | delete p h =>
    cases hp : p r
    · exact Or.inl ⟨r, mem_delete.mpr ⟨hr, hp⟩, hrefl r⟩
    · exact Or.inr (h r hr hp)

/-- A key stays a key. -/
theorem nodup {key : α → κ} (hkey : ∀ r r', steps r r' → key r' = key r)
    (hfresh : ∀ row, enters t row → ∀ r ∈ t, key r ≠ key row)
    (hn : (t.map key).Nodup) (h : Write steps enters leaves t t') : (t'.map key).Nodup := by
  cases h with
  | update p f h =>
    have hsame : (Table.update p f t).map key = t.map key := by
      unfold Table.update
      rw [List.map_map]
      refine List.map_congr_left fun r hr => ?_
      simp only [Function.comp]
      split
      · next hp => exact hkey _ _ (h r hr hp)
      · rfl
    rw [hsame]
    exact hn
  | insert row h => exact nodup_insert hn (hfresh row h)
  | delete => exact nodup_delete hn

end Write

end Table
