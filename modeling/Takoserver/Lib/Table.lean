import Mathlib

/-!
# Keyed tables

A table is the list of its rows, in the order they were inserted.  A primary
key is a function of the row; that it is one is the hypothesis
`(t.map key).Nodup`, which every write below keeps.  A statement on the row of
one key is `put` (replace it) or `erase` (remove it); an insert appends.
-/

namespace Table

variable {α κ : Type*} [DecidableEq κ] (key : α → κ)

/-- The row of a key. -/
def find (t : List α) (k : κ) : Option α := t.find? fun r => key r = k

/-- Replace the row that has `row`'s key. -/
def put (row : α) (t : List α) : List α := t.map fun r => if key r = key row then row else r

/-- Remove the row of a key. -/
def erase (k : κ) (t : List α) : List α := t.filter fun r => key r ≠ k

/-- `UPDATE t SET … WHERE p`. -/
def update (p : α → Bool) (f : α → α) (t : List α) : List α := t.map fun r => if p r then f r else r

/-- `DELETE FROM t WHERE p`. -/
def delete (p : α → Bool) (t : List α) : List α := t.filter fun r => !p r

variable {key}

variable {k : κ} {r row x old : α} {t : List α} {β : Type*}

theorem find_some (h : find key t k = some r) :
    r ∈ t ∧ key r = k := by
  exact ⟨List.mem_of_find?_eq_some h, by simpa using List.find?_some h⟩

theorem find_none : find key t k = none ↔ ∀ r ∈ t, key r ≠ k := by
  unfold find
  simp

omit [DecidableEq κ] in
theorem eq_of_key (hn : (t.map key).Nodup) {r s : α} (hr : r ∈ t) (hs : s ∈ t)
    (h : key r = key s) : r = s :=
  List.inj_on_of_nodup_map hn hr hs h

theorem find_of_mem (hn : (t.map key).Nodup) (hr : r ∈ t) :
    find key t (key r) = some r := by
  cases h : find key t (key r) with
  | none => exact absurd rfl (find_none.mp h r hr)
  | some s =>
    obtain ⟨hs, hk⟩ := find_some h
    rw [eq_of_key hn hs hr hk]

theorem find_eq_some_iff (hn : (t.map key).Nodup) :
    find key t k = some r ↔ r ∈ t ∧ key r = k := by
  constructor
  · exact find_some
  · rintro ⟨hr, rfl⟩
    exact find_of_mem hn hr

omit [DecidableEq κ] in
/-- Tables that agree on some columns have rows that agree on them. -/
theorem exists_of_map_eq {f : α → β} {t t' : List α} (h : t.map f = t'.map f) (hr : r ∈ t) :
    ∃ s ∈ t', f s = f r := by
  have hm : f r ∈ t'.map f := by
    rw [← h]
    exact List.mem_map_of_mem hr
  exact List.mem_map.mp hm

theorem filter_key (hn : (t.map key).Nodup) (hr : r ∈ t) :
    (t.filter fun s => decide (key s = key r)) = [r] := by
  induction t with
  | nil => simp at hr
  | cons s t ih =>
    simp only [List.map_cons, List.nodup_cons, List.mem_map, not_exists, not_and] at hn
    rcases List.mem_cons.mp hr with rfl | hr
    · have hrest : (t.filter fun s => decide (key s = key r)) = [] := by
        rw [List.filter_eq_nil_iff]
        intro s hs
        simpa using hn.1 s hs
      rw [List.filter_cons, hrest]
      simp
    · have hne : key s ≠ key r := fun h => hn.1 r hr h.symm
      rw [List.filter_cons, ih hn.2 hr]
      simp [hne]

/-! ### Replacing a row -/

@[simp] theorem map_key_put (row : α) (t : List α) : (put key row t).map key = t.map key := by
  unfold put
  rw [List.map_map]
  refine List.map_congr_left fun r _ => ?_
  simp only [Function.comp]
  split
  · next h => exact h.symm
  · rfl

theorem map_put (f : α → β) (h : ∀ r ∈ t, key r = key row → f r = f row) :
    (put key row t).map f = t.map f := by
  unfold put
  rw [List.map_map]
  refine List.map_congr_left fun r hr => ?_
  simp only [Function.comp]
  split
  · next hk => exact (h r hr hk).symm
  · rfl

/-- What a table holds after the row of a key is replaced. -/
theorem mem_put :
    x ∈ put key row t ↔
      (x ∈ t ∧ key x ≠ key row) ∨ (x = row ∧ ∃ r ∈ t, key r = key row) := by
  unfold put
  simp only [List.mem_map]
  constructor
  · rintro ⟨r, hr, rfl⟩
    split
    · next h => exact Or.inr ⟨rfl, r, hr, h⟩
    · next h => exact Or.inl ⟨hr, h⟩
  · rintro (⟨hx, hk⟩ | ⟨rfl, r, hr, hk⟩)
    · exact ⟨x, hx, by simp [hk]⟩
    · exact ⟨r, hr, by simp [hk]⟩

theorem mem_put_self (hr : r ∈ t) (h : key r = key row) :
    row ∈ put key row t :=
  mem_put.mpr (Or.inr ⟨rfl, r, hr, h⟩)

theorem mem_put_of_ne (hx : x ∈ t) (h : key x ≠ key row) :
    x ∈ put key row t :=
  mem_put.mpr (Or.inl ⟨hx, h⟩)

theorem put_eq_self (h : ∀ r ∈ t, key r ≠ key row) : put key row t = t := by
  conv_rhs => rw [← List.map_id t]
  refine List.map_congr_left fun r hr => ?_
  simp [h r hr]

theorem put_put {row' : α} (h : key row = key row') :
    put key row' (put key row t) = put key row' t := by
  unfold put
  rw [List.map_map]
  refine List.map_congr_left fun r _ => ?_
  simp only [Function.comp]
  by_cases hr : key r = key row'
  · rw [if_pos (hr.trans h.symm), if_pos h, if_pos hr]
  · have hne : ¬key r = key row := fun hk => hr (hk.trans h)
    rw [if_neg hne, if_neg hr]

/-- What is found after the row of a key is replaced. -/
theorem find_put :
    find key (put key row t) k =
      if key row = k then (find key t k).map (fun _ => row) else find key t k := by
  unfold find put
  induction t with
  | nil => simp
  | cons r t ih =>
    rw [List.map_cons, List.find?_cons, List.find?_cons, ih]
    by_cases hr : key r = key row <;> by_cases hk : key row = k <;>
      by_cases hrk : key r = k <;> simp_all

/-- Counting over a replaced row. -/
theorem countP_put {p : α → Bool} (h : ∀ r ∈ t, key r = key row → p r = p row) :
    (put key row t).countP p = t.countP p := by
  unfold put
  rw [List.countP_map]
  refine List.countP_congr fun r hr => ?_
  simp only [Function.comp]
  split
  · next hk => rw [h r hr hk]
  · rfl

/-- Replacing the row `old` by `row` moves a sum over the table by the difference. -/
theorem sum_put {M : Type*} [AddCommMonoid M] {f : α → M} (hn : (t.map key).Nodup)
    (hold : old ∈ t) (hk : key old = key row) :
    ((put key row t).map f).sum + f old = (t.map f).sum + f row := by
  induction t with
  | nil => simp at hold
  | cons r t ih =>
    simp only [List.map_cons, List.nodup_cons, List.mem_map, not_exists, not_and] at hn
    rw [List.mem_cons] at hold
    simp only [put, List.map_cons, List.sum_cons]
    rcases hold with rfl | hold
    · have hne : ∀ s ∈ t, key s ≠ key row := fun s hs h => hn.1 s hs (h.trans hk.symm)
      have hput : put key row t = t := put_eq_self hne
      unfold put at hput
      rw [hput]
      simp only [hk, if_true]
      rw [add_right_comm, add_comm (f row), add_right_comm]
    · have hr : key r ≠ key row := fun h => hn.1 old hold (hk.trans h.symm)
      have := ih hn.2 hold
      unfold put at this
      simp only [hr, if_false]
      rw [add_assoc, this, add_assoc]

/-! ### Updating and deleting by a condition -/

section Conditions

variable {p : α → Bool} {f : α → α}

omit [DecidableEq κ]

/-- What an `UPDATE … WHERE` leaves. -/
theorem mem_update {x : α} :
    x ∈ update p f t ↔ (x ∈ t ∧ p x = false) ∨ ∃ r ∈ t, p r = true ∧ x = f r := by
  unfold update
  rw [List.mem_map]
  constructor
  · rintro ⟨r, hr, rfl⟩
    cases hp : p r
    · exact Or.inl ⟨by simpa [hp] using hr, by simp [hp]⟩
    · exact Or.inr ⟨r, hr, hp, by simp⟩
  · rintro (⟨hx, hp⟩ | ⟨r, hr, hp, rfl⟩)
    · exact ⟨x, hx, by simp [hp]⟩
    · exact ⟨r, hr, by simp [hp]⟩

theorem mem_update_of_mem (hr : r ∈ t) :
    (if p r then f r else r) ∈ update p f t :=
  List.mem_map_of_mem hr

theorem map_update {g : α → β} (hg : ∀ r, g (f r) = g r) (t : List α) :
    (update p f t).map g = t.map g := by
  unfold update
  rw [List.map_map]
  refine List.map_congr_left fun r _ => ?_
  simp only [Function.comp]
  split
  · exact hg r
  · rfl

/-- As `map_update`, where the rows updated keep the column. -/
theorem map_update_of_mem {g : α → β} (hg : ∀ r ∈ t, p r = true → g (f r) = g r) :
    (update p f t).map g = t.map g := by
  unfold update
  rw [List.map_map]
  refine List.map_congr_left fun r hr => ?_
  simp only [Function.comp]
  split
  · next hp => exact hg r hr hp
  · rfl

theorem countP_update {q : α → Bool}
    (hq : ∀ r ∈ t, p r = true → q (f r) = q r) : (update p f t).countP q = t.countP q := by
  have hmap := map_update_of_mem hq
  have hcount : ∀ l : List α, l.countP q = (l.map q).countP id := by
    intro l
    rw [List.countP_map]
    rfl
  rw [hcount, hcount, hmap]

theorem update_eq_self (h : ∀ r ∈ t, p r = false) : update p f t = t := by
  conv_rhs => rw [← List.map_id t]
  refine List.map_congr_left fun r hr => ?_
  simp [h r hr]

/-- An update whose condition picks out one row replaces it. -/
theorem update_eq_put [DecidableEq κ] (hn : (t.map key).Nodup) (hrow : row ∈ t)
    (hp : p row = true) (hk : key (f row) = key row) (hone : ∀ r ∈ t, p r = true → key r = key row) :
    update p f t = put key (f row) t := by
  refine List.map_congr_left fun r hr => ?_
  rw [hk]
  by_cases hrk : key r = key row
  · obtain rfl := eq_of_key hn hr hrow hrk
    rw [if_pos hp, if_pos rfl]
  · have hpr : p r = false := Bool.eq_false_iff.mpr fun h => hrk (hone r hr h)
    rw [hpr, if_neg Bool.false_ne_true, if_neg hrk]

theorem find_update [DecidableEq κ] (hk : ∀ r ∈ t, p r = true → key (f r) = key r) :
    find key (update p f t) k = (find key t k).map fun r => if p r then f r else r := by
  unfold find update
  rw [List.find?_map]
  congr 1
  induction t with
  | nil => rfl
  | cons r t ih =>
    have hr : key (if p r then f r else r) = key r := by
      split
      · next hp => exact hk r List.mem_cons_self hp
      · rfl
    have ih := ih fun s hs => hk s (List.mem_cons_of_mem r hs)
    simp only [List.find?_cons, Function.comp, hr]
    split
    · rfl
    · exact ih

/-- What a `DELETE … WHERE` leaves. -/
theorem mem_delete : x ∈ delete p t ↔ x ∈ t ∧ p x = false := by
  unfold delete
  simp

theorem nodup_delete (hn : (t.map key).Nodup) : ((delete p t).map key).Nodup :=
  hn.sublist (List.filter_sublist.map key)

theorem countP_delete_add (q : α → Bool) (t : List α) :
    (delete p t).countP q + (t.filter p).countP q = t.countP q := by
  have hsplit := List.countP_eq_countP_filter_add t q p
  unfold delete
  omega

theorem filter_eq_singleton [DecidableEq κ] (hn : (t.map key).Nodup) (hr : r ∈ t)
    (hp : p r = true) (hone : ∀ s ∈ t, p s = true → key s = key r) :
    t.filter p = [r] := by
  rw [← filter_key hn hr]
  refine List.filter_congr fun s hs => ?_
  by_cases hk : key s = key r
  · obtain rfl := eq_of_key hn hs hr hk
    simp [hp]
  · have hps : p s = false := Bool.eq_false_iff.mpr fun h => hk (hone s hs h)
    simp [hps, hk]

theorem delete_eq_erase [DecidableEq κ] (hn : (t.map key).Nodup) (hrow : row ∈ t)
    (hp : p row = true) (hone : ∀ r ∈ t, p r = true → key r = key row) :
    delete p t = erase key (key row) t := by
  refine List.filter_congr fun r hr => ?_
  by_cases hk : key r = key row
  · obtain rfl := eq_of_key hn hr hrow hk
    simp [hp]
  · have hpr : p r = false := Bool.eq_false_iff.mpr fun h => hk (hone r hr h)
    simp [hpr, hk]

end Conditions

/-! ### Removing a row -/

theorem mem_erase : x ∈ erase key k t ↔ x ∈ t ∧ key x ≠ k := by
  unfold erase
  simp

theorem nodup_erase (hn : (t.map key).Nodup) :
    ((erase key k t).map key).Nodup :=
  hn.sublist (List.filter_sublist.map key)

theorem put_perm (hn : (t.map key).Nodup) (hold : old ∈ t) (hk : key row = key old) :
    (put key row t).Perm (erase key (key old) t ++ [row]) := by
  induction t with
  | nil => cases hold
  | cons r t ih =>
    simp only [List.map_cons, List.nodup_cons, List.mem_map, not_exists, not_and] at hn
    rcases List.mem_cons.mp hold with rfl | hold
    · have hrest : ∀ s ∈ t, key s ≠ key row := fun s hs h => hn.1 s hs (h.trans hk)
      have hput : put key row (old :: t) = row :: put key row t := by simp [put, hk]
      have herase : erase key (key old) (old :: t) = t := by
        rw [erase, List.filter_cons_of_neg (by simp), List.filter_eq_self]
        intro s hs
        simpa [hk] using hrest s hs
      rw [hput, herase, put_eq_self hrest]
      exact (List.perm_append_singleton row t).symm
    · have hne : key r ≠ key old := fun h => hn.1 old hold h.symm
      have hput : put key row (r :: t) = r :: put key row t := by simp [put, hk, hne]
      have herase : erase key (key old) (r :: t) = r :: erase key (key old) t := by
        simp [erase, hne]
      rw [hput, herase]
      exact (ih hn.2 hold).cons r

/-! ### Guards -/

/-- A guard of a batch leaves the tables as they are, or aborts it. -/
theorem guard_some {σ : Type*} {t t' : σ} {valid : Bool}
    (h : (if valid then some t else none) = some t') : t' = t ∧ valid = true := by
  obtain ⟨hvalid, heq⟩ := Option.ite_none_right_eq_some.mp h
  exact ⟨(Option.some.inj heq).symm, hvalid⟩

/-! ### Inserting a row -/

theorem mem_insert {row : α} : x ∈ t ++ [row] ↔ x ∈ t ∨ x = row := by
  simp

omit [DecidableEq κ] in
theorem nodup_insert {row : α} (hn : (t.map key).Nodup)
    (h : ∀ r ∈ t, key r ≠ key row) : ((t ++ [row]).map key).Nodup := by
  rw [List.map_append, List.nodup_append]
  refine ⟨hn, by simp, ?_⟩
  intro a ha b hb
  obtain ⟨r, hr, rfl⟩ := List.mem_map.mp ha
  simp only [List.map_cons, List.map_nil, List.mem_singleton] at hb
  rw [hb]
  exact h r hr

/-! ### What holds of every key -/

/-- A table whose rows are all as `P` says, and whose free keys are all as `Q` says. -/
structure Kept (key : α → κ) (P : α → Prop) (Q : κ → Prop) (t : List α) : Prop where
  keys : (t.map key).Nodup
  rows : ∀ r ∈ t, P r
  free : ∀ k, (∀ r ∈ t, key r ≠ k) → Q k

namespace Kept

variable {P P' : α → Prop} {Q Q' : κ → Prop}

omit [DecidableEq κ]

theorem mono (h : Kept key P Q t) (hP : ∀ r ∈ t, P r → P' r) (hQ : ∀ k, Q k → Q' k) :
    Kept key P' Q' t :=
  ⟨h.keys, fun r hr => hP r hr (h.rows r hr), fun k hk => hQ k (h.free k hk)⟩

/-- A row inserted under a free key, where the other keys stay as they are. -/
theorem insert (h : Kept key P Q t) (hfree : ∀ r ∈ t, key r ≠ key row) (hrow : P' row)
    (hP : ∀ r ∈ t, key r ≠ key row → P r → P' r) (hQ : ∀ k, k ≠ key row → Q k → Q' k) :
    Kept key P' Q' (t ++ [row]) := by
  refine ⟨nodup_insert h.keys hfree, fun r hr => ?_, fun k hk => ?_⟩
  · rcases List.mem_append.mp hr with hr | hr
    · exact hP r hr (hfree r hr) (h.rows r hr)
    · rw [List.mem_singleton.mp hr]
      exact hrow
  · have hne : k ≠ key row := fun heq =>
      hk row (List.mem_append_right _ (List.mem_singleton_self row)) heq.symm
    exact hQ k hne (h.free k fun r hr => hk r (List.mem_append_left _ hr))

/-- The one row a condition picks out is replaced under its key. -/
theorem update (h : Kept key P Q t) {p : α → Bool} {f : α → α} (hrow : row ∈ t)
    (hone : ∀ r ∈ t, p r = true → key r = key row) (hp : p row = true) (hk : key (f row) = key row)
    (hnew : P' (f row)) (hP : ∀ r ∈ t, key r ≠ key row → P r → P' r)
    (hQ : ∀ k, k ≠ key row → Q k → Q' k) :
    Kept key P' Q' (update p f t) := by
  have hpicked : ∀ r ∈ t, p r = true → r = row := fun r hr hpr =>
    eq_of_key h.keys hr hrow (hone r hr hpr)
  refine ⟨?_, fun r hr => ?_, fun k hfree => ?_⟩
  · have hkeys : (Table.update p f t).map key = t.map key := by
      refine map_update_of_mem fun r hr hpr => ?_
      rw [hpicked r hr hpr, hk]
    rw [hkeys]
    exact h.keys
  · rcases mem_update.mp hr with ⟨hr, hpr⟩ | ⟨s, hs, hps, rfl⟩
    · have hne : key r ≠ key row := by
        intro heq
        rw [eq_of_key h.keys hr hrow heq, hp] at hpr
        cases hpr
      exact hP r hr hne (h.rows r hr)
    · rw [hpicked s hs hps]
      exact hnew
  · have hold : ∀ r ∈ t, key r ≠ k := by
      intro r hr heq
      refine hfree _ (mem_update_of_mem (p := p) (f := f) hr) ?_
      split
      · next hpr => rw [hpicked r hr hpr, hk, ← hpicked r hr hpr, heq]
      · exact heq
    exact hQ k (fun heq => hold row hrow heq.symm) (h.free k hold)

end Kept

/-! ### Conditional sums -/

section Sums

variable {M : Type*} [AddCommMonoid M]

/-- `COALESCE((SELECT SUM(f) FROM t WHERE p), 0)`. -/
def sumIf (p : α → Bool) (f : α → M) (t : List α) : M := (t.map fun r => if p r then f r else 0).sum

variable {p : α → Bool} {f : α → M}

omit [DecidableEq κ]

@[simp] theorem sumIf_nil : sumIf p f ([] : List α) = 0 := rfl

@[simp] theorem sumIf_cons (r : α) (t : List α) :
    sumIf p f (r :: t) = (if p r then f r else 0) + sumIf p f t := by
  simp [sumIf]

@[simp] theorem sumIf_append (t u : List α) : sumIf p f (t ++ u) = sumIf p f t + sumIf p f u := by
  simp [sumIf]

theorem sumIf_congr {q : α → Bool} {g : α → M}
    (h : ∀ r ∈ t, (if p r then f r else 0) = if q r then g r else 0) :
    sumIf p f t = sumIf q g t := by
  exact congrArg List.sum (List.map_congr_left h)

theorem sumIf_eq_zero (h : ∀ r ∈ t, p r = true → f r = 0) : sumIf p f t = 0 := by
  induction t with
  | nil => rfl
  | cons r t ih =>
    rw [sumIf_cons, ih fun s hs => h s (List.mem_cons_of_mem _ hs), add_zero]
    split
    · next hr => exact h r List.mem_cons_self hr
    · rfl

/-- A condition all rows agree on keeps the whole sum, or nothing of it. -/
theorem sumIf_const {b : Bool} (h : ∀ r ∈ t, p r = b) :
    sumIf p f t = if b then (t.map f).sum else 0 := by
  induction t with
  | nil => simp
  | cons r t ih =>
    rw [sumIf_cons, ih fun s hs => h s (List.mem_cons_of_mem _ hs), h r List.mem_cons_self]
    cases b <;> simp

/-- Rows a deletion keeps are summed under the kept condition. -/
theorem sumIf_filter (q : α → Bool) (t : List α) :
    sumIf p f (t.filter q) = sumIf (fun r => q r && p r) f t := by
  induction t with
  | nil => rfl
  | cons r t ih =>
    rw [List.filter_cons, sumIf_cons, ← ih]
    cases hq : q r <;> simp

theorem sumIf_eq_sum_filter (t : List α) : sumIf p f t = ((t.filter p).map f).sum := by
  induction t with
  | nil => rfl
  | cons r t ih =>
    rw [List.filter_cons, sumIf_cons, ih]
    cases hp : p r <;> simp

theorem sumIf_split (q : α → Bool) (t : List α) :
    sumIf p f t = sumIf (fun r => q r && p r) f t + sumIf (fun r => !q r && p r) f t := by
  induction t with
  | nil => simp
  | cons r t ih =>
    rw [sumIf_cons, sumIf_cons, sumIf_cons, ih]
    cases hq : q r
    · simp only [Bool.false_and, Bool.not_false, Bool.true_and, Bool.false_eq_true, if_false,
        zero_add]
      exact add_left_comm _ _ _
    · simp only [Bool.true_and, Bool.not_true, Bool.false_and, Bool.false_eq_true, if_false,
        zero_add]
      exact (add_assoc _ _ _).symm

/-- A row contributes its value to a sum over the others. -/
theorem sumIf_erase [DecidableEq κ] (hn : (t.map key).Nodup) (hr : row ∈ t) :
    sumIf p f (erase key (key row) t) + (if p row then f row else 0) = sumIf p f t := by
  induction t with
  | nil => simp at hr
  | cons r t ih =>
    simp only [List.map_cons, List.nodup_cons, List.mem_map, not_exists, not_and] at hn
    rw [List.mem_cons] at hr
    unfold erase at ih ⊢
    rw [List.filter_cons, sumIf_cons]
    rcases hr with rfl | hr
    · have hrest : (t.filter fun s => decide (key s ≠ key row)) = t := by
        rw [List.filter_eq_self]
        intro s hs
        exact decide_eq_true (hn.1 s hs)
      simp only [ne_eq, not_true_eq_false, decide_false, Bool.false_eq_true, if_false]
      rw [hrest, add_comm]
    · have hne : key r ≠ key row := fun h => hn.1 row hr h.symm
      simp only [hne, ne_eq, not_false_eq_true, decide_true, if_true, sumIf_cons]
      rw [add_assoc, ih hn.2 hr]

/-- `SUM(f) … WHERE p` after a row is replaced. -/
theorem sumIf_put [DecidableEq κ] (hn : (t.map key).Nodup) (hold : old ∈ t)
    (hk : key old = key row) :
    sumIf p f (put key row t) + (if p old then f old else 0) =
      sumIf p f t + if p row then f row else 0 :=
  sum_put hn hold hk

theorem sumIf_key [DecidableEq κ] (hn : (t.map key).Nodup) (hr : row ∈ t)
    (h : ∀ s ∈ t, p s = decide (key s = key row)) : sumIf p f t = f row := by
  have herase := sumIf_erase (p := p) (f := f) hn hr
  have hzero : sumIf p f (erase key (key row) t) = 0 := by
    refine sumIf_eq_zero fun s hs hp => ?_
    obtain ⟨hs, hk⟩ := mem_erase.mp hs
    rw [h s hs, decide_eq_true_eq] at hp
    exact absurd hp hk
  rw [hzero, zero_add, h row hr, decide_eq_true rfl, if_pos rfl] at herase
  exact herase.symm

theorem sumIf_add {g : α → M} (t : List α) :
    sumIf p (fun r => f r + g r) t = sumIf p f t + sumIf p g t := by
  induction t with
  | nil => simp
  | cons r t ih =>
    rw [sumIf_cons, sumIf_cons, sumIf_cons, ih]
    split
    · exact add_add_add_comm ..
    · simp

/-- Summing rows parent by parent: each row is counted once where it has exactly one parent. -/
theorem sumIf_fiber [DecidableEq κ] {pkey : β → κ} {u : List β} {q : β → Bool}
    (hn : (u.map pkey).Nodup) (t : List α)
    (hparent : ∀ r ∈ t, p r = true → ∃ b ∈ u, q b = true ∧ pkey b = key r) :
    sumIf q (fun b => sumIf (fun r => p r && decide (key r = pkey b)) f t) u = sumIf p f t := by
  induction t with
  | nil => exact sumIf_eq_zero fun _ _ _ => rfl
  | cons r t ih =>
    have hrest := ih fun s hs => hparent s (List.mem_cons_of_mem _ hs)
    simp only [sumIf_cons]
    rw [sumIf_add, hrest]
    congr 1
    cases hp : p r
    · exact sumIf_eq_zero fun _ _ _ => by simp
    obtain ⟨b, hb, hq, hk⟩ := hparent r List.mem_cons_self hp
    have hone : sumIf (fun c => decide (pkey c = pkey b)) (fun _ => f r) u = f r :=
      sumIf_key hn hb fun _ _ => rfl
    rw [if_pos rfl]
    refine Eq.trans (sumIf_congr fun c hc => ?_) hone
    by_cases hcb : pkey c = pkey b
    · rw [eq_of_key hn hc hb hcb, hq]
      simp [hk]
    · have hne : ¬key r = pkey c := fun h => hcb (h.symm.trans hk.symm)
      simp [hcb, hne]

end Sums

section OrderedSums

variable {p q : α → Bool} {f : α → ℕ}

omit [DecidableEq κ]

theorem sumIf_le_of_imp (h : ∀ r ∈ t, p r = true → q r = true) :
    sumIf p f t ≤ sumIf q f t := by
  induction t with
  | nil => simp
  | cons r t ih =>
    have := ih fun s hs => h s (List.mem_cons_of_mem _ hs)
    have hr := h r List.mem_cons_self
    rw [sumIf_cons, sumIf_cons]
    cases hp : p r
    · simp only [Bool.false_eq_true, if_false]
      omega
    · rw [hr hp]
      omega

theorem le_sumIf (hr : r ∈ t) (hp : p r = true) : f r ≤ sumIf p f t := by
  induction t with
  | nil => simp at hr
  | cons s t ih =>
    rw [sumIf_cons]
    rcases List.mem_cons.mp hr with rfl | hr
    · simp [hp]
    · have := ih hr
      omega

theorem sumIf_nonpos {g : α → ℤ} (h : ∀ r ∈ t, p r = true → g r ≤ 0) :
    sumIf p g t ≤ 0 := by
  induction t with
  | nil => simp
  | cons r t ih =>
    have := ih fun s hs => h s (List.mem_cons_of_mem _ hs)
    rw [sumIf_cons]
    split
    · next hr =>
      have := h r List.mem_cons_self hr
      omega
    · omega

theorem sumIf_nonneg {g : α → ℤ} (h : ∀ r ∈ t, p r = true → 0 ≤ g r) :
    0 ≤ sumIf p g t := by
  induction t with
  | nil => simp
  | cons r t ih =>
    have := ih fun s hs => h s (List.mem_cons_of_mem _ hs)
    rw [sumIf_cons]
    split
    · next hr =>
      have := h r List.mem_cons_self hr
      omega
    · omega

theorem sumIf_natCast (t : List α) : ((sumIf p f t : ℕ) : ℤ) = sumIf p (fun r => (f r : ℤ)) t := by
  induction t with
  | nil => simp
  | cons r t ih =>
    rw [sumIf_cons, sumIf_cons, ← ih]
    split <;> simp

end OrderedSums

end Table
