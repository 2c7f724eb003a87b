import Takoserver.ObjectStore.Listing

/-!
# Groups and entries

A listing shows the keys of its prefix as entries: a key without the delimiter
after the prefix is an object, and the keys whose part up to the first delimiter
is the same are one group.  In key order the keys of a group stand together, and
the ceiling of a group is where the next entry starts.
-/

namespace Takoserver.ObjectStore

/-! ### Ceilings of code points -/

theorem toNat_lt_or (c : Char) : c.toNat < 0xd800 ∨ 0xdfff < c.toNat ∧ c.toNat < 0x110000 := by
  have h := c.valid
  exact h

theorem char_le_iff {a b : Char} : a ≤ b ↔ a.toNat ≤ b.toNat := Iff.rfl

theorem char_lt_iff {a b : Char} : a < b ↔ a.toNat < b.toNat := Iff.rfl

theorem toNat_ofNat {n : ℕ} (h : n.isValidChar) : (Char.ofNat n).toNat = n := by
  unfold Char.ofNat
  rw [dif_pos h]
  rfl

theorem successor_next : Prefixes.Successor successor := by
  constructor
  · intro c d h x
    unfold successor at h
    split at h
    · cases h
    next =>
    cases h
    have hx := toNat_lt_or x
    rw [char_lt_iff, char_le_iff]
    split
    · rw [toNat_ofNat (by decide)]
      omega
    · rw [toNat_ofNat]
      · omega
      · simp only [Nat.isValidChar]
        omega
  · intro c h x
    unfold successor at h
    split at h
    · next =>
      have hx := toNat_lt_or x
      rw [char_le_iff]
      omega
    · cases h

theorem carry_eq (points : Points) : carry points = Prefixes.ceiling successor points.reverse := by
  induction points with
  | nil => rfl
  | cons c rest ih =>
    rw [List.reverse_cons, Prefixes.ceiling_concat]
    cases h : successor c <;> simp [carry, h, ih]

theorem prefixCeiling_eq (points : Points) :
    prefixCeiling points = Prefixes.ceiling successor points := by
  rw [prefixCeiling, carry_eq, List.reverse_reverse]

/-- **`prefixCeiling` bounds exactly the strings that start with the prefix**, among those that
are at least it. -/
theorem prefixCeiling_iff {p s : Points} :
    p <+: s ↔ ¬s < p ∧ ∀ ceiling, prefixCeiling p = some ceiling → s < ceiling := by
  rw [prefixCeiling_eq]
  exact Prefixes.prefix_iff successor_next

/-! ### The first delimiter -/

variable {delimiter rest : Points} {found : ℕ}

theorem indexOf_some (h : indexOf delimiter rest = some found) :
    delimiter <+: rest.drop found := by
  induction rest generalizing found with
  | nil => cases h
  | cons c rest ih =>
    unfold indexOf at h
    split at h
    · next hp =>
      cases h
      exact List.isPrefixOf_iff_prefix.mp hp
    · obtain ⟨_, hfound, rfl⟩ := Option.map_eq_some_iff.mp h
      exact ih hfound

theorem indexOf_length (h : indexOf delimiter rest = some found) :
    found + delimiter.length ≤ rest.length := by
  have hle := (indexOf_some h).length_le
  have hlt : found ≤ rest.length := by
    by_contra hlt
    induction rest generalizing found with
    | nil => cases h
    | cons c rest ih =>
      unfold indexOf at h
      split at h
      · cases h
        exact hlt (Nat.zero_le _)
      · obtain ⟨_, hfound, rfl⟩ := Option.map_eq_some_iff.mp h
        refine ih hfound (by simpa using hle) ?_
        rw [List.length_cons] at hlt
        omega
  rw [List.length_drop] at hle
  omega

theorem indexOf_of_take_prefix {rest' : Points} (hne : delimiter ≠ [])
    (h : indexOf delimiter rest = some found)
    (hrest : rest.take (found + delimiter.length) <+: rest') :
    indexOf delimiter rest' = some found := by
  induction rest generalizing found rest' with
  | nil => cases h
  | cons c rest ih =>
    have hlength := indexOf_length h
    unfold indexOf at h
    split at h
    · next hp =>
      cases h
      rw [List.isPrefixOf_iff_prefix] at hp
      rw [Nat.zero_add, ← List.prefix_iff_eq_take.mp hp] at hrest
      cases rest' with
      | nil => exact absurd (List.prefix_nil.mp hrest) hne
      | cons =>
        unfold indexOf
        rw [if_pos (List.isPrefixOf_iff_prefix.mpr hrest)]
    · next hp =>
      obtain ⟨found, hfound, rfl⟩ := Option.map_eq_some_iff.mp h
      rw [show found + 1 + delimiter.length = (found + delimiter.length) + 1 by omega,
        List.take_succ_cons] at hrest
      cases rest' with
      | nil => exact absurd (List.prefix_nil.mp hrest) (by simp)
      | cons c' rest' =>
        obtain ⟨rfl, htail⟩ := List.cons_prefix_cons.mp hrest
        have hlater : ¬delimiter.isPrefixOf (c :: rest') = true := by
          rw [List.isPrefixOf_iff_prefix]
          intro hp'
          -- an earlier delimiter would end within what both have in common
          have hcommon : c :: rest.take (found + delimiter.length) <+: c :: rest' :=
            List.cons_prefix_cons.mpr ⟨rfl, htail⟩
          have hshort : delimiter.length ≤ (c :: rest.take (found + delimiter.length)).length := by
            rw [List.length_cons, List.length_take]
            rw [List.length_cons] at hlength
            omega
          have hwithin := List.prefix_of_prefix_length_le hp' hcommon hshort
          refine hp (List.isPrefixOf_iff_prefix.mpr (hwithin.trans ?_))
          exact List.cons_prefix_cons.mpr ⟨rfl, List.take_prefix _ _⟩
        unfold indexOf
        rw [if_neg hlater, ih hfound htail]
        rfl

theorem indexOf_isSome_iff (hne : delimiter ≠ []) :
    (indexOf delimiter rest).isSome = true ↔ delimiter <:+: rest := by
  constructor
  · intro h
    obtain ⟨found, hfound⟩ := Option.isSome_iff_exists.mp h
    exact (indexOf_some hfound).isInfix.trans (List.drop_suffix found rest).isInfix
  intro h
  induction rest with
  | nil => exact absurd (List.infix_nil.mp h) hne
  | cons c rest ih =>
    unfold indexOf
    split
    · rfl
    · next hp =>
      rw [Option.isSome_map]
      refine ih ((List.infix_cons_iff.mp h).resolve_left fun hstart => hp ?_)
      exact List.isPrefixOf_iff_prefix.mpr hstart

/-! ### The keys of a group -/

namespace Query

variable {q : Query} {key key' group : Points}

/-- A delimiter occurs after the prefix. -/
def delimited (q : Query) (key : Points) : Bool :=
  match q.delimiter with
  | none | some [] => false
  | some delimiter => decide (delimiter <:+: key.drop q.keyPrefix.length)

/-- **A key is rolled up exactly where a delimiter occurs after the prefix.** -/
theorem group_isSome (q : Query) (key : Points) : (q.group key).isSome = q.delimited key := by
  unfold Query.group delimited
  cases q.delimiter with
  | none => rfl
  | some delimiter =>
    cases delimiter with
    | nil => rfl
    | cons c rest =>
      rw [Bool.eq_iff_iff, Option.isSome_map, indexOf_isSome_iff (by simp), decide_eq_true_iff]

theorem group_some (h : q.group key = some group) :
    ∃ delimiter found, q.delimiter = some delimiter ∧ delimiter ≠ [] ∧
      indexOf delimiter (key.drop q.keyPrefix.length) = some found ∧
      group = q.keyPrefix ++ (key.drop q.keyPrefix.length).take (found + delimiter.length) := by
  unfold Query.group at h
  split at h
  · cases h
  · cases h
  · next delimiter hne hd =>
    obtain ⟨found, hfound, rfl⟩ := Option.map_eq_some_iff.mp h
    exact ⟨delimiter, found, hd, hne, hfound, rfl⟩

theorem prefix_of_group (hp : q.keyPrefix <+: key) (h : q.group key = some group) : group <+: key := by
  obtain ⟨_, _, -, -, -, rfl⟩ := group_some h
  obtain ⟨_, rfl⟩ := hp
  rw [List.drop_left]
  exact (List.prefix_append_right_inj _).mpr (List.take_prefix _ _)

theorem group_of_prefix (h : q.group key = some group) (hkey : group <+: key') :
    q.group key' = some group := by
  obtain ⟨delimiter, found, hd, hne, hfound, rfl⟩ := group_some h
  obtain ⟨more, rfl⟩ := hkey
  have hdrop : (q.keyPrefix ++ (key.drop q.keyPrefix.length).take (found + delimiter.length) ++
      more).drop q.keyPrefix.length =
        (key.drop q.keyPrefix.length).take (found + delimiter.length) ++ more := by
    rw [List.append_assoc, List.drop_left]
  have hsame := indexOf_of_take_prefix hne hfound (List.prefix_append
    ((key.drop q.keyPrefix.length).take (found + delimiter.length)) more)
  have hlength := indexOf_length hfound
  unfold Query.group
  rw [hd]
  split
  · next heq => cases heq
  · next heq => exact absurd (Option.some.inj heq) hne
  · next heq =>
    cases heq
    simp only [hdrop, hsame, Option.map_some]
    rw [List.take_append_of_le_length]
    · rw [List.take_take, Nat.min_self]
    · rw [List.length_take]
      omega

/-- **The keys of a group are those that start with it.** -/
theorem group_iff (h : q.group key = some group) (hp : q.keyPrefix <+: key') :
    q.group key' = some group ↔ group <+: key' :=
  ⟨fun h' => prefix_of_group hp h', fun h' => group_of_prefix h h'⟩

end Query

/-! ### Entries -/

/-- What a listing shows: a row, or a group of them. -/
inductive Entry where
  | object (row : Row)
  | group (name : Points)

namespace Entry

/-- The key of an object, or the name of a group. -/
def name : Entry → Points
  | object row => row.key
  | group name => name

/-- The object of an entry. -/
def object? : Entry → Option Row
  | object row => some row
  | group _ => none

/-- The group of an entry. -/
def group? : Entry → Option Points
  | object _ => none
  | group name => some name

end Entry

namespace Query

variable {q : Query} {rows : List Row}

/-- The entry that shows a row. -/
def entry (q : Query) (row : Row) : Entry :=
  match q.group row.key with
  | some group => .group group
  | none => .object row

/-- The entries that show rows in key order, after one of a group: the rows that go on with
the group show nothing. -/
def entriesFrom (q : Query) : Option Points → List Row → List Entry
  | _, [] => []
  | last, row :: rows =>
    match q.group row.key with
    | none => .object row :: q.entriesFrom none rows
    | some group =>
      if last = some group then q.entriesFrom last rows
      else .group group :: q.entriesFrom (some group) rows

section

-- made here once, and not by all the proofs at a time that unfold it
attribute [local simp] entriesFrom

end

/-- The row is of the group. -/
def inGroup (q : Query) (group : Points) (row : Row) : Bool := q.group row.key = some group

variable {row : Row}

theorem entriesFrom_object (h : q.group row.key = none) (last : Option Points) :
    q.entriesFrom last (row :: rows) = .object row :: q.entriesFrom none rows := by
  rw [entriesFrom, h]

variable {group : Points}

theorem entriesFrom_group (h : q.group row.key = some group) :
    q.entriesFrom none (row :: rows) = .group group :: q.entriesFrom (some group) rows := by
  rw [entriesFrom, h]
  rfl

/-- After an entry of a group the rows of the group are passed over. -/
theorem entriesFrom_some (group : Points) :
    q.entriesFrom (some group) rows = q.entriesFrom none (rows.dropWhile (q.inGroup group)) := by
  induction rows with
  | nil => rfl
  | cons row rows ih =>
    by_cases h : q.group row.key = some group
    · have hin : q.inGroup group row = true := decide_eq_true h
      rw [List.dropWhile_cons_of_pos hin, ← ih, entriesFrom, h]
      simp
    have hin : ¬q.inGroup group row = true := by
      simpa [inGroup] using h
    rw [List.dropWhile_cons_of_neg hin, entriesFrom, entriesFrom]
    cases hg : q.group row.key with
    | none => rfl
    | some group' =>
      have hne : group ≠ group' := by
        rintro rfl
        exact h hg
      simp [hne]

theorem mem_entriesFrom {last : Option Points} {e : Entry} (h : e ∈ q.entriesFrom last rows) :
    ∃ row ∈ rows, q.entry row = e := by
  induction rows generalizing last with
  | nil => cases h
  | cons row rows ih =>
    have hrest : ∀ last', e ∈ q.entriesFrom last' rows → ∃ r ∈ row :: rows, q.entry r = e := by
      intro last' h'
      obtain ⟨r, hr, he⟩ := ih h'
      exact ⟨r, List.mem_cons_of_mem _ hr, he⟩
    unfold entriesFrom at h
    split at h
    · next hg =>
      rcases List.mem_cons.mp h with rfl | h
      · exact ⟨row, List.mem_cons_self, by simp [entry, hg]⟩
      · exact hrest _ h
    · next hg =>
      split at h
      · exact hrest _ h
      · rcases List.mem_cons.mp h with rfl | h
        · exact ⟨row, List.mem_cons_self, by simp [entry, hg]⟩
        · exact hrest _ h

theorem objects_entriesFrom (last : Option Points) (rows : List Row) :
    (q.entriesFrom last rows).filterMap Entry.object? =
      rows.filter fun row => q.group row.key = none := by
  induction rows generalizing last with
  | nil => rfl
  | cons _ _ ih =>
    unfold entriesFrom
    split
    · next hg => simp [Entry.object?, ih, hg]
    · next hg =>
      split
      · rw [ih, List.filter_cons_of_neg (by simp [hg])]
      · rw [List.filterMap_cons_none (by rfl), ih, List.filter_cons_of_neg (by simp [hg])]

theorem group_mem_entriesFrom (hrow : row ∈ rows)
    (h : q.group row.key = some group) (last : Option Points) :
    last = some group ∨ Entry.group group ∈ q.entriesFrom last rows := by
  induction rows generalizing last with
  | nil => cases hrow
  | cons _ _ ih =>
    unfold entriesFrom
    rcases List.mem_cons.mp hrow with rfl | hrow
    · rw [h]
      by_cases hlast : last = some group
      · exact Or.inl hlast
      · simp [hlast]
    · split
      · rcases ih hrow none with hnone | hmem
        · cases hnone
        · exact Or.inr (List.mem_cons_of_mem _ hmem)
      · next group' _ =>
        split
        · exact ih hrow last
        · rcases ih hrow (some group') with heq | hmem
          · cases heq
            exact Or.inr List.mem_cons_self
          · exact Or.inr (List.mem_cons_of_mem _ hmem)

/-! ### Entries in key order -/

/-- Rows of the prefix in the order of their keys. -/
structure Ordered (q : Query) (rows : List Row) : Prop where
  sorted : rows.Pairwise fun a b => a.key < b.key
  matching : ∀ row ∈ rows, q.keyPrefix <+: row.key

theorem Ordered.tail (h : q.Ordered (row :: rows)) : q.Ordered rows :=
  ⟨(List.pairwise_cons.mp h.sorted).2, fun r hr => h.matching r (List.mem_cons_of_mem _ hr)⟩

theorem Ordered.of_sublist {rows' : List Row} (h : q.Ordered rows) (hsub : rows'.Sublist rows) :
    q.Ordered rows' :=
  ⟨h.sorted.sublist hsub, fun r hr => h.matching r (hsub.subset hr)⟩

/-- A row between two of a group is in the group. -/
theorem inGroup_between {a b c : Row} (hc : q.keyPrefix <+: c.key)
    (hab : a.key < b.key) (hbc : ¬c.key < b.key) (ha : q.group a.key = some group)
    (hap : q.keyPrefix <+: a.key) (hgroup : q.group c.key = some group) :
    q.group b.key = some group := by
  refine group_of_prefix hgroup ?_
  refine Prefixes.prefix_of_between successor_next (prefix_of_group hc hgroup) ?_ hbc
  intro hlt
  exact Prefixes.not_lt_of_prefix successor_next (prefix_of_group hap ha) (hab.trans hlt)

theorem not_inGroup_of_dropWhile (h : q.Ordered (row :: rows))
    (hg : q.group row.key = some group) :
    ∀ r ∈ rows.dropWhile (q.inGroup group), q.group r.key ≠ some group := by
  intro r hr heq
  have htail := h.tail.of_sublist (List.dropWhile_sublist (q.inGroup group))
  cases hdrop : rows.dropWhile (q.inGroup group) with
  | nil =>
    rw [hdrop] at hr
    cases hr
  | cons first rest =>
    have hfirst : ¬q.inGroup group first = true := by
      have := List.head_dropWhile_not (q.inGroup group) (by rw [hdrop]; simp)
      simpa [hdrop] using this
    rw [hdrop] at hr htail
    have hmem : ∀ x ∈ first :: rest, x ∈ rows := fun x hx =>
      (List.dropWhile_sublist (q.inGroup group)).subset (hdrop ▸ hx)
    have hbefore : row.key < first.key :=
      (List.pairwise_cons.mp h.sorted).1 first (hmem first List.mem_cons_self)
    have hafter : ¬r.key < first.key := by
      rcases List.mem_cons.mp hr with rfl | hr
      · exact lt_irrefl _
      · exact lt_asymm ((List.pairwise_cons.mp htail.sorted).1 r hr)
    refine hfirst (decide_eq_true ?_)
    exact inGroup_between (htail.matching r hr) hbefore hafter hg
      (h.matching row List.mem_cons_self) heq

theorem name_lt {a b : Row} (ha : q.keyPrefix <+: a.key) (hb : q.keyPrefix <+: b.key)
    (hlt : a.key < b.key) (hne : q.entry a ≠ q.entry b) : (q.entry a).name < (q.entry b).name := by
  unfold entry at hne ⊢
  -- where the later name is not above the earlier key, both rows are in its group
  have hbetween : ∀ group, q.group b.key = some group → ¬a.key < group → q.group a.key = some group :=
    fun group hgroup hle => group_of_prefix hgroup
      (Prefixes.prefix_of_between successor_next (prefix_of_group hb hgroup) hle (lt_asymm hlt))
  cases hga : q.group a.key with
  | none =>
    cases hgb : q.group b.key with
    | none => exact hlt
    | some group =>
      by_contra hle
      have := hbetween group hgb hle
      rw [hga] at this
      cases this
  | some group =>
    have hle : group ≤ a.key :=
      not_lt.mp (Prefixes.not_lt_of_prefix successor_next (prefix_of_group ha hga))
    cases hgb : q.group b.key with
    | none => exact lt_of_le_of_lt hle hlt
    | some group' =>
      by_contra hnot
      have := hbetween group' hgb (not_lt.mpr ((not_lt.mp hnot).trans hle))
      rw [hga, hgb] at hne
      rw [hga] at this
      exact hne (by rw [Option.some.inj this])

/-- **Entries come in the order of their names.** -/
theorem entriesFrom_sorted (h : q.Ordered rows) :
    (q.entriesFrom none rows).Pairwise fun a b => a.name < b.name := by
  induction hn : rows.length using Nat.strong_induction_on generalizing rows with
  | _ n ih =>
    cases rows with
    | nil => exact List.Pairwise.nil
    | cons row rows =>
      have hrow := h.matching row List.mem_cons_self
      have hlater := (List.pairwise_cons.mp h.sorted).1
      cases hg : q.group row.key with
      | none =>
        rw [entriesFrom_object hg]
        refine List.pairwise_cons.mpr ⟨fun e he => ?_, ih rows.length (by simp [← hn]) h.tail rfl⟩
        obtain ⟨r, hr, rfl⟩ := mem_entriesFrom he
        have hentry : q.entry row = .object row := by simp [entry, hg]
        have hlt := name_lt hrow (h.tail.matching r hr) (hlater r hr) ?_
        · rwa [hentry] at hlt
        · rw [hentry]
          unfold entry
          split
          · simp
          · intro heq
            have := hlater r hr
            rw [Entry.object.inj heq] at this
            exact lt_irrefl _ this
      | some group =>
        rw [entriesFrom_group hg, entriesFrom_some]
        have hsub := List.dropWhile_sublist (q.inGroup group) (l := rows)
        refine List.pairwise_cons.mpr ⟨fun e he => ?_,
          ih _ ?_ (h.tail.of_sublist hsub) rfl⟩
        · obtain ⟨r, hr, rfl⟩ := mem_entriesFrom he
          have hentry : q.entry row = .group group := by simp [entry, hg]
          have hlt := name_lt hrow (h.tail.matching r (hsub.subset hr))
            (hlater r (hsub.subset hr)) ?_
          · rwa [hentry] at hlt
          rw [hentry]
          have hother := not_inGroup_of_dropWhile h hg r hr
          unfold entry
          split
          · next hg' =>
            intro heq
            rw [Entry.group.inj heq] at hother
            exact hother hg'
          · simp
        · have := hsub.length_le
          rw [← hn, List.length_cons]
          omega

end Query

end Takoserver.ObjectStore
