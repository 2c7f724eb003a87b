import Takoserver.ObjectStore.Cursors
import Takoserver.ObjectStore.Groups

/-!
# One page of a listing

A page takes the entries that come next, as many as its limit, and its cursor
stands at the row after them.  The passes run out only in a group of nothing but
U+10FFFF: such a group has no ceiling to jump to, its rows are passed over one by
one, and a page that stops among them hands out a cursor inside the group.
-/

namespace Takoserver.ObjectStore

/-! ### What a bound has left -/

theorem Bound.admits_mono {bound : Bound} {key key' : Points} (h : bound.admits key = true)
    (hle : ¬key' < key) : bound.admits key' = true := by
  unfold Bound.admits at h ⊢
  split
  · next hi =>
    rw [hi, if_pos rfl, decide_eq_true_eq] at h
    exact decide_eq_true fun hlt => h (lt_of_le_of_lt (not_lt.mp hle) hlt)
  · next hi =>
    rw [if_neg hi, decide_eq_true_eq] at h
    exact decide_eq_true (lt_of_lt_of_le h (not_lt.mp hle))

theorem Bucket.rows_sorted (bucket : Bucket) :
    bucket.rows.Pairwise fun a b => a.key < b.key :=
  List.pairwise_map.mp bucket.sorted

variable {next : Points}

namespace Query

variable {q : Query} {rows : List Row}

/-- The rows a walk that stands at a bound has left. -/
def remaining (q : Query) (rows : List Row) (bound : Bound) : List Row :=
  rows.filter fun row => bound.admits row.key &&
    match q.ceiling with
    | none => true
    | some ceiling => decide (row.key < ceiling)

theorem select_eq (bound : Bound) :
    q.select rows bound = (q.remaining rows bound).take (q.limit + 1) := rfl

/-- A bound further on takes from the rows that are left. -/
theorem remaining_narrow (bound : Bound) {bound' : Bound}
    (h : ∀ key, bound'.admits key = true → bound.admits key = true) :
    q.remaining rows bound' = (q.remaining rows bound).filter fun row => bound'.admits row.key := by
  unfold remaining
  rw [List.filter_filter]
  refine List.filter_congr fun row _ => ?_
  cases h' : bound'.admits row.key with
  | false => simp
  | true => simp [h _ h']

/-- The rows of the prefix. -/
def matching (q : Query) (rows : List Row) : List Row :=
  rows.filter fun row => q.keyPrefix.isPrefixOf row.key

theorem ceiling_eq : q.ceiling = prefixCeiling q.keyPrefix := by
  unfold Query.ceiling
  split
  · next h =>
    rw [h]
    rfl
  · rfl

/-- A listing starts with the rows of its prefix. -/
theorem remaining_start : q.remaining rows ⟨q.keyPrefix, true⟩ = q.matching rows := by
  refine List.filter_congr fun row _ => ?_
  rw [Bool.eq_iff_iff, List.isPrefixOf_iff_prefix, prefixCeiling_iff, Bool.and_eq_true, ceiling_eq]
  refine and_congr ?_ ?_
  · simp [Bound.admits]
  · cases prefixCeiling q.keyPrefix <;> simp

variable {bound : Bound} {row : Row} {rest : List Row}

theorem admits_of_remaining (h : q.remaining rows bound = row :: rest) {key : Points}
    (hle : ¬key < row.key) : bound.admits key = true := by
  have hmem : row ∈ q.remaining rows bound := by
    rw [h]
    exact List.mem_cons_self
  exact Bound.admits_mono (Bool.and_eq_true_iff.mp (List.mem_filter.mp hmem).2).1 hle

section

variable (hsorted : rows.Pairwise fun a b => a.key < b.key)

include hsorted

theorem remaining_sorted :
    (q.remaining rows bound).Pairwise fun a b => a.key < b.key :=
  hsorted.filter _

theorem remaining_after (h : q.remaining rows bound = row :: rest)
    : q.remaining rows ⟨row.key, false⟩ = rest := by
  have hlater : (q.remaining rows bound).Pairwise _ := remaining_sorted hsorted
  rw [h] at hlater
  rw [remaining_narrow bound, h, List.filter_cons_of_neg, List.filter_eq_self]
  · intro r hr
    simpa [Bound.admits] using (List.pairwise_cons.mp hlater).1 r hr
  · simp [Bound.admits]
  · intro key hkey
    refine admits_of_remaining h (lt_asymm ?_)
    simpa [Bound.admits] using hkey

theorem remaining_at (h : q.remaining rows bound = row :: rest)
    : q.remaining rows ⟨row.key, true⟩ = row :: rest := by
  have hlater : (q.remaining rows bound).Pairwise _ := remaining_sorted hsorted
  rw [h] at hlater
  rw [remaining_narrow bound, h, List.filter_eq_self]
  · intro r hr
    rcases List.mem_cons.mp hr with rfl | hr
    · simp [Bound.admits]
    · simpa [Bound.admits] using le_of_lt ((List.pairwise_cons.mp hlater).1 r hr)
  · intro key hkey
    refine admits_of_remaining h ?_
    simpa [Bound.admits] using hkey

end

/-- A row of the prefix that comes after one of a group is below the ceiling of the group
exactly where it is in the group. -/
theorem below_ceiling_iff {group : Points} {r : Row} (hnext : prefixCeiling group = some next)
    (hg : q.group row.key = some group) (hp : q.keyPrefix <+: row.key) (hr : q.keyPrefix <+: r.key)
    (hle : ¬r.key < row.key) : r.key < next ↔ q.group r.key = some group := by
  have hstart : ¬r.key < group := fun hlt =>
    Prefixes.not_lt_of_prefix successor_next (prefix_of_group hp hg)
      (lt_of_le_of_lt (not_lt.mp hle) hlt)
  rw [group_iff hg hr, prefixCeiling_iff]
  constructor
  · intro hlt
    refine ⟨hstart, fun ceiling hc => ?_⟩
    obtain rfl := Option.some.inj (hnext.symm.trans hc)
    exact hlt
  · intro h
    exact h.2 next hnext

theorem remaining_jump {group : Points} (hordered : q.Ordered (row :: rest))
    (h : q.remaining rows bound = row :: rest) (hg : q.group row.key = some group)
    (hnext : prefixCeiling group = some next) :
    q.remaining rows ⟨next, true⟩ = rest.dropWhile (q.inGroup group) := by
  have hrow := hordered.matching row List.mem_cons_self
  have hbelow : row.key < next := (below_ceiling_iff hnext hg hrow hrow (lt_irrefl _)).mpr hg
  have hout : ∀ r ∈ rest, (Bound.admits ⟨next, true⟩ r.key) = !q.inGroup group r := by
    intro r hr
    have hiff := below_ceiling_iff hnext hg hrow (hordered.tail.matching r hr)
      (lt_asymm ((List.pairwise_cons.mp hordered.sorted).1 r hr))
    simp only [Bound.admits, if_true, inGroup, ← hiff, decide_not]
  rw [remaining_narrow bound, h, List.filter_cons_of_neg, List.filter_congr hout]
  · -- of the rows that follow, those of the group come first
    conv_lhs => rw [← List.takeWhile_append_dropWhile (p := q.inGroup group) (l := rest)]
    rw [List.filter_append, List.filter_eq_nil_iff.mpr, List.nil_append, List.filter_eq_self]
    · intro r hr
      simpa [inGroup] using not_inGroup_of_dropWhile hordered hg r hr
    · intro r hr
      simpa using List.all_eq_true.mp (List.all_takeWhile (p := q.inGroup group) (l := rest)) r hr
  · simp [Bound.admits, hbelow]
  · intro key hkey
    refine admits_of_remaining h fun hlt => ?_
    have : ¬key < next := by simpa [Bound.admits] using hkey
    exact this (hlt.trans hbelow)

/-! ### Where a listing stands -/

/-- A bound has these rows left, which are rows of the prefix. -/
structure Stands (q : Query) (bucket : Bucket) (bound : Bound) (left : List Row) : Prop where
  left_eq : q.remaining bucket.rows bound = left
  ordered : q.Ordered left

/-- The bound is at a row of the prefix, or after it. -/
structure Held (q : Query) (bound : Bound) : Prop where
  valid : validKey bound.key = true
  starts : q.keyPrefix <+: bound.key

namespace Stands

variable {bucket : Bucket} {left : List Row}

theorem after (h : q.Stands bucket bound (row :: left)) : q.Stands bucket ⟨row.key, false⟩ left :=
  ⟨remaining_after bucket.rows_sorted h.left_eq, h.ordered.tail⟩

theorem here (h : q.Stands bucket bound (row :: left)) :
    q.Stands bucket ⟨row.key, true⟩ (row :: left) :=
  ⟨remaining_at bucket.rows_sorted h.left_eq, h.ordered⟩

theorem jump {group : Points} (h : q.Stands bucket bound (row :: left))
    (hg : q.group row.key = some group) (hnext : prefixCeiling group = some next) :
    q.Stands bucket ⟨next, true⟩ (left.dropWhile (q.inGroup group)) :=
  ⟨remaining_jump h.ordered h.left_eq hg hnext,
    h.ordered.tail.of_sublist (List.dropWhile_sublist _)⟩

theorem held (h : q.Stands bucket bound (row :: left)) (inclusive : Bool) :
    q.Held ⟨row.key, inclusive⟩ := by
  have hmem : row ∈ q.remaining bucket.rows bound := by
    rw [h.left_eq]
    exact List.mem_cons_self
  exact ⟨bucket.valid row (List.mem_filter.mp hmem).1, h.ordered.matching row List.mem_cons_self⟩

theorem start (bucket : Bucket) :
    q.Stands bucket ⟨q.keyPrefix, true⟩ (q.matching bucket.rows) where
  left_eq := remaining_start
  ordered := ⟨bucket.rows_sorted.filter _, fun _ hr =>
    List.isPrefixOf_iff_prefix.mp (List.mem_filter.mp hr).2⟩

end Stands

end Query

/-! ### What a walk shows -/

/-- What a page has room for is counted in entries. -/
def Walk.count (w : Walk) : ℕ := w.objects.length + w.prefixes.length

/-- The second walk shows these entries after those of the first. -/
structure Walk.Shows (w w' : Walk) (entries : List Entry) : Prop where
  objects : w'.objects = w.objects ++ entries.filterMap Entry.object?
  prefixes : w'.prefixes = w.prefixes ++ entries.filterMap Entry.group?

/-- An entry is an object or a group. -/
theorem length_entries (entries : List Entry) :
    (entries.filterMap Entry.object?).length + (entries.filterMap Entry.group?).length =
      entries.length := by
  induction entries with
  | nil => rfl
  | cons e _ ih =>
    cases e with
    | object =>
      rw [List.filterMap_cons_some (by rfl), List.filterMap_cons_none (by rfl), List.length_cons,
        List.length_cons, ← ih]
      omega
    | group =>
      rw [List.filterMap_cons_none (by rfl), List.filterMap_cons_some (by rfl), List.length_cons,
        List.length_cons, ← ih]
      omega

namespace Walk.Shows

variable {w w' w'' : Walk} {entries entries' : List Entry}

theorem count (h : w.Shows w' entries) : w'.count = w.count + entries.length := by
  have := length_entries entries
  unfold Walk.count
  rw [h.objects, h.prefixes, List.length_append, List.length_append]
  omega

theorem trans (h : w.Shows w' entries) (h' : w'.Shows w'' entries') :
    w.Shows w'' (entries ++ entries') where
  objects := by rw [h'.objects, h.objects, List.filterMap_append, List.append_assoc]
  prefixes := by rw [h'.prefixes, h.prefixes, List.filterMap_append, List.append_assoc]

theorem moved (w : Walk) (bound : Bound) : w.Shows { w with bound } [] :=
  ⟨(List.append_nil _).symm, (List.append_nil _).symm⟩

theorem object (w : Walk) (row : Row) (bound : Bound) :
    w.Shows { w with objects := w.objects ++ [row], bound } [.object row] :=
  ⟨rfl, (List.append_nil _).symm⟩

theorem group (w : Walk) (name : Points) (bound : Bound) :
    w.Shows { w with prefixes := w.prefixes ++ [name], bound } [.group name] :=
  ⟨(List.append_nil _).symm, rfl⟩

end Walk.Shows

/-! ### The rows of one pass -/

namespace Query

variable {q : Query} {bucket : Bucket} {w : Walk} {row : Row} {rows left : List Row}

/-- No row that is left is in a group the page shows. -/
def Fresh (q : Query) (w : Walk) (left : List Row) : Prop :=
  ∀ row ∈ left, ∀ group, q.group row.key = some group → group ∉ w.prefixes

theorem full_iff : q.full w = true ↔ q.limit ≤ w.count := by
  simp [Query.full, Walk.count]

section

-- made here once, as in `Groups`
attribute [local simp] scan

end

theorem scan_object (hp : q.keyPrefix <+: row.key) (hg : q.group row.key = none)
    (hroom : w.count < q.limit) :
    q.scan w (row :: rows) =
      q.scan { w with objects := w.objects ++ [row], bound := ⟨row.key, false⟩ } rows := by
  have hfull : ¬q.full { w with bound := ⟨row.key, false⟩ } = true := by
    rw [full_iff]
    exact not_le.mpr hroom
  rw [Query.scan]
  simp only [List.isPrefixOf_iff_prefix.mpr hp, Bool.not_true, Bool.false_eq_true, if_false, hg,
    hfull]

/-- A row that would be a new entry ends a full page. -/
theorem scan_full (hp : q.keyPrefix <+: row.key)
    (hfresh : ∀ group, q.group row.key = some group → group ∉ w.prefixes)
    (hfull : q.limit ≤ w.count) :
    q.scan w (row :: rows) = .full { w with bound := ⟨row.key, false⟩ } ⟨row.key, true⟩ := by
  have hfull' : q.full { w with bound := ⟨row.key, false⟩ } = true := full_iff.mpr hfull
  rw [Query.scan]
  simp only [List.isPrefixOf_iff_prefix.mpr hp, Bool.not_true, Bool.false_eq_true, if_false]
  cases hg : q.group row.key with
  | none => simp only [hfull', if_true]
  | some group => simp [hfull', hfresh group hg]

section

variable {group : Points} (hp : q.keyPrefix <+: row.key) (hg : q.group row.key = some group)

include hp hg

theorem scan_jump (hfresh : group ∉ w.prefixes) (hroom : w.count < q.limit)
    (hnext : prefixCeiling group = some next) :
    q.scan w (row :: rows) =
      .jumped { w with prefixes := w.prefixes ++ [group], bound := ⟨next, true⟩ } := by
  have hfull : q.full { w with bound := ⟨row.key, false⟩ } = false := by
    rw [← Bool.not_eq_true, full_iff]
    exact not_le.mpr hroom
  rw [Query.scan]
  simp [List.isPrefixOf_iff_prefix.mpr hp, hg, hfresh, hfull, hnext]

theorem scan_top (hfresh : group ∉ w.prefixes) (hroom : w.count < q.limit)
    (hnext : prefixCeiling group = none) :
    q.scan w (row :: rows) =
      q.scan { w with prefixes := w.prefixes ++ [group], bound := ⟨row.key, false⟩ } rows := by
  have hfull : q.full { w with bound := ⟨row.key, false⟩ } = false := by
    rw [← Bool.not_eq_true, full_iff]
    exact not_le.mpr hroom
  rw [Query.scan]
  simp [List.isPrefixOf_iff_prefix.mpr hp, hg, hfresh, hfull, hnext]

theorem scan_passed (hshown : group ∈ w.prefixes) (hnext : prefixCeiling group = none) :
    q.scan w (row :: rows) = q.scan { w with bound := ⟨row.key, false⟩ } rows := by
  rw [Query.scan]
  simp [List.isPrefixOf_iff_prefix.mpr hp, hg, hshown, hnext]

end

variable {objects tops : List Row} {n : ℕ}

theorem scan_objects (rows : List Row) (hobjects : ∀ row ∈ objects, q.group row.key = none)
    (hroom : w.count + objects.length ≤ q.limit)
    (hstands : q.Stands bucket w.bound (objects ++ left)) :
    ∃ w', q.scan w (objects ++ rows) = q.scan w' rows ∧ w.Shows w' (objects.map .object) ∧
      q.Stands bucket w'.bound left := by
  induction objects generalizing w with
  | nil => exact ⟨w, rfl, Walk.Shows.moved w w.bound, hstands⟩
  | cons row objects ih =>
    rw [List.length_cons] at hroom
    have hshows := Walk.Shows.object w row ⟨row.key, false⟩
    obtain ⟨w', hscan, hshows', hstands'⟩ := ih
      (w := { w with objects := w.objects ++ [row], bound := ⟨row.key, false⟩ })
      (fun r hr => hobjects r (List.mem_cons_of_mem _ hr))
      (by rw [hshows.count, List.length_singleton]; omega) hstands.after
    refine ⟨w', ?_, hshows.trans hshows', hstands'⟩
    rw [List.cons_append, scan_object (hstands.ordered.matching row List.mem_cons_self)
      (hobjects row List.mem_cons_self) (by omega), hscan]

variable {group : Points}

theorem scan_tops (hnext : prefixCeiling group = none)
    (hgroup : ∀ row ∈ rows, q.group row.key = some group) (hshown : group ∈ w.prefixes)
    (hstands : q.Stands bucket w.bound (rows ++ left)) (hheld : rows = [] → q.Held w.bound) :
    ∃ w', q.scan w rows = .through w' ∧ w.Shows w' [] ∧ q.Stands bucket w'.bound left ∧
      q.Held w'.bound := by
  induction rows generalizing w with
  | nil => exact ⟨w, rfl, Walk.Shows.moved w w.bound, hstands, hheld rfl⟩
  | cons row rows ih =>
    have hshows := Walk.Shows.moved w ⟨row.key, false⟩
    obtain ⟨w', hscan, hshows', hstands', hheld'⟩ := ih (w := { w with bound := ⟨row.key, false⟩ })
      (fun r hr => hgroup r (List.mem_cons_of_mem _ hr)) hshown hstands.after
      (fun _ => hstands.held false)
    refine ⟨w', ?_, hshows.trans hshows', hstands', hheld'⟩
    rw [scan_passed (hstands.ordered.matching row List.mem_cons_self)
      (hgroup row List.mem_cons_self) hshown hnext, hscan]

/-! ### Objects first, then a group -/

theorem entriesFrom_objects (h : ∀ row ∈ objects, q.group row.key = none) (left : List Row) :
    q.entriesFrom none (objects ++ left) = objects.map .object ++ q.entriesFrom none left := by
  induction objects with
  | nil => rfl
  | cons row _ ih =>
    rw [List.cons_append, entriesFrom_object (h row List.mem_cons_self),
      ih fun r hr => h r (List.mem_cons_of_mem _ hr)]
    rfl

theorem exists_objects (q : Query) (left : List Row) :
    ∃ objects rest, left = objects ++ rest ∧ (∀ row ∈ objects, q.group row.key = none) ∧
      (rest = [] ∨ ∃ row group tail, rest = row :: tail ∧ q.group row.key = some group) := by
  induction left with
  | nil => exact ⟨[], [], rfl, by simp, Or.inl rfl⟩
  | cons row left ih =>
    cases hg : q.group row.key with
    | some group => exact ⟨[], row :: left, rfl, by simp, Or.inr ⟨row, group, left, rfl, hg⟩⟩
    | none =>
      obtain ⟨objects, rest, rfl, hobjects, hrest⟩ := ih
      exact ⟨row :: objects, rest, rfl, List.forall_mem_cons.mpr ⟨hg, hobjects⟩, hrest⟩

/-- More entries than there is room for: the room is filled with objects, or a group comes
before it is. -/
theorem exists_overflow (q : Query) {room : ℕ} {left : List Row}
    (h : room < (q.entriesFrom none left).length) :
    ∃ objects row rest, left = objects ++ row :: rest ∧
      (∀ row ∈ objects, q.group row.key = none) ∧
      (objects.length = room ∨
        objects.length < room ∧ ∃ group, q.group row.key = some group) := by
  induction left generalizing room with
  | nil => exact absurd h (Nat.not_lt_zero _)
  | cons row left ih =>
    cases room with
    | zero => exact ⟨[], row, left, rfl, by simp, Or.inl rfl⟩
    | succ =>
      cases hg : q.group row.key with
      | some group => exact ⟨[], row, left, rfl, by simp, Or.inr ⟨Nat.succ_pos _, group, hg⟩⟩
      | none =>
        rw [entriesFrom_object hg, List.length_cons] at h
        obtain ⟨objects, row', rest, rfl, hobjects, hend⟩ := ih (Nat.lt_of_succ_lt_succ h)
        refine ⟨row :: objects, row', rest, rfl, List.forall_mem_cons.mpr ⟨hg, hobjects⟩, ?_⟩
        rw [List.length_cons]
        rcases hend with hend | ⟨hend, hgroup⟩
        · exact Or.inl (congrArg Nat.succ hend)
        · exact Or.inr ⟨Nat.succ_lt_succ hend, hgroup⟩

/-! ### Groups without a ceiling -/

/-- The row is in a group without a ceiling. -/
def top (q : Query) (row : Row) : Bool :=
  match q.group row.key with
  | none => false
  | some group => (prefixCeiling group).isNone

theorem top_of_group (hg : q.group row.key = some group) :
    q.top row = (prefixCeiling group).isNone := by
  rw [top, hg]

theorem top_of_object (hg : q.group row.key = none) : q.top row = false := by
  rw [top, hg]

/-- Every row after one of such a group is in the group. -/
theorem group_of_top (h : q.Ordered (row :: left))
    (hg : q.group row.key = some group) (hnext : prefixCeiling group = none) :
    ∀ r ∈ left, q.group r.key = some group := by
  intro r hr
  refine group_of_prefix hg (prefixCeiling_iff.mpr ⟨fun hlt => ?_, fun ceiling hc => ?_⟩)
  · have hlater := (List.pairwise_cons.mp h.sorted).1 r hr
    exact Prefixes.not_lt_of_prefix successor_next
      (prefix_of_group (h.matching row List.mem_cons_self) hg) (hlater.trans hlt)
  · rw [hnext] at hc
    cases hc

theorem exists_tops (h : q.Ordered left) :
    ∃ lower tops group, left = lower ++ tops ∧ (∀ row ∈ lower, q.top row = false) ∧
      (∀ row ∈ tops, q.group row.key = some group) ∧
      (tops ≠ [] → prefixCeiling group = none) := by
  induction left with
  | nil => exact ⟨[], [], [], rfl, by simp, by simp, by simp⟩
  | cons row left ih =>
    cases ht : q.top row with
    | false =>
      obtain ⟨lower, tops, group, rfl, hlower, htops, hnext⟩ := ih h.tail
      exact ⟨row :: lower, tops, group, rfl, List.forall_mem_cons.mpr ⟨ht, hlower⟩, htops, hnext⟩
    | true =>
      unfold top at ht
      split at ht
      · cases ht
      · next group hg =>
        have hnext := Option.isNone_iff_eq_none.mp ht
        exact ⟨[], row :: left, group, rfl, by simp,
          List.forall_mem_cons.mpr ⟨hg, group_of_top h hg hnext⟩, fun _ => hnext⟩

theorem dropWhile_lower {top : Points} {lower : List Row}
    (hnext : prefixCeiling group = some next) (htops : ∀ row ∈ tops, q.group row.key = some top)
    (htop : tops ≠ [] → prefixCeiling top = none) :
    (lower ++ tops).dropWhile (q.inGroup group) = lower.dropWhile (q.inGroup group) ++ tops := by
  have hout : tops.dropWhile (q.inGroup group) = tops := by
    cases tops with
    | nil => rfl
    | cons row =>
      rw [List.dropWhile_cons_of_neg]
      intro hin
      have hsame : q.group row.key = some group := of_decide_eq_true hin
      rw [htops row List.mem_cons_self] at hsame
      rw [← Option.some.inj hsame, htop (by simp)] at hnext
      cases hnext
  rw [List.dropWhile_append]
  split
  · next hempty => rw [List.isEmpty_iff.mp hempty, hout, List.nil_append]
  · rfl

theorem tops_dropWhile (hnext : prefixCeiling group = some next) :
    (left.dropWhile (q.inGroup group)).filter q.top = left.filter q.top := by
  have hnil : (left.takeWhile (q.inGroup group)).filter q.top = [] := by
    rw [List.filter_eq_nil_iff]
    intro r hr
    have hin := List.all_eq_true.mp (List.all_takeWhile (p := q.inGroup group) (l := left)) r hr
    rw [top_of_group (of_decide_eq_true hin), hnext]
    simp
  conv_rhs => rw [← List.takeWhile_append_dropWhile (p := q.inGroup group) (l := left)]
  rw [List.filter_append, hnil, List.nil_append]

/-! ### The passes -/

theorem passes_done (h : q.Stands bucket w.bound []) :
    q.passes bucket.rows (n + 1) w = (w, none) := by
  rw [Query.passes, select_eq, h.left_eq]
  rfl

theorem passes_full {w' : Walk} {cursor : Bound} (h : q.Stands bucket w.bound left)
    (hne : left ≠ []) (hscan : q.scan w (left.take (q.limit + 1)) = .full w' cursor) :
    q.passes bucket.rows (n + 1) w = (w', some cursor) := by
  rw [Query.passes, select_eq, h.left_eq, if_neg (by simpa using hne), hscan]

theorem passes_jump {w' : Walk} (h : q.Stands bucket w.bound left) (hne : left ≠ [])
    (hscan : q.scan w (left.take (q.limit + 1)) = .jumped w') :
    q.passes bucket.rows (n + 1) w = q.passes bucket.rows n w' := by
  rw [Query.passes, select_eq, h.left_eq, if_neg (by simpa using hne), hscan]

theorem passes_through {w' : Walk} (h : q.Stands bucket w.bound left) (hne : left ≠ [])
    (hscan : q.scan w (left.take (q.limit + 1)) = .through w') :
    q.passes bucket.rows (n + 1) w =
      if left.length < q.limit + 1 then (w', none) else q.passes bucket.rows n w' := by
  rw [Query.passes, select_eq, h.left_eq, if_neg (by simpa using hne), hscan]
  have hlength : (left.take (q.limit + 1)).length < q.limit + 1 ↔ left.length < q.limit + 1 := by
    rw [List.length_take]
    omega
  simp only [hlength]

theorem take_through (objects : List Row) (row : Row) (rest : List Row)
    (h : objects.length ≤ q.limit) :
    (objects ++ row :: rest).take (q.limit + 1) =
      objects ++ row :: rest.take (q.limit - objects.length) := by
  rw [List.take_append, List.take_of_length_le (by omega),
    show q.limit + 1 - objects.length = (q.limit - objects.length) + 1 by omega,
    List.take_succ_cons]

/-! ### The page of the rows that are left -/

theorem Fresh.jump {w' : Walk} (hfresh : q.Fresh w (objects ++ row :: left))
    (hordered : q.Ordered (row :: left)) (hg : q.group row.key = some group)
    (hprefixes : w'.prefixes = w.prefixes ++ [group]) :
    q.Fresh w' (left.dropWhile (q.inGroup group)) := by
  intro r hr group' hg' hmem
  rw [hprefixes, List.mem_append, List.mem_singleton] at hmem
  rcases hmem with hmem | rfl
  · have hr' := (List.dropWhile_sublist (q.inGroup group)).subset hr
    exact hfresh r (List.mem_append_right _ (List.mem_cons_of_mem _ hr')) group' hg' hmem
  · exact not_inGroup_of_dropWhile hordered hg r hr hg'

theorem groups_objects (objects : List Row) :
    (objects.map Entry.object).filterMap Entry.group? = [] := by
  rw [List.filterMap_map]
  simp [Function.comp_def, Entry.group?]

theorem passes_group (hobjects : ∀ row ∈ objects, q.group row.key = none)
    (hg : q.group row.key = some group) (hnext : prefixCeiling group = some next)
    (hstands : q.Stands bucket w.bound (objects ++ row :: left))
    (hfresh : q.Fresh w (objects ++ row :: left)) (hroom : w.count + objects.length < q.limit) :
    ∃ w', (∀ n, q.passes bucket.rows (n + 1) w = q.passes bucket.rows n w') ∧
      w.Shows w' (objects.map .object ++ [.group group]) ∧
      w'.count = w.count + (objects.length + 1) ∧
      q.Stands bucket w'.bound (left.dropWhile (q.inGroup group)) ∧
      q.Fresh w' (left.dropWhile (q.inGroup group)) := by
  obtain ⟨w₁, hscan, hshows, hstands₁⟩ := scan_objects
    (row :: left.take (q.limit - objects.length)) hobjects (by omega) hstands
  have hprefixes : w₁.prefixes = w.prefixes := by
    rw [hshows.prefixes, groups_objects, List.append_nil]
  have hcount₁ := hshows.count
  rw [List.length_map] at hcount₁
  have hshown : group ∉ w₁.prefixes := by
    rw [hprefixes]
    exact hfresh row (by simp) group hg
  rw [← take_through objects row left (by omega),
    scan_jump (hstands₁.ordered.matching row List.mem_cons_self) hg hshown (by omega) hnext]
    at hscan
  have hshows' := hshows.trans (Walk.Shows.group w₁ group ⟨next, true⟩)
  refine ⟨_, fun n => passes_jump hstands (by simp) hscan, hshows', ?_, hstands₁.jump hg hnext,
    hfresh.jump hstands₁.ordered hg (by rw [← hprefixes])⟩
  rw [hshows'.count, List.length_append, List.length_map, List.length_singleton]

/-- **A page of more entries than it has room for** takes as many as it has room for, and its
cursor is at the row of the next one. -/
theorem passes_overflow (hstands : q.Stands bucket w.bound left) (hfresh : q.Fresh w left)
    (hcount : w.count ≤ q.limit) (hover : q.limit - w.count < (q.entriesFrom none left).length)
    (hpasses : q.limit - w.count < n) :
    ∃ w' row rest, q.passes bucket.rows n w = (w', some ⟨row.key, true⟩) ∧
      w.Shows w' ((q.entriesFrom none left).take (q.limit - w.count)) ∧
      q.Held ⟨row.key, true⟩ ∧ q.Stands bucket ⟨row.key, true⟩ (row :: rest) ∧
      q.entriesFrom none (row :: rest) = (q.entriesFrom none left).drop (q.limit - w.count) ∧
      (row :: rest).filter q.top = left.filter q.top := by
  induction n generalizing w left with
  | zero => exact absurd hpasses (Nat.not_lt_zero _)
  | succ n ih =>
    obtain ⟨objects, row, rest, rfl, hobjects, hend⟩ := exists_overflow q hover
    have hentries := entriesFrom_objects hobjects (row :: rest)
    have htops : (objects ++ row :: rest).filter q.top = (row :: rest).filter q.top := by
      have hnil : objects.filter q.top = [] := by
        rw [List.filter_eq_nil_iff]
        intro r hr
        rw [top_of_object (hobjects r hr)]
        simp
      rw [List.filter_append, hnil, List.nil_append]
    by_cases hfull : objects.length = q.limit - w.count
    · -- the page is full at the row
      obtain ⟨w₁, hscan, hshows, hstands₁⟩ := scan_objects (row :: rest.take _) hobjects
        (by omega) hstands
      have hfresh₁ : ∀ group, q.group row.key = some group → group ∉ w₁.prefixes := by
        rw [hshows.prefixes, groups_objects, List.append_nil]
        exact hfresh row (by simp)
      have hcount₁ := hshows.count
      rw [List.length_map] at hcount₁
      rw [← take_through (q := q) objects row rest (by omega),
        scan_full (hstands₁.ordered.matching row List.mem_cons_self) hfresh₁ (by omega)] at hscan
      refine ⟨_, row, rest, passes_full hstands (by simp) hscan, ?_, hstands₁.held true,
        hstands₁.here, ?_, htops.symm⟩
      · rw [hentries, List.take_append_of_le_length (by simp [hfull]),
          List.take_of_length_le (by simp [hfull])]
        have := hshows.trans (Walk.Shows.moved w₁ ⟨row.key, false⟩)
        rwa [List.append_nil] at this
      · rw [hentries, ← hfull, List.drop_left' (by simp)]
    · -- the row is in a group, which the page jumps over
      obtain ⟨hlt, group, hg⟩ := hend.resolve_left hfull
      have hrest : q.entriesFrom (some group) rest = _ := entriesFrom_some group
      rw [entriesFrom_group hg, hrest] at hentries
      cases hnext : prefixCeiling group with
      | none =>
        -- the group goes on to the end, and the page has room for all there is
        have hall := group_of_top (hstands.ordered.of_sublist (List.sublist_append_right _ _)) hg hnext
        have hnil : rest.dropWhile (q.inGroup group) = [] :=
          List.dropWhile_eq_nil_iff.mpr fun r hr => decide_eq_true (hall r hr)
        rw [hentries, hnil] at hover
        simp [entriesFrom] at hover
        omega
      | some next =>
        obtain ⟨w₂, hjump, hshows₂, hcount₂, hstands₂, hfresh₂⟩ :=
          passes_group hobjects hg hnext hstands hfresh (by omega)
        have hlen := congrArg List.length hentries
        rw [List.length_append, List.length_map, List.length_cons] at hlen
        obtain ⟨w', row', rest', hpasses', hshows', hheld', hstands', hdrop, htops'⟩ :=
          ih hstands₂ hfresh₂ (by omega) (by omega) (by omega)
        have hroom' : q.limit - w.count =
            (objects.map Entry.object).length + (1 + (q.limit - w₂.count)) := by
          rw [List.length_map]
          omega
        refine ⟨w', row', rest', (hjump n).trans hpasses', ?_, hheld', hstands', ?_, ?_⟩
        · have := hshows₂.trans hshows'
          rw [hentries, hroom', List.take_length_add_append, Nat.add_comm 1, List.take_succ_cons]
          simpa using this
        · rw [hdrop, hentries, hroom', List.drop_length_add_append, Nat.add_comm 1,
            List.drop_succ_cons]
        · rw [htops', tops_dropWhile hnext, htops, List.filter_cons_of_neg]
          rw [top_of_group hg, hnext]
          simp

/-- The objects after the last group of entries. -/
def trailing (entries : List Entry) : ℕ :=
  (entries.reverse.takeWhile fun e => e.group? = none).length

/-- The rows of a group without a ceiling that can be passed over after other entries: those
the pass that comes to it has left, and all of every pass after that, where each group before
it took one. -/
def reach (q : Query) (passes : ℕ) (entries : List Entry) : ℕ :=
  (q.limit + 1 - trailing entries) +
    (q.limit + 1) * (passes - 1 - (entries.filterMap Entry.group?).length)

theorem trailing_objects (objects : List Row) :
    trailing (objects.map .object) = objects.length := by
  unfold trailing
  rw [List.takeWhile_eq_self_iff.mpr, List.length_reverse, List.length_map]
  intro e he
  obtain ⟨_, -, rfl⟩ := List.mem_map.mp (List.mem_reverse.mp he)
  rfl

theorem trailing_group (entries entries' : List Entry) (group : Points) :
    trailing (entries ++ .group group :: entries') = trailing entries' := by
  have hstop : ((Entry.group group :: entries.reverse).takeWhile fun e => e.group? = none) = [] :=
    List.takeWhile_cons_of_neg (by simp [Entry.group?])
  unfold trailing
  rw [List.reverse_append, List.reverse_cons, List.append_assoc, List.singleton_append,
    List.takeWhile_append]
  split
  · next hall => rw [hstop, List.append_nil, (List.takeWhile_prefix _).eq_of_length hall]
  · rfl

theorem reach_objects (n : ℕ) (objects : List Row) :
    q.reach (n + 1) (objects.map .object) =
      (q.limit + 1 - objects.length) + (q.limit + 1) * n := by
  rw [reach, trailing_objects, groups_objects]
  rfl

theorem reach_group (n : ℕ) (objects : List Row) (group : Points) (entries : List Entry) :
    q.reach (n + 1) (objects.map .object ++ .group group :: entries) = q.reach n entries := by
  unfold reach
  rw [trailing_group, List.filterMap_append, groups_objects, List.nil_append,
    List.filterMap_cons_some (by rfl), List.length_cons]
  congr 2
  omega

/-- How a page ends that has shown all entries, the rows of a last group passed over as far as
they are within reach. -/
structure Ends (q : Query) (bucket : Bucket) (cursor : Option Bound) (tops : List Row)
    (reach : ℕ) : Prop where
  within : tops.length < reach → cursor = none
  beyond : reach ≤ tops.length →
    ∃ bound, cursor = some bound ∧ q.Held bound ∧ q.Stands bucket bound (tops.drop reach)

/-- The passes over a group without a ceiling that is shown already. -/
theorem passes_tops (hnext : prefixCeiling group = none) (n : ℕ)
    (hgroup : ∀ row ∈ left, q.group row.key = some group) (hshown : group ∈ w.prefixes)
    (hstands : q.Stands bucket w.bound left) (hheld : q.Held w.bound) :
    ∃ w' cursor, q.passes bucket.rows n w = (w', cursor) ∧ w.Shows w' [] ∧
      q.Ends bucket cursor left ((q.limit + 1) * n) := by
  induction n generalizing w left with
  | zero =>
    refine ⟨w, some w.bound, rfl, Walk.Shows.moved w w.bound, fun h => ?_, fun _ => ?_⟩
    · exact absurd h (Nat.not_lt_zero _)
    · exact ⟨w.bound, rfl, hheld, hstands⟩
  | succ n ih =>
    have hmul : (q.limit + 1) * (n + 1) = (q.limit + 1) + (q.limit + 1) * n := by ring
    by_cases hne : left = []
    · subst hne
      refine ⟨w, none, passes_done hstands, Walk.Shows.moved w w.bound, fun _ => rfl, fun h => ?_⟩
      rw [hmul, List.length_nil] at h
      omega
    · have hsplit : left.take (q.limit + 1) ++ left.drop (q.limit + 1) = left :=
        List.take_append_drop _ _
      have hparts : q.Stands bucket w.bound (left.take (q.limit + 1) ++ left.drop (q.limit + 1)) :=
        hsplit.symm ▸ hstands
      obtain ⟨w₁, hscan, hshows, hstands₁, hheld₁⟩ := scan_tops hnext
        (fun r hr => hgroup r (List.mem_of_mem_take hr)) hshown hparts (fun _ => hheld)
      have hpasses := passes_through (n := n) hstands hne hscan
      by_cases hlast : left.length < q.limit + 1
      · rw [if_pos hlast] at hpasses
        refine ⟨w₁, none, hpasses, hshows, fun _ => rfl, fun h => ?_⟩
        rw [hmul] at h
        omega
      · rw [if_neg hlast] at hpasses
        have hshown₁ : group ∈ w₁.prefixes := by
          rw [hshows.prefixes]
          exact List.mem_append_left _ hshown
        obtain ⟨w', cursor, hrest, hshows', hends⟩ := ih
          (fun r hr => hgroup r (List.mem_of_mem_drop hr)) hshown₁ hstands₁ hheld₁
        have hlength : (left.drop (q.limit + 1)).length = left.length - (q.limit + 1) :=
          List.length_drop
        refine ⟨w', cursor, hpasses.trans hrest, hshows.trans hshows', fun h => ?_, fun h => ?_⟩
        · exact hends.within (by omega)
        · obtain ⟨bound, hcursor, hheld', hstands'⟩ := hends.beyond (by omega)
          rw [List.drop_drop] at hstands'
          exact ⟨bound, hcursor, hheld', hmul ▸ hstands'⟩

theorem passes_objects (hobjects : ∀ row ∈ objects, q.group row.key = none)
    (hroom : w.count + objects.length ≤ q.limit) (hstands : q.Stands bucket w.bound objects) :
    ∃ w', q.passes bucket.rows (n + 1) w = (w', none) ∧ w.Shows w' (objects.map .object) := by
  by_cases hne : objects = []
  · subst hne
    exact ⟨w, passes_done hstands, Walk.Shows.moved w w.bound⟩
  · have hstands' := hstands
    rw [← List.append_nil objects] at hstands'
    obtain ⟨w', hscan, hshows, -⟩ := scan_objects [] hobjects hroom hstands'
    rw [List.append_nil] at hscan
    have htake : objects.take (q.limit + 1) = objects := List.take_of_length_le (by omega)
    have hpasses := passes_through (n := n) hstands hne (htake.symm ▸ hscan)
    rw [if_pos (by omega)] at hpasses
    exact ⟨w', hpasses, hshows⟩

theorem passes_top (hobjects : ∀ row ∈ objects, q.group row.key = none)
    (hg : q.group row.key = some group) (htops : ∀ row ∈ tops, q.group row.key = some group)
    (hnext : prefixCeiling group = none) (hfresh : group ∉ w.prefixes)
    (hroom : w.count + objects.length < q.limit)
    (hstands : q.Stands bucket w.bound (objects ++ row :: tops)) :
    ∃ w' cursor, q.passes bucket.rows (n + 1) w = (w', cursor) ∧
      w.Shows w' (objects.map .object ++ [.group group]) ∧
      q.Ends bucket cursor (row :: tops)
        ((q.limit + 1 - objects.length) + (q.limit + 1) * n) := by
  have hne : objects ++ row :: tops ≠ [] := by simp
  obtain ⟨w₁, hscan, hshows, hstands₁⟩ := scan_objects
    (row :: tops.take (q.limit - objects.length)) hobjects (by omega) hstands
  have hcount₁ := hshows.count
  rw [List.length_map] at hcount₁
  have hfresh₁ : group ∉ w₁.prefixes := by
    rwa [hshows.prefixes, groups_objects, List.append_nil]
  obtain ⟨w₂, hw₂⟩ : ∃ w₂ : Walk,
      w₂ = { w₁ with prefixes := w₁.prefixes ++ [group], bound := ⟨row.key, false⟩ } := ⟨_, rfl⟩
  rw [← take_through objects row tops (by omega),
    scan_top (hstands₁.ordered.matching row List.mem_cons_self) hg hfresh₁ (by omega) hnext,
    ← hw₂] at hscan
  have hstands₂ : q.Stands bucket w₂.bound tops := by
    rw [hw₂]
    exact hstands₁.after
  have hheld₂ : q.Held w₂.bound := by
    rw [hw₂]
    exact hstands₁.held false
  have hshows₂ : w.Shows w₂ (objects.map .object ++ [.group group]) := by
    rw [hw₂]
    exact hshows.trans (Walk.Shows.group w₁ group ⟨row.key, false⟩)
  have hshown₂ : group ∈ w₂.prefixes := by
    rw [hw₂]
    exact List.mem_append_right _ List.mem_cons_self
  -- the pass goes on over the rows of the group that it has read
  rw [← List.take_append_drop (q.limit - objects.length) tops] at hstands₂
  obtain ⟨w₃, hscan₃, hshows₃, hstands₃, hheld₃⟩ := scan_tops hnext
    (fun r hr => htops r (List.mem_of_mem_take hr)) hshown₂ hstands₂ fun _ => hheld₂
  have hshows₃' := hshows₂.trans hshows₃
  rw [List.append_nil] at hshows₃'
  have hshown₃ : group ∈ w₃.prefixes := by
    rw [hshows₃.prefixes]
    exact List.mem_append_left _ hshown₂
  have hpasses := passes_through (n := n) hstands hne (hscan.trans hscan₃)
  rw [List.length_append, List.length_cons] at hpasses
  by_cases hlast : objects.length + (tops.length + 1) < q.limit + 1
  · rw [if_pos hlast] at hpasses
    refine ⟨w₃, none, hpasses, hshows₃', fun _ => rfl, fun h => ?_⟩
    rw [List.length_cons] at h
    omega
  · rw [if_neg hlast] at hpasses
    obtain ⟨w', cursor, hpasses', hshows', hends⟩ := passes_tops hnext n
      (fun r hr => htops r (List.mem_of_mem_drop hr)) hshown₃ hstands₃ hheld₃
    have hshows := hshows₃'.trans hshows'
    rw [List.append_nil] at hshows
    have hlength : (tops.drop (q.limit - objects.length)).length =
        tops.length - (q.limit - objects.length) := List.length_drop
    refine ⟨w', cursor, hpasses.trans hpasses', hshows, fun h => ?_, fun h => ?_⟩
    · rw [List.length_cons] at h
      exact hends.within (by omega)
    · rw [List.length_cons] at h
      obtain ⟨bound, hcursor, hheld', hstands'⟩ := hends.beyond (by omega)
      have hdrop : (row :: tops).drop (q.limit + 1 - objects.length + (q.limit + 1) * n) =
          (tops.drop (q.limit - objects.length)).drop ((q.limit + 1) * n) := by
        rw [List.drop_drop, show q.limit + 1 - objects.length + (q.limit + 1) * n =
          (q.limit - objects.length + (q.limit + 1) * n) + 1 by omega, List.drop_succ_cons]
      exact ⟨bound, hcursor, hheld', hdrop ▸ hstands'⟩

/-- **A page of entries that it has room for** shows them all, and is the last one where the
group without a ceiling is within its reach. -/
theorem passes_fit {lower : List Row}
    (hstands : q.Stands bucket w.bound (lower ++ tops)) (hfresh : q.Fresh w (lower ++ tops))
    (hlower : ∀ row ∈ lower, q.top row = false) (htops : ∀ row ∈ tops, q.group row.key = some group)
    (hnext : tops ≠ [] → prefixCeiling group = none) (hcount : w.count ≤ q.limit)
    (hfit : (q.entriesFrom none (lower ++ tops)).length ≤ q.limit - w.count)
    (hpasses : q.limit - w.count < n) :
    ∃ w' cursor, q.passes bucket.rows n w = (w', cursor) ∧
      w.Shows w' (q.entriesFrom none (lower ++ tops)) ∧
      q.Ends bucket cursor tops (q.reach n (q.entriesFrom none lower)) := by
  induction n generalizing w lower with
  | zero => exact absurd hpasses (Nat.not_lt_zero _)
  | succ n ih =>
    obtain ⟨objects, rest, rfl, hobjects, hrest⟩ := exists_objects q lower
    rw [List.append_assoc] at hstands hfresh hfit ⊢
    have hentries := entriesFrom_objects hobjects (rest ++ tops)
    -- objects first: then the top group, or one with a ceiling
    rcases hrest with rfl | ⟨row, name, tail, rfl, hg⟩
    · have hreach : q.reach (n + 1) (q.entriesFrom none (objects ++ [])) =
          (q.limit + 1 - objects.length) + (q.limit + 1) * n := by
        rw [entriesFrom_objects hobjects []]
        exact (congrArg (q.reach (n + 1)) (List.append_nil _)).trans (reach_objects n objects)
      rw [List.nil_append] at hstands hfresh hfit hentries
      rw [hreach, List.nil_append, hentries]
      rw [hentries, List.length_append, List.length_map] at hfit
      cases tops with
      | nil =>
        rw [List.append_nil] at hstands
        obtain ⟨w', hpasses', _⟩ := passes_objects (n := n) hobjects (by omega) hstands
        refine ⟨w', none, hpasses', ?_, fun _ => rfl, fun h => ?_⟩
        · rwa [entriesFrom, List.append_nil]
        · rw [List.length_nil] at h
          omega
      | cons row tops =>
        have hg := htops row List.mem_cons_self
        have htail : ∀ r ∈ tops, q.group r.key = some group :=
          fun r hr => htops r (List.mem_cons_of_mem _ hr)
        have hnil : tops.dropWhile (q.inGroup group) = [] :=
          List.dropWhile_eq_nil_iff.mpr fun r hr => decide_eq_true (htail r hr)
        rw [entriesFrom_group hg, entriesFrom_some, hnil, entriesFrom] at hfit ⊢
        rw [List.length_singleton] at hfit
        exact passes_top hobjects hg htail (hnext (by simp)) (hfresh row (by simp) group hg)
          (by omega) hstands
    · -- a group that is jumped over
      obtain ⟨next, hceiling⟩ : ∃ next, prefixCeiling name = some next := by
        have htop := hlower row (by simp)
        rw [top_of_group hg] at htop
        exact Option.isSome_iff_exists.mp (by simpa using htop)
      have hafter : (tail ++ tops).dropWhile _ = _ := dropWhile_lower hceiling htops hnext
      rw [List.cons_append] at hstands hfresh hfit hentries ⊢
      rw [entriesFrom_group hg, entriesFrom_some, hafter] at hentries
      rw [hentries, List.length_append, List.length_map, List.length_cons] at hfit
      obtain ⟨w₂, hjump, hshows₂, hcount₂, hstands₂, hfresh₂⟩ :=
        passes_group hobjects hg hceiling hstands hfresh (by omega)
      rw [hafter] at hstands₂ hfresh₂
      have hlower₂ : ∀ r ∈ tail.dropWhile (q.inGroup name), q.top r = false := by
        intro r hr
        have := (List.dropWhile_sublist (q.inGroup name)).subset hr
        exact hlower r (by simp [this])
      obtain ⟨w', cursor, hpasses', hshows', hends⟩ :=
        ih hstands₂ hfresh₂ hlower₂ (by omega) (by omega) (by omega)
      refine ⟨w', cursor, (hjump n).trans hpasses', ?_, ?_⟩
      · rw [hentries]
        simpa using hshows₂.trans hshows'
      · rw [entriesFrom_objects hobjects, entriesFrom_group hg, entriesFrom_some, reach_group]
        exact hends

end Query

end Takoserver.ObjectStore
