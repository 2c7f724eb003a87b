import Takoserver.ObjectStore.Passes

/-!
# The pages of a listing

Following the cursors from the first page comes to an end, and the pages show the
entries of the prefix in order, as many on each as it has room for.  They show
each of them once exactly where the group without a ceiling, if there is one, is
within reach of the page it is on: past that the cursor stands inside the group,
and the next page shows the group again.
-/

namespace Takoserver.ObjectStore

/-! ### The rows of a group without a ceiling -/

variable {group : Points} {entries : List Entry} {page : ListResult}

namespace Query

variable {q : Query} {left : List Row}

/-- The rows of a group without a ceiling. -/
def tops (q : Query) (left : List Row) : List Row := left.filter q.top

/-- The other rows, which come before them. -/
def lower (q : Query) (left : List Row) : List Row := left.filter fun row => !q.top row

theorem tops_split (h : q.Ordered left) :
    left = q.lower left ++ q.tops left ∧
      ∃ group, (∀ row ∈ q.tops left, q.group row.key = some group) ∧
        (q.tops left ≠ [] → prefixCeiling group = none) := by
  obtain ⟨lower, tops, group, rfl, hlower, htops, hnext⟩ := exists_tops h
  have htop : ∀ row ∈ tops, q.top row = true := by
    intro row hrow
    have hne : tops ≠ [] := by
      rintro rfl
      cases hrow
    rw [top_of_group (htops row hrow), hnext hne]
    rfl
  have hl : q.lower (lower ++ tops) = lower := by
    unfold Query.lower
    rw [List.filter_append, List.filter_eq_self.mpr, List.filter_eq_nil_iff.mpr, List.append_nil]
    · intro row hrow
      simp [htop row hrow]
    · intro row hrow
      simp [hlower row hrow]
  have ht : q.tops (lower ++ tops) = tops := by
    unfold Query.tops
    rw [List.filter_append, List.filter_eq_nil_iff.mpr, List.nil_append, List.filter_eq_self.mpr]
    · intro row hrow
      exact htop row hrow
    · intro row hrow
      simp [hlower row hrow]
  rw [hl, ht]
  exact ⟨rfl, group, htops, hnext⟩

/-- The rows of one group are one entry. -/
theorem entriesFrom_tops {tops : List Row} (htops : ∀ row ∈ tops, q.group row.key = some group)
    (hne : tops ≠ []) :
    q.entriesFrom none tops = [.group group] := by
  cases tops with
  | nil => exact absurd rfl hne
  | cons row tops =>
    have hnil : tops.dropWhile (q.inGroup group) = [] :=
      List.dropWhile_eq_nil_iff.mpr fun r hr => decide_eq_true (htops r (List.mem_cons_of_mem _ hr))
    rw [entriesFrom_group (htops row List.mem_cons_self), entriesFrom_some, hnil, entriesFrom]

theorem entriesFrom_append {lower tops : List Row}
    (hlower : ∀ row ∈ lower, q.group row.key ≠ some group)
    (htops : ∀ row ∈ tops, q.group row.key = some group) {last : Option Points}
    (hlast : last ≠ some group) :
    q.entriesFrom last (lower ++ tops) =
      q.entriesFrom last lower ++ q.entriesFrom none tops := by
  induction lower generalizing last with
  | nil =>
    cases tops with
    | nil => rfl
    | cons row =>
      have hg := htops row List.mem_cons_self
      simp [entriesFrom, hg, hlast]
  | cons row lower ih =>
    have hrest : ∀ r ∈ lower, q.group r.key ≠ some group :=
      fun r hr => hlower r (List.mem_cons_of_mem _ hr)
    rw [List.cons_append, entriesFrom, entriesFrom]
    cases hg : q.group row.key with
    | none =>
      rw [ih hrest (by simp), List.cons_append]
    | some name =>
      have hname : some name ≠ some group := hg ▸ hlower row List.mem_cons_self
      simp only
      split
      · exact ih hrest hlast
      · rw [ih hrest hname, List.cons_append]

theorem entriesFrom_split (h : q.Ordered left) :
    q.entriesFrom none left =
      q.entriesFrom none (q.lower left) ++ q.entriesFrom none (q.tops left) := by
  obtain ⟨hsplit, _, htops, hnext⟩ := tops_split h
  by_cases hne : q.tops left = []
  · rw [hne] at hsplit ⊢
    rw [List.append_nil] at hsplit
    rw [← hsplit, entriesFrom, List.append_nil]
  · conv_lhs => rw [hsplit]
    refine entriesFrom_append (fun row hrow heq => ?_) htops (by simp)
    have hlow := (List.mem_filter.mp hrow).2
    rw [top_of_group heq, hnext hne] at hlow
    simp at hlow

/-- The entries on the page that the last one is on, before it. -/
def lastPage (q : Query) (entries : List Entry) : List Entry :=
  entries.drop (q.limit * (entries.length / q.limit))

theorem lastPage_short (h : entries.length < q.limit) :
    q.lastPage entries = entries := by
  rw [lastPage, Nat.div_eq_of_lt h, Nat.mul_zero, List.drop_zero]

theorem lastPage_drop (hlimit : 0 < q.limit) (h : q.limit ≤ entries.length) :
    q.lastPage (entries.drop q.limit) = q.lastPage entries := by
  have hdiv : entries.length / q.limit = (entries.length - q.limit) / q.limit + 1 :=
    Nat.div_eq_sub_div hlimit h
  rw [lastPage, lastPage, List.length_drop, List.drop_drop, hdiv, Nat.mul_add, Nat.mul_one,
    Nat.add_comm]

/-- The passes of a page. -/
def passLimit (q : Query) : ℕ := 2 * q.limit + 8

/-- The rows of the group without a ceiling are within reach of the page that it is on. -/
def Within (q : Query) (left : List Row) : Prop :=
  (q.tops left).length ≤ q.reach q.passLimit (q.lastPage (q.entriesFrom none (q.lower left)))

instance (q : Query) (left : List Row) : Decidable (q.Within left) :=
  inferInstanceAs (Decidable (_ ≤ _))

end Query

/-! ### The pages -/

/-- What a listing with these options asks for. -/
def ListOptions.query (options : ListOptions) : Query :=
  ⟨options.keyPrefix.getD [], options.delimiter, (options.limit.getD maxListLimit).toNat⟩

/-- The prefix is no longer than a key, and the limit is one that a page may have. -/
structure ListOptions.Admitted (options : ListOptions) : Prop where
  bytes : utf8Length (options.keyPrefix.getD []) ≤ maxKeyBytes
  positive : 1 ≤ options.limit.getD maxListLimit
  bounded : options.limit.getD maxListLimit ≤ maxListLimit

/-- The listing starts at the bound, or goes on at it. -/
def ListOptions.Resumes (options : ListOptions) (bound : Bound) : Prop :=
  (options.cursor = none ∧ bound = ⟨options.query.keyPrefix, true⟩) ∨
    (options.cursor = some (encodeBound bound) ∧ options.query.Held bound)

theorem codeUnits_append (a b : Points) :
    V2.codeUnits (String.ofList (a ++ b)) =
      V2.codeUnits (String.ofList a) ++ V2.codeUnits (String.ofList b) := by
  simp [V2.codeUnits]

/-- A list is before the longer ones that it starts. -/
theorem lt_append {a b : List ℕ} (h : b ≠ []) : a < a ++ b := by
  induction a with
  | nil =>
    cases b with
    | nil => exact absurd rfl h
    | cons => exact List.Lex.nil
  | cons c a ih => exact List.Lex.cons ih

theorem startBound_held {q : Query} {bound : Bound} (h : q.Held bound) :
    startBound q.keyPrefix (some bound) = bound := by
  obtain ⟨rest, hrest⟩ := h.starts
  unfold startBound
  simp only
  split
  · rfl
  next hnot =>
  push Not at hnot
  cases rest with
  | nil =>
    rw [List.append_nil] at hrest
    have hi : bound.inclusive = true := by
      simpa using hnot.2 hrest.symm
    rw [hrest, ← hi]
  | cons =>
    refine absurd hnot.1 (not_le.mpr ?_)
    rw [← hrest, codeUnits_append]
    refine lt_append ?_
    simp only [V2.codeUnits, V2.charUnits, String.toList_ofList, List.flatMap_cons]
    split <;> simp

/-- The page of a walk and of where it ended. -/
def pageOf (r : Walk × Option Bound) : ListResult :=
  ⟨r.1.objects, r.1.prefixes, r.2.isSome, r.2.map encodeBound⟩

theorem listObjects_eq (rows : List Row) {options : ListOptions} {bound : Bound}
    (h : options.Admitted) (hres : options.Resumes bound) :
    listObjects rows options =
      .ok (pageOf (options.query.passes rows options.query.passLimit { bound })) := by
  have hbytes := not_lt.mpr h.bytes
  have hlimit : ¬(options.limit.getD maxListLimit < 1 ∨
      maxListLimit < options.limit.getD maxListLimit) := by
    have := h.positive
    have := h.bounded
    omega
  unfold listObjects
  rcases hres with ⟨hcursor, rfl⟩ | ⟨hcursor, hheld⟩
  · simp only [hbytes, hlimit, hcursor, if_false]
    rfl
  · have hstart : startBound (options.keyPrefix.getD []) (some bound) = bound :=
      startBound_held (q := options.query) hheld
    simp only [hbytes, hlimit, hcursor, if_false, decodeCursor_encodeBound hheld.valid]
    show Except.ok (pageOf (options.query.passes rows _
      { bound := startBound (options.keyPrefix.getD []) (some bound) })) = _
    rw [hstart]
    rfl

/-- The page shows these entries. -/
structure ListResult.Shows (page : ListResult) (entries : List Entry) : Prop where
  objects : page.objects = entries.filterMap Entry.object?
  prefixes : page.prefixes = entries.filterMap Entry.group?

theorem shows_pageOf {w : Walk} {bound : Bound} {cursor : Option Bound}
    (h : Walk.Shows { bound } w entries) : (pageOf (w, cursor)).Shows entries :=
  ⟨h.objects, h.prefixes⟩

section Pages

variable {bucket : Bucket} {options : ListOptions} {bound : Bound} {left : List Row}

def ListOptions.nextPage (options : ListOptions) (bound : Bound) : ListOptions :=
  { options with cursor := some (encodeBound bound) }

theorem ListOptions.Admitted.nextPage (h : options.Admitted) (bound : Bound) :
    (options.nextPage bound).Admitted := ⟨h.bytes, h.positive, h.bounded⟩

theorem ListOptions.resumes_nextPage (h : options.query.Held bound) :
    (options.nextPage bound).Resumes bound := Or.inr ⟨rfl, h⟩

theorem limit_pos (h : options.Admitted) : 0 < options.query.limit := by
  have := h.positive
  show 0 < (options.limit.getD maxListLimit).toNat
  omega

section

variable (hadmitted : options.Admitted) (hres : options.Resumes bound)
  (hstands : options.query.Stands bucket bound left)

include hadmitted hres hstands

/-- A page of more entries than it has room for, and what it leaves. -/
theorem page_overflow (hover : options.query.limit < (options.query.entriesFrom none left).length) :
    ∃ page bound' left', listObjects bucket.rows options = .ok page ∧ page.truncated = true ∧
      page.cursor = some (encodeBound bound') ∧
      page.Shows ((options.query.entriesFrom none left).take options.query.limit) ∧
      options.query.Held bound' ∧ options.query.Stands bucket bound' left' ∧
      options.query.entriesFrom none left' =
        (options.query.entriesFrom none left).drop options.query.limit ∧
      options.query.tops left' = options.query.tops left := by
  have hpasses : options.query.limit < options.query.passLimit := by
    unfold Query.passLimit
    omega
  obtain ⟨w, row, rest, hpass, hshows, hheld, hstands', hdrop, htops⟩ :=
    Query.passes_overflow (w := { bound }) hstands (fun _ _ _ _ => List.not_mem_nil)
      (Nat.zero_le _) hover hpasses
  refine ⟨_, ⟨row.key, true⟩, row :: rest, listObjects_eq bucket.rows hadmitted hres, ?_, ?_, ?_,
    hheld, hstands', hdrop, htops⟩
  · rw [hpass]
    rfl
  · rw [hpass]
    rfl
  · rw [hpass]
    exact shows_pageOf hshows

theorem page_fit (hfit : (options.query.entriesFrom none left).length ≤ options.query.limit) :
    ∃ page cursor, listObjects bucket.rows options = .ok page ∧
      page.truncated = cursor.isSome ∧ page.cursor = cursor.map encodeBound ∧
      page.Shows (options.query.entriesFrom none left) ∧
      options.query.Ends bucket cursor (options.query.tops left)
        (options.query.reach options.query.passLimit
          (options.query.entriesFrom none (options.query.lower left))) := by
  have hpasses : options.query.limit < options.query.passLimit := by
    unfold Query.passLimit
    omega
  obtain ⟨hsplit, _, htops, hnext⟩ := Query.tops_split hstands.ordered
  have hlower : ∀ row ∈ options.query.lower left, options.query.top row = false := by
    intro row hrow
    simpa using (List.mem_filter.mp hrow).2
  rw [hsplit] at hstands hfit
  obtain ⟨w, cursor, hpass, hshows, hends⟩ :=
    Query.passes_fit (w := { bound }) hstands (fun _ _ _ _ => List.not_mem_nil) hlower htops hnext
      (Nat.zero_le _) hfit hpasses
  refine ⟨_, cursor, listObjects_eq bucket.rows hadmitted hres, ?_, ?_, ?_, hends⟩
  · rw [hpass]
    rfl
  · rw [hpass]
    rfl
  · rw [hpass, hsplit]
    exact shows_pageOf hshows

end

/-- Over a page that has no room for all entries the group without a ceiling stays as far. -/
theorem within_next {left' : List Row} (hadmitted : options.Admitted)
    (hordered : options.query.Ordered left) (hordered' : options.query.Ordered left')
    (hover : options.query.limit < (options.query.entriesFrom none left).length)
    (hdrop : options.query.entriesFrom none left' =
      (options.query.entriesFrom none left).drop options.query.limit)
    (htops : options.query.tops left' = options.query.tops left) :
    options.query.Within left' ↔ options.query.Within left := by
  obtain ⟨-, _, hgroup, -⟩ := Query.tops_split hordered
  have hlast : (options.query.entriesFrom none (options.query.tops left)).length ≤ 1 := by
    by_cases hne : options.query.tops left = []
    · rw [hne]
      exact Nat.zero_le _
    · rw [Query.entriesFrom_tops hgroup hne, List.length_singleton]
  have hsplit := Query.entriesFrom_split hordered
  have hsplit' := Query.entriesFrom_split hordered'
  rw [hsplit, List.length_append] at hover
  rw [hsplit, List.drop_append_of_le_length (by omega), hsplit', htops] at hdrop
  unfold Query.Within
  rw [htops, List.append_cancel_right hdrop,
    Query.lastPage_drop (limit_pos hadmitted) (by omega)]

/-- On the page that the last entry is on, the group without a ceiling is within reach of the
entries of this page. -/
theorem within_iff (hordered : options.query.Ordered left)
    (hfit : (options.query.entriesFrom none left).length ≤ options.query.limit) :
    options.query.Within left ↔ (options.query.tops left).length ≤
      options.query.reach options.query.passLimit
        (options.query.entriesFrom none (options.query.lower left)) := by
  have hsplit := Query.entriesFrom_split hordered
  rw [hsplit, List.length_append] at hfit
  unfold Query.Within
  by_cases hne : options.query.tops left = []
  · simp [hne]
  · obtain ⟨-, _, hgroup, -⟩ := Query.tops_split hordered
    rw [Query.entriesFrom_tops hgroup hne, List.length_singleton] at hfit
    rw [Query.lastPage_short (by omega)]

theorem trailing_le (entries : List Entry) : Query.trailing entries ≤ entries.length := by
  have := (List.takeWhile_prefix (fun e : Entry => decide (e.group? = none))
    (l := entries.reverse)).length_le
  rwa [List.length_reverse] at this

theorem reach_pos (h : entries.length ≤ options.query.limit) (passes : ℕ) :
    0 < options.query.reach passes entries := by
  have := trailing_le entries
  unfold Query.reach
  omega

/-- Pages that show lists of entries, no more than each of them has room for. -/
def ShowAll (limit : ℕ) (pages : List ListResult) (shown : List (List Entry)) : Prop :=
  List.Forall₂ (fun page entries => page.Shows entries ∧ entries.length ≤ limit) pages shown

/-- When no row is left the listing ends with an empty page. -/
theorem follows_nil (hadmitted : options.Admitted) (hres : options.Resumes bound)
    (hstands : options.query.Stands bucket bound []) :
    ∃ page, Follows bucket.rows options [page] ∧ page.Shows [] := by
  obtain ⟨page, _, hpage, htruncated, -, hshows, hends⟩ :=
    page_fit hadmitted hres hstands (Nat.zero_le _)
  rw [hends.within (reach_pos (Nat.zero_le _) _)] at htruncated
  exact ⟨page, Follows.last hpage htruncated, hshows⟩

/-- **Within reach the pages show the entries once**, in order. -/
theorem follows_within (hadmitted : options.Admitted) (hres : options.Resumes bound)
    (hstands : options.query.Stands bucket bound left) (hwithin : options.query.Within left) :
    ∃ pages shown, Follows bucket.rows options pages ∧
      ShowAll options.query.limit pages shown ∧
      shown.flatten = options.query.entriesFrom none left := by
  induction hn : (options.query.entriesFrom none left).length using Nat.strong_induction_on
    generalizing options bound left with
  | _ n ih =>
    have hlimit := limit_pos hadmitted
    by_cases hover : options.query.limit < (options.query.entriesFrom none left).length
    · obtain ⟨page, bound', left', hpage, htruncated, hcursor, hshows, hheld, hstands', hdrop,
        htops⟩ := page_overflow hadmitted hres hstands hover
      have hwithin' : options.query.Within left' :=
        (within_next hadmitted hstands.ordered hstands'.ordered hover hdrop htops).mpr hwithin
      have hless : (options.query.entriesFrom none left').length < n := by
        rw [hdrop, List.length_drop]
        omega
      obtain ⟨pages, shown, hfollows, hall, hflatten⟩ := ih _ hless
        (hadmitted.nextPage bound') (ListOptions.resumes_nextPage hheld) hstands' hwithin' rfl
      refine ⟨page :: pages, _ :: shown, Follows.next hpage htruncated hcursor hfollows,
        List.Forall₂.cons ⟨hshows, ?_⟩ hall, ?_⟩
      · rw [List.length_take]
        omega
      · rw [List.flatten_cons, hflatten]
        show _ ++ options.query.entriesFrom none left' = _
        rw [hdrop, List.take_append_drop]
    · have hfit := not_lt.mp hover
      obtain ⟨page, _, hpage, htruncated, hcursor, hshows, hends⟩ :=
        page_fit hadmitted hres hstands hfit
      rw [within_iff hstands.ordered hfit] at hwithin
      rcases hwithin.lt_or_eq with hlast | hlast
      · rw [hends.within hlast] at htruncated
        exact ⟨[page], [_], Follows.last hpage htruncated,
          List.Forall₂.cons ⟨hshows, hfit⟩ List.Forall₂.nil, List.flatten_singleton⟩
      · -- the passes end with the rows, and one more page finds nothing
        obtain ⟨bound', rfl, hheld, hstands'⟩ := hends.beyond hlast.ge
        rw [List.drop_of_length_le hlast.le] at hstands'
        obtain ⟨page', hfollows, hshows'⟩ := follows_nil (hadmitted.nextPage bound')
          (ListOptions.resumes_nextPage hheld) hstands'
        exact ⟨[page, page'], [_, []], Follows.next hpage htruncated hcursor hfollows,
          List.Forall₂.cons ⟨hshows, hfit⟩
            (List.Forall₂.cons ⟨hshows', Nat.zero_le _⟩ List.Forall₂.nil), by simp⟩

/-! ### A group that is shown twice -/

theorem Follows.head {rows : List Row} {pages : List ListResult} (h : Follows rows options pages)
    (hpage : listObjects rows options = .ok page) :
    ∃ pages', pages = page :: pages' ∧ (page.truncated = true →
      ∃ cursor, page.cursor = some cursor ∧
        Follows rows { options with cursor := some cursor } pages') := by
  cases h with
  | last h hlast =>
    obtain rfl := Except.ok.inj (h.symm.trans hpage)
    refine ⟨[], rfl, fun ht => ?_⟩
    rw [hlast] at ht
    cases ht
  | next h _ hcursor hpages =>
    obtain rfl := Except.ok.inj (h.symm.trans hpage)
    exact ⟨_, rfl, fun _ => ⟨_, hcursor, hpages⟩⟩

section

variable {pages : List ListResult} (hadmitted : options.Admitted) (hres : options.Resumes bound)
  (hstands : options.query.Stands bucket bound left)

include hadmitted hres hstands

theorem group_mem_pages (hgroup : ∀ row ∈ left, options.query.group row.key = some group)
    (hne : left ≠ []) (hfollows : Follows bucket.rows options pages)
    : group ∈ pages.flatMap ListResult.prefixes := by
  have hentries := Query.entriesFrom_tops hgroup hne
  have hlimit := limit_pos hadmitted
  obtain ⟨_, _, hpage, -, -, hshows, -⟩ := page_fit hadmitted hres hstands
    (by rw [hentries, List.length_singleton]; exact hlimit)
  obtain ⟨_, rfl, -⟩ := hfollows.head hpage
  rw [List.flatMap_cons, hshows.prefixes, hentries]
  exact List.mem_append_left _ List.mem_cons_self

/-- **Past its reach a group is shown twice.** -/
theorem follows_beyond (hbeyond : ¬options.query.Within left)
    (hfollows : Follows bucket.rows options pages) :
    ¬(pages.flatMap ListResult.prefixes).Nodup := by
  induction hn : (options.query.entriesFrom none left).length using Nat.strong_induction_on
    generalizing options bound left pages with
  | _ n ih =>
    have hlimit := limit_pos hadmitted
    by_cases hover : options.query.limit < (options.query.entriesFrom none left).length
    · obtain ⟨_, bound', left', hpage, htruncated, hcursor, -, hheld, hstands', hdrop,
        htops⟩ := page_overflow hadmitted hres hstands hover
      have hbeyond' : ¬options.query.Within left' := fun h => hbeyond
        ((within_next hadmitted hstands.ordered hstands'.ordered hover hdrop htops).mp h)
      have hless : (options.query.entriesFrom none left').length < n := by
        rw [hdrop, List.length_drop]
        omega
      obtain ⟨_, rfl, hnext⟩ := hfollows.head hpage
      obtain ⟨_, hcursor', hfollows'⟩ := hnext htruncated
      obtain rfl := Option.some.inj (hcursor.symm.trans hcursor')
      intro hnodup
      rw [List.flatMap_cons] at hnodup
      exact ih _ hless (hadmitted.nextPage bound') (ListOptions.resumes_nextPage hheld) hstands'
        hbeyond' hfollows' rfl (List.Nodup.of_append_right hnodup)
    · have hfit := not_lt.mp hover
      obtain ⟨page, _, hpage, htruncated, hcursor, hshows, hends⟩ :=
        page_fit hadmitted hres hstands hfit
      rw [within_iff hstands.ordered hfit] at hbeyond
      have hlast := not_le.mp hbeyond
      obtain ⟨bound', rfl, hheld, hstands'⟩ := hends.beyond hlast.le
      obtain ⟨pages', rfl, hnext⟩ := hfollows.head hpage
      obtain ⟨_, hcursor', hfollows'⟩ := hnext htruncated
      obtain rfl := Option.some.inj (hcursor.symm.trans hcursor')
      -- the group is the last entry of this page, and its rows go on
      obtain ⟨-, group, hgroup, -⟩ := Query.tops_split hstands.ordered
      have hne : options.query.tops left ≠ [] := by
        intro hnil
        rw [hnil] at hlast
        exact Nat.not_lt_zero _ hlast
      have hshown : group ∈ page.prefixes := by
        rw [hshows.prefixes, Query.entriesFrom_split hstands.ordered,
          Query.entriesFrom_tops hgroup hne, List.filterMap_append]
        exact List.mem_append_right _ List.mem_cons_self
      have hagain : group ∈ pages'.flatMap ListResult.prefixes := by
        refine group_mem_pages (hadmitted.nextPage bound') (ListOptions.resumes_nextPage hheld)
          hstands' (fun row hrow => hgroup row (List.mem_of_mem_drop hrow)) ?_ hfollows'
        rw [← List.length_pos_iff, List.length_drop]
        omega
      intro hnodup
      rw [List.flatMap_cons] at hnodup
      exact List.disjoint_of_nodup_append hnodup hshown hagain

end

end Pages

/-! ### What is to be shown -/

/-- The names on a page. -/
def ListResult.names (page : ListResult) : List Points :=
  page.objects.map Row.key ++ page.prefixes

/-- What the pages of a listing are to show: the rows of the prefix without a delimiter after it,
in key order; the groups of the others, each once; no more than the limit on a page; all in key
order. -/
structure Listed (q : Query) (rows : List Row) (pages : List ListResult) : Prop where
  objects : pages.flatMap ListResult.objects =
    (q.matching rows).filter fun row => !q.delimited row.key
  groups : ∀ group, group ∈ pages.flatMap ListResult.prefixes ↔
    ∃ row ∈ q.matching rows, q.group row.key = some group
  once : (pages.flatMap ListResult.prefixes).Nodup
  member : ∀ row ∈ q.matching rows, q.delimited row.key = true →
    ∃! group, group ∈ pages.flatMap ListResult.prefixes ∧ group <+: row.key
  room : ∀ page ∈ pages, page.objects.length + page.prefixes.length ≤ q.limit
  across : pages.Pairwise fun page page' => ∀ a ∈ page.names, ∀ b ∈ page'.names, a < b
  within : ∀ page ∈ pages,
    (page.objects.map Row.key).Pairwise (· < ·) ∧ page.prefixes.Pairwise (· < ·)

section Listed

variable {q : Query} {bucket : Bucket} {pages : List ListResult} {shown : List (List Entry)}

variable {limit : ℕ}

theorem ShowAll.objects (h : ShowAll limit pages shown) :
    pages.flatMap ListResult.objects = shown.flatten.filterMap Entry.object? := by
  induction h with
  | nil => rfl
  | cons hpage _ ih =>
    rw [List.flatMap_cons, List.flatten_cons, List.filterMap_append, hpage.1.objects, ih]

theorem ShowAll.prefixes (h : ShowAll limit pages shown) :
    pages.flatMap ListResult.prefixes = shown.flatten.filterMap Entry.group? := by
  induction h with
  | nil => rfl
  | cons hpage _ ih =>
    rw [List.flatMap_cons, List.flatten_cons, List.filterMap_append, hpage.1.prefixes, ih]

theorem ShowAll.mem (h : ShowAll limit pages shown) (hpage : page ∈ pages) :
    ∃ entries ∈ shown, page.Shows entries ∧ entries.length ≤ limit := by
  induction h with
  | nil => cases hpage
  | cons hfirst _ ih =>
    rcases List.mem_cons.mp hpage with rfl | hpage
    · exact ⟨_, List.mem_cons_self, hfirst⟩
    · obtain ⟨entries, hmem, hrest⟩ := ih hpage
      exact ⟨entries, List.mem_cons_of_mem _ hmem, hrest⟩

/-- A name on a page is the name of an entry it shows. -/
theorem ListResult.Shows.names (h : page.Shows entries) {name : Points} (hname : name ∈ page.names) :
    ∃ e ∈ entries, e.name = name := by
  unfold ListResult.names at hname
  rw [h.objects, h.prefixes] at hname
  rcases List.mem_append.mp hname with hname | hname
  · obtain ⟨_, hrow, rfl⟩ := List.mem_map.mp hname
    obtain ⟨e, he, hobject⟩ := List.mem_filterMap.mp hrow
    cases e with
    | object r =>
      cases hobject
      exact ⟨_, he, rfl⟩
    | group g => cases hobject
  · obtain ⟨e, he, hgroup⟩ := List.mem_filterMap.mp hname
    cases e with
    | object r => cases hgroup
    | group g =>
      cases hgroup
      exact ⟨_, he, rfl⟩

theorem ShowAll.across (h : ShowAll limit pages shown)
    (hsorted : shown.flatten.Pairwise fun a b => a.name < b.name) :
    pages.Pairwise fun page page' => ∀ a ∈ page.names, ∀ b ∈ page'.names, a < b := by
  induction h with
  | nil => exact List.Pairwise.nil
  | cons hpage hrest ih =>
    rw [List.flatten_cons, List.pairwise_append] at hsorted
    obtain ⟨-, hlater, hcross⟩ := hsorted
    refine List.pairwise_cons.mpr ⟨fun page' hpage' a ha b hb => ?_, ih hlater⟩
    obtain ⟨e, he, rfl⟩ := hpage.1.names ha
    obtain ⟨entries, hentries, hshows, -⟩ := ShowAll.mem hrest hpage'
    obtain ⟨e', he', rfl⟩ := hshows.names hb
    exact hcross e he e' (List.mem_flatten.mpr ⟨entries, hentries, he'⟩)

theorem pairwise_objects (h : entries.Pairwise fun a b => a.name < b.name) :
    ((entries.filterMap Entry.object?).map Row.key).Pairwise (· < ·) := by
  rw [List.pairwise_map, List.pairwise_filterMap]
  refine h.imp fun {a b} hlt row hrow row' hrow' => ?_
  cases a with
  | group g => cases hrow
  | object r =>
    cases b with
    | group g => cases hrow'
    | object r' =>
      cases hrow
      cases hrow'
      exact hlt

theorem pairwise_groups (h : entries.Pairwise fun a b => a.name < b.name) :
    (entries.filterMap Entry.group?).Pairwise (· < ·) := by
  rw [List.pairwise_filterMap]
  refine h.imp fun {a b} hlt g hg g' hg' => ?_
  cases a with
  | object r => cases hg
  | group n =>
    cases b with
    | object r => cases hg'
    | group n' =>
      cases hg
      cases hg'
      exact hlt

theorem ShowAll.listed (h : ShowAll q.limit pages shown)
    (hall : shown.flatten = q.entriesFrom none (q.matching bucket.rows)) :
    Listed q bucket.rows pages := by
  have hordered := (Query.Stands.start (q := q) bucket).ordered
  have hsorted := Query.entriesFrom_sorted hordered
  have hprefixes := h.prefixes
  have hgroups : ∀ group, group ∈ pages.flatMap ListResult.prefixes ↔
      ∃ row ∈ q.matching bucket.rows, q.group row.key = some group := by
    intro group
    rw [hprefixes, hall, List.mem_filterMap]
    constructor
    · rintro ⟨e, he, hgroup⟩
      obtain ⟨row, hrow, rfl⟩ := Query.mem_entriesFrom he
      refine ⟨row, hrow, ?_⟩
      unfold Query.entry at hgroup
      split at hgroup
      · next hg => rw [hg, ← hgroup]; rfl
      · cases hgroup
    · rintro ⟨_, hrow, hg⟩
      rcases Query.group_mem_entriesFrom hrow hg none with hnone | hmem
      · cases hnone
      · exact ⟨_, hmem, rfl⟩
  refine ⟨?_, hgroups, ?_, ?_, ?_, ?_, ?_⟩
  · rw [h.objects, hall, Query.objects_entriesFrom]
    refine List.filter_congr fun row _ => ?_
    rw [← Query.group_isSome]
    cases q.group row.key <;> rfl
  · rw [hprefixes, hall]
    exact (pairwise_groups hsorted).imp fun hlt => ne_of_lt hlt
  · intro row hrow hdelimited
    rw [← Query.group_isSome] at hdelimited
    obtain ⟨group, hg⟩ := Option.isSome_iff_exists.mp hdelimited
    refine ⟨group, ⟨(hgroups group).mpr ⟨row, hrow, hg⟩,
      Query.prefix_of_group (hordered.matching row hrow) hg⟩, ?_⟩
    rintro group' ⟨hmem, hstarts⟩
    obtain ⟨_, -, hg'⟩ := (hgroups group').mp hmem
    exact Option.some.inj ((Query.group_of_prefix hg' hstarts).symm.trans hg)
  · intro page hpage
    obtain ⟨_, -, hshows, hle⟩ := h.mem hpage
    rw [hshows.objects, hshows.prefixes, length_entries]
    exact hle
  · exact h.across (hall ▸ hsorted)
  · intro page hpage
    obtain ⟨entries, hentries, hshows, -⟩ := h.mem hpage
    have hpart : entries.Pairwise fun a b => a.name < b.name := by
      rw [← hall] at hsorted
      exact (List.pairwise_flatten.mp hsorted).1 entries hentries
    rw [hshows.objects, hshows.prefixes]
    exact ⟨pairwise_objects hpart, pairwise_groups hpart⟩

end Listed

section Listing

variable {bucket : Bucket} {options : ListOptions}

theorem resumes_first (hfirst : options.cursor = none) :
    options.Resumes ⟨options.query.keyPrefix, true⟩ := Or.inl ⟨hfirst, rfl⟩

theorem not_listed_of_beyond (hadmitted : options.Admitted) (hfirst : options.cursor = none)
    (hbeyond : ¬options.query.Within (options.query.matching bucket.rows)) :
    ¬∃ pages, Follows bucket.rows options pages ∧ Listed options.query bucket.rows pages := by
  rintro ⟨_, hfollows, hlisted⟩
  exact follows_beyond hadmitted (resumes_first hfirst) (Query.Stands.start bucket) hbeyond
    hfollows hlisted.once

/-- **The pages show every key of the prefix once, in order, exactly where the group without a
ceiling is within reach** of the page that it is on, for every well-formed prefix and
delimiter. -/
theorem listed_iff (hadmitted : options.Admitted) (hfirst : options.cursor = none) :
    (∃ pages, Follows bucket.rows options pages ∧ Listed options.query bucket.rows pages) ↔
      options.query.Within (options.query.matching bucket.rows) := by
  constructor
  · intro h
    by_contra hbeyond
    exact not_listed_of_beyond hadmitted hfirst hbeyond h
  · intro hwithin
    obtain ⟨pages, _, hfollows, hall, hflatten⟩ := follows_within hadmitted
      (resumes_first hfirst) (Query.Stands.start bucket) hwithin
    exact ⟨pages, hfollows, hall.listed hflatten⟩

/-- Two folders and a key beside them. -/
def foldersBucket : Bucket where
  rows := [⟨"a/1".toList, "x", 1, 0⟩, ⟨"a/2".toList, "y", 2, 0⟩, ⟨"b".toList, "z", 3, 0⟩,
    ⟨"c/1".toList, "w", 4, 0⟩]
  sorted := by decide +kernel
  valid := by decide +kernel

theorem listed_folders :
    ∃ pages, Follows foldersBucket.rows { delimiter := some ['/'], limit := some 1 } pages ∧
      Listed ⟨[], some ['/'], 1⟩ foldersBucket.rows pages := by
  have hadmitted : ListOptions.Admitted { delimiter := some ['/'], limit := some 1 } :=
    ⟨by decide +kernel, by decide, by decide⟩
  exact (listed_iff hadmitted rfl).mpr (by decide +kernel)

/-- Twenty-one keys that start with U+10FFFF. -/
def highBucket : Bucket where
  rows := (List.range 21).map fun n => ⟨[Char.ofNat 0x10ffff, Char.ofNat (97 + n)], "x", 1, 0⟩
  sorted := by decide +kernel
  valid := by decide +kernel

/-- The group of those keys is shown on two pages. -/
theorem not_listed_high :
    ¬∃ pages, Follows highBucket.rows
        { delimiter := some [Char.ofNat 0x10ffff], limit := some 1 } pages ∧
      Listed ⟨[], some [Char.ofNat 0x10ffff], 1⟩ highBucket.rows pages := by
  have hadmitted :
      ListOptions.Admitted { delimiter := some [Char.ofNat 0x10ffff], limit := some 1 } :=
    ⟨by decide +kernel, by decide, by decide⟩
  exact not_listed_of_beyond hadmitted rfl (by decide +kernel)

end Listing

end Takoserver.ObjectStore
