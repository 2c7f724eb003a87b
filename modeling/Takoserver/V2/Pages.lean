import Takoserver.V2.Acceptance
import Takoserver.V2.Cursors

/-!
# Pages of Resources

`GET /resources` of `src/takoform-v2/routes.ts` over `listResources` of
`src/takoform-v2/engine.ts` and `list` of `src/takoform-v2/store.ts`.  The engine
reads pages of the store until it has as many Resources as the route asked for that
the principal may read; the route asks for one more than it shows, and signs the
place of the last one shown.
-/

namespace Takoserver.V2

/-- The row passes the filters. -/
def Filters.admits (filters : Filters) (row : ResourceRow) : Bool :=
  filters.space.all (· == row.space) && filters.name.all (· == row.name) &&
    filters.form.all (· == row.formUrl)

/-- An error the route answers with. -/
inductive Refusal where
  | invalidRequest
  | forbidden
  | unauthenticated

/-- The body of an answer. -/
structure Page where
  items : List ResourceRow
  nextCursor : Option String

/-! ### The store, the engine and the route -/

section Listing

-- the text of a uid, in whose order the store lists
variable (uidText : Uuid → String)

/-- The `list` of the store: `ORDER BY uid COLLATE BINARY LIMIT ?`. -/
def Db.list (db : Db) (principal : String) (filters : Filters) (afterUid : Option String)
    (limit : ℕ) : List ResourceRow :=
  ((db.resources.filter fun row =>
    row.principal == principal && row.deletedAt.isNone &&
      decide (afterUid.getD "" < uidText row.uid) && filters.admits row).mergeSort
        fun row row' => decide (uidText row.uid ≤ uidText row'.uid)).take limit

variable (authorize : String → String → Bool)

/-- `permitted`, for `"read"`. -/
def permitted (principal space : String) : Except Refusal Unit :=
  if principal = "" then .error .unauthenticated
  else if !authorize principal space then .error .forbidden
  else .ok ()

/-- The `while` loop of `listResources`, as many times as there is fuel. -/
def scan (db : Db) (principal : String) (filters : Filters) (limit : ℕ) :
    ℕ → List ResourceRow → Option String → Option (List ResourceRow)
  | 0, _, _ => none
  | fuel + 1, visible, afterUid =>
    if visible.length < limit then
      let pageSize := min 100 (limit - visible.length)
      let rows := db.list uidText principal filters afterUid pageSize
      match rows.getLast? with
      | none => some visible
      | some last =>
        let visible := visible ++ rows.filter fun row => authorize principal row.space
        if rows.length < pageSize then some visible
        else scan db principal filters limit fuel visible (some (uidText last.uid))
    else some visible

/-- `listResources`.  A pass over the table takes no more turns than it has rows. -/
def listResources (db : Db) (principal : String) (filters : Filters) (limit : ℕ)
    (afterUid : Option String) : Except Refusal (List ResourceRow) := do
  if maxSafeInteger < limit ∨ limit < 1 then throw .invalidRequest
  match filters.space with
  | some space => if space ≠ "" then permitted authorize principal space
  | none => pure ()
  return (scan uidText authorize db principal filters limit (db.resources.length + 1) []
    afterUid).getD []

/-- `Number` of a text of decimal digits. -/
def number (digits : List Char) : ℕ := Nat.ofDigits 10 (digits.reverse.map fun c => c.toNat - 48)

/-- The `limit` of a request. -/
def pageLimit (value : Option String) (max : ℕ) : Except Refusal ℕ :=
  match value with
  | none => .ok max
  | some value =>
    match value.toList with
    | c :: rest =>
      if '1' ≤ c ∧ c ≤ '9' ∧ rest.all Char.isDigit = true then
        let result := number (c :: rest)
        if maxSafeInteger < result ∨ max < result then .error .invalidRequest else .ok result
      else .error .invalidRequest
    | [] => .error .invalidRequest

variable (mac : List UInt8 → List UInt8)

/-- The place a page starts after, out of the cursor of the request. -/
def readCursor (principal : String) (filters : Filters) :
    Option String → Except Refusal (Option String)
  | none => .ok none
  | some cursor =>
    match decodeCursor mac cursor principal filters with
    | some after => .ok (some after)
    | none => .error .invalidRequest

/-- The page that is shown of the Resources read, one more of which the route asks for. -/
def pageOf (principal : String) (filters : Filters) (limit : ℕ) (items : List ResourceRow) : Page :=
  let hasMore := decide (limit < items.length)
  let visible := if hasMore then items.take limit else items
  { items := visible
    nextCursor := if hasMore then
        visible.getLast?.map fun last => encodeCursor mac principal filters (uidText last.uid)
      else none }

/-- `GET /resources`, once its filters are read. -/
def listRoute (maxPageSize : ℕ) (db : Db) (principal : String) (filters : Filters)
    (limitText cursor : Option String) : Except Refusal Page := do
  let limit ← pageLimit limitText maxPageSize
  let afterUid ← readCursor mac principal filters cursor
  let items ← listResources uidText authorize db principal filters (limit + 1) afterUid
  return pageOf uidText mac principal filters limit items

end Listing

/-- The Resources shown from a cursor on.  Where the listing is forbidden none is shown; any other
refusal leaves the listing without an end. -/
inductive Follows (ask : Option String → Except Refusal Page) :
    Option String → List ResourceRow → Prop
  | forbidden {cursor : Option String} : ask cursor = .error .forbidden → Follows ask cursor []
  | last {cursor : Option String} {items : List ResourceRow} :
    ask cursor = .ok { items, nextCursor := none } → Follows ask cursor items
  | next {cursor : Option String} {next : String} {items rest : List ResourceRow} :
    ask cursor = .ok { items, nextCursor := some next } → Follows ask (some next) rest →
      Follows ask cursor (items ++ rest)

/-! ### The rows of a listing -/

/-- What is relied on of the uids as texts: they tell the rows apart, and a cursor can hold them. -/
structure UidTexts (uidText : Uuid → String) (db : Db) : Prop where
  unique : (db.resources.map fun row => uidText row.uid).Nodup
  identifiers : ∀ row ∈ db.resources, identifier (uidText row.uid) = true

variable {shown : List ResourceRow}

section Rows

variable {uidText : Uuid → String} {authorize : String → String → Bool} {db : Db}
  {principal : String} {filters : Filters}

/-- The rows that are live and match. -/
def Db.matching (db : Db) (principal : String) (filters : Filters) : List ResourceRow :=
  db.resources.filter fun row =>
    row.principal == principal && row.deletedAt.isNone && filters.admits row

variable (uidText) in
/-- They in the order of their uids. -/
def Db.ordered (db : Db) (principal : String) (filters : Filters) : List ResourceRow :=
  (db.matching principal filters).mergeSort
    fun row row' => decide (uidText row.uid ≤ uidText row'.uid)

variable (uidText) in
/-- Those of them that come after a uid. -/
def Db.after (db : Db) (principal : String) (filters : Filters) (afterUid : Option String) :
    List ResourceRow :=
  (db.ordered uidText principal filters).filter fun row =>
    decide (afterUid.getD "" < uidText row.uid)

variable (uidText authorize) in
/-- The ones the principal may read. -/
def Db.visible (db : Db) (principal : String) (filters : Filters) : List ResourceRow :=
  (db.ordered uidText principal filters).filter fun row => authorize principal row.space

theorem pairwise_sorted (rows : List ResourceRow) :
    (rows.mergeSort fun row row' => decide (uidText row.uid ≤ uidText row'.uid)).Pairwise
      fun row row' => decide (uidText row.uid ≤ uidText row'.uid) = true := by
  refine List.pairwise_mergeSort ?_ ?_ rows
  · intro a b c hab hbc
    simp only [decide_eq_true_eq] at hab hbc ⊢
    exact le_trans hab hbc
  · intro a b
    simp only [Bool.or_eq_true, decide_eq_true_eq]
    exact le_total _ _

theorem mem_ordered {row : ResourceRow} :
    row ∈ db.ordered uidText principal filters ↔ row ∈ db.resources ∧
      row.principal = principal ∧ row.deletedAt = none ∧ filters.admits row = true := by
  simp [Db.ordered, Db.matching, and_assoc]

theorem ordered_pairwise (h : UidTexts uidText db) :
    (db.ordered uidText principal filters).Pairwise
      fun row row' => uidText row.uid < uidText row'.uid := by
  have hkeys : ((db.ordered uidText principal filters).map fun row => uidText row.uid).Nodup := by
    have hperm := (List.mergeSort_perm (db.matching principal filters)
      fun row row' => decide (uidText row.uid ≤ uidText row'.uid)).map fun row => uidText row.uid
    refine hperm.nodup_iff.mpr (h.unique.sublist ?_)
    exact List.filter_sublist.map _
  have hne := List.pairwise_map.mp hkeys
  refine (pairwise_sorted _ |>.and hne).imp ?_
  rintro a b ⟨hle, hne⟩
  exact lt_of_le_of_ne (of_decide_eq_true hle) hne

/-- The store lists the first of the rows after the uid. -/
theorem list_eq (h : UidTexts uidText db) (afterUid : Option String) (limit : ℕ) :
    db.list uidText principal filters afterUid limit =
      (db.after uidText principal filters afterUid).take limit := by
  unfold Db.list
  congr 1
  refine List.Perm.eq_of_pairwise ?_ (pairwise_sorted _)
    ((pairwise_sorted _).sublist List.filter_sublist) ?_
  · intro a b ha hb hab hba
    have ha := List.mem_of_mem_filter (List.mem_mergeSort.mp ha)
    have hb := (mem_ordered.mp (List.mem_of_mem_filter hb)).1
    exact Table.eq_of_key h.unique ha hb
      (le_antisymm (of_decide_eq_true hab) (of_decide_eq_true hba))
  · refine (List.mergeSort_perm _ _).trans ?_
    refine List.Perm.trans ?_ ((List.mergeSort_perm _ _).filter _).symm
    rw [Db.matching, List.filter_filter]
    refine List.Perm.of_eq (List.filter_congr fun row _ => ?_)
    ac_rfl

theorem after_none (h : UidTexts uidText db) :
    db.after uidText principal filters none = db.ordered uidText principal filters := by
  refine List.filter_eq_self.mpr fun row hrow => decide_eq_true ?_
  have hid := h.identifiers row (mem_ordered.mp hrow).1
  rw [String.lt_iff_toList_lt]
  cases htext : (uidText row.uid).toList with
  | nil =>
    unfold identifier at hid
    rw [htext] at hid
    cases hid
  | cons c rest => exact List.nil_lt_cons c rest

theorem filter_after_last {rows rest : List ResourceRow} {last : ResourceRow}
    (hsorted : (rows ++ rest).Pairwise fun row row' => uidText row.uid < uidText row'.uid)
    (hlast : rows.getLast? = some last) :
    (rows ++ rest).filter (fun row => decide (uidText last.uid < uidText row.uid)) = rest := by
  obtain ⟨_, rfl⟩ := List.getLast?_eq_some_iff.mp hlast
  obtain ⟨hrows, -, hcross⟩ := List.pairwise_append.mp hsorted
  rw [List.filter_append, List.filter_eq_nil_iff.mpr, List.nil_append, List.filter_eq_self.mpr]
  · intro row hrow
    exact decide_eq_true (hcross last (by simp) row hrow)
  · intro row hrow
    rw [decide_eq_true_eq, not_lt]
    rcases List.mem_append.mp hrow with hfront | hlast
    · exact le_of_lt ((List.pairwise_append.mp hrows).2.2 row hfront last (by simp))
    · rw [List.mem_singleton.mp hlast]

theorem after_last (h : UidTexts uidText db) {afterUid : Option String} {limit : ℕ}
    {last : ResourceRow}
    (hlast : ((db.after uidText principal filters afterUid).take limit).getLast? = some last) :
    db.after uidText principal filters (some (uidText last.uid)) =
      (db.after uidText principal filters afterUid).drop limit := by
  have hsorted := (ordered_pairwise h : (db.ordered uidText principal filters).Pairwise _).sublist
    (List.filter_sublist (p := fun row => decide (afterUid.getD "" < uidText row.uid)))
  have hmem : last ∈ db.after uidText principal filters afterUid :=
    List.mem_of_mem_take (List.mem_of_getLast? hlast)
  have hlt : afterUid.getD "" < uidText last.uid := of_decide_eq_true (List.mem_filter.mp hmem).2
  rw [← Db.after, ← List.take_append_drop limit (db.after _ _ _ _)] at hsorted
  have hsplit := filter_after_last hsorted hlast
  rw [List.take_append_drop, Db.after, List.filter_filter] at hsplit
  rw [← Db.after] at hsplit
  rw [← hsplit, Db.after]
  refine List.filter_congr fun row _ => ?_
  rw [Option.getD_some, eq_comm, Bool.and_eq_left_iff_imp]
  intro hafter
  exact decide_eq_true (lt_trans hlt (of_decide_eq_true hafter))

/-! ### What the engine reads -/

/-- **The engine reads the first of the visible rows that are left**, wherever the pages of the
store end. -/
theorem scan_eq (h : UidTexts uidText db) {limit fuel : ℕ} {afterUid : Option String}
    (hshown : shown.length ≤ limit)
    (hfuel : (db.after uidText principal filters afterUid).length < fuel) :
    scan uidText authorize db principal filters limit fuel shown afterUid =
      some (shown ++ ((db.after uidText principal filters afterUid).filter
        fun row => authorize principal row.space).take (limit - shown.length)) := by
  induction fuel generalizing shown afterUid with
  | zero => cases hfuel
  | succ fuel ih =>
    unfold scan
    split
    · next =>
      obtain ⟨size, hsize⟩ : ∃ size, size = min 100 (limit - shown.length) := ⟨_, rfl⟩
      obtain ⟨left, hleft⟩ : ∃ left, left = db.after uidText principal filters afterUid := ⟨_, rfl⟩
      simp only [← hsize, list_eq h, ← hleft]
      rw [← hleft] at hfuel
      -- the last row of a page is where the next one starts
      cases hlast : (left.take size).getLast? with
      | none =>
        have hnil : left = [] :=
          (List.take_eq_nil_iff.mp (List.getLast?_eq_none_iff.mp hlast)).resolve_left (by omega)
        simp [hnil]
      | some last =>
        have hread : ((left.take size).filter fun row => authorize principal row.space).length ≤
            (left.take size).length := List.length_filter_le _ _
        have htake := List.length_take (l := left) (i := size)
        by_cases hfull : (left.take size).length < size
        · have hall : left.take size = left := by
            rw [List.take_eq_self_iff]
            omega
          simp only [hfull, if_true]
          rw [hall, List.take_of_length_le]
          rw [hall] at hread
          omega
        · have hafter := after_last h (hleft ▸ hlast)
          rw [← hleft] at hafter
          have hshown' : (shown ++ (left.take size).filter
              fun row => authorize principal row.space).length ≤ limit := by
            rw [List.length_append]
            omega
          have hfuel' : (db.after uidText principal filters
              (some (uidText last.uid))).length < fuel := by
            rw [hafter, List.length_drop]
            omega
          have hsplit : left.filter (fun row => authorize principal row.space) =
              (left.take size).filter (fun row => authorize principal row.space) ++
                (left.drop size).filter (fun row => authorize principal row.space) := by
            rw [← List.filter_append, List.take_append_drop]
          simp only [hfull, if_false]
          rw [ih hshown' hfuel', hafter, List.append_assoc, hsplit, List.take_append,
            List.take_of_length_le (i := limit - shown.length) (by omega), List.length_append,
            Nat.sub_sub]
    · next hroom =>
      rw [Nat.sub_eq_zero_of_le (not_lt.mp hroom), List.take_zero, List.append_nil]

end Rows

/-! ### One page -/

section Pages

variable {uidText : Uuid → String} {authorize : String → String → Bool}
  {mac : List UInt8 → List UInt8} {maxPageSize : ℕ} {db : Db} {principal : String}
  {filters : Filters} {limitText : Option String} {limit : ℕ}

theorem number_pos {c : Char} {rest : List Char} (h : '1' ≤ c) : 1 ≤ number (c :: rest) := by
  have hc : 49 ≤ c.toNat := by
    rw [Char.le_def] at h
    exact h
  have hpow : 0 < 10 ^ rest.length := Nat.pow_pos (by omega)
  have hdigit : 10 ^ rest.length * 1 ≤ 10 ^ rest.length * (c.toNat - 48) :=
    Nat.mul_le_mul_left _ (by omega)
  simp only [number, List.reverse_cons, List.map_append, List.map_cons, List.map_nil,
    Nat.ofDigits_append, Nat.ofDigits_singleton, List.length_map, List.length_reverse]
  omega

theorem pageLimit_pos (hmax : 1 ≤ maxPageSize) (h : pageLimit limitText maxPageSize = .ok limit) :
    1 ≤ limit := by
  unfold pageLimit at h
  split at h
  · cases h
    exact hmax
  split at h
  · split at h
    · next hdigits =>
      dsimp only at h
      split at h
      · cases h
      · cases h
        exact number_pos hdigits.1
    · cases h
  · cases h

theorem pageLimit_error {e : Refusal} (h : pageLimit limitText maxPageSize = .error e) :
    e = .invalidRequest := by
  unfold pageLimit at h
  split at h
  · cases h
  split at h
  · split at h
    · dsimp only at h
      split at h <;> cases h
      rfl
    · cases h
      rfl
  · cases h
    rfl

variable (uidText authorize mac db principal filters) in
/-- The cursor after the first of the visible rows. -/
def cursorAt (place : ℕ) : Option String :=
  ((db.visible uidText authorize principal filters).take place).getLast?.map fun last =>
    encodeCursor mac principal filters (uidText last.uid)

variable (uidText authorize db principal filters) in
/-- That cursor is short enough to be read. -/
def Fits (place : ℕ) : Prop :=
  ∀ last, ((db.visible uidText authorize principal filters).take place).getLast? = some last →
    (payloadBytes filters (uidText last.uid)).length ≤ 3036

variable (authorize principal filters) in
/-- The listing is not of a Space the principal may not read. -/
def Allowed : Prop :=
  ∀ space, filters.space = some space → space ≠ "" → authorize principal space = true

theorem visible_pairwise (h : UidTexts uidText db) :
    (db.visible uidText authorize principal filters).Pairwise
      fun row row' => uidText row.uid < uidText row'.uid :=
  (ordered_pairwise h).sublist List.filter_sublist

theorem mem_visible {row : ResourceRow} :
    row ∈ db.visible uidText authorize principal filters ↔ (row ∈ db.resources ∧
      row.principal = principal ∧ row.deletedAt = none ∧ filters.admits row = true) ∧
        authorize principal row.space = true := by
  rw [Db.visible, List.mem_filter, mem_ordered]

/-- The visible rows after a place. -/
theorem after_place (h : UidTexts uidText db) (place : ℕ) :
    (db.after uidText principal filters
      (((db.visible uidText authorize principal filters).take place).getLast?.map
        fun last => uidText last.uid)).filter (fun row => authorize principal row.space) =
      (db.visible uidText authorize principal filters).drop place := by
  cases hlast : ((db.visible uidText authorize principal filters).take place).getLast? with
  | none =>
    rw [Option.map_none, after_none h, ← Db.visible]
    rcases List.take_eq_nil_iff.mp (List.getLast?_eq_none_iff.mp hlast) with hzero | hnil
    · rw [hzero, List.drop_zero]
    · rw [hnil, List.drop_nil]
  | some =>
    have hsorted : (db.visible uidText authorize principal filters).Pairwise _ :=
      visible_pairwise h
    rw [← List.take_append_drop place (db.visible _ _ _ _)] at hsorted
    have hsplit := filter_after_last hsorted hlast
    rw [List.take_append_drop] at hsplit
    rw [← hsplit, Option.map_some, Db.after, Db.visible, Option.getD_some, List.filter_filter,
      List.filter_filter]
    exact List.filter_congr fun row _ => Bool.and_comm _ _

theorem listResources_eq (h : UidTexts uidText db) (hprincipal : principal ≠ "")
    (hallowed : Allowed authorize principal filters) (hpos : 1 ≤ limit)
    (hsafe : limit ≤ maxSafeInteger) (afterUid : Option String) :
    listResources uidText authorize db principal filters limit afterUid =
      .ok (((db.after uidText principal filters afterUid).filter
        fun row => authorize principal row.space).take limit) := by
  have hfuel : (db.after uidText principal filters afterUid).length < db.resources.length + 1 := by
    have hafter := (List.filter_sublist (l := db.ordered uidText principal filters)
      (p := fun row => decide (afterUid.getD "" < uidText row.uid))).length_le
    have hmatching := (List.filter_sublist (l := db.resources) (p := fun row =>
      row.principal == principal && row.deletedAt.isNone && filters.admits row)).length_le
    have hsort : (db.ordered uidText principal filters).length =
        (db.matching principal filters).length := List.length_mergeSort _
    unfold Db.matching at hsort
    unfold Db.after
    omega
  have hlimit : ¬(maxSafeInteger < limit ∨ limit < 1) := by omega
  unfold listResources
  rw [if_neg hlimit, scan_eq h (Nat.zero_le _) hfuel]
  cases hspace : filters.space with
  | none => rfl
  | some space =>
    by_cases hempty : space = ""
    · simp only [hempty, ne_eq, not_true_eq_false, if_false]
      rfl
    · simp only [ne_eq, hempty, not_false_eq_true, if_true, permitted, hprincipal, if_false,
        hallowed space hspace hempty, Bool.not_true, Bool.false_eq_true]
      rfl

variable {place : ℕ}

theorem readCursor_cursorAt (hmac : ∀ message, (mac message).length = 32) (h : UidTexts uidText db)
    (hfits : Fits uidText authorize db principal filters place) :
    readCursor mac principal filters
      (cursorAt uidText authorize mac db principal filters place) =
        .ok (((db.visible uidText authorize principal filters).take place).getLast?.map
          fun last => uidText last.uid) := by
  unfold cursorAt
  cases hlast : ((db.visible uidText authorize principal filters).take place).getLast? with
  | none => rfl
  | some last =>
    have hmem := List.mem_of_mem_take (List.mem_of_getLast? hlast)
    have hread : decodeCursor mac (encodeCursor mac principal filters (uidText last.uid)) principal
        filters = some (uidText last.uid) :=
      decodeCursor_encodeCursor hmac (h.identifiers last (mem_visible.mp hmem).1.1)
        ((utf16Length_encodeCursor hmac).mpr (hfits last hlast))
    simp only [Option.map_some, readCursor, hread]

theorem readCursor_too_long (hmac : ∀ message, (mac message).length = 32)
    (hfits : ¬Fits uidText authorize db principal filters place) :
    readCursor mac principal filters
      (cursorAt uidText authorize mac db principal filters place) = .error .invalidRequest := by
  simp only [Fits, not_forall, exists_prop] at hfits
  obtain ⟨last, hlast, hlong⟩ := hfits
  have hread : decodeCursor mac (encodeCursor mac principal filters (uidText last.uid)) principal
      filters = none :=
    decodeCursor_too_long (not_le.mp fun hshort => hlong ((utf16Length_encodeCursor hmac).mp hshort))
  simp only [cursorAt, hlast, Option.map_some, readCursor, hread]

theorem pageOf_place (hpos : 1 ≤ limit) (place : ℕ) :
    pageOf uidText mac principal filters limit
      (((db.visible uidText authorize principal filters).drop place).take (limit + 1)) =
        { items := ((db.visible uidText authorize principal filters).drop place).take limit
          nextCursor :=
            if place + limit < (db.visible uidText authorize principal filters).length then
              cursorAt uidText authorize mac db principal filters (place + limit)
            else none } := by
  obtain ⟨rows, hrows⟩ : ∃ rows, rows = db.visible uidText authorize principal filters := ⟨_, rfl⟩
  unfold pageOf cursorAt
  rw [← hrows]
  by_cases hmore : place + limit < rows.length
  · have hlast : (rows.take (place + limit)).getLast? = ((rows.drop place).take limit).getLast? := by
      have hne : (rows.drop place).take limit ≠ [] := by
        intro hnil
        have := congrArg List.length hnil
        rw [List.length_take, List.length_drop, List.length_nil] at this
        omega
      rw [List.take_add, List.getLast?_append_of_ne_nil _ hne]
    have hhas : limit < ((rows.drop place).take (limit + 1)).length := by
      rw [List.length_take, List.length_drop]
      omega
    simp only [hhas, hmore, decide_true, if_true, List.take_take, hlast]
    rw [Nat.min_eq_left (Nat.le_succ limit)]
  · have hhas : ¬limit < ((rows.drop place).take (limit + 1)).length := by
      rw [List.length_take, List.length_drop]
      omega
    have hshort : (rows.drop place).length ≤ limit := by
      rw [List.length_drop]
      omega
    simp only [hhas, hmore, decide_false, if_false, Bool.false_eq_true]
    rw [List.take_of_length_le hshort, List.take_of_length_le (by omega)]

/-- **A page is the next of the visible Resources**, and its cursor the place after them. -/
theorem listRoute_page (hmac : ∀ message, (mac message).length = 32) (h : UidTexts uidText db)
    (hprincipal : principal ≠ "") (hallowed : Allowed authorize principal filters)
    (hlimit : pageLimit limitText maxPageSize = .ok limit) (hpos : 1 ≤ limit)
    (hsafe : limit < maxSafeInteger) (hfits : Fits uidText authorize db principal filters place) :
    listRoute uidText authorize mac maxPageSize db principal filters limitText
      (cursorAt uidText authorize mac db principal filters place) =
        .ok { items := ((db.visible uidText authorize principal filters).drop place).take limit
              nextCursor :=
                if place + limit < (db.visible uidText authorize principal filters).length then
                  cursorAt uidText authorize mac db principal filters (place + limit)
                else none } := by
  unfold listRoute
  rw [hlimit, readCursor_cursorAt hmac h hfits]
  show (listResources uidText authorize db principal filters (limit + 1) _ >>= _) = _
  rw [listResources_eq h hprincipal hallowed (Nat.le_add_left _ _) hsafe, after_place h,
    ← pageOf_place hpos]
  rfl

theorem listRoute_unread {cursor : Option String}
    (hread : readCursor mac principal filters cursor = .error .invalidRequest) :
    listRoute uidText authorize mac maxPageSize db principal filters limitText cursor =
      .error .invalidRequest := by
  unfold listRoute
  cases hvalue : pageLimit limitText maxPageSize with
  | error e =>
    rw [pageLimit_error hvalue]
    rfl
  | ok =>
    rw [hread]
    rfl

/-! ### Page after page -/

/-- A listing of a Space the principal may not read shows nothing and has nothing to show. -/
theorem visible_forbidden (hallowed : ¬Allowed authorize principal filters) :
    db.visible uidText authorize principal filters = [] := by
  simp only [Allowed, not_forall, exists_prop] at hallowed
  obtain ⟨_, hspace, -, hforbidden⟩ := hallowed
  refine List.eq_nil_iff_forall_not_mem.mpr fun row hrow => hforbidden ?_
  obtain ⟨⟨-, -, -, hadmits⟩, hauthorized⟩ := mem_visible.mp hrow
  simp only [Filters.admits, hspace, Option.all_some, Bool.and_eq_true, beq_iff_eq] at hadmits
  rw [hadmits.1.1]
  exact hauthorized

theorem listRoute_forbidden (hprincipal : principal ≠ "")
    (hallowed : ¬Allowed authorize principal filters)
    (hlimit : pageLimit limitText maxPageSize = .ok limit) (hsafe : limit < maxSafeInteger) :
    listRoute uidText authorize mac maxPageSize db principal filters limitText none =
      .error .forbidden := by
  simp only [Allowed, not_forall, exists_prop] at hallowed
  obtain ⟨_, hspace, hne, hforbidden⟩ := hallowed
  have hroom : ¬(maxSafeInteger < limit + 1 ∨ limit + 1 < 1) := by omega
  unfold listRoute
  rw [hlimit]
  show (listResources uidText authorize db principal filters (limit + 1) none >>= _) = _
  unfold listResources
  rw [if_neg hroom]
  simp only [hspace, ne_eq, hne, not_false_eq_true, if_true, permitted, hprincipal, if_false,
    hforbidden, Bool.not_false]
  rfl

theorem listRoute_unsafe (hlimit : pageLimit limitText maxPageSize = .ok limit)
    (hsafe : ¬limit < maxSafeInteger) :
    listRoute uidText authorize mac maxPageSize db principal filters limitText none =
      .error .invalidRequest := by
  have hroom : maxSafeInteger < limit + 1 ∨ limit + 1 < 1 := by omega
  unfold listRoute
  rw [hlimit]
  show (listResources uidText authorize db principal filters (limit + 1) none >>= _) = _
  unfold listResources
  rw [if_pos hroom]
  rfl

variable (uidText authorize db principal filters) in
/-- Every place a page after this one starts at has a cursor that is short enough. -/
def FitsFrom (limit place : ℕ) : Prop :=
  ∀ turn, 1 ≤ turn →
    place + turn * limit < (db.visible uidText authorize principal filters).length →
      Fits uidText authorize db principal filters (place + turn * limit)

theorem fitsFrom_iff
    (hmore : place + limit < (db.visible uidText authorize principal filters).length) :
    FitsFrom uidText authorize db principal filters limit place ↔
      Fits uidText authorize db principal filters (place + limit) ∧
        FitsFrom uidText authorize db principal filters limit (place + limit) := by
  constructor
  · intro h
    refine ⟨?_, fun turn hturn hlt => ?_⟩
    · have := h 1 le_rfl (by omega)
      rwa [one_mul] at this
    · have hsum : place + limit + turn * limit = place + (turn + 1) * limit := by
        rw [Nat.succ_mul]
        omega
      rw [hsum] at hlt ⊢
      exact h (turn + 1) (Nat.le_add_left _ _) hlt
  · rintro ⟨hfits, h⟩ _ hturn hlt
    obtain ⟨rest, rfl⟩ := Nat.exists_eq_add_of_le hturn
    have hsum : place + (1 + rest) * limit = place + limit + rest * limit := by
      rw [Nat.add_mul, one_mul]
      omega
    rw [hsum] at hlt ⊢
    rcases Nat.eq_zero_or_pos rest with rfl | hrest
    · simpa using hfits
    · exact h rest hrest hlt

/-- **The pages show the visible Resources that are left exactly where the cursors to come are
short enough**: the induction is on what is left. -/
theorem follows_iff (hmac : ∀ message, (mac message).length = 32) (h : UidTexts uidText db)
    (hprincipal : principal ≠ "") (hallowed : Allowed authorize principal filters)
    (hlimit : pageLimit limitText maxPageSize = .ok limit) (hpos : 1 ≤ limit)
    (hsafe : limit < maxSafeInteger) (hfits : Fits uidText authorize db principal filters place) :
    Follows (listRoute uidText authorize mac maxPageSize db principal filters limitText)
      (cursorAt uidText authorize mac db principal filters place) shown ↔
        shown = (db.visible uidText authorize principal filters).drop place ∧
          FitsFrom uidText authorize db principal filters limit place := by
  obtain ⟨left, _⟩ : ∃ left,
    left = (db.visible uidText authorize principal filters).length - place := ⟨_, rfl⟩
  induction left using Nat.strong_induction_on generalizing place shown with
  | _ left ih =>
    have hpage := listRoute_page hmac h hprincipal hallowed hlimit hpos hsafe hfits
    by_cases hmore : place + limit < (db.visible uidText authorize principal filters).length
    · rw [if_pos hmore] at hpage
      obtain ⟨last, hlast⟩ : ∃ last, ((db.visible uidText authorize principal filters).take
          (place + limit)).getLast? = some last := by
        have hne : (db.visible uidText authorize principal filters).take (place + limit) ≠ [] := by
          rw [ne_eq, List.take_eq_nil_iff, ← List.length_eq_zero_iff]
          omega
        exact ⟨_, List.getLast?_eq_some_getLast hne⟩
      have hcursor : cursorAt uidText authorize mac db principal filters (place + limit) =
          some (encodeCursor mac principal filters (uidText last.uid)) := by
        rw [cursorAt, hlast, Option.map_some]
      have hdrop : (db.visible uidText authorize principal filters).drop place =
          ((db.visible uidText authorize principal filters).drop place).take limit ++
            (db.visible uidText authorize principal filters).drop (place + limit) := by
        rw [← List.drop_drop, List.take_append_drop]
      rw [fitsFrom_iff hmore]
      constructor
      · intro hfollows
        cases hfollows with
        | forbidden hask =>
          rw [hpage] at hask
          cases hask
        | last hask =>
          rw [hpage, hcursor] at hask
          cases hask
        | next hask hrest =>
          rw [hpage, hcursor] at hask
          obtain ⟨rfl, rfl⟩ : _ ∧ _ := by simpa using hask
          by_cases hnext : Fits uidText authorize db principal filters (place + limit)
          · rw [← hcursor, ih _ (by omega) hnext rfl] at hrest
            exact ⟨by rw [hrest.1, ← hdrop], hnext, hrest.2⟩
          -- the cursor of this page is refused
          have hrefused : listRoute uidText authorize mac maxPageSize db principal filters limitText
              (cursorAt uidText authorize mac db principal filters (place + limit)) = _ :=
            listRoute_unread (readCursor_too_long hmac hnext)
          rw [hcursor] at hrefused
          cases hrest with
          | forbidden hask => cases hrefused.symm.trans hask
          | last hask => cases hrefused.symm.trans hask
          | next hask => cases hrefused.symm.trans hask
      · rintro ⟨rfl, hnext, hfrom⟩
        have hrest := (ih _ (by omega) hnext rfl).mpr ⟨rfl, hfrom⟩
        rw [hcursor] at hpage hrest
        rw [hdrop]
        exact .next hpage hrest
    · rw [if_neg hmore] at hpage
      have hall : ((db.visible uidText authorize principal filters).drop place).take limit =
          (db.visible uidText authorize principal filters).drop place := by
        rw [List.take_eq_self_iff, List.length_drop]
        omega
      rw [hall] at hpage
      have hfrom : FitsFrom uidText authorize db principal filters limit place := by
        intro turn hturn hlt
        have := Nat.le_mul_of_pos_left limit hturn
        omega
      constructor
      · intro hfollows
        cases hfollows with
        | forbidden hask =>
          rw [hpage] at hask
          cases hask
        | last hask =>
          rw [hpage] at hask
          cases hask
          exact ⟨rfl, hfrom⟩
        | next hask =>
          rw [hpage] at hask
          cases hask
      · rintro ⟨rfl, -⟩
        exact .last hpage

/-! ### The whole listing -/

variable (uidText authorize db principal filters) in
/-- What following the cursors from the first page is to show: every live, matching Resource that
the principal may read, once, in the order of the uids. -/
def Shows (answer : Option String → Except Refusal Page) : Prop :=
  ∃ shown, Follows answer none shown ∧
    shown.Pairwise (fun row row' => uidText row.uid < uidText row'.uid) ∧
      ∀ row, row ∈ shown ↔ (row ∈ db.resources ∧ row.principal = principal ∧
        row.deletedAt = none ∧ filters.admits row = true) ∧ authorize principal row.space = true

variable (uidText authorize mac maxPageSize db principal filters) in
/-- The cursors of a listing are refused for any other principal and any other filters. -/
def Refuses (principals : Set String) : Prop :=
  ∀ principal' ∈ principals, ∀ filters' limitText', ∀ row ∈ db.resources,
    principal' ≠ principal ∨ filters' ≠ filters →
      listRoute uidText authorize mac maxPageSize db principal' filters' limitText'
        (some (encodeCursor mac principal filters (uidText row.uid))) = .error .invalidRequest

/-- The payloads of the cursors of a listing. -/
def payloads (uidText : Uuid → String) (db : Db) (filters : Filters) : Set String :=
  {payload | ∃ row ∈ db.resources, payload = encodedPayload filters (uidText row.uid)}

/-- The first cursors of a listing stand after as many rows as pages have room for. -/
theorem fitsFrom_zero_iff (hpos : 1 ≤ limit) :
    FitsFrom uidText authorize db principal filters limit 0 ↔ ∀ turn last, 1 ≤ turn →
      turn * limit < (db.visible uidText authorize principal filters).length →
        (db.visible uidText authorize principal filters)[turn * limit - 1]? = some last →
          (payloadBytes filters (uidText last.uid)).length ≤ 3036 := by
  have hlast : ∀ turn, 1 ≤ turn →
      turn * limit < (db.visible uidText authorize principal filters).length →
        ((db.visible uidText authorize principal filters).take (turn * limit)).getLast? =
          (db.visible uidText authorize principal filters)[turn * limit - 1]? := by
    intro turn hturn hlt
    have hne : turn * limit ≠ 0 := Nat.mul_ne_zero (by omega) (by omega)
    rw [List.getLast?_take, if_neg hne, List.getElem?_eq_getElem (by omega), Option.some_or]
  unfold FitsFrom Fits
  simp only [Nat.zero_add]
  constructor
  · intro h turn last hturn hlt hget
    exact h turn hturn hlt last ((hlast turn hturn hlt).trans hget)
  · intro h turn hturn hlt last hget
    exact h turn last hturn hlt ((hlast turn hturn hlt).symm.trans hget)

theorem fits_zero : Fits uidText authorize db principal filters 0 := by
  intro last hlast
  cases hlast

theorem shows_iff_fits (hmac : ∀ message, (mac message).length = 32) (h : UidTexts uidText db)
    (hprincipal : principal ≠ "") (hlimit : pageLimit limitText maxPageSize = .ok limit)
    (hpos : 1 ≤ limit) :
    Shows uidText authorize db principal filters
      (listRoute uidText authorize mac maxPageSize db principal filters limitText) ↔
        limit < maxSafeInteger ∧ FitsFrom uidText authorize db principal filters limit 0 := by
  by_cases hsafe : limit < maxSafeInteger
  · by_cases hallowed : Allowed authorize principal filters
    · have hfollows : ∀ shown, Follows (listRoute uidText authorize mac maxPageSize db principal
          filters limitText) none shown ↔ _ ∧ _ := fun shown =>
        follows_iff hmac h hprincipal hallowed hlimit hpos hsafe fits_zero
      constructor
      · rintro ⟨shown, hshown, -, -⟩
        exact ⟨hsafe, ((hfollows shown).mp hshown).2⟩
      · rintro ⟨-, hfits⟩
        exact ⟨_, (hfollows _).mpr ⟨rfl, hfits⟩, visible_pairwise h, fun row => mem_visible⟩
    · have hnone : db.visible uidText authorize principal filters = [] :=
        visible_forbidden hallowed
      constructor
      · rintro -
        refine ⟨hsafe, fun turn _ hlt => ?_⟩
        rw [hnone] at hlt
        cases hlt
      · rintro -
        refine ⟨[], .forbidden (listRoute_forbidden hprincipal hallowed hlimit hsafe),
          List.Pairwise.nil, fun row => ?_⟩
        rw [← mem_visible, hnone]
  · have hunsafe : listRoute uidText authorize mac maxPageSize db principal filters limitText none =
        .error .invalidRequest := listRoute_unsafe hlimit hsafe
    constructor
    · rintro ⟨_, hshown, -⟩
      cases hshown with
      | forbidden hask => cases hunsafe.symm.trans hask
      | last hask => cases hunsafe.symm.trans hask
      | next hask => cases hunsafe.symm.trans hask
    · rintro ⟨hlt, -⟩
      exact absurd hlt hsafe

theorem refuses_foreign {principals : Set String}
    (hmac : Separating mac (signedMessages principals (payloads uidText db filters)))
    (hprincipal : principal ∈ principals) :
    Refuses uidText authorize mac maxPageSize db principal filters principals := by
  intro principal' hprincipal' filters' limitText' row hrow hne
  refine listRoute_unread ?_
  have hread : decodeCursor mac (encodeCursor mac principal filters (uidText row.uid)) principal'
      filters' = none :=
    decodeCursor_foreign hmac hprincipal hprincipal' ⟨row, hrow, rfl⟩ hne
  simp only [readCursor, hread]

/-- **Following the cursors shows every visible Resource once, in the order of the uids, and no
cursor is read for anyone else, exactly where** one more than the limit is a safe integer and no
page that is not the last ends with a Resource whose cursor has a payload of more than 3036
bytes. -/
theorem shows_iff {principals : Set String}
    (hmac : Separating mac (signedMessages principals (payloads uidText db filters)))
    (huids : UidTexts uidText db) (hprincipal : principal ∈ principals)
    (hauthenticated : principal ≠ "") (hmax : 1 ≤ maxPageSize)
    (hlimit : pageLimit limitText maxPageSize = .ok limit) :
    Shows uidText authorize db principal filters
        (listRoute uidText authorize mac maxPageSize db principal filters limitText) ∧
      Refuses uidText authorize mac maxPageSize db principal filters principals ↔
        limit + 1 ≤ maxSafeInteger ∧ ∀ turn last, 1 ≤ turn →
          turn * limit < (db.visible uidText authorize principal filters).length →
            (db.visible uidText authorize principal filters)[turn * limit - 1]? = some last →
              (payloadBytes filters (uidText last.uid)).length ≤ 3036 := by
  have hpos := pageLimit_pos hmax hlimit
  rw [and_iff_left (refuses_foreign hmac hprincipal),
    shows_iff_fits hmac.length huids hauthenticated hlimit hpos, fitsFrom_zero_iff hpos]
  rfl

/-! ### A listing whose filter is long -/

/-- A tag of 32 bytes: the sum of the bytes of the message, at its end. -/
def checksum (message : List UInt8) : List UInt8 := List.replicate 31 0 ++ [message.sum]

/-- A Resource with nothing but what a listing looks at. -/
def listedRow (uid : Uuid) (formUrl : String) : ResourceRow where
  uid := uid
  principal := "p"
  formUrl := formUrl
  space := "s"
  name := "n"
  backendId := "b"
  targetKey := "t"
  activeName := none
  generation := 1
  phase := .idle
  spec := .obj []
  lastOperation := 0
  busyOperation := none

/-- Two rows, for the example below. -/
def listedText (uid : Uuid) : String := if uid = 0 then "a" else "b"

def listedDb (formUrl : String) : Db where
  resources := [listedRow 1 formUrl, listedRow 0 formUrl]

theorem listed_uids (formUrl : String) : UidTexts listedText (listedDb formUrl) := by
  refine ⟨?_, ?_⟩
  · show ["b", "a"].Nodup
    decide
  · intro row hrow
    simp only [listedDb, List.mem_cons, List.not_mem_nil, or_false] at hrow
    rcases hrow with rfl | rfl
    · show identifier "b" = true
      decide
    · show identifier "a" = true
      decide

theorem visible_listed (formUrl : String) :
    (listedDb formUrl).visible listedText (fun _ _ => true) "p" { form := some formUrl } =
      [listedRow 0 formUrl, listedRow 1 formUrl] := by
  have hadmits : ∀ uid, Filters.admits { form := some formUrl } (listedRow uid formUrl) = true := by
    intro uid
    simp [Filters.admits, listedRow]
  have hmatching : (listedDb formUrl).matching "p" { form := some formUrl } =
      [listedRow 1 formUrl, listedRow 0 formUrl] := by
    simp only [Db.matching, listedDb, List.filter_cons, hadmits]
    rfl
  have hsort : [listedRow 1 formUrl, listedRow 0 formUrl].mergeSort
      (fun row row' => decide (listedText row.uid ≤ listedText row'.uid)) =
        [listedRow 0 formUrl, listedRow 1 formUrl] := by
    simp [List.mergeSort, List.MergeSort.Internal.splitInTwo, listedRow, listedText]
  rw [Db.visible, Db.ordered, hmatching, hsort]
  rfl

/-- Two Resources, a page each, for one principal of two. -/
theorem shows_two_pages : Shows listedText (fun _ _ => true) (listedDb "https://h/f") "p"
      { form := some "https://h/f" } (listRoute listedText (fun _ _ => true) checksum 100
        (listedDb "https://h/f") "p" { form := some "https://h/f" } (some "1")) ∧
    Refuses listedText (fun _ _ => true) checksum 100 (listedDb "https://h/f") "p"
      { form := some "https://h/f" } {principal | principal ∈ ["p", "q"]} := by
  have hapart : ∀ principal ∈ ["p", "q"], ∀ row ∈ (listedDb "https://h/f").resources,
      ∀ principal' ∈ ["p", "q"], ∀ row' ∈ (listedDb "https://h/f").resources,
        checksum (cursorSigningBytes principal (encodedPayload { form := some "https://h/f" }
          (listedText row.uid))) =
        checksum (cursorSigningBytes principal' (encodedPayload { form := some "https://h/f" }
          (listedText row'.uid))) → principal = principal' ∧ listedText row.uid = listedText row'.uid := by
    decide +kernel
  have hlimit : pageLimit (some "1") 100 = .ok 1 := by rfl
  refine (shows_iff ?_ (listed_uids _) (by simp) (by decide) (by decide) hlimit).mpr ?_
  · refine ⟨fun message => by simp [checksum], ?_⟩
    rintro _ ⟨p, hp, _, ⟨row, hrow, rfl⟩, rfl⟩ _ ⟨p', hp', _, ⟨row', hrow', rfl⟩, rfl⟩ htag
    obtain ⟨rfl, htext⟩ := hapart p hp row hrow p' hp' row' hrow' htag
    rw [htext]
  · refine ⟨by decide, fun turn last hturn hlt hlast => ?_⟩
    rw [visible_listed] at hlt hlast
    have hone : turn = 1 := by
      simp only [List.length_cons, List.length_nil] at hlt
      omega
    subst hone
    cases hlast
    decide +kernel

/-- A Form URL of more than three thousand characters. -/
def longForm : String := String.ofList ("https://h/".toList ++ List.replicate 3100 'f')

/-- The cursor of the first of two pages is too long for the route that wrote it. -/
theorem not_shows_long : ¬Shows listedText (fun _ _ => true) (listedDb longForm) "p"
    { form := some longForm } (listRoute listedText (fun _ _ => true) checksum 100
      (listedDb longForm) "p" { form := some longForm } (some "1")) := by
  have hlong : ¬(payloadBytes { form := some longForm } "a").length ≤ 3036 := by
    have hpayload : longForm.toList.length ≤ (payloadBytes { form := some longForm } "a").length :=
      length_le_payload rfl "a"
    have hlength : 3100 ≤ longForm.toList.length := by
      unfold longForm
      simp only [String.toList_ofList, List.length_append, List.length_replicate]
      exact Nat.le_add_left _ _
    omega
  have hlimit : pageLimit (some "1") 100 = .ok 1 := by rfl
  rw [shows_iff_fits (fun message => by simp [checksum]) (listed_uids _) (by decide) hlimit le_rfl]
  rintro ⟨-, hfits⟩
  have hplace : 0 + 1 * 1 < ((listedDb longForm).visible listedText (fun _ _ => true) "p"
      { form := some longForm }).length := by
    rw [visible_listed]
    decide
  refine hlong (hfits 1 le_rfl hplace (listedRow 0 longForm) ?_)
  rw [visible_listed]
  rfl

end Pages

end Takoserver.V2
