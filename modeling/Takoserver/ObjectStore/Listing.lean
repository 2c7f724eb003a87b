import Takoserver.Lib.Prefixes
import Takoserver.V2.Base64

/-!
# Listing a bucket

`listObjects` of `src/selfhost-object-store.ts`: one page of a bucket in key
order, with the delimiter rolled up.  Strings are taken as their code points,
in whose order SQLite compares the UTF-8 they are stored as; where the code
compares two strings itself, it compares their UTF-16 code units.  So prefixes,
delimiters and cursors are well-formed here, as keys are.  The code takes lone
surrogates too, which have no UTF-8, and is wrong with them: the bound that
`prefixCeiling` makes of U+D83D is U+E000, which is below the keys that start
with U+1F600.
-/

namespace Takoserver.ObjectStore

/-- A well-formed string, as its code points. -/
abbrev Points := List Char

/-- `MAX_SELFHOST_OBJECT_KEY_BYTES`. -/
def maxKeyBytes : ℕ := 979

/-- `MAX_SELFHOST_OBJECT_LIST_LIMIT`. -/
def maxListLimit : ℤ := 1000

/-- The length in UTF-8 bytes. -/
def utf8Length (value : Points) : ℕ := (Text.encode (String.ofList value)).length

/-- `validKey`. -/
def validKey (key : Points) : Bool :=
  key ≠ [] && decide (utf8Length key ≤ maxKeyBytes) &&
    !key.any fun c => c.toNat ≤ 31 || c.toNat = 127

/-! ### The bound of a prefix -/

/-- The next code point a well-formed string can contain. -/
def successor (c : Char) : Option Char :=
  if 0x10ffff ≤ c.toNat then none
  else some (Char.ofNat
    (if 0xd800 ≤ c.toNat + 1 ∧ c.toNat + 1 ≤ 0xdfff then 0xe000 else c.toNat + 1))

/-- The loop of `prefixCeiling`, on the code points from the last one: a code point without a
successor is dropped. -/
def carry : Points → Option Points
  | [] => none
  | c :: rest =>
    match successor c with
    | none => carry rest
    | some next => some (rest.reverse ++ [next])

/-- The exclusive upper bound of a prefix range. -/
def prefixCeiling (points : Points) : Option Points := carry points.reverse

/-! ### Rows and cursors -/

/-- A row of `selfhost_objects`, in one bucket. -/
structure Row where
  key : Points
  etag : String
  size : ℕ
  uploadedAtMillis : ℕ

/-- The rows of a bucket in the order of their keys. -/
structure Bucket where
  rows : List Row
  sorted : (rows.map Row.key).Pairwise (· < ·)
  valid : ∀ row ∈ rows, validKey row.key = true

/-- `ListBound`. -/
structure Bound where
  key : Points
  inclusive : Bool

/-- A bound as the text of a cursor. -/
def encodeBound (bound : Bound) : String :=
  V2.encode (Text.encode (String.ofList (JsonText.stringify
    [("k", .text (String.ofList bound.key)), ("i", .flag bound.inclusive)])))

/-- `Buffer.from(value, "base64")` on a text of base64url digits. -/
def bufferFrom (value : String) : Option (List UInt8) :=
  (V2.readDigits value.toList).map V2.octets

/-- `Object.keys(parsed).sort().join(",")`. -/
def sortedNames (members : List (String × Json)) : String :=
  ",".intercalate ((members.map Prod.fst).insertionSort fun a b => V2.codeUnits a ≤ V2.codeUnits b)

/-- `decodeCursor`, for a cursor without lone surrogates, as `encodeBound` makes them. -/
def decodeCursor (value : String) : Option Bound := do
  if value = "" ∨ 4096 < Text.utf16Length value then none
  if !value.toList.all V2.base64urlChar then none
  let bytes ← bufferFrom value
  let text ← Text.decode bytes
  match JsonText.parse text.toList with
  | some (.obj members) =>
    if sortedNames members ≠ "i,k" then none
    else
      match members.lookup "k", members.lookup "i" with
      | some (.str k), some (.bool i) =>
        if maxKeyBytes < utf8Length k.toList then none else some ⟨k.toList, i⟩
      | _, _ => none
  | _ => none

/-! ### One page -/

/-- The options of a listing. -/
structure ListOptions where
  keyPrefix : Option Points := none
  delimiter : Option Points := none
  cursor : Option String := none
  limit : Option ℤ := none

/-- `SelfhostObjectListResult`. -/
structure ListResult where
  objects : List Row
  prefixes : List Points
  truncated : Bool
  cursor : Option String

/-- `SelfhostObjectError`, as far as a listing throws it. -/
inductive ListError where
  | invalidKey
  | invalidCursor

/-- `rest.indexOf(delimiter)` for a delimiter that is not empty. -/
def indexOf (delimiter : Points) : Points → Option ℕ
  | [] => none
  | c :: rest =>
    if delimiter.isPrefixOf (c :: rest) then some 0 else (indexOf delimiter rest).map (· + 1)

/-- What a listing asks for. -/
structure Query where
  keyPrefix : Points
  delimiter : Option Points
  limit : ℕ

/-- The group a key is rolled up into. -/
def Query.group (q : Query) (key : Points) : Option Points :=
  match q.delimiter with
  | none | some [] => none
  | some delimiter =>
    let rest := key.drop q.keyPrefix.length
    (indexOf delimiter rest).map fun found =>
      q.keyPrefix ++ rest.take (found + delimiter.length)

/-- `ceiling`. -/
def Query.ceiling (q : Query) : Option Points :=
  if q.keyPrefix = [] then none else prefixCeiling q.keyPrefix

/-- The condition on a row's key. -/
def Bound.admits (bound : Bound) (key : Points) : Bool :=
  if bound.inclusive then decide (¬key < bound.key) else decide (bound.key < key)

/-- The rows of one pass. -/
def Query.select (q : Query) (rows : List Row) (bound : Bound) : List Row :=
  (rows.filter fun row => bound.admits row.key &&
    match q.ceiling with
    | none => true
    | some ceiling => decide (row.key < ceiling)).take (q.limit + 1)

/-- What the loop has found, and where it stands. -/
structure Walk where
  objects : List Row := []
  prefixes : List Points := []
  bound : Bound

/-- The page has no room left. -/
def Query.full (q : Query) (w : Walk) : Bool := q.limit ≤ w.objects.length + w.prefixes.length

/-- How the loop over the rows of a pass ends. -/
inductive Scan where
  | full (w : Walk) (cursor : Bound)
  | jumped (w : Walk)
  | through (w : Walk)

/-- The loop over the rows of a pass. -/
def Query.scan (q : Query) : Walk → List Row → Scan
  | w, [] => .through w
  | w, row :: rows =>
    let w := { w with bound := ⟨row.key, false⟩ }
    if !q.keyPrefix.isPrefixOf row.key then q.scan w rows
    else
      match q.group row.key with
      | some group =>
        if group ∉ w.prefixes && q.full w then .full w ⟨row.key, true⟩
        else
          let w := if group ∈ w.prefixes then w else { w with prefixes := w.prefixes ++ [group] }
          match prefixCeiling group with
          | none => q.scan w rows
          | some next => .jumped { w with bound := ⟨next, true⟩ }
      | none =>
        if q.full w then .full w ⟨row.key, true⟩
        else q.scan { w with objects := w.objects ++ [row] } rows

/-- The passes that are left; a listing that runs out of them stops where it stands. -/
def Query.passes (q : Query) (rows : List Row) : ℕ → Walk → Walk × Option Bound
  | 0, w => (w, some w.bound)
  | pass + 1, w =>
    let selected := q.select rows w.bound
    if selected = [] then (w, none)
    else
      match q.scan w selected with
      | .full w cursor => (w, some cursor)
      | .jumped w => q.passes rows pass w
      | .through w => if selected.length < q.limit + 1 then (w, none) else q.passes rows pass w

/-- Where a listing starts: at its prefix, or where its cursor says if that is further. -/
def startBound (keyPrefix : Points) (resumed : Option Bound) : Bound :=
  let bound : Bound := ⟨keyPrefix, true⟩
  match resumed with
  | none => bound
  | some resumed =>
    let units := V2.codeUnits (String.ofList resumed.key)
    let start := V2.codeUnits (String.ofList keyPrefix)
    if start < units ∨ (resumed.key = keyPrefix ∧ resumed.inclusive = false) then resumed else bound

/-- `listObjects`, for a prefix and a delimiter that are well-formed. -/
def listObjects (rows : List Row) (options : ListOptions) : Except ListError ListResult := do
  let keyPrefix := options.keyPrefix.getD []
  if maxKeyBytes < utf8Length keyPrefix then throw .invalidKey
  let limit := options.limit.getD maxListLimit
  if limit < 1 ∨ maxListLimit < limit then throw .invalidCursor
  let q : Query := ⟨keyPrefix, options.delimiter, limit.toNat⟩
  let resumed ← match options.cursor with
    | none => pure none
    | some cursor =>
      match decodeCursor cursor with
      | none => throw .invalidCursor
      | some resumed => pure (some resumed)
  let (w, cursor) := q.passes rows (2 * q.limit + 8) { bound := startBound keyPrefix resumed }
  return { objects := w.objects
           prefixes := w.prefixes
           truncated := cursor.isSome
           cursor := cursor.map encodeBound }

/-- The pages one gets by following the cursors, up to one that is not truncated. -/
inductive Follows (rows : List Row) : ListOptions → List ListResult → Prop
  | last {options : ListOptions} {page : ListResult} (h : listObjects rows options = .ok page)
      (hlast : page.truncated = false) : Follows rows options [page]
  | next {options : ListOptions} {page : ListResult} {cursor : String} {pages : List ListResult}
      (h : listObjects rows options = .ok page) (hnext : page.truncated = true)
      (hcursor : page.cursor = some cursor)
      (hpages : Follows rows { options with cursor := some cursor } pages) :
      Follows rows options (page :: pages)

end Takoserver.ObjectStore
