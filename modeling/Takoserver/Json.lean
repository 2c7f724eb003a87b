import Mathlib

/-!
# JSON documents

The document columns of the database hold JSON text.  The model keeps the
document the text denotes; what SQL reads out of one is a member along a path
(`json_extract`) and its kind (`json_type`).
-/

namespace Takoserver

/-- `Number.MAX_SAFE_INTEGER`. -/
def maxSafeInteger : ℕ := 2 ^ 53 - 1

/-- A JSON value with rational numbers. -/
inductive Json where
  | null
  | bool (b : Bool)
  | num (n : ℚ)
  | str (s : String)
  | arr (items : List Json)
  | obj (members : List (String × Json))
  deriving Inhabited

namespace Json

mutual

/-- Whether two documents are the same. -/
def same : Json → Json → Bool
  | null, null => true
  | bool b, bool b' => decide (b = b')
  | num n, num n' => decide (n = n')
  | str s, str s' => decide (s = s')
  | arr items, arr items' => sameItems items items'
  | obj members, obj members' => sameMembers members members'
  | _, _ => false

/-- `same`, item by item. -/
def sameItems : List Json → List Json → Bool
  | [], [] => true
  | item :: items, item' :: items' => same item item' && sameItems items items'
  | _, _ => false

/-- `same`, member by member. -/
def sameMembers : List (String × Json) → List (String × Json) → Bool
  | [], [] => true
  | (name, member) :: members, (name', member') :: members' =>
    decide (name = name') && same member member' && sameMembers members members'
  | _, _ => false

end

mutual

theorem same_iff : ∀ d d' : Json, same d d' = true ↔ d = d'
  | null, d' => by cases d' <;> simp [same]
  | bool b, d' => by cases d' <;> simp [same]
  | num n, d' => by cases d' <;> simp [same]
  | str s, d' => by cases d' <;> simp [same]
  | arr items, d' => by cases d' <;> simp [same, sameItems_iff items]
  | obj members, d' => by cases d' <;> simp [same, sameMembers_iff members]

theorem sameItems_iff : ∀ l l' : List Json, sameItems l l' = true ↔ l = l'
  | [], l' => by cases l' <;> simp [sameItems]
  | item :: items, l' => by
    cases l' with
    | nil => simp [sameItems]
    | cons => simp [sameItems, same_iff item, sameItems_iff items]

theorem sameMembers_iff : ∀ l l' : List (String × Json), sameMembers l l' = true ↔ l = l'
  | [], l' => by cases l' <;> simp [sameMembers]
  | (name, member) :: members, l' => by
    cases l' with
    | nil => simp [sameMembers]
    | cons m' =>
      obtain ⟨_, _⟩ := m'
      simp [sameMembers, same_iff member, sameMembers_iff members]

end

instance : DecidableEq Json := fun d d' => decidable_of_iff (same d d' = true) (same_iff d d')

/-- The member of an object. -/
def get? : Json → String → Option Json
  | obj members, name => members.lookup name
  | _, _ => none

/-- `json_extract(document, '$.a.b')` along a path of member names. -/
def at? : Json → List String → Option Json
  | document, [] => some document
  | document, name :: path => (document.get? name).bind fun member => member.at? path

/-- The text at a path, where `json_type` there is `'text'`. -/
def textAt? (document : Json) (path : List String) : Option String :=
  match document.at? path with
  | some (str s) => some s
  | _ => none

/-- `json_type(document, path) = 'true'`. -/
def trueAt (document : Json) (path : List String) : Bool :=
  match document.at? path with
  | some (bool true) => true
  | _ => false

end Json

end Takoserver
