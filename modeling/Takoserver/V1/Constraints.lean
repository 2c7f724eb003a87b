import Takoserver.V1.Claims

/-!
# The constraints of a Form

`src/takoform/relations.ts`: what a Definition says of the references and values
of its Resources, the keys that reserve what is to be unique
(`declaredResourceClaims`), and the check of live state before they are reserved
(`validateDeclaredConstraints`).
-/

namespace Takoserver.V1

/-- `TakoformConstraint`. -/
inductive Constraint where
  | exclusive (reference : String) (keyedBy : Option String)
  | claim (property : String)
  | uniquePair (left right : String)
  | acyclic (reference : String)
  /-- `sum`, `hostAssigned`, `orderedPair`, `distinctPair`, `uniqueBy` and
  `sameResolvedTarget`: they reserve nothing, and follow no chain. -/
  | others

/-- The constraints of each installed Form. -/
abbrev Forms := FormRef → List Constraint

/-! ### Pointers -/

/-- The characters of one part of a pointer: `(?:[^~/]|~[01])*`. -/
def isPointerPart : List Char → Bool
  | [] => true
  | '~' :: '0' :: rest | '~' :: '1' :: rest => isPointerPart rest
  | '~' :: _ => false
  | _ :: rest => isPointerPart rest

/-- `part.replaceAll("~1", "/").replaceAll("~0", "~")`, of a part of a pointer. -/
def unescapePointer : List Char → List Char
  | [] => []
  | '~' :: '0' :: rest => '~' :: unescapePointer rest
  | '~' :: '1' :: rest => '/' :: unescapePointer rest
  | c :: rest => c :: unescapePointer rest

/-- The parts of a pointer, after its first `/`. -/
def pointerParts (value : String) : Option (List (List Char)) :=
  match value.toList with
  | '/' :: rest =>
    let parts := rest.splitOn '/'
    if parts.all fun part => !part.isEmpty && isPointerPart part then some parts else none
  | _ => none

/-- `pointerValue`: it descends objects only. -/
def pointerValue (root : Json) (value : String) : Option Json :=
  (pointerParts value).bind fun parts =>
    root.at? (parts.map fun part => String.ofList (unescapePointer part))

/-! ### Keys -/

/-- `canonicalJson`, and the keys: a prefix of the kind, and the `canonicalDigest` of what it
names, in which a value stands in its canonical text. -/
structure KeyDigests where
  canonicalJson : Json → String
  exclusive (tenantId space apiVersion kind reference targetUid : String) (keyedBy : Option String)
    (keyedValue : String) : String
  claim (tenantId apiVersion kind property value : String) : String
  uniquePair (tenantId : String) (formRef : FormRef) (left right : String) : String

/-- What an apply declares: the document, and the relations it resolved. -/
structure Declaration where
  address : Address
  formRef : FormRef
  spec : Json
  relations : List StoredRelation

def Resource.declaration (r : Resource) : Declaration :=
  { address := r.address, formRef := r.document.formRef, spec := r.document.spec,
    relations := r.relations }

/-- `oneRelation`: none where the reference is absent, refused where it is ambiguous. -/
def oneRelation (reference : String) (relations : List StoredRelation) :
    Option (Option StoredRelation) :=
  match relations.filter fun r => decide (r.relation = reference) with
  | [] => some none
  | [r] => if r.targetUid = "" then none else some (some r)
  | _ => none

namespace Declaration

variable (K : KeyDigests) (p : Declaration)

/-- The key of an exclusive reference, at one of its targets. -/
def exclusiveKey (reference : String) (keyedBy : Option String) (value : Json) (targetUid : String) :
    String :=
  K.exclusive p.address.tenantId p.address.space p.formRef.apiVersion p.formRef.kind reference
    targetUid keyedBy (K.canonicalJson value)

/-- `keyedValue`: `null` where the constraint has no key, refused where the value is missing. -/
def keyedValue (keyedBy : Option String) : Option Json :=
  match keyedBy with
  | none => some .null
  | some property => pointerValue p.spec property

/-- `requiredUidPair`. -/
def requiredUidPair (left right : String) : Option (String × String) :=
  match oneRelation left p.relations, oneRelation right p.relations with
  | some (some l), some (some r) => some (l.targetUid, r.targetUid)
  | _, _ => none

/-- The keys of one constraint in `declaredResourceClaims`, or its refusal. -/
def constraintClaims : Constraint → Option (List String)
  | .uniquePair left right =>
    (p.requiredUidPair left right).map fun pair =>
      [K.uniquePair p.address.tenantId p.formRef pair.1 pair.2]
  | .claim property =>
    (pointerValue p.spec property).map fun value =>
      [K.claim p.address.tenantId p.formRef.apiVersion p.formRef.kind property
        (K.canonicalJson value)]
  | .exclusive reference keyedBy =>
    match p.relations.find? fun r => decide (r.relation = reference) with
    | none => some []
    | some relation =>
      (p.keyedValue keyedBy).map fun value =>
        [p.exclusiveKey K reference keyedBy value relation.targetUid]
  | .acyclic _ | .others => some []

/-- `declaredResourceClaims`. -/
def declaredResourceClaims (constraints : List Constraint) : Option (List String) :=
  (constraints.mapM (p.constraintClaims K)).map List.flatten

/-- The keys `reserveClaims` reserves: each once, in order. -/
def reservedKeys (constraints : List Constraint) : Option (List String) :=
  (p.declaredResourceClaims K constraints).map fun keys => keys.dedup.insertionSort (· ≤ ·)

/-! ### The check -/

/-- `store.resourcesByRelation`, with its limit of two. -/
def holdersOf (reference targetUid : String) (t : Tables) : List Resource :=
  let holds := fun r : Resource =>
    decide (r.address.tenantId = p.address.tenantId ∧ r.address.space = p.address.space ∧
      r.address.apiVersion = p.formRef.apiVersion ∧ r.address.kind = p.formRef.kind) &&
      r.relations.any fun relation =>
        decide (relation.relation = reference ∧ relation.targetUid = targetUid)
  ((t.resources.filter holds).insertionSort fun r r' => r.address.name ≤ r'.address.name).take 2

/-- The holder of a claim is not the Resource that declares. -/
def isOther (c : Claim) : Bool :=
  decide (c.holder.space ≠ p.address.space ∨ c.holder.apiVersion ≠ p.formRef.apiVersion ∨
    c.holder.kind ≠ p.formRef.kind ∨ c.holder.name ≠ p.address.name)

/-- One constraint in `validateDeclaredConstraints`.  The chains of `acyclic` are followed
elsewhere. -/
def validates (timestamp : Instant) (t : Tables) : Constraint → Bool
  | .uniquePair left right =>
    (p.requiredUidPair left right).any fun pair =>
      !t.claims.any fun c =>
        decide (c.key = .definition (K.uniquePair p.address.tenantId p.formRef pair.1 pair.2)) &&
          c.holds timestamp && p.isOther c
  | .claim property =>
    (pointerValue p.spec property).any fun value =>
      !t.claims.any fun c =>
        decide (c.key = .definition (K.claim p.address.tenantId p.formRef.apiVersion p.formRef.kind
          property (K.canonicalJson value))) && c.isCommitted && p.isOther c
  | .exclusive reference keyedBy =>
    match p.relations.find? fun r => decide (r.relation = reference) with
    | none => true
    | some relation =>
      match keyedBy with
      | none =>
        !(p.holdersOf reference relation.targetUid t).any fun r =>
          decide (r.address.name ≠ p.address.name)
      | some property =>
        (pointerValue p.spec property).any fun value =>
          !(p.holdersOf reference relation.targetUid t).any fun r =>
            decide (r.address.name ≠ p.address.name) &&
              (pointerValue r.document.spec property).any fun value' =>
                decide (K.canonicalJson value = K.canonicalJson value')
  | .acyclic _ | .others => true

/-- `validateDeclaredConstraints`. -/
def validateDeclaredConstraints (constraints : List Constraint) (timestamp : Instant) (t : Tables) :
    Bool :=
  constraints.all (p.validates K timestamp t)

end Declaration

end Takoserver.V1
