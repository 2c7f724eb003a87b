import Takoserver.V1.Claims

/-!
# Incarnations

Every Resource incarnation has an attestation, and an append-only ledger of the
provider effects attempted on it.  A create opens the attestation, a deletion
arms it, and the commit of the deletion closes it; what an attempt that proved
idle left behind is removed again.
-/

namespace Takoserver.V1

namespace Tables

variable (t : Tables)

/-- The attestation of an incarnation, at its address, in one of some states. -/
def attests (tenantId resourceUid : String) (p : Attestation → Bool) : Bool :=
  t.attestations.any fun a =>
    decide (a.address.tenantId = tenantId ∧ a.resourceUid = resourceUid) && p a

/-- Some effect of an attempt on an incarnation satisfies `p`. -/
def hasEffect (tenantId resourceUid effectId : String) (p : Effect → Bool) : Bool :=
  t.effects.any fun e =>
    decide (e.tenantId = tenantId ∧ e.resourceUid = resourceUid ∧ e.effectId = effectId) && p e

/-- The Resource row of an address. -/
def resourceAt (address : Address) : Option Resource :=
  Table.find Resource.address t.resources address

/-- Some Resource row has this uid. -/
def hasUid (tenantId uid : String) : Bool :=
  t.resources.any fun r => decide (r.address.tenantId = tenantId ∧ r.uid = uid)

end Tables

/-- `state IN ('live', 'pending')`. -/
def Attestation.isOpen (a : Attestation) : Bool := a.state = .live ∨ a.state = .pending

/-- `phase IN ('succeeded', 'cancelled')`. -/
def Effect.isTerminal (e : Effect) : Bool := e.phase = .succeeded ∨ e.phase = .cancelled

/-- The insert of `reserveResourceIncarnation`. -/
def reserveResourceIncarnation (address : Address) (resourceUid : String) (formRef : FormRef)
    (t : Tables) : Tables :=
  if t.attests address.tenantId resourceUid fun _ => true then t
  else
    { t with attestations := t.attestations ++ [{ address, resourceUid, formRef, state := .live }] }

/-- `INSERT OR IGNORE INTO tf_resource_provider_effects`. -/
def insertEffect (e : Effect) (t : Tables) : Tables :=
  if t.effects.any fun e' => decide (e'.key = e.key) then t
  else { t with effects := t.effects ++ [e] }

/-- The insert of `recordResourceEffect`. -/
def recordResourceEffect (e : Effect) (t : Tables) : Tables :=
  if t.attests e.tenantId e.resourceUid Attestation.isOpen then insertEffect e t else t

/-! ### Deletion -/

/-- `available`: no claim on an edge to the Resource holds, and no stored relation names it. -/
def deletionIsAvailable (D : Digests) (tenantId resourceUid : String) (timestamp : Instant)
    (t : Tables) : Bool :=
  !(t.claims.any fun c =>
      c.isEdgeTo (D.target tenantId resourceUid) && decide (c.tenantId = tenantId) &&
        c.holds timestamp) &&
    !(t.resources.any fun holder =>
      decide (holder.address.tenantId = tenantId) &&
        holder.relations.any fun relation => decide (relation.targetUid = resourceUid))

/-- The attestation a deletion is prepared on, after the insert and the update that arm it. -/
def armDeletion (address : Address) (resourceUid : String) (formRef : FormRef) (t : Tables) :
    Tables :=
  let pending : Attestation := { address, resourceUid, formRef, state := .pending }
  if t.attests address.tenantId resourceUid fun _ => true then
    let live := fun a : Attestation =>
      decide (a.resourceUid = resourceUid ∧ a.address = address ∧ a.formRef = formRef ∧
        a.state = .live)
    { t with attestations := Table.update live (fun a => { a with state := .pending }) t.attestations }
  else { t with attestations := t.attestations ++ [pending] }

/-- The batch of `prepareResourceDeletion`.  `elsewhere` are its fences on runtime input
preparations and Workflows. -/
def prepareResourceDeletion (D : Digests) (address : Address) (resourceUid : String)
    (formRef : FormRef) (elsewhere : Bool) (timestamp : Instant) (t : Tables) : Option Tables :=
  if deletionIsAvailable D address.tenantId resourceUid timestamp t && elsewhere then
    let t := armDeletion address resourceUid formRef t
    if t.attests address.tenantId resourceUid fun a =>
        decide (a.address = address ∧ a.formRef = formRef ∧ a.state = .pending) then some t
    else none
  else none

/-! ### Releasing an incarnation that was never committed -/

/-- The fence of `uncommittedResourceIncarnationRelease`; `elsewhere` is its clause on
deployments. -/
def isUncommitted (tenantId resourceUid effectId : String) (elsewhere : Bool) (t : Tables) : Bool :=
  !t.hasUid tenantId resourceUid && elsewhere &&
    t.attests tenantId resourceUid (fun a => decide (a.state = .live)) &&
    !t.effects.any fun e =>
      decide (e.tenantId = tenantId ∧ e.resourceUid = resourceUid ∧
        (e.effectId ≠ effectId ∨ e.phase = .succeeded))

/-- The statements of `uncommittedResourceIncarnationRelease`.  Execution evidence refers to its
attestation, `ON DELETE RESTRICT`. -/
def uncommittedResourceIncarnationRelease (tenantId resourceUid effectId : String)
    (elsewhere : Bool) (t : Tables) : Option Tables :=
  if isUncommitted tenantId resourceUid effectId elsewhere t then
    if t.evidence.any fun e => decide (e.tenantUid = (tenantId, resourceUid)) then none
    else
      let attempt := fun e : Effect =>
        decide (e.tenantId = tenantId ∧ e.resourceUid = resourceUid ∧ e.effectId = effectId)
      let leaked := fun c : Claim =>
        decide (c.tenantId = tenantId ∧ c.holderUid = resourceUid) && c.isReserved && c.isDependency
      let opened := fun a : Attestation =>
        decide (a.tenantUid = (tenantId, resourceUid) ∧ a.state = .live)
      some { t with
        effects := Table.delete attempt t.effects
        claims := Table.delete leaked t.claims
        attestations := Table.delete opened t.attestations }
  else some t

end Takoserver.V1
