import Takoserver.V1.Tables

/-!
# Resource claims

`tf_resource_claims` holds two kinds of keys.  A Definition's constraints
reserve keys before the provider is asked (`reserveResourceClaims`), and a
commit keeps them (`claimCommitStatements`).  The Host itself reserves one edge
for each target incarnation a command depends on
(`reserveResourceDependencies`), so that a target is not deleted under it
(`src/takoform/dependency-fence.ts`).
-/

namespace Takoserver.V1

/-- `RESOURCE_DEPENDENCY_PRIVATE_HOLDER`. -/
def privateHolder : Holder :=
  { space := "@host-dependency", apiVersion := "host-dependency:internal",
    kind := "HostDependency", name := "@host-dependency" }

/-! ### Dependency sets -/

/-- `ResourceDependencyTarget`: one incarnation of a Resource, at one revision. -/
structure Target where
  space : String
  apiVersion : String
  kind : String
  name : String
  uid : String
  revision : String
  formRef : FormRef
  deriving DecidableEq

variable {space : String} {relation : StoredRelation}

namespace Target

/-- The target of a fresh relation, which knows its revision. -/
def ofRelation (space : String) (relation : StoredRelation) : Option Target :=
  relation.targetRevision.map fun revision =>
    { space, apiVersion := relation.targetApiVersion, kind := relation.targetKind,
      name := relation.targetName, uid := relation.targetUid, revision,
      formRef := relation.targetFormRef }

/-- Where the target is declared. -/
def address (f : Target) (tenantId : String) : Address :=
  { tenantId, space := f.space, apiVersion := f.apiVersion, kind := f.kind, name := f.name }

theorem ofRelation_uid {f : Target} (h : ofRelation space relation = some f) :
    f.uid = relation.targetUid := by
  obtain ⟨_, -, rfl⟩ := Option.map_eq_some_iff.mp h
  rfl

end Target

/-- The fences of a list of relations: one for each target uid, refused where two relations
name different states of one target. -/
def collectTargets (space : String) : List StoredRelation → Option (List Target)
  | [] => some []
  | relation :: relations => do
    let targets ← collectTargets space relations
    let target ← Target.ofRelation space relation
    match targets.find? fun f => f.uid = target.uid with
    | none => some (target :: targets)
    | some f => if f = target then some targets else none

/-- Each relation's target is among its fences. -/
theorem collectTargets_covers : ∀ {relations : List StoredRelation}
    {targets : List Target}, collectTargets space relations = some targets →
    ∀ relation ∈ relations, ∃ f ∈ targets, Target.ofRelation space relation = some f := by
  intro relations
  induction relations with
  | nil => simp
  | cons _ _ ih =>
    intro targets h r hr
    simp only [collectTargets, Option.bind_eq_bind, Option.bind_eq_some_iff] at h
    obtain ⟨_, hrest, target, htarget, h⟩ := h
    have hcovered := ih hrest
    split at h
    · injection h with h
      subst h
      rcases List.mem_cons.mp hr with rfl | hr
      · exact ⟨target, List.mem_cons_self, htarget⟩
      · obtain ⟨f, hf, hrf⟩ := hcovered r hr
        exact ⟨f, List.mem_cons_of_mem _ hf, hrf⟩
    · next f hfind =>
      split at h
      · next heq =>
        injection h with h
        subst h
        rcases List.mem_cons.mp hr with rfl | hr
        · exact ⟨f, List.mem_of_find?_eq_some hfind, by rw [htarget, heq]⟩
        · exact hcovered r hr
      · cases h

theorem collectTargets_nodup : ∀ {relations : List StoredRelation}
    {targets : List Target}, collectTargets space relations = some targets →
    (targets.map Target.uid).Nodup := by
  intro relations
  induction relations with
  | nil =>
    intro targets h
    cases h
    exact List.nodup_nil
  | cons _ _ ih =>
    intro targets h
    simp only [collectTargets, Option.bind_eq_bind, Option.bind_eq_some_iff] at h
    obtain ⟨_, hrest, _, -, h⟩ := h
    split at h
    · next hnone =>
      cases h
      rw [List.map_cons, List.nodup_cons]
      refine ⟨?_, ih hrest⟩
      intro hmem
      obtain ⟨f, hf, huid⟩ := List.mem_map.mp hmem
      exact List.find?_eq_none.mp hnone f hf (decide_eq_true huid)
    · split at h
      · cases h
        exact ih hrest
      · cases h

/-- `ResourceDependencySet`, with the tenant, space and holder its payload names.  The fences
are those that `createResourceDependencySet` collects from its relations. -/
structure DependencySet where
  tenantId : String
  space : String
  holderUid : String
  operationId : String
  /-- The manifest of the encoded payload. -/
  manifest : String
  /-- The chunks of the encoded payload; a data key has its index too. -/
  dataKeys : List String
  fences : List Target
  relations : List StoredRelation
  collected : collectTargets space relations = some fences

/-- `canonicalDigest`, of the two payloads an edge key is made of. -/
structure Digests where
  /-- The digest of `tenantId` and `targetUid`. -/
  target : String → String → String
  /-- The digest of `tenantId`, `holderUid`, `operationId` and `target`. -/
  edge : String → String → String → Target → String

namespace DependencySet

variable (D : Digests)

/-- The key that fences an edge. -/
def edgeKey (s : DependencySet) (f : Target) : ClaimKey :=
  .edge (D.target s.tenantId f.uid) (D.edge s.tenantId s.holderUid s.operationId f)

/-- `resourceDependencyClaimKeys`. -/
def claimKeys (s : DependencySet) : List ClaimKey :=
  .set s.manifest :: (s.dataKeys.mapIdx .data ++ s.fences.map (s.edgeKey D))

variable {s : DependencySet}

theorem edgeKey_mem_claimKeys {f : Target} (hf : f ∈ s.fences) :
    s.edgeKey D f ∈ s.claimKeys D := by
  exact List.mem_cons_of_mem _ (List.mem_append_right _ (List.mem_map_of_mem hf))

theorem edge_mem_claimKeys {d e : String} (h : .edge d e ∈ s.claimKeys D) :
    ∃ f ∈ s.fences, d = D.target s.tenantId f.uid := by
  simp only [claimKeys, List.mem_cons, reduceCtorEq, List.mem_append, List.mem_mapIdx, List.mem_map,
    false_or, exists_false, edgeKey, ClaimKey.edge.injEq] at h
  obtain ⟨f, hf, rfl, -⟩ := h
  exact ⟨f, hf, rfl⟩

/-- Every key of a set is one of the private namespace. -/
theorem isDependency_of_mem_claimKeys {c : Claim} (h : c.key ∈ s.claimKeys D) :
    c.isDependency = true := by
  simp only [claimKeys, List.mem_cons, List.mem_append, List.mem_mapIdx, List.mem_map] at h
  unfold Claim.isDependency
  rcases h with h | ⟨_, _, h⟩ | ⟨f, -, h⟩
  · rw [h]
  · rw [← h]
  · rw [← h]
    rfl

theorem claimKeys_nodup (s : DependencySet)
    (hD : Set.InjOn (D.target s.tenantId) {uid | ∃ f ∈ s.fences, f.uid = uid}) :
    (s.claimKeys D).Nodup := by
  have hdata : (s.dataKeys.mapIdx ClaimKey.data).Nodup := by
    rw [List.Nodup, List.pairwise_iff_getElem]
    intro i j hi hj hij heq
    simp only [List.getElem_mapIdx, ClaimKey.data.injEq] at heq
    omega
  have hedges : (s.fences.map (s.edgeKey D)).Nodup := by
    have huids : (s.fences.map Target.uid).Nodup := collectTargets_nodup s.collected
    refine List.Nodup.map_on ?_ huids.of_map
    intro f hf g hg heq
    simp only [edgeKey, ClaimKey.edge.injEq] at heq
    exact List.inj_on_of_nodup_map huids hf hg (hD ⟨f, hf, rfl⟩ ⟨g, hg, rfl⟩ heq.1)
  unfold claimKeys
  rw [List.nodup_cons, List.nodup_append]
  refine ⟨?_, hdata, hedges, ?_⟩
  · simp [edgeKey]
  · intro a ha b hb heq
    obtain ⟨i, _, rfl⟩ := List.mem_mapIdx.mp ha
    obtain ⟨f, -, rfl⟩ := List.mem_map.mp hb
    cases heq

theorem exists_fence (s : DependencySet) (h : relation ∈ s.relations) :
    ∃ f ∈ s.fences, f.uid = relation.targetUid := by
  obtain ⟨f, hf, hr⟩ := collectTargets_covers s.collected relation h
  exact ⟨f, hf, Target.ofRelation_uid hr⟩

end DependencySet

/-- The exact target is stored at its revision, and its attestation is live. -/
def Tables.targetIsLive (t : Tables) (tenantId : String) (f : Target) : Bool :=
  (t.resources.any fun r =>
      decide (r.address = f.address tenantId ∧ r.uid = f.uid ∧ r.revision = f.revision)) &&
    t.attestations.any fun a =>
      decide (a.address = f.address tenantId ∧ a.resourceUid = f.uid ∧ a.formRef = f.formRef ∧
        a.state = .live)

/-! ### Reserving a key -/

/-- The holder columns of two claims agree. -/
def Claim.sameHolder (c row : Claim) : Bool :=
  c.tenantId = row.tenantId ∧ c.holder = row.holder ∧ c.holderUid = row.holderUid

/-- `INSERT INTO tf_resource_claims … ON CONFLICT (claim_key) DO UPDATE SET …`: a row of the
same holder is re-owned, and stays committed if it was. -/
def upsertClaim (timestamp : Instant) (row : Claim) (claims : List Claim) : List Claim :=
  match Table.find Claim.key claims row.key with
  | none => claims ++ [row]
  | some c =>
    if c.sameHolder row || c.isExpired timestamp then
      Table.put Claim.key
        { c with owner := row.owner, expiresAt := if c.isCommitted then none else row.expiresAt }
        claims
    else claims

/-- `TakoformResourceClaimReservation`: a key to reserve, with its holder. -/
structure ClaimReservation where
  key : String
  tenantId : String
  holder : Holder
  holderUid : String
  owner : Owner

/-- The row of a reserved definition key. -/
def ClaimReservation.row (r : ClaimReservation) (expiresAt : Instant) : Claim :=
  { key := .definition r.key, tenantId := r.tenantId, holder := r.holder, holderUid := r.holderUid,
    owner := r.owner, expiresAt := some expiresAt }

/-- The three statements of one reservation: the upsert, and the guard that its holder and
owner have the key. -/
def reserveOne (expiresAt timestamp : Instant) (claims : List Claim) (r : ClaimReservation) :
    Option (List Claim) :=
  let claims := upsertClaim timestamp (r.row expiresAt) claims
  if claims.any fun c =>
      decide (c.key = .definition r.key ∧ c.owner = r.owner) && c.sameHolder (r.row expiresAt) then
    some claims
  else none

/-- `reserveResourceClaims`. -/
def reserveResourceClaims (reservations : List ClaimReservation) (expiresAt timestamp : Instant)
    (t : Tables) : Option Tables :=
  (reservations.foldlM (reserveOne expiresAt timestamp)
      (Table.delete (fun c => c.isExpired timestamp) t.claims)).map
    fun claims => { t with claims }

/-- `releaseResourceClaims`: the reserved Definition claims of an owner. -/
def releaseResourceClaims (owner : Owner) (t : Tables) : Tables :=
  let released := fun c : Claim => decide (c.owner = owner) && c.isReserved && !c.isDependency
  { t with claims := Table.delete released t.claims }

/-- `releaseCommittedResourceClaims`: every committed claim of a holder. -/
def releaseCommittedResourceClaims (tenantId holderUid : String) (t : Tables) : Tables :=
  let released := fun c : Claim =>
    decide (c.tenantId = tenantId ∧ c.holderUid = holderUid) && c.isCommitted
  { t with claims := Table.delete released t.claims }

/-! ### Dependencies -/

/-- Among the claims that satisfy `p`, the owner has exactly these dependency keys; of each key
`q` is asked as well. -/
def Tables.ownsDependencies (D : Digests) (t : Tables) (owner : Owner) (tenantId holderUid : String)
    (s : DependencySet) (p q : Claim → Bool) : Bool :=
  decide ((t.claims.countP fun c =>
      c.ownedFor owner tenantId holderUid && c.isDependency && p c) = (s.claimKeys D).length) &&
    (s.claimKeys D).all fun key =>
      t.claims.any fun c =>
        decide (c.key = key) && c.ownedFor owner tenantId holderUid && p c && q c

/-- The row of a dependency's key. -/
def dependencyRow (tenantId holderUid : String) (owner : Owner) (expiresAt : Instant)
    (key : ClaimKey) : Claim :=
  { key, tenantId, holder := privateHolder, holderUid, owner, expiresAt := some expiresAt }

/-- `reserveResourceDependencies`.  Its second statement opens an attestation for a target that
has none with `closure_fence = 0`, which the `CHECK (closure_fence >= 1)` refuses, so
`OR IGNORE` leaves the table as it is. -/
def reserveResourceDependencies (D : Digests) (s : DependencySet) (leaseToken : String)
    (expiresAt timestamp : Instant) (t : Tables) : Option Tables :=
  let claims := Table.delete (fun c => c.isExpired timestamp && c.isDependency) t.claims
  if s.fences.all (t.targetIsLive s.tenantId) then
    let claims := (s.claimKeys D).foldl (fun claims key =>
      upsertClaim timestamp
        (dependencyRow s.tenantId s.holderUid (.lease leaseToken) expiresAt key) claims) claims
    let t := { t with claims }
    if t.ownsDependencies D (.lease leaseToken) s.tenantId s.holderUid s
        (fun c => c.holds timestamp) (fun c => decide (c.holder = privateHolder)) then
      some t
    else none
  else none

/-- `releaseResourceDependencies`. -/
def releaseResourceDependencies (owner : Owner) (tenantId holderUid : String) (t : Tables) :
    Tables :=
  let released := fun c : Claim => c.ownedFor owner tenantId holderUid && c.isReserved && c.isDependency
  { t with claims := Table.delete released t.claims }

/-! ### The claims of a commit -/

/-- The claim fence of a commit: the owner has each of the keys. -/
def Tables.ownsClaims (t : Tables) (owner : Owner) (tenantId holderUid : String)
    (claimKeys : List String) : Bool :=
  claimKeys.isEmpty ||
    decide ((t.claims.countP fun c =>
      c.ownedFor owner tenantId holderUid &&
        decide (c.key ∈ claimKeys.map ClaimKey.definition)) = claimKeys.length)

/-- `claimCommitStatements`: the keys become committed, and the other Definition claims of the
holder go. -/
def claimCommitStatements (owner : Owner) (tenantId holderUid : String) (claimKeys : List String)
    (claims : List Claim) : List Claim :=
  if claimKeys.isEmpty then
    Table.delete (fun c => !c.isDependency &&
      (decide (c.tenantId = tenantId ∧ c.holderUid = holderUid) ||
        (decide (c.owner = owner) && c.isReserved))) claims
  else
    Table.delete (fun c => decide (c.tenantId = tenantId ∧ c.holderUid = holderUid) &&
        !c.isDependency && decide (c.key ∉ claimKeys.map ClaimKey.definition))
      (Table.update (fun c => c.ownedFor owner tenantId holderUid &&
          decide (c.key ∈ claimKeys.map ClaimKey.definition))
        (fun c => { c with expiresAt := none }) claims)

/-- `resourceDependencyCommitStatements` of a write: its edges are committed, and the holder's
other edges go. -/
def dependencyCommitStatements (operationId tenantId holderUid : String) (claims : List Claim) :
    List Claim :=
  Table.delete (fun c => decide (c.tenantId = tenantId ∧ c.holderUid = holderUid) &&
      c.isDependency && decide (c.owner ≠ .operation operationId))
    (Table.update (fun c => c.ownedFor (.operation operationId) tenantId holderUid && c.isDependency)
      (fun c => { c with expiresAt := none }) claims)

/-- `resourceDependencyCommitStatements` of a delete. -/
def dependencyDeleteStatements (tenantId holderUid : String) (claims : List Claim) : List Claim :=
  Table.delete (fun c => decide (c.tenantId = tenantId ∧ c.holderUid = holderUid) && c.isDependency)
    claims

end Takoserver.V1
