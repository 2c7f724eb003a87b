import Takoserver.V1.ClaimWrites
import Takoserver.V1.LifeCycle

/-!
# No target vanishes under a dependent

A command reserves an edge to each incarnation it depends on, passes the edges
to its operation when it is dispatched, and commits them with the Resource; a
deletion is armed only while no edge to its Resource holds and no stored
relation names it.  So, under any calls, a claim that holds and a relation that
is stored point to a Resource that is there and not being deleted.
-/

namespace Takoserver.V1

open Machine

/-! ### Targets -/

variable {tenantId uid operationId : String} {m : Mutation} {claimOwner : Owner}
  {fencesRevision creates : Bool} {current : Resource → Bool}

section Targets

variable {D : Digests} {timestamp : Instant} {t t' : Tables}

/-- What an attestation says of its incarnation, whatever its state. -/
def Attestation.incarnation (a : Attestation) : Address × String × FormRef :=
  (a.address, a.resourceUid, a.formRef)

/-- What a call that commits nothing does to the attestations: their keys stay distinct, and a live
one stays live but where its Resource is not there or its deletion is armed. -/
structure AttestationWrite (D : Digests) (timestamp : Instant) (t t' : Tables) : Prop where
  keys : (t'.attestations.map Attestation.tenantUid).Nodup
  live : ∀ a ∈ t.attestations, a.state = .live → a ∈ t'.attestations ∨
    t.hasUid a.address.tenantId a.resourceUid = false ∨
    (deletionIsAvailable D a.address.tenantId a.resourceUid timestamp t = true ∧
      t'.claims = t.claims)

theorem AttestationWrite.of_subset (hn : (t'.attestations.map Attestation.tenantUid).Nodup)
    (h : t.attestations ⊆ t'.attestations) : AttestationWrite D timestamp t t' :=
  ⟨hn, fun _ ha _ => Or.inl (h ha)⟩

theorem AttestationWrite.of_eq (hn : (t.attestations.map Attestation.tenantUid).Nodup)
    (h : t'.attestations = t.attestations) : AttestationWrite D timestamp t t' :=
  .of_subset (h ▸ hn) (h ▸ List.Subset.refl _)

theorem AttestationWrite.of_frame (hn : (t.attestations.map Attestation.tenantUid).Nodup)
    (huid : t.hasUid tenantId uid = false) (h : AttestationFrame (tenantId, uid) t t') :
    AttestationWrite D timestamp t t' := by
  refine ⟨hn.sublist h.keys, fun a ha _ => ?_⟩
  by_cases heq : a.tenantUid = (tenantId, uid)
  · simp only [Attestation.tenantUid, Prod.mk.injEq] at heq
    refine Or.inr (Or.inl ?_)
    rw [heq.1, heq.2]
    exact huid
  · exact Or.inl ((h.kept a heq).mpr ha)

theorem attests_false (h : ¬t.attests tenantId uid (fun _ => true) = true) :
    ∀ a ∈ t.attestations, a.tenantUid ≠ (tenantId, uid) := by
  intro a ha heq
  refine h (List.any_eq_true.mpr ⟨a, ha, ?_⟩)
  simp only [Attestation.tenantUid, Prod.mk.injEq] at heq
  simp [heq]

theorem reserveIncarnation_write {address : Address} {resourceUid : String} {formRef : FormRef}
    (hn : (t.attestations.map Attestation.tenantUid).Nodup) :
    AttestationWrite D timestamp t (reserveResourceIncarnation address resourceUid formRef t) := by
  unfold reserveResourceIncarnation
  split
  · exact .of_eq hn rfl
  · next hnone =>
    exact .of_subset (Table.nodup_insert hn (attests_false hnone)) (List.subset_append_left _ _)

theorem prepareDeletion_write {address : Address} {resourceUid : String} {formRef : FormRef}
    {elsewhere : Bool} (hn : (t.attestations.map Attestation.tenantUid).Nodup)
    (h : prepareResourceDeletion D address resourceUid formRef elsewhere timestamp t = some t') :
    AttestationWrite D timestamp t t' := by
  have hclaims := (prepareDeletion_frame h).2.2.1
  unfold prepareResourceDeletion at h
  split at h
  swap
  · cases h
  next havailable =>
  simp only [Bool.and_eq_true] at havailable
  dsimp only at h
  split at h
  swap
  · cases h
  cases h
  revert hclaims
  unfold armDeletion
  split
  · refine fun hclaims => ⟨?_, fun a ha hlive => ?_⟩
    · rw [Table.map_update (by intro a; rfl)]
      exact hn
    · by_cases harmed : a.resourceUid = resourceUid ∧ a.address = address ∧ a.formRef = formRef ∧
          a.state = .live
      · exact Or.inr (Or.inr ⟨by rw [harmed.1, harmed.2.1]; exact havailable.1, hclaims⟩)
      · exact Or.inl (Table.mem_update.mpr (Or.inl ⟨ha, decide_eq_false harmed⟩))
  · next hnone =>
    exact fun _ =>
      .of_subset (Table.nodup_insert hn (attests_false hnone)) (List.subset_append_left _ _)

theorem Call.apply_attestations {call : Call} (hcall : call.mutation = none)
    (hn : (t.attestations.map Attestation.tenantUid).Nodup)
    (h : call.apply D timestamp t = some t') : AttestationWrite D timestamp t t' := by
  by_cases hframed : call.isFramed = true
  · exact .of_eq hn (Call.apply_frame hframed h).attestations
  cases call with
  | commitDefinitiveFailure =>
    obtain ⟨⟨_, u⟩, hu, rfl⟩ := Option.map_eq_some_iff.mp h
    rcases (definitiveFailure_frame hu).2.attestations with hsame | ⟨huid, hframe⟩
    · exact .of_eq hn hsame
    · exact .of_frame hn huid hframe
  | reserveIncarnation =>
    cases h
    exact reserveIncarnation_write hn
  | prepareDeletion => exact prepareDeletion_write hn h
  | releaseIncarnation =>
    rcases releaseIncarnation_eq h with rfl | ⟨huid, hframe, -⟩
    · exact .of_eq hn rfl
    · exact .of_frame hn huid hframe
  | acceptOperation =>
    unfold Call.apply acceptDeferredOperation at h
    dsimp only at h
    repeat' split at h
    all_goals cases h
    all_goals exact .of_eq hn rfl
  | commitImmediate => cases hcall
  | commitDeferred => cases hcall
  | _ => first | exact absurd rfl hframed | (cases h; exact .of_eq hn rfl)

/-- A call that commits nothing keeps a live target, but where its deletion is armed, or another
Resource is written over it. -/
theorem Call.apply_live {call : Call} (hcall : call.mutation = none)
    (hcurrent : call.isCurrent t = true) (hn : (t.attestations.map Attestation.tenantUid).Nodup)
    (h : call.apply D timestamp t = some t')
    (hlive : t.IsLive tenantId uid) :
    t'.IsLive tenantId uid ∨
      (deletionIsAvailable D tenantId uid timestamp t = true ∧ t'.claims = t.claims) := by
  obtain ⟨-, g, hg, hresources⟩ := Call.apply_rendering hcall hcurrent h
  obtain ⟨a, ha, hkey, hstate⟩ := hlive.attestation
  obtain ⟨r, hr, hrkey⟩ := hlive.resource
  have hkey' := hkey
  simp only [Attestation.tenantUid, Prod.mk.injEq] at hkey'
  rcases (Call.apply_attestations hcall hn h).live a ha hstate with hkept | hnone | havailable
  · refine Or.inl ⟨⟨g r, ?_, ?_⟩, a, hkept, hkey, hstate⟩
    · rw [hresources]
      exact List.mem_map_of_mem hr
    · rw [← hrkey, Resource.tenantUid, Resource.tenantUid, hg.address r hr, hg.uid r hr]
  · rw [hkey'.1, hkey'.2, hlive.hasUid] at hnone
    cases hnone
  · rw [hkey'.1, hkey'.2] at havailable
    exact Or.inr havailable

/-- A deletion that commits has its own incarnation pending. -/
theorem CommitResult.pending (hresult : CommitResult D m operationId claimOwner fencesRevision
    creates current timestamp t t') (hdelete : m.isDelete = true) :
    ∃ a ∈ t.attestations, a.tenantUid = (m.address.tenantId, m.resourceUid) ∧
      a.state = .pending := by
  have hfence := hresult.effectFence
  have hreceipt : m.receiptJson.isNone = false := by
    obtain ⟨_, _, _, _, _, _, _, _, change⟩ := m
    cases change with
    | delete => rfl
    | write => cases hdelete
    | unchanged => cases hdelete
  simp only [Mutation.effectFence, hreceipt, Bool.false_or, hdelete, Bool.not_true,
    Bool.and_eq_true, Tables.attests, List.any_eq_true, decide_eq_true_eq] at hfence
  obtain ⟨-, a, ha, hkey, hpending⟩ := hfence
  exact ⟨a, ha, by rw [Attestation.tenantUid, hkey.1, hkey.2], hpending⟩

theorem commit_live (hn : (t.attestations.map Attestation.tenantUid).Nodup)
    (hresource : ResourceResult m t t')
    (hresult : CommitResult D m operationId claimOwner fencesRevision creates current timestamp t t')
    (hlive : t.IsLive tenantId uid) : t'.IsLive tenantId uid := by
  obtain ⟨a, ha, hkey, hstate⟩ := hlive.attestation
  obtain ⟨r, hr, hrkey⟩ := hlive.resource
  -- a deletion is of a pending incarnation, so it is not of this one
  have hother : m.isDelete = true → (m.address.tenantId, m.resourceUid) ≠ (tenantId, uid) := by
    intro hdelete heq
    obtain ⟨b, hb, hbkey, hpending⟩ := hresult.pending hdelete
    rw [Table.eq_of_key hn hb ha (hbkey.trans (heq.trans hkey.symm)), hstate] at hpending
    cases hpending
  refine ⟨?_, a, ?_, hkey, hstate⟩
  · by_cases haddress : r.address = m.address
    · have huid := hresource.predecessor r hr haddress
      cases hdoc : m.document with
      | none =>
        have hdelete : m.isDelete = true := by
          rw [← m.document_isNone, hdoc]
          rfl
        refine absurd ?_ (hother hdelete)
        rw [← hrkey, Resource.tenantUid, haddress, huid]
      | some d =>
        refine ⟨m.row d, (hresource.mem _).mpr (Or.inr ⟨d, hdoc, rfl⟩), ?_⟩
        rw [← hrkey, Resource.tenantUid, Resource.tenantUid, haddress, huid, ← hresource.uid d hdoc]
        rfl
    · exact ⟨r, (hresource.mem r).mpr (Or.inl ⟨hr, haddress⟩), hrkey⟩
  · rcases hresult.attestations with hsame | ⟨hdelete, hframe⟩
    · rw [hsame]
      exact ha
    · exact (hframe.kept a (hkey ▸ (hother hdelete).symm)).mpr ha

end Targets

/-! ### The invariant -/

/-- A Resource that was seen has the uid, or refers to it. -/
def Store.Mentions (s : Store) (tenantId uid : String) : Prop :=
  ∃ r ∈ s.seen, r.address.tenantId = tenantId ∧
    (r.uid = uid ∨ ∃ relation ∈ r.relations, relation.targetUid = uid)

/-- The digests of a tenant's uids tell the uids apart that the run has seen. -/
def Store.Separates (D : Digests) (s : Store) : Prop :=
  ∀ tenantId, Set.InjOn (D.target tenantId) {uid | s.Mentions tenantId uid}

/-- The invariant: claims that hold and relations that are stored point to live targets.  A
dependency claim of an operation has no end before `repairHorizon`, so it holds. -/
structure TargetsHold (D : Digests) (s : Store) : Prop where
  current : s.tables.resources ⊆ s.seen
  addresses : (s.tables.resources.map Resource.address).Nodup
  claimKeys : (s.tables.claims.map Claim.key).Nodup
  incarnations : (s.tables.attestations.map Attestation.tenantUid).Nodup
  clock : s.clock < repairHorizon
  dispatched : ∀ c ∈ s.tables.claims, c.isDependency = true → ∀ id, c.owner = .operation id →
    c.expiresAt = none ∨ c.expiresAt = some repairHorizon
  edges : ∀ c ∈ s.tables.claims, c.holds s.clock = true → c.PointsToLive D s.tables
  relations : ∀ r ∈ s.tables.resources, ∀ relation ∈ r.relations,
    s.tables.IsLive r.address.tenantId relation.targetUid

section Runs

variable {D : Digests} {s u : Store} {timestamp : Instant} {call : Call}

theorem Store.Mentions.mono (h : s.Mentions tenantId uid) (hsub : s.seen ⊆ u.seen) :
    u.Mentions tenantId uid := by
  obtain ⟨r, hr, hmention⟩ := h
  exact ⟨r, hsub hr, hmention⟩

theorem Store.mentions_of_hasUid (hcurrent : s.tables.resources ⊆ s.seen)
    (h : s.tables.hasUid tenantId uid = true) : s.Mentions tenantId uid := by
  obtain ⟨r, hr, hkey⟩ := List.any_eq_true.mp h
  obtain ⟨htenant, huid⟩ := of_decide_eq_true hkey
  exact ⟨r, hcurrent hr, htenant, Or.inl huid⟩

theorem Store.Separates.mono (h : u.Separates D) (hsub : s.seen ⊆ u.seen) : s.Separates D :=
  fun tenantId => (h tenantId).mono fun _ hmention => hmention.mono hsub

theorem Store.Separates.tables (h : s.Separates D) (hcurrent : s.tables.resources ⊆ s.seen) :
    s.tables.Separates D :=
  fun tenantId => (h tenantId).mono fun _ hhas => s.mentions_of_hasUid hcurrent hhas

theorem targetsHold_init : TargetsHold D {} where
  current := List.nil_subset _
  addresses := List.nodup_nil
  claimKeys := List.nodup_nil
  incarnations := List.nodup_nil
  clock := by decide
  dispatched := by simp
  edges := by simp
  relations := by simp

section

variable (hs : TargetsHold D s) (hD : s.Separates D) {t' : Tables} {released : Claim → Prop}
  (hw : ClaimWrite D released s.tables t')

include hs hD hw

/-- A claim of the next state that holds and points somewhere points to what was live. -/
theorem TargetsHold.pointed {clock : Instant} (hle : s.clock ≤ clock) {c : Claim}
    (hc : c ∈ t'.claims) (hholds : c.holds clock = true) : c.PointsToLive D s.tables := by
  intro target edge hkey
  have hdep := Claim.isDependency_of_isEdgeTo (Claim.isEdgeTo_iff.mpr ⟨edge, hkey⟩)
  cases hw.source (hD.tables hs.current) c hc hdep with
  | kept mem => exact hs.edges c mem (Claim.holds_mono hle hholds) target edge hkey
  | committed d mem id owner eq =>
    subst eq
    have hheld : d.holds s.clock = true := by
      rw [Claim.holds_iff]
      intro e he
      rcases hs.dispatched d mem hdep id owner with hnone | hhorizon
      · rw [hnone] at he
        cases he
      · rw [hhorizon] at he
        cases he
        exact hs.clock
    exact hs.edges d mem hheld target edge hkey
  | fenced live => exact live target edge hkey

theorem TargetsHold.dispatched_write :
    ∀ c ∈ t'.claims, c.isDependency = true → ∀ id, c.owner = .operation id →
      c.expiresAt = none ∨ c.expiresAt = some repairHorizon := by
  intro c hc hdep id howner
  cases hw.source (hD.tables hs.current) c hc hdep with
  | kept mem => exact hs.dispatched c mem hdep id howner
  | committed _ _ _ _ eq =>
    subst eq
    exact Or.inl rfl
  | fenced live owner =>
    rcases owner with ⟨_, hlease⟩ | hexpires
    · rw [hlease] at howner
      cases howner
    · exact hexpires

end

/-- A deletion that is available: no claim that holds points to its Resource, no relation names
it. -/
theorem deletionIsAvailable_iff {t : Tables} :
    deletionIsAvailable D tenantId uid timestamp t = true ↔
      (∀ c ∈ t.claims, c.isEdgeTo (D.target tenantId uid) = true → c.tenantId = tenantId →
        c.holds timestamp = false) ∧
      ∀ r ∈ t.resources, r.address.tenantId = tenantId → ∀ relation ∈ r.relations,
        relation.targetUid ≠ uid := by
  simp only [deletionIsAvailable, Bool.and_eq_true, Bool.not_eq_true', List.any_eq_false,
    decide_eq_true_eq, List.any_eq_true, not_and, not_exists, and_imp, Bool.not_eq_true]

theorem TargetsHold.next_of_mutation_none (hD : s.Separates D) (hs : TargetsHold D s)
    (hcall : call.mutation = none) (hcurrent : call.isCurrent s.tables = true)
    (hclock : timestamp < repairHorizon) (happly : call.apply D timestamp s.tables = some u.tables)
    (hu : u.clock = max s.clock timestamp) (hseen : u.tables.resources ⊆ u.seen) :
    TargetsHold D u := by
  have hw := Call.apply_claims (D := D) hs.claimKeys hs.addresses happly
  obtain ⟨-, g, hg, hresources⟩ := Call.apply_rendering hcall hcurrent happly
  refine ⟨hseen, ?_, hw.keys, (Call.apply_attestations hcall hs.incarnations happly).keys, ?_,
    hs.dispatched_write hD hw, ?_, ?_⟩
  · rw [Call.apply_addresses hcall happly]
    exact hs.addresses
  · have := hs.clock
    rw [hu]
    exact max_lt this hclock
  · intro c hc hholds target edge hkey
    rw [hu] at hholds
    obtain ⟨uid, rfl, hlive⟩ := hs.pointed hD hw (le_max_left _ _) hc hholds target edge hkey
    rcases Call.apply_live hcall hcurrent hs.incarnations happly hlive with hkept | ⟨havailable, hsame⟩
    · exact ⟨uid, rfl, hkept⟩
    · have hedge := Claim.isEdgeTo_iff.mpr ⟨edge, hkey⟩
      have hheld := Claim.holds_mono (le_max_right s.clock timestamp) hholds
      rw [hsame] at hc
      rw [(deletionIsAvailable_iff.mp havailable).1 c hc hedge rfl] at hheld
      cases hheld
  · intro r' hr' relation hrelation
    rw [hresources] at hr'
    obtain ⟨r, hr, rfl⟩ := List.mem_map.mp hr'
    rw [hg.relations r hr] at hrelation
    rw [hg.address r hr]
    have hlive := hs.relations r hr relation hrelation
    rcases Call.apply_live hcall hcurrent hs.incarnations happly hlive with hkept | ⟨havailable, -⟩
    · exact hkept
    · exact absurd rfl ((deletionIsAvailable_iff.mp havailable).2 r hr rfl relation hrelation)

/-- A mutation that writes a relation writes a document. -/
theorem Mutation.exists_document {relation : StoredRelation} (h : relation ∈ m.relations) :
    ∃ d, m.document = some d := by
  cases hchange : m.change with
  | write d => exact ⟨d, by rw [Mutation.document, hchange]⟩
  | unchanged d => exact ⟨d, by rw [Mutation.document, hchange]⟩
  | delete =>
    rw [Mutation.relations, hchange] at h
    cases h

/-- The uids that are stored, and those of the relations that a commit writes, have digests of their
own. -/
theorem Store.Separates.injOn_of_commit (hD : u.Separates D)
    (hcurrent : s.tables.resources ⊆ s.seen) (hseen : u.seen = s.seen ++ u.tables.resources)
    (hresource : ResourceResult m s.tables u.tables) :
    Set.InjOn (D.target m.address.tenantId) {uid |
      s.tables.hasUid m.address.tenantId uid = true ∨
        ∃ relation ∈ m.relations, relation.targetUid = uid} := by
  refine (hD _).mono ?_
  rintro uid (hhas | ⟨relation, hrelation, huid⟩)
  · exact (s.mentions_of_hasUid hcurrent hhas).mono (hseen ▸ List.subset_append_left _ _)
  · -- the row that is written has the relation
    obtain ⟨d, hd⟩ := m.exists_document hrelation
    have hrow := (hresource.mem _).mpr (Or.inr ⟨d, hd, rfl⟩)
    exact ⟨m.row d, hseen ▸ List.mem_append_right _ hrow, rfl, Or.inr ⟨relation, hrelation, huid⟩⟩

/-- The relations a commit writes are those of claims it has committed, or those that were
stored. -/
theorem TargetsHold.commit_relations (hs : TargetsHold D s) {t' : Tables}
    (hD : Set.InjOn (D.target m.address.tenantId) {uid |
      s.tables.hasUid m.address.tenantId uid = true ∨
        ∃ relation ∈ m.relations, relation.targetUid = uid})
    (hidentified : m.isIdentified = true)
    (hresult : CommitResult D m operationId claimOwner fencesRevision creates current timestamp
      s.tables t') :
    ∀ relation ∈ m.relations, s.tables.IsLive m.address.tenantId relation.targetUid := by
  intro relation hrelation
  cases hchange : m.change with
  | write _ dependencies =>
    have hguard := hresult.dependencies
    have hrelation' : relation ∈ dependencies.relations := by
      simpa only [Mutation.relations, hchange] using hrelation
    simp only [Mutation.dependencyGuard, Mutation.dependencies, hchange, Option.all_some,
      Bool.and_eq_true, decide_eq_true_eq, Tables.ownsDependencies, List.all_eq_true,
      List.any_eq_true] at hguard
    obtain ⟨⟨-, htenant, -⟩, -, hall⟩ := hguard
    obtain ⟨f, hf, huid⟩ := dependencies.exists_fence hrelation'
    obtain ⟨c, hc, ⟨⟨hkey, howned⟩, hcommitted⟩, -⟩ :=
      hall _ (DependencySet.edgeKey_mem_claimKeys D hf)
    have hct : c.tenantId = m.address.tenantId := (of_decide_eq_true howned).2.1
    have hholds : c.holds s.clock = true := by
      rw [Claim.holds_iff]
      intro e he
      rw [Claim.isCommitted, he] at hcommitted
      cases hcommitted
    -- the edge points to a Resource of the same digest, so of the same uid
    obtain ⟨uid, hdigest, hlive⟩ := hs.edges c hc hholds _ _ hkey
    rw [hct] at hdigest hlive
    rw [htenant] at hdigest
    rw [← hD (Or.inl hlive.hasUid) (Or.inr ⟨relation, hrelation, huid.symm⟩) hdigest] at huid
    rw [← huid]
    exact hlive
  | unchanged document relations =>
    have hfence := hresult.evidenceFence
    simp only [Mutation.evidenceFence, Bool.and_eq_true] at hfence
    have hisUnchanged : m.isUnchanged = true := by simp [Mutation.isUnchanged, hchange]
    rcases Mutation.predecessorFence_iff hfence.2 with ⟨-, hnone, -⟩ | ⟨-, r, hr, -, -, hsame⟩
    · -- an unchanged apply expects the revision it has
      simp [Mutation.isIdentified, Mutation.document, hisUnchanged, hchange, hnone] at hidentified
    · obtain ⟨hmem, haddress⟩ := (Tables.resourceAt_eq_some hs.addresses).mp hr
      rw [← (hsame hisUnchanged).2] at hrelation
      rw [← haddress]
      exact hs.relations r hmem relation hrelation
  | delete =>
    simp only [Mutation.relations, hchange] at hrelation
    cases hrelation

theorem TargetsHold.next_of_commit (hD : u.Separates D) (hs : TargetsHold D s)
    (hclock : timestamp < repairHorizon) (hu : u.clock = max s.clock timestamp)
    (hseen : u.seen = s.seen ++ u.tables.resources) (hresource : ResourceResult m s.tables u.tables)
    (hresult : CommitResult D m operationId claimOwner fencesRevision creates current timestamp
      s.tables u.tables) : TargetsHold D u := by
  have hw := commit_write (D := D) hs.claimKeys hresult.claims
  have hcurrent : u.tables.resources ⊆ u.seen := hseen ▸ List.subset_append_right _ _
  have hsub : s.seen ⊆ u.seen := hseen ▸ List.subset_append_left _ _
  have hmentions := hD.injOn_of_commit hs.current hseen hresource
  have hkept : ∀ {tenantId uid : String}, s.tables.IsLive tenantId uid →
      u.tables.IsLive tenantId uid := commit_live hs.incarnations hresource hresult
  refine ⟨hcurrent, hresource.nodup, hw.keys, ?_, ?_, hs.dispatched_write (hD.mono hsub) hw, ?_, ?_⟩
  · rcases hresult.attestations with hsame | ⟨-, hframe⟩
    · rw [hsame]
      exact hs.incarnations
    · exact hs.incarnations.sublist hframe.keys
  · rw [hu]
    exact max_lt hs.clock hclock
  · intro c hc hholds target edge hkey
    rw [hu] at hholds
    obtain ⟨uid, hdigest, hlive⟩ :=
      hs.pointed (hD.mono hsub) hw (le_max_left _ _) hc hholds target edge hkey
    exact ⟨uid, hdigest, hkept hlive⟩
  · intro r hr relation hrelation
    rcases (hresource.mem r).mp hr with ⟨hold, -⟩ | ⟨d, -, rfl⟩
    · exact hkept (hs.relations r hold relation hrelation)
    · exact hkept (hs.commit_relations hmentions hresource.identified hresult relation hrelation)

theorem TargetsHold.next (hD : u.Separates D) (hs : TargetsHold D s) (hcurrent : call.isCurrent s.tables = true)
    (h : (store D).next s (timestamp, call) = some u) : TargetsHold D u := by
  obtain ⟨hclock, happly, hu, -⟩ := store_next h
  obtain ⟨-, hseen⟩ := store_seen h
  cases hcall : call.mutation with
  | none =>
    exact hs.next_of_mutation_none (hD.mono (hseen ▸ List.subset_append_left _ _)) hcall hcurrent
      hclock happly hu (hseen ▸ List.subset_append_right _ _)
  | some c =>
    obtain ⟨hresource, _, _, _, _, hresult⟩ := Call.apply_commit hs.addresses hcall happly
    exact hs.next_of_commit hD hclock hu hseen hresource hresult

theorem targetsHold_of_reachVia (hs : (store D).ReachVia rendersCurrent s) (hD : s.Separates D) :
    TargetsHold D s := by
  refine hs.invariant (P := fun s => s.Separates D → TargetsHold D s) (fun _ => targetsHold_init)
    ?_ hD
  rintro s ⟨_, _⟩ u hinv hcurrent h hD
  refine (hinv (hD.mono ?_)).next hD hcurrent h
  rw [(store_seen h).2]
  exact List.subset_append_left _ _

theorem TargetsHold.attestation_state (hs : TargetsHold D s) (hlive : s.tables.IsLive tenantId uid)
    {a : Attestation} (ha : a ∈ s.tables.attestations) (hkey : a.tenantUid = (tenantId, uid)) :
    a.state = .live := by
  obtain ⟨b, hb, hbkey, hstate⟩ := hlive.attestation
  rw [Table.eq_of_key hs.incarnations ha hb (hkey.trans hbkey.symm)]
  exact hstate

end Runs

/-- **No target vanishes under a dependent.**  In every state of every run whose renderings are
current, and in which no two uids have one digest, a dependency claim that is committed or has not
expired points to a uid of the run; and each uid that such a claim, or a relation that is stored,
points to has its Resource there and no attestation that is of a deletion. -/
theorem targets_never_vanish (D : Digests) {s : Store} (hs : (store D).ReachVia rendersCurrent s)
    (hD : s.Separates D) :
    (∀ c ∈ s.tables.claims, c.holds s.clock = true → ∀ target edge, c.key = .edge target edge →
      (∃ uid, s.Mentions c.tenantId uid ∧ D.target c.tenantId uid = target) ∧
      ∀ uid, s.Mentions c.tenantId uid → D.target c.tenantId uid = target →
        (∃ r ∈ s.tables.resources, r.tenantUid = (c.tenantId, uid)) ∧
        ∀ a ∈ s.tables.attestations, a.tenantUid = (c.tenantId, uid) → a.state = .live) ∧
    ∀ r ∈ s.tables.resources, ∀ relation ∈ r.relations,
      (∃ r' ∈ s.tables.resources, r'.tenantUid = (r.address.tenantId, relation.targetUid)) ∧
      ∀ a ∈ s.tables.attestations, a.tenantUid = (r.address.tenantId, relation.targetUid) →
        a.state = .live := by
  have hinv := targetsHold_of_reachVia hs hD
  constructor
  · intro c hc hholds target edge hkey
    obtain ⟨uid, rfl, hlive⟩ := hinv.edges c hc hholds target edge hkey
    have hmentions := s.mentions_of_hasUid hinv.current hlive.hasUid
    refine ⟨⟨uid, hmentions, rfl⟩, fun uid' hmentions' heq => ?_⟩
    obtain rfl := hD _ hmentions' hmentions heq
    exact ⟨hlive.resource, fun a ha hkey => hinv.attestation_state hlive ha hkey⟩
  · intro r hr relation hrelation
    have hlive := hinv.relations r hr relation hrelation
    exact ⟨hlive.resource, fun a ha hkey => hinv.attestation_state hlive ha hkey⟩

/-! ### A run -/

/-- A reader of the bucket, for the runs below. -/
def readerAddress : Address := { bucketAddress with kind := "Reader", name := "r" }

def readerForm : FormRef := { bucketForm with kind := "Reader" }

/-- The relation of a Resource that refers to the bucket. -/
def readerRelation : StoredRelation :=
  { pointer := "/bucket", relation := "/bucket", targetApiVersion := "v1", targetKind := "Bucket",
    targetName := "b", targetUid := "uid_1", targetRevision := some "1", targetFormRef := bucketForm }

def readerDependencies : DependencySet :=
  { tenantId := "t", space := "s", holderUid := "uid_2", operationId := "op_3",
    manifest := "reader manifest", dataKeys := ["reader data"],
    fences := [{ space := "s", apiVersion := "v1", kind := "Bucket", name := "b", uid := "uid_1",
                 revision := "1", formRef := bucketForm }],
    relations := [readerRelation], collected := rfl }

/-- The row of the reader, before its relations. -/
def reader : Resource :=
  { address := readerAddress, uid := "uid_2", generation := "1", revision := "1",
    document := { apiVersion := "v1", kind := "Reader", space := "s", name := "r", uid := "uid_2",
                  generation := "1", revision := "1", formRef := readerForm, content := "" },
    relations := [], packageDigest := none, implementationDigest := none }

/-- The calls of an immediate create, from its saga to its commit. -/
def createCalls (r : Resource) (s : DependencySet) (replayKey : String) (claimKeys : List String) :
    List Call :=
  let ref : SagaRef :=
    { tenantId := r.address.tenantId, operationId := s.operationId, resourceUid := r.uid }
  let m : Mutation :=
    { address := r.address, resourceUid := r.uid, expectedRevision := none, packageDigest := none,
      implementationDigest := none, replayKey, fingerprint := "f", status := 201,
      change := .write r.document s "receipt" .initial claimKeys }
  [.acceptSaga { operationId := s.operationId, operationKind := .apply, replayKey,
                 fingerprint := "f", resourceUid := r.uid, target := r.address, accepted := none,
                 authorityHeadDigest := none } false,
   .reserveClaims (claimKeys.map fun key =>
     { key, tenantId := r.address.tenantId,
       holder := { space := r.address.space, apiVersion := r.address.apiVersion,
                   kind := r.address.kind, name := r.address.name },
       holderUid := r.uid, owner := .operation s.operationId }) 1000,
   .reserveIncarnation r.address r.uid r.document.formRef,
   .acquireSaga ref { token := s.operationId, leaseUntil := 1000 } .initial,
   .reserveDependencies s s.operationId 1000,
   .bindApply ref "f" s.operationId .initial "selection",
   .markDispatch ref s.operationId .initial (some (s, .lease s.operationId)),
   .recordEffect { tenantId := r.address.tenantId, resourceUid := r.uid, effectId := s.operationId,
                   effectKind := .apply, phase := .dispatched, operationMode := .initial },
   .recordReceipt ref s.operationId none (some (.operation s.operationId)) "receipt",
   .commitImmediate m s.operationId .apply true]

/-- The calls of an immediate delete. -/
def deleteCalls (r : Resource) (operationId replayKey : String) : List Call :=
  let ref : SagaRef :=
    { tenantId := r.address.tenantId, operationId, resourceUid := r.uid }
  let m : Mutation :=
    { address := r.address, resourceUid := r.uid, expectedRevision := some r.revision,
      packageDigest := none, implementationDigest := none, replayKey, fingerprint := "f",
      status := 204, change := .delete "receipt" .initial }
  [.acceptSaga { operationId, operationKind := .delete, replayKey, fingerprint := "f",
                 resourceUid := r.uid, target := r.address,
                 accepted := some { uid := r.uid, generation := r.generation, revision := r.revision },
                 authorityHeadDigest := none } false,
   .prepareDeletion r.address r.uid r.document.formRef true,
   .acquireSaga ref { token := operationId, leaseUntil := 1000 } .initial,
   .markDispatch ref operationId .initial none,
   .recordEffect { tenantId := r.address.tenantId, resourceUid := r.uid, effectId := operationId,
                   effectKind := .delete, phase := .dispatched, operationMode := .initial },
   .recordReceipt ref operationId none none "receipt",
   .commitImmediate m operationId .delete true]

theorem plainDigests_target_injective (tenantId : String) :
    Function.Injective (plainDigests.target tenantId) := by
  intro uid uid' h
  have h' : (tenantId ++ ":" ++ uid).toList = (tenantId ++ ":" ++ uid').toList := congrArg _ h
  exact String.toList_injective (by simpa using h')

/-- The row of the reader. -/
def readerRow : Resource := { reader with relations := [readerRelation] }

/-- The bucket is created, then a Resource that refers to it, which is observed. -/
def readerRun : List (Instant × Call) :=
  (createCalls bucket creationDependencies "key_1" [] ++
    createCalls reader readerDependencies "key_2" [] ++
    [Call.render readerRow [readerRelation] "2" "observed"]).map fun call => (1, call)

/-- The reader's relation and its committed edge hold the bucket. -/
theorem targets_never_vanish_readerRun :
    ∃ s, (store plainDigests).ReachVia rendersCurrent s ∧
      (s.tables.resources.map fun r => r.relations.map StoredRelation.targetUid) = [[], ["uid_1"]] ∧
      (s.tables.claims.any fun c =>
        c.holds s.clock && c.isEdgeTo (plainDigests.target c.tenantId "uid_1")) = true ∧
      ∀ r ∈ s.tables.resources, ∀ relation ∈ r.relations,
        ∃ r' ∈ s.tables.resources, r'.tenantUid = (r.address.tenantId, relation.targetUid) := by
  obtain ⟨s, hs, hp⟩ := exists_reachVia_of_run (M := store plainDigests)
    (fun s a => a.2.isCurrent s.tables) readerRun (fun s =>
      decide ((s.tables.resources.map fun r => r.relations.map StoredRelation.targetUid) =
        [[], ["uid_1"]] ∧
      (s.tables.claims.any fun c =>
        c.holds s.clock && c.isEdgeTo (plainDigests.target c.tenantId "uid_1")) = true))
    (by decide +kernel)
  obtain ⟨hrelations, hclaims⟩ := of_decide_eq_true hp
  have hall := targets_never_vanish plainDigests hs fun _ => (plainDigests_target_injective _).injOn
  exact ⟨s, hs, hrelations, hclaims, fun r hr relation hrelation =>
    (hall.2 r hr relation hrelation).1⟩

/-- A second reader at the same address, which refers to nothing. -/
def secondReader : Resource :=
  { reader with uid := "uid_3", document := { reader.document with uid := "uid_3" } }

def secondReaderDependencies : DependencySet :=
  { creationDependencies with
    holderUid := "uid_3", operationId := "op_5", manifest := "second manifest",
    dataKeys := ["second data"] }

/-- A request reads the reader.  The reader is deleted and created again without its relation, the
deletion of the bucket is armed, and then the request writes what it read. -/
def revivedRun : List (Instant × Call) :=
  (createCalls bucket creationDependencies "key_1" [] ++
    createCalls reader readerDependencies "key_2" [] ++ deleteCalls readerRow "op_4" "key_4" ++
    createCalls secondReader secondReaderDependencies "key_5" [] ++
    [Call.prepareDeletion bucket.address bucket.uid bucketForm true,
     Call.render readerRow [readerRelation] "2" "drifted"]).map fun call => (1, call)

/-- A rendering of an earlier Resource brings its relations back. -/
theorem stale_rendering_revives_relation :
    ¬∀ D : Digests, (∀ tenantId, Function.Injective (D.target tenantId)) →
      ∀ s, (store D).Reachable s → ∀ r ∈ s.tables.resources, ∀ relation ∈ r.relations,
        ∀ a ∈ s.tables.attestations, a.tenantUid = (r.address.tenantId, relation.targetUid) →
          a.state = .live := by
  intro h
  obtain ⟨s, hs, hp⟩ := exists_reachable_of_run (M := store plainDigests) revivedRun
    (fun s => s.tables.resources.any fun r => r.relations.any fun relation =>
      s.tables.attestations.any fun a => decide
        (a.tenantUid = (r.address.tenantId, relation.targetUid) ∧ a.state = .pending))
    (by decide +kernel)
  simp only [List.any_eq_true, decide_eq_true_eq] at hp
  obtain ⟨r, hr, relation, hrelation, a, ha, hkey, hpending⟩ := hp
  have hlive := h plainDigests plainDigests_target_injective s hs r hr relation hrelation a ha hkey
  rw [hpending] at hlive
  cases hlive

end Takoserver.V1
