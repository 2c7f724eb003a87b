import Takoserver.V1.Frames

/-!
# What a call does to the claims

Keys stay distinct; a dependency claim was reserved or dispatched while its
target was live; and a committed claim is kept until its holder commits again,
or is retired.
-/

namespace Takoserver.V1

/-- The Resource of a uid is stored, and its attestation is live. -/
structure Tables.IsLive (t : Tables) (tenantId uid : String) : Prop where
  resource : ∃ r ∈ t.resources, r.tenantUid = (tenantId, uid)
  attestation : ∃ a ∈ t.attestations, a.tenantUid = (tenantId, uid) ∧ a.state = .live

section Claims

variable {D : Digests} {timestamp : Instant} {t t' : Tables}

variable {tenantId holderUid uid : String} {c c' row : Claim} {released : Claim → Prop}
  {claims : List Claim} {p : Claim → Bool} {s : DependencySet} {owner : Owner} {i : SagaRef}

theorem Tables.IsLive.hasUid (h : t.IsLive tenantId uid) :
    t.hasUid tenantId uid = true := by
  obtain ⟨r, hr, hkey⟩ := h.resource
  simp only [Resource.tenantUid, Prod.mk.injEq] at hkey
  exact List.any_eq_true.mpr ⟨r, hr, decide_eq_true hkey⟩

/-- The digests of a tenant's uids tell the Resources apart that are stored. -/
def Tables.Separates (D : Digests) (t : Tables) : Prop :=
  ∀ tenantId, Set.InjOn (D.target tenantId) {uid | t.hasUid tenantId uid = true}

theorem Tables.targetIsLive_isLive {f : Target} (h : t.targetIsLive tenantId f = true) :
    t.IsLive tenantId f.uid := by
  simp only [Tables.targetIsLive, Bool.and_eq_true, List.any_eq_true, decide_eq_true_eq] at h
  obtain ⟨⟨r, hr, haddress, huid, -⟩, a, ha, haddress', huid', -, hstate⟩ := h
  refine ⟨⟨r, hr, ?_⟩, a, ha, ?_, hstate⟩
  · rw [Resource.tenantUid, haddress, huid]
    rfl
  · rw [Attestation.tenantUid, haddress', huid']
    rfl

/-- An edge, at the uid it points to. -/
theorem Claim.isEdgeTo_iff {d : String} :
    c.isEdgeTo d = true ↔ ∃ e, c.key = .edge d e := by
  unfold Claim.isEdgeTo
  split
  · next hkey => simp [hkey]
  · next hkey =>
    constructor
    · intro h
      cases h
    · rintro ⟨e, he⟩
      exact absurd he (hkey d e)

theorem Claim.isDependency_of_isEdgeTo {d : String} (h : c.isEdgeTo d = true) :
    c.isDependency = true := by
  obtain ⟨e, he⟩ := Claim.isEdgeTo_iff.mp h
  unfold Claim.isDependency
  rw [he]

/-- An edge points to a Resource that is live, by the digest of its uid. -/
def Claim.PointsToLive (D : Digests) (t : Tables) (c : Claim) : Prop :=
  ∀ target edge, c.key = .edge target edge →
    ∃ uid, D.target c.tenantId uid = target ∧ t.IsLive c.tenantId uid

/-- Where a dependency claim comes from: it was there, its operation has committed it, or it was
reserved or dispatched while its target was live. -/
inductive ClaimFrom (D : Digests) (t : Tables) (c' : Claim) : Prop where
  | kept (mem : c' ∈ t.claims)
  | committed (c : Claim) (mem : c ∈ t.claims) (id : String) (owner : c.owner = .operation id)
      (eq : c' = { c with expiresAt := none })
  | fenced (live : c'.PointsToLive D t)
      (owner : (∃ token, c'.owner = .lease token) ∨ c'.expiresAt = none ∨
        c'.expiresAt = some repairHorizon)

/-- A committed claim after a write of its row: another owner may have it, for the same
holder. -/
structure Claim.Kept (c c' : Claim) : Prop where
  key : c'.key = c.key
  tenantId : c'.tenantId = c.tenantId
  holderUid : c'.holderUid = c.holderUid
  committed : c'.isCommitted = true

theorem Claim.Kept.refl (h : c.isCommitted = true) : c.Kept c := ⟨rfl, rfl, rfl, h⟩

theorem Claim.Kept.trans {c'' : Claim} (h : c.Kept c') (h' : c'.Kept c'') : c.Kept c'' :=
  ⟨h'.key.trans h.key, h'.tenantId.trans h.tenantId, h'.holderUid.trans h.holderUid, h'.committed⟩

/-- Every committed claim is kept, but for those that are released. -/
def KeepsCommitted (released : Claim → Prop) (claims claims' : List Claim) : Prop :=
  ∀ c ∈ claims, c.isCommitted = true → ¬released c → ∃ c' ∈ claims', c.Kept c'

theorem KeepsCommitted.trans {claims' claims'' : List Claim}
    (hreleased : ∀ c c' : Claim, c.Kept c' → released c' → released c)
    (h : KeepsCommitted released claims claims') (h' : KeepsCommitted released claims' claims'') :
    KeepsCommitted released claims claims'' := by
  intro c hc hcommitted hkept
  obtain ⟨c', hc', hcc'⟩ := h c hc hcommitted hkept
  obtain ⟨c'', hc'', hcc''⟩ := h' c' hc' hcc'.committed fun h => hkept (hreleased c c' hcc' h)
  exact ⟨c'', hc'', hcc'.trans hcc''⟩

/-- A delete removes reserved claims, and those that are released. -/
theorem KeepsCommitted.delete (claims : List Claim)
    (hp : ∀ c, c.isCommitted = true → ¬released c → p c = false) :
    KeepsCommitted released claims (Table.delete p claims) := fun c hc hcommitted hkept =>
  ⟨c, Table.mem_delete.mpr ⟨hc, hp c hcommitted hkept⟩, .refl hcommitted⟩

theorem KeepsCommitted.update {f : Claim → Claim} (claims : List Claim)
    (hf : ∀ c : Claim, c.isCommitted = true → c.Kept (f c)) :
    KeepsCommitted released claims (Table.update p f claims) := by
  intro c hc hcommitted _
  by_cases hp : p c = true
  · exact ⟨f c, Table.mem_update.mpr (Or.inr ⟨c, hc, hp, rfl⟩), hf c hcommitted⟩
  · exact ⟨c, Table.mem_update.mpr (Or.inl ⟨hc, Bool.eq_false_iff.mpr hp⟩), .refl hcommitted⟩

theorem KeepsCommitted.commit (p : Claim → Bool) (claims : List Claim) :
    KeepsCommitted released claims
      (Table.update p (fun c => { c with expiresAt := none }) claims) :=
  .update _ fun _ _ => ⟨rfl, rfl, rfl, rfl⟩

theorem Claim.isReserved_of_isCommitted (h : c.isCommitted = true) :
    c.isReserved = false := by
  rw [Claim.isReserved, Option.isNone_iff_eq_none.mp h]
  rfl

theorem Claim.isExpired_of_isCommitted (h : c.isCommitted = true) :
    c.isExpired timestamp = false := by
  rw [Claim.isExpired, Option.isNone_iff_eq_none.mp h]
  rfl

/-- What a call does to the claims: their keys stay distinct, a dependency claim comes from
somewhere, and the committed claims are kept but for those that are released. -/
structure ClaimWrite (D : Digests) (released : Claim → Prop) (t t' : Tables) : Prop where
  keys : (t'.claims.map Claim.key).Nodup
  source : t.Separates D → ∀ c' ∈ t'.claims, c'.isDependency = true → ClaimFrom D t c'
  kept : KeepsCommitted released t.claims t'.claims

theorem ClaimWrite.of_eq (hn : (t.claims.map Claim.key).Nodup) (h : t'.claims = t.claims) :
    ClaimWrite D released t t' := by
  refine ⟨by rw [h]; exact hn, fun _ c' hc' _ => .kept ?_, fun c hc hcommitted _ =>
    ⟨c, ?_, .refl hcommitted⟩⟩
  · rw [← h]
    exact hc'
  · rw [h]
    exact hc

theorem GivesUp.claimWrite (hn : (t.claims.map Claim.key).Nodup) (h : GivesUp t t') :
    ClaimWrite D released t t' :=
  ⟨hn.sublist (h.sublist.map _), fun _ _ hc' _ => .kept (h.sublist.subset hc'),
    fun c hc hcommitted _ => ⟨c, h.committed c hc hcommitted, .refl hcommitted⟩⟩

/-! ### Reservations -/

theorem upsertClaim_keys (hn : (claims.map Claim.key).Nodup) :
    ((upsertClaim timestamp row claims).map Claim.key).Nodup := by
  unfold upsertClaim
  split
  · next hnone => exact Table.nodup_insert hn (Table.find_none.mp hnone)
  · split
    · rw [Table.map_key_put]
      exact hn
    · exact hn

/-- An upsert keeps a committed claim committed, for its holder. -/
theorem upsertClaim_kept (hn : (claims.map Claim.key).Nodup) :
    KeepsCommitted released claims (upsertClaim timestamp row claims) := by
  intro c hc hcommitted _
  unfold upsertClaim
  split
  · exact ⟨c, List.mem_append_left _ hc, .refl hcommitted⟩
  next d hfind =>
  obtain ⟨hd, -⟩ := Table.find_some hfind
  split
  · by_cases heq : c.key = d.key
    · rw [Table.eq_of_key hn hc hd heq] at hcommitted ⊢
      refine ⟨_, Table.mem_put.mpr (Or.inr ⟨rfl, d, hd, rfl⟩), rfl, rfl, rfl, ?_⟩
      rw [if_pos hcommitted]
      rfl
    · exact ⟨c, Table.mem_put.mpr (Or.inl ⟨hc, heq⟩), .refl hcommitted⟩
  · exact ⟨c, hc, .refl hcommitted⟩

theorem mem_upsertClaim (h : c' ∈ upsertClaim timestamp row claims) :
    c' ∈ claims ∨ c' = row ∨
      ∃ c ∈ claims, c.key = row.key ∧ (c.sameHolder row = true ∨ c.isExpired timestamp = true) ∧
        c' = { c with
          owner := row.owner, expiresAt := if c.isCommitted then none else row.expiresAt } := by
  unfold upsertClaim at h
  split at h
  · rcases List.mem_append.mp h with h | h
    · exact Or.inl h
    · exact Or.inr (Or.inl (List.mem_singleton.mp h))
  · next c hfind =>
    obtain ⟨hc, hkey⟩ := Table.find_some hfind
    split at h
    · next hmay =>
      rcases Table.mem_put.mp h with ⟨h, -⟩ | ⟨rfl, -⟩
      · exact Or.inl h
      · exact Or.inr (Or.inr ⟨c, hc, hkey, by simpa using hmay, rfl⟩)
    · exact Or.inl h

theorem reserveClaims_write {reservations : List ClaimReservation} {expiresAt : Instant}
    (hreleased : ∀ c c' : Claim, c.Kept c' → released c' → released c)
    (hn : (t.claims.map Claim.key).Nodup)
    (h : reserveResourceClaims reservations expiresAt timestamp t = some t') :
    ClaimWrite D released t t' := by
  obtain ⟨claims', hfold, rfl⟩ := Option.map_eq_some_iff.mp h
  -- the invariant of the fold over the reservations
  have key : ∀ (rs : List ClaimReservation) (claims : List Claim),
      rs.foldlM (reserveOne expiresAt timestamp) claims = some claims' →
      (claims.map Claim.key).Nodup →
      (claims'.map Claim.key).Nodup ∧ KeepsCommitted released claims claims' ∧
        ∀ c' ∈ claims', c'.isDependency = true → c' ∈ claims := by
    intro rs
    induction rs with
    | nil =>
      intro claims hf hclaims
      cases hf
      exact ⟨hclaims, fun c hc hcommitted _ => ⟨c, hc, .refl hcommitted⟩, fun c' hc' _ => hc'⟩
    | cons r rs ih =>
      intro claims hf hclaims
      rw [List.foldlM_cons] at hf
      obtain ⟨_, hone, hrest⟩ := Option.bind_eq_some_iff.mp hf
      unfold reserveOne at hone
      dsimp only at hone
      split at hone
      swap
      · cases hone
      cases hone
      obtain ⟨hnodup, hkept, hmem⟩ := ih _ hrest (upsertClaim_keys hclaims)
      refine ⟨hnodup, (upsertClaim_kept hclaims).trans hreleased hkept, fun c' hc' hdep => ?_⟩
      rcases mem_upsertClaim (hmem c' hc' hdep) with hold | rfl | ⟨c, -, hkey, -, rfl⟩
      · exact hold
      · cases hdep
      · have hdef : c.isDependency = true := hdep
        unfold Claim.isDependency at hdef
        rw [hkey] at hdef
        cases hdef
  obtain ⟨hnodup, hkept, hmem⟩ := key reservations _ hfold (Table.nodup_delete hn)
  have hexpired : KeepsCommitted released t.claims
      (Table.delete (fun c => c.isExpired timestamp) t.claims) :=
    .delete _ fun c hcommitted _ => Claim.isExpired_of_isCommitted hcommitted
  exact ⟨hnodup, fun _ c' hc' hdep => .kept (Table.mem_delete.mp (hmem c' hc' hdep)).1,
    hexpired.trans hreleased hkept⟩

theorem reserveDependencies_write
    (hreleased : ∀ c c' : Claim, c.Kept c' → released c' → released c) {leaseToken : String}
    {expiresAt : Instant} (hn : (t.claims.map Claim.key).Nodup)
    (h : reserveResourceDependencies D s leaseToken expiresAt timestamp t = some t') :
    ClaimWrite D released t t' := by
  unfold reserveResourceDependencies at h
  dsimp only at h
  split at h
  swap
  · cases h
  next hlive =>
  split at h
  swap
  · cases h
  cases h
  rw [List.all_eq_true] at hlive
  let base := Table.delete (fun c => c.isExpired timestamp && c.isDependency) t.claims
  let upsert := fun (claims : List Claim) (k : ClaimKey) => upsertClaim timestamp
    (dependencyRow s.tenantId s.holderUid (.lease leaseToken) expiresAt k) claims
  let reserved := fun c : Claim =>
    c.tenantId = s.tenantId ∧ c.key ∈ s.claimKeys D ∧ c.owner = .lease leaseToken
  -- the invariant of the fold over the keys
  have key : ∀ (keys : List ClaimKey) (claims : List Claim), (∀ k ∈ keys, k ∈ s.claimKeys D) →
      (claims.map Claim.key).Nodup → (∀ c ∈ claims, c ∈ base ∨ reserved c) →
      ((keys.foldl upsert claims).map Claim.key).Nodup ∧
        KeepsCommitted released claims (keys.foldl upsert claims) ∧
        ∀ c ∈ keys.foldl upsert claims, c ∈ base ∨ reserved c := by
    intro keys
    induction keys with
    | nil =>
      exact fun claims _ hclaims hfrom =>
        ⟨hclaims, fun c hc hcommitted _ => ⟨c, hc, .refl hcommitted⟩, hfrom⟩
    | cons k keys ih =>
      intro claims hkeys hclaims hfrom
      rw [List.foldl_cons]
      have hnext : ∀ c ∈ upsert claims k, c ∈ base ∨ reserved c := by
        intro c' hc'
        have hk := hkeys k List.mem_cons_self
        rcases mem_upsertClaim hc' with hold | rfl | ⟨c, hc, hkey, hmay, rfl⟩
        · exact hfrom c' hold
        · exact Or.inr ⟨rfl, hk, rfl⟩
        refine Or.inr ⟨?_, by rw [show c.key = k from hkey]; exact hk, rfl⟩
        rcases hmay with hsame | hexpired
        · exact (of_decide_eq_true hsame).1
        rcases hfrom c hc with hbase | hreserved
        · -- an expired dependency claim was deleted first
          have hkept := (Table.mem_delete.mp hbase).2
          have hck : c.key ∈ s.claimKeys D := by
            rw [hkey]
            exact hk
          rw [hexpired, DependencySet.isDependency_of_mem_claimKeys D hck] at hkept
          cases hkept
        · exact hreserved.1
      obtain ⟨hnodup, hkept, hall⟩ := ih _ (fun k' hk' => hkeys k' (List.mem_cons_of_mem _ hk'))
        (upsertClaim_keys hclaims) hnext
      exact ⟨hnodup, (upsertClaim_kept hclaims).trans hreleased hkept, hall⟩
  obtain ⟨hnodup, hkept, hfrom⟩ := key (s.claimKeys D) base (fun k hk => hk)
    (Table.nodup_delete hn) fun c hc => Or.inl hc
  have hexpired : KeepsCommitted released t.claims base :=
    .delete _ fun c hcommitted _ => by
      rw [Claim.isExpired_of_isCommitted hcommitted, Bool.false_and]
  refine ⟨hnodup, fun _ c' hc' _ => ?_, hexpired.trans hreleased hkept⟩
  rcases hfrom c' hc' with hbase | ⟨htenant, hkey, howner⟩
  · exact .kept (Table.mem_delete.mp hbase).1
  · refine .fenced (fun target edge hedge => ?_) (Or.inl ⟨_, howner⟩)
    rw [hedge] at hkey
    obtain ⟨f, hf, rfl⟩ := DependencySet.edge_mem_claimKeys D hkey
    rw [htenant]
    exact ⟨f.uid, rfl, Tables.targetIsLive_isLive (hlive f hf)⟩

/-! ### Dispatch, receipt and commit -/

/-- The claims an owner has are those of the set, when it has as many and each of them. -/
theorem ownsDependencies_mem
    (hD : Set.InjOn (D.target s.tenantId) {uid | ∃ f ∈ s.fences, f.uid = uid}) {q : Claim → Bool}
    (h : t.ownsDependencies D owner tenantId holderUid s p q = true)
    (hc : c ∈ t.claims) (hp : (c.ownedFor owner tenantId holderUid && c.isDependency && p c) = true) :
    c.key ∈ s.claimKeys D := by
  simp only [Tables.ownsDependencies, Bool.and_eq_true, decide_eq_true_eq, List.all_eq_true,
    List.any_eq_true] at h
  obtain ⟨hcount, hall⟩ := h
  let owned := t.claims.filter fun c =>
    c.ownedFor owner tenantId holderUid && c.isDependency && p c
  have hsub : s.claimKeys D ⊆ owned.map Claim.key := by
    intro k hk
    obtain ⟨c, hc, ⟨⟨hkey, howned⟩, hp⟩, -⟩ := hall k hk
    have hdep := DependencySet.isDependency_of_mem_claimKeys D (c := c) (s := s) (hkey ▸ hk)
    rw [← hkey]
    exact List.mem_map_of_mem (List.mem_filter.mpr ⟨hc, by rw [howned, hdep, hp]; rfl⟩)
  have hlength : (owned.map Claim.key).length ≤ (s.claimKeys D).length := by
    rw [List.length_map, ← hcount, List.countP_eq_length_filter]
  have hperm := (List.subperm_of_subset (s.claimKeys_nodup D hD) hsub).perm_of_length_le hlength
  exact hperm.mem_iff.mpr (List.mem_map_of_mem (List.mem_filter.mpr ⟨hc, hp⟩))

theorem mark_write (hn : (t.claims.map Claim.key).Nodup) (htenant : s.tenantId = i.tenantId)
    (hcurrent : dependenciesAreCurrent D i owner s timestamp t = true)
    (h : t'.claims = reownDependencies i owner timestamp t.claims) :
    ClaimWrite D released t t' := by
  simp only [dependenciesAreCurrent, Bool.and_eq_true, List.all_eq_true] at hcurrent
  obtain ⟨howns, hlive⟩ := hcurrent
  have hkeys : (t'.claims.map Claim.key) = t.claims.map Claim.key := by
    rw [h]
    exact Table.map_update (by intro c; rfl) _
  refine ⟨by rw [hkeys]; exact hn, fun hD c' hc' _ => ?_, ?_⟩
  swap
  · rw [h]
    refine .update _ fun c hcommitted => ⟨rfl, rfl, rfl, ?_⟩
    show (c.expiresAt.map fun _ => repairHorizon).isNone = true
    rw [Option.isNone_map]
    exact hcommitted
  rw [h] at hc'
  rcases Table.mem_update.mp hc' with ⟨hmem, -⟩ | ⟨c, hc, hp, rfl⟩
  · exact .kept hmem
  have hfence : ∀ f ∈ s.fences, t.IsLive s.tenantId f.uid := by
    intro f hf
    rw [htenant]
    exact Tables.targetIsLive_isLive (hlive f hf).1
  refine .fenced (fun target edge hedge => ?_) (Or.inr ?_)
  · have hfences : Set.InjOn (D.target s.tenantId) {uid | ∃ f ∈ s.fences, f.uid = uid} := by
      refine (hD s.tenantId).mono ?_
      rintro _ ⟨f, hf, rfl⟩
      exact (hfence f hf).hasUid
    have hkey := ownsDependencies_mem hfences howns hc hp
    simp only [Bool.and_eq_true, Claim.ownedFor, decide_eq_true_eq] at hp
    rw [show c.key = _ from hedge] at hkey
    obtain ⟨f, hf, rfl⟩ := DependencySet.edge_mem_claimKeys D hkey
    rw [show c.tenantId = s.tenantId from hp.1.1.2.1.trans htenant.symm]
    exact ⟨f.uid, rfl, hfence f hf⟩
  · cases hexpires : c.expiresAt with
    | none => exact Or.inl (by simp)
    | some _ => exact Or.inr (by simp)

theorem commitReserved_mem {dependency : Bool} (h : c' ∈ commitReserved owner i dependency claims) :
    c' ∈ claims ∨ ∃ c ∈ claims, c.owner = owner ∧ c.isDependency = dependency ∧
      c' = { c with expiresAt := none } := by
  rcases Table.mem_update.mp h with ⟨hmem, -⟩ | ⟨c, hc, hp, rfl⟩
  · exact Or.inl hmem
  · simp only [Bool.and_eq_true, Claim.ownedFor, decide_eq_true_eq, beq_iff_eq] at hp
    exact Or.inr ⟨c, hc, hp.1.1.1, hp.2, rfl⟩

theorem commitReserved_keys (owner : Owner) (i : SagaRef) (dependency : Bool)
    (claims : List Claim) :
    (commitReserved owner i dependency claims).map Claim.key = claims.map Claim.key :=
  Table.map_update (by intro c; rfl) _

theorem commitReserved_kept (owner : Owner) (i : SagaRef) (dependency : Bool) (claims : List Claim) :
    KeepsCommitted released claims (commitReserved owner i dependency claims) :=
  .commit _ _

theorem receipt_write (hreleased : ∀ c c' : Claim, c.Kept c' → released c' → released c)
    (hn : (t.claims.map Claim.key).Nodup)
    (hclaims : claims = t.claims ∨ ∃ owner, claims = commitReserved owner i false t.claims)
    (h : t'.claims = commitReserved (.operation i.operationId) i true claims) :
    ClaimWrite D released t t' := by
  have hkeys : claims.map Claim.key = t.claims.map Claim.key := by
    rcases hclaims with rfl | ⟨_, rfl⟩
    · rfl
    · exact commitReserved_keys ..
  have hold : ∀ c ∈ claims, c.isDependency = true → c ∈ t.claims := by
    rcases hclaims with rfl | ⟨_, rfl⟩
    · exact fun c hc _ => hc
    · intro c hc hdep
      rcases commitReserved_mem hc with hmem | ⟨d, -, -, hfalse, rfl⟩
      · exact hmem
      · rw [show d.isDependency = true from hdep] at hfalse
        cases hfalse
  have hkept : KeepsCommitted released t.claims claims := by
    rcases hclaims with rfl | ⟨_, rfl⟩
    · exact fun c hc hcommitted _ => ⟨c, hc, .refl hcommitted⟩
    · exact commitReserved_kept _ _ _ _
  refine ⟨by rw [h, commitReserved_keys, hkeys]; exact hn, fun _ c' hc' hdep => ?_,
    by rw [h]; exact hkept.trans hreleased (commitReserved_kept _ _ _ _)⟩
  rw [h] at hc'
  rcases commitReserved_mem hc' with hmem | ⟨c, hc, howner, hdep', rfl⟩
  · exact .kept (hold c' hmem hdep)
  · exact .committed c (hold c hc hdep') _ howner rfl

theorem claimCommit_mem {claimKeys : List String}
    (h : c' ∈ claimCommitStatements owner tenantId holderUid claimKeys claims)
    (hdep : c'.isDependency = true) : c' ∈ claims := by
  unfold claimCommitStatements at h
  split at h
  · exact (Table.mem_delete.mp h).1
  · rcases Table.mem_update.mp (Table.mem_delete.mp h).1 with ⟨hmem, -⟩ | ⟨c, -, hp, rfl⟩
    · exact hmem
    · simp only [Bool.and_eq_true, decide_eq_true_eq, List.mem_map] at hp
      obtain ⟨-, k, -, hk⟩ := hp
      have hdef : c.isDependency = true := hdep
      unfold Claim.isDependency at hdef
      rw [← hk] at hdef
      cases hdef

theorem claimCommit_keys (owner : Owner) (tenantId holderUid : String) (claimKeys : List String)
    (hn : (claims.map Claim.key).Nodup) :
    ((claimCommitStatements owner tenantId holderUid claimKeys claims).map Claim.key).Nodup := by
  unfold claimCommitStatements
  split
  · exact Table.nodup_delete hn
  · refine Table.nodup_delete ?_
    rw [Table.map_update (by intro c; rfl)]
    exact hn

/-- The committed claims of a holder. -/
def Claim.heldBy (tenantId holderUid : String) (c : Claim) : Prop :=
  c.tenantId = tenantId ∧ c.holderUid = holderUid

theorem Claim.Kept.heldBy (h : c.Kept c') (hheld : c'.heldBy tenantId holderUid) :
    c.heldBy tenantId holderUid :=
  ⟨h.tenantId ▸ hheld.1, h.holderUid ▸ hheld.2⟩

theorem Claim.decide_heldBy (h : ¬c.heldBy tenantId holderUid) :
    decide (c.tenantId = tenantId ∧ c.holderUid = holderUid) = false :=
  decide_eq_false h

/-- What a commit makes of the Definition claims of other holders. -/
theorem claimCommit_kept (owner : Owner) (tenantId holderUid : String) (claimKeys : List String)
    (claims : List Claim) :
    KeepsCommitted (Claim.heldBy tenantId holderUid) claims
      (claimCommitStatements owner tenantId holderUid claimKeys claims) := by
  unfold claimCommitStatements
  split
  · refine .delete _ fun c hcommitted hother => ?_
    rw [Claim.isReserved_of_isCommitted hcommitted, Bool.and_false, Bool.or_false,
      Claim.decide_heldBy hother, Bool.and_false]
  · refine KeepsCommitted.trans (fun c c' hkept => hkept.heldBy)
      (.commit _ _) (.delete _ fun c _ hother => ?_)
    rw [Claim.decide_heldBy hother, Bool.false_and, Bool.false_and]

theorem commit_write {m : Mutation} {operationId : String} {claimOwner : Owner}
    (hn : (t.claims.map Claim.key).Nodup)
    (h : t'.claims = m.writeClaims claimOwner operationId t.claims) :
    ClaimWrite D (Claim.heldBy m.address.tenantId m.resourceUid) t t' := by
  unfold Mutation.writeClaims at h
  split at h
  · exact .of_eq hn h
  · next claimKeys _ =>
    have hbase := claimCommit_keys claimOwner m.address.tenantId m.resourceUid claimKeys hn
    refine ⟨?_, fun _ c' hc' hdep => ?_, ?_⟩
    rotate_left
    rotate_left
    · rw [h]
      refine (claimCommit_kept _ _ _ _ _).trans (fun c c' hkept => hkept.heldBy)
        (KeepsCommitted.trans (fun c c' hkept => hkept.heldBy)
          (.commit _ _) (.delete _ fun c _ hother => ?_))
      rw [Claim.decide_heldBy hother, Bool.false_and, Bool.false_and]
    · rw [h]
      refine Table.nodup_delete ?_
      rw [Table.map_update (by intro c; rfl)]
      exact hbase
    · rw [h] at hc'
      rcases Table.mem_update.mp (Table.mem_delete.mp hc').1 with ⟨hmem, -⟩ | ⟨c, hc, hp, rfl⟩
      · exact .kept (claimCommit_mem hmem hdep)
      · simp only [Bool.and_eq_true, Claim.ownedFor, decide_eq_true_eq] at hp
        exact .committed c (claimCommit_mem hc hdep) _ hp.1.1 rfl
  · refine ⟨?_, fun _ c' hc' hdep => ?_, ?_⟩
    · rw [h]
      exact Table.nodup_delete (claimCommit_keys _ _ _ _ hn)
    · rw [h] at hc'
      exact .kept (claimCommit_mem (Table.mem_delete.mp hc').1 hdep)
    · rw [h]
      refine (claimCommit_kept _ _ _ _ _).trans (fun c c' hkept => hkept.heldBy)
        (.delete _ fun c _ hother => ?_)
      rw [Claim.decide_heldBy hother, Bool.false_and]

/-- The committed claims a call may remove: those of the holder it commits, or retires. -/
def Call.releases : Call → Claim → Prop
  | .commitImmediate m _ _ _ | .commitDeferred _ m _ _ _ =>
    Claim.heldBy m.address.tenantId m.resourceUid
  | .releaseCommittedClaims tenantId holderUid => Claim.heldBy tenantId holderUid
  | _ => fun _ => False

/-- **What a call does to the claims.** -/
theorem Call.apply_claims {call : Call} (hn : (t.claims.map Claim.key).Nodup)
    (hr : (t.resources.map Resource.address).Nodup)
    (h : call.apply D timestamp t = some t') : ClaimWrite D call.releases t t' := by
  -- by the call: its frame says which statement met the claims
  cases call with
  | acceptSaga => exact .of_eq hn (accept_frame h).2
  | rotateReplayKey =>
    obtain ⟨⟨_, u⟩, hu, rfl⟩ := Option.map_eq_some_iff.mp h
    exact .of_eq hn (rotate_frame hu).2
  | bindApply =>
    cases h
    exact .of_eq hn (bindApply_frame ..).2
  | bindImport =>
    cases h
    exact .of_eq hn (bindImport_frame ..).2
  | markDispatch =>
    obtain ⟨⟨_, u⟩, hu, rfl⟩ := Option.map_eq_some_iff.mp h
    rcases (mark_frame hu).2 with hsame | ⟨s, _, -, htenant, hcurrent, hclaims⟩
    · exact .of_eq hn hsame
    · exact mark_write hn htenant hcurrent hclaims
  | recordReceipt =>
    obtain ⟨-, _, hclaims, hcommit⟩ := receipt_frame h
    exact receipt_write (fun _ _ _ h => h) hn hclaims hcommit
  | abandonPlan i replayKey | settleImport i replayKey leaseToken =>
    obtain ⟨⟨_, u⟩, hu, rfl⟩ := Option.map_eq_some_iff.mp h
    exact .of_eq hn (deleteSaga_frame hu).2
  | settlePrecondition =>
    obtain ⟨⟨_, u⟩, hu, rfl⟩ := Option.map_eq_some_iff.mp h
    exact .of_eq hn (precondition_frame hu).2
  | commitDefinitiveFailure =>
    obtain ⟨⟨_, u⟩, hu, rfl⟩ := Option.map_eq_some_iff.mp h
    exact (definitiveFailure_frame hu).2.claims.claimWrite hn
  | reserveIncarnation =>
    cases h
    unfold reserveResourceIncarnation
    split <;> exact .of_eq hn rfl
  | recordEffect =>
    cases h
    unfold recordResourceEffect insertEffect
    split
    · split <;> exact .of_eq hn rfl
    · exact .of_eq hn rfl
  | prepareDeletion =>
    exact .of_eq hn (prepareDeletion_frame h).2.2.1
  | releaseIncarnation =>
    rcases releaseIncarnation_eq h with rfl | ⟨-, -, hsub, -⟩
    · exact .of_eq hn rfl
    · exact hsub.claimWrite hn
  | reserveClaims => exact reserveClaims_write (fun _ _ _ h => h) hn h
  | releaseClaims =>
    cases h
    refine GivesUp.claimWrite hn (.delete (fun c hc => ?_) rfl)
    simp only [Bool.and_eq_true] at hc
    exact hc.1.2
  | releaseCommittedClaims =>
    cases h
    refine ⟨Table.nodup_delete hn, fun _ c hc _ => .kept (Table.mem_delete.mp hc).1,
      .delete _ fun c _ hother => ?_⟩
    rw [Claim.decide_heldBy hother, Bool.false_and]
  | reserveDependencies =>
    exact reserveDependencies_write (fun _ _ _ h => h) hn h
  | releaseDependencies =>
    cases h
    refine GivesUp.claimWrite hn (.delete (fun c hc => ?_) rfl)
    simp only [Bool.and_eq_true] at hc
    exact hc.1.2
  | acceptOperation =>
    unfold Call.apply acceptDeferredOperation at h
    dsimp only at h
    repeat' split at h
    all_goals cases h
    all_goals exact .of_eq hn rfl
  | commitImmediate =>
    exact commit_write hn (commitImmediate_result hr h).2.2.claims
  | commitDeferred =>
    exact commit_write hn (commitDeferred_result hr h).2.2.2.claims
  | _ =>
    cases h
    exact .of_eq hn rfl

end Claims

end Takoserver.V1
