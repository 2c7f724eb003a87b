import Takoserver.V1.Store

/-!
# What the batches leave alone

One lemma for each batch that touches more than one table: what it keeps, and
what it checked.  The proofs about runs use these and do not unfold a batch
again.
-/

namespace Takoserver.V1

/-! ### Frames of the statements on a saga -/

/-- A command that is kept without an end. -/
def Operation.retained (o : Operation) : Operation := { o with expiresAt := repairHorizon }

/-- What the statements on a saga leave alone: they retain a command, and touch claims and
effects, at most. -/
structure SagaFrame (t t' : Tables) : Prop where
  resources : t'.resources = t.resources
  attestations : t'.attestations = t.attestations
  evidence : t'.evidence = t.evidence
  operations : ∃ p, t'.operations = Table.update p Operation.retained t.operations
  operationSerial : t'.operationSerial = t.operationSerial

section Frames

variable {D : Digests} {timestamp : Instant} {t t' : Tables}

theorem SagaFrame.of_eq (hr : t'.resources = t.resources) (ha : t'.attestations = t.attestations)
    (he : t'.evidence = t.evidence) (ho : t'.operations = t.operations)
    (hs : t'.operationSerial = t.operationSerial) : SagaFrame t t' :=
  ⟨hr, ha, he, ⟨fun _ => false, by rw [ho, Table.update_eq_self fun _ _ => rfl]⟩, hs⟩

theorem SagaFrame.refl (t : Tables) : SagaFrame t t := .of_eq rfl rfl rfl rfl rfl

variable {deleted elsewhere : Bool} {i : SagaRef} {leaseToken : String}
  {tenantUid : String × String} {address : Address} {c : DefinitiveFailure} {m : Mutation}

theorem deleteSaga_frame {p : Saga → Bool} (h : deleteSaga p t = some (deleted, t')) :
    SagaFrame t t' ∧ t'.claims = t.claims := by
  unfold deleteSaga at h
  split at h
  · cases h
  · cases h
    exact ⟨.of_eq rfl rfl rfl rfl rfl, rfl⟩

theorem retainCommand_frame (i : SagaRef) (p : Saga → Bool) (q : Operation → Bool)
    {u : Tables} (hu : SagaFrame t u) (ho : u.operations = t.operations) :
    SagaFrame t (retainCommand i p q u) ∧ (retainCommand i p q u).claims = u.claims := by
  unfold retainCommand
  split
  · refine ⟨⟨hu.resources, hu.attestations, hu.evidence, ?_, hu.operationSerial⟩, rfl⟩
    rw [← ho]
    exact ⟨_, rfl⟩
  · exact ⟨hu, rfl⟩

theorem accept_frame {record : SagaRecord} {legacy : Bool}
    (h : acceptProviderMutationSaga record legacy t = some t') :
    SagaFrame t t' ∧ t'.claims = t.claims := by
  unfold acceptProviderMutationSaga at h
  split at h
  · cases h
    exact ⟨.refl t, rfl⟩
  split at h
  · cases h
  split at h
  · cases h
    exact ⟨.refl t, rfl⟩
  · cases h
    exact ⟨.of_eq rfl rfl rfl rfl rfl, rfl⟩

theorem rotate_frame {stored : SagaRecord} {replayKey : String} {changed : Bool}
    (h : rotateReplayKey stored replayKey t = some (changed, t')) :
    SagaFrame t t' ∧ t'.claims = t.claims := by
  unfold rotateReplayKey at h
  dsimp only at h
  split at h
  · cases h
  · cases h
    exact ⟨.of_eq rfl rfl rfl rfl rfl, rfl⟩

theorem bindApply_frame (i : SagaRef) (fingerprint leaseToken : String) (mode : Mode)
    (selectionJson : String) (t : Tables) :
    SagaFrame t (bindProviderMutationApplySelection i fingerprint leaseToken mode selectionJson
      timestamp t).2 ∧
    (bindProviderMutationApplySelection i fingerprint leaseToken mode selectionJson
      timestamp t).2.claims = t.claims :=
  retainCommand_frame i _ _ (.of_eq rfl rfl rfl rfl rfl) rfl

theorem bindImport_frame (i : SagaRef) (fingerprint leaseToken : String) (mode : Mode)
    (selection : ImportSelection) (elsewhere : Bool) (t : Tables) :
    SagaFrame t (bindProviderMutationImportSelection i fingerprint leaseToken mode selection
      elsewhere timestamp t).2 ∧
    (bindProviderMutationImportSelection i fingerprint leaseToken mode selection
      elsewhere timestamp t).2.claims = t.claims :=
  retainCommand_frame i _ _ (.of_eq rfl rfl rfl rfl rfl) rfl

/-- A dispatch re-owns the dependencies it was made with, which were current. -/
theorem mark_frame {mode : Mode} {dependencies : Option (DependencySet × Owner)} {marked : Bool}
    (h : markProviderMutationDispatch D i leaseToken mode dependencies timestamp t =
      some (marked, t')) :
    SagaFrame t t' ∧
      (t'.claims = t.claims ∨ ∃ s owner, dependencies = some (s, owner) ∧
        s.tenantId = i.tenantId ∧ dependenciesAreCurrent D i owner s timestamp t = true ∧
        t'.claims = reownDependencies i owner timestamp t.claims) := by
  unfold markProviderMutationDispatch at h
  dsimp only at h
  split at h
  · cases h
  split at h
  · cases h
  next hcurrent =>
  split at h
  · cases h
  injection h with h
  have ht' : _ = t' := congrArg Prod.snd h
  subst ht'
  cases dependencies with
  | none =>
    obtain ⟨hframe, hclaims⟩ := retainCommand_frame (t := t) i
      (fun r => r.isPlanned && r.executionStartedAt.isSome &&
        r.lease.any fun l => decide (l.token = leaseToken)) (fun _ => true)
      (u := (updateSaga (Saga.isDispatchable i leaseToken mode timestamp)
        (Saga.dispatched timestamp) t).2) (.of_eq rfl rfl rfl rfl rfl) rfl
    exact ⟨hframe, Or.inl hclaims⟩
  | some d =>
    obtain ⟨hframe, hclaims⟩ := retainCommand_frame (t := t) i
      (fun r => r.isPlanned && r.executionStartedAt.isSome &&
        r.lease.any fun l => decide (l.token = leaseToken)) (fun _ => true)
      (u := { (updateSaga (Saga.isDispatchable i leaseToken mode timestamp)
        (Saga.dispatched timestamp) t).2 with
          claims := reownDependencies i d.2 timestamp t.claims }) (.of_eq rfl rfl rfl rfl rfl) rfl
    simp only [Option.all_some, Bool.and_eq_true, decide_eq_true_eq, Bool.not_eq_true',
      Bool.not_eq_false] at hcurrent
    exact ⟨hframe, Or.inr ⟨d.1, d.2, rfl, hcurrent.1.2.1, hcurrent.2, hclaims⟩⟩

/-- A receipt commits the reserved claims of its operation, and those of the claim owner. -/
theorem receipt_frame {receiptJson : String} {authorityHeadDigest : Option String}
    {claimOwner : Option Owner}
    (h : recordProviderMutationReceipt i leaseToken authorityHeadDigest claimOwner receiptJson
      timestamp t = some t') :
    SagaFrame t t' ∧ ∃ claims,
      (claims = t.claims ∨ ∃ owner, claims = commitReserved owner i false t.claims) ∧
        t'.claims = commitReserved (.operation i.operationId) i true claims := by
  unfold recordProviderMutationReceipt at h
  dsimp only at h
  split at h
  · cases h
  · cases h
    refine ⟨⟨rfl, rfl, rfl, ⟨_, rfl⟩, rfl⟩, _, ?_, rfl⟩
    cases claimOwner with
    | none => exact Or.inl rfl
    | some owner => exact Or.inr ⟨owner, rfl⟩

theorem precondition_frame {action : Option RecoveryAction}
    (h : settleProviderMutationPreconditionFailure i leaseToken action timestamp t =
      some (deleted, t')) : SagaFrame t t' ∧ t'.claims = t.claims := by
  unfold settleProviderMutationPreconditionFailure at h
  dsimp only at h
  split at h
  · cases h
    exact ⟨.refl t, rfl⟩
  · obtain ⟨hframe, hclaims⟩ := deleteSaga_frame h
    exact ⟨⟨hframe.resources, hframe.attestations, hframe.evidence, hframe.operations,
      hframe.operationSerial⟩, hclaims⟩

/-! ### Incarnations that end -/

/-- What is left of the attestations when those of one incarnation may change: no other does, and
no new one appears. -/
structure AttestationFrame (tenantUid : String × String) (t t' : Tables) : Prop where
  kept : ∀ a, a.tenantUid ≠ tenantUid → (a ∈ t'.attestations ↔ a ∈ t.attestations)
  keys : (t'.attestations.map Attestation.tenantUid).Sublist
    (t.attestations.map Attestation.tenantUid)

theorem AttestationFrame.update {p : Attestation → Bool} {f : Attestation → Attestation}
    (hp : ∀ a, p a = true → a.tenantUid = tenantUid) (hf : ∀ a, (f a).tenantUid = a.tenantUid)
    (h : t'.attestations = Table.update p f t.attestations) : AttestationFrame tenantUid t t' where
  kept := by
    intro a hne
    rw [h, Table.mem_update]
    constructor
    · rintro (⟨ha, -⟩ | ⟨b, -, hb, rfl⟩)
      · exact ha
      · exact absurd ((hf b).trans (hp b hb)) hne
    · intro ha
      refine Or.inl ⟨ha, ?_⟩
      cases hpa : p a
      · rfl
      · exact absurd (hp a hpa) hne
  keys := by rw [h, Table.map_update hf]

theorem AttestationFrame.delete {p : Attestation → Bool}
    (hp : ∀ a, p a = true → a.tenantUid = tenantUid)
    (h : t'.attestations = Table.delete p t.attestations) : AttestationFrame tenantUid t t' where
  kept := by
    intro a hne
    rw [h, Table.mem_delete]
    refine ⟨fun ha => ha.1, fun ha => ⟨ha, ?_⟩⟩
    cases hpa : p a
    · rfl
    · exact absurd (hp a hpa) hne
  keys := by
    rw [h]
    exact List.filter_sublist.map _

theorem AttestationFrame.trans {t'' : Tables} (h : AttestationFrame tenantUid t t')
    (h' : AttestationFrame tenantUid t' t'') :
    AttestationFrame tenantUid t t'' :=
  ⟨fun a hne => (h'.kept a hne).trans (h.kept a hne), h'.keys.trans h.keys⟩

/-- Some reserved claims go. -/
structure GivesUp (t t' : Tables) : Prop where
  sublist : t'.claims.Sublist t.claims
  committed : ∀ c ∈ t.claims, c.isCommitted = true → c ∈ t'.claims

theorem GivesUp.of_eq (h : t'.claims = t.claims) : GivesUp t t' :=
  ⟨by rw [h], fun c hc _ => by rw [h]; exact hc⟩

theorem GivesUp.trans {t'' : Tables} (h : GivesUp t t') (h' : GivesUp t' t'') : GivesUp t t'' :=
  ⟨h'.sublist.trans h.sublist, fun c hc hcommitted =>
    h'.committed c (h.committed c hc hcommitted) hcommitted⟩

theorem GivesUp.delete {p : Claim → Bool} (hp : ∀ c, p c = true → c.isReserved = true)
    (h : t'.claims = Table.delete p t.claims) : GivesUp t t' := by
  refine ⟨by rw [h]; exact List.filter_sublist, fun c hc hcommitted => ?_⟩
  rw [h, Table.mem_delete]
  refine ⟨hc, Bool.eq_false_iff.mpr fun hpc => ?_⟩
  have hreserved := hp c hpc
  rw [Claim.isReserved, Option.isSome_iff_ne_none] at hreserved
  exact hreserved (Option.isNone_iff_eq_none.mp hcommitted)

/-- An incarnation that was never committed is released, or nothing is. -/
theorem releaseIncarnation_eq {tenantId resourceUid effectId : String}
    (h : uncommittedResourceIncarnationRelease tenantId resourceUid effectId elsewhere t =
      some t') :
    t' = t ∨
      t.hasUid tenantId resourceUid = false ∧ AttestationFrame (tenantId, resourceUid) t t' ∧
        GivesUp t t' ∧ t'.resources = t.resources ∧ t'.evidence = t.evidence ∧
        t'.operations = t.operations ∧ t'.operationSerial = t.operationSerial := by
  unfold uncommittedResourceIncarnationRelease at h
  split at h
  · next hfence =>
    split at h
    · cases h
    · cases h
      simp only [isUncommitted, Bool.and_eq_true, Bool.not_eq_true'] at hfence
      refine Or.inr ⟨hfence.1.1.1, ?_, .delete (fun c hc => ?_) rfl, rfl, rfl, rfl, rfl⟩
      swap
      · simp only [Bool.and_eq_true] at hc
        exact hc.1.2
      exact .delete (fun a ha => (of_decide_eq_true ha).1) rfl
  · cases h
    exact Or.inl rfl

theorem prepareDeletion_frame {resourceUid : String} {formRef : FormRef}
    (h : prepareResourceDeletion D address resourceUid formRef elsewhere timestamp t = some t') :
    t'.resources = t.resources ∧ t'.evidence = t.evidence ∧ t'.claims = t.claims ∧
      t'.operations = t.operations ∧ t'.operationSerial = t.operationSerial := by
  have harm : ∀ u, armDeletion address resourceUid formRef t = u →
      u.resources = t.resources ∧ u.evidence = t.evidence ∧ u.claims = t.claims ∧
        u.operations = t.operations ∧ u.operationSerial = t.operationSerial := by
    rintro u rfl
    unfold armDeletion
    split <;> exact ⟨rfl, rfl, rfl, rfl, rfl⟩
  unfold prepareResourceDeletion at h
  split at h
  · dsimp only at h
    split at h
    · cases h
      exact harm _ rfl
    · cases h
  · cases h

theorem reserveDependencies_frame {s : DependencySet} {expiresAt : Instant}
    (h : reserveResourceDependencies D s leaseToken expiresAt timestamp t = some t') :
    t'.resources = t.resources ∧ t'.evidence = t.evidence ∧ t'.attestations = t.attestations ∧
      t'.operations = t.operations ∧ t'.operationSerial = t.operationSerial := by
  unfold reserveResourceDependencies at h
  dsimp only at h
  split at h
  · split at h
    · cases h
      exact ⟨rfl, rfl, rfl, rfl, rfl⟩
    · cases h
  · cases h

/-- The tables of a failure whose incarnation may end: it has no Resource. -/
structure FailureFrame (tenantId resourceUid : String) (t t' : Tables) : Prop where
  resources : t'.resources = t.resources
  evidence : t'.evidence = t.evidence
  claims : GivesUp t t'
  operationSerial : t'.operationSerial = t.operationSerial
  attestations : t'.attestations = t.attestations ∨
    t.hasUid tenantId resourceUid = false ∧ AttestationFrame (tenantId, resourceUid) t t'

/-- The stages of a definitive failure. -/
theorem definitiveFailure_stages
    (h : commitDefinitiveProviderMutationFailure D c elsewhere timestamp t = some (deleted, t')) :
    c.isWellFormed = true ∧ c.initialFence D elsewhere timestamp t = true ∧
      ∃ u, (if c.create && c.compensation.isNone then
          uncommittedResourceIncarnationRelease c.saga.target.tenantId c.saga.resourceUid
            c.saga.operationId elsewhere (c.conclude t)
        else some (c.conclude t)) = some u ∧
        t'.resources = u.resources ∧ t'.evidence = u.evidence ∧ t'.claims = u.claims ∧
        t'.attestations = u.attestations ∧ t'.operationSerial = u.operationSerial ∧
        t'.operations = c.failOperation timestamp u.operations ∧ t'.effects = u.effects := by
  unfold commitDefinitiveProviderMutationFailure at h
  split at h
  · cases h
  next hfences =>
  simp only [Bool.not_eq_true', Bool.not_eq_false, Bool.and_eq_true] at hfences
  obtain ⟨u, hreleased, h⟩ := Option.bind_eq_some_iff.mp h
  obtain ⟨⟨_, v⟩, hdelete, h⟩ := Option.bind_eq_some_iff.mp h
  refine ⟨hfences.1, hfences.2, u, hreleased, ?_⟩
  unfold deleteSaga at hdelete
  split at hdelete
  · cases hdelete
  · cases hdelete
    dsimp only at h
    split at h
    · cases h
      exact ⟨rfl, rfl, rfl, rfl, rfl, rfl, rfl⟩
    · cases h

/-- What a compensation ends has no Resource, and nothing is at its address. -/
theorem compensation_vacant (hwell : c.isWellFormed = true)
    (hfence : c.initialFence D elsewhere timestamp t = true)
    (hcompensated : c.compensation.isSome = true) :
    t.hasUid c.saga.target.tenantId c.saga.resourceUid = false ∧
      t.resourceAt c.saga.target = none ∧
      (t.attests c.saga.target.tenantId c.saga.resourceUid fun a =>
        decide (a.address = c.saga.target)) = true := by
  obtain ⟨s, hs⟩ := Option.isSome_iff_exists.mp hcompensated
  have hnew : c.saga.accepted = none := by
    simp only [DefinitiveFailure.isWellFormed, hs, Bool.and_eq_true, Bool.or_eq_true,
      Option.isNone_iff_eq_none, decide_eq_true_eq, Option.isSome_some] at hwell
    obtain ⟨⟨⟨⟨⟨-, haction⟩, hiff⟩, -⟩, -⟩, -⟩ := hwell
    rcases haction with haction | haction
    · rw [haction] at hiff
      simp at hiff
    · exact haction.2
  simp only [DefinitiveFailure.initialFence, DefinitiveFailure.fencesResource, hnew, hs,
    Bool.and_eq_true, Bool.not_eq_true', Option.isNone_iff_eq_none,
    DefinitiveFailure.fencesAttempt, Tables.attests, List.any_eq_true] at hfence
  obtain ⟨⟨⟨-, hvacant, huid⟩, ⟨⟨⟨a, ha, hkey, hlive, -⟩, -⟩, -⟩, -⟩, -⟩ := hfence
  refine ⟨huid, hvacant, List.any_eq_true.mpr ⟨a, ha, ?_⟩⟩
  rw [hkey, Bool.true_and]
  exact decide_eq_true (of_decide_eq_true hlive).1

theorem conclude_attestations :
    AttestationFrame (c.saga.target.tenantId, c.saga.resourceUid) t (c.conclude t) ∧
      (c.compensation = none → (c.conclude t).attestations = t.attestations) := by
  refine ⟨.update (f := fun a => { a with state := .cancelled }) (fun a ha => ?_) (fun a => rfl) rfl,
    fun hnone => ?_⟩
  · simp only [Bool.and_eq_true, decide_eq_true_eq] at ha
    exact ha.1.1
  · refine Table.update_eq_self fun a _ => ?_
    simp [hnone]

/-- A definitive failure ends an incarnation without a Resource. -/
theorem definitiveFailure_frame
    (h : commitDefinitiveProviderMutationFailure D c elsewhere timestamp t = some (deleted, t')) :
    t'.operations = c.failOperation timestamp t.operations ∧
      FailureFrame c.saga.target.tenantId c.saga.resourceUid t t' := by
  obtain ⟨hwell, hfence, u, hu, hres, hev, hcla, hat, hser, hops, -⟩ := definitiveFailure_stages h
  obtain ⟨hconclude, hsame⟩ := conclude_attestations (c := c) (t := t)
  have hgiven : GivesUp t (c.conclude t) := by
    refine .delete (p := c.givesUp) (fun d hd => ?_) rfl
    simp only [DefinitiveFailure.givesUp, Bool.and_eq_true] at hd
    exact hd.1.2
  split at hu
  · next hcreate =>
    simp only [Bool.and_eq_true, Option.isNone_iff_eq_none] at hcreate
    rcases releaseIncarnation_eq hu with rfl | ⟨huid, hframe, hsub, hres', hev', hops', hser'⟩
    · exact ⟨hops, hres, hev, hgiven.trans (.of_eq hcla), hser,
        Or.inl (hat.trans (hsame hcreate.2))⟩
    · refine ⟨by rw [hops, hops']; rfl, hres.trans hres', hev.trans hev',
        (hgiven.trans hsub).trans (.of_eq hcla), hser.trans hser', Or.inr ⟨huid, ?_⟩⟩
      have hframe' := hconclude.trans hframe
      exact ⟨by rw [hat]; exact hframe'.kept, by rw [hat]; exact hframe'.keys⟩
  · cases hu
    refine ⟨hops, hres, hev, hgiven.trans (.of_eq hcla), hser, ?_⟩
    cases hcomp : c.compensation with
    | none => exact Or.inl (hat.trans (hsame hcomp))
    | some s =>
      refine Or.inr ⟨(compensation_vacant hwell hfence (by rw [hcomp]; rfl)).1, ?_, ?_⟩
      · rw [hat]
        exact hconclude.kept
      · rw [hat]
        exact hconclude.keys

/-! ### Commits -/

/-- Everything a commit checks and writes. -/
structure CommitResult (D : Digests) (m : Mutation) (operationId : String) (claimOwner : Owner)
    (fencesRevision creates : Bool) (current : Resource → Bool) (timestamp : Instant)
    (t t' : Tables) : Prop where
  dependencies : m.dependencyGuard D operationId t = true
  ownsClaims : t.ownsClaims claimOwner m.address.tenantId m.resourceUid m.claimKeys = true
  effectFence : m.effectFence operationId t = true
  evidenceFence : m.evidenceFence operationId fencesRevision t = true
  resources : t'.resources = m.writeResource creates current t.resources
  replays : t'.replays = m.writeReplay timestamp t.replays
  claims : t'.claims = m.writeClaims claimOwner operationId t.claims
  operationSerial : t'.operationSerial = t.operationSerial
  attestations : t'.attestations = t.attestations ∨
    m.isDelete = true ∧ AttestationFrame (m.address.tenantId, m.resourceUid) t t'
  evidence : t'.evidence = t.evidence ++ if m.isUnchanged then [] else
    [{ tenantId := m.address.tenantId, resourceUid := m.resourceUid, operationId,
       sequence := Mutation.nextSequence (m.address.tenantId, m.resourceUid) t.evidence,
       action := m.action, resourceGeneration := (m.version t).1,
       resourceRevision := (m.version t).2 }]
  /-- The trigger: a create is the first row of its Resource. -/
  first : m.isUnchanged = false → m.action = .create →
    Mutation.nextSequence (m.address.tenantId, m.resourceUid) t.evidence = 1
  /-- The other trigger: nothing follows a delete. -/
  last : m.isUnchanged = false → ∀ e ∈ t.evidence,
    e.tenantUid = (m.address.tenantId, m.resourceUid) → e.action ≠ .delete

theorem concludeEffect_eq (m : Mutation) (operationId : String) (kind : OperationKind)
    (t : Tables) :
    m.concludeEffect operationId kind t =
      { t with effects := (m.concludeEffect operationId kind t).effects } := by
  have heffect : ∀ e : Effect,
      insertEffect e t = { t with effects := (insertEffect e t).effects } := by
    intro e
    unfold insertEffect
    split <;> rfl
  unfold Mutation.concludeEffect
  split
  · rfl
  · exact heffect _
  · exact heffect _

theorem closeTombstone_eq (m : Mutation) (operationId : String) (t : Tables) :
    m.closeTombstone operationId t =
        { t with attestations := (m.closeTombstone operationId t).attestations } ∧
      ((m.closeTombstone operationId t).attestations = t.attestations ∨
        m.isDelete = true ∧ AttestationFrame (m.address.tenantId, m.resourceUid) t
          (m.closeTombstone operationId t)) := by
  unfold Mutation.closeTombstone
  split
  · next h =>
    simp only [Bool.and_eq_true] at h
    refine ⟨rfl, Or.inr ⟨h.1.1, .update (f := fun a => { a with state := .closed })
      (fun a ha => ?_) (fun a => rfl) rfl⟩⟩
    exact (of_decide_eq_true ha).1
  · exact ⟨rfl, Or.inl rfl⟩

variable {operationId : String}

/-- **What a commit does.** -/
theorem commitStatements_eq {kind : OperationKind} {claimOwner : Owner}
    {fencesRevision creates : Bool} {fence : Tables → Bool} {current : Resource → Bool}
    {finish : List Operation → List Operation}
    (h : commitStatements D m operationId kind claimOwner fencesRevision fence creates current
      finish timestamp t = some t') :
    fence t = true ∧ t'.operations = finish t.operations ∧
      CommitResult D m operationId claimOwner fencesRevision creates current timestamp t t' ∧
        t'.effects = (m.concludeEffect operationId kind t).effects ∧ t'.attestations =
          (m.closeTombstone operationId (m.concludeEffect operationId kind t)).attestations := by
  unfold commitStatements at h
  split at h
  swap
  · cases h
  next hguards =>
  simp only [Bool.and_eq_true] at hguards
  obtain ⟨⟨⟨⟨hdep, hfence⟩, howns⟩, heffect⟩, hevidence⟩ := hguards
  obtain ⟨u, hu, hretire⟩ := Option.bind_eq_some_iff.mp h
  have hconclude := concludeEffect_eq m operationId kind t
  obtain ⟨hclose, hatt⟩ :=
    closeTombstone_eq m operationId (m.concludeEffect operationId kind t)
  rw [hconclude] at hclose
  -- the tables when the statements on the Resource begin
  have hrecorded : u.resources = t.resources ∧ u.replays = t.replays ∧ u.claims = t.claims ∧
      u.operations = t.operations ∧ u.operationSerial = t.operationSerial ∧
      u.attestations =
        (m.closeTombstone operationId (m.concludeEffect operationId kind t)).attestations ∧
      u.evidence = (t.evidence ++ if m.isUnchanged then [] else
        [{ tenantId := m.address.tenantId, resourceUid := m.resourceUid, operationId,
           sequence := Mutation.nextSequence (m.address.tenantId, m.resourceUid) t.evidence,
           action := m.action, resourceGeneration := (m.version t).1,
           resourceRevision := (m.version t).2 }]) ∧
      (m.isUnchanged = false → m.action = .create →
        Mutation.nextSequence (m.address.tenantId, m.resourceUid) t.evidence = 1) ∧
      (m.isUnchanged = false → ∀ e ∈ t.evidence,
        e.tenantUid = (m.address.tenantId, m.resourceUid) → e.action ≠ .delete) ∧
      u.effects = (m.concludeEffect operationId kind t).effects := by
    rw [hconclude, hclose] at hu
    unfold Mutation.recordEvidence at hu
    dsimp only at hu
    split at hu
    · next hunchanged =>
      cases hu
      exact ⟨rfl, rfl, rfl, rfl, rfl, by rw [hconclude], by simp [hunchanged],
        by simp [hunchanged], by simp [hunchanged], rfl⟩
    · next hchanged =>
      split at hu
      · cases hu
      · next htrigger =>
        cases hu
        refine ⟨rfl, rfl, rfl, rfl, rfl, by rw [hconclude], by simp only [hchanged]; rfl,
          fun _ hcreate => ?_, fun _ e he hkey hdelete => ?_, rfl⟩
        all_goals
          simp only [Bool.or_eq_true, decide_eq_true_eq, not_or, not_and, not_not,
            List.any_eq_true, not_exists] at htrigger
        · exact htrigger.1 hcreate
        · exact htrigger.2 e he hkey hdelete
  obtain ⟨hres, hrep, hcla, hops, hser, hat, hev, hfirst, hlast, heff⟩ := hrecorded
  have hretired : t'.resources = m.writeResource creates current u.resources ∧
      t'.replays = m.writeReplay timestamp u.replays ∧
      t'.claims = m.writeClaims claimOwner operationId u.claims ∧
      t'.operations = finish u.operations ∧ t'.operationSerial = u.operationSerial ∧
      t'.attestations = u.attestations ∧ t'.evidence = u.evidence ∧ t'.effects = u.effects := by
    unfold Mutation.retireSaga at hretire
    split at hretire
    · cases hretire
      exact ⟨rfl, rfl, rfl, rfl, rfl, rfl, rfl, rfl⟩
    · obtain ⟨⟨_, v⟩, hdelete, rfl⟩ := Option.map_eq_some_iff.mp hretire
      unfold deleteSaga at hdelete
      split at hdelete
      · cases hdelete
      · cases hdelete
        exact ⟨rfl, rfl, rfl, rfl, rfl, rfl, rfl, rfl⟩
  obtain ⟨hres', hrep', hcla', hops', hser', hat', hev', heff'⟩ := hretired
  refine ⟨hfence, by rw [hops', hops], ⟨hdep, howns, heffect, hevidence, by rw [hres', hres],
    by rw [hrep', hrep], by rw [hcla', hcla], by rw [hser', hser], ?_, by rw [hev', hev], hfirst, hlast⟩,
    heff'.trans heff, hat'.trans hat⟩
  have hbase : (m.concludeEffect operationId kind t).attestations = t.attestations := by
    rw [hconclude]
  rcases hatt with hsame | ⟨hdelete, hframe⟩
  · exact Or.inl (by rw [hat', hat, hsame, hbase])
  · refine Or.inr ⟨hdelete, ?_, ?_⟩
    · rw [hat', hat, ← hbase]
      exact hframe.kept
    · rw [hat', hat, ← hbase]
      exact hframe.keys

/-! ### The Resource a commit leaves -/

theorem Mutation.document_isNone (m : Mutation) : m.document.isNone = m.isDelete := by
  obtain ⟨_, _, _, _, _, _, _, _, change⟩ := m
  cases change <;> rfl

theorem Tables.resourceAt_eq_none :
    t.resourceAt address = none ↔ ∀ r ∈ t.resources, r.address ≠ address :=
  Table.find_none

theorem Tables.resourceAt_eq_some (hn : (t.resources.map Resource.address).Nodup) {r : Resource} :
    t.resourceAt address = some r ↔ r ∈ t.resources ∧ r.address = address :=
  Table.find_eq_some_iff hn

/-- What a commit found where it writes: nothing where it creates, and else the one row its
statement is on. -/
def Mutation.FindsPlace (m : Mutation) (creates : Bool) (current : Resource → Bool) (t : Tables) :
    Prop :=
  (t.resourceAt m.address = none ∧ creates = true ∧ m.isDelete = false) ∨
    ∃ r, t.resourceAt m.address = some r ∧ r.uid = m.resourceUid ∧ current r = true ∧
      (m.isDelete = true ∨ creates = false)

/-- The Resources a commit leaves: its own row, and those of the other addresses. -/
structure ResourceResult (m : Mutation) (t t' : Tables) : Prop where
  mem : ∀ r, r ∈ t'.resources ↔
    (r ∈ t.resources ∧ r.address ≠ m.address) ∨ ∃ d, m.document = some d ∧ r = m.row d
  nodup : (t'.resources.map Resource.address).Nodup
  identified : m.isIdentified = true
  predecessor : ∀ r ∈ t.resources, r.address = m.address → r.uid = m.resourceUid

theorem writeResource_result {creates : Bool} {current : Resource → Bool}
    (hn : (t.resources.map Resource.address).Nodup) (hplace : m.FindsPlace creates current t)
    (hidentified : m.isIdentified = true)
    (h : t'.resources = m.writeResource creates current t.resources) : ResourceResult m t t' := by
  have hdelete := m.document_isNone
  rcases hplace with ⟨hnone, rfl, hisDelete⟩ | ⟨r₀, hr₀, hr₀uid, hcurrent, hcreates⟩
  · have hfree := Tables.resourceAt_eq_none.mp hnone
    rw [hisDelete] at hdelete
    obtain ⟨d, hd⟩ : ∃ d, m.document = some d := by
      cases hdoc : m.document with
      | none => simp [hdoc] at hdelete
      | some d => exact ⟨d, rfl⟩
    have hres : t'.resources = t.resources ++ [m.row d] := by
      rw [h]
      unfold Mutation.writeResource
      simp only [hd]
      rfl
    refine ⟨fun r => ?_, ?_, hidentified, fun r hr hra => absurd hra (hfree r hr)⟩
    · rw [hres, List.mem_append, List.mem_singleton]
      constructor
      · rintro (hr | rfl)
        · exact Or.inl ⟨hr, hfree r hr⟩
        · exact Or.inr ⟨d, hd, rfl⟩
      · rintro (⟨hr, -⟩ | ⟨_, hd', rfl⟩)
        · exact Or.inl hr
        · rw [hd] at hd'
          cases hd'
          exact Or.inr rfl
    · rw [hres]
      exact Table.nodup_insert hn fun r hr => hfree r hr
  · obtain ⟨hmem, haddress⟩ := (Tables.resourceAt_eq_some hn).mp hr₀
    -- the rows of this address are this one
    have hone : ∀ r ∈ t.resources, r.address = m.address → r = r₀ := fun r hr hra =>
      Table.eq_of_key hn hr hmem (hra.trans haddress.symm)
    have hp : ∀ r ∈ t.resources,
        (decide (r.address = m.address) && current r) = decide (r.address = m.address) := by
      intro r hr
      by_cases hra : r.address = m.address
      · rw [hone r hr hra, hcurrent]
        simp
      · simp [hra]
    have hpredecessor : ∀ r ∈ t.resources, r.address = m.address → r.uid = m.resourceUid :=
      fun r hr hra => (hone r hr hra) ▸ hr₀uid
    cases hdoc : m.document with
    | none =>
      have hres : t'.resources =
          Table.delete (fun r => decide (r.address = m.address) && current r) t.resources := by
        rw [h]
        unfold Mutation.writeResource
        simp only [hdoc]
      refine ⟨fun r => ?_, ?_, hidentified, hpredecessor⟩
      · rw [hres, Table.mem_delete]
        simp only [hdoc, reduceCtorEq, false_and, exists_false, or_false]
        constructor
        · rintro ⟨hr, hkept⟩
          rw [hp r hr, decide_eq_false_iff_not] at hkept
          exact ⟨hr, hkept⟩
        · rintro ⟨hr, hra⟩
          exact ⟨hr, by rw [hp r hr]; exact decide_eq_false hra⟩
      · rw [hres]
        exact Table.nodup_delete hn
    | some d =>
      rw [hdoc] at hdelete
      have hupdates : creates = false := hcreates.resolve_left (by simp [← hdelete])
      have hres : t'.resources = Table.update
          (fun r => decide (r.address = m.address) && current r) (fun _ => m.row d)
          t.resources := by
        rw [h]
        unfold Mutation.writeResource
        simp only [hdoc, hupdates]
        rfl
      refine ⟨fun r => ?_, ?_, hidentified, hpredecessor⟩
      · rw [hres, Table.mem_update]
        constructor
        · rintro (⟨hr, hkept⟩ | ⟨-, -, -, rfl⟩)
          · rw [hp r hr, decide_eq_false_iff_not] at hkept
            exact Or.inl ⟨hr, hkept⟩
          · exact Or.inr ⟨d, hdoc, rfl⟩
        · rintro (⟨hr, hra⟩ | ⟨_, hd', rfl⟩)
          · exact Or.inl ⟨hr, by rw [hp r hr]; exact decide_eq_false hra⟩
          · rw [hdoc] at hd'
            cases hd'
            exact Or.inr ⟨r₀, hmem, by rw [hp r₀ hmem]; exact decide_eq_true haddress, rfl⟩
      · have hkeys : t'.resources.map Resource.address = t.resources.map Resource.address := by
          rw [hres]
          unfold Table.update
          rw [List.map_map]
          refine List.map_congr_left fun r hr => ?_
          simp only [Function.comp]
          split
          · next hpr =>
            rw [hp r hr] at hpr
            exact (of_decide_eq_true hpr).symm
          · rfl
        rw [hkeys]
        exact hn

/-- The row of its address is the one the mutation has. -/
theorem ResourceResult.resourceAt (h : ResourceResult m t t') :
    t'.resourceAt m.address = m.document.map m.row := by
  cases hdoc : m.document with
  | none =>
    rw [Option.map_none, Tables.resourceAt_eq_none]
    intro r hr hra
    rcases (h.mem r).mp hr with ⟨-, hne⟩ | ⟨d, hd, -⟩
    · exact hne hra
    · rw [hdoc] at hd
      cases hd
  | some d =>
    rw [Option.map_some, Tables.resourceAt_eq_some h.nodup]
    exact ⟨(h.mem _).mpr (Or.inr ⟨d, hdoc, rfl⟩), rfl⟩

theorem ResourceResult.uid (h : ResourceResult m t t') (d : Document) (hd : m.document = some d) :
    d.uid = m.resourceUid := by
  have hidentified := h.identified
  simp only [Mutation.isIdentified, hd, Bool.and_eq_true, decide_eq_true_eq] at hidentified
  exact hidentified.1.1

/-- The columns of a row are those of its document. -/
def Resource.IsExact (r : Resource) : Prop :=
  r.document.apiVersion = r.address.apiVersion ∧ r.document.kind = r.address.kind ∧
    r.document.space = r.address.space ∧ r.document.name = r.address.name ∧
    r.document.uid = r.uid ∧ r.document.generation = r.generation ∧
    r.document.revision = r.revision

theorem ResourceResult.isExact (h : ResourceResult m t t') {d : Document}
    (hd : m.document = some d) : (m.row d).IsExact := by
  have hidentified := h.identified
  simp only [Mutation.isIdentified, hd, Bool.and_eq_true, decide_eq_true_eq] at hidentified
  obtain ⟨⟨-, hspace, hapi, hkind, hname, -⟩, -⟩ := hidentified
  exact ⟨hapi, hkind, hspace, hname, rfl, rfl, rfl⟩

theorem Mutation.predecessorFence_iff {fencesRevision : Bool}
    (h : m.predecessorFence fencesRevision t = true) :
    (m.isDelete = false ∧ m.expectedRevision = none ∧ t.resourceAt m.address = none) ∨
      (m.isDelete = true ∨ m.expectedRevision ≠ none) ∧
      ∃ r, t.resourceAt m.address = some r ∧ r.uid = m.resourceUid ∧
        (fencesRevision = true → some r.revision = m.expectedRevision) ∧
        (m.isUnchanged = true → some r.document = m.document ∧ r.relations = m.relations) := by
  unfold Mutation.predecessorFence at h
  split at h
  · next hcreate =>
    simp only [Bool.and_eq_true, Bool.not_eq_true', Option.isNone_iff_eq_none] at hcreate h
    exact Or.inl ⟨hcreate.1, hcreate.2, h.2⟩
  next hupdate =>
  refine Or.inr ⟨?_, ?_⟩
  · by_cases hdel : m.isDelete = true
    · exact Or.inl hdel
    · refine Or.inr fun hnone => hupdate ?_
      simp [hdel, hnone]
  · obtain ⟨r, hr, hfence⟩ := (Option.any_eq_true _ _).mp h
    simp only [Bool.and_eq_true, Bool.or_eq_true, Bool.not_eq_true', decide_eq_true_eq] at hfence
    obtain ⟨⟨⟨huid, hrevision⟩, -⟩, hsame⟩ := hfence
    refine ⟨r, hr, huid, fun hf => ?_, fun hunchanged => ?_⟩
    · exact hrevision.resolve_left (by simp [hf])
    · have hall := hsame.resolve_left (by simp [hunchanged])
      exact ⟨hall.1, hall.2.1⟩

/-- **What an immediate commit does.** -/
theorem commitImmediate_result {kind : OperationKind}
    (hn : (t.resources.map Resource.address).Nodup)
    (h : commitImmediateMutation D m operationId kind elsewhere timestamp t = some t') :
    ResourceResult m t t' ∧ t'.operations = t.operations ∧
      CommitResult D m operationId (.operation operationId) true m.expectedRevision.isNone
        (fun r => decide (some r.revision = m.expectedRevision)) timestamp t t' := by
  unfold commitImmediateMutation at h
  split at h
  swap
  · cases h
  next hguard =>
  simp only [Bool.and_eq_true] at hguard
  obtain ⟨-, hoperations, hresult, -⟩ := commitStatements_eq h
  refine ⟨writeResource_result hn ?_ hguard.1 hresult.resources, hoperations, hresult⟩
  have hevidence := hresult.evidenceFence
  simp only [Mutation.evidenceFence, Bool.and_eq_true] at hevidence
  rcases Mutation.predecessorFence_iff hevidence.2 with ⟨hdel, hnone, hfree⟩ |
    ⟨hcase, r, hr, huid, hrevision, -⟩
  · exact Or.inl ⟨hfree, by rw [hnone]; rfl, hdel⟩
  · refine Or.inr ⟨r, hr, huid, decide_eq_true (hrevision rfl), ?_⟩
    rcases hcase with hdel | hsome
    · exact Or.inl hdel
    · cases hrevision' : m.expectedRevision with
      | none => exact absurd hrevision' hsome
      | some _ => exact Or.inr rfl

/-- **What a deferred commit does.** -/
theorem commitDeferred_result {operation : Operation} {terminalJson : String}
    (hn : (t.resources.map Resource.address).Nodup)
    (h : commitDeferredMutation D operation m leaseToken terminalJson elsewhere timestamp t =
      some t') :
    t.operations.any (operation.isLeased leaseToken) = true ∧ ResourceResult m t t' ∧
      t'.operations = operation.succeed leaseToken terminalJson (m.document.map Document.uid)
        timestamp t.operations ∧
      CommitResult D m operation.id (.lease leaseToken) (decide (operation.operation ≠ .delete))
        operation.accepted.isNone operation.targets timestamp t t' := by
  unfold commitDeferredMutation at h
  split at h
  swap
  · cases h
  next hguard =>
  simp only [Bool.and_eq_true, decide_eq_true_eq] at hguard
  obtain ⟨⟨hidentified, -, haddress, -⟩, -⟩ := hguard
  obtain ⟨hfence, hoperations, hresult, -⟩ := commitStatements_eq h
  simp only [Bool.and_eq_true] at hfence
  obtain ⟨⟨⟨hleased, hresource⟩, -⟩, -⟩ := hfence
  refine ⟨hleased, writeResource_result hn ?_ hidentified hresult.resources, hoperations, hresult⟩
  have hevidence := hresult.evidenceFence
  simp only [Mutation.evidenceFence, Bool.and_eq_true] at hevidence
  rcases Mutation.predecessorFence_iff hevidence.2 with ⟨hdel, -, hfree⟩ | ⟨-, r, hr, huid, -⟩
  · refine Or.inl ⟨hfree, ?_, hdel⟩
    cases haccepted : operation.accepted with
    | none => rfl
    | some =>
      simp only [Operation.resourceFence, haccepted, ← haddress, hfree] at hresource
      cases hresource
  · cases haccepted : operation.accepted with
    | none =>
      simp only [Operation.resourceFence, haccepted, ← haddress, hr] at hresource
      cases hresource
    | some =>
      refine Or.inr ⟨r, hr, huid, ?_, Or.inr rfl⟩
      simp only [Operation.resourceFence, haccepted, ← haddress, hr, Option.any_some,
        decide_eq_true_eq] at hresource
      simp only [Operation.targets, haccepted, Option.any_some, decide_eq_true_eq]
      exact ⟨hresource.1, hresource.2.1, hresource.2.2.1⟩

/-! ### Calls that commit nothing -/

/-- A rewriting of some Resource rows that keeps what each is and what it refers to. -/
structure Resource.Rendering (l : List Resource) (g : Resource → Resource) : Prop where
  address : ∀ r ∈ l, (g r).address = r.address
  uid : ∀ r ∈ l, (g r).uid = r.uid
  relations : ∀ r ∈ l, (g r).relations = r.relations
  formRef : ∀ r ∈ l, (g r).document.formRef = r.document.formRef
  spec : ∀ r ∈ l, (g r).document.spec = r.document.spec

theorem Resource.Rendering.refl (l : List Resource) : Resource.Rendering l fun r => r :=
  ⟨fun _ _ => rfl, fun _ _ => rfl, fun _ _ => rfl, fun _ _ => rfl, fun _ _ => rfl⟩

variable {call : Call}

/-- What a call does that commits. -/
theorem Call.apply_commit
    (hn : (t.resources.map Resource.address).Nodup)
    (hcall : call.mutation = some (m, operationId)) (h : call.apply D timestamp t = some t') :
    ResourceResult m t t' ∧ ∃ claimOwner fencesRevision creates current,
      CommitResult D m operationId claimOwner fencesRevision creates current timestamp t t' := by
  cases call with
  | commitImmediate =>
    cases hcall
    obtain ⟨hresource, -, hresult⟩ := commitImmediate_result hn h
    exact ⟨hresource, _, _, _, _, hresult⟩
  | commitDeferred =>
    cases hcall
    obtain ⟨-, hresource, -, hresult⟩ := commitDeferred_result hn h
    exact ⟨hresource, _, _, _, _, hresult⟩
  | _ => cases hcall

/-- A call on sagas, claims or effects. -/
def Call.isFramed : Call → Bool
  | .acceptSaga .. | .rotateReplayKey .. | .acquireSaga .. | .releaseSaga .. | .bindApply ..
  | .bindImport .. | .markDispatch .. | .recordOutcome .. | .recordReceipt .. | .abandonPlan ..
  | .settleImport .. | .settlePrecondition .. | .recordEffect .. | .reserveClaims ..
  | .releaseClaims .. | .releaseCommittedClaims .. | .reserveDependencies ..
  | .releaseDependencies .. => true
  | _ => false

theorem Call.apply_frame (hframed : call.isFramed = true)
    (h : call.apply D timestamp t = some t') : SagaFrame t t' := by
  cases call with
  | acceptSaga => exact (accept_frame h).1
  | rotateReplayKey =>
    obtain ⟨⟨_, u⟩, hu, rfl⟩ := Option.map_eq_some_iff.mp h
    exact (rotate_frame hu).1
  | bindApply =>
    cases h
    exact (bindApply_frame ..).1
  | bindImport =>
    cases h
    exact (bindImport_frame ..).1
  | markDispatch =>
    obtain ⟨⟨_, u⟩, hu, rfl⟩ := Option.map_eq_some_iff.mp h
    exact (mark_frame hu).1
  | recordReceipt =>
    exact (receipt_frame h).1
  | abandonPlan i replayKey | settleImport i replayKey leaseToken =>
    obtain ⟨⟨_, u⟩, hu, rfl⟩ := Option.map_eq_some_iff.mp h
    exact (deleteSaga_frame hu).1
  | settlePrecondition =>
    obtain ⟨⟨_, u⟩, hu, rfl⟩ := Option.map_eq_some_iff.mp h
    exact (precondition_frame hu).1
  | recordEffect =>
    cases h
    unfold recordResourceEffect insertEffect
    split
    · split <;> exact .of_eq rfl rfl rfl rfl rfl
    · exact .of_eq rfl rfl rfl rfl rfl
  | reserveClaims =>
    obtain ⟨_, -, rfl⟩ := Option.map_eq_some_iff.mp h
    exact .of_eq rfl rfl rfl rfl rfl
  | reserveDependencies =>
    obtain ⟨hres, hev, hat, hops, hser⟩ := reserveDependencies_frame h
    exact .of_eq hres hat hev hops hser
  | acquireSaga | releaseSaga | recordOutcome | releaseClaims | releaseCommittedClaims
  | releaseDependencies =>
    cases h
    exact .of_eq rfl rfl rfl rfl rfl
  | _ => cases hframed

/-- **Only a commit writes evidence, or a Resource** but for its rendering. -/
theorem Call.apply_resources (hcall : call.mutation = none)
    (h : call.apply D timestamp t = some t') :
    t'.evidence = t.evidence ∧
      (t'.resources = t.resources ∨ ∃ read relations revision content,
        call = .render read relations revision content ∧
          t' = renderResource read relations revision content t) := by
  have hkeep : t'.evidence = t.evidence → t'.resources = t.resources → t'.evidence = t.evidence ∧
      (t'.resources = t.resources ∨ ∃ read relations revision content,
        call = .render read relations revision content ∧
          t' = renderResource read relations revision content t) := fun he hr => ⟨he, Or.inl hr⟩
  by_cases hframed : call.isFramed = true
  · exact hkeep (Call.apply_frame hframed h).evidence (Call.apply_frame hframed h).resources
  cases call with
  | commitDefinitiveFailure =>
    obtain ⟨⟨_, u⟩, hu, rfl⟩ := Option.map_eq_some_iff.mp h
    exact hkeep (definitiveFailure_frame hu).2.evidence (definitiveFailure_frame hu).2.resources
  | reserveIncarnation =>
    cases h
    unfold reserveResourceIncarnation at hkeep ⊢
    split <;> exact ⟨rfl, Or.inl rfl⟩
  | prepareDeletion =>
    exact hkeep (prepareDeletion_frame h).2.1 (prepareDeletion_frame h).1
  | releaseIncarnation =>
    rcases releaseIncarnation_eq h with rfl | ⟨-, -, -, hres, hev, -⟩
    · exact hkeep rfl rfl
    · exact hkeep hev hres
  | acceptOperation =>
    unfold Call.apply acceptDeferredOperation at h
    dsimp only at h
    repeat' split at h
    all_goals cases h
    all_goals exact hkeep rfl rfl
  | commitImmediate => cases hcall
  | commitDeferred => cases hcall
  | render =>
    cases h
    exact ⟨rfl, Or.inr ⟨_, _, _, _, rfl, rfl⟩⟩
  | _ => first | exact absurd rfl hframed | (cases h; exact hkeep rfl rfl)

/-- A rendering keeps every address, whatever was read. -/
theorem Call.apply_addresses (hcall : call.mutation = none)
    (h : call.apply D timestamp t = some t') :
    t'.resources.map Resource.address = t.resources.map Resource.address := by
  obtain ⟨-, hsame | ⟨read, relations, revision, content, -, rfl⟩⟩ := Call.apply_resources hcall h
  · rw [hsame]
  · exact Table.map_update_of_mem
      (fun r _ hp => (of_decide_eq_true hp).1.symm ▸ rfl)

/-- A rendering that is current keeps what every Resource is. -/
theorem Call.apply_rendering (hcall : call.mutation = none)
    (hcurrent : call.isCurrent t = true) (h : call.apply D timestamp t = some t') :
    t'.evidence = t.evidence ∧
      ∃ g, Resource.Rendering t.resources g ∧ t'.resources = t.resources.map g := by
  obtain ⟨hevidence, hsame | ⟨read, relations, revision, content, rfl, rfl⟩⟩ :=
    Call.apply_resources hcall h
  · exact ⟨hevidence, (fun r => r), .refl _, by rw [hsame, List.map_id']⟩
  -- the row that is replaced is the one that was read
  have hread : ∀ r ∈ t.resources, r.address = read.address ∧ r.revision = read.revision →
      r.uid = read.uid ∧ r.document.formRef = read.document.formRef ∧
        r.document.spec = read.document.spec ∧ r.relations = relations := fun r hr hp =>
    of_decide_eq_true (List.all_eq_true.mp hcurrent r hr) hp.1 hp.2
  refine ⟨hevidence, fun r => if decide (r.address = read.address ∧ r.revision = read.revision) then
    read.rendered relations revision content else r, ⟨?_, ?_, ?_, ?_, ?_⟩, rfl⟩
  all_goals
    intro r hr
    split
    · next hp =>
      have hp' := of_decide_eq_true hp
      obtain ⟨huid, hform, hspec, hrelations⟩ := hread r hr hp'
      first
        | exact hp'.1.symm
        | exact huid.symm
        | exact hrelations.symm
        | exact hform.symm
        | exact hspec.symm
    · rfl

end Frames

end Takoserver.V1
