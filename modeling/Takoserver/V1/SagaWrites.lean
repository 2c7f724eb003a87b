import Takoserver.Lib.Writes
import Takoserver.V1.Executor

/-!
# What the statements do to a saga

Every statement on sagas updates rows of one
condition, inserts one, or deletes rows of one condition.  Here each is bounded
once: `Saga.Step` is what an update may make of a row, and the deletions say
which row they may remove.  The guards of the single statements are not looked
at again.
-/

namespace Takoserver.V1

/-! ### One row -/

variable {r r' : Saga}

namespace Saga

/-- What a row keeps for as long as it is stored.  The dispatch, the selections and the receipt
are written once; an executed saga is never leased again. -/
structure Keeps (r r' : Saga) : Prop where
  serial : r'.serial = r.serial
  operationId : r'.operationId = r.operationId
  operationKind : r'.operationKind = r.operationKind
  resourceUid : r'.resourceUid = r.resourceUid
  target : r'.target = r.target
  started : ∀ i, r.executionStartedAt = some i → r'.executionStartedAt = some i
  selection : ∀ j, r.selectionJson = some j → r'.selectionJson = some j
  importSelection : ∀ j, r.importSelection = some j → r'.importSelection = some j
  receipt : ∀ j, r.receiptJson = some j → r'.receiptJson = some j
  executed : r.receiptJson.isSome = true → r.lease = none → r'.lease = none

/-- What one statement may make of a row: a lease is given up, or taken by a new holder once it
is free and there is no receipt. -/
structure Step (timestamp : Instant) (r r' : Saga) : Prop extends Keeps r r' where
  lease : r'.lease = r.lease ∨ r'.lease = none ∨
    (r.receiptJson = none ∧ leaseIsFree r.lease timestamp = true)
  closed : r'.receiptJson.isSome = true → r.receiptJson.isSome = true ∨ r'.lease = none

theorem Keeps.refl (r : Saga) : Keeps r r :=
  ⟨rfl, rfl, rfl, rfl, rfl, fun _ h => h, fun _ h => h, fun _ h => h, fun _ h => h, fun _ h => h⟩

theorem Keeps.trans {r'' : Saga} (h : Keeps r r') (h' : Keeps r' r'') : Keeps r r'' where
  serial := h'.serial.trans h.serial
  operationId := h'.operationId.trans h.operationId
  operationKind := h'.operationKind.trans h.operationKind
  resourceUid := h'.resourceUid.trans h.resourceUid
  target := h'.target.trans h.target
  started := fun i hi => h'.started i (h.started i hi)
  selection := fun j hj => h'.selection j (h.selection j hj)
  importSelection := fun j hj => h'.importSelection j (h.importSelection j hj)
  receipt := fun j hj => h'.receipt j (h.receipt j hj)
  executed := by
    intro hr hl
    obtain ⟨j, hj⟩ := Option.isSome_iff_exists.mp hr
    exact h'.executed (by rw [h.receipt j hj]; rfl) (h.executed hr hl)

theorem Step.refl (timestamp : Instant) (r : Saga) : Step timestamp r r :=
  ⟨Keeps.refl r, Or.inl rfl, Or.inl⟩

end Saga

/-! ### One statement -/

/-- A row an acceptance inserts: its operation id is new, and nothing has happened to it. -/
def Saga.Enters (serial serial' : ℕ) (rows : List Saga) (row : Saga) : Prop :=
  (∃ record : SagaRecord, row = record.row serial) ∧ serial' = serial + 1 ∧
    ∀ r ∈ rows, r.operationId ≠ row.operationId

/-- A statement on the sagas, or none, that removes only rows that satisfy `leaves`. -/
structure SagaWrite (leaves : Saga → Prop) (timestamp : Instant) (t t' : Tables) : Prop where
  rows : Table.Write (Saga.Step timestamp) (Saga.Enters t.sagaSerial t'.sagaSerial) leaves
    t.sagas t'.sagas
  serial : t.sagaSerial ≤ t'.sagaSerial

namespace SagaWrite

variable {leaves : Saga → Prop} {timestamp : Instant} {t t' : Tables}

/-- What leaves the sagas alone. -/
theorem of_eq (h : t'.sagas = t.sagas) (hs : t'.sagaSerial = t.sagaSerial) :
    SagaWrite leaves timestamp t t' :=
  ⟨h ▸ Table.Write.refl _, hs.ge⟩

theorem congr {u u' : Tables} (h : SagaWrite leaves timestamp t t') (hu : u.sagas = t.sagas)
    (hus : u.sagaSerial = t.sagaSerial) (hu' : u'.sagas = t'.sagas)
    (hus' : u'.sagaSerial = t'.sagaSerial) : SagaWrite leaves timestamp u u' := by
  obtain ⟨hrows, hserial⟩ := h
  constructor
  · rw [hu, hu', hus, hus']
    exact hrows
  · rw [hus, hus']
    exact hserial

theorem mono {leaves' : Saga → Prop} (hl : ∀ r ∈ t.sagas, leaves r → leaves' r)
    (h : SagaWrite leaves timestamp t t') : SagaWrite leaves' timestamp t t' :=
  ⟨h.rows.mono (fun _ _ hs => hs) (fun _ he => he) hl, h.serial⟩

theorem origin (h : SagaWrite leaves timestamp t t') (hr' : r' ∈ t'.sagas) :
    (∃ r ∈ t.sagas, Saga.Step timestamp r r') ∨
      Saga.Enters t.sagaSerial t'.sagaSerial t.sagas r' :=
  h.rows.origin (Saga.Step.refl timestamp) hr'

theorem fate (h : SagaWrite leaves timestamp t t') (hr : r ∈ t.sagas) :
    (∃ r' ∈ t'.sagas, Saga.Step timestamp r r') ∨ leaves r :=
  h.rows.fate (Saga.Step.refl timestamp) hr

end SagaWrite

/-! ### The table -/

/-- The saga table in every state: its keys, and no lease on an executed saga. -/
structure SagaTable (t : Tables) : Prop where
  ids : (t.sagas.map Saga.operationId).Nodup
  serials : (t.sagas.map Saga.serial).Nodup
  bound : ∀ r ∈ t.sagas, r.serial < t.sagaSerial
  executed : ∀ r ∈ t.sagas, r.receiptJson.isSome = true → r.lease = none

namespace SagaTable

variable {leaves : Saga → Prop} {timestamp : Instant} {t t' : Tables}

theorem empty : SagaTable {} where
  ids := List.nodup_nil
  serials := List.nodup_nil
  bound := by simp
  executed := by simp

theorem eq_of_serial (ht : SagaTable t) {s : Saga} (hr : r ∈ t.sagas) (hs : s ∈ t.sagas)
    (h : r.serial = s.serial) : r = s :=
  Table.eq_of_key ht.serials hr hs h

/-- Every statement keeps the table. -/
theorem write (ht : SagaTable t) (h : SagaWrite leaves timestamp t t') : SagaTable t' where
  ids := h.rows.nodup (fun _ _ hs => hs.operationId) (fun _ he r hr => he.2.2 r hr) ht.ids
  serials := by
    refine h.rows.nodup (fun _ _ hs => hs.serial) ?_ ht.serials
    rintro _ ⟨⟨_, rfl⟩, -⟩ r hr
    exact (ht.bound r hr).ne
  bound := by
    intro r' hr'
    rcases h.origin hr' with ⟨r, hr, hs⟩ | ⟨⟨_, rfl⟩, hs, -⟩
    · rw [hs.serial]
      exact lt_of_lt_of_le (ht.bound r hr) h.serial
    · rw [hs]
      exact Nat.lt_succ_self _
  executed := by
    intro r' hr' hreceipt
    rcases h.origin hr' with ⟨r, hr, hs⟩ | ⟨⟨_, rfl⟩, -⟩
    · rcases hs.closed hreceipt with hold | hnone
      · exact hs.executed hold (ht.executed r hr hold)
      · exact hnone
    · cases hreceipt

theorem stepped (ht : SagaTable t) (h : SagaWrite leaves timestamp t t') (hr : r ∈ t.sagas)
    (hr' : r' ∈ t'.sagas) (hserial : r'.serial = r.serial) :
    Saga.Step timestamp r r' := by
  rcases h.origin hr' with ⟨s, hs, hstep⟩ | ⟨⟨_, rfl⟩, -⟩
  · rw [ht.eq_of_serial hr hs (hserial.symm.trans hstep.serial)]
    exact hstep
  · have hlt : r.serial < t.sagaSerial := ht.bound r hr
    rw [← hserial] at hlt
    exact absurd hlt (lt_irrefl _)

end SagaTable

/-! ### The single statements -/

section Statements

variable {leaves : Saga → Prop} {timestamp : Instant} {t t' : Tables}

theorem updateSaga_writes {p : Saga → Bool} {f : Saga → Saga}
    (h : ∀ r ∈ t.sagas, p r = true → Saga.Step timestamp r (f r)) :
    SagaWrite leaves timestamp t (updateSaga p f t).2 :=
  ⟨Table.Write.update p f h, le_rfl⟩

variable {deleted elsewhere : Bool} {replayKey leaseToken operationId : String} {i : SagaRef}
  {m : Mutation} {kind : OperationKind}

theorem deleteSaga_writes {p : Saga → Bool} (hleaves : ∀ r ∈ t.sagas, p r = true → leaves r)
    (h : deleteSaga p t = some (deleted, t')) :
    SagaWrite leaves timestamp t t' := by
  unfold deleteSaga at h
  split at h
  · cases h
  · injection h with h
    injection h with _ h
    subst h
    exact ⟨Table.Write.delete p hleaves, le_rfl⟩

@[simp] theorem retainCommand_sagas (i : SagaRef) (p : Saga → Bool) (q : Operation → Bool)
    (t : Tables) : (retainCommand i p q t).sagas = t.sagas := by
  unfold retainCommand
  split <;> rfl

@[simp] theorem retainCommand_sagaSerial (i : SagaRef) (p : Saga → Bool) (q : Operation → Bool)
    (t : Tables) : (retainCommand i p q t).sagaSerial = t.sagaSerial := by
  unfold retainCommand
  split <;> rfl

theorem accept_writes {record : SagaRecord} {legacy : Bool}
    (h : acceptProviderMutationSaga record legacy t = some t') :
    SagaWrite leaves timestamp t t' := by
  unfold acceptProviderMutationSaga at h
  split at h
  · cases h
    exact SagaWrite.of_eq rfl rfl
  split at h
  · cases h
  split at h
  · cases h
    exact SagaWrite.of_eq rfl rfl
  next hnone =>
  cases h
  refine ⟨Table.Write.insert _ ⟨⟨record, rfl⟩, rfl, ?_⟩, Nat.le_succ _⟩
  intro r hr heq
  simp only [List.any_eq_true, decide_eq_true_eq, not_exists, not_and, not_or] at hnone
  exact (hnone r hr).1 heq

theorem rotate_writes {stored : SagaRecord} {changed : Bool}
    (h : rotateReplayKey stored replayKey t = some (changed, t')) :
    SagaWrite leaves timestamp t t' := by
  unfold rotateReplayKey at h
  dsimp only at h
  split at h
  · cases h
  · injection h with h
    have ht' : _ = t' := congrArg Prod.snd h
    subst ht'
    refine updateSaga_writes fun r _ _ => ?_
    exact ⟨⟨rfl, rfl, rfl, rfl, rfl, fun _ h => h, fun _ h => h, fun _ h => h, fun _ h => h,
      fun _ h => h⟩, Or.inl rfl, Or.inl⟩

theorem acquire_writes (i : SagaRef) (lease : Lease) (mode : Mode) :
    SagaWrite leaves timestamp t (acquireProviderMutationExecution i lease mode timestamp t).2 := by
  refine updateSaga_writes fun r _ hp => ?_
  simp only [Saga.isPlanned, Bool.and_eq_true, Option.isNone_iff_eq_none] at hp
  obtain ⟨⟨⟨-, hreceipt⟩, -⟩, hfree⟩ := hp
  exact ⟨⟨rfl, rfl, rfl, rfl, rfl, fun _ h => h, fun _ h => h, fun _ h => h, fun _ h => h,
    fun hr _ => by simp [hreceipt] at hr⟩, Or.inr (Or.inr ⟨hreceipt, hfree⟩), Or.inl⟩

theorem release_writes (i : SagaRef) (leaseToken : String) :
    SagaWrite leaves timestamp t (releaseProviderMutationExecution i leaseToken t).2 := by
  refine updateSaga_writes fun r _ _ => ?_
  exact ⟨⟨rfl, rfl, rfl, rfl, rfl, fun _ h => h, fun _ h => h, fun _ h => h, fun _ h => h,
    fun _ _ => rfl⟩, Or.inr (Or.inl rfl), Or.inl⟩

theorem bindApply_writes (i : SagaRef) (fingerprint leaseToken : String) (mode : Mode)
    (selectionJson : String) :
    SagaWrite leaves timestamp t (bindProviderMutationApplySelection i fingerprint leaseToken mode
      selectionJson timestamp t).2 := by
  refine SagaWrite.congr (updateSaga_writes fun r _ _ => ?_) rfl rfl (retainCommand_sagas ..)
    (retainCommand_sagaSerial ..)
  exact ⟨⟨rfl, rfl, rfl, rfl, rfl, fun _ h => h, fun j hj => by simp [hj], fun _ h => h,
    fun _ h => h, fun _ h => h⟩, Or.inl rfl, Or.inl⟩

theorem bindImport_writes (i : SagaRef) (fingerprint leaseToken : String) (mode : Mode)
    (selection : ImportSelection) (elsewhere : Bool) :
    SagaWrite leaves timestamp t (bindProviderMutationImportSelection i fingerprint leaseToken mode
      selection elsewhere timestamp t).2 := by
  refine SagaWrite.congr (updateSaga_writes fun r _ _ => ?_) rfl rfl (retainCommand_sagas ..)
    (retainCommand_sagaSerial ..)
  exact ⟨⟨rfl, rfl, rfl, rfl, rfl, fun _ h => h, fun _ h => h, fun j hj => by simp [hj],
    fun _ h => h, fun _ h => h⟩, Or.inl rfl, Or.inl⟩

theorem Saga.dispatched_step (r : Saga) : Saga.Step timestamp r (r.dispatched timestamp) :=
  ⟨⟨rfl, rfl, rfl, rfl, rfl, fun i hi => by simp [Saga.dispatched, hi], fun _ h => h, fun _ h => h,
    fun _ h => h, fun _ h => h⟩, Or.inl rfl, Or.inl⟩

section

variable {D : Digests} {mode : Mode} {dependencies : Option (DependencySet × Owner)} {marked : Bool}
  (h : markProviderMutationDispatch D i leaseToken mode dependencies timestamp t = some (marked, t'))

include h

theorem mark_sagas :
    t.sagas.any (Saga.isDispatchable i leaseToken mode timestamp) = true ∧
      t'.sagas = Table.update (Saga.isDispatchable i leaseToken mode timestamp)
        (Saga.dispatched timestamp) t.sagas ∧ t'.sagaSerial = t.sagaSerial := by
  unfold markProviderMutationDispatch at h
  dsimp only at h
  split at h
  · cases h
  next hany =>
  split at h
  · cases h
  split at h
  · cases h
  injection h with h
  have ht' : _ = t' := congrArg Prod.snd h
  subst ht'
  refine ⟨by simpa using hany, ?_, ?_⟩
  · rw [retainCommand_sagas]
    cases dependencies <;> rfl
  · rw [retainCommand_sagaSerial]
    cases dependencies <;> rfl

theorem mark_writes : SagaWrite leaves timestamp t t' := by
  obtain ⟨-, hsagas, hserial⟩ := mark_sagas h
  refine ⟨?_, hserial.ge⟩
  rw [hsagas]
  exact Table.Write.update _ _ fun r _ _ => r.dispatched_step

end

theorem outcome_writes (i : SagaRef) (leaseToken : String) (outcome : ProviderOutcome)
    (providerHandle : Option String) :
    SagaWrite leaves timestamp t
      (recordProviderMutationOutcome i leaseToken outcome providerHandle timestamp t).2 := by
  refine updateSaga_writes fun r _ _ => ?_
  exact ⟨⟨rfl, rfl, rfl, rfl, rfl, fun _ h => h, fun _ h => h, fun _ h => h, fun _ h => h,
    fun _ h => h⟩, Or.inl rfl, Or.inl⟩

theorem receipt_writes {receiptJson : String} {authorityHeadDigest : Option String}
    {claimOwner : Option Owner}
    (h : recordProviderMutationReceipt i leaseToken authorityHeadDigest claimOwner receiptJson
      timestamp t = some t') : SagaWrite leaves timestamp t t' := by
  unfold recordProviderMutationReceipt at h
  dsimp only at h
  split at h
  · cases h
  · cases h
    refine SagaWrite.congr (updateSaga_writes fun r _ hp => ?_) rfl rfl rfl rfl
    simp only [Bool.and_eq_true] at hp
    -- the receipt is written only while there is none
    obtain ⟨hreceipt, -⟩ := Saga.accepts_iff.mp hp.1.2
    exact ⟨⟨rfl, rfl, rfl, rfl, rfl, fun _ h => h, fun _ h => h, fun _ h => h,
      fun j hj => by simp [hreceipt] at hj, fun _ _ => rfl⟩, Or.inr (Or.inl rfl),
      fun _ => Or.inr rfl⟩

/-! ### Deletions -/

/-- A plan that may be abandoned: nothing is bound, leased or started. -/
structure Saga.IsIdlePlan (r : Saga) : Prop where
  receipt : r.receiptJson = none
  lease : r.lease = none
  started : r.executionStartedAt = none
  selection : r.operationKind = .apply → r.selectionJson = none
  importSelection : r.operationKind = .import → r.importSelection = none

theorem abandon_writes (h : abandonProviderMutationPlan i replayKey t = some (deleted, t')) :
    SagaWrite Saga.IsIdlePlan timestamp t t' := by
  refine deleteSaga_writes (fun r _ hp => ?_) h
  simp only [Saga.isPlanned, Bool.and_eq_true, Bool.or_eq_true, decide_eq_true_eq,
    Option.isNone_iff_eq_none] at hp
  obtain ⟨⟨⟨⟨⟨-, hreceipt⟩, himport⟩, happly⟩, hlease⟩, hstarted⟩ := hp
  refine ⟨hreceipt, hlease, hstarted, fun hk => ?_, fun hk => ?_⟩
  · exact happly.resolve_left fun hne => hne hk
  · exact (himport.resolve_left fun hne => hne hk).2

/-- A started saga whose present lease is this token's. -/
structure Saga.IsHeld (i : SagaRef) (leaseToken : String) (timestamp : Instant) (r : Saga) :
    Prop where
  named : r.named i = true
  accepts : r.accepts leaseToken timestamp = true
  started : r.executionStartedAt.isSome = true

theorem settleImport_writes
    (h : settleDefinitiveProviderImportFailure i replayKey leaseToken timestamp t =
      some (deleted, t')) : SagaWrite (Saga.IsHeld i leaseToken timestamp) timestamp t t' := by
  refine deleteSaga_writes (fun r _ hp => ?_) h
  simp only [Bool.and_eq_true] at hp
  obtain ⟨⟨⟨⟨hnamed, -⟩, -⟩, haccepts⟩, hstarted⟩ := hp
  exact ⟨hnamed, haccepts, hstarted⟩

theorem precondition_writes {action : Option RecoveryAction}
    (h : settleProviderMutationPreconditionFailure i leaseToken action timestamp t =
      some (deleted, t')) : SagaWrite (Saga.IsHeld i leaseToken timestamp) timestamp t t' := by
  unfold settleProviderMutationPreconditionFailure at h
  dsimp only at h
  split at h
  · cases h
    exact SagaWrite.of_eq rfl rfl
  · refine SagaWrite.congr (deleteSaga_writes (fun r _ hp => ?_) h) rfl rfl rfl rfl
    simp only [Saga.failsPrecondition, Bool.and_eq_true] at hp
    obtain ⟨⟨⟨⟨⟨hnamed, haccepts⟩, -⟩, -⟩, -⟩, hstarted⟩ := hp
    exact ⟨hnamed, haccepts, hstarted⟩

theorem release_incarnation_sagas {tenantId resourceUid effectId : String}
    (h : uncommittedResourceIncarnationRelease tenantId resourceUid effectId elsewhere t = some t') :
    t'.sagas = t.sagas ∧ t'.sagaSerial = t.sagaSerial := by
  unfold uncommittedResourceIncarnationRelease at h
  split at h
  · split at h
    · cases h
    · cases h
      exact ⟨rfl, rfl⟩
  · cases h
    exact ⟨rfl, rfl⟩

variable {D : Digests}

theorem reserveResourceDependencies_sagas {s : DependencySet} {expiresAt : Instant}
    (h : reserveResourceDependencies D s leaseToken expiresAt timestamp t = some t') :
    t'.sagas = t.sagas ∧ t'.sagaSerial = t.sagaSerial := by
  unfold reserveResourceDependencies at h
  dsimp only at h
  split at h
  · split at h
    · cases h
      exact ⟨rfl, rfl⟩
    · cases h
  · cases h

theorem definitiveFailure_writes {c : DefinitiveFailure}
    (h : commitDefinitiveProviderMutationFailure D c elsewhere timestamp t = some (deleted, t')) :
    SagaWrite (Saga.IsHeld c.ref c.providerLeaseToken timestamp) timestamp t t' := by
  unfold commitDefinitiveProviderMutationFailure at h
  split at h
  · cases h
  simp only [Option.bind_eq_some_iff] at h
  obtain ⟨t₁, hreleased, ⟨_, _⟩, hdelete, h⟩ := h
  split at h
  · cases h
    have hsagas : t₁.sagas = t.sagas ∧ t₁.sagaSerial = t.sagaSerial := by
      split at hreleased
      · have hkept := release_incarnation_sagas hreleased
        exact hkept
      · cases hreleased
        exact ⟨rfl, rfl⟩
    refine SagaWrite.congr (deleteSaga_writes (fun r _ hp => ?_) hdelete) hsagas.1.symm
      hsagas.2.symm rfl rfl
    simp only [Bool.and_eq_true] at hp
    obtain ⟨⟨⟨⟨hnamed, haccepts⟩, -⟩, -⟩, hstarted⟩ := hp
    exact ⟨hnamed, haccepts, hstarted⟩
  · cases h

/-! ### Commits -/

/-- The saga of an operation whose receipt a mutation carries. -/
structure Saga.IsCommitted (m : Mutation) (operationId : String) (r : Saga) : Prop where
  operationId : r.operationId = operationId
  receipt : r.receiptJson.isSome = true
  exact : r.receiptJson = m.receiptJson

theorem retireSaga_writes (h : m.retireSaga operationId t = some t') :
    SagaWrite (Saga.IsCommitted m operationId) timestamp t t' := by
  unfold Mutation.retireSaga at h
  split at h
  · cases h
    exact SagaWrite.of_eq rfl rfl
  · next hm =>
    obtain ⟨⟨_, u⟩, hdelete, rfl⟩ := Option.map_eq_some_iff.mp h
    refine deleteSaga_writes (fun r _ hp => ?_) hdelete
    obtain ⟨hid, -, hreceipt⟩ := of_decide_eq_true hp
    exact ⟨hid, by rw [hreceipt]; rfl, by rw [hreceipt, hm]⟩

/-- What precedes the statements on the Resource leaves the sagas alone. -/
theorem recordEvidence_sagas (h : m.recordEvidence operationId
      (m.closeTombstone operationId (m.concludeEffect operationId kind t)) = some t') :
    t'.sagas = t.sagas ∧ t'.sagaSerial = t.sagaSerial := by
  have heffect : ∀ e : Effect,
      (insertEffect e t).sagas = t.sagas ∧ (insertEffect e t).sagaSerial = t.sagaSerial := by
    intro e
    unfold insertEffect
    split <;> exact ⟨rfl, rfl⟩
  have hconclude : (m.concludeEffect operationId kind t).sagas = t.sagas ∧
      (m.concludeEffect operationId kind t).sagaSerial = t.sagaSerial := by
    unfold Mutation.concludeEffect
    split
    · exact ⟨rfl, rfl⟩
    · exact heffect _
    · exact heffect _
  have hclose : ∀ u : Tables, (m.closeTombstone operationId u).sagas = u.sagas ∧
      (m.closeTombstone operationId u).sagaSerial = u.sagaSerial := by
    intro u
    unfold Mutation.closeTombstone
    split <;> exact ⟨rfl, rfl⟩
  have hrecord : ∀ u : Tables, m.recordEvidence operationId u = some t' →
      t'.sagas = u.sagas ∧ t'.sagaSerial = u.sagaSerial := by
    intro u hu
    unfold Mutation.recordEvidence at hu
    dsimp only at hu
    split at hu
    · cases hu
      exact ⟨rfl, rfl⟩
    · split at hu
      · cases hu
      · cases hu
        exact ⟨rfl, rfl⟩
  obtain ⟨hs, hn⟩ := hrecord _ h
  exact ⟨hs.trans ((hclose _).1.trans hconclude.1), hn.trans ((hclose _).2.trans hconclude.2)⟩

theorem commitStatements_writes {claimOwner : Owner} {fencesRevision creates : Bool}
    {fence : Tables → Bool} {current : Resource → Bool} {finish : List Operation → List Operation}
    (h : commitStatements D m operationId kind claimOwner fencesRevision fence creates current
      finish timestamp t = some t') :
    fence t = true ∧ SagaWrite (Saga.IsCommitted m operationId) timestamp t t' := by
  unfold commitStatements at h
  split at h
  · next hguards =>
    simp only [Bool.and_eq_true] at hguards
    obtain ⟨u, hevidence, hretire⟩ := Option.bind_eq_some_iff.mp h
    obtain ⟨hsagas, hserial⟩ := recordEvidence_sagas hevidence
    exact ⟨hguards.1.1.1.2,
      SagaWrite.congr (retireSaga_writes hretire) hsagas.symm hserial.symm rfl rfl⟩
  · cases h

theorem commitImmediate_writes
    (h : commitImmediateMutation D m operationId kind elsewhere timestamp t = some t') :
    m.immediateSagaFence operationId kind t = true ∧
      SagaWrite (Saga.IsCommitted m operationId) timestamp t t' := by
  unfold commitImmediateMutation at h
  split at h
  · obtain ⟨hfence, hwrite⟩ := commitStatements_writes h
    exact ⟨(Bool.and_eq_true _ _ ▸ hfence).1, hwrite⟩
  · cases h

theorem commitDeferred_writes {operation : Operation} {terminalJson : String}
    (h : commitDeferredMutation D operation m leaseToken terminalJson elsewhere timestamp t =
      some t') :
    m.deferredSagaFence operation t = true ∧
      SagaWrite (Saga.IsCommitted m operation.id) timestamp t t' := by
  unfold commitDeferredMutation at h
  split at h
  · obtain ⟨hfence, hwrite⟩ := commitStatements_writes h
    simp only [Bool.and_eq_true] at hfence
    exact ⟨hfence.1.2, hwrite⟩
  · cases h

theorem Mutation.namesSaga_committed (h : m.namesSaga operationId kind r = true) :
    r.IsCommitted m operationId := by
  obtain ⟨hid, -, -, -, -, -, hsome, hexact⟩ := of_decide_eq_true h
  exact ⟨hid, hsome, hexact⟩

end Statements

/-! ### Executors -/

section Executors

variable {D : Digests} {x : Executor} {timestamp : Instant} {t : Tables}

/-- What a delivered statement leaves holds of the tables it found, or of those it made. -/
theorem deliver_tables {P : Tables → Prop} {delivery : Delivery} {outcome : Option (Bool × Tables)}
    {next : Bool → Stage} {aborted failed : Stage} (ht : P t)
    (h : ∀ changed t', outcome = some (changed, t') → P t') :
    P (deliver delivery t outcome next aborted failed).1 := by
  unfold deliver
  split
  · next => exact h _ _ rfl
  · exact ht
  · next => exact h _ _ rfl
  · exact ht
  · exact ht

/-- The stages in which an executor settles a failure by deleting its saga. -/
def Stage.settles : Stage → Bool
  | .settleImport _ | .settle _ .commitDefinitiveFailure | .settle _ (.precondition _) => true
  | _ => false

/-- What an executor may remove: in a settlement, the started saga that it still holds. -/
structure Executor.Settles (x : Executor) (timestamp : Instant) (r : Saga) : Prop where
  stage : x.stage.settles = true
  held : r.IsHeld x.ref x.lease.token timestamp

theorem Executor.settleStep_writes {c : Caught} {settlement : Settlement} {choice : Choice}
    {result : Executor.Result} (hstage : x.stage = .settle c settlement)
    (h : x.settleStep D timestamp t settlement choice = some result) :
    SagaWrite (x.Settles timestamp) timestamp t result.tables := by
  have hkeep : SagaWrite (x.Settles timestamp) timestamp t t := SagaWrite.of_eq rfl rfl
  unfold Executor.settleStep at h
  split at h
  · split at h
    · cases h
      exact hkeep
    · cases h
      refine deliver_tables hkeep fun changed t' ho => ?_
      cases ho
      exact outcome_writes ..
  · split at h
    · next hown =>
      cases h
      refine deliver_tables hkeep fun changed t' ho => ?_
      refine (definitiveFailure_writes ho).mono fun r _ hr => ⟨by rw [hstage]; rfl, ?_⟩
      rw [← hown.1, ← hown.2]
      exact hr
    · cases h
  · cases h
    exact hkeep
  · cases h
    exact hkeep
  · cases h
    refine deliver_tables hkeep fun changed t' ho => ?_
    exact (precondition_writes ho).mono fun r _ hr => ⟨by rw [hstage]; rfl, hr⟩
  · cases h

/-- **One step of an executor** is one statement on the sagas at most, and removes only the saga
a settlement holds. -/
theorem Executor.step_writes {choice : Choice} {result : Executor.Result}
    (h : x.step D timestamp t x.stage choice = some result) :
    SagaWrite (x.Settles timestamp) timestamp t result.tables := by
  have hkeep : ∀ leaves, SagaWrite leaves timestamp t t := fun _ => SagaWrite.of_eq rfl rfl
  generalize hstage : x.stage = stage at h
  unfold Executor.step at h
  split at h
  · split at h
    · cases h
      exact hkeep _
    · cases h
      refine deliver_tables (hkeep _) fun changed t' ho => ?_
      cases ho
      exact acquire_writes ..
  · cases h
    refine deliver_tables (hkeep _) fun changed t' ho => ?_
    cases ho
    exact acquire_writes ..
  · cases h
    exact hkeep _
  · split at h
    · cases h
      exact hkeep _
    · cases h
  · obtain ⟨s, -, rfl⟩ := Option.map_eq_some_iff.mp h
    refine deliver_tables (hkeep _) fun changed t' ho => ?_
    obtain ⟨u, hu, hu'⟩ := Option.map_eq_some_iff.mp ho
    cases hu'
    exact SagaWrite.of_eq (reserveResourceDependencies_sagas hu).1
      (reserveResourceDependencies_sagas hu).2
  · cases h
    exact hkeep _
  · cases h
    exact hkeep _
  · cases h
    refine deliver_tables (hkeep _) fun changed t' ho => ?_
    cases ho
    exact bindApply_writes ..
  · cases h
    refine deliver_tables (hkeep _) fun changed t' ho => ?_
    cases ho
    exact bindImport_writes ..
  · cases h
    exact hkeep _
  · cases h
    exact deliver_tables (hkeep _) fun changed t' ho => mark_writes ho
  · cases h
    exact hkeep _
  · cases h
    exact hkeep _
  · cases h
    refine deliver_tables (hkeep _) fun changed t' ho => ?_
    obtain ⟨u, hu, hu'⟩ := Option.map_eq_some_iff.mp ho
    cases hu'
    exact receipt_writes hu
  -- the six stages of the `try` block that may throw
  iterate 6
    · cases h
      exact hkeep _
  · cases h
    exact hkeep _
  · cases h
    refine deliver_tables (hkeep _) fun changed t' ho => ?_
    exact (settleImport_writes ho).mono fun r _ hr => ⟨by rw [hstage]; rfl, hr⟩
  · exact Executor.settleStep_writes hstage h
  · cases h
    refine deliver_tables (hkeep _) fun changed t' ho => ?_
    cases ho
    exact release_writes ..
  · cases h
    refine deliver_tables (hkeep _) fun changed t' ho => ?_
    cases ho
    exact SagaWrite.of_eq rfl rfl
  · cases h

end Executors

end Takoserver.V1
