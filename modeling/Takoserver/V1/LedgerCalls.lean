import Takoserver.V1.LedgerWrites
import Takoserver.V1.Targets

/-!
# The ledger, call by call

What each call of the store does to the event rows and to the columns that list
them.  A batch that records an event writes both, so it keeps them in step; the
calls that are not about an incarnation touch neither.
-/

namespace Takoserver.V1

section Calls

variable {D : Digests} {timestamp : Instant} {t t' : Tables}

/-! ### Calls that are not about an incarnation -/

/-- The incarnation whose rows a call writes. -/
def Call.incarnation : Call → Option (String × String)
  | .reserveIncarnation address resourceUid _ | .prepareDeletion address resourceUid _ _ =>
    some (address.tenantId, resourceUid)
  | .recordEffect e => some e.tenantUid
  | .releaseIncarnation tenantId resourceUid _ _ => some (tenantId, resourceUid)
  | .settlePrecondition i _ _ => some (i.tenantId, i.resourceUid)
  | .commitDefinitiveFailure failure _ => some failure.tenantUid
  | .commitImmediate m _ _ _ | .commitDeferred _ m _ _ _ => some m.tenantUid
  | _ => none

/-- The event rows and the attestations are left alone. -/
def SameLedger (t t' : Tables) : Prop := t'.effects = t.effects ∧ t'.attestations = t.attestations

variable {deleted elsewhere fencesRevision : Bool} {tenantId resourceUid operationId : String}
  {e : Effect} {c : DefinitiveFailure} {m : Mutation} {kind : OperationKind}

theorem deleteSaga_ledger {p : Saga → Bool} (h : deleteSaga p t = some (deleted, t')) :
    SameLedger t t' := by
  unfold deleteSaga at h
  split at h
  · cases h
  · cases h
    exact ⟨rfl, rfl⟩

theorem retainCommand_ledger (i : SagaRef) (p : Saga → Bool) (q : Operation → Bool) (t : Tables) :
    SameLedger t (retainCommand i p q t) := by
  unfold retainCommand
  split <;> exact ⟨rfl, rfl⟩

/-- The calls that leave the ledger alone. -/
theorem Call.apply_sameLedger {call : Call} (hcall : call.incarnation = none)
    (h : call.apply D timestamp t = some t') : SameLedger t t' := by
  cases call with
  | acceptSaga =>
    unfold Call.apply acceptProviderMutationSaga at h
    dsimp only at h
    repeat' split at h
    all_goals cases h
    all_goals exact ⟨rfl, rfl⟩
  | rotateReplayKey =>
    obtain ⟨⟨_, u⟩, hu, rfl⟩ := Option.map_eq_some_iff.mp h
    unfold V1.rotateReplayKey at hu
    dsimp only at hu
    split at hu
    · cases hu
    · cases hu
      exact ⟨rfl, rfl⟩
  | bindApply =>
    cases h
    exact retainCommand_ledger ..
  | bindImport =>
    cases h
    exact retainCommand_ledger ..
  | markDispatch _ _ _ dependencies =>
    obtain ⟨⟨_, u⟩, hu, rfl⟩ := Option.map_eq_some_iff.mp h
    unfold markProviderMutationDispatch at hu
    cases dependencies with
    | none | some d =>
      dsimp only at hu
      repeat' split at hu
      all_goals cases hu
      exact retainCommand_ledger ..
  | recordReceipt =>
    unfold Call.apply recordProviderMutationReceipt at h
    dsimp only at h
    split at h
    · cases h
    · cases h
      exact ⟨rfl, rfl⟩
  | abandonPlan i replayKey | settleImport i replayKey leaseToken =>
    obtain ⟨⟨_, u⟩, hu, rfl⟩ := Option.map_eq_some_iff.mp h
    exact deleteSaga_ledger hu
  | reserveClaims =>
    obtain ⟨_, -, rfl⟩ := Option.map_eq_some_iff.mp h
    exact ⟨rfl, rfl⟩
  | reserveDependencies =>
    unfold Call.apply reserveResourceDependencies at h
    dsimp only at h
    repeat' split at h
    all_goals cases h
    all_goals exact ⟨rfl, rfl⟩
  | acceptOperation =>
    unfold Call.apply acceptDeferredOperation at h
    dsimp only at h
    repeat' split at h
    all_goals cases h
    all_goals exact ⟨rfl, rfl⟩
  | settlePrecondition | commitDefinitiveFailure | reserveIncarnation | recordEffect
  | prepareDeletion | releaseIncarnation | commitImmediate | commitDeferred => cases hcall
  | _ =>
    cases h
    exact ⟨rfl, rfl⟩

/-! ### Incarnations -/

variable {unprojected : List Effect} {ps : List Projection}

theorem attests_iff {p : Attestation → Bool} :
    t.attests tenantId resourceUid p = true ↔
      ∃ a ∈ t.attestations, a.tenantUid = (tenantId, resourceUid) ∧ p a = true := by
  simp [Tables.attests, Attestation.tenantUid, and_assoc]

theorem hasEffect_iff {effectId : String} {p : Effect → Bool} :
    t.hasEffect tenantId resourceUid effectId p = true ↔
      ∃ e ∈ t.effects, e.attempt = (tenantId, resourceUid, effectId) ∧ p e = true := by
  simp [Tables.hasEffect, Effect.attempt, and_assoc]

/-- The event rows, and the columns that list them. -/
structure LedgerHolds (unprojected : List Effect) (t : Tables) (ps : List Projection) : Prop where
  events : EventsHold t.effects
  listed : Listed unprojected t.effects t.attestations ps

theorem reserveIncarnation_ledger {address : Address} {formRef : FormRef}
    (h : LedgerHolds unprojected t ps) :
    LedgerHolds unprojected (reserveResourceIncarnation address resourceUid formRef t)
      (openProjection (address.tenantId, resourceUid) t ps) := by
  unfold reserveResourceIncarnation openProjection
  split
  · exact h
  · next hnone =>
    exact ⟨h.events, h.listed.opened (a := { address, resourceUid, formRef, state := .live })
      (attests_false hnone)⟩

theorem prepareDeletion_ledger {address : Address} {formRef : FormRef}
    (h : LedgerHolds unprojected t ps)
    (hcall : prepareResourceDeletion D address resourceUid formRef elsewhere timestamp t =
      some t') :
    LedgerHolds unprojected t' (openProjection (address.tenantId, resourceUid) t ps) := by
  have harm : LedgerHolds unprojected (armDeletion address resourceUid formRef t)
      (openProjection (address.tenantId, resourceUid) t ps) := by
    unfold armDeletion openProjection
    split
    · refine ⟨h.events, h.listed.arm (f := fun a => { a with state := .pending }) (fun a => rfl)
        (fun a ha _ => ?_) (fun e he a hkey ha haopen => rfl)⟩
      simp only [decide_eq_true_eq] at ha
      simp [Attestation.isOpen, ha.2.2.2]
    · next hnone =>
      exact ⟨h.events, h.listed.opened (a := { address, resourceUid, formRef, state := .pending })
        (attests_false hnone)⟩
  unfold prepareResourceDeletion at hcall
  dsimp only at hcall
  repeat' split at hcall
  all_goals cases hcall
  exact harm

theorem releaseIncarnation_ledger {effectId : String} (h : LedgerHolds unprojected t ps)
    (hquiet : eventsOf (tenantId, resourceUid) unprojected = [])
    (hcall : uncommittedResourceIncarnationRelease tenantId resourceUid effectId elsewhere t =
      some t') :
    LedgerHolds unprojected t' (releaseProjection tenantId resourceUid effectId elsewhere t ps) := by
  unfold uncommittedResourceIncarnationRelease at hcall
  unfold releaseProjection
  split at hcall
  swap
  · next hfence =>
    cases hcall
    rw [if_neg hfence]
    exact h
  next hfence =>
  rw [if_pos hfence]
  split at hcall
  · cases hcall
  cases hcall
  simp only [isUncommitted, Bool.and_eq_true, Bool.not_eq_true'] at hfence
  obtain ⟨⟨-, hlive⟩, hothers⟩ := hfence
  obtain ⟨b, hb, hbkey, hbstate⟩ := attests_iff.mp hlive
  -- every row of the incarnation is of this attempt
  have hattempt : ∀ e ∈ t.effects, e.tenantUid = (tenantId, resourceUid) → e.effectId = effectId := by
    intro e he hkey
    by_contra hne
    rw [List.any_eq_false] at hothers
    refine hothers e he ?_
    simp only [Effect.tenantUid, Prod.mk.injEq] at hkey
    exact decide_eq_true ⟨hkey.1, hkey.2, Or.inl hne⟩
  refine ⟨h.events.delete fun e e' heq => ?_, h.listed.release (fun e he => ?_) (fun a ha => ?_) hquiet⟩
  · simp only [Effect.attempt, Prod.mk.injEq] at heq
    rw [heq.1, heq.2.1, heq.2.2]
  · by_cases hkey : e.tenantUid = (tenantId, resourceUid)
    · have hid := hattempt e he hkey
      rw [decide_eq_true hkey]
      simp only [Effect.tenantUid, Prod.mk.injEq] at hkey
      exact decide_eq_true ⟨hkey.1, hkey.2, hid⟩
    · rw [decide_eq_false hkey]
      refine decide_eq_false fun hall => hkey ?_
      rw [Effect.tenantUid, hall.1, hall.2.1]
  · by_cases hkey : a.tenantUid = (tenantId, resourceUid)
    · have hab : a = b := Table.eq_of_key h.listed.incarnations ha hb (hkey.trans hbkey.symm)
      subst hab
      rw [decide_eq_true hkey]
      exact decide_eq_true ⟨hkey, of_decide_eq_true hbstate⟩
    · rw [decide_eq_false hkey]
      exact decide_eq_false fun hall => hkey hall.1

/-- What a batch that records an event does to the ledger. -/
theorem project_ledger {state : Attestation → Bool} (h : LedgerHolds unprojected t ps)
    (he : IsPermitted e t.effects) (hstate : t.attests e.tenantId e.resourceUid state = true)
    (hquiet : eventsOf e.tenantUid unprojected = []) :
    LedgerHolds unprojected { t with effects := t.effects ++ [e] } (project e state t ps) := by
  unfold project
  rw [if_pos hstate]
  obtain ⟨a, ha, hkey, -⟩ := attests_iff.mp hstate
  exact ⟨h.events.append he, h.listed.record ⟨a, ha, hkey⟩ hquiet⟩

theorem isPermitted_of_unconcluded (hterminal : e.isTerminal = true)
    (hnone : t.hasEffect e.tenantId e.resourceUid e.effectId Effect.isTerminal = false) :
    IsPermitted e t.effects := by
  have hopen : ∀ e' ∈ t.effects, e'.attempt = e.attempt → e'.isTerminal = false := by
    intro e' he' hattempt
    rw [Bool.eq_false_iff] at hnone ⊢
    exact fun hterminal => hnone (hasEffect_iff.mpr ⟨e', he', hattempt, hterminal⟩)
  refine ⟨fun e' he' hkey => ?_, fun hdispatched => ?_, fun _ => hopen⟩
  · obtain ⟨hattempt, hphase⟩ := Effect.key_eq_iff.mp hkey
    have hfalse := hopen e' he' hattempt
    rw [Effect.isTerminal, hphase, ← Effect.isTerminal, hterminal] at hfalse
    cases hfalse
  · simp [Effect.isTerminal, hdispatched] at hterminal

theorem settlePrecondition_ledger {i : SagaRef} {leaseToken : String}
    {action : Option RecoveryAction} (h : LedgerHolds unprojected t ps)
    (hquiet : eventsOf (i.tenantId, i.resourceUid) unprojected = [])
    (hcall : settleProviderMutationPreconditionFailure i leaseToken action timestamp t =
      some (deleted, t')) :
    LedgerHolds unprojected t' (projectSettlement i leaseToken action timestamp t ps) := by
  unfold settleProviderMutationPreconditionFailure at hcall
  dsimp only at hcall
  unfold projectSettlement
  cases hsaga : settledSaga i leaseToken action timestamp t with
  | none =>
    unfold settledSaga at hsaga
    rw [hsaga] at hcall
    cases hcall
    exact h
  | some r =>
    unfold settledSaga at hsaga
    rw [hsaga] at hcall
    have hguard := List.find?_some hsaga
    simp only [Bool.and_eq_true, Bool.not_eq_true'] at hguard
    obtain ⟨⟨⟨-, hopen⟩, -⟩, hnone⟩ := hguard
    have hpermitted : IsPermitted (i.cancelled r.operationKind) t.effects :=
      isPermitted_of_unconcluded rfl hnone
    -- the open attestation lists the rows, and this event is not one of them
    have hunlisted : ¬ ps.any (fun p => decide (p.tenantUid = (i.cancelled r.operationKind).tenantUid) &&
        p.effects.any fun e' => decide (e'.key = (i.cancelled r.operationKind).key)) = true := by
      simp only [List.any_eq_true, Bool.and_eq_true, decide_eq_true_eq, not_exists, not_and]
      intro p hp hpkey e' he' hkey
      obtain ⟨a, ha, hakey, haopen⟩ := attests_iff.mp hopen
      obtain ⟨hlist, -⟩ := h.listed.listed a ha haopen p hp (hpkey.trans hakey.symm)
      have hrow : e' ∈ eventsOf a.tenantUid t.effects := by
        rw [← hlist]
        exact List.mem_append_left _ he'
      exact hpermitted.fresh e' (mem_eventsOf.mp hrow).1 hkey
    dsimp only
    rw [if_neg hunlisted]
    have hrecorded := project_ledger (e := i.cancelled r.operationKind) h hpermitted hopen hquiet
    dsimp only at hcall
    unfold deleteSaga at hcall
    split at hcall
    · cases hcall
    · cases hcall
      exact ⟨hrecorded.events, hrecorded.listed⟩

/-- What a definitive failure has checked of the attempt. -/
structure FencedAttempt (c : DefinitiveFailure) (t : Tables) : Prop where
  live : t.attests c.saga.target.tenantId c.saga.resourceUid (fun a =>
    decide (a.address = c.saga.target ∧ a.state = .live) &&
      match c.hostOperation with
      | .immediate => true
      | .deferred o _ _ => decide (a.formRef = o.targetFormRef)) = true
  planned : c.event .planned ∈ t.effects
  dispatched : c.event .dispatched ∈ t.effects
  unconcluded : t.hasEffect c.saga.target.tenantId c.saga.resourceUid c.saga.operationId
    Effect.isTerminal = false

theorem fencedAttempt (h : c.initialFence D elsewhere timestamp t = true) : FencedAttempt c t := by
  have hattempt : c.fencesAttempt t = true := by
    simp only [DefinitiveFailure.initialFence, Bool.and_eq_true] at h
    exact h.1.2
  have hevent : ∀ phase, t.hasEffect c.saga.target.tenantId c.saga.resourceUid c.saga.operationId
      (fun e => decide (e.effectKind = .apply ∧ e.phase = phase ∧ e.operationMode = .initial)) =
        true → c.event phase ∈ t.effects := by
    intro phase hhas
    obtain ⟨e, he, hkey, hcolumns⟩ := hasEffect_iff.mp hhas
    simp only [Effect.attempt, Prod.mk.injEq, decide_eq_true_eq] at hkey hcolumns
    have heq : e = c.event phase := by
      obtain ⟨_, _, _, _, _, _⟩ := e
      simp only at hkey hcolumns
      simp [DefinitiveFailure.event, hkey, hcolumns]
    exact heq ▸ he
  simp only [DefinitiveFailure.fencesAttempt, Bool.and_eq_true, Bool.not_eq_true'] at hattempt
  obtain ⟨⟨⟨hlive, hplanned⟩, hdispatched⟩, hnone⟩ := hattempt
  exact ⟨hlive, hevent _ hplanned, hevent _ hdispatched, hnone⟩

theorem FencedAttempt.isLive (h : FencedAttempt c t) :
    t.attests c.saga.target.tenantId c.saga.resourceUid (fun a => decide (a.state = .live)) =
      true := by
  obtain ⟨a, ha, hkey, hfence⟩ := attests_iff.mp h.live
  simp only [Bool.and_eq_true, decide_eq_true_eq] at hfence
  exact attests_iff.mpr ⟨a, ha, hkey, decide_eq_true hfence.1.2⟩

/-- The attempt is concluded, in both places. -/
theorem conclude_ledger (h : LedgerHolds unprojected t ps) (hfence : FencedAttempt c t)
    (hquiet : eventsOf c.tenantUid unprojected = []) :
    LedgerHolds unprojected (c.conclude t)
      (V1.project (c.event .cancelled) (fun a => decide (a.state = .live)) t ps) := by
  have hrecorded := project_ledger (e := c.event .cancelled) h
    (isPermitted_of_unconcluded rfl hfence.unconcluded) hfence.isLive hquiet
  refine ⟨hrecorded.events, hrecorded.listed.arm (f := fun a => { a with state := .cancelled })
    (fun a => rfl) (fun a _ hopen => ?_) (fun e he a hkey ha _ => ?_)⟩
  · simp [Attestation.isOpen] at hopen
  · simp only [Bool.and_eq_true, decide_eq_true_eq] at ha
    exact absurd (hkey.symm.trans ha.1.1) (eventsOf_eq_nil.mp hquiet e he)

/-- A definitive failure keeps the ledger in step. -/
theorem definitiveFailure_ledger (h : LedgerHolds unprojected t ps)
    (hquiet : eventsOf c.tenantUid unprojected = [])
    (hcall : commitDefinitiveProviderMutationFailure D c elsewhere timestamp t =
      some (deleted, t')) :
    LedgerHolds unprojected t' (c.project elsewhere t ps) := by
  obtain ⟨-, hfence, u, hu, -, -, -, hattestations, -, -, heffects⟩ :=
    definitiveFailure_stages hcall
  have hconcluded := conclude_ledger h (fencedAttempt hfence) hquiet
  have hledger : LedgerHolds unprojected u (c.project elsewhere t ps) := by
    unfold DefinitiveFailure.project
    split at hu
    · next hcreate =>
      rw [if_pos hcreate]
      exact releaseIncarnation_ledger hconcluded hquiet hu
    · next hcreate =>
      rw [if_neg hcreate]
      cases hu
      exact hconcluded
  exact ⟨by rw [heffects]; exact hledger.events,
    by rw [heffects, hattestations]; exact hledger.listed⟩

/-! ### Commits -/

variable {fence : Tables → Bool} {current : Resource → Bool}
  {finish : List Operation → List Operation}

theorem Mutation.isOpen_of_evidenceFence (h : m.evidenceFence operationId fencesRevision t = true) :
    t.attests m.address.tenantId m.resourceUid Attestation.isOpen = true := by
  simp only [Mutation.evidenceFence, Bool.and_eq_true] at h
  have hpredecessor := h.2
  unfold Mutation.predecessorFence at hpredecessor
  split at hpredecessor
  · simp only [Bool.and_eq_true] at hpredecessor
    obtain ⟨a, ha, hkey, hfence⟩ := attests_iff.mp hpredecessor.1
    refine attests_iff.mpr ⟨a, ha, hkey, ?_⟩
    simp [Attestation.isOpen, (of_decide_eq_true hfence).2.1]
  · obtain ⟨r, hr, hfence⟩ := (Option.any_eq_true _ _).mp hpredecessor
    simp only [Bool.and_eq_true, decide_eq_true_eq, List.any_eq_true] at hfence
    obtain ⟨⟨⟨huid, -⟩, a, ha, ⟨hexact, hstate⟩, -⟩, -⟩ := hfence
    have hraddress := (Table.find_some hr).2
    simp only [rowIsExact, decide_eq_true_eq] at hexact
    refine attests_iff.mpr ⟨a, ha, ?_, ?_⟩
    · rw [Attestation.tenantUid, hexact.1, hexact.2.1, huid, hraddress]
    · split at hstate
      · exact hstate
      · simp [Attestation.isOpen, of_decide_eq_true hstate]

theorem Mutation.concludeEffect_event (m : Mutation) (operationId : String) (kind : OperationKind)
    (t : Tables) :
    m.concludeEffect operationId kind t =
      (m.event operationId kind).elim t fun e => insertEffect e t := by
  unfold Mutation.concludeEffect Mutation.event
  cases m.change <;> rfl

theorem Mutation.event_some (h : m.event operationId kind = some e) :
    e.attempt = (m.address.tenantId, m.resourceUid, operationId) ∧ e.phase = .succeeded ∧
      m.receiptJson.isNone = false := by
  obtain ⟨_, _, _, _, _, _, _, _, change⟩ := m
  cases change with
  | unchanged => cases h
  | write | delete =>
    cases h
    exact ⟨rfl, rfl, rfl⟩

theorem closeTombstone_ledger (m : Mutation) (operationId : String)
    (h : LedgerHolds unprojected t ps) (hquiet : m.isDelete = true →
      eventsOf m.tenantUid unprojected = []) :
    LedgerHolds unprojected (m.closeTombstone operationId t) ps := by
  unfold Mutation.closeTombstone
  split
  swap
  · exact h
  next hcloses =>
  simp only [Bool.and_eq_true] at hcloses
  refine ⟨h.events, h.listed.arm (f := fun a => { a with state := .closed }) (fun a => rfl)
    (fun a _ hopen => ?_) (fun e he a hkey ha _ => ?_)⟩
  · simp [Attestation.isOpen] at hopen
  · simp only [decide_eq_true_eq] at ha
    exact absurd (hkey.symm.trans ha.1) (eventsOf_eq_nil.mp (hquiet hcloses.1.1) e he)

theorem commit_ledger {claimOwner : Owner} {creates : Bool} (h : LedgerHolds unprojected t ps)
    (hquiet : m.receiptJson.isNone = false → eventsOf m.tenantUid unprojected = [])
    (hnone : m.receiptJson.isNone = false →
      t.hasEffect m.address.tenantId m.resourceUid operationId Effect.isTerminal = false)
    (hcall : commitStatements D m operationId kind claimOwner fencesRevision fence creates current
      finish timestamp t = some t') :
    LedgerHolds unprojected t' (m.project operationId kind t ps) := by
  obtain ⟨-, -, hresult, heffects, hattestations⟩ := commitStatements_eq hcall
  have hfence := hresult.evidenceFence
  have hreceipt : m.isDelete = true → m.receiptJson.isNone = false := by
    obtain ⟨_, _, _, _, _, _, _, _, change⟩ := m
    cases change with
    | delete => exact fun _ => rfl
    | write | unchanged => exact fun hdelete => by cases hdelete
  -- the event, where there is one
  have hrecorded : LedgerHolds unprojected (m.concludeEffect operationId kind t)
      ((m.event operationId kind).elim ps fun e => V1.project e Attestation.isOpen t ps) := by
    rw [Mutation.concludeEffect_event]
    cases hevent : m.event operationId kind with
    | none => exact h
    | some e =>
      obtain ⟨hattempt, hphase, hreceipt⟩ := Mutation.event_some hevent
      have hnone := hnone hreceipt
      simp only [Effect.attempt, Prod.mk.injEq] at hattempt
      obtain ⟨htenant, huid, hid⟩ := hattempt
      rw [← htenant, ← huid, ← hid] at hnone
      have hopen := Mutation.isOpen_of_evidenceFence hfence
      rw [← htenant, ← huid] at hopen
      have hpermitted : IsPermitted e t.effects :=
        isPermitted_of_unconcluded (by simp [Effect.isTerminal, hphase]) hnone
      have hinsert : insertEffect e t = { t with effects := t.effects ++ [e] } := by
        unfold insertEffect
        rw [if_neg]
        rw [List.any_eq_true]
        rintro ⟨e', he', hkey⟩
        exact hpermitted.fresh e' he' (of_decide_eq_true hkey)
      have hquiet := hquiet hreceipt
      rw [Mutation.tenantUid, ← htenant, ← huid] at hquiet
      simp only [Option.elim_some, hinsert]
      exact project_ledger h hpermitted hopen hquiet
  have hclosed := closeTombstone_ledger m operationId hrecorded
    fun hdelete => hquiet (hreceipt hdelete)
  have hclosedEffects : (m.closeTombstone operationId
      (m.concludeEffect operationId kind t)).effects =
        (m.concludeEffect operationId kind t).effects := by
    rw [(closeTombstone_eq m operationId _).1]
  refine ⟨by rw [heffects, ← hclosedEffects]; exact hclosed.events, ?_⟩
  rw [heffects, hattestations, ← hclosedEffects]
  unfold Mutation.project
  dsimp only
  split
  · next hcloses =>
    simp only [Bool.and_eq_true] at hcloses
    obtain ⟨b, hb, hbkey, hbstate⟩ := attests_iff.mp hcloses.2
    refine hclosed.listed.bump (fun p => rfl) fun a ha hkey => ?_
    have hab : a = b := Table.eq_of_key hclosed.listed.incarnations ha hb (hkey.trans hbkey.symm)
    subst hab
    simp [Attestation.isOpen, of_decide_eq_true hbstate]
  · exact hclosed.listed

end Calls

end Takoserver.V1
