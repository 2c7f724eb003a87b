import Takoserver.V1.Identity

/-!
# Deletions that are refused

`remove` of `src/takoform/engine.ts` arms the deletion of a Resource before it
asks a provider: the batch of `prepareResourceDeletion` turns its attestation
from live to pending.  An attempt that fails before the provider is dispatched
records its effect as cancelled and abandons its plan.  Nothing turns the
attestation back, and every later command wants it live.
-/

namespace Takoserver.V1

open Machine

/-! ### What later commands ask -/

/-- What `reserveResourceIncarnation` answers: the row it reads back is live, at the address and of
the Form it was given. -/
def incarnationIsReserved (address : Address) (resourceUid : String) (formRef : FormRef)
    (t : Tables) : Bool :=
  (reserveResourceIncarnation address resourceUid formRef t).attests address.tenantId resourceUid
    fun a => decide (a.address = address ∧ a.formRef = formRef ∧ a.state = .live)

/-- The mutation updates the Resource. -/
structure Mutation.Updates (m : Mutation) (r : Resource) : Prop where
  address : m.address = r.address
  uid : m.resourceUid = r.uid
  revision : m.expectedRevision = some r.revision
  formRef : ∃ d, m.document = some d ∧ d.formRef = r.document.formRef
  changed : m.isUnchanged = false

/-- A dependency on a Resource, as it is stored. -/
structure Target.Names (f : Target) (r : Resource) : Prop where
  address : f.address r.address.tenantId = r.address
  uid : f.uid = r.uid
  revision : f.revision = r.revision
  formRef : f.formRef = r.document.formRef

/-- The Resource may be worked on: its incarnation is reserved again, an update finds its
predecessor, and a dependency its target. -/
structure Accepts (t : Tables) (r : Resource) : Prop where
  incarnation : incarnationIsReserved r.address r.uid r.document.formRef t = true
  update : ∀ m : Mutation, m.Updates r → m.predecessorFence true t = true
  target : ∀ f : Target, f.Names r → t.targetIsLive r.address.tenantId f = true

/-! ### Attempts -/

/-- Where an attempt is. -/
inductive DeleteStage where
  /-- The batch of `prepareResourceDeletion` is to run. -/
  | prepare
  /-- The deletion is armed: its planned effect is to be recorded. -/
  | plan
  /-- `executeProviderMutation` is under way, and has not crossed the provider boundary. -/
  | execute
  /-- It failed: the effect is to be recorded as cancelled. -/
  | cancel
  /-- The plan is to be abandoned. -/
  | abandon
  /-- The attempt ended without effect. -/
  | refused
  /-- It was dispatched, found another executor, or stopped: a deletion is under way. -/
  | left
  deriving DecidableEq

/-- One `remove`. -/
structure DeleteAttempt where
  address : Address
  resourceUid : String
  formRef : FormRef
  operationId : String
  replayKey : String
  /-- The fences of the batch of `prepareResourceDeletion` held when it ran. -/
  available : Bool := false
  stage : DeleteStage := .prepare

namespace DeleteAttempt

variable (a : DeleteAttempt)

def tenantUid : String × String := (a.address.tenantId, a.resourceUid)

/-- The event of a phase of the attempt. -/
def event (phase : EffectPhase) : Effect :=
  { tenantId := a.address.tenantId, resourceUid := a.resourceUid, effectId := a.operationId,
    effectKind := .delete, phase, operationMode := .initial }

/-- The saga of the attempt. -/
def ref : SagaRef :=
  { tenantId := a.address.tenantId, operationId := a.operationId, resourceUid := a.resourceUid }

end DeleteAttempt

/-- What `recordResourceEffect` answers. -/
def effectIsRecorded (e : Effect) (t : Tables) : Bool :=
  (t.effects.any fun e' => decide (e'.key = e.key)) || (phaseIsPermitted e t && effectIsInserted e t)

/-- The store, and the deletions of any number of requests. -/
structure Deleting where
  store : Store := {}
  attempts : List DeleteAttempt := []

/-- One move of a deletion, or another call. -/
inductive DeletingAct where
  | call (c : Call)
  /-- A request has read its Resource, and its saga is accepted. -/
  | start (address : Address) (operationId replayKey : String)
  /-- An attempt runs its next statement; `elsewhere` are the fences of `prepareResourceDeletion`
  on runtime inputs and Workflows. -/
  | step (n : ℕ) (elsewhere : Bool)
  /-- `executeProviderMutation` throws before it has dispatched, without a contender. -/
  | fail (n : ℕ)
  /-- It dispatches, finds a contender, or the process stops. -/
  | leave (n : ℕ)

namespace Deleting

variable (s : Deleting)

/-- An attempt has moved on. -/
def move (n : ℕ) (a : DeleteAttempt) : Deleting := { s with attempts := s.attempts.set n a }

/-- A call is made for an attempt; where it aborts, nothing changes. -/
def make (D : Digests) (timestamp : Instant) (c : Call) : Store :=
  ((V1.store D).next s.store (timestamp, c)).getD s.store

/-- `recordResourceEffect` is called for an attempt. -/
def record (D : Digests) (timestamp : Instant) (e : Effect) : Store :=
  if phaseIsPermitted e s.store.tables then s.make D timestamp (.recordEffect e) else s.store

/-- An attempt runs its next statement. -/
def step (D : Digests) (timestamp : Instant) (elsewhere : Bool) (n : ℕ) (a : DeleteAttempt) :
    Option Deleting :=
  match a.stage with
  | .prepare =>
    let available := deletionIsAvailable D a.address.tenantId a.resourceUid timestamp
      s.store.tables && elsewhere
    match (V1.store D).next s.store
        (timestamp, .prepareDeletion a.address a.resourceUid a.formRef elsewhere) with
    | some store => some ({ s with store }.move n { a with available, stage := .plan })
    | none => some (s.move n { a with available, stage := .abandon })
  | .plan =>
    let e := a.event .planned
    let stage := if effectIsRecorded e s.store.tables then .execute else .abandon
    some ({ s with store := s.record D timestamp e }.move n { a with stage })
  | .cancel =>
    some ({ s with store := s.record D timestamp (a.event .cancelled) }.move n
      { a with stage := .abandon })
  | .abandon =>
    some ({ s with store := s.make D timestamp (.abandonPlan a.ref a.replayKey) }.move n
      { a with stage := .refused })
  | .execute | .refused | .left => none

/-- No deletion of a Resource is under way: every attempt on it ended without effect. -/
def isIdle (tenantUid : String × String) : Bool :=
  s.attempts.all fun a => decide (a.tenantUid = tenantUid → a.stage = .refused)

end Deleting

/-- All runs of the store and any number of deletions, which alone arm them. -/
def deletions (D : Digests) : Machine Deleting (Instant × DeletingAct) where
  init := {}
  next s a :=
    if a.1 < repairHorizon then
      match a.2 with
      | .call (.prepareDeletion ..) => none
      | .call c => ((store D).next s.store (a.1, c)).map fun store => { s with store }
      | .start address operationId replayKey =>
        (s.store.tables.resourceAt address).map fun r =>
          { s with attempts := s.attempts ++ [{ address, resourceUid := r.uid,
                                                formRef := r.document.formRef, operationId,
                                                replayKey }] }
      | .step n elsewhere => s.attempts[n]?.bind (s.step D a.1 elsewhere n)
      | .fail n => s.attempts[n]?.bind fun a =>
          if a.stage = .execute then some (s.move n { a with stage := .cancel }) else none
      | .leave n => s.attempts[n]?.bind fun a =>
          if a.stage = .refused then none else some (s.move n { a with stage := .left })
    else none

/-! ### What a call does to an attestation -/

section Calls

variable {D : Digests} {timestamp : Instant} {t t' : Tables}

/-! ### The invariant -/

variable {elsewhere : Bool} {call : Call} {attempts : List DeleteAttempt} {n : ℕ} {s u : Store}

/-- What holds of the store, beside the attempts: the attestation of a Resource that was seen is
live where no attempt ever found its deletion available, and else it is not. -/
structure DeletingHolds (D : Digests) (s : Store) (attempts : List DeleteAttempt) : Prop where
  reachable : (store D).Reachable s
  live : ∀ r ∈ s.seen, (∀ a ∈ attempts, a.tenantUid = r.tenantUid → a.available = false) →
    ∃ b ∈ s.tables.attestations, b.tenantUid = r.tenantUid ∧ b.state = .live
  known : ∀ a ∈ attempts, ∃ r ∈ s.seen, r.identity = (a.address, a.resourceUid, a.formRef)
  found : ∀ a ∈ attempts, a.available = true → ∀ b ∈ s.tables.attestations,
    b.tenantUid = a.tenantUid → b.state ≠ .live

theorem DeletingHolds.init : DeletingHolds D {} [] :=
  ⟨PathVia.refl _, by simp, by simp, by simp⟩

variable {a : DeleteAttempt}

theorem DeleteAttempt.tenantUid_of_identity {r : Resource}
    (h : r.identity = (a.address, a.resourceUid, a.formRef)) : r.tenantUid = a.tenantUid := by
  simp only [Resource.identity, Prod.mk.injEq] at h
  rw [Resource.tenantUid, DeleteAttempt.tenantUid, h.1, h.2.1]

/-- Only who an attempt is on, and whether it found its deletion available, matters. -/
theorem DeletingHolds.of_mem {attempts' : List DeleteAttempt} (h : DeletingHolds D s attempts)
    (hkept : ∀ a ∈ attempts, ∃ a' ∈ attempts', a'.tenantUid = a.tenantUid ∧
      a'.available = a.available)
    (hknown : ∀ a' ∈ attempts', (∃ r ∈ s.seen,
      r.identity = (a'.address, a'.resourceUid, a'.formRef)) ∧
      (a'.available = true → ∀ b ∈ s.tables.attestations, b.tenantUid = a'.tenantUid →
        b.state ≠ .live)) : DeletingHolds D s attempts' := by
  refine ⟨h.reachable, fun r hr hall => h.live r hr fun a ha hkey => ?_,
    fun a' ha' => (hknown a' ha').1, fun a' ha' => (hknown a' ha').2⟩
  obtain ⟨a', ha', hkey', havailable⟩ := hkept a ha
  rw [← havailable]
  exact hall a' ha' (hkey'.trans hkey)

theorem mem_set_or_eq {b : DeleteAttempt} (ha : attempts[n]? = some a) (hb : b ∈ attempts)
    (a' : DeleteAttempt) :
    b = a ∨ b ∈ attempts.set n a' := by
  obtain ⟨k, hk, hget⟩ := List.mem_iff_getElem.mp hb
  by_cases hkn : k = n
  · subst hkn
    rw [List.getElem?_eq_getElem hk, Option.some.injEq, hget] at ha
    exact Or.inl ha
  · refine Or.inr (List.mem_iff_getElem.mpr ⟨k, by simpa using hk, ?_⟩)
    rw [List.getElem_set_ne (Ne.symm hkn)]
    exact hget

theorem mem_set_self (ha : attempts[n]? = some a) (a' : DeleteAttempt) :
    a' ∈ attempts.set n a' := by
  obtain ⟨hn, -⟩ := List.getElem?_eq_some_iff.mp ha
  exact List.mem_set hn a'

theorem DeletingHolds.set (h : DeletingHolds D s attempts)
    (ha : attempts[n]? = some a) (stage : DeleteStage) :
    DeletingHolds D s (attempts.set n { a with stage }) := by
  have hmem := List.mem_of_getElem? ha
  refine h.of_mem (fun b hb => ?_) fun b hb => ?_
  · rcases mem_set_or_eq ha hb { a with stage } with rfl | hset
    · exact ⟨_, mem_set_self ha _, rfl, rfl⟩
    · exact ⟨b, hset, rfl, rfl⟩
  · rcases List.mem_or_eq_of_mem_set hb with hb | rfl
    · exact ⟨h.known b hb, h.found b hb⟩
    · exact ⟨h.known a hmem, h.found a hmem⟩

theorem Mutation.isLive_of_predecessorFence {m : Mutation} {fencesRevision : Bool}
    (hdelete : m.isDelete = false) (h : m.predecessorFence fencesRevision t = true) :
    t.attests m.address.tenantId m.resourceUid (fun a => decide (a.state = .live)) = true := by
  unfold Mutation.predecessorFence at h
  split at h
  · simp only [Bool.and_eq_true] at h
    obtain ⟨a, ha, hkey, hfence⟩ := attests_iff.mp h.1
    exact attests_iff.mpr ⟨a, ha, hkey, decide_eq_true (of_decide_eq_true hfence).2.1⟩
  · obtain ⟨r, hr, hfence⟩ := (Option.any_eq_true _ _).mp h
    simp only [Bool.and_eq_true, decide_eq_true_eq, List.any_eq_true, hdelete, Bool.false_eq_true,
      if_false] at hfence
    obtain ⟨⟨⟨huid, -⟩, a, ha, ⟨hexact, hstate⟩, -⟩, -⟩ := hfence
    simp only [Mutation.rowIsExact, decide_eq_true_eq] at hexact
    refine attests_iff.mpr ⟨a, ha, ?_, decide_eq_true hstate⟩
    rw [Attestation.tenantUid, hexact.1, hexact.2.1, huid, (Table.find_some hr).2]

section

variable (h : DeletingHolds D s attempts) (hnext : (store D).next s (timestamp, call) = some u)

include h hnext

/-- The attestation of what is seen later: one that was live stays so, but where the call arms its
deletion. -/
theorem DeletingHolds.live_next {r : Resource} (hr : r ∈ u.seen)
    (hall : ∀ a ∈ attempts, a.tenantUid = r.tenantUid → a.available = false) :
    (∃ b ∈ u.tables.attestations, b.tenantUid = r.tenantUid ∧ b.state = .live) ∨
      call.arms r.tenantUid = true := by
  have hs := remembered_of_reachable h.reachable
  have hnumbered := numbered_of_reachable h.reachable
  obtain ⟨-, happly, -⟩ := store_next hnext
  rcases hs.origin hnumbered hnext hr with
    ⟨q, hq, hidentity, -⟩ | ⟨m, operationId, d, hcall, hd, rfl, -, -⟩
  · rw [tenantUid_of_identity hidentity] at hall ⊢
    obtain ⟨b, hb, hkey, hlive⟩ := h.live q hq hall
    obtain ⟨b', hb', hbecomes⟩ :=
      Call.attestation_next hs.incarnations happly hb (hkey ▸ hs.evidenced q hq)
    rcases hbecomes.stays hlive with hstate | harms | hvacant
    · exact Or.inl ⟨b', hb', (tenantUid_of_incarnation hbecomes.incarnation).trans hkey, hstate⟩
    · exact Or.inr (hkey ▸ harms)
    · -- there is nothing at its address only where it was deleted, and then it was not live
      obtain ⟨c, hc, hcidentity⟩ := hs.attested q hq
      have hbc : b = c := Table.eq_of_key hs.incarnations hb hc
        (hkey.trans (tenantUid_of_incarnation hcidentity).symm)
      rw [hbc, show c.address = q.address from congrArg Prod.fst hcidentity] at hvacant
      exact absurd hlive (hs.erased b hb (hkey ▸ hs.vacant q hq hvacant))
  · left
    obtain ⟨hresource, _, _, _, _, hresult⟩ := Call.apply_commit hnumbered.addresses hcall happly
    have hdelete : m.isDelete = false := by
      rw [← m.document_isNone, hd]
      rfl
    have hfence := hresult.evidenceFence
    simp only [Mutation.evidenceFence, Bool.and_eq_true] at hfence
    obtain ⟨b, hb, hkey, hlive⟩ :=
      attests_iff.mp (Mutation.isLive_of_predecessorFence hdelete hfence.2)
    rcases hresult.attestations with hsame | ⟨hdeletes, -⟩
    · refine ⟨b, by rw [hsame]; exact hb, ?_, of_decide_eq_true hlive⟩
      rw [hkey, ← hresource.uid d hd]
      rfl
    · rw [hdelete] at hdeletes
      cases hdeletes

/-- An attempt stays on a Resource that was seen, and what it found not live stays so. -/
theorem DeletingHolds.known_next (ha : a ∈ attempts) :
    (∃ r ∈ u.seen, r.identity = (a.address, a.resourceUid, a.formRef)) ∧
      (a.available = true → ∀ b ∈ u.tables.attestations, b.tenantUid = a.tenantUid →
        b.state ≠ .live) := by
  have hs := remembered_of_reachable h.reachable
  have hkeys := (remembered_of_reachable (h.reachable.next hnext)).incarnations
  obtain ⟨-, happly, -⟩ := store_next hnext
  obtain ⟨r, hr, hidentity⟩ := h.known a ha
  refine ⟨⟨r, ?_, hidentity⟩, fun havailable b' hb' hkey hlive => ?_⟩
  · rw [(store_seen hnext).2]
    exact List.mem_append_left _ hr
  have hevidenced := hs.evidenced r hr
  rw [DeleteAttempt.tenantUid_of_identity hidentity] at hevidenced
  obtain ⟨b, hb, hbkey, c, hc, hckey, hbecomes⟩ := hs.attestation_next happly hevidenced
  rw [Table.eq_of_key hkeys hb' hc (hkey.trans hckey.symm)] at hlive
  exact h.found a ha havailable b hb hbkey (hbecomes.live hlive)

end

theorem DeletingHolds.next (h : DeletingHolds D s attempts) (harms : ∀ k, call.arms k = false)
    (hnext : (store D).next s (timestamp, call) = some u) : DeletingHolds D u attempts := by
  refine ⟨h.reachable.next hnext, fun r hr hall => ?_, fun a ha => (h.known_next hnext ha).1,
    fun a ha => (h.known_next hnext ha).2⟩
  exact (h.live_next hnext hr hall).resolve_right (by rw [harms]; simp)

/-- An attempt that has found its deletion available leaves no live attestation: `hknown` says so
of the others, and the batch of this one. -/
theorem DeletingHolds.avail (ha : attempts[n]? = some a) (stage : DeleteStage)
    (hreachable : (store D).Reachable s)
    (hlive : ∀ r ∈ s.seen, (∀ b ∈ attempts, b.tenantUid = r.tenantUid → b.available = false) →
      r.tenantUid ≠ a.tenantUid →
      ∃ b ∈ s.tables.attestations, b.tenantUid = r.tenantUid ∧ b.state = .live)
    (hknown : ∀ b ∈ attempts, (∃ r ∈ s.seen,
      r.identity = (b.address, b.resourceUid, b.formRef)) ∧
      (b.available = true → ∀ c ∈ s.tables.attestations, c.tenantUid = b.tenantUid →
        c.state ≠ .live))
    (hnot : ∀ c ∈ s.tables.attestations, c.tenantUid = a.tenantUid → c.state ≠ .live) :
    DeletingHolds D s (attempts.set n { a with available := true, stage }) := by
  have hmem := List.mem_of_getElem? ha
  refine ⟨hreachable, fun r hr hall => ?_, fun b hb => ?_, fun b hb havailable => ?_⟩
  · have hne : r.tenantUid ≠ a.tenantUid := by
      intro heq
      have htrue := hall { a with available := true, stage } (mem_set_self ha _) heq.symm
      cases htrue
    refine hlive r hr (fun b hb hkey => ?_) hne
    rcases mem_set_or_eq ha hb { a with available := true, stage } with rfl | hset
    · exact absurd hkey.symm hne
    · exact hall b hset hkey
  · rcases List.mem_or_eq_of_mem_set hb with hb | rfl
    · exact (hknown b hb).1
    · exact (hknown a hmem).1
  · rcases List.mem_or_eq_of_mem_set hb with hb | rfl
    · exact (hknown b hb).2 havailable
    · exact hnot

theorem DeletingHolds.armed (h : DeletingHolds D s attempts)
    (ha : attempts[n]? = some a)
    (hnext : (store D).next s
      (timestamp, .prepareDeletion a.address a.resourceUid a.formRef elsewhere) = some u) :
    (deletionIsAvailable D a.address.tenantId a.resourceUid timestamp s.tables && elsewhere) = true ∧
      DeletingHolds D u (attempts.set n { a with available := true, stage := .plan }) := by
  have hkeys := (remembered_of_reachable (h.reachable.next hnext)).incarnations
  obtain ⟨-, hcall, -⟩ := store_next hnext
  unfold Call.apply prepareResourceDeletion at hcall
  dsimp only at hcall
  split at hcall
  swap
  · cases hcall
  next havailable =>
  split at hcall
  swap
  · cases hcall
  next hpending =>
  rw [Option.some.inj hcall] at hpending
  obtain ⟨b, hb, hbkey, hbstate⟩ := attests_iff.mp hpending
  refine ⟨havailable, .avail ha .plan (h.reachable.next hnext) (fun r hr hall hne => ?_)
    (fun b hb => h.known_next hnext hb) fun c hc hkey hstate => ?_⟩
  · refine (h.live_next hnext hr hall).resolve_right fun harms => hne ?_
    exact (of_decide_eq_true harms).symm
  · rw [Table.eq_of_key hkeys hc hb (hkey.trans hbkey.symm)] at hstate
    rw [hstate] at hbstate
    simp at hbstate

theorem DeletingHolds.unarmed (h : DeletingHolds D s attempts)
    (ha : attempts[n]? = some a) (hfresh : a.available = false)
    (hcall : prepareResourceDeletion D a.address a.resourceUid a.formRef elsewhere timestamp
      s.tables = none) :
    DeletingHolds D s (attempts.set n { a with
      available := deletionIsAvailable D a.address.tenantId a.resourceUid timestamp s.tables &&
        elsewhere
      stage := .abandon }) := by
  cases havailable : deletionIsAvailable D a.address.tenantId a.resourceUid timestamp s.tables &&
      elsewhere with
  | false =>
    have hset := h.set ha .abandon
    rw [hfresh] at hset
    exact hset
  | true =>
    refine .avail ha .abandon h.reachable (fun r hr hall _ => h.live r hr hall)
      (fun b hb => ⟨h.known b hb, h.found b hb⟩) fun c hc hkey hstate => ?_
    -- a live attestation would have been armed: it is that of the Resource that was read
    have hs := remembered_of_reachable h.reachable
    obtain ⟨r, hr, hidentity⟩ := h.known a (List.mem_of_getElem? ha)
    obtain ⟨d, hd, hincarnation⟩ := hs.attested r hr
    rw [hidentity] at hincarnation
    have hcd : c = d := Table.eq_of_key hs.incarnations hc hd
      (hkey.trans (tenantUid_of_incarnation hincarnation).symm)
    rw [← hcd] at hincarnation
    simp only [Attestation.incarnation, Prod.mk.injEq] at hincarnation
    have hany : s.tables.attests a.address.tenantId a.resourceUid (fun _ => true) = true :=
      attests_iff.mpr ⟨c, hc, hkey, rfl⟩
    have harmed : (armDeletion a.address a.resourceUid a.formRef s.tables).attests
        a.address.tenantId a.resourceUid (fun b => decide (b.address = a.address ∧
          b.formRef = a.formRef ∧ b.state = .pending)) = true := by
      unfold armDeletion
      rw [if_pos hany]
      refine attests_iff.mpr ⟨{ c with state := .pending }, ?_, hkey, ?_⟩
      · refine Table.mem_update.mpr (Or.inr ⟨c, hc, decide_eq_true ?_, rfl⟩)
        exact ⟨hincarnation.2.1, hincarnation.1, hincarnation.2.2, hstate⟩
      · exact decide_eq_true ⟨hincarnation.1, hincarnation.2.2, rfl⟩
    unfold prepareResourceDeletion at hcall
    rw [if_pos havailable] at hcall
    rw [if_pos harmed] at hcall
    cases hcall

/-! ### Every run -/

/-- What the machine keeps. -/
structure Deleting.Holds (D : Digests) (s : Deleting) : Prop where
  holds : DeletingHolds D s.store s.attempts
  fresh : ∀ a ∈ s.attempts, a.stage = .prepare → a.available = false

/-- A call that is made for an attempt, where it does not abort. -/
theorem DeletingHolds.make {s : Deleting} (h : DeletingHolds D s.store attempts)
    (harms : ∀ k, call.arms k = false) : DeletingHolds D (s.make D timestamp call) attempts := by
  unfold Deleting.make
  cases hnext : (store D).next s.store (timestamp, call) with
  | none => exact h
  | some u => exact h.next harms hnext

theorem DeletingHolds.record {s : Deleting} (h : DeletingHolds D s.store attempts) {e : Effect} :
    DeletingHolds D (s.record D timestamp e) attempts := by
  unfold Deleting.record
  split
  · exact h.make fun _ => rfl
  · exact h

theorem Deleting.Holds.move {s : Deleting} {store : Store} {stage : DeleteStage}
    (h : DeletingHolds D store s.attempts)
    (hfresh : ∀ a ∈ s.attempts, a.stage = .prepare → a.available = false)
    (ha : s.attempts[n]? = some a) (hstage : stage ≠ .prepare) :
    ({ s with store }.move n { a with stage } : Deleting).Holds D := by
  refine ⟨h.set ha stage, fun b hb hprepare => ?_⟩
  rcases List.mem_or_eq_of_mem_set hb with hb | rfl
  · exact hfresh b hb hprepare
  · exact absurd hprepare hstage

theorem Deleting.Holds.step {s u : Deleting} (hs : s.Holds D)
    (hclock : timestamp < repairHorizon) (ha : s.attempts[n]? = some a)
    (h : s.step D timestamp elsewhere n a = some u) : u.Holds D := by
  unfold Deleting.step at h
  cases hstage : a.stage with
  | prepare =>
    have hfresh := hs.fresh a (List.mem_of_getElem? ha) hstage
    have hrest : ∀ {b : DeleteAttempt}, b.stage ≠ .prepare → ∀ c ∈ s.attempts.set n b,
        c.stage = .prepare → c.available = false := by
      intro b hb c hc hprepare
      rcases List.mem_or_eq_of_mem_set hc with hc | rfl
      · exact hs.fresh c hc hprepare
      · exact absurd hprepare hb
    simp only [hstage] at h
    split at h
    · next hnext =>
      cases h
      obtain ⟨havailable, harmed⟩ := hs.holds.armed ha hnext
      refine ⟨?_, hrest (by simp)⟩
      rw [← havailable] at harmed
      exact harmed
    · next hnext =>
      cases h
      refine ⟨hs.holds.unarmed ha hfresh ?_, hrest (by simp)⟩
      simp only [V1.store, Call.isRead, hclock, and_self, if_true, Option.map_eq_none_iff] at hnext
      exact hnext
  | plan =>
    simp only [hstage] at h
    cases h
    refine .move hs.holds.record hs.fresh ha ?_
    split <;> simp
  | cancel =>
    simp only [hstage] at h
    cases h
    exact .move hs.holds.record hs.fresh ha (by simp)
  | abandon =>
    simp only [hstage] at h
    cases h
    exact .move (hs.holds.make fun _ => rfl) hs.fresh ha (by simp)
  | execute | refused | left =>
    simp only [hstage] at h
    cases h

theorem Deleting.Holds.next {s u : Deleting} {a : Instant × DeletingAct} (hs : s.Holds D)
    (h : (deletions D).next s a = some u) : u.Holds D := by
  obtain ⟨timestamp, act⟩ := a
  simp only [deletions] at h
  split at h
  swap
  · cases h
  next hclock =>
  cases act with
  | call c =>
    have hstep : (∀ k, c.arms k = false) ∧
        ((V1.store D).next s.store (timestamp, c)).map (fun store => { s with store }) = some u := by
      cases c <;> first | exact ⟨fun _ => rfl, h⟩ | cases h
    obtain ⟨_, hstore, rfl⟩ := Option.map_eq_some_iff.mp hstep.2
    exact ⟨hs.holds.next hstep.1 hstore, hs.fresh⟩
  | start =>
    obtain ⟨r, hr, rfl⟩ := Option.map_eq_some_iff.mp h
    obtain ⟨hmem, haddress⟩ := Table.find_some hr
    have hseen := (remembered_of_reachable hs.holds.reachable).current hmem
    refine ⟨hs.holds.of_mem (fun a ha => ⟨a, List.mem_append_left _ ha, rfl, rfl⟩)
      fun a ha => ?_, fun a ha hprepare => ?_⟩
    · rcases List.mem_append.mp ha with ha | ha
      · exact ⟨hs.holds.known a ha, hs.holds.found a ha⟩
      · rw [List.mem_singleton] at ha
        subst ha
        exact ⟨⟨r, hseen, by rw [Resource.identity, haddress]⟩, fun h => (by cases h)⟩
    · rcases List.mem_append.mp ha with ha | ha
      · exact hs.fresh a ha hprepare
      · rw [List.mem_singleton] at ha
        rw [ha]
  | step =>
    obtain ⟨a, ha, hstep⟩ := Option.bind_eq_some_iff.mp h
    exact hs.step hclock ha hstep
  | fail n =>
    obtain ⟨a, ha, hstep⟩ := Option.bind_eq_some_iff.mp h
    split at hstep
    · cases hstep
      exact .move hs.holds hs.fresh ha (by simp)
    · cases hstep
  | leave n =>
    obtain ⟨a, ha, hstep⟩ := Option.bind_eq_some_iff.mp h
    split at hstep
    · cases hstep
    · cases hstep
      exact .move hs.holds hs.fresh ha (by simp)

theorem deleting_holds_of_reachable {s : Deleting} (h : (deletions D).Reachable s) : s.Holds D :=
  h.invariant ⟨.init, by simp [deletions]⟩ fun _ _ _ _ hs hnext => hs.next hnext

end Calls

/-! ### What is accepted -/

section Accepted

variable {t : Tables} {r : Resource}

theorem accepts_of_isLive (haddresses : (t.resources.map Resource.address).Nodup)
    (hkeys : (t.attestations.map Attestation.tenantUid).Nodup) (hrecorded : Recorded t)
    (hr : r ∈ t.resources) (hexact : r.IsExact) (hlive : t.IsLive r.address.tenantId r.uid) :
    Accepts t r := by
  obtain ⟨a, ha, hkey, hstate⟩ := hlive.attestation
  -- the attestation is that of the row
  obtain ⟨b, hb, hidentity⟩ := hrecorded.attested r hr
  have hab : a = b := Table.eq_of_key hkeys ha hb
    (hkey.trans (tenantUid_of_incarnation hidentity).symm)
  subst hab
  obtain ⟨haddress, huid, hform⟩ : a.address = r.address ∧ a.resourceUid = r.uid ∧
      a.formRef = r.document.formRef := by
    simpa [Attestation.incarnation, Resource.identity] using hidentity
  have hat : t.resourceAt r.address = some r := (Tables.resourceAt_eq_some haddresses).mpr ⟨hr, rfl⟩
  constructor
  · have hany : t.attests r.address.tenantId r.uid (fun _ => true) = true :=
      attests_iff.mpr ⟨a, ha, hkey, rfl⟩
    unfold incarnationIsReserved reserveResourceIncarnation
    rw [if_pos hany]
    exact attests_iff.mpr ⟨a, ha, hkey, decide_eq_true ⟨haddress, hform, hstate⟩⟩
  · intro m hm
    obtain ⟨d, hd, hdform⟩ := hm.formRef
    have hdelete : m.isDelete = false := by
      rw [← m.document_isNone, hd]
      rfl
    unfold Mutation.predecessorFence
    rw [if_neg (by rw [hm.revision]; simp), hm.address, hat]
    simp only [Option.any_some, Bool.and_eq_true, decide_eq_true_eq, hdelete, hm.changed,
      Bool.not_false, Bool.true_or, Bool.not_true, Bool.false_or, Bool.false_eq_true, if_false,
      and_true, List.any_eq_true]
    refine ⟨⟨hm.uid.symm, hm.revision.symm⟩, a, ha, ⟨?_, hstate⟩, ?_⟩
    · obtain ⟨hapi, hkind, hspace, hname, hduid, hgeneration, hrevision⟩ := hexact
      exact decide_eq_true ⟨haddress, huid, hapi, hkind, hspace, hname, hduid, hgeneration,
        hrevision, hform.symm⟩
    · rw [hd, Option.all_some]
      exact decide_eq_true (hform.trans hdform.symm)
  · intro f hf
    unfold Tables.targetIsLive
    simp only [Bool.and_eq_true, List.any_eq_true, decide_eq_true_eq]
    refine ⟨⟨r, hr, hf.address.symm, hf.uid.symm, hf.revision.symm⟩, a, ha, ?_, ?_, ?_, hstate⟩
    · rw [hf.address, haddress]
    · rw [hf.uid, huid]
    · rw [hf.formRef, hform]

theorem exists_live_of_accepts (h : Accepts t r)
    (hany : t.attests r.address.tenantId r.uid (fun _ => true) = true) :
    ∃ a ∈ t.attestations, a.tenantUid = (r.address.tenantId, r.uid) ∧ a.state = .live := by
  have hreserved := h.incarnation
  unfold incarnationIsReserved reserveResourceIncarnation at hreserved
  rw [if_pos hany] at hreserved
  obtain ⟨a, ha, hkey, hfence⟩ := attests_iff.mp hreserved
  exact ⟨a, ha, hkey, (of_decide_eq_true hfence).2.2⟩

end Accepted

/-- **A refused deletion leaves the Resource as it was, only where it was refused by the first
batch.**  With no deletion of it under way, a Resource is accepted if and only if no attempt ever
found its deletion available. -/
theorem refused_delete_accepts_iff (D : Digests) {s : Deleting} (h : (deletions D).Reachable s)
    {r : Resource} (hr : r ∈ s.store.tables.resources) (hidle : s.isIdle r.tenantUid = true) :
    Accepts s.store.tables r ↔
      ∀ a ∈ s.attempts, a.tenantUid = r.tenantUid → a.stage = .refused → a.available = false := by
  have hs := (deleting_holds_of_reachable h).holds
  have hrefused : ∀ a ∈ s.attempts, a.tenantUid = r.tenantUid → a.stage = .refused := by
    intro a ha hkey
    exact of_decide_eq_true (List.all_eq_true.mp hidle a ha) hkey
  have hremembered := remembered_of_reachable hs.reachable
  constructor
  · intro haccepts a ha hkey _
    obtain ⟨b, hb, hidentity⟩ := hremembered.attested r (hremembered.current hr)
    obtain ⟨c, hc, hckey, hcstate⟩ := exists_live_of_accepts haccepts
      (attests_iff.mpr ⟨b, hb, tenantUid_of_incarnation hidentity, rfl⟩)
    refine Bool.eq_false_iff.mpr fun havailable => ?_
    exact hs.found a ha havailable c hc (hckey.trans hkey.symm) hcstate
  · intro hall
    refine accepts_of_isLive (numbered_of_reachable hs.reachable).addresses
      hremembered.incarnations hremembered.recordedTables hr
      (hremembered.exact r (hremembered.current hr)) ⟨⟨r, hr, rfl⟩, ?_⟩
    exact hs.live r (hremembered.current hr) fun a ha hkey => hall a ha hkey (hrefused a ha hkey)

/-! ### Runs -/

section Examples

/-- Some calls of the store, and then the steps of an attempt. -/
def attemptRun (calls : List Call) (acts : List DeletingAct) : List (Instant × DeletingAct) :=
  (calls.map DeletingAct.call ++ acts).map fun act => (1, act)

/-- A bucket that a reader refers to, and a deletion of it: the batch finds the edge. -/
def refusedRun : List (Instant × DeletingAct) :=
  attemptRun (createCalls bucket creationDependencies "key_1" [] ++
      createCalls reader readerDependencies "key_2" [])
    [.start bucket.address "op_3" "key_3", .step 0 true, .step 0 true]

/-- The bucket is accepted as before. -/
theorem refused_delete_accepts_refusedRun :
    ∃ s, (deletions plainDigests).Reachable s ∧
      s.attempts.map DeleteAttempt.stage = [.refused] ∧
      ∃ r ∈ s.store.tables.resources, r.uid = "uid_1" ∧ Accepts s.store.tables r := by
  obtain ⟨s, hs, hp⟩ := exists_reachable_of_run (M := deletions plainDigests) refusedRun
    (fun s => s.store.tables.resources.any (fun r => decide (r.uid = "uid_1")) &&
      decide (s.attempts.map (fun a => (a.stage, a.available)) = [(.refused, false)]))
    (by decide +kernel)
  simp only [Bool.and_eq_true, List.any_eq_true, decide_eq_true_eq] at hp
  obtain ⟨⟨r, hr, huid⟩, hattempts⟩ := hp
  have hone : ∀ a ∈ s.attempts, a.stage = .refused ∧ a.available = false := by
    intro a ha
    have hmem : (a.stage, a.available) ∈ s.attempts.map fun a => (a.stage, a.available) :=
      List.mem_map_of_mem ha
    rw [hattempts, List.mem_singleton, Prod.mk.injEq] at hmem
    exact hmem
  have hstages : s.attempts.map DeleteAttempt.stage = [.refused] := by
    have hfst := congrArg (List.map Prod.fst) hattempts
    rw [List.map_map] at hfst
    exact hfst
  refine ⟨s, hs, hstages, r, hr, huid, (refused_delete_accepts_iff plainDigests hs hr ?_).mpr
    fun a ha _ _ => (hone a ha).2⟩
  exact List.all_eq_true.mpr fun a ha => decide_eq_true fun _ => (hone a ha).1

/-- A bucket, and a deletion of it that fails before it is dispatched. -/
def failedRun : List (Instant × DeletingAct) :=
  attemptRun (createCalls bucket creationDependencies "key_1" [])
    [.start bucket.address "op_3" "key_3", .step 0 true, .step 0 true, .fail 0, .step 0 true,
      .step 0 true]

/-- The effect is cancelled and the plan abandoned, and the bucket is not accepted any more. -/
theorem refused_delete_is_not_accepted :
    ¬∀ (D : Digests) (s : Deleting) (r : Resource), (deletions D).Reachable s →
      r ∈ s.store.tables.resources → s.isIdle r.tenantUid = true → Accepts s.store.tables r := by
  intro h
  obtain ⟨s, hs, hp⟩ := exists_reachable_of_run (M := deletions plainDigests) failedRun
    (fun s => s.store.tables.resources.any fun r => s.isIdle r.tenantUid &&
      !incarnationIsReserved r.address r.uid r.document.formRef s.store.tables) (by decide +kernel)
  simp only [List.any_eq_true, Bool.and_eq_true, Bool.not_eq_true'] at hp
  obtain ⟨r, hr, hidle, hnot⟩ := hp
  have haccepts := (h plainDigests s r hs hr hidle).incarnation
  rw [hnot] at haccepts
  cases haccepts

end Examples

end Takoserver.V1
