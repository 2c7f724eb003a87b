import Takoserver.V1.Custody
import Takoserver.V1.Frames

/-!
# The life cycle of a deferred operation

An operation is accepted, armed, leased and committed, or it fails, or it is
cancelled before it was armed.  Under any calls: one row for a replay key; a
phase that moves forward only, and only for the token that has the lease; a
success in the batch that writes the Resource, its replay and its evidence; and
evidence that numbers the commits of a Resource without a gap.
-/

namespace Takoserver.V1

open Machine

/-! ### Phases -/

/-- The moves of the phase. -/
inductive Phase.Step : Phase → Phase → Prop where
  | arm : Step .pending .committing
  | cancel (terminalJson : String) : Step .pending (.cancelled terminalJson)
  | succeed (terminalJson : String) : Step .committing (.succeeded terminalJson)
  | fail (terminalJson : String) : Step .committing (.failed terminalJson)

/-- Nothing follows a terminal phase. -/
theorem Phase.reaches_of_isTerminal {p q : Phase} (h : Relation.ReflTransGen Phase.Step p q)
    (hp : p.isTerminal = true) : q = p := by
  rcases Relation.ReflTransGen.cases_head h with rfl | ⟨r, hstep, -⟩
  · rfl
  · cases hstep <;> cases hp

/-- The columns that no statement changes. -/
def Operation.identity (o : Operation) : Operation :=
  { o with phase := .pending, lease := none, pollsRemaining := 0, committedUid := none,
           expiresAt := 0 }

/-- The operation and the lease token a call settles with. -/
def Call.settles : Call → Option (String × String)
  | .settleFailure operation leaseToken _ => some (operation.id, leaseToken)
  | .commitDeferred operation _ leaseToken _ _ => some (operation.id, leaseToken)
  | .commitDefinitiveFailure failure _ =>
    match failure.hostOperation with
    | .deferred operation leaseToken _ => some (operation.id, leaseToken)
    | .immediate => none
  | _ => none

/-- What one call may make of a phase.  An end is that of the token that has the lease, and a
success is that of a commit. -/
inductive Operation.Moves (call : Call) (o o' : Operation) : Prop where
  | stays (phase : o'.phase = o.phase)
  | armed (i : OperationRef) (isArm : call = .armOperation i) (pending : o.phase = .pending)
      (phase : o'.phase = .committing)
  | cancelled (i : OperationRef) (terminalJson : String)
      (isCancel : call = .cancelOperation i terminalJson) (pending : o.phase = .pending)
      (phase : o'.phase = .cancelled terminalJson)
  | failed (leaseToken terminalJson : String) (settles : call.settles = some (o.id, leaseToken))
      (committing : o.phase = .committing) (lease : o.lease.map Lease.token = some leaseToken)
      (phase : o'.phase = .failed terminalJson)
  | succeeded (operation : Operation) (m : Mutation) (leaseToken terminalJson : String)
      (elsewhere : Bool) (isCommit : call = .commitDeferred operation m leaseToken terminalJson elsewhere)
      (id : operation.id = o.id) (committing : o.phase = .committing)
      (lease : o.lease.map Lease.token = some leaseToken)
      (phase : o'.phase = .succeeded terminalJson)

theorem Operation.Moves.step {call : Call} {o o' : Operation} (h : o.Moves call o') :
    o'.phase = o.phase ∨ Phase.Step o.phase o'.phase := by
  cases h with
  | stays phase => exact Or.inl phase
  | armed _ _ pending phase =>
    rw [pending, phase]
    exact Or.inr .arm
  | cancelled _ _ _ pending phase =>
    rw [pending, phase]
    exact Or.inr (.cancel _)
  | failed _ _ _ committing _ phase =>
    rw [committing, phase]
    exact Or.inr (.fail _)
  | succeeded _ _ _ _ _ _ _ committing _ phase =>
    rw [committing, phase]
    exact Or.inr (.succeed _)

/-! ### One statement -/

/-- What one call may make of a row. -/
structure Operation.Step (call : Call) (o o' : Operation) : Prop where
  identity : o'.identity = o.identity
  moves : o.Moves call o'
  /-- Only a commit names a committed uid. -/
  committed : ∀ uid, o'.committedUid = some uid → o.committedUid = some uid ∨
    ∃ operation m leaseToken terminalJson elsewhere d,
      call = .commitDeferred operation m leaseToken terminalJson elsewhere ∧
        o.target.tenantId = operation.target.tenantId ∧ m.document = some d ∧ d.uid = uid

theorem Operation.Step.of_same {call : Call} {o o' : Operation} (identity : o'.identity = o.identity)
    (moves : o.Moves call o') (h : o'.committedUid = o.committedUid) : o.Step call o' :=
  ⟨identity, moves, fun _ hu => Or.inl (h ▸ hu)⟩

theorem Operation.Step.refl (call : Call) (o : Operation) : o.Step call o :=
  .of_same rfl (.stays rfl) rfl

namespace Operation.Step

variable {call : Call} {o o' : Operation}

theorem serial (h : o.Step call o') : o'.serial = o.serial := by
  show o'.identity.serial = o.identity.serial
  rw [h.identity]

theorem id (h : o.Step call o') : o'.id = o.id := by
  show o'.identity.id = o.identity.id
  rw [h.identity]

theorem replayKey (h : o.Step call o') : o'.replayKey = o.replayKey := by
  show o'.identity.replayKey = o.identity.replayKey
  rw [h.identity]

end Operation.Step

/-- A row an acceptance inserts: its id and replay key are new. -/
def Operation.Enters (serial serial' : ℕ) (rows : List Operation) (row : Operation) : Prop :=
  (∃ record : OperationRecord, row = record.row serial) ∧ serial' = serial + 1 ∧
    ∀ o ∈ rows, o.id ≠ row.id ∧ o.replayKey ≠ row.replayKey

/-- A statement on the operations, or none; only what has ended is removed. -/
structure OperationWrite (call : Call) (t t' : Tables) : Prop where
  rows : Table.Write (Operation.Step call)
    (Operation.Enters t.operationSerial t'.operationSerial) (fun o => o.phase.isTerminal = true)
    t.operations t'.operations
  serial : t.operationSerial ≤ t'.operationSerial

section Statements

variable {D : Digests} {timestamp : Instant} {call : Call} {t t' : Tables}

theorem OperationWrite.of_eq (h : t'.operations = t.operations)
    (hs : t'.operationSerial = t.operationSerial) : OperationWrite call t t' :=
  ⟨h ▸ Table.Write.refl _, hs.ge⟩

theorem OperationWrite.update {p : Operation → Bool} {f : Operation → Operation}
    (h : t'.operations = Table.update p f t.operations)
    (hs : t'.operationSerial = t.operationSerial)
    (hf : ∀ o ∈ t.operations, p o = true → o.Step call (f o)) : OperationWrite call t t' :=
  ⟨h ▸ Table.Write.update p f hf, hs.ge⟩

theorem OperationWrite.delete {p : Operation → Bool}
    (hp : ∀ o ∈ t.operations, p o = true → o.phase.isTerminal = true)
    (h : t'.operations = Table.delete p t.operations)
    (hs : t'.operationSerial = t.operationSerial) : OperationWrite call t t' :=
  ⟨h ▸ Table.Write.delete p hp, hs.ge⟩

/-- The statements on a saga retain a command at most. -/
theorem SagaFrame.operationWrite (h : SagaFrame t t') : OperationWrite call t t' := by
  obtain ⟨p, hp⟩ := h.operations
  exact .update hp h.operationSerial fun o _ _ => .of_same rfl (.stays rfl) rfl

theorem acceptOperation_writes {record : OperationRecord} {legacy authorized : Bool}
    (h : acceptDeferredOperation record legacy authorized t = some t') :
    OperationWrite call t t' := by
  unfold acceptDeferredOperation at h
  split at h
  · cases h
    exact .of_eq rfl rfl
  split at h
  · cases h
  split at h
  · cases h
    exact .of_eq rfl rfl
  next hnone =>
  cases h
  refine ⟨Table.Write.insert _ ⟨⟨record, rfl⟩, rfl, ?_⟩, Nat.le_succ _⟩
  intro o ho
  simp only [List.any_eq_true, decide_eq_true_eq, not_exists, not_and, not_or] at hnone
  exact hnone o ho

theorem isLeased_iff {operation o : Operation} {leaseToken : String} :
    operation.isLeased leaseToken o = true ↔
      (o.id = operation.id ∧ o.target.tenantId = operation.target.tenantId ∧
        o.principalId = operation.principalId ∧ o.phase = .committing) ∧
        o.lease.map Lease.token = some leaseToken := by
  unfold Operation.isLeased
  cases o.lease <;> simp

theorem definitiveFailure_operations {c : DefinitiveFailure} {elsewhere : Bool}
    (h : t'.operations = c.failOperation timestamp t.operations)
    (hs : t'.operationSerial = t.operationSerial) :
    OperationWrite (.commitDefinitiveFailure c elsewhere) t t' := by
  unfold DefinitiveFailure.failOperation at h
  split at h
  · exact .of_eq h hs
  · next leaseToken terminalJson hhost =>
    refine .update h hs fun o _ hp => ⟨rfl, ?_, fun uid huid => by cases huid⟩
    simp only [Bool.and_eq_true, decide_eq_true_eq] at hp
    obtain ⟨⟨hid, -, -, hphase⟩, hlease⟩ := hp
    obtain ⟨l, hl, hheld⟩ := (Option.any_eq_true _ _).mp hlease
    refine .failed leaseToken terminalJson ?_ hphase ?_ rfl
    · simp only [Call.settles, hhost, hid]
    · rw [hl, Option.map_some, (of_decide_eq_true hheld).1]

/-- **Every call is one statement on the operations**, or none. -/
theorem Call.apply_operations (hn : (t.resources.map Resource.address).Nodup)
    (h : call.apply D timestamp t = some t') : OperationWrite call t t' := by
  by_cases hframed : call.isFramed = true
  · exact (Call.apply_frame hframed h).operationWrite
  cases call with
  | commitDefinitiveFailure =>
    obtain ⟨⟨_, u⟩, hu, rfl⟩ := Option.map_eq_some_iff.mp h
    obtain ⟨hops, hframe⟩ := definitiveFailure_frame hu
    exact definitiveFailure_operations hops hframe.operationSerial
  | reserveIncarnation =>
    cases h
    unfold reserveResourceIncarnation
    split <;> exact .of_eq rfl rfl
  | prepareDeletion =>
    have hsame := prepareDeletion_frame h
    exact .of_eq hsame.2.2.2.1 hsame.2.2.2.2
  | releaseIncarnation =>
    rcases releaseIncarnation_eq h with rfl | ⟨-, -, -, -, -, hops, hser⟩
    · exact .of_eq rfl rfl
    · exact .of_eq hops hser
  | sweepOperations =>
    cases h
    refine .delete (fun o _ hp => ?_) rfl rfl
    simp only [Bool.and_eq_true] at hp
    exact hp.1.1
  | acceptOperation => exact acceptOperation_writes h
  | retireOperation =>
    cases h
    refine .delete (fun o _ hp => ?_) rfl rfl
    simp only [Bool.and_eq_true] at hp
    exact hp.2
  | decrementPolls i =>
    cases h
    exact .update rfl rfl fun o _ _ => .of_same rfl (.stays rfl) rfl
  | armOperation i =>
    cases h
    refine .update rfl rfl fun o _ hp => .of_same rfl (.armed i rfl ?_ rfl) rfl
    simp only [Bool.and_eq_true, decide_eq_true_eq] at hp
    exact hp.2.1
  | acquireOperation =>
    cases h
    exact .update rfl rfl fun o _ _ => .of_same rfl (.stays rfl) rfl
  | cancelOperation i terminalJson =>
    cases h
    refine .update rfl rfl fun o _ hp => .of_same rfl (.cancelled i terminalJson rfl ?_ rfl) rfl
    simp only [Bool.and_eq_true, decide_eq_true_eq] at hp
    exact hp.2
  | settleFailure _ leaseToken terminalJson =>
    cases h
    refine .update rfl rfl fun o _ hp => .of_same rfl ?_ rfl
    obtain ⟨⟨hid, -, -, hphase⟩, hlease⟩ := isLeased_iff.mp hp
    exact .failed leaseToken terminalJson (by rw [hid]; rfl) hphase hlease rfl
  | holdRepair =>
    cases h
    exact .update rfl rfl fun o _ _ => .of_same rfl (.stays rfl) rfl
  | commitImmediate =>
    obtain ⟨-, hops, hresult⟩ := commitImmediate_result hn h
    exact .of_eq hops hresult.operationSerial
  | commitDeferred operation m leaseToken terminalJson elsewhere =>
    obtain ⟨-, -, hops, hresult⟩ := commitDeferred_result hn h
    refine .update hops hresult.operationSerial fun o _ hp => ?_
    obtain ⟨⟨hid, htenant, -, hphase⟩, hlease⟩ := isLeased_iff.mp hp
    refine ⟨rfl, ?_, fun uid huid => Or.inr ?_⟩
    swap
    · obtain ⟨d, hd, rfl⟩ := Option.map_eq_some_iff.mp huid
      exact ⟨operation, m, leaseToken, terminalJson, elsewhere, d, rfl, htenant, hd, rfl⟩
    exact .succeeded operation m leaseToken terminalJson elsewhere rfl hid.symm hphase hlease rfl
  | render | others =>
    cases h
    exact .of_eq rfl rfl
  | _ => exact absurd rfl hframed

end Statements

/-! ### The table of operations -/

/-- The operations in every state: their keys. -/
structure OperationTable (t : Tables) : Prop where
  ids : (t.operations.map Operation.id).Nodup
  replayKeys : (t.operations.map Operation.replayKey).Nodup
  serials : (t.operations.map Operation.serial).Nodup
  bound : ∀ o ∈ t.operations, o.serial < t.operationSerial

namespace OperationTable

variable {call : Call} {t t' : Tables}

/-- Every statement keeps the table. -/
theorem write (ht : OperationTable t) (h : OperationWrite call t t') : OperationTable t' where
  ids := h.rows.nodup (fun _ _ hs => hs.id) (fun _ he o ho => (he.2.2 o ho).1) ht.ids
  replayKeys :=
    h.rows.nodup (fun _ _ hs => hs.replayKey) (fun _ he o ho => (he.2.2 o ho).2) ht.replayKeys
  serials := by
    refine h.rows.nodup (fun _ _ hs => hs.serial) ?_ ht.serials
    rintro _ ⟨⟨_, rfl⟩, -⟩ o ho
    exact (ht.bound o ho).ne
  bound := by
    intro o' ho'
    rcases h.rows.origin (Operation.Step.refl call) ho' with ⟨o, ho, hs⟩ | ⟨⟨_, rfl⟩, hs, -⟩
    · rw [hs.serial]
      exact lt_of_lt_of_le (ht.bound o ho) h.serial
    · rw [hs]
      exact Nat.lt_succ_self _

theorem stepped (ht : OperationTable t) (h : OperationWrite call t t') {o o' : Operation}
    (ho : o ∈ t.operations) (ho' : o' ∈ t'.operations) (hserial : o'.serial = o.serial) :
    o.Step call o' := by
  rcases h.rows.origin (Operation.Step.refl call) ho' with ⟨p, hp, hstep⟩ | ⟨⟨_, rfl⟩, -⟩
  · rw [Table.eq_of_key ht.serials ho hp (hserial.symm.trans hstep.serial)]
    exact hstep
  · have hlt : o.serial < t.operationSerial := ht.bound o ho
    rw [← hserial] at hlt
    exact absurd hlt (lt_irrefl _)

theorem cancel_eq (ht : OperationTable t) {o : Operation} (ho : o ∈ t.operations)
    {i : OperationRef} (hnamed : o.named i = true) (hphase : o.phase ≠ .pending)
    (terminalJson : String) (timestamp : Instant) :
    cancelDeferredOperation i terminalJson timestamp t = (false, t) := by
  have hnone : ∀ p ∈ t.operations, (p.named i && decide (p.phase = .pending)) = false := by
    intro p hp
    by_cases hname : p.named i = true
    · have hid : p.id = o.id := (of_decide_eq_true hname).2.2.trans (of_decide_eq_true hnamed).2.2.symm
      rw [Table.eq_of_key ht.ids hp ho hid]
      simp [hphase]
    · simp [hname]
  unfold cancelDeferredOperation updateOperation
  rw [Table.update_eq_self hnone]
  have hcount : t.operations.countP (fun p => p.named i && decide (p.phase = .pending)) = 0 :=
    List.countP_eq_zero.mpr fun p hp => by simp [hnone p hp]
  rw [hcount]
  rfl

end OperationTable

/-! ### Evidence -/

/-- The commit a row of evidence is of. -/
def Evidence.commit (e : Evidence) : Commit :=
  { tenantId := e.tenantId, resourceUid := e.resourceUid, operationId := e.operationId }

/-- The evidence of an incarnation. -/
def evidenceOf (tenantUid : String × String) (evidence : List Evidence) : List Evidence :=
  evidence.filter fun e => decide (e.tenantUid = tenantUid)

theorem foldr_max_range' (n b : ℕ) : (List.range' 1 n).foldr max b = max b n := by
  induction n generalizing b with
  | zero => simp
  | succ n ih =>
    rw [List.range'_concat, List.foldr_append, ih]
    simp only [List.foldr_cons, List.foldr_nil]
    omega

/-- The next number of a Resource whose evidence is numbered without a gap. -/
theorem nextSequence_eq {tenantUid : String × String} {evidence : List Evidence} {n : ℕ}
    (h : (evidenceOf tenantUid evidence).map Evidence.sequence = List.range' 1 n) :
    Mutation.nextSequence tenantUid evidence = n + 1 := by
  show ((evidenceOf tenantUid evidence).map Evidence.sequence).foldr max 0 + 1 = n + 1
  rw [h, foldr_max_range', Nat.zero_max]

/-- The invariant of the evidence: one row for each commit, no operation twice, and the rows of a
Resource numbered from one. -/
structure Numbered (s : Store) : Prop where
  addresses : (s.tables.resources.map Resource.address).Nodup
  operations : OperationTable s.tables
  commits : s.tables.evidence.map Evidence.commit = s.commits
  once : (s.commits.map fun c => (c.tenantId, c.operationId)).Nodup
  sequence : ∀ tenantUid, (evidenceOf tenantUid s.tables.evidence).map Evidence.sequence =
    List.range' 1 (evidenceOf tenantUid s.tables.evidence).length

section Runs

variable {D : Digests} {s u : Store} {timestamp : Instant} {call : Call}

theorem numbered_init : Numbered {} where
  addresses := List.nodup_nil
  operations := ⟨List.nodup_nil, List.nodup_nil, List.nodup_nil, by simp⟩
  commits := rfl
  once := List.nodup_nil
  sequence := fun _ => rfl

/-- What a call does to the evidence, and to the addresses. -/
theorem Call.apply_evidence (hn : (s.tables.resources.map Resource.address).Nodup)
    (h : call.apply D timestamp s.tables = some u.tables) :
    (u.tables.resources.map Resource.address).Nodup ∧
      ((call.commits = [] ∧ u.tables.evidence = s.tables.evidence) ∨
        ∃ m operationId e, call.mutation = some (m, operationId) ∧ m.isUnchanged = false ∧
          call.commits = [e.commit] ∧ u.tables.evidence = s.tables.evidence ++ [e] ∧
          e.tenantUid = (m.address.tenantId, m.resourceUid) ∧ e.operationId = operationId ∧
          e.sequence = Mutation.nextSequence e.tenantUid s.tables.evidence ∧
          ∀ e' ∈ s.tables.evidence, e'.tenantId = e.tenantId → e'.operationId ≠ e.operationId) := by
  cases hmutation : call.mutation with
  | none =>
    refine ⟨?_, Or.inl ⟨by simp [Call.commits, hmutation], (Call.apply_resources hmutation h).1⟩⟩
    rw [Call.apply_addresses hmutation h]
    exact hn
  | some c =>
    obtain ⟨m, operationId⟩ := c
    obtain ⟨hresource, _, _, _, _, hresult⟩ := Call.apply_commit hn hmutation h
    refine ⟨hresource.nodup, ?_⟩
    have hevidence := hresult.evidence
    cases hunchanged : m.isUnchanged with
    | true =>
      rw [hunchanged, if_pos rfl, List.append_nil] at hevidence
      exact Or.inl ⟨by simp [Call.commits, hmutation, hunchanged], hevidence⟩
    | false =>
      rw [hunchanged] at hevidence
      refine Or.inr ⟨m, operationId, _, rfl, hunchanged, ?_, hevidence, rfl, rfl, rfl, ?_⟩
      · simp [Call.commits, hmutation, hunchanged, Evidence.commit]
      · have hfence := hresult.evidenceFence
        simp only [Mutation.evidenceFence, Bool.and_eq_true, Bool.not_eq_true',
          List.any_eq_false, decide_eq_true_eq, not_and] at hfence
        exact fun e' he' htenant => hfence.1.1.2 e' he' htenant

theorem Numbered.next (hs : Numbered s) (h : (store D).next s (timestamp, call) = some u) :
    Numbered u := by
  obtain ⟨-, happly, -, hcommits⟩ := store_next h
  obtain ⟨haddresses, hevidence⟩ := Call.apply_evidence (s := s) (u := u) hs.addresses happly
  have hoperations := hs.operations.write (Call.apply_operations hs.addresses happly)
  rcases hevidence with ⟨hnone, hsame⟩ |
    ⟨m, _, e, -, -, hone, happend, -, -, hsequence, hfresh⟩
  · rw [hnone, List.append_nil] at hcommits
    exact ⟨haddresses, hoperations, by rw [hsame, hcommits]; exact hs.commits,
      by rw [hcommits]; exact hs.once, by rw [hsame]; exact hs.sequence⟩
  rw [hone] at hcommits
  refine ⟨haddresses, hoperations, ?_, ?_, ?_⟩
  · rw [happend, hcommits, List.map_append, hs.commits]
    rfl
  · rw [hcommits, ← hs.commits, List.map_append, List.map_map, List.map_singleton,
      List.nodup_append]
    refine ⟨?_, List.nodup_singleton _, ?_⟩
    · have honce := hs.once
      rw [← hs.commits, List.map_map] at honce
      exact honce
    · rintro a ha b hb rfl
      obtain ⟨e', he', heq⟩ := List.mem_map.mp ha
      simp only [List.mem_singleton, Function.comp_apply, Evidence.commit] at hb heq
      rw [hb] at heq
      injection heq with htenant hoperation
      exact hfresh e' he' htenant hoperation
  · intro tenantUid
    rw [happend]
    unfold evidenceOf
    rw [List.filter_append]
    by_cases hkey : e.tenantUid = tenantUid
    · have hnext := nextSequence_eq (hs.sequence tenantUid)
      rw [hkey, hnext] at hsequence
      have hrow : [e].filter (fun e => decide (e.tenantUid = tenantUid)) = [e] := by simp [hkey]
      rw [hrow, List.map_append, List.length_append, List.length_singleton, List.range'_concat]
      have hold := hs.sequence tenantUid
      unfold evidenceOf at hold hsequence
      rw [hold, List.map_singleton, hsequence, Nat.one_mul, Nat.add_comm 1]
    · have hrow : [e].filter (fun e => decide (e.tenantUid = tenantUid)) = [] := by simp [hkey]
      rw [hrow, List.append_nil]
      exact hs.sequence tenantUid

theorem numbered_of_reachable (h : (store D).Reachable s) : Numbered s :=
  ReachVia.invariant numbered_init (fun _ _ _ hs _ hn => hs.next hn) h

/-- **Along a run**, an operation is the one it was, and its phase moves forward. -/
theorem operation_of_path (hs : (store D).Reachable s) (h : (store D).Path s u) :
    ∀ o ∈ s.tables.operations, ∀ o' ∈ u.tables.operations, o'.serial = o.serial →
      o'.identity = o.identity ∧ Relation.ReflTransGen Phase.Step o.phase o'.phase := by
  -- the invariant of the path: a later row is one of these, or has a later serial
  have key : s.tables.operationSerial ≤ u.tables.operationSerial ∧ ∀ o' ∈ u.tables.operations,
      s.tables.operationSerial ≤ o'.serial ∨ ∃ o ∈ s.tables.operations,
        o'.identity = o.identity ∧ Relation.ReflTransGen Phase.Step o.phase o'.phase := by
    refine Path.invariant
      (P := fun u : Store => s.tables.operationSerial ≤ u.tables.operationSerial ∧
        ∀ o' ∈ u.tables.operations, s.tables.operationSerial ≤ o'.serial ∨
          ∃ o ∈ s.tables.operations,
            o'.identity = o.identity ∧ Relation.ReflTransGen Phase.Step o.phase o'.phase) ?_ hs h
      ⟨le_rfl, fun o' ho' => Or.inr ⟨o', ho', rfl, Relation.ReflTransGen.refl⟩⟩
    rintro v ⟨_, call⟩ _ hv ⟨hle, hrows⟩ hn
    obtain ⟨-, happly, -⟩ := store_next hn
    have hw := Call.apply_operations (numbered_of_reachable hv).addresses happly
    refine ⟨hle.trans hw.serial, fun o' ho' => ?_⟩
    rcases hw.rows.origin (Operation.Step.refl call) ho' with ⟨o, ho, hstep⟩ | ⟨⟨_, rfl⟩, -⟩
    · rcases hrows o ho with hlater | ⟨o₀, ho₀, hidentity, hphase⟩
      · exact Or.inl (hstep.serial ▸ hlater)
      · refine Or.inr ⟨o₀, ho₀, hstep.identity.trans hidentity, ?_⟩
        rcases hstep.moves.step with hsame | hmoved
        · rw [hsame]
          exact hphase
        · exact hphase.tail hmoved
    · exact Or.inl hle
  have htable := (numbered_of_reachable hs).operations
  intro o ho o' ho' hserial
  rcases key.2 o' ho' with _ | ⟨o₀, ho₀, hidentity, hphase⟩
  · have hlt := htable.bound o ho
    omega
  · have hserial₀ : o'.serial = o₀.serial := by
      show o'.identity.serial = o₀.identity.serial
      rw [hidentity]
    rw [Table.eq_of_key htable.serials ho ho₀ (hserial.symm.trans hserial₀)]
    exact ⟨hidentity, hphase⟩

theorem writeReplay_mem (m : Mutation) (timestamp : Instant) (replays : List Replay) :
    ∃ r ∈ m.writeReplay timestamp replays, r.replayKey = m.replayKey ∧ r.resource = m.document := by
  unfold Mutation.writeReplay
  split
  · next hany =>
    obtain ⟨r, hr, hkey⟩ := List.any_eq_true.mp hany
    exact ⟨_, Table.mem_put_self hr (of_decide_eq_true hkey), rfl, rfl⟩
  · exact ⟨_, List.mem_append_right _ (List.mem_singleton_self _), rfl, rfl⟩

theorem commitDeferred_succeeds {operation : Operation} {m : Mutation}
    {leaseToken terminalJson : String} {elsewhere : Bool} {t t' : Tables}
    (hn : (t.resources.map Resource.address).Nodup)
    (h : commitDeferredMutation D operation m leaseToken terminalJson elsewhere timestamp t =
      some t') :
    ∃ o ∈ t.operations, ∃ o' ∈ t'.operations, o'.serial = o.serial ∧ o.id = operation.id ∧
      o.phase = .committing ∧ o'.phase = .succeeded terminalJson := by
  obtain ⟨hany, -, hoperations, -⟩ := commitDeferred_result hn h
  obtain ⟨o, ho, hleased⟩ := List.any_eq_true.mp hany
  obtain ⟨⟨hid, -, -, hphase⟩, -⟩ := isLeased_iff.mp hleased
  have hmem := Table.mem_update_of_mem (p := operation.isLeased leaseToken)
    (f := fun o => { o with
      phase := .succeeded terminalJson
      committedUid := m.document.map Document.uid
      lease := none
      expiresAt := timestamp + operationTtl }) ho
  rw [hleased, if_pos rfl,
    show Table.update _ _ t.operations = t'.operations from hoperations.symm] at hmem
  exact ⟨o, ho, _, hmem, rfl, hid, hphase, rfl⟩

end Runs

/-! ### The theorem -/

/-- **The life cycle of a deferred operation.**  In every state that any calls reach:

* a replay key has one row at most;
* whatever follows, an operation that is still stored has moved along the phase diagram only, and
  one that has ended is as it was;
* a cancellation of an operation that is armed answers that it changed nothing, and changes
  nothing;
* the next call moves a phase only as `Operation.Moves` says, and removes only what has ended; a
  deferred commit makes its operation succeed, and in the same batch leaves its Resource, its
  replay and, unless it changes nothing, its evidence;
* the evidence is one row for each commit that changed something, no operation has two, and the
  rows of a Resource are numbered from one without a gap. -/
theorem deferred_operation_life_cycle (D : Digests) {s : Store} (hs : (store D).Reachable s) :
    (s.tables.operations.map Operation.replayKey).Nodup ∧
    (∀ u, (store D).Path s u → ∀ o ∈ s.tables.operations, ∀ o' ∈ u.tables.operations,
      o'.serial = o.serial → o'.identity = o.identity ∧
        Relation.ReflTransGen Phase.Step o.phase o'.phase ∧
        (o.phase.isTerminal = true → o'.phase = o.phase)) ∧
    (∀ o ∈ s.tables.operations, ∀ i, o.named i = true → o.phase ≠ .pending →
      ∀ terminalJson timestamp,
        cancelDeferredOperation i terminalJson timestamp s.tables = (false, s.tables)) ∧
    (∀ timestamp call u, (store D).next s (timestamp, call) = some u →
      (∀ o ∈ s.tables.operations, ∀ o' ∈ u.tables.operations, o'.serial = o.serial →
        o.Moves call o') ∧
      (∀ o ∈ s.tables.operations, (∀ o' ∈ u.tables.operations, o'.serial ≠ o.serial) →
        o.phase.isTerminal = true) ∧
      ∀ operation m leaseToken terminalJson elsewhere,
        call = .commitDeferred operation m leaseToken terminalJson elsewhere →
        (∃ o ∈ s.tables.operations, ∃ o' ∈ u.tables.operations, o'.serial = o.serial ∧
          o.id = operation.id ∧ o.phase = .committing ∧ o'.phase = .succeeded terminalJson) ∧
        u.tables.resourceAt m.address = m.document.map m.row ∧
        (∃ r ∈ u.tables.replays, r.replayKey = m.replayKey ∧ r.resource = m.document) ∧
        (m.isUnchanged = false → ∃ e, u.tables.evidence = s.tables.evidence ++ [e] ∧
          e.tenantUid = (m.address.tenantId, m.resourceUid) ∧ e.operationId = operation.id)) ∧
    s.tables.evidence.map Evidence.commit = s.commits ∧
    (s.commits.map fun c => (c.tenantId, c.operationId)).Nodup ∧
    ∀ tenantUid, (evidenceOf tenantUid s.tables.evidence).map Evidence.sequence =
      List.range' 1 (evidenceOf tenantUid s.tables.evidence).length := by
  have hinv := numbered_of_reachable hs
  refine ⟨hinv.operations.replayKeys, ?_, ?_, ?_, hinv.commits, hinv.once, hinv.sequence⟩
  · intro u hu o ho o' ho' hserial
    obtain ⟨hidentity, hphase⟩ := operation_of_path hs hu o ho o' ho' hserial
    exact ⟨hidentity, hphase, Phase.reaches_of_isTerminal hphase⟩
  · intro o ho i hnamed hphase terminalJson timestamp
    exact hinv.operations.cancel_eq ho hnamed hphase terminalJson timestamp
  intro timestamp call u hn
  obtain ⟨-, happly, -⟩ := store_next hn
  have hw := Call.apply_operations hinv.addresses happly
  refine ⟨fun o ho o' ho' hserial => (hinv.operations.stepped hw ho ho' hserial).moves, ?_, ?_⟩
  · intro o ho hgone
    rcases hw.rows.fate (Operation.Step.refl call) ho with ⟨o', ho', hstep⟩ | hterminal
    · exact absurd hstep.serial (hgone o' ho')
    · exact hterminal
  · rintro _ m _ _ _ rfl
    obtain ⟨-, hresource, -, hresult⟩ := commitDeferred_result hinv.addresses happly
    refine ⟨commitDeferred_succeeds hinv.addresses happly, hresource.resourceAt, ?_, ?_⟩
    · rw [hresult.replays]
      exact writeReplay_mem m timestamp _
    · intro hchanged
      have hevidence := hresult.evidence
      rw [hchanged] at hevidence
      exact ⟨_, hevidence, rfl, rfl⟩

/-- The operation that creates the bucket. -/
def creationRecord : OperationRecord :=
  { id := "op_2", principalId := "p", operation := .apply, fingerprint := "f", replayKey := "key",
    target := bucketAddress, targetFormRef := bucketForm, accepted := none, resourceUid := "uid_1",
    pollsRemaining := 1 }

/-- A deferred creation, for the run below. -/
def creationRef : OperationRef := { tenantId := "t", principalId := "p", id := "op_2" }

def creationDependencies : DependencySet :=
  { tenantId := "t", space := "s", holderUid := "uid_1", operationId := "op_2",
    manifest := "manifest", dataKeys := ["data"], fences := [], relations := [], collected := rfl }

def creation : Mutation :=
  { address := bucketAddress, resourceUid := "uid_1", expectedRevision := none,
    packageDigest := none, implementationDigest := none, replayKey := "key", fingerprint := "f",
    status := 201, change := .write bucket.document creationDependencies "receipt" .initial [] }

def creationSaga : SagaRef := { tenantId := "t", operationId := "op_2", resourceUid := "uid_1" }

/-- An operation from its acceptance to its commit, with a cancellation that comes too late. -/
def creationRun : List (Instant × Call) :=
  [(0, .acceptOperation creationRecord false true),
   (1, .armOperation creationRef),
   (2, .acquireOperation creationRef { token := "lease_1", leaseUntil := 1000 }),
   (3, .cancelOperation creationRef "cancelled"),
   (4, .acceptSaga creationRecord.saga false),
   (5, .reserveIncarnation bucketAddress "uid_1" bucketForm),
   (6, .acquireSaga creationSaga { token := "pmlease_1", leaseUntil := 1000 } .initial),
   (7, .reserveDependencies creationDependencies "pmlease_1" 1000),
   (8, .bindApply creationSaga "f" "pmlease_1" .initial "selection"),
   (9, .markDispatch creationSaga "pmlease_1" .initial
     (some (creationDependencies, .lease "pmlease_1"))),
   (10, .recordEffect { tenantId := "t", resourceUid := "uid_1", effectId := "op_2",
                        effectKind := .apply, phase := .dispatched, operationMode := .initial }),
   (11, .recordReceipt creationSaga "pmlease_1" none (some (.lease "lease_1")) "receipt"),
   (12, .commitDeferred (creationRecord.row 0) creation "lease_1" "succeeded" true)]

/-- The run above ends with the operation succeeded, and one row of evidence. -/
theorem deferred_operation_life_cycle_creationRun :
    ∃ s, (store plainDigests).Reachable s ∧
      s.tables.operations.map Operation.phase = [.succeeded "succeeded"] ∧
      s.tables.resources.map Resource.uid = ["uid_1"] ∧
      s.tables.evidence.map Evidence.sequence = [1] ∧
      s.tables.evidence.map Evidence.commit = s.commits := by
  obtain ⟨s, hs, hp⟩ := exists_reachable_of_run (M := store plainDigests) creationRun
    (fun s => decide (s.tables.operations.map Operation.phase = [.succeeded "succeeded"] ∧
      s.tables.resources.map Resource.uid = ["uid_1"] ∧
      s.tables.evidence.map Evidence.sequence = [1])) (by decide +kernel)
  obtain ⟨hphase, hresource, hsequence⟩ := of_decide_eq_true hp
  have hcycle := deferred_operation_life_cycle plainDigests hs
  exact ⟨s, hs, hphase, hresource, hsequence, hcycle.2.2.2.2.1⟩

end Takoserver.V1
