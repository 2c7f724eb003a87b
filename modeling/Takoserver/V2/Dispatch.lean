import Takoserver.V2.Lockstep
import Takoserver.V2.Worker

/-!
# At most one dispatch

Whether an Operation may have been sent is the flag `dispatchPossible`, which only
the dispatch fence sets and nothing clears.  A fence is written on a `running` row,
whose flag is still clear, so each Operation is fenced once, by one worker; that
worker is the only one that goes on to call `execute`.
-/

namespace Takoserver.V2

/-! ### The flag -/

/-- The Operation may have been sent to its backend. -/
def Flagged (db : Db) (id : Uuid) : Prop :=
  ∃ o ∈ db.operations, o.id = id ∧ o.dispatchPossible = true

/-- The flag a status stands for. -/
def OperationRow.dispatchStatus (o : OperationRow) : Bool :=
  match o.status with
  | .queued | .running | .waitingInput => !o.dispatchPossible
  | .reconciling | .succeeded => o.dispatchPossible
  | .failed => true

/-- Every status goes with its flag. -/
def DispatchStatus (db : Db) : Prop := ∀ o ∈ db.operations, o.dispatchStatus = true

/-- Two databases that flag the same Operations, each in step with its statuses. -/
def KeepsFlags (db db' : Db) : Prop := DispatchStatus db' ∧ ∀ id, Flagged db' id ↔ Flagged db id

variable {db : Db}

theorem KeepsFlags.refl (hd : DispatchStatus db) : KeepsFlags db db :=
  ⟨hd, fun _ => Iff.rfl⟩

variable {db' : Db} {id : Uuid} {s : System}

/-- Replacing a row by one with the same flag. -/
theorem KeepsFlags.put (hl : Lockstep db) (hd : DispatchStatus db)
    {o new : OperationRow} (hops : db'.operations = Table.put OperationRow.id new db.operations)
    (ho : o ∈ db.operations) (hid : new.id = o.id)
    (hflag : new.dispatchPossible = o.dispatchPossible) (hstatus : new.dispatchStatus = true) :
    KeepsFlags db db' := by
  constructor
  · intro x hx
    rw [hops, Table.mem_put] at hx
    rcases hx with ⟨hx, -⟩ | ⟨rfl, -⟩
    · exact hd x hx
    · exact hstatus
  · intro id
    constructor
    · rintro ⟨x, hx, hxid, hxf⟩
      rw [hops, Table.mem_put] at hx
      rcases hx with ⟨hx, -⟩ | ⟨rfl, -⟩
      · exact ⟨x, hx, hxid, hxf⟩
      · exact ⟨o, ho, hid.symm.trans hxid, hflag.symm.trans hxf⟩
    · rintro ⟨x, hx, hxid, hxf⟩
      by_cases hk : x.id = new.id
      · have hxo : x = o := Table.eq_of_key hl.ids hx ho (hk.trans hid)
        refine ⟨new, ?_, hk.symm.trans hxid, by rw [hflag, ← hxo, hxf]⟩
        rw [hops]
        exact Table.mem_put_self ho hid.symm
      · exact ⟨x, by rw [hops]; exact Table.mem_put_of_ne hx hk, hxid, hxf⟩

theorem KeepsFlags.updateWhere (hl : Lockstep db) (hd : DispatchStatus db)
    {condition : OperationRow → Bool} {set : OperationRow → OperationRow} {changed : Bool}
    (h : db.updateWhere id condition set = some (db', changed))
    (hflag : ∀ o, (set o).dispatchPossible = o.dispatchPossible)
    (hstatus : ∀ o, condition o = true → o.dispatchStatus = true →
      o.status.transition (set o).status = true → (set o).dispatchStatus = true) :
    KeepsFlags db db' := by
  rcases Db.updateWhere_some h with ⟨-, rfl⟩ | ⟨-, o, ho, -, -, hc, hu⟩
  · exact KeepsFlags.refl hd
  · obtain ⟨hid, -, -, -, -, -, -, -, -, htrans⟩ := Db.updateOperation_assigns hu
    exact KeepsFlags.put hl hd (Db.updateOperation_rows hu).1 ho hid (hflag o)
      (hstatus o hc (hd o ho) htrans)

theorem KeepsFlags.accepted {record : AcceptRecord}
    {references : Option (List Reference)} {rows' : List ResourceRow} (hd : DispatchStatus db)
    (hacc : Accepted db db' record references rows') : KeepsFlags db db' := by
  have hops := hacc.operations
  constructor
  · intro x hx
    rw [hops, List.mem_append, List.mem_singleton] at hx
    rcases hx with hx | rfl
    · exact hd x hx
    · rfl
  · intro id
    constructor
    · rintro ⟨x, hx, hxid, hxf⟩
      rw [hops, List.mem_append, List.mem_singleton] at hx
      rcases hx with hx | rfl
      · exact ⟨x, hx, hxid, hxf⟩
      · cases hxf
    · rintro ⟨x, hx, hxid, hxf⟩
      exact ⟨x, by rw [hops]; exact List.mem_append_left _ hx, hxid, hxf⟩

/-- **No batch but the dispatch fence touches the flag.** -/
theorem keepsFlags_apply {action : StoreAction} (hl : Lockstep db)
    (hd : DispatchStatus db) (hwf : action.wellFormed db = true)
    (hne : ∀ id token now, action ≠ .markDispatch id token now) :
    KeepsFlags db (action.apply db) := by
  cases action with
  | insertCreate | insertChange =>
    rcases accepted_apply hl.busy_exists hwf rfl with heq | ⟨_, _, hacc, -⟩
    · rw [heq]
      exact KeepsFlags.refl hd
    · exact KeepsFlags.accepted hd hacc
  | defer =>
    simp only [StoreAction.apply, Db.defer]
    split
    · exact KeepsFlags.refl hd
    · next o ho =>
      rw [Option.filter_eq_some_iff] at ho
      have hmem := (Table.find_some ho.1).1
      have hstatus := hd o hmem
      exact KeepsFlags.put hl hd rfl hmem rfl rfl hstatus
  | claim =>
    refine effect_of_results (KeepsFlags.refl hd) fun db' changed h => ?_
    refine KeepsFlags.updateWhere hl hd h (fun _ => rfl) (fun o _ _ _ => ?_)
    cases o.dispatchPossible <;> simp [OperationRow.dispatchStatus]
  | markDispatch id token now => exact absurd rfl (hne id token now)
  | waitForInputs =>
    refine effect_of_results (KeepsFlags.refl hd) fun db' changed h => ?_
    refine KeepsFlags.updateWhere hl hd h (fun _ => rfl) (fun o hc _ _ => ?_)
    simp only [Bool.and_eq_true, Bool.not_eq_true'] at hc
    simp [OperationRow.dispatchStatus, hc.1.1.2]
  | failUnverifiable =>
    refine effect_of_results (KeepsFlags.refl hd) fun db' changed h => ?_
    exact KeepsFlags.updateWhere hl hd h (fun _ => rfl) (fun o _ _ _ => rfl)
  | replenish id inputs =>
    refine effect_of_results (KeepsFlags.refl hd) fun db' changed h => ?_
    simp only [Db.replenish, Option.map_eq_some_iff] at h
    obtain ⟨⟨_, _⟩, h, heq⟩ := h
    cases heq
    have hstatus : ∀ o : OperationRow, Db.awaitsInputs o = true →
        (!o.dispatchPossible) = true := by
      intro o ho
      simp only [Db.awaitsInputs, Bool.and_eq_true] at ho
      exact ho.1.2
    split at h
    · -- the transfer rows moved, the Operations did not
      have hl' : Lockstep { db with privateInputs := db.privateInputs.map fun row =>
          if row.operationId = id then { row with transfer := some inputs.transfer } else row } :=
        hl.of_columns rfl rfl
      have hk := KeepsFlags.updateWhere hl' hd h (fun _ => rfl) fun o hc _ _ => by
        rw [Bool.and_eq_true] at hc
        exact hstatus o hc.1
      exact hk
    · refine KeepsFlags.updateWhere hl hd h (fun _ => rfl) (fun o hc _ _ => ?_)
      rw [Bool.and_eq_true] at hc
      exact hstatus o hc.1
  | settle _ _ input =>
    refine effect_of_results (KeepsFlags.refl hd) fun db' changed h => ?_
    refine KeepsFlags.updateWhere hl hd h (fun _ => rfl) (fun o hc hs ht => ?_)
    simp only [Bool.and_eq_true, beq_iff_eq] at hc
    rw [hc.2] at ht
    simp only [OperationRow.dispatchStatus, hc.2] at hs
    cases hi : input.status <;> rw [hi] at ht <;> first | exact hs | rfl | cases ht

/-- **The dispatch fence sets the flag of one Operation, where it was clear.** -/
theorem markDispatch_flags {token : Uuid} {now : Instant} (hl : Lockstep db)
    (hd : DispatchStatus db) (h : db.markDispatch id token now = some (db', true)) :
    DispatchStatus db' ∧ ¬ Flagged db id ∧ ∀ x, Flagged db' x ↔ Flagged db x ∨ x = id := by
  rcases Db.updateWhere_some h with ⟨hf, -⟩ | ⟨-, o, ho, -, hoid, hc, hu⟩
  · cases hf
  simp only [Bool.and_eq_true, beq_iff_eq] at hc
  have hops := (Db.updateOperation_rows hu).1
  have hclear : o.dispatchPossible = false := by
    have hs := hd o ho
    rw [OperationRow.dispatchStatus, hc.2] at hs
    simpa using hs
  refine ⟨?_, ?_, ?_⟩
  · intro x hx
    rw [hops, Table.mem_put] at hx
    rcases hx with ⟨hx, -⟩ | ⟨rfl, -⟩
    · exact hd x hx
    · rfl
  · rintro ⟨x, hx, hxid, hxf⟩
    rw [Table.eq_of_key hl.ids hx ho (hxid.trans hoid.symm), hclear] at hxf
    cases hxf
  · intro x
    constructor
    · rintro ⟨y, hy, rfl, hyf⟩
      rw [hops, Table.mem_put] at hy
      rcases hy with ⟨hy, -⟩ | ⟨rfl, -⟩
      · exact Or.inl ⟨y, hy, rfl, hyf⟩
      · exact Or.inr hoid
    · rintro (⟨y, hy, rfl, hyf⟩ | rfl)
      · refine ⟨y, ?_, rfl, hyf⟩
        rw [hops]
        refine Table.mem_put_of_ne hy fun hk => ?_
        rw [Table.eq_of_key hl.ids hy ho hk, hclear] at hyf
        cases hyf
      · have hself := Table.mem_put_self ho (Db.updateOperation_assigns hu).1.symm
        rw [← hops] at hself
        exact ⟨_, hself, hoid, rfl⟩

/-! ### What a worker's step can do -/

/-- The status a worker's claim found. -/
def Worker.claimedFrom : Worker → Option Status
  | .claimed _ _ status | .targeting _ _ status | .unsealing _ _ _ status
  | .fencing _ status | .owning _ _ status | .calling _ _ status => some status
  | _ => none

/-- The Operation and claim a worker has fenced and not yet sent. -/
def Worker.toSend : Worker → Option (Uuid × Uuid)
  | .owning execution false _ | .calling execution false _ =>
      some (execution.operationId, execution.leaseToken)
  | _ => none

section StepWorker

variable {options : EngineOptions} {w : ℕ} {token : Uuid} {db : Db} {outside : Outside}
  {worker : Worker}

/-- A step that runs at most one batch of the store, and fences nothing. -/
def Outcome.Quiet (db : Db) (outcome : Outcome) : Prop :=
  outcome.fence = none ∧ (outcome.db = db ∨ ∃ action : StoreAction,
    store.next db action = some outcome.db ∧ ∀ id token now, action ≠ .markDispatch id token now)

/-- A conditional statement is the batch its result is the result of. -/
theorem statement_quiet {result : Option (Db × Bool)} {yes no : Db → Outcome}
    (action : StoreAction) (hresult : action.apply db = (result.map Prod.fst).getD db)
    (hwf : action.wellFormed db = true) (hne : ∀ id token now, action ≠ .markDispatch id token now)
    (hyes : ∀ db', (yes db').db = db' ∧ (yes db').fence = none)
    (hno : ∀ db', (no db').db = db' ∧ (no db').fence = none) :
    (statement db result yes no).Quiet db := by
  have hnext : store.next db action = some ((result.map Prod.fst).getD db) := by
    simp [store, hwf, hresult]
  cases result with
  | none => exact ⟨rfl, Or.inl rfl⟩
  | some p =>
    obtain ⟨db', changed⟩ := p
    cases changed with
    | false => exact ⟨(hno db').2, Or.inr ⟨action, by rw [hnext]; simp [statement, hno], hne⟩⟩
    | true => exact ⟨(hyes db').2, Or.inr ⟨action, by rw [hnext]; simp [statement, hyes], hne⟩⟩

/-- **A step of a worker is at most one batch of the store**, and unless that is the
dispatch fence being written it fences nothing. -/
theorem stepWorker_store :
    (stepWorker options w token db outside worker).Quiet db ∨
      ∃ execution claimedFrom, worker = .fencing execution claimedFrom ∧
        db.markDispatch execution.operationId execution.leaseToken outside.nowMs =
          some ((stepWorker options w token db outside worker).db, true) ∧
        (stepWorker options w token db outside worker).worker = .owning execution false claimedFrom ∧
        (stepWorker options w token db outside worker).fence =
          some ⟨w, execution.operationId, execution.leaseToken⟩ := by
  cases worker with
  | scanning | selecting | claimed | targeting | unsealing =>
    left
    simp only [stepWorker]
    repeat' split
    all_goals exact ⟨rfl, Or.inl rfl⟩
  | deferring id nowMs =>
    left
    refine ⟨rfl, Or.inr ⟨.defer id nowMs (nowMs + options.retryMs), ?_, by simp⟩⟩
    simp [store, StoreAction.wellFormed, StoreAction.apply, stepWorker]
  | claiming id =>
    left
    simp only [stepWorker]
    split
    · exact ⟨rfl, Or.inl rfl⟩
    · exact statement_quiet (.claim id token outside.nowMs _) rfl rfl (by simp)
        (fun _ => ⟨rfl, rfl⟩) (fun _ => ⟨rfl, rfl⟩)
  | unverifiable id token =>
    left
    exact statement_quiet (.failUnverifiable id token outside.nowMs _) rfl rfl (by simp)
      (fun _ => ⟨rfl, rfl⟩) (fun _ => ⟨rfl, rfl⟩)
  | waiting id token names reason =>
    left
    exact statement_quiet (.waitForInputs id token outside.nowMs names reason) rfl rfl (by simp)
      (fun _ => ⟨rfl, rfl⟩) (fun _ => ⟨rfl, rfl⟩)
  | fencing execution claimedFrom =>
    cases hm : db.markDispatch execution.operationId execution.leaseToken outside.nowMs with
    | none =>
      left
      simp only [stepWorker, hm, statement]
      exact ⟨rfl, Or.inl rfl⟩
    | some result =>
      obtain ⟨_, changed⟩ := result
      cases changed with
      | false =>
        left
        rcases Db.updateWhere_some hm with ⟨-, rfl⟩ | ⟨hf, -⟩
        · simp only [stepWorker, hm, statement]
          exact ⟨rfl, Or.inl rfl⟩
        · cases hf
      | true =>
        right
        refine ⟨execution, claimedFrom, rfl, ?_⟩
        simp [stepWorker, hm, statement]
  | owning =>
    left
    simp only [stepWorker]
    split <;> exact ⟨rfl, Or.inl rfl⟩
  | calling => exact Or.inl ⟨rfl, Or.inl rfl⟩
  | settling id token =>
    left
    exact statement_quiet (.settle id token _) rfl rfl (by simp)
      (fun _ => ⟨rfl, rfl⟩) (fun _ => ⟨rfl, rfl⟩)
  | replying id =>
    left
    simp only [stepWorker]
    split <;> exact ⟨rfl, Or.inl rfl⟩

theorem stepWorker_call {call : Call}
    (h : (stepWorker options w token db outside worker).call = some call) :
    ∃ execution mustReconcile claimedFrom, worker = .calling execution mustReconcile claimedFrom ∧
      call = ⟨w, mustReconcile, execution, claimedFrom⟩ ∧
      (stepWorker options w token db outside worker).db = db ∧
      (stepWorker options w token db outside worker).fence = none ∧
      (stepWorker options w token db outside worker).worker.toSend = none := by
  cases worker with
  | calling execution mustReconcile claimedFrom =>
    refine ⟨execution, mustReconcile, claimedFrom, rfl, ?_, rfl, rfl, rfl⟩
    exact (Option.some.inj h).symm
  | _ =>
    exfalso
    revert h
    simp only [stepWorker, statement]
    repeat' split
    all_goals simp [Outcome.ends]

theorem stepWorker_toSend {claim : Uuid}
    (h : (stepWorker options w token db outside worker).worker.toSend = some (id, claim)) :
    worker.toSend = some (id, claim) ∨
      (stepWorker options w token db outside worker).fence = some ⟨w, id, claim⟩ := by
  cases worker with
  | fencing =>
    revert h
    simp only [stepWorker, statement]
    split
    · simp [Outcome.ends, Worker.idle, Worker.toSend]
    · intro h
      simp only [Worker.toSend, Option.some.injEq, Prod.mk.injEq] at h
      rw [h.1, h.2]
      exact Or.inr rfl
    · simp [Worker.toSend]
  | owning _ mustReconcile =>
    revert h
    simp only [stepWorker]
    split
    · cases mustReconcile <;> exact fun h => Or.inl h
    · simp [Worker.toSend]
  | _ =>
    exfalso
    revert h
    simp only [stepWorker, statement]
    repeat' split
    all_goals simp [Outcome.ends, Worker.idle, Worker.toSend]

theorem claim_open {nowMs untilMs : Instant} {row : OperationRow}
    (hrow : db.operation id = some row) (h : db.claim id token nowMs untilMs = some (db', true)) :
    row.status.terminal = false := by
  rcases Db.updateWhere_some h with ⟨hf, -⟩ | ⟨-, o, -, ho, -, hc, -⟩
  · cases hf
  rw [hrow, Option.some.injEq] at ho
  subst ho
  simp only [Db.claimable, Bool.and_eq_true, Bool.or_eq_true, beq_iff_eq] at hc
  rcases hc.2 with hs | ⟨hs | hs, -⟩ <;> rw [hs] <;> rfl

theorem stepWorker_claimedFrom {status : Status}
    (h : (stepWorker options w token db outside worker).worker.claimedFrom = some status) :
    worker.claimedFrom = some status ∨ status.terminal = false := by
  cases worker with
  | claiming id =>
    right
    simp only [stepWorker] at h
    split at h
    · cases h
    next hrow =>
    cases hc : db.claim id token outside.nowMs
        (outside.nowMs + options.leaseMilliseconds) with
    | none =>
      rw [hc] at h
      cases h
    | some result =>
      obtain ⟨_, changed⟩ := result
      rw [hc] at h
      cases changed with
      | false => cases h
      | true =>
        simp only [statement, Worker.claimedFrom, Option.some.injEq] at h
        rw [← h]
        exact claim_open hrow hc
  | claimed _ _ claimedFrom =>
    left
    revert h
    simp only [stepWorker]
    split
    · simp [Outcome.ends, Worker.idle, Worker.claimedFrom]
    · exact fun h => h
  | targeting _ _ claimedFrom =>
    left
    revert h
    simp only [stepWorker]
    repeat' split
    all_goals simp [Outcome.ends, Worker.idle, Worker.claimedFrom]
  | unsealing _ _ _ claimedFrom =>
    left
    revert h
    simp only [stepWorker]
    split <;> simp [Worker.claimedFrom]
  | fencing _ claimedFrom =>
    left
    revert h
    simp only [stepWorker, statement]
    split <;> simp [Outcome.ends, Worker.idle, Worker.claimedFrom]
  | owning _ _ claimedFrom =>
    left
    revert h
    simp only [stepWorker]
    split <;> simp [Worker.claimedFrom]
  | _ =>
    exfalso
    revert h
    simp only [stepWorker, statement]
    repeat' split
    all_goals simp [Outcome.ends, Worker.idle, Worker.claimedFrom]

end StepWorker

/-! ### The invariant of the system -/

/-- A call of `execute` for an Operation. -/
def Call.executes (id : Uuid) (call : Call) : Bool :=
  !call.reconcile && call.execution.operationId == id

/-- What ties the two logs to the database and to where the workers stand. -/
structure Dispatched (s : System) : Prop where
  reachable : store.Reachable s.db
  status : DispatchStatus s.db
  /-- An Operation is fenced once. -/
  fences : (s.fences.map Fence.operationId).Nodup
  /-- The flag is set exactly by a fence. -/
  flagged : ∀ id, Flagged s.db id ↔ id ∈ s.fences.map Fence.operationId
  /-- Who is about to send wrote the fence, and nobody has sent. -/
  toSend : ∀ w id claim, (s.worker w).toSend = some (id, claim) →
    ⟨w, id, claim⟩ ∈ s.fences ∧ ∀ call ∈ s.calls, call.executes id = false
  /-- Who sent wrote the fence. -/
  sent : ∀ call ∈ s.calls, call.reconcile = false →
    ⟨call.worker, call.execution.operationId, call.execution.leaseToken⟩ ∈ s.fences
  once : ∀ id, s.calls.countP (Call.executes id) ≤ 1
  claimed : ∀ w status, (s.worker w).claimedFrom = some status → status.terminal = false
  called : ∀ call ∈ s.calls, call.claimedFrom.terminal = false

variable {options : EngineOptions}

theorem dispatched_init : Dispatched (workers options).init := by
  refine ⟨Machine.PathVia.refl _, ?_, ?_, ?_, ?_, ?_, ?_, ?_, ?_⟩ <;>
    simp [workers, DispatchStatus, Flagged, Worker.idle, Worker.toSend, Worker.claimedFrom]

section

variable (h : Dispatched s)

include h

/-- A batch of the store that is not the fence. -/
theorem Dispatched.store_next (action : StoreAction) (hn : store.next s.db action = some db')
    (hne : ∀ id token now, action ≠ .markDispatch id token now) :
    Dispatched { s with db := db' } := by
  have hkeep : KeepsFlags s.db db' := by
    simp only [store] at hn
    split at hn
    · next hwf =>
      rw [Option.some.injEq] at hn
      rw [← hn]
      exact keepsFlags_apply (lockstep_of_reachable h.reachable) h.status hwf hne
    · cases hn
  exact
    { h with
      reachable := h.reachable.next hn
      status := hkeep.1
      flagged := fun id => (hkeep.2 id).trans (h.flagged id) }

theorem Dispatched.move (w : ℕ) (worker : Worker) (supply : Uuid)
    (hsend : ∀ id claim, worker.toSend = some (id, claim) → (s.worker w).toSend = some (id, claim))
    (hclaimed : ∀ status, worker.claimedFrom = some status → (s.worker w).claimedFrom = some status ∨ status.terminal = false)
    :
    Dispatched { s with worker := Function.update s.worker w worker, supply := supply } := by
  refine { h with toSend := fun x id claim hx => ?_, claimed := fun x status hx => ?_ }
  · by_cases hxw : x = w
    · subst hxw
      simp only [Function.update_self] at hx
      exact h.toSend x id claim (hsend id claim hx)
    · simp only [Function.update_of_ne hxw] at hx
      exact h.toSend x id claim hx
  · by_cases hxw : x = w
    · subst hxw
      simp only [Function.update_self] at hx
      rcases hclaimed status hx with hold | hopen
      · exact h.claimed x status hold
      · exact hopen
    · simp only [Function.update_of_ne hxw] at hx
      exact h.claimed x status hx

theorem Dispatched.send {w : ℕ} {execution : Execution} {mustReconcile : Bool}
    {claimedFrom : Status} (hw : s.worker w = .calling execution mustReconcile claimedFrom)
    {worker : Worker} (hnone : worker.toSend = none) (hclaimed : worker.claimedFrom = none)
    (supply : Uuid) :
    Dispatched { s with
      worker := Function.update s.worker w worker
      supply := supply
      calls := s.calls ++ [⟨w, mustReconcile, execution, claimedFrom⟩] } := by
  -- what a dispatching worker knows: the fence is its own, and nobody has sent
  have hfirst : mustReconcile = false →
      ⟨w, execution.operationId, execution.leaseToken⟩ ∈ s.fences ∧
        ∀ call ∈ s.calls, call.executes execution.operationId = false := by
    intro hm
    exact h.toSend w _ _ (by rw [hw, hm]; rfl)
  refine { h with toSend := ?_, sent := ?_, once := ?_, claimed := ?_, called := ?_ }
  · intro x id claim hx
    by_cases hxw : x = w
    · subst hxw
      simp only [Function.update_self, hnone] at hx
      cases hx
    simp only [Function.update_of_ne hxw] at hx
    obtain ⟨hfence, hcalls⟩ := h.toSend x id claim hx
    refine ⟨hfence, fun call hcall => ?_⟩
    rw [List.mem_append, List.mem_singleton] at hcall
    rcases hcall with hcall | rfl
    · exact hcalls call hcall
    cases mustReconcile with
    | true => rfl
    | false =>
      -- another worker's fence on the same Operation would be the same fence
      simp only [Call.executes, Bool.not_false, Bool.true_and, beq_eq_false_iff_ne]
      intro hid
      have heq : (⟨x, id, claim⟩ : Fence) = ⟨w, execution.operationId, execution.leaseToken⟩ :=
        Table.eq_of_key h.fences hfence (hfirst rfl).1 hid.symm
      exact hxw (congrArg Fence.worker heq)
  · intro call hcall hr
    rw [List.mem_append, List.mem_singleton] at hcall
    rcases hcall with hcall | rfl
    · exact h.sent call hcall hr
    · exact (hfirst hr).1
  · intro id
    rw [List.countP_append, List.countP_singleton]
    by_cases hid : Call.executes id ⟨w, mustReconcile, execution, claimedFrom⟩ = true
    · simp only [Call.executes, Bool.and_eq_true, Bool.not_eq_true', beq_iff_eq] at hid
      have hzero : s.calls.countP (Call.executes id) = 0 := by
        rw [List.countP_eq_zero]
        intro call hcall
        rw [← hid.2, (hfirst hid.1).2 call hcall]
        simp
      rw [hzero]
      split <;> omega
    · rw [if_neg hid]
      exact h.once id
  · intro x status hx
    by_cases hxw : x = w
    · subst hxw
      simp only [Function.update_self, hclaimed] at hx
      cases hx
    · simp only [Function.update_of_ne hxw] at hx
      exact h.claimed x status hx
  · intro call hcall
    rw [List.mem_append, List.mem_singleton] at hcall
    rcases hcall with hcall | rfl
    · exact h.called call hcall
    · exact h.claimed w claimedFrom (by rw [hw]; rfl)

theorem Dispatched.fence {w : ℕ} {execution : Execution} {claimedFrom : Status}
    (hw : s.worker w = .fencing execution claimedFrom) {now : Instant}
    (hm : s.db.markDispatch execution.operationId execution.leaseToken now = some (db', true))
    (supply : Uuid) :
    Dispatched { s with
      db := db'
      worker := Function.update s.worker w (.owning execution false claimedFrom)
      supply := supply
      fences := s.fences ++ [⟨w, execution.operationId, execution.leaseToken⟩] } := by
  obtain ⟨hstatus, hclear, hflags⟩ :=
    markDispatch_flags (lockstep_of_reachable h.reachable) h.status hm
  have hnew : execution.operationId ∉ s.fences.map Fence.operationId := by
    rw [← h.flagged]
    exact hclear
  have hnext : store.next s.db (.markDispatch execution.operationId execution.leaseToken now) =
      some db' := by
    simp [store, StoreAction.wellFormed, StoreAction.apply, hm]
  refine
    { h with
      reachable := h.reachable.next hnext
      status := hstatus
      fences := ?_
      flagged := ?_
      toSend := ?_
      sent := ?_
      claimed := ?_ }
  · refine Table.nodup_insert h.fences fun fence hfence heq => hnew ?_
    rw [← show fence.operationId = execution.operationId from heq]
    exact List.mem_map_of_mem hfence
  · intro id
    rw [hflags, h.flagged, List.map_append, List.mem_append]
    simp
  · intro x id claim hx
    by_cases hxw : x = w
    · subst hxw
      simp only [Function.update_self, Worker.toSend, Option.some.injEq, Prod.mk.injEq] at hx
      obtain ⟨rfl, rfl⟩ := hx
      refine ⟨by simp, fun call hcall => ?_⟩
      by_contra hexec
      simp only [Call.executes, Bool.not_eq_false, Bool.and_eq_true, Bool.not_eq_true',
        beq_iff_eq] at hexec
      -- whoever executed had written a fence, and there was none
      have hfence := h.sent call hcall hexec.1
      rw [hexec.2] at hfence
      exact hnew (List.mem_map_of_mem (f := Fence.operationId) hfence)
    · simp only [Function.update_of_ne hxw] at hx
      obtain ⟨hfence, hcalls⟩ := h.toSend x id claim hx
      exact ⟨List.mem_append_left _ hfence, hcalls⟩
  · intro call hcall hr
    exact List.mem_append_left _ (h.sent call hcall hr)
  · intro x status hx
    by_cases hxw : x = w
    · subst hxw
      simp only [Function.update_self] at hx
      exact h.claimed x status (by rw [hw]; exact hx)
    · simp only [Function.update_of_ne hxw] at hx
      exact h.claimed x status hx

/-- **Every step of a worker keeps the invariant.** -/
theorem Dispatched.step (w : ℕ) (outside : Outside) :
    Dispatched (s.step options w outside) := by
  unfold System.step
  cases hcall : (stepWorker options w s.supply s.db outside (s.worker w)).call with
  | some =>
    obtain ⟨_, _, _, hw, rfl, hdb, hfence, hnone⟩ :=
      stepWorker_call hcall
    simp only [hdb, hfence, hcall, Option.toList_none, List.append_nil, Option.toList_some]
    refine h.send hw hnone ?_ (s.supply + 1)
    rw [hw]
    rfl
  | none =>
    rcases @stepWorker_store options w s.supply s.db outside (s.worker w) with
      ⟨hfence, hdb⟩ | ⟨execution, claimedFrom, hw, hm, hworker, hfence⟩
    · have h₁ : Dispatched { s with
          db := (stepWorker options w s.supply s.db outside (s.worker w)).db } := by
        rcases hdb with hdb | ⟨action, hn, hne⟩
        · rw [hdb]
          exact h
        · exact h.store_next action hn hne
      have h₂ := h₁.move w (stepWorker options w s.supply s.db outside (s.worker w)).worker
        (s.supply + 1)
        (fun id claim hs => (stepWorker_toSend hs).resolve_right (by rw [hfence]; simp))
        (fun status hs => stepWorker_claimedFrom hs)
      simpa only [hcall, hfence, Option.toList_none, List.append_nil] using h₂
    · simp only [hcall, hfence, hworker, Option.toList_none, List.append_nil, Option.toList_some]
      exact h.fence hw hm (s.supply + 1)

end

/-- **The invariant holds of every state the workers reach.** -/
theorem dispatched_of_reachable (h : (workers options).Reachable s) :
    Dispatched s := by
  refine Machine.Reachable.invariant dispatched_init ?_ h
  intro s action s' _ hs hn
  cases action with
  | request action =>
    simp only [workers] at hn
    split at hn
    · next hc =>
      rw [Option.some.injEq] at hn
      rw [← hn]
      rw [Bool.and_eq_true] at hc
      refine hs.store_next action (by simp [store, hc.2]) fun id token now heq => ?_
      rw [heq] at hc
      cases hc.1
    · cases hn
  | step w outside =>
    simp only [workers, Option.some.injEq] at hn
    rw [← hn]
    exact hs.step w outside
  | crash w =>
    simp only [workers, Option.some.injEq] at hn
    rw [← hn]
    exact hs.move w .idle s.supply (by simp [Worker.idle, Worker.toSend])
      (by simp [Worker.idle, Worker.claimedFrom])

theorem fence_mem_of_path {s' : System}
    (hs : (workers options).Reachable s) (hp : (workers options).Path s s') {fence : Fence}
    (hf : fence ∈ s.fences) : fence ∈ s'.fences := by
  refine Machine.Path.invariant (P := fun s => fence ∈ s.fences) ?_ hs hp hf
  intro s action s' _ hmem hn
  cases action with
  | request =>
    simp only [workers] at hn
    split at hn
    · rw [Option.some.injEq] at hn
      rw [← hn]
      exact hmem
    · cases hn
  | step =>
    simp only [workers, Option.some.injEq] at hn
    rw [← hn]
    exact List.mem_append_left _ hmem
  | crash w =>
    simp only [workers, Option.some.injEq] at hn
    rw [← hn]
    exact hmem

/-- **At most one dispatch.**  In every state the workers reach, `execute` was called at most once
for each Operation, by the claim that wrote its fence and after it did, and no backend was called
for an Operation that had ended when it was claimed.  From the moment the flag of an Operation is
set it stays set, and whatever backend calls there are for that Operation, before or after, each
is a `reconcile` or comes from the one claim that wrote the fence. -/
theorem dispatch_at_most_once {options : EngineOptions} {s : System}
    (hs : (workers options).Reachable s) :
    (∀ id, s.calls.countP (Call.executes id) ≤ 1) ∧
    (∀ call ∈ s.calls, call.reconcile = false →
      ⟨call.worker, call.execution.operationId, call.execution.leaseToken⟩ ∈ s.fences) ∧
    (∀ s', (workers options).Path s s' → ∀ o ∈ s.db.operations, o.dispatchPossible = true →
      (∃ o', s'.db.operation o.id = some o' ∧ o'.dispatchPossible = true) ∧
      ∃ fence ∈ s.fences, fence.operationId = o.id ∧ ∀ call ∈ s'.calls,
        call.execution.operationId = o.id → call.reconcile = true ∨
          call.worker = fence.worker ∧ call.execution.leaseToken = fence.token) ∧
    (∀ call ∈ s.calls, call.claimedFrom.terminal = false) := by
  have h := dispatched_of_reachable hs
  refine ⟨h.once, h.sent, fun s' hp o ho hflag => ?_, h.called⟩
  have h' := dispatched_of_reachable (hs.path hp)
  have hids := (lockstep_of_reachable h'.reachable).ids
  have hfenced : o.id ∈ s.fences.map Fence.operationId := (h.flagged o.id).mp ⟨o, ho, rfl, hflag⟩
  obtain ⟨fence, hfence, hid⟩ := List.mem_map.mp hfenced
  have hfence' := fence_mem_of_path hs hp hfence
  refine ⟨?_, fence, hfence, hid, ?_⟩
  · obtain ⟨o', ho', hoid, hof⟩ :=
      (h'.flagged o.id).mpr (List.mem_map.mpr ⟨fence, hfence', hid⟩)
    refine ⟨o', ?_, hof⟩
    rw [← hoid]
    exact Table.find_of_mem hids ho'
  · intro call hcall hcid
    cases hr : call.reconcile with
    | true => exact Or.inl rfl
    | false =>
      have hsent := h'.sent call hcall hr
      have heq := Table.eq_of_key h'.fences hsent hfence' (hcid.trans hid.symm)
      rw [← heq]
      exact Or.inr ⟨rfl, rfl⟩

/-- One accepted Operation; worker 0 fences it and is about to call `execute` when its
lease expires; worker 1 claims the Operation and calls `reconcile`. -/
def lateRun : List SystemAction :=
  [.request (.insertCreate (requestRecord 1 10 "create" .create 1) "form" "space" "name" (some [])
      (.obj []) none none false),
    .step 0 {}, .step 0 { selected := some ⟨"backend", "target"⟩ }, .step 0 {}, .step 0 {},
    .step 0 {}, .step 0 {}, .step 0 {},
    .step 1 { nowMs := 60000 }, .step 1 { selected := some ⟨"backend", "target"⟩ },
    .step 1 { nowMs := 60000 }, .step 1 {}, .step 1 {}, .step 1 {}, .step 1 {}]

theorem dispatch_at_most_once_lateRun :
    ∃ s, (workers { replayWindowSeconds := 1 }).Reachable s ∧
      s.calls.countP (Call.executes 1) ≤ 1 ∧
      (∃ call ∈ s.calls, call.reconcile = false ∧
        ⟨call.worker, call.execution.operationId, call.execution.leaseToken⟩ ∈ s.fences) ∧
      (∃ o ∈ s.db.operations, ∃ fence ∈ s.fences, fence.operationId = o.id ∧ ∀ call ∈ s.calls,
        call.execution.operationId = o.id → call.reconcile = true ∨
          call.worker = fence.worker ∧ call.execution.leaseToken = fence.token) ∧
      ∀ call ∈ s.calls, call.claimedFrom.terminal = false := by
  obtain ⟨s, hs, hp⟩ := Machine.exists_reachable_of_run
    (M := workers { replayWindowSeconds := 1 }) (lateRun ++ [.step 0 {}])
    (fun s => s.calls.any (fun call => !call.reconcile) &&
      s.db.operations.any fun o => o.dispatchPossible) (by decide)
  simp only [Bool.and_eq_true, List.any_eq_true, Bool.not_eq_true'] at hp
  obtain ⟨⟨call, hcall, hexecute⟩, o, ho, hflag⟩ := hp
  obtain ⟨honce, hsent, hflagged, hcalled⟩ := dispatch_at_most_once hs
  exact ⟨s, hs, honce 1, ⟨call, hcall, hexecute, hsent call hcall hexecute⟩,
    ⟨o, ho, (hflagged s (Machine.PathVia.refl s) o ho hflag).2⟩, hcalled⟩

/-- The one `execute` may come late: after the flag is set, and even after another worker
has reconciled the Operation, the worker that wrote the fence may still call `execute`. -/
theorem execute_after_reconcile :
    ∃ s s', (workers { replayWindowSeconds := 1 }).Reachable s ∧
      (workers { replayWindowSeconds := 1 }).Path s s' ∧
      ∃ o ∈ s.db.operations, o.dispatchPossible = true ∧
        (∃ call ∈ s.calls, call.execution.operationId = o.id ∧ call.reconcile = true) ∧
        ∃ call ∈ s'.calls.drop s.calls.length, call.execution.operationId = o.id ∧
          call.reconcile = false := by
  obtain ⟨s, hs, hp⟩ := Machine.exists_reachable_of_run
    (M := workers { replayWindowSeconds := 1 }) lateRun
    (fun s => s.db.operations.any (fun o => o.id == 1 && o.dispatchPossible) &&
      s.calls.any (fun call => call.execution.operationId == 1 && call.reconcile) &&
      ((s.step { replayWindowSeconds := 1 } 0 {}).calls.drop s.calls.length).any
        (fun call => call.execution.operationId == 1 && !call.reconcile)) (by decide)
  simp only [Bool.and_eq_true, List.any_eq_true, beq_iff_eq, Bool.not_eq_true'] at hp
  obtain ⟨⟨⟨o, ho, hid, hflag⟩, call, hcall, hcid, hr⟩, late, hlate, hlid, he⟩ := hp
  have hpath : (workers { replayWindowSeconds := 1 }).Path s
      (s.step { replayWindowSeconds := 1 } 0 {}) :=
    Relation.ReflTransGen.single (Machine.step_of_next (a := .step 0 {}) rfl)
  exact ⟨s, _, hs, hpath, o, ho, hflag, ⟨call, hcall, hcid.trans hid.symm, hr⟩,
    late, hlate, hlid.trans hid.symm, he⟩

end Takoserver.V2
