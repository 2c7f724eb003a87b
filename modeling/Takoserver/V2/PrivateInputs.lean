import Takoserver.V2.Replenishment

/-!
# The custody of private inputs

What a worker or a replenishment knows, at each place it can stand at: that the row it read is
of an Operation still there, and from the comparison on that its custody found the inputs to
match what the Operation was committed to.

A transfer is erased by the dispatch fence and by a wait, and an Operation ends without
either in one way only: a worker that finds the comparison material missing fails it.  Where
no worker does so while the transfer is still held, no Operation outlives its transfer.
-/

namespace Takoserver.V2.PrivateInputs

/-! ### What a worker's step writes -/

/-- The batch a worker's next step is. -/
def batch (options : EngineOptions) (token : Uuid) (outside : Outside) :
    Worker → Option StoreAction
  | .deferring id nowMs _ => some (.defer id nowMs (nowMs + options.retryMs))
  | .claiming id =>
    some (.claim id token outside.nowMs (outside.nowMs + options.leaseMilliseconds))
  | .unverifiable id token =>
    some (.failUnverifiable id token outside.nowMs
      (outside.nowMs + options.replayWindowSeconds * 1000))
  | .waiting id token names reason => some (.waitForInputs id token outside.nowMs names reason)
  | .fencing execution _ =>
    some (.markDispatch execution.operationId execution.leaseToken outside.nowMs)
  | .settling id token result =>
    some (.settle id token (result.settlement options outside.nowMs))
  | _ => none

theorem statement_db {db : Db} {result : Option (Db × Bool)} {yes no : Db → Outcome}
    (hyes : ∀ db, (yes db).db = db) (hno : ∀ db, (no db).db = db) :
    (statement db result yes no).db = (result.map Prod.fst).getD db := by
  match result with
  | none => rfl
  | some (db', true) => exact hyes db'
  | some (db', false) => exact hno db'

/-- **A worker's step writes what its batch writes.** -/
theorem stepWorker_db (options : EngineOptions) (w : ℕ) (token : Uuid) (db : Db)
    (outside : Outside) (worker : Worker) :
    (stepWorker options w token db outside worker).db =
      ((batch options token outside worker).map fun action => action.apply db).getD db := by
  cases worker with
  | claiming id =>
    simp only [stepWorker, batch, Option.map_some, Option.getD_some, StoreAction.apply]
    split
    · next hnone =>
      simp only [Db.claim, Db.updateWhere, hnone, Option.filter_none]
      rfl
    · exact statement_db (fun _ => rfl) (fun _ => rfl)
  | deferring => rfl
  | unverifiable => exact statement_db (fun _ => rfl) (fun _ => rfl)
  | waiting => exact statement_db (fun _ => rfl) (fun _ => rfl)
  | fencing => exact statement_db (fun _ => rfl) (fun _ => rfl)
  | settling => exact statement_db (fun _ => rfl) (fun _ => rfl)
  | calling => rfl
  | _ =>
    simp only [stepWorker, batch, Option.map_none, Option.getD_none]
    repeat' split
    all_goals rfl

variable {token : Uuid} {outside : Outside} {worker : Worker} {action : StoreAction}

theorem batch_cases {options : EngineOptions} (h : batch options token outside worker = some action) :
    (∀ db, action.wellFormed db = true) ∧ action.commitment = none ∧
      (∀ id inputs now, action ≠ .replenish id inputs now) ∧
      ∀ id token now retainUntil, action = .failUnverifiable id token now retainUntil →
        worker = .unverifiable id token := by
  cases worker with
  | deferring =>
    cases h
    exact ⟨fun _ => rfl, rfl, by simp, by simp⟩
  | claiming id =>
    cases h
    exact ⟨fun _ => rfl, rfl, by simp, by simp⟩
  | unverifiable =>
    cases h
    refine ⟨fun _ => rfl, rfl, by simp, fun id' token' now retainUntil heq => ?_⟩
    simp only [StoreAction.failUnverifiable.injEq] at heq
    rw [heq.1, heq.2.1]
  | waiting =>
    cases h
    exact ⟨fun _ => rfl, rfl, by simp, by simp⟩
  | fencing =>
    cases h
    exact ⟨fun _ => rfl, rfl, by simp, by simp⟩
  | settling =>
    cases h
    exact ⟨fun _ => rfl, rfl, by simp, by simp⟩
  | _ => cases h

/-! ### The Operations and what they are committed to -/

/-- What a comparison reads of an Operation. -/
def bound (o : OperationRow) : PrivateInputBinding × Bool :=
  (privateBinding o, o.privateInputsPresent)

/-- The Operations a database has. -/
def bounds (db : Db) : List (PrivateInputBinding × Bool) := db.operations.map bound

/-- No write assigns what a comparison reads. -/
theorem bounds_write {db db' : Db} (hl : Lockstep db) (hw : Write db db') :
    bounds db ⊆ bounds db' := by
  have hput : ∀ {old new : OperationRow}, old ∈ db.operations → new.id = old.id →
      bound new = bound old →
      (Table.put OperationRow.id new db.operations).map bound = db.operations.map bound := by
    intro old new hold hid hsame
    refine Table.map_put _ fun x hx hk => ?_
    rw [Table.eq_of_key hl.ids hx hold (hk.trans hid), hsame]
  have haccepted : ∀ {record references rows'}, Accepted db db' record references rows' →
      bounds db ⊆ bounds db' := by
    intro record references rows' hacc
    rw [bounds, bounds, hacc.operations, List.map_append]
    exact List.subset_append_left _ _
  cases hw with
  | progress hp =>
    cases hp with
    | inputs => exact fun b hb => hb
    | status _ _ _ hold hupdate =>
      obtain ⟨hid, huid, hprincipal, -, -, -, hgen, hpresent, -⟩ :=
        Db.updateOperation_assigns hupdate
      rw [bounds, bounds, (Db.updateOperation_rows hupdate).1,
        hput hold hid (by simp [bound, privateBinding, hid, huid, hprincipal, hgen, hpresent])]
      exact fun b hb => hb
    | defer old nextMs hold =>
      have hsame : (Table.put OperationRow.id { old with nextAttemptAtMs := nextMs }
          db.operations).map bound = db.operations.map bound := hput hold rfl rfl
      intro b hb
      rw [bounds] at hb ⊢
      exact hsame ▸ hb
  | create _ _ _ _ _ _ _ _ _ _ hacc =>
    exact haccepted hacc
  | change record references r haction hreferences hr huid hprincipal hlive hgeneration hfree
      hdelete hcheck hacc =>
    exact haccepted hacc

theorem bounds_apply {db : Db} (hl : Lockstep db) (hwf : action.wellFormed db = true) :
    bounds db ⊆ bounds (action.apply db) :=
  bounds_write hl (write_apply hl.busy_exists hwf)

theorem eq_bound {db : Db} (hl : Lockstep db) {b : PrivateInputBinding × Bool}
    (hb : b ∈ bounds db) {o : OperationRow} (ho : o ∈ db.operations)
    (hid : b.1.operationId = o.id) : b = bound o := by
  obtain ⟨p, hp, rfl⟩ := List.mem_map.mp hb
  rw [Table.eq_of_key hl.ids hp ho hid]

section Custody

variable {Key : Type*} (crypto : Crypto Key) (custody : ℕ → Option (PrivateInputCustody Key))

/-- The custody of process `p` found the inputs to match a commitment of the Operation. -/
def Matched (commitments : List Commitment) (p : ℕ) (binding : PrivateInputBinding)
    (inputs : PrivateInputMap) : Prop :=
  ∃ own c, custody p = some own ∧ c ∈ commitments ∧ c.operationId = binding.operationId ∧
    matchesPrivateInputs crypto own binding c.comparisonKeyId c.comparisonTag inputs = some true

/-- The execution is of an Operation there is and, where that has private inputs, carries
matching ones. -/
def Vouched (bounds : List (PrivateInputBinding × Bool)) (commitments : List Commitment) (p : ℕ)
    (execution : Execution) : Prop :=
  ∃ b ∈ bounds, b.1.operationId = execution.operationId ∧ (b.2 = true → ∃ inputs,
    execution.privateInputs = some inputs ∧ Matched crypto custody commitments p b.1 inputs)

/-- What a worker knows where it stands. -/
def Knows (bounds : List (PrivateInputBinding × Bool)) (commitments : List Commitment) (p : ℕ) :
    Worker → Prop
  | .targeting row _ _ | .unsealing row _ _ _ => bound row ∈ bounds
  | .fencing execution _ | .owning execution false _ | .calling execution false _ =>
    Vouched crypto custody bounds commitments p execution
  | _ => True

/-- What a call of `replenishPrivateInputs` knows where it stands. -/
def Understands (bounds : List (PrivateInputBinding × Bool)) (commitments : List Commitment)
    (p : ℕ) : Replenishment → Prop
  | .authorizing row _ | .comparing row _ => bound row ∈ bounds
  | .replenishing row inputs =>
    bound row ∈ bounds ∧ Matched crypto custody commitments p (privateBinding row) inputs
  | _ => True

variable {inputs : PrivateInputMap} {call : Replenishment} {id : Uuid} {w : ℕ} {authorized : Bool}
  {nonce : List UInt8} {nowMs : Instant} {own : Option (PrivateInputCustody Key)} {system : System}
  {s' : Custody} {e : Event}

section Mono

variable {crypto custody} {bs bs' : List (PrivateInputBinding × Bool)} {cs cs' : List Commitment}
  {p : ℕ}

theorem Matched.mono (hc : cs ⊆ cs') {binding : PrivateInputBinding}
    (h : Matched crypto custody cs p binding inputs) :
    Matched crypto custody cs' p binding inputs := by
  obtain ⟨own, c, hown, hmem, hid, hmatch⟩ := h
  exact ⟨own, c, hown, hc hmem, hid, hmatch⟩

theorem Vouched.mono (hb : bs ⊆ bs') (hc : cs ⊆ cs') {execution : Execution}
    (h : Vouched crypto custody bs cs p execution) : Vouched crypto custody bs' cs' p execution := by
  obtain ⟨b, hmem, hid, hinputs⟩ := h
  refine ⟨b, hb hmem, hid, fun hpresent => ?_⟩
  obtain ⟨inputs, hin, hmatch⟩ := hinputs hpresent
  exact ⟨inputs, hin, hmatch.mono hc⟩

theorem Knows.mono (hb : bs ⊆ bs') (hc : cs ⊆ cs') (h : Knows crypto custody bs cs p worker) :
    Knows crypto custody bs' cs' p worker := by
  cases worker with
  | targeting => exact hb h
  | unsealing => exact hb h
  | fencing => exact Vouched.mono hb hc h
  | owning _ mustReconcile =>
    cases mustReconcile with
    | false => exact Vouched.mono hb hc h
    | true => trivial
  | calling _ mustReconcile =>
    cases mustReconcile with
    | false => exact Vouched.mono hb hc h
    | true => trivial
  | _ => trivial

theorem Understands.mono (hb : bs ⊆ bs') (hc : cs ⊆ cs')
    (h : Understands crypto custody bs cs p call) :
    Understands crypto custody bs' cs' p call := by
  cases call with
  | authorizing => exact hb h
  | comparing => exact hb h
  | replenishing => exact ⟨hb h.1, h.2.mono hc⟩
  | _ => trivial

end Mono

/-! ### What one step learns -/

/-- A transfer is sent only where the custody found it to match. -/
theorem custody_proceed {held : Option PrivateInputRow}
    (h : V2.custody held outside = .proceed inputs) :
    held.isSome = true ∧ outside.material = true ∧ outside.unsealed = some inputs ∧
      outside.matched = some true := by
  unfold V2.custody at h
  split at h
  · cases h
  split at h
  · cases h
  next hmaterial =>
  simp only [Bool.not_eq_true', Bool.not_eq_false] at hmaterial
  dsimp only at h
  split at h
  · split at h <;> cases h
  split at h
  · split at h <;> cases h
  · next hunsealed =>
    split at h
    · cases h
    · next hmatched =>
      cases h
      exact ⟨rfl, hmaterial, hunsealed, hmatched⟩
    · split at h <;> cases h

variable {crypto custody} {options : EngineOptions} {db : Db} {cs : List Commitment}

theorem commitment_of_find {held : PrivateInputRow}
    (h : (db.privateInputs.find? fun held => held.operationId == id) = some held)
    (hcs : db.commitments ⊆ cs) : held.commitment ∈ cs ∧ held.commitment.operationId = id := by
  refine ⟨hcs (List.mem_map_of_mem (List.mem_of_find?_eq_some h)), ?_⟩
  have hp := List.find?_some h
  simpa [PrivateInputRow.commitment] using hp

theorem matched_of_proceed {row : OperationRow} {target : ResourceRow} {claimedFrom : Status}
    (hcs : db.commitments ⊆ cs)
    (h : V2.custody (db.privateInputs.find? fun held => held.operationId == row.id)
      (consult crypto (custody w) db (.unsealing row target token claimedFrom) outside) =
        .proceed inputs) : Matched crypto custody cs w (privateBinding row) inputs := by
  obtain ⟨hsome, hmaterial, hunsealed, hmatched⟩ := custody_proceed h
  obtain ⟨held, hheld⟩ := Option.isSome_iff_exists.mp hsome
  cases hown : custody w with
  | none =>
    simp only [consult, hheld, hown] at hmaterial
    cases hmaterial
  | some own =>
    simp only [consult, hheld, hown] at hunsealed hmatched
    rw [hunsealed, Option.bind_some] at hmatched
    obtain ⟨hmem, hid⟩ := commitment_of_find hheld hcs
    exact ⟨own, held.commitment, hown, hmem, hid, hmatched⟩

/-- **What a worker knows after its step.** -/
theorem knows_stepWorker (hcs : db.commitments ⊆ cs)
    (h : Knows crypto custody (bounds db) cs w worker) :
    Knows crypto custody (bounds db) cs w (stepWorker options w token db
      (consult crypto (custody w) db worker outside) worker).worker := by
  cases worker with
  | claimed =>
    simp only [stepWorker]
    split
    · trivial
    · next hrow => exact List.mem_map_of_mem (Table.find_some hrow).1
  | targeting row =>
    simp only [stepWorker]
    split
    · trivial
    · split
      · trivial
      · split
        · exact h
        · next hpresent =>
          exact ⟨bound row, h, rfl, fun hp => absurd hp hpresent⟩
  | unsealing row =>
    simp only [stepWorker]
    split
    · trivial
    · trivial
    · next inputs hproceed =>
      exact ⟨bound row, h, rfl, fun _ => ⟨inputs, rfl, matched_of_proceed hcs hproceed⟩⟩
  | fencing =>
    simp only [stepWorker, statement]
    split
    · trivial
    · exact h
    · trivial
  | owning _ mustReconcile =>
    simp only [stepWorker]
    split
    · cases mustReconcile with
      | false => exact h
      | true => trivial
    · trivial
  | _ =>
    simp only [stepWorker, statement]
    repeat' split
    all_goals trivial

/-- **What a call of `replenishPrivateInputs` knows after its statement.** -/
theorem understands_serve {p : ℕ} (hcs : db.commitments ⊆ cs)
    (h : Understands crypto custody (bounds db) cs p call) :
    Understands crypto custody (bounds db) cs p
      (serve crypto (custody p) db authorized nonce nowMs call).1 := by
  cases call with
  | reading =>
    simp only [serve]
    split
    · trivial
    · next hrow =>
      split
      · trivial
      · exact List.mem_map_of_mem (Table.find_some hrow).1
  | authorizing =>
    simp only [serve]
    split
    · trivial
    · split
      · exact h
      · trivial
  | comparing =>
    simp only [serve]
    split
    · next held own hheld hown =>
      split
      · trivial
      · trivial
      · next hmatch =>
        obtain ⟨hmem, hid⟩ := commitment_of_find hheld hcs
        split
        · trivial
        · split
          · trivial
          · exact ⟨h, own, held.commitment, hown, hmem, hid, hmatch⟩
    · trivial
  | replenishing =>
    simp only [serve]
    split
    · trivial
    · split <;> trivial
  | rereading id =>
    simp only [serve]
    split <;> trivial
  | answered => trivial

theorem serve_action (h : (serve crypto own db authorized nonce nowMs call).2 = some action) :
    ∃ row inputs sealed, call = .replenishing row inputs ∧
      action = .replenish row.id sealed nowMs := by
  cases call with
  | replenishing row inputs =>
    simp only [serve] at h
    split at h
    · cases h
    · split at h
      · cases h
      · cases h
        exact ⟨row, inputs, _, rfl, rfl⟩
  | _ =>
    exfalso
    revert h
    simp only [serve]
    repeat' split
    all_goals simp

/-! ### The invariant -/

variable (crypto custody options) in
/-- What ties the log to the rows, and both to where the workers and the calls stand. -/
structure Custodial (s : Custody) : Prop where
  reachable : (workers options).Reachable s.system
  /-- The rows keep what was logged. -/
  kept : s.system.db.commitments ⊆ s.commitments
  /-- An Operation is committed to once, at its acceptance. -/
  logged : ∀ c ∈ s.commitments, ∃ o ∈ s.system.db.operations, o.id = c.operationId
  once : (s.commitments.map Commitment.operationId).Nodup
  knows : ∀ w, Knows crypto custody (bounds s.system.db) s.commitments w (s.system.worker w)
  understands : ∀ p call, s.call p = some call →
    Understands crypto custody (bounds s.system.db) s.commitments p call
  sent : ∀ call ∈ s.system.calls, call.reconcile = false →
    Vouched crypto custody (bounds s.system.db) s.commitments call.worker call.execution

theorem custodial_init : Custodial crypto custody options (custodians crypto options custody).init := by
  refine ⟨Machine.PathVia.refl _, ?_, ?_, ?_, fun w => trivial, ?_, ?_⟩ <;>
    simp [custodians, Db.commitments]

variable {s : Custody}

theorem Custodial.lockstep (h : Custodial crypto custody options s) : Lockstep s.system.db :=
  lockstep_of_reachable (dispatched_of_reachable h.reachable).reachable

/-- An acceptance leaves the database alone or accepts its Operation. -/
theorem apply_acceptance (hl : Lockstep db) (hid : acceptedId action = some id)
    (hwf : action.wellFormed db = true) :
    action.apply db = db ∨ ((∀ o ∈ db.operations, o.id ≠ id) ∧
      ∃ o, (action.apply db).operation id = some o) := by
  have hfound : ∀ {db' : Db} {record : AcceptRecord} {references rows'},
      Accepted db db' record references rows' → ∃ o, db'.operation record.id = some o := by
    intro db' record references rows' hacc
    refine ⟨Db.acceptedOperation record, ?_⟩
    rw [Db.operation, hacc.operations]
    exact Db.operation_append (Db.acceptedOperation record) hacc.ids
  cases action with
  | insertCreate | insertChange =>
    cases hid
    rcases accepted_apply hl.busy_exists hwf rfl with heq | ⟨_, _, hacc, -⟩
    · exact Or.inl heq
    · exact Or.inr ⟨hacc.ids, hfound hacc⟩
  | _ => cases hid

theorem frame_apply (hl : Lockstep db) (hwf : action.wellFormed db = true)
    (hnone : action.commitment = none) :
    bounds db ⊆ bounds (action.apply db) ∧ (action.apply db).commitments ⊆ db.commitments := by
  refine ⟨bounds_apply hl hwf, fun c hc => ?_⟩
  rcases commitment_apply hl hwf hc with hc | hc
  · exact hc
  · rw [hnone] at hc
    cases hc

theorem Custodial.move (h : Custodial crypto custody options s) {call : ℕ → Option Replenishment}
    (hreach : (workers options).Reachable system) (hframe : bounds s.system.db ⊆ bounds system.db ∧
      system.db.commitments ⊆ s.system.db.commitments)
    (hknows : ∀ w, Knows crypto custody (bounds s.system.db) s.commitments w (system.worker w))
    (hcall : ∀ p x, call p = some x →
      Understands crypto custody (bounds s.system.db) s.commitments p x)
    (hsent : ∀ x ∈ system.calls, x.reconcile = false →
      Vouched crypto custody (bounds s.system.db) s.commitments x.worker x.execution) :
    Custodial crypto custody options { s with system := system, call := call } := by
  obtain ⟨hb, hkept⟩ := hframe
  refine ⟨hreach, List.Subset.trans hkept h.kept, fun c hc => ?_, h.once,
    fun w => (hknows w).mono hb (List.Subset.refl _),
    fun p x hx => (hcall p x hx).mono hb (List.Subset.refl _),
    fun x hx hr => (hsent x hx hr).mono hb (List.Subset.refl _)⟩
  obtain ⟨o, ho, hid⟩ := h.logged c hc
  obtain ⟨o', ho', hbound⟩ := List.mem_map.mp (hb (List.mem_map_of_mem (f := bound) ho))
  refine ⟨o', ho', ?_⟩
  simp only [bound, privateBinding, Prod.mk.injEq, PrivateInputBinding.mk.injEq] at hbound
  exact hbound.1.1.trans hid

/-! ### Acceptance -/

theorem sealAction_some {inputs : Option PrivateInputMap} {action' : StoreAction}
    (h : sealAction crypto own inputs nonce nowMs action =
      some action') : ∃ id, acceptedId action' = some id := by
  cases action with
  | insertCreate =>
    rw [sealAction, Option.map_eq_some_iff] at h
    obtain ⟨record', -, rfl⟩ := h
    exact ⟨record'.id, rfl⟩
  | insertChange =>
    rw [sealAction, Option.map_eq_some_iff] at h
    obtain ⟨record', -, rfl⟩ := h
    exact ⟨record'.id, rfl⟩
  | _ => cases h

theorem acceptedId_of_commitment {c : Commitment} (h : action.commitment = some c) :
    acceptedId action = some c.operationId := by
  cases action with
  | insertCreate =>
    rw [StoreAction.commitment, AcceptRecord.commitment, Option.map_eq_some_iff] at h
    obtain ⟨_, -, rfl⟩ := h
    rfl
  | insertChange =>
    rw [StoreAction.commitment, AcceptRecord.commitment, Option.map_eq_some_iff] at h
    obtain ⟨_, -, rfl⟩ := h
    rfl
  | _ => cases h

theorem isRequest_of_acceptedId (h : acceptedId action = some id) : action.isRequest = true := by
  cases action <;> first | rfl | cases h

theorem fresh_of_wellFormed (h : acceptedId action = some id) (hwf : action.wellFormed db = true) :
    db.operation id = none := by
  cases action with
  | insertCreate =>
    cases h
    simp only [StoreAction.wellFormed, Bool.and_eq_true, Option.isNone_iff_eq_none] at hwf
    exact hwf.1.1
  | insertChange =>
    cases h
    simp only [StoreAction.wellFormed, Bool.and_eq_true, Option.isNone_iff_eq_none] at hwf
    exact hwf.1.1
  | _ => cases h

theorem mem_committed {c : Commitment} :
    c ∈ committed db action ↔
      action.commitment = some c ∧ ∃ o, db.operation c.operationId = some o := by
  unfold committed
  constructor
  · intro hc
    split at hc
    · next hany =>
      rw [Option.mem_toList] at hc
      refine ⟨hc, ?_⟩
      rw [acceptedId_of_commitment hc] at hany
      exact Option.isSome_iff_exists.mp (by simpa using hany)
    · cases hc
  · rintro ⟨hc, o, ho⟩
    rw [if_pos, Option.mem_toList]
    · exact hc
    · rw [acceptedId_of_commitment hc]
      simp [ho]

/-- **An acceptance logs what it commits to.** -/
theorem Custodial.accept (h : Custodial crypto custody options s)
    (hid : acceptedId action = some id) (hwf : action.wellFormed s.system.db = true) :
    Custodial crypto custody options { s with
      system := { s.system with db := action.apply s.system.db }
      commitments := s.commitments ++ committed (action.apply s.system.db) action } := by
  have hl := h.lockstep
  have hb := bounds_apply hl hwf
  have hc : s.commitments ⊆ s.commitments ++ committed (action.apply s.system.db) action :=
    List.subset_append_left _ _
  have hmem : ∀ c ∈ committed (action.apply s.system.db) action, c.operationId = id := by
    intro c hc
    have hcid := acceptedId_of_commitment (mem_committed.mp hc).1
    exact Option.some.inj (hcid.symm.trans hid)
  refine ⟨?_, ?_, ?_, ?_, fun w => (h.knows w).mono hb hc,
    fun p call hp => (h.understands p call hp).mono hb hc,
    fun call hcall hr => (h.sent call hcall hr).mono hb hc⟩
  · refine h.reachable.next (a := .request action) ?_
    simp [workers, isRequest_of_acceptedId hid, hwf]
  · intro c hc'
    rw [List.mem_append]
    rcases commitment_apply hl hwf hc' with hold | hnew
    · exact Or.inl (h.kept hold)
    · rcases apply_acceptance hl hid hwf with hsame | ⟨-, o, ho⟩
      · rw [hsame] at hc'
        exact Or.inl (h.kept hc')
      · right
        have hcid := Option.some.inj ((acceptedId_of_commitment hnew).symm.trans hid)
        exact mem_committed.mpr ⟨hnew, o, hcid ▸ ho⟩
  · intro c hc'
    rw [List.mem_append] at hc'
    rcases hc' with hold | hnew
    · obtain ⟨o, ho, hoid⟩ := h.logged c hold
      obtain ⟨o', ho', hbound⟩ := List.mem_map.mp (hb (List.mem_map_of_mem (f := bound) ho))
      refine ⟨o', ho', ?_⟩
      simp only [bound, privateBinding, Prod.mk.injEq, PrivateInputBinding.mk.injEq] at hbound
      exact hbound.1.1.trans hoid
    · obtain ⟨-, o, ho⟩ := mem_committed.mp hnew
      exact ⟨o, Table.find_some ho⟩
  · -- the new Operation was not there, so nothing was logged for it
    rw [List.map_append, List.nodup_append]
    refine ⟨h.once, ?_, ?_⟩
    · unfold committed
      split
      · cases action.commitment <;> simp
      · simp
    · intro a ha b hb' heq
      obtain ⟨c, hc', rfl⟩ := List.mem_map.mp ha
      obtain ⟨c', hnew, rfl⟩ := List.mem_map.mp hb'
      obtain ⟨o, ho, hoid⟩ := h.logged c hc'
      have hfresh := fresh_of_wellFormed hid hwf
      refine Table.find_none.mp hfresh o ho ?_
      rw [hoid, heq, hmem c' hnew]

/-! ### The other steps -/

theorem reachable_step (h : (workers options).Reachable system) :
    (workers options).Reachable (system.step options w outside) :=
  h.next (a := .step w outside) rfl

theorem frame_step (hl : Lockstep system.db) :
    bounds system.db ⊆ bounds (system.step options w outside).db ∧
      (system.step options w outside).db.commitments ⊆ system.db.commitments := by
  have hdb := stepWorker_db options w system.supply system.db outside (system.worker w)
  simp only [System.step, hdb]
  cases hbatch : batch options system.supply outside (system.worker w) with
  | none => exact ⟨List.Subset.refl _, List.Subset.refl _⟩
  | some =>
    obtain ⟨hwf, hnone, -⟩ := batch_cases hbatch
    exact frame_apply hl (hwf system.db) hnone

/-- **A worker's step keeps the invariant**; what it sends it was vouched for before. -/
theorem Custodial.work (h : Custodial crypto custody options s) (w : ℕ) (outside : Outside) :
    Custodial crypto custody options { s with
      system := s.system.step options w
        (consult crypto (custody w) s.system.db (s.system.worker w) outside) } := by
  refine h.move (reachable_step h.reachable) (frame_step h.lockstep) (fun x => ?_) h.understands
    fun x hx hr => ?_
  · by_cases hxw : x = w
    · subst hxw
      simp only [System.step, Function.update_self]
      exact knows_stepWorker h.kept (h.knows x)
    · simp only [System.step, Function.update_of_ne hxw]
      exact h.knows x
  · simp only [System.step, List.mem_append, Option.mem_toList] at hx
    rcases hx with hx | hx
    · exact h.sent x hx hr
    · obtain ⟨_, _, _, hw, rfl, -⟩ := stepWorker_call hx
      have hknows := h.knows w
      cases hr
      rw [hw] at hknows
      exact hknows

theorem serve_eq {p : ℕ} {result : Option StoreAction}
    (h : (serve crypto own s.system.db authorized nonce nowMs call).2 = result) :
    s.serve crypto own p authorized nonce nowMs call = { s with
      system := { s.system with
        db := (result.map fun action => action.apply s.system.db).getD s.system.db }
      call := Function.update s.call p
        (some (serve crypto own s.system.db authorized nonce nowMs call).1) } := by
  rw [← h]
  rfl

/-- **A statement of a call keeps the invariant.** -/
theorem Custodial.serve (h : Custodial crypto custody options s) {p : ℕ}
    (hcall : s.call p = some call) :
    Custodial crypto custody options
      (s.serve crypto (custody p) p authorized nonce nowMs call) := by
  have hafter : ∀ x call', Function.update s.call p (some (PrivateInputs.serve crypto (custody p)
      s.system.db authorized nonce nowMs call).1) x = some call' →
      Understands crypto custody (bounds s.system.db) s.commitments x call' := by
    intro x call' hx
    by_cases hxp : x = p
    · subst hxp
      simp only [Function.update_self, Option.some.injEq] at hx
      subst hx
      exact understands_serve h.kept (h.understands x call hcall)
    · simp only [Function.update_of_ne hxp] at hx
      exact h.understands x call' hx
  cases haction : (PrivateInputs.serve crypto (custody p) s.system.db authorized nonce nowMs
      call).2 with
  | none =>
    rw [serve_eq haction]
    exact h.move h.reachable ⟨List.Subset.refl _, List.Subset.refl _⟩ h.knows hafter h.sent
  | some action =>
    obtain ⟨row, _, sealed, -, rfl⟩ := serve_action haction
    rw [serve_eq haction]
    have hframe : bounds s.system.db ⊆
        bounds ((StoreAction.replenish row.id sealed nowMs).apply s.system.db) ∧
        ((StoreAction.replenish row.id sealed nowMs).apply s.system.db).commitments ⊆
          s.system.db.commitments := frame_apply h.lockstep rfl rfl
    refine h.move ?_ hframe h.knows hafter h.sent
    exact h.reachable.next (a := .request (.replenish row.id sealed nowMs)) rfl

/-- **Every step keeps the invariant.** -/
theorem custodial_next (h : Custodial crypto custody options s)
    (hn : (custodians crypto options custody).next s e = some s') :
    Custodial crypto custody options s' := by
  have hsame : bounds s.system.db ⊆ bounds s.system.db ∧
      s.system.db.commitments ⊆ s.system.db.commitments :=
    ⟨List.Subset.refl _, List.Subset.refl _⟩
  cases e with
  | accept =>
    simp only [custodians] at hn
    split at hn
    · cases hn
    · next hseal =>
      split at hn
      · next hwf =>
        obtain ⟨_, hid⟩ := sealAction_some hseal
        cases hn
        exact h.accept hid hwf
      · cases hn
  | work w outside =>
    cases hn
    exact h.work w outside
  | crash w =>
    cases hn
    refine h.move (h.reachable.next (a := .crash w) rfl) hsame (fun x => ?_) h.understands h.sent
    by_cases hx : x = w
    · subst hx
      simp only [Function.update_self]
      trivial
    · simp only [Function.update_of_ne hx]
      exact h.knows x
  | ask p =>
    cases hn
    refine h.move h.reachable hsame h.knows (fun x call hx => ?_) h.sent
    by_cases hxp : x = p
    · subst hxp
      simp only [Function.update_self, Option.some.injEq] at hx
      subst hx
      trivial
    · simp only [Function.update_of_ne hxp] at hx
      exact h.understands x call hx
  | serve =>
    simp only [custodians, Option.map_eq_some_iff] at hn
    obtain ⟨_, hcall, rfl⟩ := hn
    exact h.serve hcall

theorem custodial_of_reachable (h : (custodians crypto options custody).Reachable s) :
    Custodial crypto custody options s :=
  Machine.Reachable.invariant custodial_init (fun _ _ _ _ hs hn => custodial_next hs hn) h

/-! ### Transfers do not outlive their use -/

/-- No worker is about to fail an Operation that still holds its transfer. -/
def erases (s : Custody) : Event → Bool
  | .work w _ =>
    match s.system.worker w with
    | .unverifiable id token => !(s.system.db.unverifiable id token && s.system.db.holdsTransfer id)
    | _ => true
  | _ => true

theorem erased_next (h : Custodial crypto custody options s) (he : Erased s.system.db)
    (hok : erases s e = true) (hn : (custodians crypto options custody).next s e = some s') :
    Erased s'.system.db := by
  have hl := h.lockstep
  have hd := (dispatched_of_reachable h.reachable).status
  cases e with
  | accept =>
    simp only [custodians] at hn
    split at hn
    · cases hn
    · next action' hseal =>
      split at hn
      · next hwf =>
        obtain ⟨_, hid⟩ := sealAction_some hseal
        cases hn
        refine erased_apply hl hd he hwf ?_
        cases action' <;> first | rfl | cases hid
      · cases hn
  | work w outside =>
    cases hn
    simp only [System.step, stepWorker_db]
    cases hbatch : batch options s.system.supply
        (consult crypto (custody w) s.system.db (s.system.worker w) outside)
        (s.system.worker w) with
    | none => exact he
    | some action =>
      obtain ⟨hwf, -, -, hfail⟩ := batch_cases hbatch
      refine erased_apply hl hd he (hwf s.system.db) ?_
      cases action with
      | failUnverifiable id token now retainUntil =>
        have hworker := hfail id token now retainUntil rfl
        simp only [erases, hworker] at hok
        exact hok
      | _ => rfl
  | crash w =>
    cases hn
    exact he
  | ask =>
    cases hn
    exact he
  | serve p authorized nonce nowMs =>
    simp only [custodians, Option.map_eq_some_iff] at hn
    obtain ⟨call, -, rfl⟩ := hn
    cases haction : (serve crypto (custody p) s.system.db authorized nonce nowMs call).2 with
    | none =>
      rw [serve_eq haction]
      exact he
    | some =>
      obtain ⟨row, _, sealed, -, rfl⟩ := serve_action haction
      rw [serve_eq haction]
      have herased : Erased ((StoreAction.replenish row.id sealed nowMs).apply s.system.db) :=
        erased_apply hl hd he rfl rfl
      exact herased

/-- **Only matching inputs end a wait.** -/
theorem replenished_of_leaves (h : Custodial crypto custody options s)
    (hn : (custodians crypto options custody).next s e = some s') {o o' : OperationRow}
    (ho : o ∈ s.system.db.operations) (hwait : o.status = .waitingInput)
    (ho' : o' ∈ s'.system.db.operations) (hid : o'.id = o.id) (hleft : o'.status ≠ .waitingInput) :
    o'.status = .queued ∧ ∃ p authorized nonce nowMs row inputs,
      e = .serve p authorized nonce nowMs ∧ s.call p = some (.replenishing row inputs) ∧
        row.id = o.id ∧ Matched crypto custody s.commitments p (privateBinding o) inputs := by
  have hl := h.lockstep
  have hsame : o' ∈ s.system.db.operations → False := by
    intro hold
    rw [Table.eq_of_key hl.ids hold ho hid] at hleft
    exact hleft hwait
  -- every event but a matching replenishment keeps the row waiting
  cases e with
  | accept _ _ inputs =>
    exfalso
    simp only [custodians] at hn
    split at hn
    · cases hn
    · next hseal =>
      split at hn
      · next hwf =>
        obtain ⟨_, hacc⟩ := sealAction_some hseal
        cases hn
        obtain ⟨-, _, _, rfl⟩ := leaves_waiting hl hwf ho hwait ho' hid hleft
        cases hacc
      · cases hn
  | work w outside =>
    exfalso
    cases hn
    simp only [System.step, stepWorker_db] at ho'
    cases hbatch : batch options s.system.supply
        (consult crypto (custody w) s.system.db (s.system.worker w) outside)
        (s.system.worker w) with
    | none =>
      rw [hbatch] at ho'
      exact hsame ho'
    | some action =>
      rw [hbatch] at ho'
      obtain ⟨hwf, -, hreplenish, -⟩ := batch_cases hbatch
      obtain ⟨-, inputs, now, heq⟩ := leaves_waiting hl (hwf s.system.db) ho hwait ho' hid hleft
      exact hreplenish o.id inputs now heq
  | crash w =>
    cases hn
    exact absurd ho' hsame
  | ask =>
    cases hn
    exact absurd ho' hsame
  | serve p authorized nonce nowMs =>
    simp only [custodians, Option.map_eq_some_iff] at hn
    obtain ⟨call, hcall, rfl⟩ := hn
    cases haction : (serve crypto (custody p) s.system.db authorized nonce nowMs call).2 with
    | none =>
      rw [serve_eq haction] at ho'
      exact absurd ho' hsame
    | some =>
      obtain ⟨row, inputs, sealed, rfl, rfl⟩ := serve_action haction
      rw [serve_eq haction] at ho'
      have hafter : o' ∈
          ((StoreAction.replenish row.id sealed nowMs).apply s.system.db).operations := ho'
      obtain ⟨hqueued, _, _, heq⟩ := leaves_waiting hl rfl ho hwait hafter hid hleft
      simp only [StoreAction.replenish.injEq] at heq
      obtain ⟨hbound, hmatch⟩ := h.understands p _ hcall
      have hrow := eq_bound hl hbound ho heq.1
      simp only [bound, Prod.mk.injEq] at hrow
      exact ⟨hqueued, p, authorized, nonce, nowMs, row, inputs, rfl, hcall, heq.1,
        hrow.1 ▸ hmatch⟩

/-- **The custody of private inputs.**  Along every run in which no worker fails an Operation
that still holds its transfer, no Operation that may have been sent, waits for inputs or has
ended holds one.  An Operation leaves `waiting_input` only for the queue, by a replenishment
whose inputs match what it was committed to at its acceptance, once; and where it was accepted
with private inputs, `execute` is called with inputs that match. -/
theorem private_inputs_custody
    (hs : (custodians crypto options custody).ReachVia (fun s e => erases s e = true) s) :
    (∀ o ∈ s.system.db.operations,
      o.dispatchPossible = true ∨ o.status = .waitingInput ∨ o.status = .succeeded ∨
        o.status = .failed →
      ∀ row ∈ s.system.db.privateInputs, row.operationId = o.id → row.transfer = none) ∧
    (∀ e s', (custodians crypto options custody).next s e = some s' →
      ∀ o ∈ s.system.db.operations, o.status = .waitingInput →
      ∀ o' ∈ s'.system.db.operations, o'.id = o.id → o'.status ≠ .waitingInput →
        o'.status = .queued ∧ ∃ p authorized nonce nowMs row inputs,
          e = .serve p authorized nonce nowMs ∧ s.call p = some (.replenishing row inputs) ∧
            row.id = o.id ∧ Matched crypto custody s.commitments p (privateBinding o) inputs) ∧
    (∀ call ∈ s.system.calls, call.reconcile = false →
      ∀ o ∈ s.system.db.operations, o.id = call.execution.operationId →
      o.privateInputsPresent = true → ∃ inputs, call.execution.privateInputs = some inputs ∧
        Matched crypto custody s.commitments call.worker (privateBinding o) inputs) ∧
    (s.commitments.map Commitment.operationId).Nodup := by
  have h := custodial_of_reachable hs.reachable
  have herased : Erased s.system.db := by
    have hboth := Machine.ReachVia.invariant
      (P := fun s => Custodial crypto custody options s ∧ Erased s.system.db)
      ⟨custodial_init, fun o ho => absurd ho List.not_mem_nil⟩
      (fun s e s' hs hok hn => ⟨custodial_next hs.1 hn, erased_next hs.1 hs.2 hok hn⟩) hs
    exact hboth.2
  refine ⟨fun o ho hspent row hrow hid => ?_, fun e s' hn o ho hwait o' ho' hid hleft =>
    replenished_of_leaves h hn ho hwait ho' hid hleft, fun call hcall hr o ho hid hpresent => ?_,
    h.once⟩
  · have hnone := herased o ho (by
      rcases hspent with hs | hs | hs | hs <;> simp [OperationRow.spent, Status.terminal, hs])
    unfold Db.holdsTransfer at hnone
    rw [List.any_eq_false] at hnone
    simpa [hid] using hnone row hrow
  · obtain ⟨b, hb, hbid, hinputs⟩ := h.sent call hcall hr
    have hbo := eq_bound h.lockstep hb ho (hbid.trans hid.symm)
    subst hbo
    exact hinputs hpresent

end Custody

/-- Algorithms that name their key, on one map. -/
def plainCrypto : Crypto ℕ where
  sign key
    | .comparison binding value => [.ofNat key, .ofNat binding.operationId, .ofNat value.length]
    | .comparisonMaterial tag => [.ofNat key, .ofNat tag.length]
  encrypt key _ _ _ := [.ofNat key, 1]
  decrypt key _ _ ciphertext :=
    if ciphertext = [.ofNat key, 1] then some [("token", "secret")] else none

/-- A custody with the comparison key of an id. -/
def plainCustody (comparisonKeyId : String) (key : ℕ) : PrivateInputCustody ℕ where
  transfer := { current := ("transfer", 7) }
  comparison := { current := (comparisonKeyId, key) }
  transferTtlSeconds := 1

/-- Process 1 was started after the comparison key was replaced. -/
def rotatedCustody (p : ℕ) : Option (PrivateInputCustody ℕ) :=
  some (if p = 1 then plainCustody "new" 9 else plainCustody "old" 8)

/-- A create with private inputs. -/
def acceptToken : Event :=
  .accept 0 (.insertCreate (requestRecord 1 10 "create" .create 1) "form" "space" "name" (some [])
    (.obj []) none none false) (some [("token", "secret")]) [0] 0

/-- Worker `w` takes the Operation as far as its private inputs. -/
def claimSteps (w : ℕ) (nowMs : Instant) : List Event :=
  [.work w { nowMs }, .work w { selected := some ⟨"backend", "target"⟩ }, .work w { nowMs },
    .work w {}, .work w {}]

/-- The transfer expires, the Operation waits, its inputs are sent again and it executes. -/
def replenishedRun : List Event :=
  [acceptToken] ++ claimSteps 0 5000 ++ [.work 0 { nowMs := 5000 }, .work 0 {}, .work 0 {},
    .ask 2 "principal" 1 [("token", "secret")], .serve 2 true [0] 6000, .serve 2 true [0] 6000,
    .serve 2 true [0] 6000, .serve 2 true [0] 6000, .serve 2 true [0] 6000] ++
  claimSteps 0 6500 ++ [.work 0 { nowMs := 6500 }, .work 0 {}, .work 0 {}, .work 0 {}]

theorem private_inputs_custody_replenishedRun :
    ∃ s, (custodians plainCrypto { replayWindowSeconds := 1 } rotatedCustody).ReachVia
        (fun s e => erases s e = true) s ∧
      ∃ call ∈ s.system.calls, call.reconcile = false ∧
        ∃ o ∈ s.system.db.operations, o.id = call.execution.operationId ∧
          o.privateInputsPresent = true ∧ ∃ inputs, call.execution.privateInputs = some inputs ∧
            Matched plainCrypto rotatedCustody s.commitments call.worker (privateBinding o)
              inputs := by
  obtain ⟨s, hs, hp⟩ := Machine.exists_reachVia_of_run
    (M := custodians plainCrypto { replayWindowSeconds := 1 } rotatedCustody) erases replenishedRun
    (fun s => s.system.calls.any fun call => !call.reconcile &&
      s.system.db.operations.any fun o => o.id == call.execution.operationId &&
        o.privateInputsPresent) (by decide +kernel)
  simp only [List.any_eq_true, Bool.and_eq_true, Bool.not_eq_true', beq_iff_eq] at hp
  obtain ⟨call, hcall, hr, o, ho, hid, hpresent⟩ := hp
  obtain ⟨-, -, hsent, -⟩ := private_inputs_custody hs
  exact ⟨s, hs, call, hcall, hr, o, ho, hid, hpresent, hsent call hcall hr o ho hid hpresent⟩

/-- **An Operation failed for want of comparison material keeps its transfer.** -/
theorem unverifiable_holds_transfer :
    ∃ s, (custodians plainCrypto { replayWindowSeconds := 1 } rotatedCustody).Reachable s ∧
      ∃ o ∈ s.system.db.operations, o.status = .failed ∧
        ∃ row ∈ s.system.db.privateInputs, row.operationId = o.id ∧ row.transfer ≠ none := by
  obtain ⟨s, hs, hp⟩ := Machine.exists_reachable_of_run
    (M := custodians plainCrypto { replayWindowSeconds := 1 } rotatedCustody)
    ([acceptToken] ++ claimSteps 1 0 ++ [.work 1 {}, .work 1 {}])
    (fun s => s.system.db.operations.any fun o => o.status == .failed &&
      s.system.db.privateInputs.any fun row => row.operationId == o.id && row.transfer.isSome)
    (by decide +kernel)
  simp only [List.any_eq_true, Bool.and_eq_true, beq_iff_eq] at hp
  obtain ⟨o, ho, hfailed, row, hrow, hid, hsome⟩ := hp
  exact ⟨s, hs, o, ho, hfailed, row, hrow, hid, Option.isSome_iff_ne_none.mp hsome⟩

end Takoserver.V2.PrivateInputs
