import Takoserver.Queue.Effects

/-!
# What a step of the queues can do

Each call commits statements that go by effects, or one statement on a custody row.  A step of
the machine is therefore a path of effects and readings of the clock, and after it at most one
change of a custody row.
-/

namespace Takoserver.Queue

variable {lic : Licence} {t t' : Tables} {n : ℕ} {read : ℕ → Tables}

/-! ### Moves -/

/-- A reading of the clock, an effect, or a change of a receipt. -/
inductive Move (lic : Licence) (clock : Instant → Instant → Prop) (t : Tables) :
    Tables → Prop
  | ticked (now : Instant) (h : clock t.now now) : Move lic clock t (t.setNow now)
  | effect (t' : Tables) (h : Effect lic t t') : Move lic clock t t'
  | marked (t' : Tables) (h : Marking t t') : Move lic clock t t'

/-- Finitely many moves. -/
abbrev Moves (lic : Licence) (clock : Instant → Instant → Prop) : Tables → Tables → Prop :=
  Relation.ReflTransGen (Move lic clock)

variable {clock : Instant → Instant → Prop}

theorem Effect.now_eq (h : Effect lic t t') : t'.now = t.now := by cases h <;> rfl

theorem Effects.now_eq (h : Effects lic t t') : t'.now = t.now := by
  induction h with
  | refl => rfl
  | tail _ hstep ih => exact hstep.now_eq.trans ih

theorem Moves.of_effects (h : Effects lic t t') : Moves lic clock t t' :=
  Relation.ReflTransGen.mono (fun _ _ hstep => Move.effect _ hstep) _ _ h

theorem Moves.of_marking (h : Marking t t') : Moves lic clock t t' :=
  Relation.ReflTransGen.single (Move.marked t' h)

/-! ### Claims -/

variable {active : ConsumerGeneration} {millis : Instant} {input : ClaimInput} {ids : ClaimIds}
  {sts : List (Statement Tables)} {st : Statement Tables} {c : ClaimedMessage} {m : Message}
  {batchId : String} {x : ExecutionIdentity} {clocks : List Instant} {changes : List ℕ}

theorem of_mem_withBodies {limit : ℕ} {window : List Message} {read : Tables}
    {c : Message × List UInt8}
    (h : c ∈ withBodies read (claimCandidates active millis limit window)) :
    c.1 ∈ window ∧ c.1.deliveries < 1 + active.policy.maxRetries := by
  simp only [withBodies, List.mem_filterMap, Option.map_eq_some_iff] at h
  obtain ⟨m, hm, r, -, rfl⟩ := h
  have hmem := List.mem_filter.mp (List.mem_of_mem_take hm)
  exact ⟨hmem.1, (of_decide_eq_true hmem.2).2.2⟩

/-- The statements of a claim for a generation it has read as active. -/
inductive ClaimStatement (input : ClaimInput) (active : ConsumerGeneration) (millis : Instant)
    (ids : ClaimIds) : Statement Tables → Prop
  | reap (row : Message) {st : Statement Tables} (hheld : row.heldBy active.toIdentity = true)
      (hover : row.leaseExpiry ≤ millis) (hst : ReapStatement active.toIdentity millis row st) :
      ClaimStatement input active millis ids st
  | progress (row : Message) {st : Statement Tables} (hqueue : row.queueId = active.queueId)
      (hst : ProgressStatement active millis ids.drawn row st) :
      ClaimStatement input active millis ids st
  | bind (r : ReservationRef) (hr : input.reservation = some r) :
      ClaimStatement input active millis ids (bindLeaseStatement active.toIdentity r ids.lease)
  | lease (row : Message) (hqueue : row.queueId = active.queueId) :
      ClaimStatement input active millis ids (leaseStatement input active millis ids.lease row)

/-- A claim finds its generation in the custody row of its queue. -/
def ClaimInput.reads (input : ClaimInput) (read : Tables) (active : ConsumerGeneration) : Prop :=
  active.toIdentity = input.toIdentity ∧
    ∃ c, read.custodyOf input.queueId = some c ∧ c.toConsumerGeneration = active

/-- What a claim plans: nothing, the maintenance of the generation it has read as active, or
the lease of candidates with an attempt left. -/
theorem ClaimInput.plan_cases (input : ClaimInput) (millis : Instant) (reads : ClaimReads)
    (ids : ClaimIds) (read : ℕ → Tables) :
    input.plan millis reads ids read = .idle ∨
    ∃ active : ConsumerGeneration, input.reads (read reads.custody) active ∧
      ((∃ sts, input.plan millis reads ids read = .maintain sts ∧
        ∀ st ∈ sts, ClaimStatement input active millis ids st) ∨
      ∃ candidates, input.plan millis reads ids read = .lease active candidates ∧
        ∀ c ∈ candidates, c.1.queueId = active.queueId ∧
          c.1.deliveries < 1 + active.policy.maxRetries) := by
  unfold ClaimInput.plan
  split
  · exact Or.inl rfl
  split
  · exact Or.inl rfl
  next c hc =>
  split
  swap
  · exact Or.inl rfl
  next hactive =>
  split
  · refine Or.inr ⟨c.toConsumerGeneration, ⟨hactive.2, c, hc, rfl⟩, Or.inl ⟨_, rfl, fun st hst => ?_⟩⟩
    obtain ⟨row, ⟨hheld, hover⟩, hst⟩ := reapStatement_of_mem hst
    exact ClaimStatement.reap row hheld hover hst
  dsimp only
  split
  · refine Or.inr ⟨c.toConsumerGeneration, ⟨hactive.2, c, hc, rfl⟩, Or.inl ⟨_, rfl, fun st hst => ?_⟩⟩
    obtain ⟨row, hrow, hst⟩ := progressStatement_of_mem hst
    exact ClaimStatement.progress row (queueId_of_mem_unleasedWindow hrow) hst
  split
  · exact Or.inl rfl
  · refine Or.inr ⟨c.toConsumerGeneration, ⟨hactive.2, c, hc, rfl⟩, Or.inr ⟨_, rfl, fun x hx => ?_⟩⟩
    obtain ⟨hwindow, hattempts⟩ := of_mem_withBodies hx
    exact ⟨queueId_of_mem_unleasedWindow hwindow, hattempts⟩

theorem claimStatement_of_mem_lease {candidates : List (Message × List UInt8)}
    (hqueue : ∀ c ∈ candidates, c.1.queueId = active.queueId) :
    ∀ st ∈ leaseStatements input active millis ids.lease candidates,
      ClaimStatement input active millis ids st := by
  intro st hst
  rcases List.mem_append.mp hst with hst | hst
  · cases hr : input.reservation with
    | none =>
      rw [hr] at hst
      cases hst
    | some r =>
      rw [hr] at hst
      rw [List.mem_singleton.mp hst]
      exact ClaimStatement.bind r hr
  · obtain ⟨c, hc, rfl⟩ := List.mem_map.mp hst
    exact ClaimStatement.lease c.1 (hqueue c hc)

theorem claimStatement_of_mem {reads : ClaimReads}
    (h : input.statements millis ids (input.plan millis reads ids read) = some sts) :
    ∃ active : ConsumerGeneration, input.reads (read reads.custody) active ∧
      ∀ st ∈ sts, ClaimStatement input active millis ids st := by
  rcases input.plan_cases millis reads ids read with
    hplan | ⟨active, hactive, ⟨sts', hplan, hsts⟩ | ⟨candidates, hplan, hcandidates⟩⟩ <;>
    rw [hplan] at h
  · cases h
  · obtain rfl : sts' = sts := Option.some.inj h
    exact ⟨active, hactive, hsts⟩
  · cases h
    exact ⟨active, hactive, claimStatement_of_mem_lease fun c hc => (hcandidates c hc).1⟩

theorem ClaimStatement.effects (hst : ClaimStatement input active millis ids st)
    (htakes : ∀ m : Message, m.leasedIn ids.drawn → lic.takes m)
    (hleases : ∀ m l, l.isOf active m → lic.leases m l) : Statement.Within (Effect lic) st := by
  cases hst with
  | reap row _ _ hst => exact hst.effects
  | progress row hqueue hst => exact hst.effects hqueue htakes hleases
  | bind r _ =>
    intro t t' n h
    simp only [bindLeaseStatement] at h
    split at h
    · cases h
    next hguard =>
    cases h
    refine Effects.of (Effect.bound r.batchId ids.lease _ ?_ ?_)
    · intro e _ hp
      simp only [Bool.and_eq_true, decide_eq_true_eq, Execution.isOf] at hp
      exact ⟨hp.1.1, hp.2.1, hp.2.2⟩
    intro e he hp x hx htoken hsame
    -- the unique index: no execution of this generation has bound the token
    refine hguard ?_
    simp only [Bool.and_eq_true, List.any_eq_true]
    refine ⟨⟨e, he, by simpa using hp⟩, x, hx, ?_⟩
    have hid : e.toIdentity = active.toIdentity := by
      simp only [Bool.and_eq_true, decide_eq_true_eq, Execution.isOf] at hp
      exact hp.1.2.2
    simp [hsame, hid, htoken]
  | lease row hqueue =>
    intro t t' n h
    refine effects_of_updateMessages (fun m _ hp => ?_) h
    simp only [Bool.and_eq_true, decide_eq_true_eq, Option.isNone_iff_eq_none,
      Message.unchanged] at hp
    have hm : m.queueId = active.queueId := hp.1.1.1.1.1.1.trans hqueue
    exact Turn.leased _ (m.deliveries + 1) hp.1.1.1.1.2 (Nat.le_succ _)
      (by rw [hm]; exact hp.1.1.2) (hleases m _ ⟨by rw [hm], rfl⟩)

/-! ### Release, settlement and the sweep -/

theorem ClaimedMessage.of_isLeaseOf (h : c.isLeaseOf m = true) :
    m.messageId = c.messageId ∧ m.leasedUnder c.leaseToken c.toIdentity = true := by
  simpa [ClaimedMessage.isLeaseOf] using h

theorem ClaimedMessage.isLeaseOf_of_isClaimOf (h : c.isClaimOf m = true) :
    c.isLeaseOf m = true := by
  simp only [ClaimedMessage.isClaimOf, Bool.and_eq_true] at h
  exact h.1.1

theorem ClaimedMessage.isLeaseOf_of_guards (h : c.terminal.guards t m = true) :
    c.isLeaseOf m = true := by
  simp only [TerminalLease.guards, ClaimedMessage.terminal, Bool.and_eq_true] at h
  simp only [ClaimedMessage.isLeaseOf, Bool.and_eq_true]
  exact h.1.1.1.1

/-- The statement that a settlement of a batch makes on the message is the one of a plain
settlement. -/
theorem settleStatement_eq (c : ClaimedMessage) (d : Decision) (millis : Instant)
    (deadLetterId : String) :
    settleStatement c d millis deadLetterId = effectStatement c d millis deadLetterId := by
  unfold settleStatement effectStatement
  cases d.outcome with
  | ack => rfl
  | retry =>
    by_cases h : c.attempts < 1 + c.policy.maxRetries
    · rw [if_pos h, if_neg (by omega)]
    · rw [if_neg h, if_pos (by omega)]

theorem effects_of_effect {d : Decision} {deadLetterId : String}
    (htakes : ∀ m ∈ t.messages, c.isLeaseOf m = true → t.takes lic m)
    (h : effectStatement c d millis deadLetterId t = some (t', n)) : Effects lic t t' := by
  cases hout : d.outcome with
  | ack =>
    simp only [effectStatement, hout] at h
    refine effects_of_deleteMessages ?_ h
    intro m hm hp
    exact ⟨(ClaimedMessage.of_isLeaseOf hp).2, htakes m hm hp⟩
  | retry =>
    by_cases hattempts : 1 + c.policy.maxRetries ≤ c.attempts
    · simp only [effectStatement, hout, if_pos hattempts] at h
      refine effects_of_terminalLease hattempts ?_ h
      exact fun m hm hp => htakes m hm (ClaimedMessage.isLeaseOf_of_guards hp)
    · simp only [effectStatement, hout, if_neg hattempts] at h
      refine effects_of_updateMessages (fun m hm hp => Turn.unleased _ (htakes m hm ?_)) h
      exact ClaimedMessage.isLeaseOf_of_isClaimOf hp

theorem moves_of_beginSettlement {messageId : String} {s : Settlement}
    (h : beginSettlementStatement batchId messageId s t = some (t', n)) : Moves lic clock t t' := by
  unfold beginSettlementStatement at h
  split at h
  · simp only [Option.some.injEq, Prod.mk.injEq] at h
    rw [h.1]
  next r hr =>
  split at h
  · next hcond =>
    cases h
    exact Moves.of_marking (Marking.settling r s (Table.find_some hr).1 hcond.1 hcond.2.1 hcond.2.2)
  · cases h

theorem moves_of_endSettlement {messageId : String}
    (h : endSettlementStatement batchId messageId t = some (t', n)) : Moves lic clock t t' := by
  unfold endSettlementStatement at h
  split at h
  · simp only [Option.some.injEq, Prod.mk.injEq] at h
    rw [h.1]
  next r hr =>
  split at h
  · next s hs =>
    split at h
    · next heffected =>
      cases h
      exact Moves.of_marking (Marking.settled r s (Table.find_some hr).1 hs heffected)
    · cases h
  · cases h

theorem settles_of_sameClaim {r : Receipt} {s : Settlement} (hr : r ∈ t.receipts)
    (hstate : r.state = .settling s) (hsame : r.sameClaim c = true) (h : c.isLeaseOf m = true) :
    t.settles m := by
  obtain ⟨hid, hlease⟩ := ClaimedMessage.of_isLeaseOf h
  simp only [Receipt.sameClaim, decide_eq_true_eq] at hsame
  refine ⟨r, hr, ⟨s, hstate⟩, hsame.2.2.1.trans hid.symm, ?_⟩
  rw [hsame.1, hsame.2.1]
  exact hlease

/-- A settlement of a batch goes by moves where its caller may take the message, or where
the receipt it finds is the one of the message. -/
theorem moves_of_settleBatch {d : Decision} {token : String} {deadLetterId : String}
    (hown : (∀ m, c.isLeaseOf m = true → lic.takes m) ∨
      ∃ r, Table.find Receipt.key t.receipts (batchId, c.messageId) = some r ∧
        r.sameClaim c = true)
    (h : settleBatch batchId c d token millis deadLetterId t = some (t', n)) :
    Moves lic clock t t' := by
  obtain ⟨u, _, hbegin, hrest⟩ := Statement.andThen_eq_some.mp h
  obtain ⟨v, _, heffect, hend⟩ := Statement.andThen_eq_some.mp hrest
  refine (moves_of_beginSettlement hbegin).trans ?_
  refine Relation.ReflTransGen.trans (Moves.of_effects ?_) (moves_of_endSettlement hend)
  refine effects_of_effect (fun m _ hm => ?_) heffect
  rcases hown with hown | ⟨r, hr, hsame⟩
  · exact Or.inl (hown m hm)
  refine Or.inr (Or.inr ?_)
  unfold beginSettlementStatement at hbegin
  rw [hr] at hbegin
  dsimp only at hbegin
  split at hbegin
  · cases hbegin
    let r' : Receipt := { r with state := .settling (settlementOf c d token millis deadLetterId) }
    have hput : r' ∈ Table.put Receipt.key r' t.receipts :=
      Table.mem_put_self (Table.find_some hr).1 rfl
    exact settles_of_sameClaim (r := r') hput rfl hsame hm
  · cases hbegin

theorem effects_of_sweep {row : Message} :
    Statement.Within (Effect lic) (sweepStatement millis row) := by
  intro t t' n h
  refine effects_of_deleteMessages ?_ h
  intro m _ hp
  simp only [Bool.and_eq_true, decide_eq_true_eq] at hp
  exact ⟨by simpa [Reason.justifies] using hp.1.2.2.2.2.2.2.2.2, takes_of_unsent hp.2⟩

/-! ### Batches and executions -/

theorem effects_of_register {messages : List ClaimedMessage} {reservationToken : Option String}
    (h : registerStatements batchId messages reservationToken = some sts) :
    ∀ st ∈ sts, Statement.Within (Effect lic) st := by
  unfold registerStatements at h
  cases messages with
  | nil => cases h
  | cons first rest =>
    dsimp only at h
    split at h
    swap
    · cases h
    cases h
    intro st hst
    rcases List.mem_append.mp hst with hst | hst
    · obtain ⟨m, -, rfl⟩ := List.mem_map.mp hst
      intro t t' n h
      unfold registerStatement at h
      split at h
      · next hguard =>
        cases h
        exact Effects.of (Effect.registered _ (Bool.and_eq_true_iff.mp hguard).1
          (Bool.and_eq_true_iff.mp hguard).2)
      · cases h
    · cases reservationToken with
      | none => cases hst
      | some =>
        rw [List.mem_singleton] at hst
        subst hst
        intro t t' n h
        simp only [registerExecutionStatement] at h
        split at h
        · cases h
        next hguard =>
        cases h
        refine Effects.of (Effect.executed _ _ fun e he hp => ?_)
        have hreg : e.state = .reserved ∧ t.now < e.reservationUntil ∧ e.leaseToken.isSome ∧
            (first :: rest).length = t.receipts.countP fun x => decide (x.batchId = e.batchId ∧
              x.toIdentity = e.toIdentity ∧ e.leaseToken = some x.leaseToken) := by
          by_contra hno
          refine hguard (List.any_eq_true.mpr ⟨e, he, ?_⟩)
          rw [hp, decide_eq_false hno]
          rfl
        exact Execution.Turn.registered _ hreg.1 hreg.2.1 (by simp) hreg.2.2.2

theorem effects_of_refuse {p : Tables → Execution → Bool} :
    Statement.Within (Effect lic) (refuseStatement p) := by
  intro t t' n h
  simp only [refuseStatement, Option.some.injEq, Prod.mk.injEq] at h
  rw [← h.1]
  refine Effects.of (Effect.executed _ _ fun e _ hp => Execution.Turn.refused ?_)
  exact of_decide_eq_true (Bool.and_eq_true_iff.mp hp).2

theorem Execution.doomed_of_refused {e : Execution} {now : Instant}
    (h : e.state = .preEffectRefused) : e.doomed now = true := by
  simp [Execution.doomed, h]

theorem effects_of_cancel {r : ReservationRef} :
    ∀ st ∈ cancelStatements r, Statement.Within (Effect lic) st := by
  intro st hst
  simp only [cancelStatements, List.mem_cons, List.not_mem_nil, or_false] at hst
  rcases hst with rfl | rfl
  · exact effects_of_refuse
  · intro t t' n h
    refine effects_of_refundMessages (fun m hm hp => Or.inr ?_) h
    simp only [List.any_eq_true, Bool.and_eq_true, decide_eq_true_eq] at hp
    obtain ⟨e, he, hbinds, -, -, hstate⟩ := hp
    exact ⟨m, hm, rfl, e, he, hbinds, Execution.doomed_of_refused hstate⟩

theorem effects_of_refundUnsent {consumerUid : String} {owned : Bool} :
    Statement.Within (Effect lic) (refundUnsentStatement consumerUid owned) := by
  intro t t' n h
  refine effects_of_refundMessages (fun m hm hp => Or.inr ?_) h
  have hmem := of_decide_eq_true (Bool.and_eq_true_iff.mp hp).1
  obtain ⟨x, hx, hkey⟩ := List.mem_map.mp hmem
  have hx := List.mem_filter.mp (List.mem_of_mem_take hx)
  simp only [List.any_eq_true, Bool.and_eq_true, decide_eq_true_eq] at hx
  obtain ⟨hx, e, he, hbinds, -, hstate⟩ := hx
  exact ⟨x, hx, hkey, e, he, hbinds, Execution.doomed_of_refused hstate⟩

theorem effects_of_reserve {r : Reservation} {servable : Bool}
    (hreserves : servable = true → lic.reserves r) :
    Statement.Within (Effect lic) (reserveStatement r servable) := by
  intro t t' n h
  unfold reserveStatement at h
  split at h
  · cases h
  next hguard =>
  cases h
  refine Effects.of (Effect.reserved _ ?_ rfl rfl ?_ ?_)
  · intro x hx heq
    refine hguard ?_
    have hany : (t.executions.any fun e => decide (e.batchId = r.batchId)) = true :=
      List.any_eq_true.mpr ⟨x, hx, decide_eq_true heq⟩
    simp [hany]
  · by_contra hno
    exact hguard (by simp [hno])
  · by_contra hno
    exact hguard (by simp [Bool.eq_false_of_not_eq_true (mt hreserves hno)])

theorem effects_of_authorize {servable : Bool} :
    Statement.Within (Effect lic) (authorizeStatement x servable) := by
  intro t t' n h
  simp only [authorizeStatement] at h
  split at h
  · cases h
  next hguard =>
  cases h
  refine Effects.of (Effect.executed _ _ fun e he hp => ?_)
  have hstate := of_decide_eq_true (Bool.and_eq_true_iff.mp hp).2
  refine Execution.Turn.authorized x.selected hstate ?_
  by_contra hno
  refine hguard (List.any_eq_true.mpr ⟨e, he, ?_⟩)
  have huntil : e.reservationUntil ≤ t.now := Nat.le_of_not_lt hno
  simp [(Bool.and_eq_true_iff.mp hp).1, hstate, huntil]

theorem effects_of_retire {digest : String} {drained : Bool} :
    Statement.Within (Effect lic) (retireStatement x digest drained) := by
  intro t t' n h
  simp only [retireStatement] at h
  split at h
  · cases h
  cases h
  refine Effects.of (Effect.executed _ _ fun e _ hp => Execution.Turn.retired digest ?_)
  simp only [Bool.and_eq_true, decide_eq_true_eq] at hp
  exact hp.1.2.1

theorem effects_of_renew :
    Statement.Within (Effect lic) (renewStatement x) := by
  intro t t' n h
  refine effects_of_updateMessages (fun m _ hp => ?_) h
  cases hlease : m.lease with
  | none => simp [hlease] at hp
  | some l => exact Turn.renewed l _ hlease

theorem effects_of_deleteNotice {notice : Notice} :
    Statement.Within (Effect lic) (deleteNotice notice) := by
  intro t t' n h
  simp only [deleteNotice, Option.some.injEq, Prod.mk.injEq] at h
  rw [← h.1]
  exact Effects.of (Effect.unnoticed notice)

/-! ### Custody -/

/-- What the statement does is at most one change of a custody row. -/
def Succeeds (st : Statement Tables) : Prop :=
  ∀ t t' n, st t = some (t', n) → Relation.ReflGen Succession t t'

/-- A change of a custody row leaves all other rows and the clock. -/
theorem fields_of_succession (h : Relation.ReflGen Succession t t') :
    t'.messages = t.messages ∧ t'.notices = t.notices ∧ t'.receipts = t.receipts ∧
      t'.executions = t.executions ∧ t'.refunds = t.refunds ∧ t'.now = t.now := by
  rcases h with _ | hstep
  · exact ⟨rfl, rfl, rfl, rfl, rfl, rfl⟩
  · cases hstep <;> exact ⟨rfl, rfl, rfl, rfl, rfl, rfl⟩

theorem succeeds_updateCustody {p : Tables → Custody → Bool} {f : Custody → Custody}
    (hturn : ∀ t c, p t c = true → c.Turn t (f c)) : Succeeds (updateCustody p f) := by
  intro t t' n h
  simp only [updateCustody, Option.some.injEq, Prod.mk.injEq] at h
  rw [← h.1]
  exact Relation.ReflGen.single (Succession.turned (p t) f fun c _ hp => hturn t c hp)

theorem succeeds_insertCustody {p : Tables → Bool} {value : ConsumerGeneration}
    (hp : ∀ t : Tables, p t = true → t.noneLeased value.queueId = true)
    (hgeneration : value.generation = 1) :
    Succeeds (insertCustody p
      { toConsumerGeneration := value, state := .active, retirementStartedAt := none }) := by
  intro t t' n h
  unfold insertCustody at h
  split at h
  · next hguard =>
    split at h
    · cases h
    · next hnone =>
      cases h
      exact Relation.ReflGen.single
        (Succession.begun value (Option.not_isSome_iff_eq_none.mp hnone) (hp t hguard) hgeneration)
  · simp only [Option.some.injEq, Prod.mk.injEq] at h
    rw [h.1]

theorem custodyTurn_of_replacement {c : Custody} {identity : Identity}
    {replacement : Option ConsumerGeneration} (hid : c.toIdentity = identity)
    (hstate : c.state = .retiring) (hdrained : t.drained identity = true) :
    (∀ value ∈ replacement, value.queueId = identity.queueId ∧
      value.generation = identity.generation + 1) →
    c.Turn t (match replacement with
      | some value => c.replaced value
      | none => { c with state := .tombstone, retirementStartedAt := none }) := by
  intro hnext
  subst hid
  cases replacement with
  | none => exact Custody.Turn.tombstone hstate hdrained
  | some value =>
    obtain ⟨hqueue, hgeneration⟩ := hnext value rfl
    exact Custody.Turn.replaced value (Or.inr ⟨hstate, hdrained⟩) hqueue hgeneration

theorem succeeds_of_activate {value : ConsumerGeneration} {read : Tables}
    (h : activateStatements value read = some sts) :
    ∃ st, sts = [st] ∧ Succeeds st := by
  unfold activateStatements at h
  split at h
  swap
  · cases h
  split at h
  · split at h
    · next =>
      split at h
      · next hcond =>
        simp only [Option.some.injEq] at h
        refine ⟨_, h.symm, succeeds_updateCustody fun t c hp => ?_⟩
        obtain ⟨hqueue, -, hgeneration, hstate⟩ := of_decide_eq_true hp
        refine Custody.Turn.replaced value (Or.inl hstate) hqueue.symm ?_
        rw [hgeneration]
        exact hcond.2.symm
      · cases h
    · cases h
  · next hone =>
    simp only [Option.some.injEq] at h
    refine ⟨_, h.symm, succeeds_insertCustody (fun t hp => ?_) (by simpa using hone)⟩
    exact (Bool.and_eq_true_iff.mp hp).2

theorem succeeds_of_attach {queueId consumerUid : String} {policy : RetryPolicy} {owned : Bool}
    {row : Option Custody} : Succeeds (attachStatement queueId consumerUid policy owned row) := by
  cases row with
  | none =>
    let value : ConsumerGeneration := ⟨⟨queueId, consumerUid, 1⟩, policy⟩
    have hlease : ∀ t : Tables, (owned && (t.custodyOf queueId).isNone && t.noneLeased queueId) = true →
        t.noneLeased value.queueId = true := fun t hp => (Bool.and_eq_true_iff.mp hp).2
    exact succeeds_insertCustody hlease rfl
  | some =>
    refine succeeds_updateCustody fun t c hp => ?_
    simp only [Bool.and_eq_true, decide_eq_true_eq] at hp
    obtain ⟨⟨⟨⟨hqueue, -, hgeneration, hstate⟩, -⟩, -⟩, -⟩ := hp
    refine Custody.Turn.replaced _ (Or.inl hstate) hqueue.symm ?_
    rw [hgeneration]

/-! ### Calls -/

/-- The messages a call may take or refund whatever execution has bound them: those of the lease
that is presented, and those that a claim has just leased itself.  A claim leases under the
generation it has read, and a reservation is the one asked for. -/
def Call.licence (read : ℕ → Tables) : Call → Licence
  | .claim input _ reads ids =>
    { takes m := m.leasedIn ids.drawn
      refunds _ := False
      leases m l := ∃ active, input.reads (read reads.custody) active ∧ l.isOf active m
      reserves _ := False }
  | .release c _ => { Licence.none with refunds m := c.isLeaseOf m = true }
  | .settle c _ _ _ => { Licence.none with takes m := c.isLeaseOf m = true }
  | .reserve r servable => { Licence.none with reserves r' := r' = r ∧ servable = true }
  | _ => Licence.none

/-- A call that reaps under a retiring generation goes by effects. -/
theorem effects_of_reapRetired {identity : Identity} {limit : ℕ} {ids : List String}
    {custodyRead rowsRead : Tables}
    (h : reapRetiredStatements identity millis limit ids custodyRead rowsRead = some sts) :
    ∀ st ∈ sts, Statement.Within (Effect lic) st := by
  unfold reapRetiredStatements at h
  split at h
  · cases h
    intro st hst
    obtain ⟨_, -, hst⟩ := reapStatement_of_mem hst
    exact hst.effects
  · cases h

/-- The calls that write custody rows. -/
def Call.turnsCustody : Call → Bool
  | .activateConsumer .. | .beginRetirement .. | .finishRetirement .. | .attach .. |
    .beginRetiring .. | .replace .. => true
  | _ => false

/-- Either each statement of a call goes by effects, or the call has one statement and that
makes at most one change of a custody row. -/
theorem Call.effects {c : Call} (hlic : c.licence read ≤ lic) (h : c.statements read = some sts) :
    (∀ st ∈ sts, Statement.Within (Effect lic) st) ∨
      c.turnsCustody = true ∧ ∃ st, sts = [st] ∧ Succeeds st := by
  have single : ∀ {st}, some [st] = some sts → Statement.Within (Effect lic) st →
      ∀ st' ∈ sts, Statement.Within (Effect lic) st' := by
    intro st hsts hst st' hmem
    rw [Option.some.injEq] at hsts
    rw [← hsts, List.mem_singleton] at hmem
    rw [hmem]
    exact hst
  -- only an activation turns a custody row
  cases c with
  | admitBatch =>
    left
    simp only [Call.statements, admissionStatements] at h
    split at h
    · cases h
      intro st hst
      obtain ⟨a, -, rfl⟩ := List.mem_map.mp hst
      exact effects_of_admission
    · cases h
  | activateConsumer => exact Or.inr ⟨rfl, succeeds_of_activate h⟩
  | claim =>
    obtain ⟨active, hactive, hsts⟩ := claimStatement_of_mem h
    exact Or.inl fun st hst => (hsts st hst).effects hlic.1 fun m l hl =>
      hlic.2.2.1 m l ⟨active, hactive, hl⟩
  | release c =>
    left
    simp only [Call.statements] at h
    split at h
    · refine single h fun t t' n hrun => ?_
      exact effects_of_refundMessages
        (fun m _ (hp : c.isLeaseOf m = true) => Or.inl (hlic.2.1 m hp)) hrun
    · cases h
  | settle =>
    left
    simp only [Call.statements] at h
    split at h
    · refine single h fun t t' n hrun => ?_
      rw [settleStatement_eq] at hrun
      exact effects_of_effect (fun m _ hm => Or.inl (hlic.1 m hm)) hrun
    · cases h
  | registerSettlementBatch =>
    exact Or.inl (effects_of_register h)
  | renewRegisteredV2BatchLeases x => exact Or.inl (single h effects_of_renew)
  | acknowledgeTransferNotice => exact Or.inl (single h effects_of_deleteNotice)
  | sweepExpired =>
    left
    simp only [Call.statements] at h
    split at h
    · cases h
      intro st hst
      obtain ⟨_, -, rfl⟩ := List.mem_map.mp hst
      exact effects_of_sweep
    · cases h
  | beginRetirement _ millis =>
    simp only [Call.statements, Option.some.injEq] at h
    refine Or.inr ⟨rfl, _, h.symm, succeeds_updateCustody fun t c hp => ?_⟩
    exact Custody.Turn.retiring millis (of_decide_eq_true hp).2
  | reapRetired =>
    left
    simp only [Call.statements] at h
    split at h
    · exact effects_of_reapRetired h
    · cases h
  | finishRetirement =>
    right
    simp only [Call.statements] at h
    split at h
    · next hvalid =>
      simp only [Option.some.injEq] at h
      refine ⟨rfl, _, h.symm, succeeds_updateCustody fun t c hp => ?_⟩
      simp only [Bool.and_eq_true, decide_eq_true_eq] at hp
      refine custodyTurn_of_replacement hp.1.1 hp.1.2 hp.2 fun value hvalue => ?_
      rw [Option.mem_def] at hvalue
      subst hvalue
      simp only [replacementValid, Option.all_some, Bool.and_eq_true, decide_eq_true_eq] at hvalid
      exact hvalid.2
    · cases h
  | refuseExpired => exact Or.inl (single h effects_of_refuse)
  | reserve =>
    exact Or.inl (single h (effects_of_reserve fun hs => hlic.2.2.2 _ ⟨rfl, hs⟩))
  | cancelV2QueueBatchBeforeSend r =>
    left
    simp only [Call.statements, Option.some.injEq] at h
    rw [← h]
    exact effects_of_cancel
  | authorizeV2QueueBatchSend => exact Or.inl (single h effects_of_authorize)
  | confirmV2QueueBatchRetirement => exact Or.inl (single h effects_of_retire)
  | refuseUnsent => exact Or.inl (single h effects_of_refuse)
  | refundUnsent => exact Or.inl (single h effects_of_refundUnsent)
  | attach =>
    right
    simp only [Call.statements] at h
    split at h
    · split at h
      · exact ⟨rfl, _, (Option.some.inj h).symm, succeeds_of_attach⟩
      · cases h
    · split at h
      · exact ⟨rfl, _, (Option.some.inj h).symm, succeeds_of_attach⟩
      · cases h
  | beginRetiring _ millis =>
    simp only [Call.statements, Option.some.injEq] at h
    refine Or.inr ⟨rfl, _, h.symm, succeeds_updateCustody fun t c hp => ?_⟩
    exact Custody.Turn.retiring millis (of_decide_eq_true (Bool.and_eq_true_iff.mp hp).1).2
  | replace identity policy =>
    right
    simp only [Call.statements] at h
    split at h
    · refine ⟨rfl, _, (Option.some.inj h).symm, succeeds_updateCustody fun t c hp => ?_⟩
      simp only [Bool.and_eq_true, decide_eq_true_eq] at hp
      obtain ⟨⟨⟨⟨hid, hstate⟩, hdrained⟩, -⟩, -⟩ := hp
      let value : RetryPolicy → ConsumerGeneration :=
        fun p => ⟨⟨identity.queueId, identity.consumerId, identity.generation + 1⟩, p⟩
      have hturn := custodyTurn_of_replacement hid hstate hdrained
        (show ∀ v ∈ policy.map value, v.queueId = identity.queueId ∧
          v.generation = identity.generation + 1 by cases policy <;> simp [value])
      cases policy <;> exact hturn
    · cases h

/-! ### Steps of the machine -/

/-- The tables when the first statement of a batch runs. -/
def Tables.ticked (t : Tables) : List Instant → Tables
  | [] => t
  | now :: _ => t.setNow now

@[simp] theorem Tables.commit_nil :
    t.commit clocks [] = some (t, []) := by
  cases clocks <;> rfl

theorem Tables.commit_cons (h : t.commit clocks (st :: sts) = some (t', changes)) :
    ∃ u m ms, st (t.ticked clocks) = some (u, m) ∧ u.commit clocks.tail sts = some (t', ms) ∧
      changes = m :: ms := by
  cases clocks with
  | nil =>
    obtain ⟨u, m, ms, hst, hrun, rfl⟩ := Statement.batch_cons_eq_some.mp h
    refine ⟨u, m, ms, hst, ?_, rfl⟩
    cases sts <;> exact hrun
  | cons => exact Statement.batch_cons_eq_some.mp h

theorem Tables.commit_singleton (h : t.commit clocks [st] = some (t', changes)) :
    ∃ m, st (t.ticked clocks) = some (t', m) ∧ changes = [m] := by
  obtain ⟨u, m, _, hst, hrun, rfl⟩ := Tables.commit_cons h
  rw [Tables.commit_nil, Option.some.injEq, Prod.mk.injEq] at hrun
  obtain ⟨rfl, rfl⟩ := hrun
  exact ⟨m, hst, rfl⟩

section

variable (hclock : List.IsChain clock (t.now :: clocks))

include hclock

/-- The first reading of the clock is a move or none. -/
theorem moves_ticked :
    Moves lic clock t (t.ticked clocks) ∧
      List.IsChain clock ((t.ticked clocks).now :: clocks.tail) := by
  cases clocks with
  | nil => exact ⟨Relation.ReflTransGen.refl, hclock⟩
  | cons now =>
    rw [List.isChain_cons_cons] at hclock
    exact ⟨Relation.ReflTransGen.single (Move.ticked now hclock.1), hclock.2⟩

/-- A batch whose statements go by effects goes by moves, its readings of the clock among
them. -/
theorem moves_of_commit (hsts : ∀ st ∈ sts, Statement.Within (Effect lic) st)
    (h : t.commit clocks sts = some (t', changes)) : Moves lic clock t t' := by
  induction sts generalizing t clocks changes with
  | nil =>
    rw [Tables.commit_nil, Option.some.injEq, Prod.mk.injEq] at h
    rw [h.1]
  | cons st sts ih =>
    obtain ⟨u, m, _, hst, hrun, -⟩ := Tables.commit_cons h
    obtain ⟨hticked, hrest⟩ := @moves_ticked lic _ _ _ hclock
    have heffects := hsts st List.mem_cons_self _ u m hst
    rw [← Effects.now_eq heffects] at hrest
    refine hticked.trans ((Moves.of_effects heffects).trans ?_)
    exact ih hrest (fun st' hmem => hsts st' (List.mem_cons_of_mem _ hmem)) hrun

/-- A batch of one statement on custody rows reads the clock and makes at most one change. -/
theorem succession_of_commit (hst : Succeeds st) (h : t.commit clocks [st] = some (t', changes)) :
    ∃ u, Moves lic clock t u ∧ Relation.ReflGen Succession u t' := by
  obtain ⟨n, hrun, -⟩ := Tables.commit_singleton h
  exact ⟨t.ticked clocks, (moves_ticked hclock).1, hst _ t' n hrun⟩

end

theorem Moves.invariant {P : Tables → Prop}
    (hmove : ∀ t t', P t → Move lic clock t t' → P t') (h : Moves lic clock t t') (ht : P t) :
    P t' := by
  induction h with
  | refl => exact ht
  | tail _ hstep ih => exact hmove _ _ ih hstep

/-- A shift: moves, and then at most one change of a custody row. -/
def Shift (lic : Licence) (clock : Instant → Instant → Prop) (t t' : Tables) : Prop :=
  ∃ u, Moves lic clock t u ∧ Relation.ReflGen Succession u t'

/-- The messages an action may take or refund whatever execution has bound them. -/
def Action.licence (s : Host) : Action → Licence
  | .call c _ _ => c.licence s.read
  | _ => Licence.none

/-- Where a settlement of a batch message writes, its caller may take the message, or the
receipt it will find is the message's. -/
def Host.settlesOwn (s : Host) (lic : Licence) : Prop :=
  ∀ (c : SettleCall) (i j : ℕ) (r : SettleRequest), c.plan (s.read i) (s.read j) = .write r →
    (∀ m, r.message.isLeaseOf m = true → lic.takes m) ∨
      ∃ x, Table.find Receipt.key s.tables.receipts (r.batchId, r.message.messageId) = some x ∧
        x.sameClaim r.message = true

variable {s s' : Host} {a : Action}

def Action.turnsCustody : Action → Bool
  | .call c _ _ => c.turnsCustody
  | _ => false

section

variable (hlic : a.licence s ≤ lic) (hclock : List.IsChain clock (s.tables.now :: a.clocks))
  (hown : s.settlesOwn lic) (h : queues.next s a = some s')

include hlic hclock hown h

/-- **What a step of the machine can do to the tables**: it goes by moves, or makes a shift, and
the tables it leaves are recorded. -/
theorem next_cases :
    (Moves lic clock s.tables s'.tables ∨
      a.turnsCustody = true ∧ Shift lic clock s.tables s'.tables) ∧
      (s'.past = s.past ∧ s'.tables = s.tables ∨ s'.past = s.past ++ [s'.tables]) := by
  cases a with
  | call c =>
    simp only [queues, Host.next, Option.bind_eq_some_iff, Option.map_eq_some_iff,
      Prod.exists] at h
    obtain ⟨_, hsts, _, _, hcommit, rfl⟩ := h
    refine ⟨?_, Or.inr rfl⟩
    rcases Call.effects (c := c) hlic hsts with hwithin | ⟨hturns, _, rfl, hst⟩
    · exact Or.inl (moves_of_commit hclock hwithin hcommit)
    · exact Or.inr ⟨hturns, succession_of_commit hclock hst hcommit⟩
  | settle c i j _ _ clocks =>
    simp only [queues, Host.next] at h
    split at h
    swap
    · cases h
    split at h
    · cases h
      exact ⟨Or.inl Relation.ReflTransGen.refl, Or.inl ⟨rfl, rfl⟩⟩
    next r hplan =>
    split at h
    · next t' _ hcommit =>
      have hmoves : Moves lic clock s.tables t' := by
        obtain ⟨n, hrun, -⟩ := Tables.commit_singleton hcommit
        change List.IsChain clock (s.tables.now :: clocks) at hclock
        refine (moves_ticked hclock).1.trans (moves_of_settleBatch ?_ hrun)
        have hreceipts : (s.tables.ticked clocks).receipts = s.tables.receipts := by
          cases clocks <;> rfl
        rw [hreceipts]
        exact hown c i j r hplan
      split at h
      all_goals
        cases h
        exact ⟨Or.inl hmoves, Or.inr rfl⟩
    · cases h
      exact ⟨Or.inl Relation.ReflTransGen.refl, Or.inl ⟨rfl, rfl⟩⟩
  | reply k =>
    simp only [queues, Host.next, Option.map_eq_some_iff] at h
    obtain ⟨r, -, rfl⟩ := h
    exact ⟨Or.inl Relation.ReflTransGen.refl, Or.inl ⟨rfl, rfl⟩⟩

theorem shift_of_licensed_next :
    Shift lic clock s.tables s'.tables ∧
      (s'.past = s.past ∧ s'.tables = s.tables ∨ s'.past = s.past ++ [s'.tables]) := by
  obtain ⟨hmoves | ⟨-, hshift⟩, hrecord⟩ := next_cases hlic hclock hown h
  · exact ⟨⟨s'.tables, hmoves, Relation.ReflGen.refl⟩, hrecord⟩
  · exact ⟨hshift, hrecord⟩

end

theorem isChain_trivial (l : List Instant) : List.IsChain (fun _ _ => True) l := by
  induction l with
  | nil => exact List.IsChain.nil
  | cons x l ih =>
    cases l with
    | nil => exact List.IsChain.singleton _
    | cons => exact List.isChain_cons_cons.mpr ⟨trivial, ih⟩

/-- The case of any call and any clock. -/
theorem shift_of_next (h : queues.next s a = some s') :
    Shift Licence.any (fun _ _ => True) s.tables s'.tables ∧
      (s'.past = s.past ∧ s'.tables = s.tables ∨ s'.past = s.past ++ [s'.tables]) := by
  exact shift_of_licensed_next (Licence.le_any _) (isChain_trivial _)
    (fun _ _ _ _ _ => Or.inl fun _ _ => trivial) h

/-- **The invariant rule for tables.**  What holds of the empty tables, and is kept by each move
and each succession, holds of the tables of every reachable state and of all earlier ones. -/
theorem tables_invariant {P : Tables → Prop} (hinit : P {})
    (hmove : ∀ t t', P t → Move Licence.any (fun _ _ => True) t t' → P t')
    (hsuccession : ∀ t t', P t → Succession t t' → P t') (h : queues.Reachable s) :
    P s.tables ∧ ∀ t ∈ s.past, P t := by
  refine Machine.ReachVia.invariant (P := fun s : Host => P s.tables ∧ ∀ t ∈ s.past, P t)
    ⟨hinit, by simpa [queues] using hinit⟩ ?_ h
  rintro s a s' ⟨hs, hpast⟩ - hn
  obtain ⟨⟨u, hmoves, hturn⟩, hrecord⟩ := shift_of_next hn
  have hu : P u := Moves.invariant hmove hmoves hs
  have hs' : P s'.tables := by
    rcases hturn with _ | hstep
    · exact hu
    · exact hsuccession _ _ hu hstep
  refine ⟨hs', ?_⟩
  rcases hrecord with ⟨hsame, -⟩ | hsame
  · rw [hsame]
    exact hpast
  · rw [hsame]
    intro t ht
    rcases Table.mem_insert.mp ht with ht | rfl
    · exact hpast t ht
    · exact hs'

end Takoserver.Queue
