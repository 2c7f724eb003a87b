import Takoserver.Queue.Fencing

/-!
# What is presented under another lease

A release or a settlement that is presented under a lease the message no longer has, and a
claim for a generation that is not in custody, change nothing; a claim leaves alone every
message whose lease is not over.  What a claim hands out is leased as it says, within the
attempts of the policy in that lease.
-/

namespace Takoserver.Queue

variable {t t' : Tables} {identity : Identity}

/-! ### What is presented under another lease -/

variable {n : ℕ} {clocks : List Instant} {changes : List ℕ}

theorem ticked_fields (t : Tables) (clocks : List Instant) :
    (t.ticked clocks).messages = t.messages ∧ (t.ticked clocks).custody = t.custody ∧
      (t.ticked clocks).notices = t.notices ∧ (t.ticked clocks).receipts = t.receipts ∧
      (t.ticked clocks).executions = t.executions := by
  cases clocks <;> exact ⟨rfl, rfl, rfl, rfl, rfl⟩

variable {millis : Instant} {m : Message} {input : ClaimInput} {active : ConsumerGeneration}
  {p : Tables → Message → Bool} {leaseToken : String} {s s' : Host}

variable {c : ClaimedMessage} {st : Statement Tables} {sts : List (Statement Tables)}
  {candidates : List (Message × List UInt8)}

theorem effect_eq_self {d : Decision} {deadLetterId : String}
    (hno : ∀ m ∈ t.messages, c.isLeaseOf m = false)
    (h : effectStatement c d millis deadLetterId t = some (t', n)) : t' = t := by
  have hfalse : ∀ {p : Message → Bool}, (∀ m, p m = true → c.isLeaseOf m = true) →
      ∀ m ∈ t.messages, p m = false := by
    intro p hp m hm
    rw [Bool.eq_false_iff]
    intro hpm
    have hlease := hno m hm
    rw [hp m hpm] at hlease
    cases hlease
  cases hout : d.outcome with
  | ack =>
    simp only [effectStatement, hout] at h
    exact deleteMessages_eq_self hno h
  | retry =>
    by_cases hattempts : 1 + c.policy.maxRetries ≤ c.attempts
    · simp only [effectStatement, hout, if_pos hattempts] at h
      exact terminalLease_eq_self (hfalse fun m => ClaimedMessage.isLeaseOf_of_guards) h
    · simp only [effectStatement, hout, if_neg hattempts] at h
      exact updateMessages_eq_self (hfalse fun m => ClaimedMessage.isLeaseOf_of_isClaimOf) h

/-- The messages, the custody rows, the notices and the receipts are the same. -/
def Tables.SameRows (t t' : Tables) : Prop :=
  t'.messages = t.messages ∧ t'.custody = t.custody ∧ t'.notices = t.notices ∧
    t'.receipts = t.receipts

theorem Tables.SameRows.refl (t : Tables) : t.SameRows t := ⟨rfl, rfl, rfl, rfl⟩

theorem Tables.SameRows.trans {u : Tables} (h : t.SameRows u) (h' : u.SameRows t') :
    t.SameRows t' :=
  ⟨h'.1.trans h.1, h'.2.1.trans h.2.1, h'.2.2.1.trans h.2.2.1, h'.2.2.2.trans h.2.2.2⟩

/-- No lease and no custody row is the generation's. -/
def Tables.Foreign (t : Tables) (identity : Identity) : Prop :=
  (∀ m ∈ t.messages, m.heldBy identity = false) ∧
    t.inCustody identity [.active, .retiring] = false

theorem Tables.Foreign.congr (h : t.Foreign identity) (hsame : t.SameRows t') :
    t'.Foreign identity := by
  obtain ⟨hm, hc, -⟩ := hsame
  exact ⟨by rw [hm]; exact h.1, by rw [Tables.inCustody, hc]; exact h.2⟩

theorem Tables.Foreign.inactive (h : t.Foreign identity) :
    t.inCustody identity [.active] = false := by
  rw [Bool.eq_false_iff]
  intro hactive
  have hcustody : t.inCustody identity [.active, .retiring] = true := by
    simp only [Tables.inCustody, List.any_eq_true, decide_eq_true_eq] at hactive ⊢
    obtain ⟨c, hc, hid, hstate⟩ := hactive
    exact ⟨c, hc, hid, by simp [List.mem_singleton.mp hstate]⟩
  rw [h.2] at hcustody
  cases hcustody

/-- A message that is as a row was read is held by whom the row was held by. -/
theorem heldBy_of_unchanged {row : Message} (h : row.unchanged m = true) :
    m.heldBy identity = row.heldBy identity := by
  simp only [Message.unchanged, decide_eq_true_eq] at h
  obtain ⟨hqueue, -, -, -, -, -, hlease⟩ := h
  simp only [Message.heldBy, hqueue, hlease]

/-- No message meets the conditions of a terminal lease of a generation not in custody. -/
theorem TerminalLease.guards_of_foreign {l : TerminalLease} (h : t.Foreign l.toIdentity)
    (m : Message) : l.guards t m = false := by
  rw [Bool.eq_false_iff]
  intro hp
  have hc := (TerminalLease.of_guards hp).2.2.1
  rw [h.2] at hc
  cases hc

/-- A statement of a claim for a generation not in custody changes no row but executions. -/
theorem ClaimStatement.sameRows {ids : ClaimIds} (hst : ClaimStatement input active millis ids st)
    (hforeign : t.Foreign active.toIdentity) (h : st t = some (t', n)) : t.SameRows t' := by
  have hactive := hforeign.inactive
  have hself : t' = t → t.SameRows t' := by
    intro heq
    rw [heq]
    exact Tables.SameRows.refl t
  cases hst with
  | reap row hheld _ hst =>
    cases hst with
    | expire =>
      refine hself (deleteMessages_eq_self (fun m _ => ?_) h)
      simp [hforeign.2]
    | refuse =>
      simp only [refuseLeaseStatement, Option.some.injEq, Prod.mk.injEq] at h
      rw [← h.1]
      exact ⟨rfl, rfl, rfl, rfl⟩
    | refund =>
      refine hself (refundMessages_eq_self (fun m hm => ?_) h)
      have hrow : row.unchanged m = false := by
        rw [Bool.eq_false_iff]
        intro hrow
        have hno := hforeign.1 m hm
        rw [heldBy_of_unchanged hrow, hheld] at hno
        cases hno
      rw [hrow, Bool.false_and]
    | retry =>
      refine hself (updateMessages_eq_self (fun m _ => ?_) h)
      simp [hforeign.2]
    | terminal l =>
      exact hself (terminalLease_eq_self
        (fun m _ => TerminalLease.guards_of_foreign (l := reapTerminal _ row l) hforeign m) h)
  | progress row _ hst =>
    cases hst with
    | expire =>
      refine hself (deleteMessages_eq_self (fun m _ => ?_) h)
      simp [hactive]
    | lease =>
      refine hself (updateMessages_eq_self (fun m _ => ?_) h)
      simp [hactive]
    | terminal leaseToken =>
      exact hself (terminalLease_eq_self (fun m _ =>
        TerminalLease.guards_of_foreign (l := progressTerminal active _ leaseToken row) hforeign m) h)
  | bind =>
    simp only [bindLeaseStatement] at h
    split at h
    · cases h
    · cases h
      exact ⟨rfl, rfl, rfl, rfl⟩
  | lease =>
    refine hself (updateMessages_eq_self (fun m _ => ?_) h)
    simp [hactive]

/-- A batch each of whose statements keeps the rows of tables in which a generation is
foreign keeps them too. -/
theorem sameRows_of_commit
    (hsts : ∀ st ∈ sts, ∀ u u' k, u.Foreign identity → st u = some (u', k) → u.SameRows u')
    (hforeign : t.Foreign identity) (h : t.commit clocks sts = some (t', changes)) :
    t.SameRows t' := by
  induction sts generalizing t clocks changes with
  | nil =>
    rw [Tables.commit_nil, Option.some.injEq, Prod.mk.injEq] at h
    rw [h.1]
    exact Tables.SameRows.refl t'
  | cons st sts ih =>
    obtain ⟨u, k, _, hst, hrun, -⟩ := Tables.commit_cons h
    obtain ⟨hm, hc, hn, hr, -⟩ := ticked_fields t clocks
    have hticked : t.SameRows (t.ticked clocks) := ⟨hm, hc, hn, hr⟩
    have hu := hticked.trans (hsts st List.mem_cons_self _ u k (hforeign.congr hticked) hst)
    exact hu.trans (ih (fun st' hmem => hsts st' (List.mem_cons_of_mem _ hmem))
      (hforeign.congr hu) hrun)

/-! ### What a claim leaves alone -/

theorem mem_of_updateMessages {f : Message → Message} (hm : m ∈ t.messages) (hp : p t m = false)
    (h : updateMessages p f t = some (t', n)) :
    m ∈ t'.messages := by
  simp only [updateMessages, Option.some.injEq, Prod.mk.injEq] at h
  rw [← h.1]
  exact Table.mem_update.mpr (Or.inl ⟨hm, hp⟩)

theorem mem_of_refundMessages {v : Instant} (hm : m ∈ t.messages) (hp : p t m = false)
    (h : refundMessages p v t = some (t', n)) :
    m ∈ t'.messages := by
  simp only [refundMessages, Option.some.injEq, Prod.mk.injEq] at h
  rw [← h.1]
  exact Table.mem_update.mpr (Or.inl ⟨hm, hp⟩)

theorem mem_of_deleteMessages {why : Reason} (hm : m ∈ t.messages) (hp : p t m = false)
    (h : deleteMessages why p t = some (t', n)) :
    m ∈ t'.messages := by
  simp only [deleteMessages, Option.some.injEq, Prod.mk.injEq] at h
  rw [← h.1]
  exact Table.mem_delete.mpr ⟨hm, hp⟩

/-- A statement of a claim leaves alone a message whose lease is not over, under a token that
the claim has not drawn. -/
theorem ClaimStatement.mem {ids : ClaimIds} (hst : ClaimStatement input active millis ids st)
    {l : Lease} (hm : m ∈ t.messages) (hl : m.lease = some l) (hover : millis < l.expiresAt)
    (htoken : l.token ∉ ids.drawn) (h : st t = some (t', n)) :
    m ∈ t'.messages := by
  have hreap : ∀ row : Message, row.leaseExpiry ≤ millis → row.unchanged m = false := by
    intro row hrow
    rw [Bool.eq_false_iff]
    intro hsame
    simp only [Message.unchanged, decide_eq_true_eq] at hsame
    rw [Message.leaseExpiry, ← hsame.2.2.2.2.2.2, hl] at hrow
    exact Nat.not_le_of_lt hover hrow
  cases hst with
  | reap row _ hrow hst =>
    cases hst with
    | expire => exact mem_of_deleteMessages hm (by simp [hreap row hrow]) h
    | refuse =>
      simp only [refuseLeaseStatement, Option.some.injEq, Prod.mk.injEq] at h
      rw [← h.1]
      exact hm
    | refund => exact mem_of_refundMessages hm (by simp [hreap row hrow]) h
    | retry => exact mem_of_updateMessages hm (by simp [hreap row hrow]) h
    | terminal x _ hx =>
      refine mem_of_terminalLease hm ?_ h
      rw [Message.leaseExpiry, hx] at hrow
      have hlate : l.expiresAt ≠ x.expiresAt := by
        intro heq
        rw [heq] at hover
        exact Nat.not_le_of_lt hover hrow
      simp [TerminalLease.guards, reapTerminal, hl, hlate]
  | progress row _ hst =>
    cases hst with
    | expire => exact mem_of_deleteMessages hm (by simp [hl]) h
    | lease => exact mem_of_updateMessages hm (by simp [hl]) h
    | terminal leaseToken _ hdrawn =>
      refine mem_of_terminalLease hm ?_ h
      have hother : l.token ≠ leaseToken := by
        rintro rfl
        exact htoken hdrawn
      simp [TerminalLease.guards, progressTerminal, Message.leasedUnder, hl, hother]
  | bind =>
    simp only [bindLeaseStatement] at h
    split at h
    · cases h
    · cases h
      exact hm
  | lease => exact mem_of_updateMessages hm (by simp [hl]) h

theorem mem_of_commit
    (hsts : ∀ st ∈ sts, ∀ u u' k, m ∈ u.messages → st u = some (u', k) → m ∈ u'.messages)
    (hm : m ∈ t.messages) (h : t.commit clocks sts = some (t', changes)) : m ∈ t'.messages := by
  induction sts generalizing t clocks changes with
  | nil =>
    rw [Tables.commit_nil, Option.some.injEq, Prod.mk.injEq] at h
    rw [← h.1]
    exact hm
  | cons st sts ih =>
    obtain ⟨u, k, _, hst, hrun, -⟩ := Tables.commit_cons h
    have hticked : m ∈ (t.ticked clocks).messages := by
      rw [(ticked_fields t clocks).1]
      exact hm
    exact ih (fun st' hmem => hsts st' (List.mem_cons_of_mem _ hmem))
      (hsts st List.mem_cons_self _ u k hticked hst) hrun

/-! ### What a claim hands out -/

theorem isClaimOf_of_lease {c : Message × List UInt8} (hqueue : c.1.queueId = active.queueId)
    (h : leaseStatement input active millis leaseToken c.1 t = some (t', 1)) :
    ∃ m ∈ t'.messages, (claimedOf active leaseToken c).isClaimOf m = true := by
  simp only [leaseStatement, updateMessages, Option.some.injEq, Prod.mk.injEq] at h
  obtain ⟨rfl, hcount⟩ := h
  obtain ⟨m, hm, hp⟩ := List.countP_pos_iff.mp (show 0 < t.messages.countP _ by rw [hcount]; omega)
  refine ⟨_, Table.mem_update.mpr (Or.inr ⟨m, hm, hp, rfl⟩), ?_⟩
  simp only [Bool.and_eq_true, decide_eq_true_eq, Message.unchanged] at hp
  obtain ⟨⟨⟨⟨⟨⟨hq, hid, -, -, -, hdeliveries, -⟩, -⟩, -⟩, -⟩, -⟩, -⟩ := hp
  simp [ClaimedMessage.isClaimOf, ClaimedMessage.isLeaseOf, Message.leasedUnder, claimedOf, hq, hid,
    hdeliveries, hqueue]

theorem isClaimOf_of_leases (hqueue : ∀ c ∈ candidates, c.1.queueId = active.queueId)
    (h : t.commit clocks (candidates.map fun c => leaseStatement input active millis leaseToken c.1) =
      some (t', changes)) :
    ∀ p ∈ candidates.zip changes, p.2 = 1 →
      ∃ m ∈ t'.messages, (claimedOf active leaseToken p.1).isClaimOf m = true := by
  induction candidates generalizing t clocks changes with
  | nil => simp
  | cons c cs ih =>
    obtain ⟨u, k, _, hst, hrun, rfl⟩ := Tables.commit_cons h
    intro p hp hone
    rw [List.zip_cons_cons] at hp
    rcases List.mem_cons.mp hp with rfl | hp
    · obtain rfl : k = 1 := hone
      obtain ⟨m, hm, hclaim⟩ := isClaimOf_of_lease (hqueue c List.mem_cons_self) hst
      refine ⟨m, ?_, hclaim⟩
      -- the leases of the other candidates pass over what is leased
      refine mem_of_commit (fun st hmem v v' j hv hrun => ?_) hm hrun
      obtain ⟨x, -, rfl⟩ := List.mem_map.mp hmem
      refine mem_of_updateMessages hv ?_ hrun
      cases hl : m.lease with
      | none => simp [ClaimedMessage.isClaimOf, hl] at hclaim
      | some l => simp
    · exact ih (fun x hx => hqueue x (List.mem_cons_of_mem _ hx)) hrun p hp hone

theorem handedOut_spec (hcandidates : ∀ c ∈ candidates, c.1.queueId = active.queueId ∧
      c.1.deliveries < 1 + active.policy.maxRetries)
    (h : t.commit clocks (leaseStatements input active millis leaseToken candidates) =
      some (t', changes)) :
    ∀ c ∈ handedOut input active leaseToken candidates changes,
      c.attempts ≤ 1 + c.policy.maxRetries ∧ ∃ m ∈ t'.messages, c.isClaimOf m = true := by
  have hleases : ∃ (u : Tables) (clocks' : List Instant), u.commit clocks'
      (candidates.map fun c => leaseStatement input active millis leaseToken c.1) =
        some (t', if input.reservation.isSome then changes.tail else changes) := by
    unfold leaseStatements at h
    cases hr : input.reservation with
    | none =>
      rw [hr] at h
      exact ⟨t, clocks, h⟩
    | some r =>
      rw [hr] at h
      obtain ⟨u, k, _, -, hrun, rfl⟩ := Tables.commit_cons h
      exact ⟨u, clocks.tail, hrun⟩
  obtain ⟨u, _, hrun⟩ := hleases
  intro c hc
  obtain ⟨p, hp, rfl⟩ := List.mem_map.mp hc
  obtain ⟨hp, hone⟩ := List.mem_filter.mp hp
  have hmem : p.1 ∈ candidates := (List.of_mem_zip hp).1
  have hattempts := (hcandidates p.1 hmem).2
  refine ⟨by simp only [claimedOf]; omega, ?_⟩
  exact isClaimOf_of_leases (fun x hx => (hcandidates x hx).1) hrun p hp (of_decide_eq_true hone)

/-! ### The fences -/

/-- The call presents the lease of a claimed message. -/
def Call.presents (c : ClaimedMessage) : Call → Prop
  | .release c' _ => c' = c
  | .settle c' _ _ _ => c' = c
  | _ => False

/-- What holds of a state, and of each step from it. -/
structure Fences (s : Host) : Prop where
  /-- A lease is of the generation in custody, active or retiring. -/
  leased : ∀ m ∈ s.tables.messages, ∀ l, m.lease = some l →
    ∃ c, s.tables.custodyOf m.queueId = some c ∧ c.toIdentity = m.holder l ∧
      (c.state = .active ∨ c.state = .retiring)
  /-- A generation that has ended or was replaced has no lease and owes no notice. -/
  ended : ∀ identity : Identity, (∀ c, s.tables.custodyOf identity.queueId = some c →
      c.toIdentity = identity → c.state = .tombstone) →
    (∀ m ∈ s.tables.messages, m.heldBy identity = false) ∧
      ∀ n ∈ s.tables.notices, n.source ≠ identity
  /-- A message is leased under one token. -/
  oneToken : ∀ m ∈ s.tables.messages, ∀ m' ∈ s.tables.messages, m.key = m'.key →
    ∀ token token' identity identity', m.leasedUnder token identity = true →
      m'.leasedUnder token' identity' = true → token = token' ∧ identity = identity'
  /-- Each step keeps the generation of a queue or goes to the next. -/
  generation : ∀ a s', queues.next s a = some s' → ∀ queueId,
    s'.tables.generation queueId = s.tables.generation queueId ∨
      s'.tables.generation queueId = s.tables.generation queueId + 1
  /-- What is presented under another lease changes nothing but the time. -/
  presented : ∀ c : ClaimedMessage, (∀ m ∈ s.tables.messages, m.key = (c.queueId, c.messageId) →
      m.leasedUnder c.leaseToken c.toIdentity = false) →
    ∀ (call : Call) clocks acknowledged s', call.presents c →
      queues.next s (.call call clocks acknowledged) = some s' →
      s'.tables = s.tables.ticked clocks
  /-- A claim for another generation changes no message, custody row, notice or receipt. -/
  claimed : ∀ (input : ClaimInput) millis reads ids clocks acknowledged s',
    (∀ c, s.tables.custodyOf input.queueId = some c → c.toIdentity ≠ input.toIdentity) →
      queues.next s (.call (.claim input millis reads ids) clocks acknowledged) = some s' →
      s.tables.SameRows s'.tables
  /-- A claim leaves alone what is leased under another token, until that lease is over. -/
  kept : ∀ (input : ClaimInput) millis reads ids clocks acknowledged s',
    queues.next s (.call (.claim input millis reads ids) clocks acknowledged) = some s' →
      ∀ m ∈ s.tables.messages, ∀ l, m.lease = some l → millis < l.expiresAt →
        l.token ∉ ids.drawn → m ∈ s'.tables.messages
  /-- What is handed out is leased so, with an attempt that the policy in the lease allows. -/
  handed : ∀ a s', queues.next s a = some s' → ∃ cs, s'.handed = s.handed ++ cs ∧
    ∀ c ∈ cs, c.attempts ≤ 1 + c.policy.maxRetries ∧
      ∃ m ∈ s'.tables.messages, c.isClaimOf m = true

theorem custodyOf_of_serves (hkeys : (t.custody.map fun c => c.queueId).Nodup)
    (h : t.Serves identity) :
    ∃ c, t.custodyOf identity.queueId = some c ∧ c.toIdentity = identity ∧
      (c.state = .active ∨ c.state = .retiring) := by
  obtain ⟨c, hc, rfl, hstate⟩ := h
  have hfind : Table.find (fun c : Custody => c.queueId) t.custody c.queueId = some c :=
    Table.find_of_mem hkeys hc
  refine ⟨c, hfind, rfl, ?_⟩
  cases hs : c.state with
  | active => exact Or.inl rfl
  | retiring => exact Or.inr rfl
  | tombstone => exact absurd hs hstate

/-- What a call does to the tables, and what it hands out. -/
theorem next_call {call : Call} {acknowledged : Bool}
    (h : queues.next s (.call call clocks acknowledged) = some s') :
    ∃ sts changes, call.statements s.read = some sts ∧
      s.tables.commit clocks sts = some (s'.tables, changes) ∧
      s'.handed = s.handed ++ call.handsOut s.read changes := by
  simp only [queues, Host.next, Option.bind_eq_some_iff, Option.map_eq_some_iff, Prod.exists] at h
  obtain ⟨sts, hsts, u, changes, hcommit, rfl⟩ := h
  exact ⟨sts, changes, hsts, hcommit, rfl⟩

theorem foreign_of_fenced (h : Fenced t)
    (hother : ∀ c, t.custodyOf identity.queueId = some c → c.toIdentity ≠ identity) :
    t.Foreign identity := by
  have hserves : ¬ t.Serves identity := by
    intro hs
    obtain ⟨c, hc, hid, -⟩ := custodyOf_of_serves h.keys hs
    exact hother c hc hid
  refine ⟨fun m hm => ?_, ?_⟩
  · rw [Bool.eq_false_iff]
    intro hheld
    obtain ⟨l, hl, hid⟩ := heldBy_iff.mp hheld
    exact hserves (hid ▸ h.leased m hm l hl)
  · rw [Bool.eq_false_iff]
    exact fun hc => hserves (serves_of_inCustody hc (by simp))

theorem presented_of_foreign {call : Call} {acknowledged : Bool}
    (hno : ∀ m ∈ s.tables.messages, m.key = (c.queueId, c.messageId) →
      m.leasedUnder c.leaseToken c.toIdentity = false) (hcall : call.presents c)
    (h : queues.next s (.call call clocks acknowledged) = some s') :
    s'.tables = s.tables.ticked clocks := by
  have hforeign : ∀ m ∈ (s.tables.ticked clocks).messages, c.isLeaseOf m = false := by
    rw [(ticked_fields s.tables clocks).1]
    intro m hm
    rw [Bool.eq_false_iff]
    intro hl
    obtain ⟨hid, hlease⟩ := ClaimedMessage.of_isLeaseOf hl
    have hqueue : m.queueId = c.queueId := by
      simp only [Message.leasedUnder, Bool.and_eq_true, decide_eq_true_eq] at hlease
      exact hlease.1
    rw [hno m hm (by rw [Message.key, hid, hqueue])] at hlease
    cases hlease
  obtain ⟨_, _, hsts, hcommit, -⟩ := next_call h
  cases call with
  | release c' v =>
    obtain rfl : c' = c := hcall
    simp only [Call.statements] at hsts
    split at hsts
    · cases hsts
      obtain ⟨n, hrun, -⟩ := Tables.commit_singleton hcommit
      exact refundMessages_eq_self hforeign hrun
    · cases hsts
  | settle c' =>
    obtain rfl : c' = c := hcall
    simp only [Call.statements] at hsts
    split at hsts
    · cases hsts
      obtain ⟨n, hrun, -⟩ := Tables.commit_singleton hcommit
      rw [settleStatement_eq] at hrun
      exact effect_eq_self hforeign hrun
    · cases hsts
  | _ => cases hcall

theorem handed_of_next {a : Action} (h : queues.next s a = some s') :
    ∃ cs, s'.handed = s.handed ++ cs ∧ ∀ c ∈ cs, c.attempts ≤ 1 + c.policy.maxRetries ∧
      ∃ m ∈ s'.tables.messages, c.isClaimOf m = true := by
  have hnone : s'.handed = s.handed → ∃ cs, s'.handed = s.handed ++ cs ∧
      ∀ c ∈ cs, c.attempts ≤ 1 + c.policy.maxRetries ∧
        ∃ m ∈ s'.tables.messages, c.isClaimOf m = true := by
    intro heq
    exact ⟨[], by rw [heq, List.append_nil], by simp⟩
  cases a with
  | call call =>
    obtain ⟨_, _, hsts, hcommit, hhanded⟩ := next_call h
    cases call with
    | claim input millis reads ids =>
      refine ⟨_, hhanded, fun c hc => ?_⟩
      simp only [Call.statements] at hsts
      simp only [Call.handsOut] at hc
      rcases input.plan_cases millis reads ids s.read with
        hplan | ⟨active, -, ⟨sts', hplan, -⟩ | ⟨candidates, hplan, hcandidates⟩⟩ <;>
        rw [hplan] at hsts hc
      · cases hc
      · cases hc
      · cases hsts
        exact handedOut_spec hcandidates hcommit c hc
    | _ => exact hnone (hhanded.trans (List.append_nil _))
  | settle =>
    simp only [queues, Host.next] at h
    split at h
    swap
    · cases h
    split at h
    · cases h
      exact hnone rfl
    split at h
    · split at h
      all_goals
        cases h
        exact hnone rfl
    · cases h
      exact hnone rfl
  | reply k =>
    simp only [queues, Host.next, Option.map_eq_some_iff] at h
    obtain ⟨r, -, rfl⟩ := h
    exact hnone rfl

/-- **Leases and generations are fenced.** -/
theorem fences_of_reachable {s : Host} (h : queues.Reachable s) : Fences s where
  leased m hm l hl := by
    have hfenced := fenced_of_reachable h
    exact custodyOf_of_serves hfenced.keys (hfenced.leased m hm l hl)
  ended identity hended := by
    have hfenced := fenced_of_reachable h
    have hserves : ¬ s.tables.Serves identity := by
      intro hs
      obtain ⟨c, hc, hid, hstate⟩ := custodyOf_of_serves hfenced.keys hs
      rw [hended c hc hid] at hstate
      simp at hstate
    refine ⟨fun m hm => ?_, ?_⟩
    · rw [Bool.eq_false_iff]
      intro hheld
      obtain ⟨l, hl, rfl⟩ := heldBy_iff.mp hheld
      exact hserves (hfenced.leased m hm l hl)
    · rintro n hn rfl
      exact hserves (hfenced.noticed n hn)
  oneToken m hm m' hm' hkey token token' identity identity' hlease hlease' := by
    obtain rfl := Table.eq_of_key (conserved_of_reachable h).keys hm hm' hkey
    cases hl : m.lease with
    | none => simp [Message.leasedUnder, hl] at hlease
    | some l =>
      obtain ⟨q, c, g⟩ := identity
      obtain ⟨_, _, _⟩ := identity'
      simp only [Message.leasedUnder, hl, Option.any_some, Bool.and_eq_true,
        decide_eq_true_eq] at hlease hlease'
      obtain ⟨rfl, rfl, rfl, rfl⟩ := hlease
      obtain ⟨rfl, rfl, rfl, rfl⟩ := hlease'
      exact ⟨rfl, rfl⟩
  generation a s' hn queueId := generation_of_next hn queueId
  presented c hno call clocks acknowledged s' hcall hn := presented_of_foreign hno hcall hn
  claimed input millis reads ids clocks acknowledged s' hother hn := by
    obtain ⟨_, _, hsts, hcommit, -⟩ := next_call hn
    obtain ⟨_, ⟨hid, -⟩, hstatements⟩ := claimStatement_of_mem hsts
    have hforeign := foreign_of_fenced (fenced_of_reachable h) hother
    refine sameRows_of_commit (fun st hst u u' k hu hrun => ?_) hforeign hcommit
    rw [← hid] at hu
    exact (hstatements st hst).sameRows hu hrun
  kept input millis reads ids clocks acknowledged s' hn m hm l hl hover htoken := by
    obtain ⟨_, _, hsts, hcommit, -⟩ := next_call hn
    obtain ⟨_, -, hstatements⟩ := claimStatement_of_mem hsts
    exact mem_of_commit (fun st hst u u' k hu hrun =>
      (hstatements st hst).mem hu hl hover htoken hrun) hm hcommit
  handed a s' hn := handed_of_next hn

/-- A message is admitted and claimed. -/
theorem fences_of_reachable_transferRun :
    ∃ s, queues.Reachable s ∧ s.handed ≠ [] ∧ (∃ m ∈ s.tables.messages, m.lease.isSome = true) ∧
      Fences s := by
  obtain ⟨s, hs, hp⟩ := Machine.exists_reachable_of_run (M := queues) (transferRun.take 3)
    (fun s => decide (s.handed ≠ []) && s.tables.messages.any fun m => m.lease.isSome)
    (by decide +kernel)
  simp only [Bool.and_eq_true, decide_eq_true_eq, List.any_eq_true] at hp
  exact ⟨s, hs, hp.1, hp.2, fences_of_reachable hs⟩

end Takoserver.Queue
