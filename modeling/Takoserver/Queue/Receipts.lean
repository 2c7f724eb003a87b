import Takoserver.Queue.Leases

/-!
# Receipts

A receipt of a delivered message goes from pending to settled in one batch, together with what
it records of the message, and never changes again.  Every call that replies that a message is
settled asked for what the receipt says.
-/

namespace Takoserver.Queue

variable {lic : Licence} {t t' u : Tables} {n : ℕ}

/-! ### Receipts of their own -/

/-- What every statement keeps of the receipts. -/
structure Registered (t : Tables) : Prop where
  keys : (t.receipts.map Receipt.key).Nodup
  leases : ∀ r ∈ t.receipts, ∀ r' ∈ t.receipts, r.queueId = r'.queueId →
    r.messageId = r'.messageId → r.leaseToken = r'.leaseToken → r.key = r'.key
  batches : ∀ r ∈ t.receipts, ∀ r' ∈ t.receipts, r.batchId = r'.batchId →
    r.toIdentity = r'.toIdentity ∧ r.leaseToken = r'.leaseToken

/-- Tables whose receipts are of the same claims. -/
theorem Registered.of_claims (h : Registered t) (hkeys : (t'.receipts.map Receipt.key).Nodup)
    (hclaims : ∀ r' ∈ t'.receipts, ∃ r ∈ t.receipts, r.toBatchClaim = r'.toBatchClaim) :
    Registered t' := by
  refine ⟨hkeys, ?_, ?_⟩
  · intro x hx y hy
    obtain ⟨r, hr, hrx⟩ := hclaims x hx
    obtain ⟨r', hr', hry⟩ := hclaims y hy
    have hkey := h.leases r hr r' hr'
    simp only [Receipt.key, hrx, hry] at hkey ⊢
    exact hkey
  · intro x hx y hy
    obtain ⟨r, hr, hrx⟩ := hclaims x hx
    obtain ⟨r', hr', hry⟩ := hclaims y hy
    have hbatch := h.batches r hr r' hr'
    rw [hrx, hry] at hbatch
    exact hbatch

theorem Registered.congr (h : Registered t) (hr : t'.receipts = t.receipts) : Registered t' :=
  h.of_claims (by rw [hr]; exact h.keys) fun r hmem => ⟨r, by rw [← hr]; exact hmem, rfl⟩

variable {b : BatchClaim} {millis : Instant} {deadLetterId : String} {c : ClaimedMessage}
  {d : Decision} {r : SettleRequest} {i j : ℕ} {a : Ask}

theorem Registered.registered (h : Registered t) (hb : b.registrable t = true) :
    Registered { t with receipts := t.receipts ++ [{ toBatchClaim := b, state := .pending }] } := by
  simp only [BatchClaim.registrable, Bool.and_eq_true, Bool.not_eq_true', List.any_eq_false,
    decide_eq_true_eq, not_or] at hb
  have hno := hb.1
  refine ⟨Table.nodup_insert h.keys fun r hr heq => (hno r hr).1 (by simpa [Receipt.key] using heq),
    ?_, ?_⟩
  · intro x hx y hy hq hm hl
    rcases List.mem_append.mp hx with hx | hx <;> rcases List.mem_append.mp hy with hy | hy
    · exact h.leases x hx y hy hq hm hl
    · rw [List.mem_singleton.mp hy] at hq hm hl
      exact absurd ⟨hq, hm, hl⟩ (hno x hx).2.1
    · rw [List.mem_singleton.mp hx] at hq hm hl
      exact absurd ⟨hq.symm, hm.symm, hl.symm⟩ (hno y hy).2.1
    · rw [List.mem_singleton.mp hx, List.mem_singleton.mp hy]
  · have hsame : ∀ r ∈ t.receipts, r.batchId = b.batchId →
        r.toIdentity = b.toIdentity ∧ r.leaseToken = b.leaseToken := by
      intro r hr hbatch
      by_contra hne
      refine (hno r hr).2.2 ⟨hbatch, ?_⟩
      by_contra hboth
      exact hne (by simpa [not_or] using hboth)
    intro x hx y hy hbatch
    rcases List.mem_append.mp hx with hx | hx <;> rcases List.mem_append.mp hy with hy | hy
    · exact h.batches x hx y hy hbatch
    · rw [List.mem_singleton.mp hy] at hbatch ⊢
      exact hsame x hx hbatch
    · rw [List.mem_singleton.mp hx] at hbatch ⊢
      obtain ⟨hid, htoken⟩ := hsame y hy hbatch.symm
      exact ⟨hid.symm, htoken.symm⟩
    · rw [List.mem_singleton.mp hx, List.mem_singleton.mp hy]
      exact ⟨rfl, rfl⟩

theorem Registered.put (h : Registered t) {r : Receipt} (hr : r ∈ t.receipts)
    (state : ReceiptState) :
    Registered { t with receipts := Table.put Receipt.key { r with state } t.receipts } := by
  refine h.of_claims ?_ ?_
  · rw [Table.map_key_put]
    exact h.keys
  · intro x hx
    rcases Table.mem_put.mp hx with ⟨hx, -⟩ | ⟨rfl, -⟩
    · exact ⟨x, hx, rfl⟩
    · exact ⟨r, hr, rfl⟩

theorem registered_of_reachable {s : Host} (h : queues.Reachable s) : Registered s.tables := by
  refine (tables_invariant (P := Registered) ⟨List.nodup_nil, by simp, by simp⟩ ?_ ?_ h).1
  · rintro t _ ht (⟨_, -⟩ | ⟨_, hstep⟩ | ⟨_, hstep⟩)
    · exact ht.congr rfl
    · cases hstep with
      | registered b hb _ => exact ht.registered hb
      | _ => exact ht.congr rfl
    · cases hstep with
      | settling _ _ hr => exact ht.put hr _
      | settled _ _ hr => exact ht.put hr _
  · intro t t' ht hstep
    cases hstep <;> exact ht.congr rfl

/-! ### The batch of a settlement -/

theorem receipts_of_terminalLease {l : TerminalLease}
    (h : terminalLease l millis deadLetterId t = some (t', n)) :
    t'.receipts = t.receipts := by
  cases htarget : l.policy.deadLetterQueue with
  | none =>
    simp only [terminalLease, htarget, TerminalLease.removal, deleteMessages, Option.some.injEq,
      Prod.mk.injEq] at h
    rw [← h.1]
  | some =>
    simp only [terminalLease, htarget] at h
    rcases transfer_cases h with ⟨rfl, -⟩ | ⟨m, -, -, -, rfl⟩
    · rfl
    · rfl

theorem receipts_of_effect (h : effectStatement c d millis deadLetterId t = some (t', n)) :
    t'.receipts = t.receipts := by
  cases hout : d.outcome with
  | ack =>
    simp only [effectStatement, hout, ackStatement, deleteMessages, Option.some.injEq,
      Prod.mk.injEq] at h
    rw [← h.1]
  | retry =>
    by_cases hattempts : 1 + c.policy.maxRetries ≤ c.attempts
    · simp only [effectStatement, hout, if_pos hattempts] at h
      exact receipts_of_terminalLease h
    · simp only [effectStatement, hout, if_neg hattempts, retryStatement, updateMessages,
        Option.some.injEq, Prod.mk.injEq] at h
      rw [← h.1]

/-- **What a settlement of a batch message commits**: its receipt was pending and admits the
settlement, the message is as the decision says, and the receipt records it. -/
theorem settleBatch_cases {batchId : String} {token : String} {r : Receipt}
    (hr : Table.find Receipt.key t.receipts (batchId, c.messageId) = some r)
    (h : settleBatch batchId c d token millis deadLetterId t = some (t', n)) :
    n = 1 ∧ r.state = .pending ∧ r.admits (settlementOf c d token millis deadLetterId) t = true ∧
      (∃ v u k, v.messages = t.messages ∧ v.custody = t.custody ∧
        effectStatement c d millis deadLetterId v = some (u, k) ∧ t'.messages = u.messages) ∧
      t'.receipts = Table.put Receipt.key
        { r with state := .settled (settlementOf c d token millis deadLetterId) } t.receipts := by
  obtain ⟨v, _, hbegin, hrest⟩ := Statement.andThen_eq_some.mp h
  obtain ⟨u, n₂, heffect, hend⟩ := Statement.andThen_eq_some.mp hrest
  set sett := settlementOf c d token millis deadLetterId
  unfold beginSettlementStatement at hbegin
  rw [hr] at hbegin
  dsimp only at hbegin
  split at hbegin
  swap
  · cases hbegin
  next hcond =>
  cases hbegin
  have hreceipts : u.receipts = Table.put Receipt.key { r with state := .settling sett } t.receipts :=
    receipts_of_effect heffect
  have hkey : r.key = (batchId, c.messageId) := (Table.find_some hr).2
  have hfind : Table.find Receipt.key u.receipts (batchId, c.messageId) =
      some { r with state := .settling sett } := by
    have hsame : ({ r with state := .settling sett } : Receipt).key = (batchId, c.messageId) := hkey
    rw [hreceipts, Table.find_put, if_pos hsame, hr]
    rfl
  unfold endSettlementStatement at hend
  rw [hfind] at hend
  dsimp only at hend
  split at hend
  swap
  · cases hend
  cases hend
  let v : Tables :=
    { t with receipts := Table.put Receipt.key { r with state := .settling sett } t.receipts }
  refine ⟨rfl, hcond.1, hcond.2.1, ⟨v, u, n₂, rfl, rfl, heffect, rfl⟩, ?_⟩
  rw [hreceipts]
  exact Table.put_put rfl

/-! ### What becomes of the message -/

/-- The rows that a settlement leaves of its message. -/
def BatchClaim.remains (b : BatchClaim) (s : Settlement) (m : Message) : List Message :=
  match s.outcome with
  | .ack => []
  | .retry =>
    if b.exhausted then
      (b.policy.deadLetterQueue.map fun q =>
        m.deadLetter q (s.deadLetterMessageId.getD "") s.settledAt).toList
    else [m.unleased (s.settledAt + s.delaySeconds.getD 0 * 1000)]

/-- What a settlement records is what became of the message: it stood under the lease of its
claim, and it was removed, returned, or moved to the dead-letter queue; no other message
changed. -/
def BatchClaim.Applied (b : BatchClaim) (s : Settlement) (t t' : Tables) : Prop :=
  ∃ m ∈ t.messages, m.key = (b.queueId, b.messageId) ∧
    m.leasedUnder b.leaseToken b.toIdentity = true ∧ m.deliveries = b.attempts ∧
    (s.deadLetterMessageId.isSome ↔
      s.outcome = .retry ∧ b.exhausted = true ∧ b.policy.deadLetterQueue.isSome) ∧
    t'.messages.Perm (Table.erase Message.key m.key t.messages ++ b.remains s m)

/-- The message of a claim that is live. -/
theorem BatchClaim.of_live (h : b.live t = true) :
    (∃ m ∈ t.messages, m.key = (b.queueId, b.messageId) ∧
      m.leasedUnder b.leaseToken b.toIdentity = true ∧ m.deliveries = b.attempts ∧
      m.lease.any (fun l => decide (l.policy = b.policy)) = true) ∧
    t.inCustody b.toIdentity [.active, .retiring] = true := by
  simp only [BatchClaim.live, Bool.and_eq_true, List.any_eq_true, decide_eq_true_eq] at h
  obtain ⟨⟨m, hm, ⟨⟨hid, hlease⟩, hdeliveries⟩, hany⟩, hcustody⟩ := h
  refine ⟨⟨m, hm, ?_, hlease, hdeliveries, ?_⟩, hcustody⟩
  · have hqueue : m.queueId = b.queueId := by
      simp only [Message.leasedUnder, Bool.and_eq_true, decide_eq_true_eq] at hlease
      exact hlease.1
    rw [Message.key, hqueue, hid]
  · cases hl : m.lease with
    | none => simp [hl] at hany
    | some l =>
      rw [hl] at hany
      simpa using (of_decide_eq_true hany).2

theorem key_of_isLeaseOf {m : Message} (h : c.isLeaseOf m = true) :
    m.key = (c.queueId, c.messageId) := by
  obtain ⟨hid, hlease⟩ := ClaimedMessage.of_isLeaseOf h
  simp only [Message.leasedUnder, Bool.and_eq_true, decide_eq_true_eq] at hlease
  rw [Message.key, hlease.1, hid]

theorem messages_of_effect (token : String) {m : Message}
    (hkeys : (t.messages.map Message.key).Nodup) (hm : m ∈ t.messages)
    (hclaim : c.isClaimOf m = true)
    (hcustody : t.inCustody c.toIdentity [.active, .retiring] = true)
    (hattempts : b.attempts = c.attempts) (hpolicy : b.policy = c.policy)
    (h : effectStatement c d millis deadLetterId t = some (t', n)) :
    t'.messages.Perm (Table.erase Message.key m.key t.messages ++
      b.remains (settlementOf c d token millis deadLetterId) m) := by
  have hlease := ClaimedMessage.isLeaseOf_of_isClaimOf hclaim
  have hone : ∀ x : Message, c.isLeaseOf x = true → x.key = m.key := fun x hx =>
    (key_of_isLeaseOf hx).trans (key_of_isLeaseOf hlease).symm
  -- by the outcome of the settlement
  cases hout : d.outcome with
  | ack =>
    simp only [effectStatement, hout, ackStatement, deleteMessages, Option.some.injEq,
      Prod.mk.injEq] at h
    rw [← h.1]
    rw [Table.delete_eq_erase hkeys hm hlease fun x _ => hone x]
    simp [BatchClaim.remains, settlementOf, hout]
  | retry =>
    by_cases hexhausted : 1 + c.policy.maxRetries ≤ c.attempts
    · simp only [effectStatement, hout, if_pos hexhausted] at h
      have hguards : c.terminal.guards t m = true := by
        simp only [ClaimedMessage.isClaimOf, Bool.and_eq_true, decide_eq_true_eq] at hclaim
        obtain ⟨⟨hleaseOf, hdeliveries⟩, hpol⟩ := hclaim
        obtain ⟨hid, hunder⟩ := ClaimedMessage.of_isLeaseOf hleaseOf
        obtain ⟨l, hl, hpolicy⟩ := (Option.any_eq_true _ _).mp hpol
        simp [TerminalLease.guards, ClaimedMessage.terminal, hid, hunder, hdeliveries, hcustody, hl,
          of_decide_eq_true hpolicy]
      have honly : ∀ x ∈ t.messages, c.terminal.guards t x = true → x.key = m.key :=
        fun x _ hx => hone x (ClaimedMessage.isLeaseOf_of_guards hx)
      cases htarget : c.policy.deadLetterQueue with
      | none =>
        simp only [terminalLease, ClaimedMessage.terminal, htarget, TerminalLease.removal,
          deleteMessages, Option.some.injEq, Prod.mk.injEq] at h
        rw [← h.1]
        show (Table.delete (c.terminal.guards t) t.messages).Perm _
        rw [Table.delete_eq_erase hkeys hm hguards honly]
        simp [BatchClaim.remains, settlementOf, hout, BatchClaim.exhausted, hattempts, hpolicy,
          hexhausted, htarget]
      | some q =>
        have hrun : ((c.terminal.copy q deadLetterId millis).andThen
            ((c.terminal.notify q deadLetterId).andThen c.terminal.removal)) t = some (t', n) := by
          simpa only [terminalLease, ClaimedMessage.terminal, htarget] using h
        rcases transfer_cases hrun with ⟨-, hno⟩ | ⟨x, hx, hp, -, rfl⟩
        · rw [hno m hm] at hguards
          cases hguards
        · obtain rfl := Table.eq_of_key hkeys hx hm (honly x hx hp)
          rw [Table.delete_eq_erase hkeys hm hguards honly]
          simp [BatchClaim.remains, settlementOf, hout, BatchClaim.exhausted, hattempts, hpolicy,
            hexhausted, htarget]
    · simp only [effectStatement, hout, if_neg hexhausted, retryStatement, updateMessages,
        Option.some.injEq, Prod.mk.injEq] at h
      have hremains : b.remains (settlementOf c d token millis deadLetterId) m =
          [m.unleased (millis + d.delay c * 1000)] := by
        simp [BatchClaim.remains, settlementOf, hout, BatchClaim.exhausted, hattempts, hpolicy,
          hexhausted]
      rw [← h.1, hremains]
      rw [Table.update_eq_put hkeys hm hclaim rfl fun x _ hx =>
        hone x (ClaimedMessage.isLeaseOf_of_isClaimOf hx)]
      exact Table.put_perm hkeys hm rfl

/-! ### Receipts over a run -/

variable {s s' : Host} {clocks : List Instant} {acknowledged : Bool}

theorem Effect.receipts (h : Effect lic t t') : ∃ rs, t'.receipts = t.receipts ++ rs := by
  cases h with
  | registered => exact ⟨_, rfl⟩
  | _ => exact ⟨[], (List.append_nil _).symm⟩

theorem receipts_of_call {call : Call} (h : queues.next s (.call call clocks acknowledged) = some s') :
    ∃ rs, s'.tables.receipts = s.tables.receipts ++ rs := by
  obtain ⟨sts, _, hsts, hcommit, -⟩ := next_call h
  let P : Tables → Prop := fun u => ∃ rs, u.receipts = s.tables.receipts ++ rs
  rcases Call.effects (Licence.le_any _) hsts with hwithin | ⟨-, st, rfl, hst⟩
  · have hkeeps : ∀ st ∈ sts, Statement.Keeps P st := by
      intro st hmem u u' n hu hrun
      have heffects := hwithin st hmem u u' n hrun
      clear hrun
      induction heffects with
      | refl => exact hu
      | tail _ hstep ih =>
        obtain ⟨rs, hrs⟩ := ih
        obtain ⟨rs', hrs'⟩ := hstep.receipts
        exact ⟨rs ++ rs', by rw [hrs', hrs, List.append_assoc]⟩
    have hclocked : ∀ st ∈ Statement.clocked Tables.setNow clocks sts, Statement.Keeps P st :=
      Statement.Keeps.clocked (fun _ _ hu => hu) hkeeps
    have hinit : P s.tables := ⟨[], (List.append_nil _).symm⟩
    exact Statement.Keeps.batch (P := P) hclocked hinit hcommit
  · obtain ⟨n, hrun, -⟩ := Tables.commit_singleton hcommit
    have hticked : (s.tables.ticked clocks).receipts = s.tables.receipts :=
      (ticked_fields s.tables clocks).2.2.2.1
    refine ⟨[], ?_⟩
    rw [List.append_nil, ← hticked]
    exact (fields_of_succession (hst _ _ n hrun)).2.2.1

/-- A receipt is still there, and as it was unless it was pending. -/
def Tables.Keeps (t t' : Tables) : Prop :=
  ∀ r ∈ t.receipts, ∃ r' ∈ t'.receipts, r'.toBatchClaim = r.toBatchClaim ∧
    (r.state ≠ .pending → r' = r)

theorem Tables.Keeps.refl (t : Tables) : t.Keeps t := fun r hr => ⟨r, hr, rfl, fun _ => rfl⟩

theorem Tables.Keeps.trans (h : t.Keeps u) (h' : u.Keeps t') : t.Keeps t' := by
  intro r hr
  obtain ⟨r₁, hr₁, hclaim₁, hstate₁⟩ := h r hr
  obtain ⟨r₂, hr₂, hclaim₂, hstate₂⟩ := h' r₁ hr₁
  refine ⟨r₂, hr₂, hclaim₂.trans hclaim₁, fun hne => ?_⟩
  have hsame := hstate₁ hne
  rw [hstate₂ (by rw [hsame]; exact hne), hsame]

/-- The settlement a call asks for. -/
structure Ask where
  batchId : String
  messageId : String
  token : String
  decision : Decision

/-- What the request asks. -/
def SettleRequest.ask (r : SettleRequest) : Ask :=
  ⟨r.batchId, r.message.messageId, r.token, r.decision⟩

/-- What the call asks. -/
def SettleCall.ask : SettleCall → Ask
  | .message r => r.ask
  | .registered r => ⟨r.batchId, r.messageId, r.token, r.decision⟩

/-- What the answer is to. -/
def Answer.ask (a : Answer) : Ask := ⟨a.batchId, a.messageId, a.token, a.decision⟩

/-- A call that runs its batch has read the receipt of its message, pending. -/
theorem SettleRequest.of_plan {r' : SettleRequest} {read : Tables}
    (h : r.plan read = .write r') :
    r' = r ∧ ∃ row, Table.find Receipt.key read.receipts (r.batchId, r.message.messageId) = some row ∧
      row.sameClaim r.message = true := by
  unfold SettleRequest.plan at h
  split at h
  · cases h
  split at h
  · cases h
  next row hrow =>
  split at h
  · cases h
  next hsame =>
  split at h
  · cases h
  · cases h
  · simp only [SettlePlan.write.injEq] at h
    exact ⟨h.symm, row, hrow, by simpa using hsame⟩

theorem SettleCall.of_plan {c : SettleCall} {read read' : Tables} (h : c.plan read read' = .write r) :
    r.ask = c.ask ∧ ∃ u, (u = read ∨ u = read') ∧
      ∃ row, Table.find Receipt.key u.receipts (r.batchId, r.message.messageId) = some row ∧
        row.sameClaim r.message = true := by
  cases c with
  | message q =>
    obtain ⟨rfl, hrow⟩ := SettleRequest.of_plan h
    exact ⟨rfl, read, Or.inl rfl, hrow⟩
  | registered q =>
    simp only [SettleCall.plan, RegisteredRequest.plan] at h
    split at h
    · cases h
    split at h
    · cases h
    split at h
    · cases h
    split at h
    · cases h
    · cases h
    · obtain ⟨rfl, hrow⟩ := SettleRequest.of_plan h
      exact ⟨rfl, read', Or.inr rfl, hrow⟩

/-- Every earlier receipt is still there. -/
def Host.Recorded (s : Host) : Prop := ∀ t ∈ s.past, t.Keeps s.tables

theorem Host.Recorded.read (h : s.Recorded) (i : ℕ) : (s.read i).Keeps s.tables := by
  rw [Host.read, List.getD_eq_getElem?_getD]
  cases hi : s.past[i]? with
  | none => exact Tables.Keeps.refl _
  | some t => exact h t (List.mem_of_getElem? hi)

theorem sameClaim_iff {r : Receipt} :
    r.sameClaim c = true ↔ r.toIdentity = c.toIdentity ∧ r.leaseToken = c.leaseToken ∧
      r.messageId = c.messageId ∧ r.attempts = c.attempts ∧ r.policy = c.policy := by
  simp [Receipt.sameClaim]

/-- A call that runs its batch finds the receipt of its message. -/
theorem find_of_plan (hkeys : Registered s.tables) (h : s.Recorded) {c : SettleCall}
    (hplan : c.plan (s.read i) (s.read j) = .write r) :
    ∃ row, Table.find Receipt.key s.tables.receipts (r.batchId, r.message.messageId) = some row ∧
      row.sameClaim r.message = true := by
  obtain ⟨-, u, hu, row, hrow, hsame⟩ := SettleCall.of_plan hplan
  have hkeeps : u.Keeps s.tables := by
    rcases hu with rfl | rfl
    · exact h.read i
    · exact h.read j
  obtain ⟨hmem, hkey⟩ := Table.find_some hrow
  obtain ⟨row', hrow', hclaim, -⟩ := hkeeps row hmem
  refine ⟨row', ?_, ?_⟩
  · rw [Table.find_eq_some_iff hkeys.keys]
    exact ⟨hrow', by rw [← hkey, Receipt.key, hclaim]; rfl⟩
  · rw [sameClaim_iff] at hsame ⊢
    rw [hclaim]
    exact hsame

/-- What a settlement of a batch message does: it replies from what it has read, or its batch
is refused, or its batch is committed. -/
theorem next_settle {c : SettleCall}
    (h : queues.next s (.settle c i j millis deadLetterId clocks acknowledged) = some s') :
    (∃ reply, c.plan (s.read i) (s.read j) = .reply reply ∧
      s' = { s with answers := s.answers ++ [c.answer reply] }) ∨
    ∃ r, c.plan (s.read i) (s.read j) = .write r ∧
      (s' = { s with waiting := s.waiting ++ [r] } ∨
      ∃ t n, settleBatch r.batchId r.message r.decision r.token millis deadLetterId
          (s.tables.ticked clocks) = some (t, n) ∧
        (s' = { s.moved t with waiting := s.waiting ++ [r] } ∨
        s' = { s.moved t with
          answers := s.answers ++ [r.answer (if [n] = [1] then .settled else .unavailable)] })) := by
  simp only [queues, Host.next] at h
  split at h
  swap
  · cases h
  split at h
  · next reply hplan =>
    exact Or.inl ⟨reply, hplan, (Option.some.inj h).symm⟩
  next r hplan =>
  refine Or.inr ⟨r, hplan, ?_⟩
  split at h
  · next t _ hcommit =>
    obtain ⟨n, hrun, rfl⟩ := Tables.commit_singleton hcommit
    refine Or.inr ⟨t, n, hrun, ?_⟩
    split at h
    · exact Or.inr (Option.some.inj h).symm
    · exact Or.inl (Option.some.inj h).symm
  · exact Or.inl (Option.some.inj h).symm

/-- A settled receipt of the call's message, with the settlement it asked for. -/
def Tables.Grants (t : Tables) (a : Ask) : Prop :=
  ∃ r ∈ t.receipts, r.key = (a.batchId, a.messageId) ∧
    ∃ s, r.state = .settled s ∧ s.asked a.token a.decision r.policy.retryDelaySeconds = true

theorem Tables.Grants.mono (h : t.Grants a) (hkeeps : t.Keeps t') : t'.Grants a := by
  obtain ⟨r, hr, hkey, sett, hstate, hasked⟩ := h
  obtain ⟨r', hr', -, hsame⟩ := hkeeps r hr
  obtain rfl := hsame (by rw [hstate]; simp)
  exact ⟨r', hr', hkey, sett, hstate, hasked⟩

/-- **A committed settlement.**  The receipt was pending, what it records has become of the
message, and it is what the call asked for. -/
theorem settled_of_settleBatch (hm : (t.messages.map Message.key).Nodup) {row : Receipt}
    (hrow : Table.find Receipt.key t.receipts (r.batchId, r.message.messageId) = some row)
    (hsame : row.sameClaim r.message = true)
    (h : settleBatch r.batchId r.message r.decision r.token millis deadLetterId t = some (t', n)) :
    n = 1 ∧ row.state = .pending ∧ ∃ sett, row.Applied sett t t' ∧
      sett.asked r.token r.decision row.policy.retryDelaySeconds = true ∧
      t'.receipts = Table.put Receipt.key { row with state := .settled sett } t.receipts := by
  obtain ⟨hone, hpending, hadmits, ⟨v, u, k, hv, hcustody, heffect, hmessages⟩, hreceipts⟩ :=
    settleBatch_cases hrow h
  rw [sameClaim_iff] at hsame
  obtain ⟨hid, htoken, hmessage, hattempts, hpolicy⟩ := hsame
  simp only [BatchClaim.admits, Bool.and_eq_true] at hadmits
  obtain ⟨⟨-, hdead⟩, hlive⟩ := hadmits
  obtain ⟨⟨m, hmem, hkey, hlease, hdeliveries, hpol⟩, hserves⟩ := BatchClaim.of_live hlive
  refine ⟨hone, hpending, _, ⟨m, hmem, hkey, hlease, hdeliveries, ?_, ?_⟩, ?_, hreceipts⟩
  · split at hdead
    · next hcond => exact ⟨fun _ => ⟨hcond.1, hcond.2.1, hcond.2.2⟩, fun _ => hdead⟩
    · next hcond =>
      rw [Option.isNone_iff_eq_none] at hdead
      rw [hdead]
      exact ⟨(by simp), fun hall => absurd hall hcond⟩
  · have hclaim : r.message.isClaimOf m = true := by
      have hmid : m.messageId = r.message.messageId := (congrArg Prod.snd hkey).trans hmessage
      simp only [ClaimedMessage.isClaimOf, ClaimedMessage.isLeaseOf, Bool.and_eq_true,
        decide_eq_true_eq]
      exact ⟨⟨⟨hmid, by rw [← htoken, ← hid]; exact hlease⟩, hdeliveries.trans hattempts⟩,
        by rw [← hpolicy]; exact hpol⟩
    have hcustody' : v.inCustody r.message.toIdentity [.active, .retiring] = true := by
      rw [Tables.inCustody, hcustody, ← hid]
      exact hserves
    have hbecomes := messages_of_effect r.token (b := row.toBatchClaim)
      (by rw [hv]; exact hm) (by rw [hv]; exact hmem) hclaim hcustody' hattempts hpolicy heffect
    rw [hv, ← hmessages] at hbecomes
    exact hbecomes
  · unfold Settlement.asked settlementOf Decision.effectiveDelay Decision.delay
    rw [decide_eq_true_eq, hpolicy]
    refine ⟨rfl, rfl, ?_⟩
    cases r.decision.outcome with
    | ack => rfl
    | retry => rfl

/-! ### Exactly once -/

/-- A step that settles the receipt of one message. -/
def Settles (a : Ask) (t t' : Tables) : Prop :=
  ∃ r ∈ t.receipts, r.key = (a.batchId, a.messageId) ∧ r.state = .pending ∧
    ∃ sett, r.Applied sett t t' ∧
      sett.asked a.token a.decision r.policy.retryDelaySeconds = true ∧
      t'.receipts = Table.put Receipt.key { r with state := .settled sett } t.receipts

theorem keeps_of_settles (hkeys : (t.receipts.map Receipt.key).Nodup) (h : Settles a t t') :
    t.Keeps t' := by
  obtain ⟨r, hr, -, hpending, sett, -, -, hreceipts⟩ := h
  intro x hx
  by_cases hk : x.key = r.key
  · obtain rfl := Table.eq_of_key hkeys hx hr hk
    refine ⟨{ x with state := .settled sett }, ?_, rfl, fun hne => absurd hpending hne⟩
    rw [hreceipts]
    exact Table.mem_put_self hx rfl
  · refine ⟨x, ?_, rfl, fun _ => rfl⟩
    rw [hreceipts]
    exact Table.mem_put_of_ne hx hk

theorem grants_of_settles (h : Settles a t t') : t'.Grants a := by
  obtain ⟨r, hr, hkey, -, sett, -, hasked, hreceipts⟩ := h
  refine ⟨{ r with state := .settled sett }, ?_, hkey, sett, rfl, hasked⟩
  rw [hreceipts]
  exact Table.mem_put_self hr rfl

section

variable (hr : Registered s.tables) (hm : (s.tables.messages.map Message.key).Nodup)
  (hrec : s.Recorded)

include hr hm hrec

/-- A settlement of a batch message settles its receipt, or leaves the tables. -/
theorem settles_of_next {c : SettleCall}
    (h : queues.next s (.settle c i j millis deadLetterId clocks acknowledged) = some s') :
    s'.tables = s.tables ∧ s'.past = s.past ∨
      Settles c.ask s.tables s'.tables ∧ s'.past = s.past ++ [s'.tables] := by
  rcases next_settle h with ⟨_, -, rfl⟩ | ⟨r, hplan, rfl | ⟨t, n, hrun, hs'⟩⟩
  · exact Or.inl ⟨rfl, rfl⟩
  · exact Or.inl ⟨rfl, rfl⟩
  right
  obtain ⟨hmessages, -, -, hreceipts, -⟩ := ticked_fields s.tables clocks
  have hask := (SettleCall.of_plan hplan).1
  obtain ⟨row, hrow, hsame⟩ := find_of_plan hr hrec hplan
  obtain ⟨-, hpending, sett, happlied, hasked, hput⟩ :=
    settled_of_settleBatch (by rw [hmessages]; exact hm) (by rw [hreceipts]; exact hrow) hsame hrun
  have htables : s'.tables = t ∧ s'.past = s.past ++ [t] := by
    rcases hs' with rfl | rfl <;> exact ⟨rfl, rfl⟩
  rw [htables.1]
  refine ⟨⟨row, (Table.find_some hrow).1, ?_, hpending, sett, ?_, ?_, ?_⟩, htables.2⟩
  · rw [(Table.find_some hrow).2, ← hask]
    rfl
  · unfold BatchClaim.Applied at happlied ⊢
    rw [hmessages] at happlied
    exact happlied
  · rw [← hask]
    exact hasked
  · rw [hput, hreceipts]

theorem keeps_of_next {a : Action} (h : queues.next s a = some s') :
    s.tables.Keeps s'.tables := by
  cases a with
  | call =>
    obtain ⟨rs, hrs⟩ := receipts_of_call h
    exact fun r hmem => ⟨r, by rw [hrs]; exact List.mem_append_left rs hmem, rfl, fun _ => rfl⟩
  | settle =>
    rcases settles_of_next hr hm hrec h with ⟨hsame, -⟩ | ⟨hsettles, -⟩
    · rw [hsame]
      exact Tables.Keeps.refl _
    · exact keeps_of_settles hr.keys hsettles
  | reply k =>
    simp only [queues, Host.next, Option.map_eq_some_iff] at h
    obtain ⟨r, -, rfl⟩ := h
    exact Tables.Keeps.refl _

end

theorem recorded_of_reachable (h : queues.Reachable s) : s.Recorded := by
  refine Machine.Reachable.invariant (P := Host.Recorded) ?_ ?_ h
  · intro t ht
    rw [List.mem_singleton.mp ht]
    exact Tables.Keeps.refl _
  intro s a s' hs hrec hn
  have hkeeps := keeps_of_next (registered_of_reachable hs) (conserved_of_reachable hs).keys hrec hn
  intro t ht
  rcases (shift_of_next hn).2 with ⟨hpast, -⟩ | hpast
  · rw [hpast] at ht
    exact (hrec t ht).trans hkeeps
  · rw [hpast] at ht
    rcases Table.mem_insert.mp ht with ht | rfl
    · exact (hrec t ht).trans hkeeps
    · exact Tables.Keeps.refl _

theorem grants_of_plan {c : SettleCall} {read read' : Tables}
    (h : c.plan read read' = .reply .settled) : read.Grants c.ask := by
  cases c with
  | message q =>
    simp only [SettleCall.plan, SettleRequest.plan] at h
    split at h
    · cases h
    split at h
    · cases h
    split at h
    · cases h
    split at h <;> cases h
  | registered q =>
    simp only [SettleCall.plan, RegisteredRequest.plan] at h
    split at h
    · cases h
    split at h
    · cases h
    next row hrow =>
    split at h
    · cases h
    split at h
    · next sett hstate =>
      split at h
      · next hasked =>
        exact ⟨row, (Table.find_some hrow).1, (Table.find_some hrow).2, sett, hstate, hasked⟩
      · cases h
    · cases h
    · unfold SettleRequest.plan at h
      split at h
      · cases h
      split at h
      · cases h
      split at h
      · cases h
      split at h <;> cases h

theorem grants_of_reread (h : r.reread t = .settled) : t.Grants r.ask := by
  unfold SettleRequest.reread at h
  split at h
  · cases h
  next row hrow =>
  split at h
  · cases h
  next hsame =>
  simp only [Bool.not_eq_true', Bool.not_eq_false] at hsame
  have hpolicy := (sameClaim_iff.mp hsame).2.2.2.2
  split at h
  · next sett hstate =>
    split at h
    · next hasked =>
      refine ⟨row, (Table.find_some hrow).1, (Table.find_some hrow).2, sett, hstate, ?_⟩
      rw [hpolicy]
      exact hasked
    · cases h
  · cases h

theorem answered_of_reachable (h : queues.Reachable s) :
    ∀ a ∈ s.answers, a.reply = .settled → s.tables.Grants a.ask := by
  refine Machine.Reachable.invariant
    (P := fun s : Host => ∀ a ∈ s.answers, a.reply = .settled → s.tables.Grants a.ask) ?_ ?_ h
  · intro a ha
    cases ha
  intro s a s' hs ih hn
  have hrec := recorded_of_reachable hs
  have hkeeps := keeps_of_next (registered_of_reachable hs) (conserved_of_reachable hs).keys hrec hn
  have hold : ∀ x ∈ s.answers, x.reply = .settled → s'.tables.Grants x.ask :=
    fun x hx hreply => (ih x hx hreply).mono hkeeps
  cases a with
  | call =>
    simp only [queues, Host.next, Option.bind_eq_some_iff, Option.map_eq_some_iff] at hn
    obtain ⟨_, -, r, -, rfl⟩ := hn
    exact hold
  | settle c i =>
    have hcommitted := settles_of_next (registered_of_reachable hs)
      (conserved_of_reachable hs).keys hrec hn
    rcases next_settle hn with ⟨reply, hplan, rfl⟩ | ⟨r, hplan, rfl | ⟨t, n, -, rfl | rfl⟩⟩
    · intro x hx hreply
      rcases List.mem_append.mp hx with hx | hx
      · exact hold x hx hreply
      · rw [List.mem_singleton.mp hx] at hreply ⊢
        have hreply : reply = .settled := by cases c <;> exact hreply
        rw [hreply] at hplan
        have hgrants := (grants_of_plan hplan).mono (hrec.read i)
        cases c <;> exact hgrants
    · exact hold
    · exact hold
    · intro x hx hreply
      rcases Table.mem_insert.mp hx with hx | rfl
      · exact hold x hx hreply
      · rcases hcommitted with ⟨-, hpast⟩ | ⟨hsettles, -⟩
        · -- the batch was committed
          exact absurd (congrArg List.length hpast) (by simp [Host.moved])
        · have hgrants := grants_of_settles hsettles
          rw [← (SettleCall.of_plan hplan).1] at hgrants
          exact hgrants
  | reply k =>
    simp only [queues, Host.next, Option.map_eq_some_iff] at hn
    obtain ⟨r, -, rfl⟩ := hn
    intro x hx hreply
    rcases List.mem_append.mp hx with hx | hx
    · exact hold x hx hreply
    · rw [List.mem_singleton.mp hx] at hreply ⊢
      exact grants_of_reread hreply

/-- What holds of a state, of each step and of each run from it. -/
structure ExactlyOnce (s : Host) : Prop where
  /-- There is one receipt of a message in a batch. -/
  unique : (s.tables.receipts.map Receipt.key).Nodup
  /-- A receipt that is not pending never changes again. -/
  final : ∀ s', queues.Path s s' → ∀ r ∈ s.tables.receipts, r.state ≠ .pending →
    r ∈ s'.tables.receipts
  /-- Each step keeps every receipt, but for one that a settlement of its message settles,
  with what it records of the message. -/
  step : ∀ a s', queues.next s a = some s' → ∀ r ∈ s.tables.receipts,
    r ∈ s'.tables.receipts ∨
      ∃ c i j millis deadLetterId clocks acknowledged,
        a = .settle c i j millis deadLetterId clocks acknowledged ∧
        r.key = (c.ask.batchId, c.ask.messageId) ∧ r.state = .pending ∧
        ∃ sett, { r with state := .settled sett } ∈ s'.tables.receipts ∧
          r.Applied sett s.tables s'.tables ∧
          sett.asked c.ask.token c.ask.decision r.policy.retryDelaySeconds = true
  /-- A settlement settles the receipt of its message, or leaves all tables as they are. -/
  call : ∀ c i j millis deadLetterId clocks acknowledged s',
    queues.next s (.settle c i j millis deadLetterId clocks acknowledged) = some s' →
      s'.tables = s.tables ∨ Settles c.ask s.tables s'.tables
  /-- The reply is `settled` only to a call that asked for what the receipt says. -/
  reply : ∀ a ∈ s.answers, a.reply = .settled → s.tables.Grants a.ask

/-- What each step keeps, a path keeps. -/
theorem keeps_of_path (hs : queues.Reachable s) (h : queues.Path s s') :
    s.tables.Keeps s'.tables := by
  refine Machine.Path.invariant (P := fun u : Host => s.tables.Keeps u.tables) ?_ hs h
    (Tables.Keeps.refl _)
  intro u a u' hu hkeeps hn
  exact hkeeps.trans (keeps_of_next (registered_of_reachable hu) (conserved_of_reachable hu).keys
    (recorded_of_reachable hu) hn)

/-- **The settlement of a batch message is exactly-once.** -/
theorem exactlyOnce_of_reachable (h : queues.Reachable s) : ExactlyOnce s where
  unique := (registered_of_reachable h).keys
  final s' hpath r hr hne := by
    obtain ⟨_, hr', -, hsame⟩ := keeps_of_path h hpath r hr
    rw [← hsame hne]
    exact hr'
  step a s' hn r hr := by
    cases a with
    | call =>
      obtain ⟨rs, hrs⟩ := receipts_of_call hn
      exact Or.inl (by rw [hrs]; exact List.mem_append_left rs hr)
    | settle c i j millis deadLetterId clocks acknowledged =>
      rcases settles_of_next (registered_of_reachable h) (conserved_of_reachable h).keys
        (recorded_of_reachable h) hn with ⟨hsame, -⟩ | ⟨hsettles, -⟩
      · exact Or.inl (by rw [hsame]; exact hr)
      obtain ⟨x, hx, hkey, hpending, sett, happlied, hasked, hreceipts⟩ := hsettles
      by_cases hk : r.key = x.key
      · obtain rfl := Table.eq_of_key (registered_of_reachable h).keys hr hx hk
        refine Or.inr ⟨c, i, j, millis, deadLetterId, clocks, acknowledged, rfl, hkey, hpending,
          sett, ?_, happlied, hasked⟩
        rw [hreceipts]
        exact Table.mem_put_self hr rfl
      · refine Or.inl ?_
        rw [hreceipts]
        exact Table.mem_put_of_ne hr hk
    | reply k =>
      simp only [queues, Host.next, Option.map_eq_some_iff] at hn
      obtain ⟨x, -, rfl⟩ := hn
      exact Or.inl hr
  call c i j millis deadLetterId clocks acknowledged s' hn := by
    rcases settles_of_next (registered_of_reachable h) (conserved_of_reachable h).keys
      (recorded_of_reachable h) hn with ⟨hsame, -⟩ | ⟨hsettles, -⟩
    · exact Or.inl hsame
    · exact Or.inr hsettles
  reply := answered_of_reachable h

/-! ### A settlement whose acknowledgement is lost -/

/-- A consumer and its message, for the runs below. -/
def settledConsumer : ConsumerGeneration := { transferConsumer with policy := ⟨3, 30, none⟩ }

def settledMessage : ClaimedMessage where
  toIdentity := settledConsumer.toIdentity
  leaseToken := "lease"
  messageId := "m"
  body := [1]
  enqueuedAt := 1000
  visibleAt := 1000
  attempts := 1
  policy := settledConsumer.policy

/-- A message is claimed and registered; its settlement is committed but not acknowledged, a
second caller settles it otherwise, and the first reads the receipt again. -/
def settledRun : List Action :=
  [.call (.activateConsumer settledConsumer 0) [] true,
   .call (.admitBatch ⟨"jobs", 86400, 0⟩ [{ messageId := "m", body := [1] }] 1000) [] true,
   .call (.claim { toIdentity := settledConsumer.toIdentity, limit := 1, leaseMillis := 1000 } 2000
    ⟨2, 2, 2, 2⟩ { lease := "lease" }) [] true,
   .call (.registerSettlementBatch "batch" [settledMessage] none) [] true,
   .settle (.message ⟨"batch", settledMessage, { outcome := .retry }, "first"⟩) 4 4 2500 "copy" []
    false,
   .settle (.message ⟨"batch", settledMessage, { outcome := .ack }, "second"⟩) 5 5 2600 "copy" []
    true,
   .reply 0]

theorem exactlyOnce_of_reachable_settledRun :
    ∃ s, queues.Reachable s ∧ s.answers.map Answer.reply = [.alreadySettled, .settled] ∧
      ExactlyOnce s := by
  obtain ⟨s, hs, hp⟩ := Machine.exists_reachable_of_run (M := queues) settledRun
    (fun s => decide (s.answers.map Answer.reply = [.alreadySettled, .settled])) (by decide +kernel)
  exact ⟨s, hs, of_decide_eq_true hp, exactlyOnce_of_reachable hs⟩

end Takoserver.Queue
