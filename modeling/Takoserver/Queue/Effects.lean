import Takoserver.Queue.Calls

/-!
# What a statement can do to a queue

Every statement of every call does nothing, or finitely many of the effects listed here, each
with what its conditions say of the rows it touches.  What holds of any interleaving of calls
is proved from this list alone.

Some calls may take a message, or refund it, whatever execution has bound its lease; a claim
gives leases, and a reservation makes an execution: a `Licence` says which.
-/

namespace Takoserver.Queue

/-! ### Why a message may go -/

/-- The attempts of the message are used up under the policy of its lease. -/
def Message.exhausted (m : Message) : Bool :=
  m.lease.any fun l => decide (1 + l.policy.maxRetries ≤ m.deliveries)

/-- Where a message goes after its last attempt. -/
def Message.deadLetterQueue (m : Message) : Option QueueTarget :=
  m.lease.bind fun l => l.policy.deadLetterQueue

/-- The reason is one for which the message may go for good: its lease is the one that is
acknowledged, its retention is over, or its attempts are used up and there is no dead-letter
queue. -/
def Reason.justifies (m : Message) : Reason → Bool
  | .ack token identity => m.leasedUnder token identity
  | .expiry millis => decide (m.expiresAt ≤ millis)
  | .exhaustion => m.exhausted && m.deadLetterQueue.isNone

/-- A receipt of the message, under its lease, is being settled. -/
def Tables.settles (t : Tables) (m : Message) : Prop :=
  ∃ r ∈ t.receipts, (∃ s, r.state = .settling s) ∧ r.messageId = m.messageId ∧
    m.leasedUnder r.leaseToken r.toIdentity = true

/-- The messages a call may delete or return, and those it may refund, whatever execution has
bound their leases; the leases it may give a message, and the reservations it may make. -/
structure Licence where
  takes : Message → Prop
  refunds : Message → Prop
  leases : Message → Lease → Prop
  reserves : Reservation → Prop

instance : LE Licence :=
  ⟨fun lic lic' => (∀ m, lic.takes m → lic'.takes m) ∧ (∀ m, lic.refunds m → lic'.refunds m) ∧
    (∀ m l, lic.leases m l → lic'.leases m l) ∧ ∀ r, lic.reserves r → lic'.reserves r⟩

/-- Everything. -/
def Licence.any : Licence := ⟨fun _ => True, fun _ => True, fun _ _ => True, fun _ => True⟩

/-- Nothing. -/
def Licence.none : Licence := ⟨fun _ => False, fun _ => False, fun _ _ => False, fun _ => False⟩

theorem Licence.le_any (lic : Licence) : lic ≤ Licence.any :=
  ⟨fun _ _ => trivial, fun _ _ => trivial, fun _ _ _ => trivial, fun _ _ => trivial⟩

theorem Licence.le_refl (lic : Licence) : lic ≤ lic :=
  ⟨fun _ => id, fun _ => id, fun _ _ => id, fun _ => id⟩

/-- No execution that was sent keeps the message, unless it is being settled. -/
def Tables.takes (t : Tables) (lic : Licence) (m : Message) : Prop :=
  lic.takes m ∨ t.unsent m = true ∨ t.settles m

/-- An execution that can no longer be sent has bound the lease of the message. -/
def Tables.dooms (t : Tables) (m : Message) : Prop :=
  ∃ x ∈ t.messages, x.key = m.key ∧ ∃ e ∈ t.executions, e.binds x = true ∧ e.doomed t.now = true

/-! ### The effects -/

variable (lic : Licence)

/-- How one statement updates a message. -/
inductive Turn (t : Tables) (m : Message) : Message → Prop
  | leased (l : Lease) (d : ℕ) (hm : m.lease = none) (hd : m.deliveries ≤ d)
      (hc : t.inCustody ⟨m.queueId, l.consumerId, l.generation⟩ [.active] = true)
      (hl : lic.leases m l) :
      Turn t m { m with deliveries := d, lease := some l }
  | unleased (v : Instant) (h : t.takes lic m) : Turn t m (m.unleased v)
  | renewed (l : Lease) (expiresAt : Instant) (hm : m.lease = some l) :
      Turn t m { m with lease := some { l with expiresAt } }

/-- How one statement updates an execution. -/
inductive Execution.Turn (t : Tables) (e : Execution) : Execution → Prop
  | refused (h : e.state ∈ [.reserved, .registered]) :
      Execution.Turn t e { e with state := .preEffectRefused }
  | registered (count : ℕ) (h : e.state = .reserved) (hnow : t.now < e.reservationUntil)
      (hpos : 0 < count)
      (hcount : count = t.receipts.countP fun x => decide (x.batchId = e.batchId ∧
        x.toIdentity = e.toIdentity ∧ e.leaseToken = some x.leaseToken)) :
      Execution.Turn t e { e with state := .registered, messageCount := some count }
  | authorized (selected : SelectedVersion) (h : e.state = .registered)
      (hnow : t.now < e.reservationUntil) :
      Execution.Turn t e
        { e with state := .sendAuthorized, selected := some selected, sendAuthorizedAt := some t.now }
  | retired (digest : String) (h : e.state = .sendAuthorized) :
      Execution.Turn t e { e with state := .retired, retirementReceiptDigest := some digest }

/-- One change of messages, notices or executions, or a new receipt. -/
inductive Effect (t : Tables) : Tables → Prop
  | admitted (m : Message) (hkey : t.message m.queueId m.messageId = none) (hlease : m.lease = none)
      (horigin : m.origin = t.admitted.length) :
      Effect t { t with
        messages := t.messages ++ [m]
        admitted := t.admitted ++ [⟨m.queueId, m.body⟩] }
  | turned (p : Message → Bool) (f : Message → Message)
      (h : ∀ m ∈ t.messages, p m = true → Turn lic t m (f m)) :
      Effect t { t with messages := Table.update p f t.messages }
  | refunded (p : Message → Bool) (v : Instant)
      (h : ∀ m ∈ t.messages, p m = true → lic.refunds m ∨ t.dooms m) :
      Effect t { t with
        messages := Table.update p (Message.refunded v) t.messages
        refunds := t.refunds ++ t.messages.filter p }
  | deleted (why : Reason) (p : Message → Bool)
      (h : ∀ m ∈ t.messages, p m = true → why.justifies m = true ∧ t.takes lic m) :
      Effect t { t with
        messages := Table.delete p t.messages
        deleted := t.deleted ++ (t.messages.filter p).map fun m => (m, why) }
  | transferred (p : Message → Bool) (m : Message) (l : Lease) (target : QueueTarget)
      (deadLetterId : String) (millis : Instant) (hm : m ∈ t.messages) (hp : p m = true)
      (hkey : ∀ x ∈ t.messages, p x = true → x.key = m.key) (hl : m.lease = some l)
      (hx : m.exhausted = true) (htarget : m.deadLetterQueue = some target)
      (hfree : t.message target.queueId deadLetterId = none)
      (hc : t.inCustody ⟨m.queueId, l.consumerId, l.generation⟩ [.active, .retiring] = true)
      (htakes : t.takes lic m) :
      Effect t { t.upsertNotice
          ⟨⟨m.queueId, l.consumerId, l.generation⟩, target.queueId, deadLetterId⟩ with
        messages := Table.delete p t.messages ++ [m.deadLetter target deadLetterId millis]
        copied := t.copied ++ [(m, m.deadLetter target deadLetterId millis)]
        deleted := t.deleted ++ (t.messages.filter p).map fun m => (m, .exhaustion) }
  | unnoticed (n : Notice) :
      Effect t { t with notices := Table.delete (fun m => decide (m = n)) t.notices }
  | registered (b : BatchClaim) (h : b.registrable t = true) (hx : b.executionAllows t = true) :
      Effect t { t with receipts := t.receipts ++ [{ toBatchClaim := b, state := .pending }] }
  | reserved (e : Execution) (h : ∀ x ∈ t.executions, x.batchId ≠ e.batchId)
      (hstate : e.state = .reserved) (htoken : e.leaseToken = none)
      (hc : t.inCustody e.toIdentity [.active] = true) (hr : lic.reserves e.toReservation) :
      Effect t { t with executions := t.executions ++ [e] }
  | bound (batchId token : String) (p : Execution → Bool)
      (h : ∀ e ∈ t.executions, p e = true →
        e.batchId = batchId ∧ e.state = .reserved ∧ e.leaseToken = none)
      (hfresh : ∀ e ∈ t.executions, p e = true → ∀ x ∈ t.executions,
        x.leaseToken = some token → x.toIdentity ≠ e.toIdentity) :
      Effect t { t with
        executions := Table.update p (fun e => { e with leaseToken := some token }) t.executions }
  | executed (p : Execution → Bool) (f : Execution → Execution)
      (h : ∀ e ∈ t.executions, p e = true → e.Turn t (f e)) :
      Effect t { t with executions := Table.update p f t.executions }

/-- One change of a receipt. -/
inductive Marking (t : Tables) : Tables → Prop
  | settling (r : Receipt) (s : Settlement) (hr : r ∈ t.receipts) (hstate : r.state = .pending)
      (h : r.admits s t = true) (hx : r.executionSettles t = true) :
      Marking t { t with receipts := Table.put Receipt.key { r with state := .settling s } t.receipts }
  | settled (r : Receipt) (s : Settlement) (hr : r ∈ t.receipts) (hstate : r.state = .settling s)
      (h : r.effected s t = true) :
      Marking t { t with receipts := Table.put Receipt.key { r with state := .settled s } t.receipts }

/-- How one statement updates a custody row. -/
inductive Custody.Turn (t : Tables) (c : Custody) : Custody → Prop
  | retiring (millis : Instant) (h : c.state = .active) :
      Custody.Turn t c { c with state := .retiring, retirementStartedAt := some millis }
  | replaced (value : ConsumerGeneration)
      (h : c.state = .tombstone ∨ (c.state = .retiring ∧ t.drained c.toIdentity = true))
      (hqueue : value.queueId = c.queueId) (hgeneration : value.generation = c.generation + 1) :
      Custody.Turn t c (c.replaced value)
  | tombstone (h : c.state = .retiring) (hdrained : t.drained c.toIdentity = true) :
      Custody.Turn t c { c with state := .tombstone, retirementStartedAt := none }

/-- One change of a custody row. -/
inductive Succession (t : Tables) : Tables → Prop
  | begun (value : ConsumerGeneration) (hnone : t.custodyOf value.queueId = none)
      (hlease : t.noneLeased value.queueId = true) (hgeneration : value.generation = 1) :
      Succession t { t with
        custody := t.custody ++
          [{ toConsumerGeneration := value, state := .active, retirementStartedAt := none }] }
  | turned (p : Custody → Bool) (f : Custody → Custody)
      (h : ∀ c ∈ t.custody, p c = true → c.Turn t (f c)) :
      Succession t { t with custody := Table.update p f t.custody }

/-- Finitely many effects. -/
abbrev Effects : Tables → Tables → Prop := Relation.ReflTransGen (Effect lic)

variable {lic} {t t' : Tables} {n : ℕ}

theorem Effects.of (h : Effect lic t t') : Effects lic t t' := Relation.ReflTransGen.single h

/-! ### Statements on messages -/

variable {target : QueueTarget} {p : Tables → Message → Bool} {l : TerminalLease} {m row : Message}
  {deadLetterId : String} {millis : Instant} {identity : Identity} {read : Tables}
  {st : Statement Tables}

theorem effects_of_admission {acceptedAt : Instant} {a : Admission} :
    Statement.Within (Effect lic) (admissionStatement target acceptedAt a) := by
  intro t t' n h
  unfold admissionStatement insertMessage at h
  split at h
  · cases h
  · next hkey =>
    cases h
    exact Effects.of (Effect.admitted _ (Option.not_isSome_iff_eq_none.mp hkey) rfl rfl)

theorem effects_of_updateMessages {f : Message → Message}
    (hturn : ∀ m ∈ t.messages, p t m = true → Turn lic t m (f m))
    (h : updateMessages p f t = some (t', n)) : Effects lic t t' := by
  simp only [updateMessages, Option.some.injEq, Prod.mk.injEq] at h
  rw [← h.1]
  exact Effects.of (Effect.turned (p t) f hturn)

theorem effects_of_refundMessages {v : Instant}
    (hrefund : ∀ m ∈ t.messages, p t m = true → lic.refunds m ∨ t.dooms m)
    (h : refundMessages p v t = some (t', n)) : Effects lic t t' := by
  simp only [refundMessages, Option.some.injEq, Prod.mk.injEq] at h
  rw [← h.1]
  exact Effects.of (Effect.refunded (p t) v hrefund)

theorem effects_of_deleteMessages {why : Reason}
    (hwhy : ∀ m ∈ t.messages, p t m = true → why.justifies m = true ∧ t.takes lic m)
    (h : deleteMessages why p t = some (t', n)) : Effects lic t t' := by
  simp only [deleteMessages, Option.some.injEq, Prod.mk.injEq] at h
  rw [← h.1]
  exact Effects.of (Effect.deleted why (p t) hwhy)

/-! ### The end of a lease -/

/-- What the conditions of a terminal lease say of a message. -/
theorem TerminalLease.of_guards (h : l.guards t m = true) :
    m.key = (l.queueId, l.messageId) ∧ m.deliveries = l.attempts ∧
      t.inCustody l.toIdentity [.active, .retiring] = true ∧
      (l.reapOnly = true → t.unsent m = true) ∧
      ∃ x, m.lease = some x ∧ x.token = l.leaseToken ∧ x.policy = l.policy ∧
        (⟨m.queueId, x.consumerId, x.generation⟩ : Identity) = l.toIdentity := by
  cases hlease : m.lease with
  | none => simp [TerminalLease.guards, Message.leasedUnder, hlease] at h
  | some x =>
    simp only [TerminalLease.guards, Message.leasedUnder, hlease, Option.any_some,
      Bool.and_eq_true, decide_eq_true_eq, Bool.or_eq_true, Bool.not_eq_true'] at h
    obtain ⟨⟨⟨⟨⟨hid, hq, ht, hc, hg⟩, hd⟩, hp, -⟩, hcustody⟩, hreap⟩ := h
    refine ⟨by rw [Message.key, hq, hid], hd, hcustody, ?_, x, rfl, ht, hp, ?_⟩
    · intro hl
      rcases hreap with hreap | hreap
      · rw [hl] at hreap
        cases hreap
      · exact hreap
    · rw [hq, hc, hg]

theorem TerminalLease.exhausted_of_guards (hx : 1 + l.policy.maxRetries ≤ l.attempts)
    (h : l.guards t m = true) :
    m.exhausted = true ∧ m.deadLetterQueue = l.policy.deadLetterQueue := by
  obtain ⟨-, hd, -, -, x, hlease, -, hp, -⟩ := TerminalLease.of_guards h
  refine ⟨?_, by simp [Message.deadLetterQueue, hlease, hp]⟩
  simp only [Message.exhausted, hlease, Option.any_some, decide_eq_true_eq, hp, hd]
  exact hx

theorem TerminalLease.guards_of_none (h : m.lease = none) :
    l.guards t m = false := by
  simp [TerminalLease.guards, Message.leasedUnder, h]

theorem TerminalLease.guards_congr (l : TerminalLease) {u : Tables} (hc : u.custody = t.custody)
    (he : u.executions = t.executions) : l.guards u = l.guards t := by
  funext m
  simp only [TerminalLease.guards, Tables.inCustody, Tables.unsent, hc, he]

theorem TerminalLease.copy_cases (h : l.copy target deadLetterId millis t = some (t', n)) :
    (t' = t ∧ ∀ m ∈ t.messages, l.guards t m = false) ∨
      ∃ m, t.messages.find? (l.guards t) = some m ∧ t.message target.queueId deadLetterId = none ∧
        t' = { t with
          messages := t.messages ++ [m.deadLetter target deadLetterId millis]
          copied := t.copied ++ [(m, m.deadLetter target deadLetterId millis)] } := by
  unfold TerminalLease.copy at h
  split at h
  · next hnone =>
    simp only [Option.some.injEq, Prod.mk.injEq] at h
    exact Or.inl ⟨h.1.symm, fun m hm => by simpa using List.find?_eq_none.mp hnone m hm⟩
  · next m hm =>
    unfold insertMessage at h
    split at h
    · cases h
    · next hfree =>
      simp only [Option.some.injEq, Prod.mk.injEq] at h
      exact Or.inr ⟨m, hm, Option.not_isSome_iff_eq_none.mp hfree, h.1.symm⟩

theorem TerminalLease.notify_eq (h : l.notify target deadLetterId t = some (t', n)) :
    t' = if (t.messages.find? (l.guards t)).isSome then
      t.upsertNotice ⟨l.toIdentity, target.queueId, deadLetterId⟩ else t := by
  unfold TerminalLease.notify at h
  split at h
  all_goals
    next hfind =>
    simp only [Option.some.injEq, Prod.mk.injEq] at h
    rw [hfind, ← h.1]
    rfl

theorem deleteMessages_eq_self {why : Reason} (hno : ∀ m ∈ t.messages, p t m = false)
    (h : deleteMessages why p t = some (t', n)) :
    t' = t := by
  simp only [deleteMessages, Option.some.injEq, Prod.mk.injEq] at h
  have hdelete : Table.delete (p t) t.messages = t.messages := by
    rw [Table.delete, List.filter_eq_self]
    intro m hm
    rw [hno m hm]
    rfl
  have hfilter : t.messages.filter (p t) = [] :=
    List.filter_eq_nil_iff.mpr fun m hm => by rw [hno m hm]; exact Bool.false_ne_true
  rw [← h.1, hdelete, hfilter, List.map_nil, List.append_nil]

theorem updateMessages_eq_self {f : Message → Message} (hno : ∀ m ∈ t.messages, p t m = false)
    (h : updateMessages p f t = some (t', n)) :
    t' = t := by
  simp only [updateMessages, Option.some.injEq, Prod.mk.injEq] at h
  rw [← h.1, Table.update_eq_self hno]

theorem refundMessages_eq_self {v : Instant} (hno : ∀ m ∈ t.messages, p t m = false)
    (h : refundMessages p v t = some (t', n)) :
    t' = t := by
  simp only [refundMessages, Option.some.injEq, Prod.mk.injEq] at h
  have hfilter : t.messages.filter (p t) = [] :=
    List.filter_eq_nil_iff.mpr fun m hm => by rw [hno m hm]; exact Bool.false_ne_true
  rw [← h.1, Table.update_eq_self hno, hfilter, List.append_nil]

theorem transfer_cases (h : ((l.copy target deadLetterId millis).andThen
      ((l.notify target deadLetterId).andThen l.removal)) t = some (t', n)) :
    (t' = t ∧ ∀ m ∈ t.messages, l.guards t m = false) ∨
      ∃ m, m ∈ t.messages ∧ l.guards t m = true ∧ t.message target.queueId deadLetterId = none ∧
        t' = { t.upsertNotice ⟨l.toIdentity, target.queueId, deadLetterId⟩ with
          messages := Table.delete (l.guards t) t.messages ++
            [m.deadLetter target deadLetterId millis]
          copied := t.copied ++ [(m, m.deadLetter target deadLetterId millis)]
          deleted := t.deleted ++
            (t.messages.filter (l.guards t)).map fun m => (m, .exhaustion) } := by
  obtain ⟨u, _, hcopy, hrest⟩ := Statement.andThen_eq_some.mp h
  obtain ⟨v, _, hnotify, hremoval⟩ := Statement.andThen_eq_some.mp hrest
  rcases TerminalLease.copy_cases hcopy with ⟨rfl, hno⟩ | ⟨m, hfind, hfree, hu⟩
  · -- no message meets the conditions: none of the three statements does anything
    have hnone : u.messages.find? (l.guards u) = none :=
      List.find?_eq_none.mpr fun m hm => by rw [hno m hm]; exact Bool.false_ne_true
    have hv := TerminalLease.notify_eq hnotify
    rw [hnone] at hv
    obtain rfl : v = u := hv
    exact Or.inl ⟨deleteMessages_eq_self hno hremoval, hno⟩
  · have hguards : l.guards u = l.guards t :=
      l.guards_congr (by rw [hu]) (by rw [hu])
    have hfind' : u.messages.find? (l.guards u) = some m := by
      rw [hguards, hu, List.find?_append, hfind]
      rfl
    have hv := TerminalLease.notify_eq hnotify
    rw [hfind', Option.isSome_some, if_pos rfl] at hv
    have hguards' : l.guards v = l.guards t := by
      rw [← hguards]
      exact l.guards_congr (by rw [hv]; rfl) (by rw [hv]; rfl)
    -- the copy is not leased, so the removal passes it over
    have hout : l.guards t (m.deadLetter target deadLetterId millis) = false :=
      TerminalLease.guards_of_none rfl
    refine Or.inr ⟨m, List.mem_of_find?_eq_some hfind, List.find?_some hfind, hfree, ?_⟩
    simp only [TerminalLease.removal, deleteMessages, Option.some.injEq, Prod.mk.injEq] at hremoval
    rw [← hremoval.1, hguards', hv, hu]
    simp [Tables.upsertNotice, Table.delete, List.filter_append, hout]

theorem effects_of_transfer (hx : 1 + l.policy.maxRetries ≤ l.attempts)
    (htarget : l.policy.deadLetterQueue = some target)
    (htakes : ∀ m ∈ t.messages, l.guards t m = true → t.takes lic m)
    (h : ((l.copy target deadLetterId millis).andThen
      ((l.notify target deadLetterId).andThen l.removal)) t = some (t', n)) :
    Effects lic t t' := by
  rcases transfer_cases h with ⟨rfl, -⟩ | ⟨m, hm, hp, hfree, rfl⟩
  · exact Relation.ReflTransGen.refl
  obtain ⟨hkey, -, hc, -, x, hlease, -, -, hid⟩ := TerminalLease.of_guards hp
  obtain ⟨hexhausted, hqueue⟩ := TerminalLease.exhausted_of_guards hx hp
  have hsame : ∀ y ∈ t.messages, l.guards t y = true → y.key = m.key := fun y _ hy =>
    (TerminalLease.of_guards hy).1.trans hkey.symm
  have heffect := @Effect.transferred lic t (l.guards t) m x target deadLetterId millis
    hm hp hsame hlease hexhausted (hqueue.trans htarget) hfree (by rw [hid]; exact hc)
    (htakes m hm hp)
  rw [hid] at heffect
  exact Effects.of heffect

theorem effects_of_terminalLease (hx : 1 + l.policy.maxRetries ≤ l.attempts)
    (htakes : ∀ m ∈ t.messages, l.guards t m = true → t.takes lic m)
    (h : terminalLease l millis deadLetterId t = some (t', n)) : Effects lic t t' := by
  cases htarget : l.policy.deadLetterQueue with
  | none =>
    simp only [terminalLease, htarget, TerminalLease.removal] at h
    refine effects_of_deleteMessages ?_ h
    intro m hm hp
    obtain ⟨hexhausted, hqueue⟩ := TerminalLease.exhausted_of_guards hx hp
    refine ⟨?_, htakes m hm hp⟩
    simp [Reason.justifies, hexhausted, hqueue, htarget]
  | some =>
    simp only [terminalLease, htarget] at h
    exact effects_of_transfer hx htarget htakes h

theorem mem_of_terminalLease (hm : m ∈ t.messages) (hp : l.guards t m = false)
    (h : terminalLease l millis deadLetterId t = some (t', n)) : m ∈ t'.messages := by
  have hkept : m ∈ Table.delete (l.guards t) t.messages := Table.mem_delete.mpr ⟨hm, hp⟩
  cases htarget : l.policy.deadLetterQueue with
  | none =>
    simp only [terminalLease, htarget, TerminalLease.removal, deleteMessages, Option.some.injEq,
      Prod.mk.injEq] at h
    rw [← h.1]
    exact hkept
  | some =>
    simp only [terminalLease, htarget] at h
    rcases transfer_cases h with ⟨rfl, -⟩ | ⟨x, -, -, -, rfl⟩
    · exact hm
    · exact List.mem_append_left _ hkept

theorem terminalLease_eq_self (hno : ∀ m ∈ t.messages, l.guards t m = false)
    (h : terminalLease l millis deadLetterId t = some (t', n)) : t' = t := by
  cases htarget : l.policy.deadLetterQueue with
  | none =>
    simp only [terminalLease, htarget, TerminalLease.removal] at h
    exact deleteMessages_eq_self hno h
  | some =>
    simp only [terminalLease, htarget] at h
    rcases transfer_cases h with ⟨rfl, -⟩ | ⟨m, hm, hp, -⟩
    · rfl
    · rw [hno m hm] at hp
      cases hp

/-! ### Maintenance -/

theorem unsent_of_unleased (h : m.lease = none) : t.unsent m = true := by
  simp [Tables.unsent, Execution.binds, h]

theorem takes_of_unsent (h : t.unsent m = true) : t.takes lic m := Or.inr (Or.inl h)

/-- The end of the lease of a row that `reapExpiredLeases` has read. -/
def reapTerminal (identity : Identity) (row : Message) (l : Lease) : TerminalLease where
  toIdentity := identity
  messageId := row.messageId
  leaseToken := l.token
  attempts := row.deliveries
  policy := l.policy
  leaseExpiresAt := some l.expiresAt
  reapOnly := true

/-- The statements that `reapExpiredLeases` makes of a row. -/
inductive ReapStatement (identity : Identity) (millis : Instant) (row : Message) :
    Statement Tables → Prop
  | expire : ReapStatement identity millis row (expireReapedStatement identity millis row)
  | refuse (leaseToken : String) :
      ReapStatement identity millis row (refuseLeaseStatement identity leaseToken)
  | refund : ReapStatement identity millis row (refundReapedStatement millis row)
  | retry (retryAt : Instant) :
      ReapStatement identity millis row (retryReapedStatement identity millis retryAt row)
  | terminal (l : Lease) (deadLetterId : String) (hl : row.lease = some l)
      (hattempts : 1 + l.policy.maxRetries ≤ row.deliveries) :
      ReapStatement identity millis row
        (terminalLease (reapTerminal identity row l) millis deadLetterId)

theorem reapStatement_of_mem_reapRow {refused : List String} {lease : Lease}
    {execution : Option Execution} (hl : row.lease = some lease) :
    ∀ st ∈ (reapRow identity millis deadLetterId refused row lease execution).1,
      ReapStatement identity millis row st := by
  have hsettled : ∀ st ∈ (reapRow.settled identity millis deadLetterId refused row lease).1,
      ReapStatement identity millis row st := by
    intro st hst
    unfold reapRow.settled at hst
    split at hst
    · rw [List.mem_singleton.mp hst]
      exact ReapStatement.retry _
    · next =>
      rw [List.mem_singleton.mp hst]
      exact ReapStatement.terminal lease deadLetterId hl (by omega)
  intro st hst
  unfold reapRow at hst
  split at hst
  · rw [List.mem_singleton.mp hst]
    exact ReapStatement.expire
  cases execution with
  | none => exact hsettled st hst
  | some e =>
    dsimp only at hst
    split at hst
    · split at hst
      · cases hst
      · split at hst
        · rcases List.mem_cons.mp hst with rfl | hst
          · exact ReapStatement.refuse _
          · rw [List.mem_singleton.mp hst]
            exact ReapStatement.refund
        · rw [List.mem_singleton.mp hst]
          exact ReapStatement.refund
    · exact hsettled st hst

/-- A row that `reapExpiredLeases` has read was held by the generation, and its lease was over. -/
theorem of_mem_reapRows {limit : ℕ} (h : row ∈ reapRows identity millis limit read) :
    row.heldBy identity = true ∧ row.leaseExpiry ≤ millis := by
  have hmem := List.mem_of_mem_take h
  rw [List.mem_insertionSort, List.mem_filter] at hmem
  simp only [Bool.and_eq_true, decide_eq_true_eq] at hmem
  exact hmem.2.1

theorem reapStatement_of_mem {limit : ℕ} {ids : List String}
    (h : st ∈ reapStatements identity millis limit ids read) :
    ∃ row, (row.heldBy identity = true ∧ row.leaseExpiry ≤ millis) ∧
      ReapStatement identity millis row st := by
  suffices hloop : ∀ rows ids refused, st ∈ reapLoop identity millis read ids refused rows →
      ∃ row ∈ rows, ReapStatement identity millis row st by
    obtain ⟨row, hrow, hst⟩ := hloop _ _ _ h
    exact ⟨row, of_mem_reapRows hrow, hst⟩
  intro rows
  induction rows with
  | nil =>
    intro ids refused hst
    cases hst
  | cons row rows ih =>
    intro ids refused hst
    have hlater : ∀ ids refused, st ∈ reapLoop identity millis read ids refused rows →
        ∃ r ∈ row :: rows, ReapStatement identity millis r st := by
      intro ids refused hst
      obtain ⟨r, hr, hst⟩ := ih ids refused hst
      exact ⟨r, List.mem_cons_of_mem _ hr, hst⟩
    unfold reapLoop at hst
    split at hst
    · exact hlater _ _ hst
    · next hl =>
      dsimp only at hst
      split at hst
      · exact hlater _ _ hst
      · rcases List.mem_append.mp hst with hst | hst
        · exact ⟨row, List.mem_cons_self, reapStatement_of_mem_reapRow hl st hst⟩
        · exact hlater _ _ hst

theorem ReapStatement.effects (hst : ReapStatement identity millis row st) :
    Statement.Within (Effect lic) st := by
  intro t t' n h
  cases hst with
  | expire =>
    refine effects_of_deleteMessages ?_ h
    intro m hm hp
    simp only [Bool.and_eq_true, decide_eq_true_eq] at hp
    exact ⟨by simpa [Reason.justifies] using hp.1.1.2, takes_of_unsent hp.2⟩
  | refuse =>
    simp only [refuseLeaseStatement, Option.some.injEq, Prod.mk.injEq] at h
    rw [← h.1]
    refine Effects.of (Effect.executed _ _ fun e _ hp => Execution.Turn.refused ?_)
    exact (of_decide_eq_true hp).2.2.1
  | refund =>
    refine effects_of_refundMessages (fun m hm hp => Or.inr ?_) h
    simp only [Bool.and_eq_true, List.any_eq_true] at hp
    exact ⟨m, hm, rfl, hp.2⟩
  | retry =>
    refine effects_of_updateMessages (fun m _ hp => Turn.unleased _ (takes_of_unsent ?_)) h
    simp only [Bool.and_eq_true] at hp
    exact hp.2
  | terminal _ _ _ hattempts =>
    refine effects_of_terminalLease hattempts ?_ h
    intro m hm hp
    exact takes_of_unsent ((TerminalLease.of_guards hp).2.2.2.1 rfl)

/-- The lease tokens that the maintenance of the active window draws. -/
def ClaimIds.drawn (ids : ClaimIds) : List String := "" :: ids.window.map Prod.fst

/-- The message has one of the tokens. -/
def Message.leasedIn (m : Message) (tokens : List String) : Prop :=
  ∃ l, m.lease = some l ∧ l.token ∈ tokens

/-- The lease of the message is one of the generation, with its policy. -/
def Lease.isOf (l : Lease) (active : ConsumerGeneration) (m : Message) : Prop :=
  (⟨m.queueId, l.consumerId, l.generation⟩ : Identity) = active.toIdentity ∧ l.policy = active.policy

/-- The end of the lease that takes an exhausted message out of the window. -/
def progressTerminal (active : ConsumerGeneration) (millis : Instant) (leaseToken : String)
    (row : Message) : TerminalLease where
  toIdentity := active.toIdentity
  messageId := row.messageId
  leaseToken := leaseToken
  attempts := row.deliveries
  policy := active.policy
  leaseExpiresAt := some (safeFutureMillis millis maxLeaseMillis)

/-- The statements that `progressActiveWindow` makes of a row. -/
inductive ProgressStatement (active : ConsumerGeneration) (millis : Instant)
    (tokens : List String) (row : Message) : Statement Tables → Prop
  | expire : ProgressStatement active millis tokens row (expireUnleasedStatement active millis row)
  | lease (leaseToken : String) (h : leaseToken ∈ tokens) :
      ProgressStatement active millis tokens row
        (leaseExhaustedStatement active millis leaseToken row)
  | terminal (leaseToken deadLetterId : String) (h : leaseToken ∈ tokens)
      (hattempts : 1 + active.policy.maxRetries ≤ row.deliveries) :
      ProgressStatement active millis tokens row
        (terminalLease (progressTerminal active millis leaseToken row) millis deadLetterId)

/-- A row of a window lies in its queue. -/
theorem queueId_of_mem_unleasedWindow {queueId : String} (h : row ∈ unleasedWindow queueId read) :
    row.queueId = queueId := by
  have hmem := List.mem_of_mem_take h
  rw [List.mem_insertionSort, List.mem_filter] at hmem
  simpa using (Bool.and_eq_true_iff.mp hmem.2).1

theorem progressStatement_of_mem {active : ConsumerGeneration} {ids : List (String × String)}
    {window : List Message} (h : st ∈ progressStatements active millis ids window) :
    ∃ row ∈ window, ProgressStatement active millis ("" :: ids.map Prod.fst) row st := by
  suffices hloop : ∀ rows maintenance drawn, drawn ⊆ ids →
      st ∈ progressLoop active millis maintenance drawn rows →
      ∃ row ∈ rows, ProgressStatement active millis ("" :: ids.map Prod.fst) row st from
    hloop window 0 ids (List.Subset.refl _) h
  intro rows
  induction rows with
  | nil =>
    intro maintenance drawn _ hst
    cases hst
  | cons row rows ih =>
    intro maintenance drawn hdrawn hst
    have hlater : ∀ maintenance drawn, drawn ⊆ ids →
        st ∈ progressLoop active millis maintenance drawn rows →
        ∃ r ∈ row :: rows, ProgressStatement active millis ("" :: ids.map Prod.fst) r st := by
      intro maintenance drawn hdrawn hst
      obtain ⟨r, hr, hst⟩ := ih maintenance drawn hdrawn hst
      exact ⟨r, List.mem_cons_of_mem _ hr, hst⟩
    unfold progressLoop at hst
    split at hst
    · cases hst
    split at hst
    · rcases List.mem_cons.mp hst with rfl | hst
      · exact ⟨row, List.mem_cons_self, ProgressStatement.expire⟩
      · exact hlater _ _ hdrawn hst
    split at hst
    · exact hlater _ _ hdrawn hst
    next hattempts =>
    have htoken : (drawn.headD ("", "")).1 ∈ "" :: ids.map Prod.fst := by
      cases drawn with
      | nil => exact List.mem_cons_self
      | cons =>
        exact List.mem_cons_of_mem _ (List.mem_map_of_mem (hdrawn List.mem_cons_self))
    rcases List.mem_cons.mp hst with rfl | hst
    · exact ⟨row, List.mem_cons_self, ProgressStatement.lease _ htoken⟩
    rcases List.mem_cons.mp hst with rfl | hst
    · refine ⟨row, List.mem_cons_self, ProgressStatement.terminal _ _ htoken ?_⟩
      omega
    · exact hlater _ _ (fun x hx => hdrawn (List.mem_of_mem_tail hx)) hst

theorem ProgressStatement.effects {active : ConsumerGeneration} {tokens : List String}
    (hst : ProgressStatement active millis tokens row st) (hqueue : row.queueId = active.queueId)
    (htakes : ∀ m : Message, m.leasedIn tokens → lic.takes m)
    (hleases : ∀ m l, l.isOf active m → lic.leases m l) : Statement.Within (Effect lic) st := by
  intro t t' n h
  cases hst with
  | expire =>
    refine effects_of_deleteMessages ?_ h
    intro m hm hp
    simp only [Bool.and_eq_true, decide_eq_true_eq, Option.isNone_iff_eq_none] at hp
    exact ⟨by simpa [Reason.justifies] using hp.1.2,
      takes_of_unsent (unsent_of_unleased hp.1.1.2)⟩
  | lease =>
    refine effects_of_updateMessages (fun m _ hp => ?_) h
    simp only [Bool.and_eq_true, decide_eq_true_eq, Option.isNone_iff_eq_none,
      Message.unchanged] at hp
    have hm : m.queueId = active.queueId := hp.1.1.1.1.trans hqueue
    exact Turn.leased _ m.deliveries hp.1.1.2 le_rfl (by rw [hm]; exact hp.2)
      (hleases m _ ⟨by rw [hm], rfl⟩)
  | terminal _ _ htoken hattempts =>
    refine effects_of_terminalLease hattempts ?_ h
    intro m hm hp
    obtain ⟨-, -, -, -, x, hx, hleased, -⟩ := TerminalLease.of_guards hp
    refine Or.inl (htakes m ⟨x, hx, ?_⟩)
    rw [hleased]
    exact htoken

end Takoserver.Queue
