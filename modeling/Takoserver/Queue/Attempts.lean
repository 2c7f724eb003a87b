import Takoserver.Queue.Receipts

/-!
# The attempts of reserved batches

The execution of a reserved batch is refused, or it is sent: never both.  What is refunded was
bound by an execution that can no longer be sent, and what an execution was sent with stays
under its lease until it is settled.  The clock of the database may stand still but not go
back, and a claim draws lease tokens that no execution has bound.
-/

namespace Takoserver.Queue

variable {lic : Licence} {t t' : Tables} {n : ℕ}

/-! ### Executions -/

/-- What every statement keeps of executions and refunds. -/
structure Accounted (t : Tables) : Prop where
  batches : (t.executions.map fun e => e.batchId).Nodup
  tokens : ∀ e ∈ t.executions, ∀ e' ∈ t.executions, ∀ token, e.toIdentity = e'.toIdentity →
    e.leaseToken = some token → e'.leaseToken = some token → e.batchId = e'.batchId
  /-- Once it is registered, the receipts of its batch are under the lease it has bound. -/
  linked : ∀ e ∈ t.executions, e.state ∈ [.registered, .sendAuthorized, .retired] →
    ∀ r ∈ t.receipts, r.batchId = e.batchId →
      r.toIdentity = e.toIdentity ∧ e.leaseToken = some r.leaseToken
  refunds : ∀ m ∈ t.refunds, ∃ e ∈ t.executions, e.binds m = true ∧ e.doomed t.now = true

variable {e e' : Execution} {m : Message} {batchId : String} {r : Receipt}

/-- What an execution has bound, in terms of the lease. -/
theorem Execution.binds_iff :
    e.binds m = true ↔ ∃ l, m.lease = some l ∧ m.holder l = e.toIdentity ∧
      e.leaseToken = some l.token := by
  obtain ⟨⟨⟨q, c, g⟩, b, _⟩⟩ := e
  cases hl : m.lease with
  | none => simp [Execution.binds, hl]
  | some l =>
    simp only [Execution.binds, hl, Option.any_some, Bool.and_eq_true, decide_eq_true_eq,
      Message.holder, Option.some.injEq, Identity.mk.injEq]
    constructor
    · rintro ⟨hq, hc, hg, htoken⟩
      exact ⟨l, rfl, ⟨hq.symm, hc.symm, hg.symm⟩, htoken⟩
    · rintro ⟨_, rfl, ⟨hq, hc, hg⟩, htoken⟩
      exact ⟨hq.symm, hc.symm, hg.symm, htoken⟩

theorem Accounted.eq_of_binds (h : Accounted t) (he : e ∈ t.executions) (he' : e' ∈ t.executions)
    (hb : e.binds m = true) (hb' : e'.binds m = true) :
    e = e' := by
  obtain ⟨l, hl, hid, htoken⟩ := Execution.binds_iff.mp hb
  obtain ⟨l', hl', hid', htoken'⟩ := Execution.binds_iff.mp hb'
  obtain rfl : l = l' := Option.some.inj (hl.symm.trans hl')
  exact Table.eq_of_key h.batches he he'
    (h.tokens e he e' he' l.token (hid.symm.trans hid') htoken htoken')

/-- An update of an execution keeps what was reserved and the lease it has bound, and one that
could no longer be sent still cannot. -/
theorem Execution.Turn.keeps (h : e.Turn t e') :
    e'.toReservation = e.toReservation ∧ e'.leaseToken = e.leaseToken ∧
      (e.doomed t.now = true → e'.doomed t.now = true) := by
  refine ⟨by cases h <;> rfl, by cases h <;> rfl, fun hdoomed => ?_⟩
  simp only [Execution.doomed, decide_eq_true_eq] at hdoomed ⊢
  cases h with
  | refused _ => exact Or.inl rfl
  | registered _ hstate hnow =>
    rcases hdoomed with hrefused | ⟨-, huntil⟩
    · rw [hstate] at hrefused
      cases hrefused
    · exact absurd huntil (Nat.not_le_of_lt hnow)
  | authorized _ hstate hnow =>
    rcases hdoomed with hrefused | ⟨-, huntil⟩
    · rw [hstate] at hrefused
      cases hrefused
    · exact absurd huntil (Nat.not_le_of_lt hnow)
  | retired _ hstate =>
    rcases hdoomed with hrefused | ⟨hopen, -⟩
    · rw [hstate] at hrefused
      cases hrefused
    · rw [hstate] at hopen
      simp at hopen

theorem Execution.binds_congr (hid : e'.toReservation = e.toReservation)
    (htoken : e'.leaseToken = e.leaseToken) (m : Message) : e'.binds m = e.binds m := by
  simp only [Execution.binds, hid, htoken]

section

variable (h : Accounted t)

include h

theorem Accounted.congr (hnow : t.now ≤ t'.now) (he : t'.executions = t.executions)
    (hr : ∀ r' ∈ t'.receipts, ∃ r ∈ t.receipts, r.toBatchClaim = r'.toBatchClaim)
    (hrefunds : t'.refunds = t.refunds) : Accounted t' := by
  refine ⟨by rw [he]; exact h.batches, by rw [he]; exact h.tokens, ?_, ?_⟩
  · rw [he]
    intro e hmem hstate r' hr' hbatch
    obtain ⟨r, hr, hclaim⟩ := hr r' hr'
    rw [← hclaim] at hbatch ⊢
    exact h.linked e hmem hstate r hr hbatch
  · rw [he, hrefunds]
    intro m hm
    obtain ⟨e, hmem, hbinds, hdoomed⟩ := h.refunds m hm
    refine ⟨e, hmem, hbinds, ?_⟩
    simp only [Execution.doomed, decide_eq_true_eq] at hdoomed ⊢
    exact hdoomed.imp_right fun h => ⟨h.1, h.2.trans hnow⟩

theorem Accounted.registered {b : BatchClaim} (hx : b.executionAllows t = true) :
    Accounted { t with receipts := t.receipts ++ [{ toBatchClaim := b, state := .pending }] } := by
  refine ⟨h.batches, h.tokens, ?_, h.refunds⟩
  intro e he hstate r hr hbatch
  rcases List.mem_append.mp hr with hr | hr
  · exact h.linked e he hstate r hr hbatch
  -- a new receipt needs an execution that is still reserved, or none
  rw [List.mem_singleton.mp hr] at hbatch
  exfalso
  simp only [BatchClaim.executionAllows, Bool.or_eq_true, Bool.and_eq_true, Bool.not_eq_true',
    List.any_eq_false, List.any_eq_true, decide_eq_true_eq] at hx
  rcases hx with ⟨-, hno⟩ | ⟨e', he', hbatch', hreserved, -⟩
  · exact hno e he hbatch.symm
  · obtain rfl : e = e' := Table.eq_of_key h.batches he he' (hbatch.symm.trans hbatch'.symm)
    rw [hreserved] at hstate
    simp at hstate

theorem Accounted.reserved (hnew : ∀ x ∈ t.executions, x.batchId ≠ e.batchId)
    (hstate : e.state = .reserved) (htoken : e.leaseToken = none) :
    Accounted { t with executions := t.executions ++ [e] } := by
  refine ⟨Table.nodup_insert h.batches hnew, ?_, ?_, ?_⟩
  · intro x hx y hy token hid hxt hyt
    rcases List.mem_append.mp hx with hx | hx
    · rcases List.mem_append.mp hy with hy | hy
      · exact h.tokens x hx y hy token hid hxt hyt
      · rw [List.mem_singleton.mp hy, htoken] at hyt
        cases hyt
    · rw [List.mem_singleton.mp hx, htoken] at hxt
      cases hxt
  · intro x hx hopen r hr hbatch
    rcases List.mem_append.mp hx with hx | hx
    · exact h.linked x hx hopen r hr hbatch
    · rw [List.mem_singleton.mp hx, hstate] at hopen
      simp at hopen
  · intro m hm
    obtain ⟨x, hx, hbinds, hdoomed⟩ := h.refunds m hm
    exact ⟨x, List.mem_append_left _ hx, hbinds, hdoomed⟩

theorem Accounted.bound {token : String} {p : Execution → Bool}
    (hp : ∀ e ∈ t.executions, p e = true → e.batchId = batchId ∧ e.state = .reserved ∧ e.leaseToken = none)
    (hfresh : ∀ e ∈ t.executions, p e = true → ∀ x ∈ t.executions, x.leaseToken = some token → x.toIdentity ≠ e.toIdentity)
    :
    Accounted { t with
      executions := Table.update p (fun e => { e with leaseToken := some token }) t.executions } := by
  refine ⟨?_, ?_, ?_, ?_⟩
  · have hmap : (Table.update p (fun e : Execution => { e with leaseToken := some token })
        t.executions).map (fun e => e.batchId) = t.executions.map fun e => e.batchId := by
      apply Table.map_update
      exact fun e => rfl
    rw [hmap]
    exact h.batches
  · intro x hx y hy tok hid hxt hyt
    rcases Table.mem_update.mp hx with ⟨hx, -⟩ | ⟨e, he, hpe, rfl⟩ <;>
      rcases Table.mem_update.mp hy with ⟨hy, -⟩ | ⟨e', he', hpe', rfl⟩
    · exact h.tokens x hx y hy tok hid hxt hyt
    · obtain rfl : token = tok := Option.some.inj hyt
      exact absurd hid (hfresh e' he' hpe' x hx hxt)
    · obtain rfl : token = tok := Option.some.inj hxt
      exact absurd hid.symm (hfresh e he hpe y hy hyt)
    · exact (hp e he hpe).1.trans (hp e' he' hpe').1.symm
  · intro x hx hopen r hr hbatch
    rcases Table.mem_update.mp hx with ⟨hx, -⟩ | ⟨e, he, hpe, rfl⟩
    · exact h.linked x hx hopen r hr hbatch
    · have hreserved : ({ e with leaseToken := some token } : Execution).state = .reserved :=
        (hp e he hpe).2.1
      rw [hreserved] at hopen
      simp at hopen
  · intro m hm
    obtain ⟨e, he, hbinds, hdoomed⟩ := h.refunds m hm
    refine ⟨e, Table.mem_update.mpr (Or.inl ⟨he, ?_⟩), hbinds, hdoomed⟩
    -- an execution that has bound a lease is not bound again
    rw [Bool.eq_false_iff]
    intro hpe
    obtain ⟨l, -, -, htoken⟩ := Execution.binds_iff.mp hbinds
    rw [(hp e he hpe).2.2] at htoken
    cases htoken

theorem Accounted.executed (hr : Registered t) {p : Execution → Bool} {f : Execution → Execution}
    (hturn : ∀ e ∈ t.executions, p e = true → e.Turn t (f e)) :
    Accounted { t with executions := Table.update p f t.executions } := by
  have hkeeps : ∀ x ∈ Table.update p f t.executions, ∃ e ∈ t.executions,
      x.toReservation = e.toReservation ∧ x.leaseToken = e.leaseToken ∧ (x = e ∨ e.Turn t x) := by
    intro x hx
    rcases Table.mem_update.mp hx with ⟨hx, -⟩ | ⟨e, he, hp, rfl⟩
    · exact ⟨x, hx, rfl, rfl, Or.inl rfl⟩
    · obtain ⟨hid, htoken, -⟩ := (hturn e he hp).keeps
      exact ⟨e, he, hid, htoken, Or.inr (hturn e he hp)⟩
  refine ⟨?_, ?_, ?_, ?_⟩
  · rw [Table.map_update_of_mem fun e he hp => by rw [(hturn e he hp).keeps.1]]
    exact h.batches
  · intro x hx y hy token hid hxt hyt
    obtain ⟨e, he, hxe, hxte, -⟩ := hkeeps x hx
    obtain ⟨e', he', hye, hyte, -⟩ := hkeeps y hy
    rw [hxe, hye] at hid ⊢
    exact h.tokens e he e' he' token hid (hxte ▸ hxt) (hyte ▸ hyt)
  · intro x hx hopen r hmem hbatch
    obtain ⟨e, he, hxe, hxte, hcase⟩ := hkeeps x hx
    rw [hxe] at hbatch ⊢
    rw [hxte]
    rcases hcase with rfl | hstep
    · exact h.linked x he hopen r hmem hbatch
    cases hstep with
    | refused _ => simp at hopen
    | registered _ _ _ hpos hcount =>
      -- one receipt is under the bound lease, and all of a batch are under one
      rw [hcount, List.countP_pos_iff] at hpos
      obtain ⟨y, hy, hcond⟩ := hpos
      obtain ⟨hbatchy, hidy, htokeny⟩ := of_decide_eq_true hcond
      obtain ⟨hid, htoken⟩ := hr.batches r hmem y hy (hbatch.trans hbatchy.symm)
      exact ⟨hid.trans hidy, by rw [htoken]; exact htokeny⟩
    | authorized _ hstate => exact h.linked e he (by simp [hstate]) r hmem hbatch
    | retired _ hstate => exact h.linked e he (by simp [hstate]) r hmem hbatch
  · intro m hm
    obtain ⟨e, he, hbinds, hdoomed⟩ := h.refunds m hm
    refine ⟨_, Table.mem_update_of_mem he, ?_⟩
    by_cases hp : p e = true
    · rw [if_pos hp]
      obtain ⟨hid, htoken, hkeep⟩ := (hturn e he hp).keeps
      exact ⟨by rw [Execution.binds_congr hid htoken]; exact hbinds, hkeep hdoomed⟩
    · rw [if_neg hp]
      exact ⟨hbinds, hdoomed⟩

theorem Accounted.refunded (hm : (t.messages.map Message.key).Nodup) {p : Message → Bool}
    {v : Instant} (hdooms : ∀ m ∈ t.messages, p m = true → t.dooms m) :
    Accounted { t with
      messages := Table.update p (Message.refunded v) t.messages
      refunds := t.refunds ++ t.messages.filter p } := by
  refine ⟨h.batches, h.tokens, h.linked, ?_⟩
  intro m hmem
  rcases List.mem_append.mp hmem with hmem | hmem
  · exact h.refunds m hmem
  · obtain ⟨hmem, hp⟩ := List.mem_filter.mp hmem
    obtain ⟨x, hx, hkey, hbound⟩ := hdooms m hmem hp
    obtain rfl := Table.eq_of_key hm hx hmem hkey
    exact hbound

end

/-- What each move keeps together: messages, receipts and executions. -/
structure Orderly (t : Tables) : Prop where
  conserved : Conserved t
  registered : Registered t
  accounted : Accounted t

theorem Orderly.effect (h : Orderly t) (hlic : ∀ m, ¬ lic.refunds m) (hstep : Effect lic t t') :
    Orderly t' := by
  have hsame : ∀ {t' : Tables}, t'.receipts = t.receipts →
      ∀ r' ∈ t'.receipts, ∃ r ∈ t.receipts, r.toBatchClaim = r'.toBatchClaim := by
    intro t' heq r' hr'
    rw [heq] at hr'
    exact ⟨r', hr', rfl⟩
  refine ⟨h.conserved.effect hstep, ?_, ?_⟩
  · cases hstep with
    | registered b hb _ => exact h.registered.registered hb
    | _ => exact h.registered.congr rfl
  cases hstep with
  | refunded p v hrefund =>
    refine h.accounted.refunded h.conserved.keys fun m hm hp => ?_
    exact (hrefund m hm hp).resolve_left (hlic m)
  | registered b _ hx => exact h.accounted.registered hx
  | reserved e hnew hstate htoken => exact h.accounted.reserved hnew hstate htoken
  | bound _ _ _ hp hfresh => exact h.accounted.bound hp hfresh
  | executed p f hturn => exact h.accounted.executed h.registered hturn
  | _ => exact h.accounted.congr le_rfl rfl (hsame rfl) rfl

theorem Orderly.move (h : Orderly t) (hlic : ∀ m, ¬ lic.refunds m)
    (hstep : Move lic (· ≤ ·) t t') : Orderly t' := by
  have hput : ∀ {r : Receipt} {state : ReceiptState}, r ∈ t.receipts →
      Orderly { t with receipts := Table.put Receipt.key { r with state } t.receipts } := by
    intro r state hr
    refine ⟨h.conserved.congr rfl rfl rfl rfl, h.registered.put hr state,
      h.accounted.congr le_rfl rfl ?_ rfl⟩
    intro x hx
    rcases Table.mem_put.mp hx with ⟨hx, -⟩ | ⟨rfl, -⟩
    · exact ⟨x, hx, rfl⟩
    · exact ⟨r, hr, rfl⟩
  cases hstep with
  | ticked now hnow =>
    exact ⟨h.conserved.congr rfl rfl rfl rfl, h.registered.congr rfl,
      h.accounted.congr hnow rfl (fun r hr => ⟨r, hr, rfl⟩) rfl⟩
  | effect _ hstep => exact h.effect hlic hstep
  | marked _ hstep =>
    cases hstep with
    | settling _ _ hr => exact hput hr
    | settled _ _ hr => exact hput hr

theorem Orderly.succession (h : Orderly t) (hstep : Succession t t') : Orderly t' := by
  cases hstep <;> exact ⟨h.conserved.congr rfl rfl rfl rfl, h.registered.congr rfl,
    h.accounted.congr le_rfl rfl (fun r hr => ⟨r, hr, rfl⟩) rfl⟩

/-! ### What was sent -/

/-- The execution of a batch was sent. -/
def Tables.Sent (t : Tables) (batchId : String) : Prop :=
  ∃ e ∈ t.executions, e.batchId = batchId ∧ (e.state = .sendAuthorized ∨ e.state = .retired)

/-- What becomes of an execution that was sent: it stays so, or is retired. -/
theorem sent_of_move {clock : Instant → Instant → Prop} (he : e ∈ t.executions)
    (hsent : e.state = .sendAuthorized ∨ e.state = .retired) (hstep : Move lic clock t t') :
    ∃ e' ∈ t'.executions, e'.toReservation = e.toReservation ∧ e'.leaseToken = e.leaseToken ∧
      (e'.state = e.state ∨ e.state = .sendAuthorized ∧ e'.state = .retired) := by
  have hsame : e ∈ t'.executions → ∃ e' ∈ t'.executions, e'.toReservation = e.toReservation ∧
      e'.leaseToken = e.leaseToken ∧
      (e'.state = e.state ∨ e.state = .sendAuthorized ∧ e'.state = .retired) :=
    fun hmem => ⟨e, hmem, rfl, rfl, Or.inl rfl⟩
  cases hstep with
  | ticked => exact hsame he
  | marked _ hstep => cases hstep <;> exact hsame he
  | effect _ hstep =>
    cases hstep with
    | reserved => exact hsame (List.mem_append_left _ he)
    | bound _ _ _ hp =>
      refine hsame (Table.mem_update.mpr (Or.inl ⟨he, ?_⟩))
      rw [Bool.eq_false_iff]
      intro hpe
      rw [(hp e he hpe).2.1] at hsent
      simp at hsent
    | executed p f hturn =>
      by_cases hpe : p e = true
      · have hstep := hturn e he hpe
        obtain ⟨hid, htoken, -⟩ := hstep.keeps
        refine ⟨f e, Table.mem_update.mpr (Or.inr ⟨e, he, hpe, rfl⟩), hid, htoken, ?_⟩
        generalize f e = e' at hstep
        cases hstep with
        | refused hopen => rcases hsent with hs | hs <;> rw [hs] at hopen <;> simp at hopen
        | registered _ hs => rw [hs] at hsent; simp at hsent
        | authorized _ hs => rw [hs] at hsent; simp at hsent
        | retired _ hs => exact Or.inr ⟨hs, rfl⟩
      · exact hsame (Table.mem_update.mpr (Or.inl ⟨he, Bool.eq_false_iff.mpr hpe⟩))
    | _ => exact hsame he

theorem Sent.next {s s' : Host} {a : Action} (h : s.tables.Sent batchId)
    (hn : queues.next s a = some s') : s'.tables.Sent batchId := by
  obtain ⟨⟨u, hmoves, hturn⟩, -⟩ := shift_of_next hn
  have hu : u.Sent batchId := by
    refine Moves.invariant (P := fun u => u.Sent batchId) ?_ hmoves h
    rintro v _ ⟨e, he, hbatch, hsent⟩ hstep
    obtain ⟨e', he', hid, -, hstate⟩ := sent_of_move he hsent hstep
    refine ⟨e', he', by rw [hid]; exact hbatch, ?_⟩
    rcases hstate with hsame | ⟨-, hretired⟩
    · rw [hsame]
      exact hsent
    · exact Or.inr hretired
  rw [Tables.Sent, (fields_of_succession hturn).2.2.2.1]
  exact hu

/-- The message of a receipt, with the attempt and the lease that it was sent with. -/
def Tables.Stands (t : Tables) (r : Receipt) : Prop :=
  ∃ m ∈ t.messages, m.key = (r.queueId, r.messageId) ∧ m.deliveries = r.attempts ∧
    m.leasedUnder r.leaseToken r.toIdentity = true

/-- The execution of a batch is retired. -/
def Tables.Retired (t : Tables) (batchId : String) : Prop :=
  ∃ e ∈ t.executions, e.batchId = batchId ∧ e.state = .retired

/-- The execution of the receipt's batch is retired; or it was sent under the lease of the
receipt, and the receipt is settled or its message stands. -/
def Tables.Secures (t : Tables) (r : Receipt) : Prop :=
  t.Retired r.batchId ∨
  (∃ e ∈ t.executions, e.batchId = r.batchId ∧ e.toIdentity = r.toIdentity ∧
      e.leaseToken = some r.leaseToken ∧ e.state = .sendAuthorized) ∧
    ((∃ r' ∈ t.receipts, r'.key = r.key ∧ r'.state ≠ .pending) ∨ (r ∈ t.receipts ∧ t.Stands r))

/-- A message under the lease of a receipt is bound by the execution that bound that lease. -/
theorem binds_of_leasedUnder (hid : e.toIdentity = r.toIdentity)
    (htoken : e.leaseToken = some r.leaseToken) (h : m.leasedUnder r.leaseToken r.toIdentity = true) :
    e.binds m = true := by
  simp only [Message.leasedUnder, Bool.and_eq_true, decide_eq_true_eq] at h
  obtain ⟨hqueue, hany⟩ := h
  obtain ⟨l, hl, hcond⟩ := (Option.any_eq_true _ _).mp hany
  obtain ⟨htok, hc, hg⟩ := of_decide_eq_true hcond
  refine Execution.binds_iff.mpr ⟨l, hl, ?_, by rw [htok]; exact htoken⟩
  rw [hid, Message.holder, hqueue, hc, hg]

/-- No statement may take a message that stands under the lease of a pending receipt of a batch
that was sent. -/
theorem not_takes (h : Orderly t) (hr : r ∈ t.receipts) (hpending : r.state = .pending)
    (he : e ∈ t.executions) (hid : e.toIdentity = r.toIdentity)
    (htoken : e.leaseToken = some r.leaseToken) (hsent : e.state = .sendAuthorized)
    (hkey : m.key = (r.queueId, r.messageId))
    (hlease : m.leasedUnder r.leaseToken r.toIdentity = true) (hlic : ¬ lic.takes m) :
    ¬ t.takes lic m := by
  have hbinds := binds_of_leasedUnder hid htoken hlease
  rintro (hfree | hunsent | ⟨r', hr', ⟨_, hstate⟩, hmessage, hlease'⟩)
  · exact hlic hfree
  · have hany : (t.executions.any fun e => e.binds m && decide (e.state = .sendAuthorized)) = true :=
      List.any_eq_true.mpr ⟨e, he, by simp [hbinds, hsent]⟩
    rw [Tables.unsent, hany] at hunsent
    cases hunsent
  · -- the receipt that is being settled would be the pending one
    simp only [Message.leasedUnder, Bool.and_eq_true, decide_eq_true_eq] at hlease hlease'
    obtain ⟨l, hl, hcond⟩ := (Option.any_eq_true _ _).mp hlease.2
    obtain ⟨l', hl', hcond'⟩ := (Option.any_eq_true _ _).mp hlease'.2
    obtain rfl : l = l' := Option.some.inj (hl.symm.trans hl')
    have hsame := h.registered.leases r hr r' hr' (hlease.1.symm.trans hlease'.1)
      ((congrArg Prod.snd hkey).symm.trans hmessage.symm)
      ((of_decide_eq_true hcond).1.symm.trans (of_decide_eq_true hcond').1)
    obtain rfl := Table.eq_of_key h.registered.keys hr hr' hsame
    rw [hpending] at hstate
    cases hstate

theorem Orderly.not_dooms (h : Orderly t) (he : e ∈ t.executions)
    (hid : e.toIdentity = r.toIdentity) (htoken : e.leaseToken = some r.leaseToken)
    (hsent : e.state = .sendAuthorized) (hm : m ∈ t.messages)
    (hlease : m.leasedUnder r.leaseToken r.toIdentity = true) : ¬ t.dooms m := by
  rintro ⟨x, hx, hkey, _, he', hbinds, hdoomed⟩
  obtain rfl := Table.eq_of_key h.conserved.keys hx hm hkey
  obtain rfl := h.accounted.eq_of_binds he he' (binds_of_leasedUnder hid htoken hlease) hbinds
  simp [Execution.doomed, hsent] at hdoomed

theorem Stands.effect (h : Orderly t) (hr : r ∈ t.receipts) (hpending : r.state = .pending)
    (he : e ∈ t.executions) (hid : e.toIdentity = r.toIdentity)
    (htoken : e.leaseToken = some r.leaseToken) (hsent : e.state = .sendAuthorized)
    (hrefunds : ∀ m, ¬ lic.refunds m)
    (hlic : ∀ m l, m.lease = some l → l.token = r.leaseToken → ¬ lic.takes m) (hstands : t.Stands r)
    (hstep : Effect lic t t') : t'.Stands r := by
  obtain ⟨m, hm, hkey, hdeliveries, hlease⟩ := hstands
  obtain ⟨l, hl, hcond⟩ : ∃ l, m.lease = some l ∧ l.token = r.leaseToken := by
    have hany := hlease
    simp only [Message.leasedUnder, Bool.and_eq_true] at hany
    obtain ⟨l, hl, hcond⟩ := (Option.any_eq_true _ _).mp hany.2
    exact ⟨l, hl, (of_decide_eq_true hcond).1⟩
  have htakes : ¬ t.takes lic m :=
    not_takes h hr hpending he hid htoken hsent hkey hlease (hlic m l hl hcond)
  have hdooms := h.not_dooms he hid htoken hsent hm hlease
  have hkept : ∀ {p : Message → Bool} {f : Message → Message}, p m = false →
      m ∈ Table.update p f t.messages := fun hp => Table.mem_update.mpr (Or.inl ⟨hm, hp⟩)
  cases hstep with
  | admitted => exact ⟨m, List.mem_append_left _ hm, hkey, hdeliveries, hlease⟩
  | turned p f hturn =>
    by_cases hp : p m = true
    · -- the lease may be renewed, and nothing else
      have hstep := hturn m hm hp
      have hmem : f m ∈ Table.update p f t.messages := Table.mem_update.mpr (Or.inr ⟨m, hm, hp, rfl⟩)
      generalize f m = m' at hstep hmem
      cases hstep with
      | leased _ _ hnone =>
        rw [hl] at hnone
        cases hnone
      | unleased v hfree => exact absurd hfree htakes
      | renewed _ _ hl' =>
        refine ⟨_, hmem, hkey, hdeliveries, ?_⟩
        simp only [Message.leasedUnder, hl', Option.any_some, Bool.and_eq_true] at hlease ⊢
        exact hlease
    · exact ⟨m, hkept (Bool.eq_false_iff.mpr hp), hkey, hdeliveries, hlease⟩
  | refunded p v hrefund =>
    refine ⟨m, hkept ?_, hkey, hdeliveries, hlease⟩
    rw [Bool.eq_false_iff]
    exact fun hp => (hrefund m hm hp).elim (hrefunds m) hdooms
  | deleted why p hwhy =>
    refine ⟨m, Table.mem_delete.mpr ⟨hm, ?_⟩, hkey, hdeliveries, hlease⟩
    rw [Bool.eq_false_iff]
    exact fun hp => htakes (hwhy m hm hp).2
  | transferred _ _ _ _ _ _ hx _ hone _ _ _ _ _ hfree =>
    refine ⟨m, List.mem_append_left _ (Table.mem_delete.mpr ⟨hm, ?_⟩), hkey, hdeliveries, hlease⟩
    rw [Bool.eq_false_iff]
    intro hpm
    obtain rfl := Table.eq_of_key h.conserved.keys hm hx (hone m hm hpm)
    exact htakes hfree
  | _ => exact ⟨m, hm, hkey, hdeliveries, hlease⟩

theorem Retired.move {clock : Instant → Instant → Prop} (h : t.Retired batchId)
    (hstep : Move lic clock t t') : t'.Retired batchId := by
  obtain ⟨e, he, hbatch, hretired⟩ := h
  obtain ⟨e', he', hid, -, hstate⟩ := sent_of_move he (Or.inr hretired) hstep
  refine ⟨e', he', by rw [hid]; exact hbatch, ?_⟩
  rcases hstate with hsame | ⟨-, hretired'⟩
  · rw [hsame, hretired]
  · exact hretired'

theorem Secures.move (h : Orderly t) (hpending : r.state = .pending)
    (hrefunds : ∀ m, ¬ lic.refunds m)
    (hlic : ∀ m l, m.lease = some l → l.token = r.leaseToken → ¬ lic.takes m)
    (hsecures : t.Secures r) (hstep : Move lic (· ≤ ·) t t') : t'.Secures r := by
  rcases hsecures with hretired | ⟨⟨e, he, hbatch, hid, htoken, hsent⟩, hreceipt⟩
  · exact Or.inl (Retired.move hretired hstep)
  obtain ⟨e', he', hid', htoken', hstate⟩ := sent_of_move he (Or.inl hsent) hstep
  have hbatch' : e'.batchId = r.batchId := by rw [hid']; exact hbatch
  rcases hstate with hsame | ⟨-, hretired⟩
  swap
  · exact Or.inl ⟨e', he', hbatch', hretired⟩
  refine Or.inr ⟨⟨e', he', hbatch', by rw [hid']; exact hid, by rw [htoken']; exact htoken,
    by rw [hsame]; exact hsent⟩, ?_⟩
  cases hstep with
  | ticked => exact hreceipt
  | effect _ hstep =>
    obtain ⟨_, hrs⟩ := hstep.receipts
    rcases hreceipt with ⟨r', hr', hkey, hdone⟩ | ⟨hr, hstands⟩
    · exact Or.inl ⟨r', by rw [hrs]; exact List.mem_append_left _ hr', hkey, hdone⟩
    · refine Or.inr ⟨by rw [hrs]; exact List.mem_append_left _ hr, ?_⟩
      exact Stands.effect h hr hpending he hid htoken hsent hrefunds hlic
        hstands hstep
  | marked _ hstep =>
    -- a receipt that is marked is pending no longer
    have hput : ∀ {x : Receipt} {state : ReceiptState}, x ∈ t.receipts → state ≠ .pending →
        (∃ r' ∈ Table.put Receipt.key { x with state } t.receipts, r'.key = r.key ∧
          r'.state ≠ .pending) ∨
        (r ∈ Table.put Receipt.key { x with state } t.receipts ∧ t.Stands r) := by
      intro x state hx hstate
      by_cases hk : r.key = x.key
      · exact Or.inl ⟨_, Table.mem_put_self hx rfl, hk.symm, hstate⟩
      rcases hreceipt with ⟨r', hr', hkey, hdone⟩ | ⟨hr, hstands⟩
      · exact Or.inl ⟨r', Table.mem_put_of_ne hr' (by rw [hkey]; exact hk), hkey, hdone⟩
      · exact Or.inr ⟨Table.mem_put_of_ne hr hk, hstands⟩
    cases hstep with
    | settling _ _ hx => exact hput hx (by simp)
    | settled _ _ hx => exact hput hx (by simp)

/-! ### Runs -/

/-- The readings of the clock do not go back. -/
def forward : Instant → List Instant → Bool
  | _, [] => true
  | now, c :: cs => decide (now ≤ c) && forward c cs

theorem isChain_of_forward {now : Instant} {cs : List Instant} (h : forward now cs = true) :
    List.IsChain (· ≤ ·) (now :: cs) := by
  induction cs generalizing now with
  | nil => exact List.IsChain.singleton now
  | cons c cs ih =>
    simp only [forward, Bool.and_eq_true, decide_eq_true_eq] at h
    exact List.isChain_cons_cons.mpr ⟨h.1, ih h.2⟩

/-- The steps of runs in which the clock of the database does not go back, a claim draws tokens
that no execution has bound, and messages of a batch are settled as such. -/
def Host.accounts (s : Host) (a : Action) : Bool :=
  forward s.tables.now a.clocks &&
  match a with
  | .call (.release _ _) _ _ => false
  | .call (.settle _ _ _ _) _ _ => false
  | .call (.claim _ _ _ ids) _ _ =>
    s.tables.executions.all fun e => decide (∀ token ∈ ids.drawn, e.leaseToken ≠ some token)
  | _ => true

variable {s s' : Host} {a : Action}

theorem licence_of_accounts (h : s.accounts a = true) :
    (∀ m, ¬ (a.licence s).refunds m) ∧ ∀ token, (∃ e ∈ s.tables.executions, e.leaseToken = some token) →
      ∀ m l, m.lease = some l → l.token = token → ¬ (a.licence s).takes m := by
  have hrest := (Bool.and_eq_true_iff.mp h).2
  cases a with
  | call call =>
    cases call with
    | release => cases hrest
    | settle => cases hrest
    | claim =>
      refine ⟨fun _ => id, ?_⟩
      rintro _ ⟨e, he, htoken⟩ m l hl rfl ⟨l', hl', hdrawn⟩
      obtain rfl : l = l' := Option.some.inj (hl.symm.trans hl')
      exact of_decide_eq_true (List.all_eq_true.mp hrest e he) _ hdrawn htoken
    | _ => exact ⟨fun _ => id, fun _ _ _ _ _ _ => id⟩
  | _ => exact ⟨fun _ => id, fun _ _ _ _ _ _ => id⟩

/-- What such a step can do to the tables. -/
theorem shift_of_accounts (hs : queues.Reachable s) (h : s.accounts a = true)
    (hn : queues.next s a = some s') : Shift (a.licence s) (· ≤ ·) s.tables s'.tables := by
  refine (shift_of_licensed_next (Licence.le_refl _)
    (isChain_of_forward (Bool.and_eq_true_iff.mp h).1) ?_ hn).1
  intro c i j r hplan
  exact Or.inr (find_of_plan (registered_of_reachable hs) (recorded_of_reachable hs) hplan)

/-- The steps that account for attempts. -/
abbrev accounting (s : Host) (a : Action) : Prop := s.accounts a = true

theorem orderly_of_next (hs : queues.Reachable s) (ho : Orderly s.tables) (h : s.accounts a = true)
    (hn : queues.next s a = some s') : Orderly s'.tables := by
  obtain ⟨u, hmoves, hturn⟩ := shift_of_accounts hs h hn
  have hu : Orderly u :=
    Moves.invariant (fun _ _ hv hstep => hv.move (licence_of_accounts h).1 hstep) hmoves ho
  cases hturn with
  | refl => exact hu
  | single hstep => exact hu.succession hstep

theorem orderly_of_reachVia (h : queues.ReachVia accounting s) : Orderly s.tables := by
  have key : queues.Reachable s ∧ Orderly s.tables := by
    refine Machine.ReachVia.invariant
      (P := fun s : Host => queues.Reachable s ∧ Orderly s.tables) ?_ ?_ h
    · refine ⟨Machine.PathVia.refl _, ⟨conserved_of_reachable (Machine.PathVia.refl _),
        registered_of_reachable (Machine.PathVia.refl _), ?_⟩⟩
      exact ⟨List.nodup_nil, by simp [queues], by simp [queues], by simp [queues]⟩
    · rintro s a _ ⟨hs, ho⟩ ha hn
      exact ⟨hs.next hn, orderly_of_next hs ho ha hn⟩
  exact key.2

theorem secures_of_next (hs : queues.Reachable s) (ho : Orderly s.tables) (h : s.accounts a = true)
    (hn : queues.next s a = some s') (hpending : r.state = .pending) (hsecures : s.tables.Secures r) :
    s'.tables.Secures r := by
  obtain ⟨hrefunds, htakes⟩ := licence_of_accounts h
  obtain ⟨u, hmoves, hturn⟩ := shift_of_accounts hs h hn
  have hu : u.Secures r := by
    rcases hsecures with hretired | ⟨⟨e, he, hrest⟩, hreceipt⟩
    · exact Or.inl (Moves.invariant (P := fun v => v.Retired r.batchId)
        (fun _ _ hv hstep => Retired.move hv hstep) hmoves hretired)
    · -- the token is bound when the step begins, so the step does not draw it
      have hlic := htakes r.leaseToken ⟨e, he, hrest.2.2.1⟩
      have key : Orderly u ∧ u.Secures r :=
        Moves.invariant (P := fun v => Orderly v ∧ v.Secures r)
          (fun _ _ hv hstep => ⟨hv.1.move hrefunds hstep,
            Secures.move hv.1 hpending hrefunds hlic hv.2 hstep⟩)
          hmoves ⟨ho, Or.inr ⟨⟨e, he, hrest⟩, hreceipt⟩⟩
      exact key.2
  obtain ⟨hm, -, hr, he, -⟩ := fields_of_succession hturn
  unfold Tables.Secures Tables.Retired Tables.Stands
  rw [hm, hr, he]
  exact hu

/-! ### Authorization -/

/-- What each step keeps of the answers `authorized`. -/
structure Authorized (s : Host) : Prop where
  sent : ∀ b ∈ s.authorized, s.tables.Sent b
  once : s.authorized.Nodup

/-- An authorization that changed one row has sent the execution of its batch, which was not
sent before. -/
theorem sent_of_authorize (hkeys : (t.executions.map fun e => e.batchId).Nodup)
    {x : ExecutionIdentity} {servable : Bool}
    (h : authorizeStatement x servable t = some (t', 1)) :
    ¬ t.Sent x.batchId ∧ t'.Sent x.batchId := by
  simp only [authorizeStatement] at h
  split at h
  · cases h
  simp only [Option.some.injEq, Prod.mk.injEq] at h
  obtain ⟨rfl, hcount⟩ := h
  obtain ⟨e, he, hp⟩ := List.countP_pos_iff.mp (show 0 < t.executions.countP _ by rw [hcount]; omega)
  have hp' := hp
  simp only [Bool.and_eq_true, decide_eq_true_eq, ExecutionIdentity.scopes] at hp'
  obtain ⟨⟨hbatch, -⟩, hstate⟩ := hp'
  constructor
  · rintro ⟨e', he', hbatch', hsent⟩
    obtain rfl : e = e' := Table.eq_of_key hkeys he he' (hbatch.trans hbatch'.symm)
    rw [hstate] at hsent
    simp at hsent
  · exact ⟨_, Table.mem_update.mpr (Or.inr ⟨e, he, hp, rfl⟩), hbatch, Or.inl rfl⟩

theorem authorized_of_next (ho : Orderly s.tables) (h : Authorized s)
    (hn : queues.next s a = some s') : Authorized s' := by
  have hsent : ∀ b ∈ s.authorized, s'.tables.Sent b := fun b hb => Sent.next (h.sent b hb) hn
  have hsame : s'.authorized = s.authorized → Authorized s' := fun heq =>
    ⟨by rw [heq]; exact hsent, by rw [heq]; exact h.once⟩
  cases a with
  | call call clocks acknowledged =>
    obtain ⟨sts, changes, hsts, hcommit, hauthorized⟩ :
        ∃ sts changes, call.statements s.read = some sts ∧
          s.tables.commit clocks sts = some (s'.tables, changes) ∧
          s'.authorized = s.authorized ++ call.authorizes changes acknowledged := by
      simp only [queues, Host.next, Option.bind_eq_some_iff, Option.map_eq_some_iff,
        Prod.exists] at hn
      obtain ⟨sts, hsts, u, changes, hcommit, rfl⟩ := hn
      exact ⟨sts, changes, hsts, hcommit, rfl⟩
    cases call with
    | authorizeV2QueueBatchSend =>
      simp only [Call.authorizes] at hauthorized
      split at hauthorized
      swap
      · exact hsame (hauthorized.trans (List.append_nil _))
      next hcond =>
      cases hsts
      obtain ⟨m, hrun, hm⟩ := Tables.commit_singleton hcommit
      obtain rfl : 1 = m := by simpa [hcond.2] using hm
      have hexecutions : (s.tables.ticked clocks).executions = s.tables.executions :=
        (ticked_fields s.tables clocks).2.2.2.2
      obtain ⟨hbefore, hafter⟩ := sent_of_authorize (by rw [hexecutions]; exact ho.accounted.batches)
        hrun
      unfold Tables.Sent at hbefore
      rw [hexecutions] at hbefore
      refine ⟨?_, ?_⟩
      · rw [hauthorized]
        intro b hb
        rcases Table.mem_insert.mp hb with hb | rfl
        · exact hsent b hb
        · exact hafter
      · rw [hauthorized]
        refine List.nodup_append.mpr ⟨h.once, List.nodup_singleton _, ?_⟩
        rintro b hb _ hb' rfl
        rw [List.mem_singleton.mp hb'] at hb
        exact hbefore (h.sent _ hb)
    | _ => exact hsame (hauthorized.trans (List.append_nil _))
  | settle =>
    rcases next_settle hn with ⟨reply, -, rfl⟩ | ⟨r, -, rfl | ⟨u, n, -, rfl | rfl⟩⟩ <;>
      exact hsame rfl
  | reply k =>
    simp only [queues, Host.next, Option.map_eq_some_iff] at hn
    obtain ⟨r, -, rfl⟩ := hn
    exact hsame rfl

theorem authorized_of_reachVia (h : queues.ReachVia accounting s) : Authorized s := by
  have key : queues.ReachVia accounting s ∧ Authorized s := by
    refine Machine.ReachVia.invariant
      (P := fun s : Host => queues.ReachVia accounting s ∧ Authorized s) ?_ ?_ h
    · exact ⟨Machine.PathVia.refl _, by simp [queues], by simp [queues]⟩
    · rintro s a _ ⟨hs, hauth⟩ ha hn
      exact ⟨hs.next ha hn, authorized_of_next (orderly_of_reachVia hs) hauth hn⟩
  exact key.2

/-! ### The account of attempts -/

/-- What holds of a state, and of each run from it. -/
structure AttemptsAccounted (s : Host) : Prop where
  /-- A batch is answered `authorized` once. -/
  once : s.authorized.Nodup
  /-- The execution that had bound a refunded message is not sent, and its batch was not
  answered `authorized`. -/
  refunded : ∀ m ∈ s.tables.refunds, ∀ e ∈ s.tables.executions, e.binds m = true →
    e.state ≠ .sendAuthorized ∧ e.state ≠ .retired ∧ e.batchId ∉ s.authorized
  /-- While an execution is sent, the message of a pending receipt of its batch stays under its
  lease, with its attempt. -/
  kept : ∀ e ∈ s.tables.executions, e.state = .sendAuthorized → ∀ r ∈ s.tables.receipts,
    r.batchId = e.batchId → r.state = .pending → s.tables.Stands r →
    ∀ s', queues.PathVia accounting s s' →
      (∃ e' ∈ s'.tables.executions, e'.batchId = e.batchId ∧ e'.state = .sendAuthorized) →
      r ∈ s'.tables.receipts → s'.tables.Stands r

/-- **The attempts of reserved batches are accounted for.** -/
theorem attempts_accounted (h : queues.ReachVia accounting s) : AttemptsAccounted s where
  once := (authorized_of_reachVia h).once
  refunded m hm e he hbinds := by
    have ho := orderly_of_reachVia h
    obtain ⟨_, he', hbinds', hdoomed⟩ := ho.accounted.refunds m hm
    obtain rfl := ho.accounted.eq_of_binds he he' hbinds hbinds'
    simp only [Execution.doomed, decide_eq_true_eq] at hdoomed
    have hunsent : e.state ≠ .sendAuthorized ∧ e.state ≠ .retired := by
      rcases hdoomed with hs | ⟨hs, -⟩
      · rw [hs]
        simp
      · constructor <;> intro hstate <;> rw [hstate] at hs <;> simp at hs
    refine ⟨hunsent.1, hunsent.2, fun hb => ?_⟩
    obtain ⟨x, hx, hbatch, hsent⟩ := (authorized_of_reachVia h).sent _ hb
    obtain rfl := Table.eq_of_key ho.accounted.batches hx he hbatch
    exact hsent.elim hunsent.1 hunsent.2
  kept e he hsent r hr hbatch hpending hstands s' hpath hsent' hr' := by
    have ho := orderly_of_reachVia h
    obtain ⟨hid, htoken⟩ := ho.accounted.linked e he (by simp [hsent]) r hr hbatch
    have hsecures : s.tables.Secures r :=
      Or.inr ⟨⟨e, he, hbatch.symm, hid.symm, htoken, hsent⟩, Or.inr ⟨hr, hstands⟩⟩
    have key : queues.ReachVia accounting s' ∧ s'.tables.Secures r := by
      refine Machine.PathVia.invariant
        (P := fun u : Host => queues.ReachVia accounting u ∧ u.tables.Secures r) ?_ hpath
        ⟨h, hsecures⟩
      rintro u a _ ⟨hu, husecures⟩ ha hn
      exact ⟨hu.next ha hn,
        secures_of_next hu.reachable (orderly_of_reachVia hu) ha hn hpending husecures⟩
    have ho' := orderly_of_reachVia key.1
    obtain ⟨_, he', hbatch', hstate'⟩ := hsent'
    rcases key.2 with ⟨x, hx, hxbatch, hretired⟩ | ⟨-, ⟨x, hx, hkey, hdone⟩ | ⟨-, hstands'⟩⟩
    · obtain rfl := Table.eq_of_key ho'.accounted.batches hx he'
        (hxbatch.trans (hbatch.trans hbatch'.symm))
      rw [hretired] at hstate'
      cases hstate'
    · obtain rfl := Table.eq_of_key ho'.registered.keys hx hr' hkey
      exact absurd hpending hdone
    · exact hstands'

/-! ### One batch sent, one refunded -/

/-- A reservation, for the run below. -/
def attemptReservation (batchId : String) : Reservation where
  toIdentity := settledConsumer.toIdentity
  batchId := batchId
  reservationToken := batchId
  workerUid := "worker uid"
  consumerSpecJson := "spec"
  servingSourceOperationId := "operation"
  selectedVersionsJson := "versions"
  principal := "principal"
  space := "space"
  targetKey := "target"
  maxConcurrency := 2

/-- A claim of one message for a reserved batch. -/
def attemptClaim (batchId : String) : ClaimInput where
  toIdentity := settledConsumer.toIdentity
  limit := 1
  leaseMillis := 1000
  reservation := some ⟨batchId, batchId⟩

/-- Two messages are admitted and claimed for two batches; one batch is registered and sent,
the other is cancelled. -/
def attemptRun : List Action :=
  [.call (.activateConsumer settledConsumer 0) [] true,
   .call (.admitBatch ⟨"jobs", 86400, 0⟩
    [{ messageId := "m", body := [1] }, { messageId := "n", body := [2] }] 1000) [] true,
   .call (.reserve (attemptReservation "first") true) [1500] true,
   .call (.claim (attemptClaim "first") 2000 ⟨3, 3, 3, 3⟩ { lease := "lease" }) [2000, 2000] true,
   .call (.registerSettlementBatch "first" [settledMessage] (some "first")) [2001, 2001] true,
   .call (.reserve (attemptReservation "second") true) [2001] true,
   .call (.claim (attemptClaim "second") 2002 ⟨6, 6, 6, 6⟩ { lease := "other lease" }) [2002] true,
   .call (.cancelV2QueueBatchBeforeSend ⟨"second", "second"⟩) [2003] true,
   .call (.authorizeV2QueueBatchSend
    { toIdentity := settledConsumer.toIdentity
      batchId := "first"
      reservationToken := "first"
      workerUid := "worker uid"
      servingSourceOperationId := "operation"
      selected := ⟨"version", 1, "incarnation"⟩ } true) [2004] true]

theorem attempts_accounted_attemptRun :
    ∃ s, queues.ReachVia accounting s ∧ s.authorized = ["first"] ∧
      s.tables.refunds.map Message.messageId = ["n"] ∧ AttemptsAccounted s := by
  obtain ⟨s, hs, hp⟩ := Machine.exists_reachVia_of_run (M := queues) Host.accounts attemptRun
    (fun s => decide (s.authorized = ["first"] ∧ s.tables.refunds.map Message.messageId = ["n"]))
    (by decide +kernel)
  obtain ⟨hauthorized, hrefunds⟩ := of_decide_eq_true hp
  exact ⟨s, hs, hauthorized, hrefunds, attempts_accounted hs⟩

end Takoserver.Queue
