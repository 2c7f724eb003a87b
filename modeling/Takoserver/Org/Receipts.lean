import Takoserver.Org.Charges
import Takoserver.Org.Fences

/-!
# Refund receipts under their fence

The receipts of a funding are a chain: the cumulative amount of each is the sum of the
amounts up to it.  A refund plans from the sum it read, and its batch guards that sum and
the generation of the fence, so receipts of concurrent workers cannot interleave.

A fence is lowered on a cumulative amount that agrees with the recorded sum, but for one
path: a refund that finds its receipt on record, of a funding that is not a
PaymentIntent's, lowers the fence by its generation alone.
-/

namespace Takoserver.Org

open Wallet (Instant Fence Refund)

variable {t t' : Tables} {c : Circumstance}

/-! ### The receipts of a funding -/

/-- The receipts of a funding, in the order they were recorded. -/
def Tables.receiptsOf (t : Tables) (org fundingRef : String) : List (Refund × Receipt) :=
  (t.money.refunds.zip t.receipts).filter fun x =>
    decide (x.1.org = org ∧ x.1.fundingRef = fundingRef)

/-- The cumulative amount of each receipt is the running sum. -/
def Chain : ℕ → List (Refund × Receipt) → Prop
  | _, [] => True
  | total, x :: xs =>
      x.2.cumulativeRefundedMicros = total + x.1.amountMicros ∧ Chain (total + x.1.amountMicros) xs

theorem chain_append {total : ℕ} {xs : List (Refund × Receipt)} {x : Refund × Receipt} :
    Chain total (xs ++ [x]) ↔ Chain total xs ∧ x.2.cumulativeRefundedMicros =
      total + (xs.map fun y => y.1.amountMicros).sum + x.1.amountMicros := by
  induction xs generalizing total with
  | nil => simp [Chain]
  | cons y ys ih =>
    simp only [List.cons_append, Chain, ih, List.map_cons, List.sum_cons]
    rw [and_assoc, Nat.add_assoc total]

/-- The recorded sum of a funding is that of its receipts. -/
theorem refunded_eq (hlen : t.money.refunds.length = t.receipts.length) (org ref : String) :
    t.refunded org ref = ((t.receiptsOf org ref).map fun y => y.1.amountMicros).sum := by
  have hfst : t.money.refunds = (t.money.refunds.zip t.receipts).map Prod.fst := by
    rw [List.map_fst_zip]
    omega
  unfold Tables.refunded Wallet.Tables.refundSum Tables.receiptsOf
  conv_lhs => rw [hfst]
  generalize t.money.refunds.zip t.receipts = xs
  induction xs with
  | nil => rfl
  | cons x xs ih =>
    simp only [List.map_cons, Table.sumIf_cons, List.filter_cons, ih]
    by_cases hx : x.1.org = org ∧ x.1.fundingRef = ref
    · simp [hx]
    · simp [hx]

/-- What the tables keep of refunds. -/
structure RefundsKept (t : Tables) : Prop where
  fence_keys : (t.money.fences.map Fence.key).Nodup
  grant_keys : (t.grants.map Grant.key).Nodup
  ids : (t.money.refunds.map Refund.id).Nodup
  aligned : t.receipts.map Receipt.refundId = t.money.refunds.map Refund.id
  chain : ∀ org ref, Chain 0 (t.receiptsOf org ref)
  granted : ∀ row ∈ t.money.refunds, ∃ g ∈ t.grants, g.key = (row.org, row.fundingRef)
  within : ∀ g ∈ t.grants, t.refunded g.org g.fundingRef ≤ g.considerationMicros
  readbacks : ∀ b ∈ t.readbacks,
    ∃ g ∈ t.grants, g.key = (b.org, b.fundingRef) ∧ g.sourceType = .paymentIntent
  natives : ∀ x ∈ t.receipts, ∀ p, x.native = some p →
    ∃ g ∈ t.grants, g.key = (p.org, p.fundingRef) ∧ g.sourceType = .paymentIntent

namespace RefundsKept

section

variable (h : RefundsKept t)

include h

theorem length_eq : t.money.refunds.length = t.receipts.length := by
  have := congrArg List.length h.aligned
  simpa using this.symm

/-- Only the funding of a PaymentIntent is observed. -/
theorem nativeFloor_eq_zero {g : Grant} (hg : g ∈ t.grants) (hne : g.sourceType ≠ .paymentIntent)
    : t.nativeFloor g.org g.fundingRef = 0 := by
  have hnone : t.observations g.org g.fundingRef = [] := by
    have honly : ∀ g' ∈ t.grants, g'.key = (g.org, g.fundingRef) →
        g'.sourceType ≠ .paymentIntent := by
      intro g' hg' hkey
      rwa [Table.eq_of_key h.grant_keys hg' hg hkey]
    unfold Tables.observations
    rw [List.append_eq_nil_iff, List.map_eq_nil_iff, List.map_eq_nil_iff]
    refine ⟨List.filter_eq_nil_iff.mpr fun b hb hk => ?_,
      List.filter_eq_nil_iff.mpr fun p hp hk => ?_⟩
    · rw [decide_eq_true_eq] at hk
      obtain ⟨g', hg', hkey, htype⟩ := h.readbacks b hb
      exact honly g' hg' (by rw [hkey, hk.1, hk.2]) htype
    · rw [decide_eq_true_eq] at hk
      obtain ⟨x, hx, hnative⟩ := List.mem_filterMap.mp hp
      obtain ⟨g', hg', hkey, htype⟩ := h.natives x hx p hnative
      exact honly g' hg' (by rw [hkey, hk.1, hk.2]) htype
  unfold Tables.nativeFloor
  rw [hnone]
  rfl

theorem refunded_eq_zero {org ref : String} (hnone : ∀ g ∈ t.grants, g.key ≠ (org, ref))
    : t.refunded org ref = 0 := by
  refine Table.sumIf_eq_zero fun row hrow hk => ?_
  rw [decide_eq_true_eq] at hk
  obtain ⟨g, hg, hkey⟩ := h.granted row hrow
  exact absurd (by rw [hkey, hk.1, hk.2]) (hnone g hg)

theorem quiet (hq : Quiet t t') : RefundsKept t' := by
  have hgrants : ∀ g ∈ t.grants, g ∈ t'.grants := by
    intro g hg
    rcases hq.grants with heq | ⟨g', heq, -⟩ <;> rw [heq]
    · exact hg
    · exact List.mem_append_left _ hg
  have hrefunded : ∀ org ref, t'.refunded org ref = t.refunded org ref := by
    intro org ref
    unfold Tables.refunded Wallet.Tables.refundSum
    rw [hq.refunds]
  refine ⟨hq.fences.keys h.fence_keys, ?_, ?_, ?_, fun org ref => ?_, fun row hrow => ?_,
    fun g hg => ?_, fun b hb => ?_, fun x hx p hp => ?_⟩
  · rcases hq.grants with heq | ⟨g, heq, hfree⟩ <;> rw [heq]
    · exact h.grant_keys
    · exact Table.nodup_insert h.grant_keys hfree
  · rw [hq.refunds]
    exact h.ids
  · rw [hq.refunds, hq.receipts]
    exact h.aligned
  · unfold Tables.receiptsOf
    rw [hq.refunds, hq.receipts]
    exact h.chain org ref
  · rw [hq.refunds] at hrow
    obtain ⟨g, hg, hkey⟩ := h.granted row hrow
    exact ⟨g, hgrants g hg, hkey⟩
  · rw [hrefunded]
    rcases hq.grants with heq | ⟨g', heq, hfree⟩ <;> rw [heq] at hg
    · exact h.within g hg
    · rcases List.mem_append.mp hg with hg | hg
      · exact h.within g hg
      · rw [List.mem_singleton.mp hg, h.refunded_eq_zero hfree]
        exact Nat.zero_le _
  · rcases hq.readbacks b hb with hb | hb
    · obtain ⟨g, hg, hkey⟩ := h.readbacks b hb
      exact ⟨g, hgrants g hg, hkey⟩
    · exact hb
  · rw [hq.receipts] at hx
    obtain ⟨g, hg, hkey⟩ := h.natives x hx p hp
    exact ⟨g, hgrants g hg, hkey⟩

theorem lower (p : Presented) : RefundsKept (p.lower t) :=
  ⟨clearFence_keys h.fence_keys _ _ _, h.grant_keys, h.ids, h.aligned, h.chain, h.granted, h.within,
    h.readbacks, h.natives⟩

end

end RefundsKept

/-! ### The batch of a refund -/

/-- What a refund that lowers its fence presents. -/
def RefundInput.presented (r : RefundInput) : Presented :=
  ⟨r.grant.org, r.grant.fundingRef, r.fenceGeneration, r.cumulativeRefundedMicros⟩

variable {r : RefundInput} {client : Client} {s s' : System}

/-- The closures of a refund leave fences and receipts alone. -/
theorem RefundInput.closeHolds_quiet {now : Instant} {closures : List Closure}
    (h : r.closeHolds now closures t = some t') :
    t'.money.refunds = t.money.refunds ∧ t'.money.fences = t.money.fences ∧
      t'.receipts = t.receipts ∧ t'.grants = t.grants ∧ t'.readbacks = t.readbacks := by
  refine RefundInput.closeHolds_induction (P := fun u => u.money.refunds = t.money.refunds ∧
    u.money.fences = t.money.fences ∧ u.receipts = t.receipts ∧ u.grants = t.grants ∧
    u.readbacks = t.readbacks) (fun x _ u u' hu hc => ?_) h ⟨rfl, rfl, rfl, rfl, rfl⟩
  obtain ⟨-, m, hm, rfl⟩ := RefundInput.closeHold_cases hc
  unfold Wallet.RefundCall.closeHold at hm
  simp only [Option.bind_eq_bind, Option.bind_eq_some_iff] at hm
  obtain ⟨_, h₁, hm⟩ := hm
  obtain ⟨rfl, -⟩ := Table.guard_some h₁
  obtain ⟨-, rfl⟩ := Wallet.Tables.insertEntry_some hm
  exact hu

/-- What the batch of a refund records: its fence stood under its generation, the recorded sum
was the one it read, and its receipt is new. -/
structure RefundInput.Records (r : RefundInput) (plan : RefundPlan) (t t' : Tables) : Prop where
  stands : r.presented.stands t = true
  sum : t.refunded r.grant.org r.grant.fundingRef = plan.figures.prior.refunded
  fresh : ∀ row ∈ t.money.refunds, row.id ≠ r.refundId
  granted : ∃ g ∈ t.grants, g.key = (r.grant.org, r.grant.fundingRef)
  refunds : t'.money.refunds = t.money.refunds ++ [r.refundRow plan.figures]
  receipts : t'.receipts = t.receipts ++
    [⟨r.refundId, r.cumulativeRefundedMicros, plan.now, r.proof⟩]
  grants : t'.grants = t.grants
  readbacks : t'.readbacks = t.readbacks
  fences : t'.money.fences =
    if r.releaseFreeze then (r.presented.lower t).money.fences else t.money.fences
  drained : r.proof.isSome = true → r.releaseFreeze = true →
    t'.nativeFloor r.grant.org r.grant.fundingRef ≤ r.cumulativeRefundedMicros

theorem RefundInput.records_of_batch {plan : RefundPlan} (h : r.batch plan c t = some t') :
    r.Records plan t t' := by
  unfold RefundInput.batch at h
  simp only [Option.bind_eq_bind, Option.bind_eq_some_iff, Option.pure_def, Option.some.injEq] at h
  obtain ⟨_, h₀, _, h₁, _, h₂, _, h₃, _, h₄, h⟩ := h
  obtain ⟨rfl, hv⟩ := Table.guard_some h₀
  obtain ⟨rfl, -⟩ := Table.guard_some h₂
  obtain ⟨rfl, hdrain⟩ := Table.guard_some h₄
  obtain ⟨hrefunds, hfences, hreceipts, hgrants, hreadbacks⟩ := RefundInput.closeHolds_quiet h₁
  simp only [Bool.and_eq_true] at hv
  unfold Wallet.RefundCall.fenceHolds at hv
  rw [Bool.and_eq_true, decide_eq_true_eq] at hv
  unfold Tables.insertReceipt at h₃
  simp only [Option.bind_eq_bind, Option.bind_eq_some_iff, Option.pure_def, Option.some.injEq] at h₃
  obtain ⟨_, h₅, _, h₆, rfl⟩ := h₃
  obtain ⟨rfl, hgrant⟩ := Table.guard_some h₅
  obtain ⟨m, hm, rfl⟩ := Tables.lift_some h₆
  unfold Wallet.Tables.insertRefund at hm
  split at hm
  · cases hm
  next hfree =>
  cases hm
  rw [not_or, hrefunds] at hfree
  obtain ⟨g, hg, hkey⟩ := List.any_eq_true.mp hgrant
  rw [decide_eq_true_eq] at hkey
  refine
    { stands := hv.2.1
      sum := hv.2.2.1
      fresh := fun row hrow heq => hfree.1 (List.any_eq_true.mpr ⟨row, hrow, decide_eq_true heq⟩)
      granted := ⟨g, hgrants ▸ hg, hkey⟩
      refunds := ?_
      receipts := ?_
      grants := ?_
      readbacks := ?_
      fences := ?_
      drained := fun hsome hrelease => ?_ }
  · rw [← h, ← hrefunds]
    split <;> rfl
  · rw [← h, ← hreceipts]
    split <;> rfl
  · rw [← h, ← hgrants]
    split <;> rfl
  · rw [← h, ← hreadbacks]
    split <;> rfl
  · rw [← h]
    split
    · show (Wallet.Tables.clearFence _ _ _ _).fences = (Wallet.Tables.clearFence _ _ _ _).fences
      unfold Wallet.Tables.clearFence
      rw [← hfences]
      rfl
    · exact hfences
  · simp only [hsome, hrelease, Bool.and_self, Bool.not_true, Bool.false_or,
      decide_eq_true_eq] at hdrain
    rw [← h, if_pos hrelease]
    exact hdrain

namespace RefundsKept

/-- The batch of a refund extends the chain, within its grant. -/
theorem refund (h : RefundsKept t) {plan : RefundPlan} (hr : r.Records plan t t')
    (hgrant : r.grant ∈ t.grants)
    (hproof : ∀ p, r.proof = some p → (p.org, p.fundingRef) = r.grant.key)
    (hsum : plan.figures.prior.refunded + r.amountMicros = r.cumulativeRefundedMicros)
    (hle : r.cumulativeRefundedMicros ≤ r.grant.considerationMicros) : RefundsKept t' := by
  have hlen := h.length_eq
  -- one refund and its receipt are added at the end
  have hzip : t'.money.refunds.zip t'.receipts = t.money.refunds.zip t.receipts ++
      [(r.refundRow plan.figures,
        ⟨r.refundId, r.cumulativeRefundedMicros, plan.now, r.proof⟩)] := by
    rw [hr.refunds, hr.receipts, List.zip_append hlen]
    rfl
  have hrefunded : ∀ org ref, t'.refunded org ref = t.refunded org ref +
      if r.grant.org = org ∧ r.grant.fundingRef = ref then r.amountMicros else 0 := by
    intro org ref
    unfold Tables.refunded Wallet.Tables.refundSum
    rw [hr.refunds, Table.sumIf_append]
    simp [RefundInput.refundRow]
  refine ⟨?_, ?_, ?_, ?_, fun org ref => ?_, fun row hrow => ?_, fun g hg => ?_, fun b hb => ?_,
    fun x hx p hp => ?_⟩
  · rw [hr.fences]
    split
    · exact clearFence_keys h.fence_keys _ _ _
    · exact h.fence_keys
  · rw [hr.grants]
    exact h.grant_keys
  · rw [hr.refunds]
    exact Table.nodup_insert h.ids hr.fresh
  · rw [hr.refunds, hr.receipts, List.map_append, List.map_append, h.aligned]
    rfl
  · -- the receipt's cumulative amount is the sum the batch found, with its own amount
    unfold Tables.receiptsOf
    rw [hzip, List.filter_append]
    by_cases hk : r.grant.org = org ∧ r.grant.fundingRef = ref
    · obtain ⟨rfl, rfl⟩ := hk
      have hone : ([(r.refundRow plan.figures,
          (⟨r.refundId, r.cumulativeRefundedMicros, plan.now, r.proof⟩ : Receipt))].filter
            fun x => decide (x.1.org = r.grant.org ∧ x.1.fundingRef = r.grant.fundingRef)) =
          [(r.refundRow plan.figures,
            ⟨r.refundId, r.cumulativeRefundedMicros, plan.now, r.proof⟩)] := by
        simp [RefundInput.refundRow]
      rw [hone]
      refine chain_append.mpr ⟨h.chain _ _, ?_⟩
      have hs := refunded_eq hlen r.grant.org r.grant.fundingRef
      unfold Tables.receiptsOf at hs
      rw [← hs, hr.sum, Nat.zero_add]
      exact hsum.symm
    · have hnone : ([(r.refundRow plan.figures,
          (⟨r.refundId, r.cumulativeRefundedMicros, plan.now, r.proof⟩ : Receipt))].filter
            fun x => decide (x.1.org = org ∧ x.1.fundingRef = ref)) = [] := by
        simpa [RefundInput.refundRow] using hk
      rw [hnone, List.append_nil]
      exact h.chain org ref
  · rw [hr.grants]
    rw [hr.refunds] at hrow
    rcases Table.mem_insert.mp hrow with hrow | rfl
    · exact h.granted row hrow
    · exact hr.granted
  · rw [hr.grants] at hg
    rw [hrefunded]
    split
    · next hk =>
      obtain rfl := Table.eq_of_key h.grant_keys hgrant hg (by simp [Grant.key, hk.1, hk.2])
      rw [hr.sum, hsum]
      exact hle
    · exact h.within g hg
  · rw [hr.grants]
    rw [hr.readbacks] at hb
    exact h.readbacks b hb
  · rw [hr.grants]
    rw [hr.receipts] at hx
    rcases List.mem_append.mp hx with hx | hx
    · exact h.natives x hx p hp
    · rw [List.mem_singleton.mp hx] at hp
      refine ⟨r.grant, hgrant, (hproof p hp).symm, ?_⟩
      by_contra htype
      simp [RefundInput.proof, htype] at hp

end RefundsKept

/-! ### What a refund has checked -/

/-- The grant is the recorded one, and the proof of a PaymentIntent's is its own. -/
structure RefundInput.Granted (r : RefundInput) (t : Tables) : Prop where
  grant : r.grant ∈ t.grants
  proof : r.grant.sourceType = .paymentIntent → ∃ p, r.native = some p ∧ r.matchesProof p = true

/-- What `refund` has checked before its next statement. -/
def RefundStage.Checked (r : RefundInput) (t : Tables) : RefundStage → Prop
  | .source => True
  | .heldRefs found _ | .row found _ _ _ | .totals found _ _ _ _ _ =>
      r.Granted t ∧ found.refunded + r.amountMicros = r.cumulativeRefundedMicros
  | .committing plan =>
      r.Granted t ∧ plan.figures.prior.refunded + r.amountMicros = r.cumulativeRefundedMicros
  | .clearing _ => r.Granted t ∧ r.proof = none
  | _ => r.Granted t

/-- What a refund has checked, its arguments included. -/
def Client.Checked (t : Tables) : Client → Prop
  | .refunding r stage => r.check = none ∧ stage.Checked r t
  | _ => True

theorem RefundInput.Granted.mono (h : r.Granted t) (hg : ∀ g ∈ t.grants, g ∈ t'.grants) :
    r.Granted t' :=
  ⟨hg _ h.grant, h.proof⟩

theorem RefundInput.Granted.proof_key (h : r.Granted t) {p : NativeProof} (hp : r.proof = some p) :
    (p.org, p.fundingRef) = r.grant.key := by
  have htype : r.grant.sourceType = .paymentIntent := by
    by_contra hne
    simp [RefundInput.proof, hne] at hp
  obtain ⟨_, hp', hmatch⟩ := h.proof htype
  simp only [RefundInput.proof, htype, if_true, hp', Option.some.injEq] at hp
  subst hp
  simp only [RefundInput.matchesProof, decide_eq_true_eq] at hmatch
  rw [Grant.key, hmatch.1, hmatch.2.1]

theorem RefundInput.Granted.sourceType (h : r.Granted t) (hp : r.proof = none) :
    r.grant.sourceType ≠ .paymentIntent := by
  intro htype
  obtain ⟨p, hnative, -⟩ := h.proof htype
  simp [RefundInput.proof, htype, hnative] at hp

theorem Client.Checked.mono (h : client.Checked t) (hg : ∀ g ∈ t.grants, g ∈ t'.grants) :
    client.Checked t' := by
  cases client with
  | refunding r stage =>
    refine ⟨h.1, ?_⟩
    cases stage with
    | source => exact trivial
    | heldRefs prior now | row prior now closures refs | totals prior now closures ref hasRow refs
    | committing plan | clearing row => exact ⟨h.2.1.mono hg, h.2.2⟩
    | _ => exact RefundInput.Granted.mono h.2 hg
  | _ => exact trivial

theorem Tables.source_mem {type : SourceType} {id : String} {g : Grant}
    (h : t.source type id = some g) : g ∈ t.grants :=
  List.mem_of_find?_eq_some h

/-- A plan keeps the sums it was made from. -/
theorem plan_prior {r : Wallet.RefundCall} {prior : Wallet.PriorRefunds}
    {closures : List (String × ℕ)} {lot : Option Wallet.Lot} {spent : ℕ} {now : Instant}
    {figures : Wallet.RefundPlan} (h : r.plan prior closures lot spent now = some figures) :
    figures.prior = prior := by
  unfold Wallet.RefundCall.plan at h
  split at h
  · cases h
  · rw [← Option.some.inj h]

theorem RefundInput.checked_step (hr : r.check = none) {stage : RefundStage} (h : stage.Checked r t)
    (c : Circumstance) : (r.step t c stage).1.Checked t := by
  have hthrows : ∀ code, ((Call.refund r).throws code).Checked t := fun _ => trivial
  have hproven : ∀ p, r.Granted t → (r.proven p).Checked t := by
    intro p hg
    unfold RefundInput.proven
    split
    · exact trivial
    · split
      · exact trivial
      · exact ⟨hr, hg⟩
  have hclear : ∀ row, r.Granted t → (r.clear row).Checked t := by
    intro row hg
    unfold RefundInput.clear
    split
    · exact ⟨hr, hg⟩
    · exact trivial
  -- a check passed is what the next stage may assume
  cases stage with
  | source =>
    simp only [RefundInput.step]
    split
    · exact trivial
    next hsource =>
    have hmem := Tables.source_mem (not_not.mp hsource)
    split
    · split
      · exact trivial
      · next p hp =>
        split
        · exact trivial
        · next hmatch =>
          simp only [Bool.or_eq_true, Bool.not_eq_true', not_or, Bool.not_eq_true,
            Bool.not_eq_false] at hmatch
          exact ⟨hr, hmem, fun _ => ⟨p, hp, hmatch.2⟩⟩
    · next htype => exact ⟨hr, hmem, fun heq => absurd heq htype⟩
  | floor p =>
    simp only [RefundInput.step]
    split
    · exact hproven p h
    · split
      · exact trivial
      · exact ⟨hr, h⟩
  | observing => exact ⟨hr, h⟩
  | observed p =>
    simp only [RefundInput.step]
    split
    · exact hproven p h
    · exact trivial
  | prior =>
    simp only [RefundInput.step]
    split
    · split
      · exact hclear _ h
      · exact trivial
    · exact ⟨hr, h⟩
  | sums =>
    simp only [RefundInput.step]
    split
    · exact trivial
    · next hsum =>
      split
      · exact trivial
      · split
        · exact trivial
        · exact ⟨hr, h, not_not.mp hsum⟩
  | heldRefs => exact ⟨hr, h⟩
  | row _ _ _ refs =>
    cases refs with
    | nil =>
      simp only [RefundInput.step]
      split
      · next hplan =>
        refine ⟨hr, h.1, ?_⟩
        rw [plan_prior hplan]
        exact h.2
      · exact trivial
    | cons =>
      simp only [RefundInput.step]
      split
      · split
        · exact ⟨hr, h⟩
        · exact trivial
      · exact ⟨hr, h⟩
  | totals =>
    simp only [RefundInput.step]
    split
    · exact ⟨hr, h⟩
    · exact trivial
  | committing =>
    simp only [RefundInput.step]
    split <;> exact ⟨hr, h.1⟩
  | receipt =>
    simp only [RefundInput.step]
    split
    · split
      · split
        · exact hclear _ h
        · exact trivial
      · exact trivial
    · exact trivial
  | fence =>
    simp only [RefundInput.step]
    split
    · split
      · exact trivial
      · exact ⟨hr, h⟩
    · next hproof =>
      split
      · exact trivial
      · split
        · exact trivial
        · split
          · exact ⟨hr, h, hproof⟩
          · exact trivial
  | unfreezing row cumulative stage =>
    exact unfreezeStep_client t c _ _ _ _ _ _ cumulative stage (P := Client.Checked t)
      (fun _ => ⟨hr, h⟩) trivial hthrows
  | clearing =>
    simp only [RefundInput.step]
    split
    · exact trivial
    · split
      · split <;> exact trivial
      · exact trivial

theorem Client.Checked.step (hfit : client.Fit) (h : client.Checked t) (c : Circumstance) :
    (client.step t c).1.Checked t := by
  have hother : (∀ r, client.made ≠ some (.refund r)) → (client.step t c).1.Checked t := by
    intro hne
    cases hstep : (client.step t c).1 with
    | refunding r =>
      have hmade := made_step hfit t c
      rw [hstep] at hmade
      exact absurd hmade.symm (hne r)
    | _ => exact trivial
  cases client with
  | refunding => exact RefundInput.checked_step h.1 h.2 c
  | finished => exact trivial
  | closing =>
    refine hother fun r heq => ?_
    cases heq
    cases hfit.2
  | wallet w =>
    refine hother fun r heq => ?_
    obtain ⟨_, -, hcall⟩ := Option.map_eq_some_iff.mp heq
    cases hcall
  | _ => exact hother fun r heq => (by cases heq)

theorem checked_start (t : Tables) (now : Instant) (call : Call) : (call.start now).Checked t := by
  have hstarts := call.starts now
  generalize call.start now = client at hstarts ⊢
  cases hstarts with
  | refund h => exact ⟨h, trivial⟩
  | _ => trivial

/-! ### Runs -/

/-- The tables are kept, and each refund has checked what it goes on with. -/
structure System.RefundsKept (s : System) : Prop where
  db : Org.RefundsKept s.db
  checked : ∀ i, (s.client i).Checked s.db

theorem within_of_check (h : r.check = none) :
    r.cumulativeRefundedMicros ≤ r.grant.considerationMicros := by
  unfold RefundInput.check at h
  split at h
  · cases h
  · split at h
    · cases h
    · next hle => exact Nat.le_of_not_lt fun hlt => hle (Or.inr hlt)

/-- A step keeps the receipts. -/
theorem RefundsKept.step (h : RefundsKept t) (hk : Kept t) (hfit : client.Fit)
    (hc : client.Checked t) (c : Circumstance) :
    RefundsKept (client.step t c).2 ∧ ∀ g ∈ t.grants, g ∈ (client.step t c).2.grants := by
  rcases fences_of_step hk hfit c with hq | ⟨p, -, -, heq, -⟩ | ⟨r, _, rfl, hb⟩
  · refine ⟨h.quiet hq, fun g hg => ?_⟩
    rcases hq.grants with heq | ⟨g', heq, -⟩ <;> rw [heq]
    · exact hg
    · exact List.mem_append_left _ hg
  · rw [heq]
    exact ⟨h.lower p, fun g hg => hg⟩
  · have hr := RefundInput.records_of_batch hb
    obtain ⟨hcheck, hgranted, hsum⟩ := hc
    refine ⟨h.refund hr hgranted.grant (fun p hp => hgranted.proof_key hp) hsum
      (within_of_check hcheck), fun g hg => ?_⟩
    rw [hr.grants]
    exact hg

theorem System.RefundsKept.next {a : Action} (h : s.RefundsKept) (hk : s.Kept)
    (hn : orgs.next s a = some s') : s'.RefundsKept := by
  have hdb : Org.RefundsKept s'.db ∧ ∀ g ∈ s.db.grants, g ∈ s'.db.grants := by
    rcases db_of_next hn with heq | ⟨i, c, heq⟩ | ⟨_, hy⟩
    · rw [heq]
      exact ⟨h.db, fun g hg => hg⟩
    · rw [heq]
      exact h.db.step hk.db (hk.fit i) (h.checked i) c
    · unfold Tables.registerTariff at hy
      split at hy
      · cases hy
      · rw [← Option.some.inj hy]
        exact ⟨h.db.quiet (.of_eq rfl rfl rfl rfl rfl), fun g hg => hg⟩
  refine ⟨hdb.1, fun i => ?_⟩
  cases turn_of_next hn i with
  | call _ _ hclient => exact hclient ▸ checked_start _ _ _
  | step c hclient =>
    rw [hclient]
    exact (Client.Checked.step (hk.fit i) (h.checked i) _).mono hdb.2
  | crash hclient => exact hclient ▸ trivial
  | rest hclient => exact hclient ▸ (h.checked i).mono hdb.2

theorem refundsKept_of_reachable (h : orgs.Reachable s) : s.RefundsKept := by
  refine Machine.Reachable.invariant ⟨⟨List.nodup_nil, List.nodup_nil, List.nodup_nil, rfl,
    fun _ _ => trivial, fun _ h => (by cases h), fun _ h => (by cases h), fun _ h => (by cases h),
    fun _ h => (by cases h)⟩, fun _ => trivial⟩
    (fun s a s' hr hs hn => ?_) h
  exact hs.next (kept_of_reachable hr) hn

/-! ### Fences that fall -/

/-- The fence of a funding is lowered by a call that presents its generation, and an amount that
is the recorded sum and not less than any observation. -/
def FallsSettled (s s' : System) (a : Action) (org fundingRef : String) : Prop :=
  ∃ i c p, a = .step i c ∧ (s.client i).clears = some p ∧ p.org = org ∧ p.fundingRef = fundingRef ∧
    p.generation = s.db.generation org fundingRef ∧
    s'.db.refunded org fundingRef = p.cumulative ∧
    ∀ amount ∈ s'.db.observations org fundingRef, amount ≤ p.cumulative

/-- The step lowers no fence on the replay of a receipt whose cumulative amount is not the
recorded sum. -/
def compared (s : System) : Action → Bool
  | .step i c =>
    match s.client i with
    | .refunding r (.clearing _) =>
      c.vetoed || !r.presented.stands s.db ||
        decide (s.db.refunded r.grant.org r.grant.fundingRef = r.cumulativeRefundedMicros)
    | _ => true
  | _ => true

theorem le_nativeFloor {org ref : String} {amount : ℕ} (h : amount ∈ t.observations org ref) :
    amount ≤ t.nativeFloor org ref := by
  have key : ∀ (xs : List ℕ) (m : ℕ), m ≤ xs.foldl max m ∧ ∀ x ∈ xs, x ≤ xs.foldl max m := by
    intro xs
    induction xs with
    | nil => intro m; exact ⟨le_refl _, by simp⟩
    | cons y ys ih =>
      intro m
      obtain ⟨hm, hys⟩ := ih (max m y)
      refine ⟨le_trans (le_max_left _ _) hm, fun x hx => ?_⟩
      rcases List.mem_cons.mp hx with rfl | hx
      · exact le_trans (le_max_right _ _) hm
      · exact hys x hx
  exact (key _ 0).2 amount h

/-- A step lowers no generation, and a fence it lowers falls settled where the step is
compared, and only there. -/
theorem System.RefundsKept.fences {a : Action} (h : s.RefundsKept) (hk : s.Kept)
    (hn : orgs.next s a = some s') :
    (∀ org ref, s.db.generation org ref ≤ s'.db.generation org ref) ∧
      (compared s a = true → ∀ org ref, s.db.money.fenced org ref = true →
        ¬s'.db.money.fenced org ref = true → FallsSettled s s' a org ref) ∧
      (compared s a = false → ∃ org ref, s.db.money.fenced org ref = true ∧
        ¬s'.db.money.fenced org ref = true ∧ ¬FallsSettled s s' a org ref) := by
  -- nothing moves a fence but a write of the books
  by_cases hsame : s'.db.money = s.db.money ∧ compared s a = true
  · obtain ⟨hm, hc⟩ := hsame
    refine ⟨fun org ref => ?_, fun _ org ref hf hf' => ?_, fun hc' => ?_⟩
    · unfold Tables.generation
      rw [hm]
    · rw [hm] at hf'
      exact absurd hf hf'
    · rw [hc] at hc'
      cases hc'
  cases a with
  | call =>
    cases hn
    exact absurd ⟨rfl, rfl⟩ hsame
  | crash i =>
    cases hn
    exact absurd ⟨rfl, rfl⟩ hsame
  | tick =>
    simp only [orgs] at hn
    split at hn
    · cases hn
      exact absurd ⟨rfl, rfl⟩ hsame
    · cases hn
  | register x =>
    simp only [orgs, Option.map_eq_some_iff] at hn
    obtain ⟨_, ht', rfl⟩ := hn
    unfold Tables.registerTariff at ht'
    split at ht'
    · cases ht'
    · cases ht'
      exact absurd ⟨rfl, rfl⟩ hsame
  | step i c =>
    cases hn
    have hkeys := h.db.fence_keys
    have hchecked := h.checked i
    rcases fences_of_step hk.db (hk.fit i) (c.atClock s.clock) with hq | ⟨p, hp, hstands, heq, hfree⟩ |
      ⟨r, _, hclient, hb⟩
    · -- nothing falls in a quiet step, so it is compared
      refine ⟨hq.fences.generation, fun _ org ref hf hf' => absurd (hq.fences.stands org ref hf) hf',
        fun hc => ?_⟩
      unfold compared at hc
      dsimp only at hc
      split at hc
      · next r _ hclient =>
        simp only [Bool.or_eq_false_iff, Bool.not_eq_false'] at hc
        have hcleared : ((s.client i).step s.db (c.atClock s.clock)).2 =
            r.presented.lower s.db := by
          have hv : (c.atClock s.clock).vetoed = false := hc.1.1
          have hstands : (s.db.money.fences.any fun f => f.org = r.grant.org ∧
              f.fundingRef = r.grant.fundingRef ∧ f.generation = r.fenceGeneration ∧
              f.active) = true := hc.1.2
          rw [hclient]
          simp only [Client.step, RefundInput.step]
          rw [hv, if_neg (by simp), if_pos hstands]
          rfl
        obtain ⟨hf, hgen⟩ := (standing_iff hkeys).mp hc.1.2
        have hfell := hq.fences.stands _ _ hf
        rw [hcleared] at hfell
        exact absurd ⟨rfl, rfl, hgen⟩ ((fenced_clearFence hkeys).mp hfell).2
      · cases hc
    · -- the call lowers the fence it presents
      obtain ⟨hf, hgen⟩ := (standing_iff hkeys).mp hstands
      have honly : ∀ org ref, s.db.money.fenced org ref = true →
          ¬(p.lower s.db).money.fenced org ref = true → org = p.org ∧ ref = p.fundingRef := by
        intro org ref hf' hfell
        by_contra hne
        exact hfell ((fenced_clearFence hkeys).mpr ⟨hf', fun hk => hne ⟨hk.1, hk.2.1⟩⟩)
      simp only [heq]
      refine ⟨fun org ref => (generationOf_clearFence _ _ _ _ _ _).ge, fun hc org ref hf' hfell => ?_,
        fun hc => ?_⟩
      · obtain ⟨rfl, rfl⟩ := honly org ref hf' hfell
        have hsettled : p.Settled s.db := by
          rcases hfree with ⟨r, _, hclient, hv⟩ | hsettled
          · rw [hclient] at hp hchecked
            cases hp
            obtain ⟨-, hgranted, hproof⟩ := hchecked
            have hsum : s.db.refunded r.grant.org r.grant.fundingRef =
                r.cumulativeRefundedMicros := by
              have hv' : c.vetoed = false := hv
              have hstands' : r.presented.stands s.db = true := hstands
              simpa [compared, hclient, hv', hstands'] using hc
            refine ⟨hsum, ?_⟩
            rw [h.db.nativeFloor_eq_zero hgranted.grant (hgranted.sourceType hproof)]
            exact Nat.zero_le _
          · exact hsettled
        exact ⟨i, c, p, rfl, hp, rfl, rfl, hgen.symm, hsettled.1,
          fun amount ha => (le_nativeFloor ha).trans hsettled.2⟩
      · unfold compared at hc
        dsimp only at hc
        split at hc
        · next r _ hclient =>
          rw [hclient] at hp
          cases hp
          simp only [Bool.or_eq_false_iff, decide_eq_false_iff_not] at hc
          refine ⟨r.grant.org, r.grant.fundingRef, hf, ?_, ?_⟩
          · exact fun hfell => ((fenced_clearFence hkeys).mp hfell).2 ⟨rfl, rfl, hgen⟩
          · rintro ⟨j, _, _, heq', hp', -, -, -, hsum, -⟩
            cases heq'
            rw [hclient] at hp'
            cases hp'
            exact hc.2 hsum
        · cases hc
    · -- the batch of a refund lowers the fence with its receipt
      have hr := RefundInput.records_of_batch hb
      rw [hclient] at hchecked
      obtain ⟨-, hgranted, hsum⟩ := hchecked
      obtain ⟨-, hgen⟩ := (standing_iff hkeys).mp hr.stands
      have hafter := h.db.step hk.db (hk.fit i) (h.checked i) (c.atClock s.clock)
      refine ⟨fun org ref => ?_, fun _ org ref hf' hfell => ?_, fun hc => ?_⟩
      · show generationOf _ org ref ≤ generationOf _ org ref
        unfold generationOf fenceOf
        rw [hr.fences]
        split
        · exact (generationOf_clearFence _ _ _ _ org ref).ge
        · exact le_refl _
      · have hfences := hr.fences
        cases hrelease : r.releaseFreeze with
        | false =>
          rw [hrelease, if_neg (by simp)] at hfences
          have hstands := (FencesRise.of_eq hfences).stands org ref hf'
          exact absurd hstands hfell
        | true =>
          rw [hrelease, if_pos rfl] at hfences
          have hfell' : ¬(r.presented.lower s.db).money.fenced org ref = true := by
            intro hstands
            exact hfell ((FencesRise.of_eq hfences).stands org ref hstands)
          have hkey : org = r.grant.org ∧ ref = r.grant.fundingRef := by
            by_contra hne
            exact hfell' ((fenced_clearFence hkeys).mpr ⟨hf', fun hk => hne ⟨hk.1, hk.2.1⟩⟩)
          obtain ⟨rfl, rfl⟩ := hkey
          refine ⟨i, c, r.presented, rfl, ?_, rfl, rfl, hgen.symm, ?_, fun amount ha => ?_⟩
          · rw [hclient]
            simp [Client.clears, hrelease, RefundInput.presented]
          · show Table.sumIf _ _ _ = r.cumulativeRefundedMicros
            rw [hr.refunds, Table.sumIf_append]
            have hs := hr.sum
            unfold Tables.refunded Wallet.Tables.refundSum at hs
            rw [hs, ← hsum]
            simp [RefundInput.refundRow]
          · refine (le_nativeFloor ha).trans ?_
            cases hproof : r.proof with
            | some p => exact hr.drained (by rw [hproof]; rfl) hrelease
            | none =>
              rw [hafter.1.nativeFloor_eq_zero (hafter.2 _ hgranted.grant)
                (hgranted.sourceType hproof)]
              exact Nat.zero_le _
      · unfold compared at hc
        dsimp only at hc
        rw [hclient] at hc
        cases hc

theorem generation_le_of_path {ok : System → Action → Prop} (hr : orgs.Reachable s)
    (h : orgs.PathVia ok s s') (org ref : String) :
    s.db.generation org ref ≤ s'.db.generation org ref := by
  have key : orgs.Reachable s' ∧ s.db.generation org ref ≤ s'.db.generation org ref := by
    refine Machine.PathVia.invariant (P := fun u => orgs.Reachable u ∧
      s.db.generation org ref ≤ u.db.generation org ref) ?_ h ⟨hr, le_refl _⟩
    rintro u a _ ⟨hu, hle⟩ - hn
    have hstep := ((refundsKept_of_reachable hu).fences (kept_of_reachable hu) hn).1 org ref
    exact ⟨hu.next hn, hle.trans hstep⟩
  exact key.2

/-- **Refund fencing.**  In every run of compared steps: each refund is recorded at most once,
under its own receipt; the receipts of a funding are a chain whose cumulative amounts are the
running sums, and the recorded sum of a grant's funding is within its consideration; no
generation of a fence goes down; and a fence that stands and later does not fell in between
by a call that presented its generation, with a cumulative amount that was the recorded sum
and not less than any observation.  A step that is not compared lowers a fence otherwise. -/
theorem refund_fencing {s : System} (h : orgs.ReachVia (fun s a => compared s a = true) s) :
    (s.db.money.refunds.map Refund.id).Nodup ∧
      s.db.receipts.map Receipt.refundId = s.db.money.refunds.map Refund.id ∧
      (∀ org ref, Chain 0 (s.db.receiptsOf org ref)) ∧
      (∀ row ∈ s.db.money.refunds, ∃ g ∈ s.db.grants, g.key = (row.org, row.fundingRef)) ∧
      (∀ g ∈ s.db.grants, s.db.refunded g.org g.fundingRef ≤ g.considerationMicros) ∧
      (∀ s', orgs.PathVia (fun s a => compared s a = true) s s' → ∀ org ref,
        s.db.generation org ref ≤ s'.db.generation org ref ∧
          (s.db.money.fenced org ref = true → ¬s'.db.money.fenced org ref = true →
            ∃ u a u', orgs.PathVia (fun s a => compared s a = true) s u ∧
              orgs.next u a = some u' ∧
              orgs.PathVia (fun s a => compared s a = true) u' s' ∧
              u.db.money.fenced org ref = true ∧ ¬u'.db.money.fenced org ref = true ∧
              FallsSettled u u' a org ref)) ∧
      ∀ a s', orgs.next s a = some s' → compared s a = false →
        ∃ org ref, s.db.money.fenced org ref = true ∧ ¬s'.db.money.fenced org ref = true ∧
          ¬FallsSettled s s' a org ref := by
  have hk := kept_of_reachable h.reachable
  have hr := refundsKept_of_reachable h.reachable
  refine ⟨hr.db.ids, hr.db.aligned, hr.db.chain, hr.db.granted, hr.db.within,
    fun s' hpath org ref => ⟨generation_le_of_path h.reachable hpath org ref, fun hf hf' => ?_⟩,
    fun a s' hn hc => (hr.fences hk hn).2.2 hc⟩
  obtain ⟨u, a, u', hsu, hok, hn, hus, hu, hu'⟩ := hpath.exists_step
    (P := fun u => u.db.money.fenced org ref = true) hf hf'
  have hreach := (h.path hsu).reachable
  exact ⟨u, a, u', hsu, hn, hus, hu, hu',
    ((refundsKept_of_reachable hreach).fences (kept_of_reachable hreach) hn).2.1 hok org ref hu hu'⟩

/-! ### A checkout refunded in two parts -/

/-- A checkout of 100, frozen, and refunded in parts of 30; then the first refund again, which
is to lower the fence. -/
def refundedRun : List Action :=
  let g : Grant := { org := "org", fundingRef := "lot", kind := .purchased, amountMicros := 100,
                     expiresAt := none, sourceType := .checkout, sourceId := "cs",
                     chargeId := "ch", considerationMicros := 100 }
  let first : RefundInput := { refundId := "re_1", grant := g, amountMicros := 30,
                               cumulativeRefundedMicros := 30, fenceGeneration := 1,
                               releaseFreeze := false }
  let second := { first with refundId := "re_2", cumulativeRefundedMicros := 60 }
  .call 0 (.grant g) :: advance 0 3 ++
  .call 0 (.freezeFunding "org" "lot") :: advance 0 1 ++
  .call 0 (.refund first) :: advance 0 7 ++
  .call 0 (.refund second) :: advance 0 7 ++
  .call 0 (.refund { first with releaseFreeze := true }) :: advance 0 3

/-- `refund_fencing` at the end of `refundedRun`, where two receipts are recorded. -/
theorem refund_fencing_refundedRun :
    ∃ s, orgs.ReachVia (fun s a => compared s a = true) s ∧
      s.db.refunded "org" "lot" = 60 ∧ s.db.money.fenced "org" "lot" = true ∧
        Chain 0 (s.db.receiptsOf "org" "lot") := by
  obtain ⟨s, hr, hp⟩ := Machine.exists_reachVia_of_run (M := orgs) compared refundedRun
    (fun s => s.db.refunded "org" "lot" = 60 ∧ s.db.money.fenced "org" "lot" = true)
    (by decide +kernel)
  have hp' : s.db.refunded "org" "lot" = 60 ∧ s.db.money.fenced "org" "lot" = true := by
    simpa using hp
  exact ⟨s, hr, hp'.1, hp'.2, (refund_fencing hr).2.2.1 "org" "lot"⟩

/-- After `refundedRun` the next step lowers the fence on a cumulative amount of 30 where 60 is
recorded. -/
theorem replay_lowers_fence :
    ¬∀ s a s', orgs.Reachable s → orgs.next s a = some s' → ∀ org ref,
      s.db.money.fenced org ref = true → ¬s'.db.money.fenced org ref = true →
        FallsSettled s s' a org ref := by
  intro hall
  obtain ⟨s, hr, hp⟩ := Machine.exists_reachable_of_run (M := orgs) refundedRun
    (fun s => !compared s (.step 0 { now := 0 })) (by decide +kernel)
  have hn : ∃ s', orgs.next s (.step 0 { now := 0 }) = some s' := ⟨_, rfl⟩
  obtain ⟨s', hn⟩ := hn
  obtain ⟨org, ref, hf, hf', hnot⟩ := ((refundsKept_of_reachable hr).fences
    (kept_of_reachable hr) hn).2.2 (by simpa using hp)
  exact hnot (hall s _ s' hr hn org ref hf hf')

end Takoserver.Org
