import Takoserver.Org.Changes

/-!
# Fences

A funding's fence is raised under a new generation by every freeze, and lowered by the
call that presents that generation.  This module says what each step of the machine
does to fences and to what they guard: the receipts, the grants and the observations of
native refunds.
-/

namespace Takoserver.Org

open Wallet (Instant Fence Refund)

variable {t t' : Tables} {c : Circumstance} {m m' : Wallet.Tables}

/-! ### Fences of the wallet -/

/-- The fence of a funding. -/
def fenceOf (m : Wallet.Tables) (org fundingRef : String) : Option Fence :=
  Table.find Fence.key m.fences (org, fundingRef)

/-- The generation of a funding's fence, nothing where it has none. -/
def generationOf (m : Wallet.Tables) (org fundingRef : String) : ℕ :=
  (fenceOf m org fundingRef).elim 0 Fence.generation

/-- The generation of a funding's fence. -/
def Tables.generation (t : Tables) (org fundingRef : String) : ℕ :=
  generationOf t.money org fundingRef

variable {f : Fence} {org ref : String} {generation : ℕ} {now : Instant}

theorem Fence.key_eq :
    f.key = (org, ref) ↔ f.org = org ∧ f.fundingRef = ref := by
  simp [Wallet.Fence.key]

section

variable (hn : (m.fences.map Fence.key).Nodup)

include hn

theorem fenceOf_eq_some :
    fenceOf m org ref = some f ↔ f ∈ m.fences ∧ f.org = org ∧ f.fundingRef = ref := by
  unfold fenceOf
  rw [Table.find_eq_some_iff hn, Fence.key_eq]

/-- A fence stands where the row of its funding is active. -/
theorem fenced_iff :
    m.fenced org ref = true ↔ ∃ f, fenceOf m org ref = some f ∧ f.active = true := by
  unfold Wallet.Tables.fenced
  simp only [List.any_eq_true, decide_eq_true_eq]
  constructor
  · rintro ⟨f, hf, ho, hr, ha⟩
    exact ⟨f, (fenceOf_eq_some hn).mpr ⟨hf, ho, hr⟩, ha⟩
  · rintro ⟨f, hf, ha⟩
    obtain ⟨hmem, ho, hr⟩ := (fenceOf_eq_some hn).mp hf
    exact ⟨f, hmem, ho, hr, ha⟩

theorem standing_iff :
    (m.fences.any fun f => f.org = org ∧ f.fundingRef = ref ∧ f.generation = generation ∧
        f.active) = true ↔
      m.fenced org ref = true ∧ generationOf m org ref = generation := by
  rw [fenced_iff hn]
  simp only [List.any_eq_true, decide_eq_true_eq, generationOf]
  constructor
  · rintro ⟨f, hf, ho, hr, hg, ha⟩
    have hfind := (fenceOf_eq_some hn).mpr ⟨hf, ho, hr⟩
    exact ⟨⟨f, hfind, ha⟩, by rw [hfind]; exact hg⟩
  · rintro ⟨⟨f, hfind, ha⟩, hg⟩
    rw [hfind] at hg
    obtain ⟨hmem, ho, hr⟩ := (fenceOf_eq_some hn).mp hfind
    exact ⟨f, hmem, ho, hr, hg, ha⟩

end

/-- No generation goes down, and no fence is lowered. -/
structure FencesRise (m m' : Wallet.Tables) : Prop where
  keys : (m.fences.map Fence.key).Nodup → (m'.fences.map Fence.key).Nodup
  generation : ∀ org ref, generationOf m org ref ≤ generationOf m' org ref
  stands : ∀ org ref, m.fenced org ref = true → m'.fenced org ref = true

theorem FencesRise.of_eq (h : m'.fences = m.fences) : FencesRise m m' := by
  refine ⟨fun hn => by rwa [h], fun org ref => ?_, fun org ref hf => ?_⟩
  · unfold generationOf fenceOf
    rw [h]
  · unfold Wallet.Tables.fenced at hf ⊢
    rwa [h]

/-- Raising a fence under a generation that is not less than the one it has. -/
theorem FencesRise.setFence (ha : f.active = true)
    (hg : generationOf m f.org f.fundingRef ≤ f.generation) : FencesRise m (m.setFence f) := by
  have hfind : ∀ k, Table.find Fence.key (m.setFence f).fences k =
      if f.key = k then some f else Table.find Fence.key m.fences k := by
    intro k
    unfold Wallet.Tables.setFence Table.find Table.erase
    rw [List.find?_append]
    by_cases hk : f.key = k
    · subst hk
      have hnone : (m.fences.filter fun r => decide (r.key ≠ f.key)).find?
          (fun r => decide (r.key = f.key)) = none := by
        rw [List.find?_eq_none]
        intro r hr
        simpa using (List.mem_filter.mp hr).2
      rw [hnone]
      simp
    · rw [if_neg hk]
      have hone : [f].find? (fun r => decide (r.key = k)) = none := by simp [hk]
      rw [hone, Option.or_none, List.find?_filter]
      refine congrArg (fun p => List.find? p m.fences) (funext fun r => ?_)
      by_cases hr : r.key = k
      · simp [hr, show ¬k = f.key from fun h => hk h.symm]
      · simp [hr]
  refine ⟨fun hn => ?_, fun org ref => ?_, fun org ref hf => ?_⟩
  · refine Table.nodup_insert (Table.nodup_erase hn) fun r hr => ?_
    exact (Table.mem_erase.mp hr).2
  · unfold generationOf fenceOf
    rw [hfind]
    split
    · next hk =>
      obtain ⟨rfl, rfl⟩ := Fence.key_eq.mp hk
      exact hg
    · exact le_refl _
  · unfold Wallet.Tables.fenced Wallet.Tables.setFence at *
    simp only [List.any_eq_true, decide_eq_true_eq] at hf ⊢
    obtain ⟨r, hr, ho, href, hra⟩ := hf
    by_cases hk : r.key = f.key
    · obtain ⟨ho', hr'⟩ := Fence.key_eq.mp hk
      exact ⟨f, by simp, ho'.symm.trans ho, hr'.symm.trans href, ha⟩
    · exact ⟨r, List.mem_append_left _ (Table.mem_erase.mpr ⟨hr, hk⟩), ho, href, hra⟩

theorem fenceOf_clearFence (m : Wallet.Tables) (org ref : String) (generation : ℕ)
    (org' ref' : String) :
    fenceOf (m.clearFence org ref generation) org' ref' =
      (fenceOf m org' ref').map fun f =>
        if f.key = (org, ref) ∧ f.generation = generation then { f with active := false } else f := by
  unfold fenceOf Table.find Wallet.Tables.clearFence
  rw [List.find?_map]
  refine congrArg (Option.map _) (congrArg (fun p => List.find? p m.fences) (funext fun f => ?_))
  simp only [Function.comp]
  split <;> rfl

theorem generationOf_clearFence (m : Wallet.Tables) (org ref : String) (generation : ℕ)
    (org' ref' : String) :
    generationOf (m.clearFence org ref generation) org' ref' = generationOf m org' ref' := by
  unfold generationOf
  rw [fenceOf_clearFence]
  cases fenceOf m org' ref' with
  | none => rfl
  | some f =>
    simp only [Option.map_some, Option.elim_some]
    split <;> rfl

theorem clearFence_keys (hn : (m.fences.map Fence.key).Nodup) (org ref : String) (generation : ℕ) :
    ((m.clearFence org ref generation).fences.map Fence.key).Nodup := by
  have heq : (m.clearFence org ref generation).fences.map Fence.key = m.fences.map Fence.key := by
    unfold Wallet.Tables.clearFence
    rw [List.map_map]
    refine List.map_congr_left fun f _ => ?_
    simp only [Function.comp]
    split <;> rfl
  rwa [heq]

theorem fenced_clearFence (hn : (m.fences.map Fence.key).Nodup) {org' ref' : String} :
    (m.clearFence org ref generation).fenced org' ref' = true ↔
      m.fenced org' ref' = true ∧
        ¬(org' = org ∧ ref' = ref ∧ generationOf m org ref = generation) := by
  rw [fenced_iff (clearFence_keys hn org ref generation), fenced_iff hn, fenceOf_clearFence]
  cases hf : fenceOf m org' ref' with
  | none => simp
  | some f =>
    obtain ⟨-, ho, hr⟩ := (fenceOf_eq_some hn).mp hf
    simp only [Option.map_some, Option.some.injEq, exists_eq_left']
    by_cases hk : f.key = (org, ref) ∧ f.generation = generation
    · rw [if_pos hk]
      obtain ⟨ho', hr'⟩ := Fence.key_eq.mp hk.1
      have hgen : generationOf m org ref = generation := by
        unfold generationOf
        rw [← ho', ← hr', ho, hr, hf]
        exact hk.2
      simp [← ho, ← hr, ho', hr', hgen]
    · rw [if_neg hk]
      refine ⟨fun ha => ⟨ha, ?_⟩, fun ha => ha.1⟩
      rintro ⟨rfl, rfl, hgen⟩
      refine hk ⟨Fence.key_eq.mpr ⟨ho, hr⟩, ?_⟩
      rw [← hgen]
      unfold generationOf
      rw [hf]
      rfl

/-! ### Calls that lower a fence -/

/-- What a call presents for a fence to be lowered. -/
structure Presented where
  org : String
  fundingRef : String
  generation : ℕ
  cumulative : ℕ

/-- What a call that is about to lower a fence presents. -/
def Client.clears : Client → Option Presented
  | .unfreezing org ref generation cumulative .committing => some ⟨org, ref, generation, cumulative⟩
  | .refunding r (.committing _) =>
      if r.releaseFreeze then
        some ⟨r.grant.org, r.grant.fundingRef, r.fenceGeneration, r.cumulativeRefundedMicros⟩
      else none
  | .refunding r (.unfreezing _ cumulative .committing) =>
      some ⟨r.grant.org, r.grant.fundingRef, r.fenceGeneration, cumulative⟩
  | .refunding r (.clearing _) =>
      some ⟨r.grant.org, r.grant.fundingRef, r.fenceGeneration, r.cumulativeRefundedMicros⟩
  | _ => none

/-- The fence stands under the generation presented. -/
def Presented.stands (p : Presented) (t : Tables) : Bool :=
  t.money.fences.any fun f =>
    f.org = p.org ∧ f.fundingRef = p.fundingRef ∧ f.generation = p.generation ∧ f.active

/-- The fence lowered by a proof. -/
def Presented.lower (p : Presented) (t : Tables) : Tables :=
  { t with money := t.money.clearFence p.org p.fundingRef p.generation }

/-- The amount presented is the recorded sum, and no observation is more. -/
def Presented.Settled (p : Presented) (t : Tables) : Prop :=
  t.refunded p.org p.fundingRef = p.cumulative ∧ t.nativeFloor p.org p.fundingRef ≤ p.cumulative

theorem unfreeze_some {cumulative : ℕ} (h : t.unfreeze org ref generation cumulative = some t') :
    Presented.stands ⟨org, ref, generation, cumulative⟩ t = true ∧
      Presented.Settled ⟨org, ref, generation, cumulative⟩ t ∧
      t' = Presented.lower ⟨org, ref, generation, cumulative⟩ t := by
  unfold Tables.unfreeze at h
  simp only [Option.bind_eq_bind, Option.bind_eq_some_iff, Option.pure_def, Option.some.injEq] at h
  obtain ⟨_, h₁, rfl⟩ := h
  obtain ⟨rfl, hv⟩ := Table.guard_some h₁
  rw [Bool.and_eq_true, decide_eq_true_eq] at hv
  exact ⟨hv.1, hv.2, rfl⟩

/-! ### Quiet steps -/

/-- No receipt is recorded and no fence lowered; a new grant is of a new funding, and a new
readback is of a PaymentIntent's. -/
structure Quiet (t t' : Tables) : Prop where
  refunds : t'.money.refunds = t.money.refunds
  receipts : t'.receipts = t.receipts
  fences : FencesRise t.money t'.money
  grants : t'.grants = t.grants ∨
    ∃ g, t'.grants = t.grants ++ [g] ∧ ∀ g' ∈ t.grants, g'.key ≠ g.key
  readbacks : ∀ b ∈ t'.readbacks, b ∈ t.readbacks ∨
    ∃ g ∈ t'.grants, g.key = (b.org, b.fundingRef) ∧ g.sourceType = .paymentIntent

theorem Quiet.of_eq (hr : t'.money.refunds = t.money.refunds) (hx : t'.receipts = t.receipts)
    (hf : t'.money.fences = t.money.fences) (hg : t'.grants = t.grants)
    (hb : t'.readbacks = t.readbacks) : Quiet t t' :=
  ⟨hr, hx, .of_eq hf, Or.inl hg, fun b hmem => Or.inl (by rwa [hb] at hmem)⟩

theorem Quiet.refl (t : Tables) : Quiet t t := .of_eq rfl rfl rfl rfl rfl

/-- A freeze raises the fence under its next generation. -/
theorem fencesRise_freeze (t : Tables) (org ref : String) :
    FencesRise t.money (t.freeze org ref).money := by
  refine FencesRise.setFence rfl ?_
  show (Table.find Fence.key t.money.fences (org, ref)).elim 0 Fence.generation ≤ _
  cases Table.find Fence.key t.money.fences (org, ref) with
  | none => exact Nat.zero_le _
  | some f => exact Nat.le_succ f.generation

theorem fencesRise_freezeObserved (t : Tables) (org ref : String) :
    FencesRise t.money (t.freezeObserved org ref).money := by
  refine FencesRise.setFence rfl ?_
  show (Table.find Fence.key t.money.fences (org, ref)).elim 0 Fence.generation ≤ _
  cases Table.find Fence.key t.money.fences (org, ref) with
  | none => exact Nat.zero_le _
  | some f =>
    simp only [Option.elim_some]
    split
    · exact le_refl _
    · exact Nat.le_succ _

theorem quiet_freezeStep (t : Tables) (c : Circumstance) (org ref : String) :
    Quiet t (freezeStep org ref t c).2 := by
  have hfreeze : Quiet t (t.freeze org ref) :=
    ⟨rfl, rfl, fencesRise_freeze t org ref, Or.inl rfl, fun b hb => Or.inl hb⟩
  simp only [freezeStep]
  split
  · exact .refl t
  · split <;> exact hfreeze

theorem NativeProof.quiet_observe (p : NativeProof) (floor : ℕ) : Quiet t (p.observe floor t) := by
  unfold NativeProof.observe
  -- the fence first, then the readback
  have hfence : Quiet t (if t.refunded p.org p.fundingRef < max p.refundedMicros floor then
      t.freezeObserved p.org p.fundingRef else t) := by
    split
    · exact ⟨rfl, rfl, fencesRise_freezeObserved t _ _, Or.inl rfl, fun b hb => Or.inl hb⟩
    · exact .refl t
  revert hfence
  generalize (if t.refunded p.org p.fundingRef < max p.refundedMicros floor then
      t.freezeObserved p.org p.fundingRef else t) = u
  intro hfence
  dsimp only
  split
  · next hpaid =>
    obtain ⟨g, hg, hkey⟩ := List.any_eq_true.mp hpaid.2
    rw [decide_eq_true_eq] at hkey
    refine ⟨hfence.refunds, hfence.receipts, hfence.fences, hfence.grants, fun b hb => ?_⟩
    rcases Table.mem_insert.mp hb with hb | rfl
    · exact hfence.readbacks b hb
    · exact Or.inr ⟨g, hg, hkey⟩
  · exact hfence

theorem Grant.quiet {g : Grant} {legacy : Bool} (h : g.batch legacy now c t = some t') :
    Quiet t t' := by
  obtain ⟨hfree, ⟨-, -, -, -, rfl⟩ | ⟨-, rfl⟩⟩ := Grant.batch_cases h
  · exact ⟨rfl, rfl, .of_eq rfl, Or.inr ⟨g, rfl, fun g' hg => (hfree g' hg).1⟩,
      fun b hb => Or.inl hb⟩
  · exact ⟨rfl, rfl, .of_eq rfl, Or.inr ⟨g, rfl, fun g' hg => (hfree g' hg).1⟩,
      fun b hb => Or.inl hb⟩

theorem NativeProof.quiet_grant {p : NativeProof} {customerId : String} {expiresAt : Option Instant}
    (h : p.grantBatch customerId expiresAt now c t = some t') : Quiet t t' := by
  unfold NativeProof.grantBatch at h
  simp only [Option.bind_eq_bind, Option.bind_eq_some_iff] at h
  obtain ⟨t₁, h₁, _, h₂, _, h₃, h⟩ := h
  obtain ⟨rfl, -⟩ := Table.guard_some h₁
  obtain ⟨rfl, -⟩ := Table.guard_some h
  obtain ⟨hfree, rfl⟩ := Tables.insertGrant_some h₃
  obtain ⟨m, hm, rfl⟩ := Tables.lift_some h₂
  obtain ⟨-, -, rfl⟩ := Grant.fund_cases hm
  have hfence : FencesRise t₁.money (if 0 < t₁.nativeFloor p.org p.fundingRef then
      t₁.freezeObserved p.org p.fundingRef else t₁).money ∧
      (if 0 < t₁.nativeFloor p.org p.fundingRef then
        t₁.freezeObserved p.org p.fundingRef else t₁) =
          { t₁ with money := { t₁.money with fences := (if 0 < t₁.nativeFloor p.org p.fundingRef then
            t₁.freezeObserved p.org p.fundingRef else t₁).money.fences } } := by
    split
    · exact ⟨fencesRise_freezeObserved t₁ _ _, rfl⟩
    · exact ⟨.of_eq rfl, rfl⟩
  revert hfree hfence
  generalize (if 0 < t₁.nativeFloor p.org p.fundingRef then
      t₁.freezeObserved p.org p.fundingRef else t₁) = u
  rintro hfree ⟨hrise, heq⟩
  rw [heq] at hfree hrise ⊢
  refine ⟨rfl, rfl, ⟨hrise.keys, hrise.generation, hrise.stands⟩,
    Or.inr ⟨_, rfl, fun g' hg => (hfree g' hg).1⟩, fun b hb => ?_⟩
  rcases Table.mem_insert.mp hb with hb | rfl
  · exact Or.inl hb
  · exact Or.inr ⟨_, List.mem_append_right _ (List.mem_singleton.mpr rfl), rfl, rfl⟩

theorem Foreign.quiet {w : Wallet.Client} (hw : Foreign w)
    (hn : (m.allocations.map Wallet.Allocation.key).Nodup) (c : Wallet.Circumstance) :
    (w.step m c).2.refunds = m.refunds ∧ (w.step m c).2.fences = m.fences := by
  rcases Wallet.step_cases m c w with heq | ⟨f, -, hb⟩ | ⟨d, _, _, rfl, hb⟩ |
    ⟨s, plan, rfl, hb⟩ | ⟨r, plan, rfl, hb⟩
  · rw [heq]
    exact ⟨rfl, rfl⟩
  · obtain ⟨_, _, heq, -⟩ := Wallet.FundCall.batch_books hb
    rw [heq]
    exact ⟨rfl, rfl⟩
  · obtain ⟨_, _, heq, -⟩ := Wallet.DebitCall.batch_books hn hb
    rw [heq]
    exact ⟨rfl, rfl⟩
  · obtain ⟨_, hmoves, -, -, heq⟩ := Wallet.SettleCall.batch_cases hb
    obtain ⟨-, -, hrefunds, hfences⟩ := Wallet.SettleCall.moves_same hmoves
    rw [heq]
    exact ⟨hrefunds, hfences⟩
  · have hf : false = true := hw (.refund r) rfl
    cases hf

/-! ### One step -/

theorem quiet_of_debit {d : Wallet.DebitCall} {picks : List Wallet.Pick} {c : Wallet.Circumstance}
    (hn : (m.allocations.map Wallet.Allocation.key).Nodup) (h : d.batch picks now c m = some m') :
    m'.refunds = m.refunds ∧ m'.fences = m.fences := by
  obtain ⟨_, _, heq, -⟩ := Wallet.DebitCall.batch_books hn h
  rw [heq]
  exact ⟨rfl, rfl⟩

theorem quiet_of_writes (hk : Kept t) {client : Client} (hfit : client.Fit)
    (ho : client.observes = false) (hw : Writes c t client t') : Quiet t t' := by
  have hn := hk.holds.allocation_keys
  cases hw with
  | @hold x _ _ _ h =>
    obtain ⟨-, -, -, -, m, rfl, hzero, hpos⟩ := HoldInput.batch_cases h
    by_cases hamount : x.amountMicros = 0
    · rw [hzero hamount]
      exact .of_eq rfl rfl rfl rfl rfl
    · obtain ⟨hrefunds, hfences⟩ := quiet_of_debit hn (hpos hamount)
      exact .of_eq hrefunds rfl hfences rfl rfl
  | close h =>
    obtain ⟨-, -, -, -, rfl, -⟩ := Closing.batch_cases h hn
    exact .of_eq rfl rfl rfl rfl rfl
  | release h =>
    obtain ⟨-, rfl⟩ := Tables.insertHold_some h
    exact .of_eq rfl rfl rfl rfl rfl
  | record h =>
    obtain ⟨-, -, rfl⟩ := UsageInput.batch_cases h
    exact .of_eq rfl rfl rfl rfl rfl
  | @pay _ _ u _ _ h =>
    obtain ⟨-, -, m, rfl, hzero, hpos⟩ := UsageRecord.batch_cases h
    by_cases hamount : u.amountMicros = 0
    · rw [hzero hamount]
      exact .of_eq rfl rfl rfl rfl rfl
    · obtain ⟨hrefunds, hfences⟩ := quiet_of_debit hn (hpos hamount)
      exact .of_eq hrefunds rfl hfences rfl rfl
  | grant h => exact Grant.quiet h
  | grantOnDemand h => cases ho
  | refund h => cases ho
  | observe ho' h => rw [ho] at ho'; cases ho'
  | @wallet w =>
    obtain ⟨hrefunds, hfences⟩ := Foreign.quiet (w := w) hfit hn c.toCircumstance
    exact .of_eq hrefunds rfl hfences rfl rfl

/-- A step is quiet, or lowers the fence it presents, or is the batch of a refund.  Where a
fence is lowered outside of a refund's batch its sums agree, but for the replay of a receipt
that is not a PaymentIntent's. -/
theorem fences_of_step (hk : Kept t) {client : Client} (hfit : client.Fit) (c : Circumstance) :
    Quiet t (client.step t c).2 ∨
      (∃ p, client.clears = some p ∧ p.stands t = true ∧ (client.step t c).2 = p.lower t ∧
        ((∃ r row, client = .refunding r (.clearing row) ∧ c.vetoed = false) ∨ p.Settled t)) ∨
      ∃ r plan, client = .refunding r (.committing plan) ∧
        r.batch plan c t = some (client.step t c).2 := by
  by_cases ho : client.observes = false
  · refine Or.inl ?_
    rcases writes_of_step client t c with heq | hw
    · rw [heq]
      exact .refl t
    · exact quiet_of_writes hk hfit ho hw
  -- the clients that are left may move a fence
  cases client with
  | freezing org ref => exact Or.inl (quiet_freezeStep t c org ref)
  | unfreezing org ref generation cumulative stage =>
    rcases unfreezeStep_cases t c (.unfreezeFunding org ref generation cumulative)
      (.unfreezing org ref generation cumulative)
      (.finished (.unfreezeFunding org ref generation cumulative) .done) org ref generation
      cumulative stage with heq | ⟨rfl, h⟩
    · refine Or.inl ?_
      show Quiet t (unfreezeStep _ _ _ _ _ _ _ _ _ _).2
      rw [heq]
      exact .refl t
    · obtain ⟨hstands, hsettled, heq⟩ := unfreeze_some h
      exact Or.inr (Or.inl ⟨_, rfl, hstands, heq, Or.inr hsettled⟩)
  | grantingOnDemand p _ _ stage =>
    refine Or.inl ?_
    cases stage with
    | committing =>
      simp only [Client.step, NativeProof.step]
      split
      · next h => exact NativeProof.quiet_grant h
      · exact .refl t
    | observing floor =>
      simp only [Client.step, NativeProof.step]
      split
      · exact .refl t
      · exact p.quiet_observe floor
    | _ =>
      simp only [Client.step, NativeProof.step]
      repeat' split
      all_goals exact .refl t
  | refunding r stage =>
    cases stage with
    | committing plan =>
      cases hb : r.batch plan c t with
      | some t' =>
        refine Or.inr (Or.inr ⟨r, plan, rfl, ?_⟩)
        simp only [Client.step, RefundInput.step, hb]
      | none =>
        refine Or.inl ?_
        simp only [Client.step, RefundInput.step, hb]
        exact .refl t
    | observing p floor =>
      refine Or.inl ?_
      simp only [Client.step, RefundInput.step]
      split
      · exact .refl t
      · exact p.quiet_observe floor
    | unfreezing row cumulative stage =>
      rcases unfreezeStep_cases t c (.refund r)
        (fun stage => .refunding r (.unfreezing row cumulative stage))
        (.finished (.refund r) (.receipt row)) r.grant.org r.grant.fundingRef r.fenceGeneration
        cumulative stage with heq | ⟨rfl, h⟩
      · refine Or.inl ?_
        show Quiet t (unfreezeStep _ _ _ _ _ _ _ _ _ _).2
        rw [heq]
        exact .refl t
      · obtain ⟨hstands, hsettled, heq⟩ := unfreeze_some h
        exact Or.inr (Or.inl ⟨_, rfl, hstands, heq, Or.inr hsettled⟩)
    | clearing row =>
      by_cases hv : c.vetoed = true
      · refine Or.inl ?_
        simp only [Client.step, RefundInput.step, hv, if_true]
        exact .refl t
      · rw [Bool.not_eq_true] at hv
        simp only [Client.step, RefundInput.step, hv, Bool.false_eq_true, if_false]
        split
        · next hstands =>
          exact Or.inr (Or.inl ⟨_, rfl, hstands, rfl, Or.inl ⟨r, row, rfl, trivial⟩⟩)
        · exact Or.inl (.refl t)
    | row _ _ _ refs =>
      refine Or.inl ?_
      cases refs <;>
      · simp only [Client.step, RefundInput.step]
        repeat' split
        all_goals exact .refl t
    | _ =>
      refine Or.inl ?_
      simp only [Client.step, RefundInput.step]
      repeat' split
      all_goals exact .refl t
  | _ => exact absurd rfl ho

end Takoserver.Org
