import Takoserver.Org.Usage

/-!
# The tables are kept

In every state a run reaches, the rows of holds and usage records are sound and the
wallet has the books of each.  A call commits what it planned from rows it read
earlier, so beside the tables the invariant says what each call still knows of them: a
refund closes the rows of the holds it found, and a usage call pays a record that is
there, at the amount it read.
-/

namespace Takoserver.Org

open Wallet (Instant SameBooks Blank Allocation)

variable {t t' : Tables} {c : Circumstance}

theorem holdRef_ne_usageRef (a b : String) : holdRef a ≠ usageRef b := by
  intro h
  have := congrArg String.toList h
  simp [holdRef, usageRef, String.toList_append] at this

/-- The rows and books of holds and of usage records. -/
structure Kept (t : Tables) : Prop where
  holds : HoldsKept t
  usage : UsageKept t

/-- Rows are there still, or closed, or paid; and tariffs are there still. -/
structure Tables.Grows (t t' : Tables) : Prop where
  holds : t.HoldsEvolve t'
  usage : t.UsageEvolve t'
  tariffs : ∀ y ∈ t.tariffs, y ∈ t'.tariffs

theorem Tables.Grows.of_eq (hh : t'.holds = t.holds) (hu : t'.usage = t.usage)
    (ht : ∀ y ∈ t.tariffs, y ∈ t'.tariffs) : t.Grows t' :=
  ⟨.of_eq hh, .of_eq hu, ht⟩

theorem Tables.Grows.trans {t'' : Tables} (h : t.Grows t') (h' : t'.Grows t'') : t.Grows t'' := by
  refine ⟨h.holds.trans h'.holds, fun u hu => ?_, fun y hy => h'.tariffs y (h.tariffs y hy)⟩
  obtain ⟨r, hr, he⟩ := h.usage u hu
  obtain ⟨r', hr', he'⟩ := h'.usage r hr
  exact ⟨r', hr', he.trans he'⟩

/-! ### What calls know -/

/-- The hold is there still, or closed. -/
def Tables.KnowsHold (t : Tables) (h : Hold) : Prop := ∃ r ∈ t.holds, h.Evolves r

/-- The record is there still, or paid. -/
def Tables.KnowsUsage (t : Tables) (u : UsageRecord) : Prop := ∃ r ∈ t.usage, u.Evolves r

theorem Tables.KnowsHold.mono {h : Hold} (hh : t.KnowsHold h) (hg : t.Grows t') :
    t'.KnowsHold h := by
  obtain ⟨r, hr, he⟩ := hh
  obtain ⟨r', hr', he'⟩ := hg.holds r hr
  exact ⟨r', hr', he.trans he'⟩

variable {u : UsageRecord} {org ref : String} {x : UsageInput} {client : Client} {now : Instant}
  {call : Call} {s : System}

theorem Tables.KnowsUsage.mono (hu : t.KnowsUsage u) (hg : t.Grows t') :
    t'.KnowsUsage u := by
  obtain ⟨r, hr, he⟩ := hu
  obtain ⟨r', hr', he'⟩ := hg.usage r hr
  exact ⟨r', hr', he.trans he'⟩

/-- The call is about a hold. -/
def Call.closes : Call → Bool
  | .hold _ | .readHold _ _ | .capture _ | .release _ _ | .expireDue _ _ => true
  | _ => false

/-- The reply is one of the call's, or an error. -/
def Call.answers : Call → Reply → Bool
  | .hold _, .hold _ | .readHold _ _, .hold _ | .capture _, .hold _ | .release _ _, .hold _ => true
  | .usage _, .usage _ => true
  | .refund _, .receipt _ => true
  | .expireDue _ _, .done | .grant _, .done | .grantOnDemand _ _ _, .done
  | .freezeFunding _ _, .generation _ | .unfreezeFunding _ _ _ _, .done => true
  | _, .thrown _ => true
  | _, _ => false

/-- The call a client makes. -/
def Client.made : Client → Option Call
  | .idle => none
  | .holding x _ _ => some (.hold x)
  | .readingHold org ref => some (.readHold org ref)
  | .capturing x => some (.capture x)
  | .releasing org ref _ => some (.release org ref)
  | .sweeping limit org => some (.expireDue limit org)
  | .closing call _ _ _ _ => some call
  | .metering x _ _ => some (.usage x)
  | .granting g _ => some (.grant g)
  | .grantingOnDemand p customerId expiresAt _ => some (.grantOnDemand p customerId expiresAt)
  | .refunding r _ => some (.refund r)
  | .freezing org fundingRef => some (.freezeFunding org fundingRef)
  | .unfreezing org fundingRef generation cumulative _ =>
      some (.unfreezeFunding org fundingRef generation cumulative)
  | .wallet w => (caller w).map .wallet
  | .finished call _ => some call

/-- The checks of a call passed, and its replies are its own. -/
def Client.Fit : Client → Prop
  | .holding x _ _ => x.check = none
  | .capturing x => x.check = none
  | .closing call _ _ x _ => x.Valid ∧ call.closes = true
  | .wallet w => Foreign w
  | .finished call reply => call.answers reply = true
  | _ => True

/-- The record is that of the input. -/
def UsageInput.Owns (x : UsageInput) (u : UsageRecord) : Prop :=
  u.key = (x.org, x.reference) ∧ u.fingerprint = x.signature

/-- What `admitUsage` knows of its record. -/
def UsageStage.Knows (x : UsageInput) (t : Tables) : UsageStage → Prop
  | .looking | .receivable | .measuring | .reading => True
  | .recording u => x.Owns u ∧ u.state = .pending ∧ u.Priced t.tariffs
  | .debt u | .planning u | .funds u _ _ | .lots u _ _ | .committing u _ =>
      x.Owns u ∧ t.KnowsUsage u
  | .replaying _ | .readBack => ∃ u ∈ t.usage, x.Owns u

/-- A reference with a hold on a lot: an organization's hold has its row. -/
def Tables.Tracks (t : Tables) (org ref : String) : Prop :=
  (∀ ref', ref = holdRef ref' → ∃ h ∈ t.holds, h.key = (org, ref')) ∧ ∀ ref', ref ≠ usageRef ref'

/-- What `refund` knows of the holds it closes. -/
def RefundStage.Knows (org : String) (t : Tables) : RefundStage → Prop
  | .row _ _ closures refs => (∀ x ∈ closures, x.Fits) ∧ ∀ ref ∈ refs, t.Tracks org ref
  | .totals _ _ closures ref hasRow refs =>
      (∀ x ∈ closures, x.Fits) ∧ (∀ held, Closure.Fits ⟨ref, held, hasRow⟩) ∧
        ∀ ref ∈ refs, t.Tracks org ref
  | .committing plan => ∀ x ∈ plan.closures, x.Fits
  | _ => True

/-- What a call knows of the tables. -/
def Client.Knows (t : Tables) : Client → Prop
  | .metering x _ stage => stage.Knows x t
  | .refunding r stage => stage.Knows r.grant.org t
  | .finished (.usage x) (.usage u) => x.Owns u ∧ t.KnowsUsage u
  | _ => True

theorem Tables.Tracks.mono (h : t.Tracks org ref) (hg : t.Grows t') :
    t'.Tracks org ref := by
  refine ⟨fun ref' heq => ?_, h.2⟩
  obtain ⟨row, hrow, hkey⟩ := h.1 ref' heq
  obtain ⟨r, hr, he⟩ := hg.holds row hrow
  exact ⟨r, hr, he.key.trans hkey⟩

theorem UsageInput.Owns.evolve {r : UsageRecord} (h : x.Owns u) (he : u.Evolves r) : x.Owns r :=
  ⟨he.key.trans h.1, he.fingerprint.trans h.2⟩

theorem UsageStage.Knows.mono {stage : UsageStage} (h : stage.Knows x t) (hg : t.Grows t') :
    stage.Knows x t' := by
  cases stage with
  | looking | receivable | measuring | reading => exact trivial
  | recording u => exact ⟨h.1, h.2.1, h.2.2.mono hg.tariffs⟩
  | debt u | planning u | funds u instant admission | lots u instant admission
  | committing => exact ⟨h.1, h.2.mono hg⟩
  | replaying insufficient | readBack =>
    obtain ⟨u, hu, hown⟩ := h
    obtain ⟨r, hr, he⟩ := hg.usage u hu
    exact ⟨r, hr, hown.evolve he⟩

theorem RefundStage.Knows.mono {stage : RefundStage} (h : stage.Knows org t) (hg : t.Grows t') :
    stage.Knows org t' := by
  cases stage with
  | row => exact ⟨h.1, fun ref hr => (h.2 ref hr).mono hg⟩
  | totals _ _ _ ref =>
    exact ⟨h.1, h.2.1, fun ref hr => (h.2.2 ref hr).mono hg⟩
  | committing => exact h
  | _ => exact trivial

/-- A call's knowledge outlives every batch. -/
theorem Client.Knows.mono (h : client.Knows t) (hg : t.Grows t') :
    client.Knows t' := by
  cases client with
  | metering => exact UsageStage.Knows.mono h hg
  | refunding => exact RefundStage.Knows.mono h hg
  | finished call reply =>
    cases call with
    | usage x =>
      cases reply with
      | usage u => exact ⟨h.1, h.2.mono hg⟩
      | _ => exact trivial
    | _ => exact trivial
  | _ => exact trivial

/-! ### One batch -/

/-- A grant leaves the books of holds and usage records. -/
theorem Grant.sameBooks {g : Grant} {legacy : Bool} (h : g.batch legacy now c t = some t')
    (org ref : String) :
    SameBooks t.money t'.money org ref := by
  obtain ⟨-, ⟨-, -, -, -, rfl⟩ | ⟨-, rfl⟩⟩ := Grant.batch_cases h
  · refine SameBooks.of_append (E := [g.entry]) rfl (List.append_nil _).symm (fun e he => ?_)
      (by simp)
    rw [List.mem_singleton.mp he]
    exact Or.inr ⟨rfl, rfl⟩
  · exact .refl _ _ _

theorem Kept.frame (hk : Kept t) (hh : t'.holds = t.holds) (hu : t'.usage = t.usage)
    (ht : ∀ y ∈ t.tariffs, y ∈ t'.tariffs)
    (hn : (t'.money.allocations.map Allocation.key).Nodup)
    (hs : ∀ org ref, lifecycle ref = true → SameBooks t.money t'.money org ref) :
    Kept t' ∧ t.Grows t' :=
  ⟨⟨hk.holds.frame hh hn fun org ref => hs org _ (lifecycle_holdRef ref),
    hk.usage.frame hu ht fun org ref => hs org _ (lifecycle_usageRef ref)⟩, .of_eq hh hu ht⟩

theorem Kept.grant (hk : Kept t) {g : Grant} {legacy : Bool} (h : g.batch legacy now c t = some t') :
    Kept t' ∧ t.Grows t' := by
  have hs := Grant.sameBooks h
  obtain ⟨-, ⟨-, -, -, -, rfl⟩ | ⟨-, rfl⟩⟩ := Grant.batch_cases h
  · exact hk.frame rfl rfl (fun y hy => hy) hk.holds.allocation_keys fun org ref _ => hs org ref
  · exact hk.frame rfl rfl (fun y hy => hy) hk.holds.allocation_keys fun org ref _ => hs org ref

theorem Kept.grantOnDemand (hk : Kept t) {p : NativeProof} {customerId : String}
    {expiresAt : Option Instant} (h : p.grantBatch customerId expiresAt now c t = some t') :
    Kept t' ∧ t.Grows t' := by
  obtain ⟨-, -, -, -, _, _, rfl⟩ := NativeProof.grantBatch_cases h
  refine hk.frame rfl rfl (fun y hy => hy) hk.holds.allocation_keys fun org ref _ => ?_
  refine SameBooks.of_append (E := [(p.grant customerId expiresAt).entry]) rfl
    (List.append_nil _).symm (fun e he => ?_) (by simp)
  rw [List.mem_singleton.mp he]
  exact Or.inr ⟨rfl, rfl⟩

theorem RefundInput.batch_usage {r : RefundInput} {plan : RefundPlan}
    (hx : ∀ x ∈ plan.closures, x.Fits) (h : r.batch plan c t = some t') :
    t'.usage = t.usage ∧ t'.tariffs = t.tariffs ∧
      ∀ org ref, SameBooks t.money t'.money org (usageRef ref) := by
  obtain ⟨-, t₁, h₁, -, -, -, -, _, rfl⟩ := RefundInput.batch_cases h
  have key : t₁.usage = t.usage ∧ t₁.tariffs = t.tariffs ∧
      ∀ org ref, SameBooks t.money t₁.money org (usageRef ref) := by
    refine RefundInput.closeHolds_induction
      (P := fun u => u.usage = t.usage ∧ u.tariffs = t.tariffs ∧
        ∀ org ref, SameBooks t.money u.money org (usageRef ref))
      (fun x hmem u u' hu hc => ?_) h₁ ⟨rfl, rfl, fun _ _ => .refl _ _ _⟩
    obtain ⟨-, m, hm, rfl⟩ := RefundInput.closeHold_cases hc
    refine ⟨hu.1, hu.2.1, fun org ref => (hu.2.2 org ref).trans ?_⟩
    exact Wallet.RefundCall.closeHold_sameBooks hm fun heq => (hx x hmem).2 ref heq.2
  exact ⟨key.1, key.2.1, fun org ref => (key.2.2 org ref).trans (SameBooks.of_eq rfl rfl)⟩

/-- Each batch keeps the tables, which grow. -/
theorem Kept.writes (hk : Kept t) (hfit : client.Fit) (hknow : client.Knows t)
    (hw : Writes c t client t') : Kept t' ∧ t.Grows t' := by
  have hn := hk.holds.allocation_keys
  -- each batch frames the references it does not write
  cases hw with
  | @hold x _ _ _ h =>
    obtain ⟨hholds, hevolve⟩ := hk.holds.hold hfit h
    obtain ⟨-, -, -, -, m, rfl, hzero, hpos⟩ := HoldInput.batch_cases h
    refine ⟨⟨hholds, hk.usage.frame rfl (fun y hy => hy) fun org ref => ?_⟩,
      hevolve, .of_eq rfl, fun y hy => hy⟩
    by_cases hamount : x.amountMicros = 0
    · rw [hzero hamount]
      exact .refl _ _ _
    · refine Wallet.DebitCall.batch_sameBooks hn (hpos hamount) fun heq => ?_
      exact holdRef_ne_usageRef _ _ heq.2
  | @close _ _ _ _ _ _ _ h =>
    obtain ⟨hholds, hevolve⟩ := hk.holds.close hfit.1 h
    obtain ⟨-, -, -, -, rfl, -⟩ := Closing.batch_cases h hn
    refine ⟨⟨hholds, hk.usage.frame rfl (fun y hy => hy) fun org ref => ?_⟩,
      hevolve, .of_eq rfl, fun y hy => hy⟩
    exact Closing.settled_sameBooks fun heq => holdRef_ne_usageRef _ _ heq.2
  | release h =>
    obtain ⟨hholds, hevolve⟩ := hk.holds.release h
    obtain ⟨-, rfl⟩ := Tables.insertHold_some h
    exact ⟨⟨hholds, hk.usage.frame rfl (fun y hy => hy) fun _ _ => .refl _ _ _⟩, hevolve,
      .of_eq rfl, fun y hy => hy⟩
  | record h =>
    obtain ⟨-, hpending, hpriced⟩ := hknow
    obtain ⟨husage, hevolve⟩ := hk.usage.record hpending hpriced h
    obtain ⟨-, -, rfl⟩ := UsageInput.batch_cases h
    exact ⟨⟨hk.holds.frame rfl hn fun _ _ => .refl _ _ _, husage⟩, .of_eq rfl, hevolve,
      fun y hy => hy⟩
  | @pay _ _ u _ _ h =>
    obtain ⟨-, hu⟩ := hknow
    obtain ⟨husage, hevolve⟩ := hk.usage.pay hn hu h
    obtain ⟨-, -, m, rfl, hzero, hpos⟩ := UsageRecord.batch_cases h
    refine ⟨⟨?_, husage⟩, .of_eq rfl, hevolve, fun y hy => hy⟩
    by_cases hamount : u.amountMicros = 0
    · refine hk.holds.frame rfl ?_ fun org ref => ?_
      · rw [hzero hamount]
        exact hn
      · rw [hzero hamount]
        exact .refl _ _ _
    · have hm := hpos hamount
      obtain ⟨-, -, -, -, hkeys, -⟩ := Wallet.DebitCall.batch_books hn hm
      refine hk.holds.frame rfl hkeys fun org ref => ?_
      exact Wallet.DebitCall.batch_sameBooks hn hm fun heq =>
        holdRef_ne_usageRef _ _ heq.2.symm
  | grant h => exact hk.grant h
  | grantOnDemand h => exact hk.grantOnDemand h
  | refund h =>
    obtain ⟨hholds, hevolve⟩ := hk.holds.refund hknow h
    obtain ⟨husage, htariffs, hs⟩ := RefundInput.batch_usage hknow h
    exact ⟨⟨hholds, hk.usage.frame husage (by rw [htariffs]; exact fun y hy => hy) hs⟩, hevolve,
      .of_eq husage, by rw [htariffs]; exact fun y hy => hy⟩
  | observe _ h =>
    refine hk.frame h.holds h.usage (by rw [h.tariffs]; exact fun y hy => hy) ?_ fun org ref _ =>
      h.books org ref
    rw [h.allocations]
    exact hn
  | @wallet w =>
    have hw : Foreign w := hfit
    exact hk.frame rfl rfl (fun y hy => hy) (hw.keys hn _) fun org ref hl => hw.sameBooks hn _ org hl

/-! ### The checks of a call -/

/-- The client carries out the call, past its checks. -/
abbrev Client.Makes (client : Client) (call : Call) : Prop := client.Fit ∧ client.made = some call

theorem makes_throws (call : Call) (code : ErrorCode) : (call.throws code).Makes call :=
  ⟨by cases call <;> rfl, rfl⟩

theorem valid_expiry (row : Hold) : (Closing.expiry row).Valid :=
  ⟨by simp [Closing.expiry], Nat.zero_le _, by simp [Closing.expiry], fun f hf => by cases hf⟩

theorem makes_current (h : ∀ row, call.answers (.hold row) = true) (now : Instant) (row : Hold) :
    (current call now row).Makes call := by
  unfold current
  split
  · refine ⟨⟨valid_expiry row, ?_⟩, rfl⟩
    cases call <;> first | rfl | cases h row
  · exact ⟨h row, rfl⟩

theorem CaptureInput.signature_valid {x : CaptureInput} (hx : x.check = none) :
    x.signature.Valid := by
  unfold CaptureInput.check at hx
  split at hx
  · cases hx
  · split at hx
    · cases hx
    · split at hx
      · cases hx
      · split at hx
        · cases hx
        · refine ⟨?_, ?_, ?_⟩ <;> simp_all [CaptureInput.signature]

/-- The `close` of a capture that passed its checks. -/
theorem CaptureInput.valid_closing {x : CaptureInput} (hx : x.check = none) {row : Hold}
    (hle : ¬row.amountMicros < x.amountMicros) : (x.closing row).Valid := by
  refine ⟨?_, Nat.le_of_not_lt hle, ?_, ?_⟩
  · unfold CaptureInput.closing
    split <;> simp
  · unfold CaptureInput.closing
    split
    · next hz => simp [hz]
    · next hz => simp [Nat.pos_of_ne_zero hz]
  · intro f hf
    cases Option.mem_some_iff.mp hf
    refine ⟨CaptureInput.signature_valid hx, rfl, ?_⟩
    unfold CaptureInput.closing
    split
    · exact Or.inr rfl
    · exact Or.inl rfl

theorem Call.closed_cases (call : Call) (refuses : Bool) (row : Hold) (rest : List Hold) :
    (∃ next rest', rest = next :: rest' ∧
        call.closed refuses row rest = .closing call rest' false (.expiry next) .opened) ∨
      (refuses = true ∧ call.closed refuses row rest = call.throws .holdClosed) ∨
      (refuses = false ∧ (call.closed refuses row rest = .finished call .done ∨
        call.closed refuses row rest = .finished call (.hold row))) := by
  cases rest with
  | cons next rest => exact Or.inl ⟨next, rest, rfl, rfl⟩
  | nil =>
    cases refuses with
    | true => exact Or.inr (Or.inl ⟨rfl, by simp [Call.closed]⟩)
    | false =>
      refine Or.inr (Or.inr ⟨rfl, ?_⟩)
      cases call with
      | expireDue => exact Or.inl (by simp [Call.closed])
      | _ => exact Or.inr (by simp [Call.closed])

theorem makes_closed (h : call.closes = true) (refuses : Bool) (row : Hold) (rest : List Hold) :
    (call.closed refuses row rest).Makes call := by
  cases rest with
  | cons next => exact ⟨⟨valid_expiry next, h⟩, rfl⟩
  | nil =>
    unfold Call.closed
    dsimp only
    split
    · exact makes_throws call _
    · cases call <;> first | exact ⟨rfl, rfl⟩ | cases h

theorem fit_start (now : Instant) (call : Call) : (call.start now).Fit := by
  have hstarts := call.starts now
  generalize call.start now = client at hstarts ⊢
  cases hstarts with
  | throws => exact (makes_throws _ _).1
  | hold h | capture h => exact h
  | wallet h => exact foreign_start h
  | _ => trivial

theorem HoldInput.makes_replay (x : HoldInput) (now : Instant) (row : Hold) :
    (x.replay now row).Makes (.hold x) := by
  unfold HoldInput.replay
  split
  · exact makes_throws _ _
  · exact makes_current (fun _ => rfl) _ _

theorem HoldInput.makes_step {x : HoldInput} (hx : x.check = none) (attempted : Bool) (t : Tables)
    (c : Circumstance) (stage : HoldStage x.amountMicros) :
    (x.step attempted t c stage).1.Makes (.hold x) := by
  cases stage <;> simp only [HoldInput.step]
  all_goals repeat' split
  all_goals first
    | exact ⟨hx, rfl⟩
    | exact x.makes_replay _ _
    | exact makes_current (fun _ => rfl) _ _
    | exact makes_throws _ _

theorem Closing.makes_step {x : Closing} (hx : x.Valid) (hc : call.closes = true)
    (rest : List Hold) (refuses : Bool) (t : Tables) (c : Circumstance)
    (stage : CloseStage x.captured) : (x.step call rest refuses t c stage).1.Makes call := by
  cases stage with
  | closedBy =>
    simp only [Closing.step]
    unfold Call.closedBy
    repeat' split
    all_goals first
      | exact makes_closed hc _ _ _
      | exact ⟨⟨valid_expiry _, hc⟩, rfl⟩
      | exact makes_throws _ _
  | readBack =>
    simp only [Closing.step]
    split
    · exact makes_closed hc _ _ _
    · exact makes_throws _ _
  | opened => exact ⟨⟨hx, hc⟩, rfl⟩
  | allocations instant | committing instant selection =>
    simp only [Closing.step]
    split
    · exact ⟨⟨hx, hc⟩, rfl⟩
    · first | exact ⟨⟨hx, hc⟩, rfl⟩ | exact makes_throws _ _

theorem CaptureInput.makes_answer {x : CaptureInput} (hx : x.check = none) (row : Option Hold) :
    (x.answer row).Makes (.capture x) := by
  cases row with
  | none => exact makes_throws _ _
  | some =>
    unfold CaptureInput.answer
    dsimp only
    split
    · exact makes_throws _ _
    · next hle =>
      repeat' split
      all_goals first
        | exact ⟨⟨CaptureInput.valid_closing hx hle, rfl⟩, rfl⟩
        | exact makes_throws _ _
        | exact ⟨rfl, rfl⟩

theorem makes_releasing (org ref : String) (row : Hold) :
    (releasing org ref row).Makes (.release org ref) := by
  unfold releasing
  split
  · exact ⟨⟨⟨by simp, Nat.zero_le _, by simp, fun f hf => by cases hf⟩, rfl⟩, rfl⟩
  · exact ⟨rfl, rfl⟩

theorem Client.Fit.goes (h : client.Fit) (t : Tables) (c : Circumstance) :
    (client.step t c).1.Fit ∧ (client.step t c).1.made = client.made := by
  -- a stage moves on, answers or throws with the same arguments
  cases client with
  | idle => exact ⟨trivial, rfl⟩
  | finished => exact ⟨h, rfl⟩
  | holding x attempted stage => exact HoldInput.makes_step h attempted t c stage
  | readingHold =>
    simp only [Client.step]
    unfold readHold
    repeat' split
    all_goals first
      | exact makes_current (fun _ => rfl) _ _
      | exact makes_throws _ _
  | capturing x =>
    simp only [Client.step]
    split
    · exact makes_throws _ _
    · exact CaptureInput.makes_answer h _
  | releasing _ _ stage =>
    cases stage <;> simp only [Client.step, releaseStep]
    all_goals repeat' split
    all_goals first
      | exact makes_releasing _ _ _
      | exact makes_throws _ _
      | exact ⟨trivial, rfl⟩
  | sweeping =>
    simp only [Client.step]
    unfold sweep
    split
    · exact ⟨rfl, rfl⟩
    · exact ⟨⟨valid_expiry _, rfl⟩, rfl⟩
  | closing call rest refuses x stage => exact Closing.makes_step h.1 h.2 rest refuses t c stage
  | metering _ _ stage =>
    cases stage <;> simp only [Client.step, UsageInput.step]
    all_goals repeat' split
    all_goals first
      | exact ⟨rfl, rfl⟩
      | exact ⟨trivial, rfl⟩
  | granting g stage =>
    cases stage <;> simp only [Client.step, Grant.step]
    all_goals repeat' split
    all_goals first
      | exact ⟨rfl, rfl⟩
      | exact ⟨trivial, rfl⟩
  | grantingOnDemand _ _ _ stage =>
    cases stage <;> simp only [Client.step, NativeProof.step]
    all_goals repeat' split
    all_goals first
      | exact ⟨rfl, rfl⟩
      | exact ⟨trivial, rfl⟩
  | refunding r stage =>
    have hproven : ∀ p, (r.proven p).Makes (.refund r) := by
      intro p
      unfold RefundInput.proven
      repeat' split
      all_goals first
        | exact ⟨rfl, rfl⟩
        | exact ⟨trivial, rfl⟩
    have hclear : ∀ row, (r.clear row).Makes (.refund r) := by
      intro row
      unfold RefundInput.clear
      split
      · exact ⟨trivial, rfl⟩
      · exact ⟨rfl, rfl⟩
    cases stage with
    | row _ _ _ refs =>
      cases refs <;>
      · simp only [Client.step, RefundInput.step]
        repeat' split
        all_goals first
          | exact ⟨rfl, rfl⟩
          | exact ⟨trivial, rfl⟩
    | unfreezing row cumulative stage =>
      exact unfreezeStep_client t c _ _ _ _ _ _ cumulative stage
        (P := fun client => client.Makes (.refund r)) (fun _ => ⟨trivial, rfl⟩) ⟨rfl, rfl⟩
        fun code => makes_throws _ code
    | _ =>
      simp only [Client.step, RefundInput.step]
      repeat' split
      all_goals first
        | exact hproven _
        | exact hclear _
        | exact ⟨rfl, rfl⟩
        | exact ⟨trivial, rfl⟩
  | freezing org ref =>
    exact freezeStep_client t c org ref (P := fun client => client.Makes (.freezeFunding org ref))
      (fun _ => ⟨rfl, rfl⟩) fun code => makes_throws _ code
  | unfreezing org ref generation cumulative stage =>
    exact unfreezeStep_client t c _ _ _ org ref generation cumulative stage
      (P := fun client => client.Makes (.unfreezeFunding org ref generation cumulative))
      (fun _ => ⟨trivial, rfl⟩) ⟨rfl, rfl⟩ fun code => makes_throws _ code
  | wallet w =>
    have hw : Foreign w := h
    refine ⟨hw.step _ _, ?_⟩
    show (caller (w.step t.money c.toCircumstance).1).map Call.wallet = (caller w).map Call.wallet
    rw [caller_step]

theorem Client.Fit.step (h : client.Fit) (t : Tables) (c : Circumstance) :
    (client.step t c).1.Fit :=
  (h.goes t c).1

theorem made_step (h : client.Fit) (t : Tables) (c : Circumstance) :
    (client.step t c).1.made = client.made :=
  (h.goes t c).2

/-! ### What a call learns -/

theorem knows_throws (call : Call) (code : ErrorCode) : (call.throws code).Knows t := by
  cases call <;> trivial

theorem knows_of_made (hu : ∀ x, client.made ≠ some (.usage x))
    (hr : ∀ r, client.made ≠ some (.refund r)) : client.Knows t := by
  cases client with
  | metering x => exact absurd rfl (hu x)
  | refunding r => exact absurd rfl (hr r)
  | finished call =>
    cases call with
    | usage x => exact absurd rfl (hu x)
    | _ => trivial
  | _ => trivial

theorem knows_start (now : Instant) (call : Call) : (call.start now).Knows t := by
  have hstarts := call.starts now
  generalize call.start now = client at hstarts ⊢
  cases hstarts <;> first | exact trivial | exact knows_throws _ _

theorem UsageInput.measured_ok {m : Meter} {amount : ℕ} (h : x.measured t = .ok (m, amount))
    (admission : Option Wallet.Admission) (instant : Instant) :
    (x.record m amount admission instant).Priced t.tariffs := by
  unfold UsageInput.measured at h
  split at h
  · cases h
  · cases h
  next q tariff hq htariff =>
  split at h
  · cases h
  next hm =>
  split at h
  · cases h
  next hrevision =>
  split at h
  · cases h
  · split at h
    · cases h
    · next hamount =>
      split at h
      · cases h
        exact ⟨q, hq, tariff, Tables.tariffAt_mem htariff, (not_not.mp hrevision).symm, _, hm,
          rfl, rfl, UsageInput.amount_ok hamount⟩
      · cases h

theorem UsageInput.owns_of_row (hk : Kept t) {r : UsageRecord}
    (hu : t.usageRow x.org x.reference = some u) (hr : r ∈ t.usage) (hown : x.Owns r) :
    x.Owns u := by
  obtain ⟨hmem, hkey⟩ := hk.usage.row_iff.mp hu
  rwa [Table.eq_of_key hk.usage.keys hmem hr (hkey.trans hown.1.symm)]

theorem UsageInput.knows_row (hk : Kept t) (hu : t.usageRow x.org x.reference = some u)
    (hf : ¬u.fingerprint ≠ x.signature) :
    x.Owns u ∧ t.KnowsUsage u := by
  obtain ⟨hmem, hkey⟩ := hk.usage.row_iff.mp hu
  exact ⟨⟨hkey, not_not.mp hf⟩, u, hmem, .refl u⟩

theorem Kept.tracks (hk : Kept t) {r : Wallet.RefundCall} (h : ref ∈ r.heldRefs t.money) :
    t.Tracks r.org ref := by
  unfold Wallet.RefundCall.heldRefs at h
  rw [List.mem_dedup, List.mem_map] at h
  obtain ⟨a, ha, rfl⟩ := h
  obtain ⟨hmem, hp⟩ := List.mem_filter.mp ha
  rw [decide_eq_true_eq] at hp
  refine ⟨fun ref' heq => ?_, fun ref' heq => ?_⟩
  · cases hrow : t.held r.org ref' with
    | some row => exact ⟨row, hk.holds.held_iff.mp hrow⟩
    | none =>
      have hin : a ∈ t.money.allocationsOf r.org (holdRef ref') :=
        List.mem_filter.mpr ⟨hmem, decide_eq_true ⟨hp.1, heq⟩⟩
      rw [(hk.holds.blank hrow).allocations] at hin
      cases hin
  · have htype := hk.usage.debitType hmem hp.1 heq
    rw [hp.2.2] at htype
    cases htype

theorem Tables.Tracks.fits (h : t.Tracks org ref) (held : ℕ) :
    Closure.Fits ⟨ref, held, (t.holdOfLedger org ref).isSome⟩ := by
  refine ⟨fun ref' heq => ?_, h.2⟩
  obtain ⟨row, hrow, hkey⟩ := h.1 ref' heq
  obtain ⟨ho, hr⟩ := Hold.key_eq.mp hkey
  simp only [Tables.holdOfLedger, List.find?_isSome]
  refine ⟨row, hrow, ?_⟩
  rw [decide_eq_true_eq, Hold.ledgerRef, hr]
  exact ⟨ho, heq.symm⟩

theorem UsageStage.knows_step (hk : Kept t) {attempted : Bool} {stage : UsageStage}
    (h : stage.Knows x t) (hg : t.Grows (x.step attempted t c stage).2) :
    (x.step attempted t c stage).1.Knows (x.step attempted t c stage).2 := by
  -- a stage carries what it read, and read rows stay
  cases stage with
  | looking =>
    simp only [UsageInput.step]
    split
    · next hu =>
      split
      · exact trivial
      · next hf =>
        have hknow := UsageInput.knows_row hk hu hf
        repeat' split
        all_goals first
          | exact hknow
          | exact trivial
    · split <;> exact trivial
  | receivable =>
    simp only [UsageInput.step]
    split <;> exact trivial
  | measuring =>
    simp only [UsageInput.step]
    split
    · exact trivial
    · next hm =>
      split
      · exact trivial
      · exact ⟨⟨rfl, rfl⟩, rfl, UsageInput.measured_ok hm _ _⟩
  | recording u =>
    simp only [UsageInput.step]
    split <;> exact trivial
  | reading =>
    simp only [UsageInput.step]
    split
    · next hu =>
      split
      · exact trivial
      · next hf =>
        have hknow := UsageInput.knows_row hk hu hf
        split
        · exact hknow
        · exact hknow
    · split <;> exact trivial
  | debt u =>
    simp only [UsageInput.step]
    split
    · exact h
    · exact trivial
  | planning u =>
    simp only [UsageInput.step]
    split <;> exact h
  | funds =>
    simp only [UsageInput.step]
    split
    · exact h
    · obtain ⟨r, hr, he⟩ := h.2
      exact ⟨r, hr, h.1.evolve he⟩
  | lots =>
    simp only [UsageInput.step]
    split
    · exact h
    · obtain ⟨r, hr, he⟩ := h.2
      exact ⟨r, hr, h.1.evolve he⟩
  | committing u plan =>
    obtain ⟨r, hr, he⟩ := (h.2.mono hg)
    have hrow : ∃ u' ∈ (x.step attempted t c (.committing u plan)).2.usage, x.Owns u' :=
      ⟨r, hr, h.1.evolve he⟩
    revert hrow
    simp only [UsageInput.step]
    split
    · next =>
      intro hrow
      cases c.lost <;> exact hrow
    · exact fun hrow => hrow
  | replaying =>
    obtain ⟨r, hr, hown⟩ := h
    simp only [UsageInput.step]
    split
    · next u hu =>
      have hknow : x.Owns u ∧ t.KnowsUsage u :=
        ⟨UsageInput.owns_of_row hk hu hr hown, u, (hk.usage.row_iff.mp hu).1, .refl u⟩
      repeat' split
      all_goals first
        | exact hknow
        | exact trivial
    · exact trivial
  | readBack =>
    obtain ⟨r, hr, hown⟩ := h
    simp only [UsageInput.step]
    split
    · next u hu =>
      exact ⟨UsageInput.owns_of_row hk hu hr hown, u, (hk.usage.row_iff.mp hu).1, .refl u⟩
    · exact trivial

theorem RefundStage.knows_step (hk : Kept t) {r : RefundInput} {stage : RefundStage}
    (h : stage.Knows r.grant.org t) : (r.step t c stage).1.Knows t := by
  have hproven : ∀ p, (r.proven p).Knows t := by
    intro p
    unfold RefundInput.proven
    repeat' split
    all_goals exact trivial
  have hclear : ∀ row, (r.clear row).Knows t := by
    intro row
    unfold RefundInput.clear
    split <;> exact trivial
  cases stage with
  | heldRefs =>
    exact ⟨by simp, fun ref hr => hk.tracks hr⟩
  | row _ _ _ refs =>
    cases refs with
    | nil =>
      simp only [RefundInput.step]
      split
      · exact h.1
      · exact trivial
    | cons ref refs =>
      have htracks := h.2 ref List.mem_cons_self
      have hrest : ∀ ref' ∈ refs, t.Tracks r.grant.org ref' := fun ref' hr =>
        h.2 ref' (List.mem_cons_of_mem _ hr)
      have hfits := htracks.fits
      simp only [RefundInput.step]
      split
      · next hrow =>
        rw [hrow] at hfits
        split
        · exact ⟨h.1, hfits, hrest⟩
        · exact trivial
      · next hrow =>
        rw [hrow] at hfits
        exact ⟨h.1, hfits, hrest⟩
  | totals =>
    simp only [RefundInput.step]
    split
    · refine ⟨fun x hx => ?_, h.2.2⟩
      rcases Table.mem_insert.mp hx with hx | rfl
      · exact h.1 x hx
      · exact h.2.1 _
    · exact trivial
  | unfreezing row cumulative stage =>
    exact unfreezeStep_client t c _ _ _ _ _ _ cumulative stage (P := Client.Knows t)
      (fun _ => trivial) trivial fun _ => trivial
  | _ =>
    simp only [RefundInput.step]
    repeat' split
    all_goals first
      | exact hproven _
      | exact hclear _
      | exact trivial

/-- A call learns what it goes on with. -/
theorem Client.Knows.step (hk : Kept t) (hfit : client.Fit) (h : client.Knows t)
    (hg : t.Grows (client.step t c).2) : (client.step t c).1.Knows (client.step t c).2 := by
  have hother : (∀ x, client.made ≠ some (.usage x)) → (∀ r, client.made ≠ some (.refund r)) →
      (client.step t c).1.Knows (client.step t c).2 := by
    rw [← made_step hfit t c]
    exact knows_of_made
  cases client with
  | finished => exact h
  | metering => exact UsageStage.knows_step hk h hg
  | refunding => exact Client.Knows.mono (RefundStage.knows_step hk h) hg
  | closing =>
    refine hother (fun x heq => ?_) fun r heq => ?_ <;>
    · cases heq
      cases hfit.2
  | wallet w => exact hother (by simp [Client.made]) (by simp [Client.made])
  | _ => exact hother (fun x heq => (by cases heq)) fun r heq => (by cases heq)

/-! ### Runs -/

theorem kept_init : Kept {} :=
  ⟨⟨List.nodup_nil, List.nodup_nil, by simp, fun _ _ => ⟨rfl, rfl, rfl⟩⟩,
    ⟨List.nodup_nil, by simp, fun _ _ => ⟨rfl, rfl, rfl⟩⟩⟩

/-- A step keeps the tables, which grow. -/
theorem Kept.step (hk : Kept t) (hfit : client.Fit) (hknow : client.Knows t) (c : Circumstance) :
    Kept (client.step t c).2 ∧ t.Grows (client.step t c).2 := by
  rcases writes_of_step client t c with heq | hw
  · rw [heq]
    exact ⟨hk, .of_eq rfl rfl fun y hy => hy⟩
  · exact hk.writes hfit hknow hw

theorem Kept.registerTariff (hk : Kept t) {x : Tariff} (h : t.registerTariff x = some t') :
    Kept t' ∧ t.Grows t' := by
  unfold Tables.registerTariff at h
  split at h
  · cases h
  · cases h
    exact hk.frame rfl rfl (fun y hy => List.mem_append_left _ hy) hk.holds.allocation_keys
      fun _ _ _ => .refl _ _ _

/-- The tables are kept, and each call knows what it goes on with. -/
structure System.Kept (s : System) : Prop where
  db : Org.Kept s.db
  fit : ∀ i, (s.client i).Fit
  knows : ∀ i, (s.client i).Knows s.db

/-- What a step of the machine is for one client. -/
inductive System.Turn (s s' : System) (a : Action) (i : ℕ) : Prop
  | call (call : Call) (ha : a = .call i call) (hclient : s'.client i = call.start s.clock)
      (hstarted : s'.started i = s.db) (hchanges : s'.changes i = 0)
  | step (c : Circumstance) (hclient : s'.client i = ((s.client i).step s.db c).1)
      (hdb : s'.db = ((s.client i).step s.db c).2) (hstarted : s'.started i = s.started i)
      (hchanges : s'.changes i = if s'.db = s.db then s.changes i else s.changes i + 1)
  | crash (hclient : s'.client i = .idle) (hstarted : s'.started i = s.started i)
  | rest (hclient : s'.client i = s.client i) (hstarted : s'.started i = s.started i)
      (hchanges : s'.changes i = s.changes i)

variable {s' : System} {a : Action}

theorem turn_of_next (hn : orgs.next s a = some s') (i : ℕ) : s.Turn s' a i := by
  cases a with
  | call j =>
    cases hn
    by_cases hj : i = j
    · subst hj
      exact .call _ rfl (by simp) (by simp) (by simp)
    · exact .rest (by simp [hj]) (by simp [hj]) (by simp [hj])
  | step j c =>
    cases hn
    by_cases hj : i = j
    · subst hj
      exact .step (c.atClock s.clock) (by simp) rfl rfl (by simp)
    · exact .rest (by simp [hj]) rfl (by simp [hj])
  | crash j =>
    cases hn
    by_cases hj : i = j
    · subst hj
      exact .crash (by simp) rfl
    · exact .rest (by simp [hj]) rfl rfl
  | tick =>
    simp only [orgs] at hn
    split at hn
    · cases hn
      exact .rest rfl rfl rfl
    · cases hn
  | register =>
    simp only [orgs, Option.map_eq_some_iff] at hn
    obtain ⟨_, -, rfl⟩ := hn
    exact .rest rfl rfl rfl

/-- The tables change by the step of a client, or by a tariff. -/
theorem db_of_next (hn : orgs.next s a = some s') :
    s'.db = s.db ∨ (∃ i c, s'.db = ((s.client i).step s.db c).2) ∨
      ∃ y, s.db.registerTariff y = some s'.db := by
  cases a with
  | call | crash =>
    cases hn
    exact Or.inl rfl
  | step =>
    cases hn
    exact Or.inr (Or.inl ⟨_, _, rfl⟩)
  | tick =>
    simp only [orgs] at hn
    split at hn
    · cases hn
      exact Or.inl rfl
    · cases hn
  | register y =>
    simp only [orgs, Option.map_eq_some_iff] at hn
    obtain ⟨_, ht', rfl⟩ := hn
    exact Or.inr (Or.inr ⟨y, ht'⟩)

theorem System.Kept.next (h : s.Kept) (hn : orgs.next s a = some s') :
    s'.Kept ∧ s.db.Grows s'.db := by
  have hdb : Org.Kept s'.db ∧ s.db.Grows s'.db := by
    rcases db_of_next hn with heq | ⟨i, c, heq⟩ | ⟨_, hy⟩
    · rw [heq]
      exact ⟨h.db, .of_eq rfl rfl fun y hy => hy⟩
    · rw [heq]
      exact h.db.step (h.fit i) (h.knows i) c
    · exact h.db.registerTariff hy
  refine ⟨⟨hdb.1, fun i => ?_, fun i => ?_⟩, hdb.2⟩
  · cases turn_of_next hn i with
    | call _ _ hclient => exact hclient ▸ fit_start _ _
    | step c hclient => exact hclient ▸ (h.fit i).step _ _
    | crash hclient => exact hclient ▸ trivial
    | rest hclient => exact hclient ▸ h.fit i
  · cases turn_of_next hn i with
    | call _ _ hclient => exact hclient ▸ knows_start _ _
    | step c hclient heq =>
      rw [hclient, heq]
      exact (h.knows i).step h.db (h.fit i) (heq ▸ hdb.2)
    | crash hclient => exact hclient ▸ trivial
    | rest hclient => exact hclient ▸ (h.knows i).mono hdb.2

/-- **The tables are kept in every state a run reaches.** -/
theorem kept_of_reachable (h : orgs.Reachable s) : s.Kept :=
  Machine.Reachable.invariant ⟨kept_init, fun _ => trivial, fun _ => trivial⟩
    (fun _ _ _ _ hs hn => (hs.next hn).1) h

theorem grows_of_path {s' : System} (hr : orgs.Reachable s) (h : orgs.Path s s') :
    s.db.Grows s'.db := by
  refine Machine.Path.invariant (P := fun u => s.db.Grows u.db) (fun u a u' hu hg hn => ?_) hr h
    (.of_eq rfl rfl fun y hy => hy)
  exact hg.trans ((kept_of_reachable hu).next hn).2

end Takoserver.Org
