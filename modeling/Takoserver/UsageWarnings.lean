import Takoserver.Funds
import Takoserver.Lib.Async

/-!
# Usage warnings

An organization is warned when it has used most of what its period includes
(`src/org-limit-policy.ts`).  The batches that move money and the readers of the usage summary
record a warning, once for each period and threshold; dispatchers claim what is recorded for a
minute, hand it to the transport, and record that it was acknowledged.
-/

namespace Takoserver.UsageWarnings

/-! ### The warnings -/

/-- In milliseconds. -/
abbrev Instant := ℕ

/-- `kind` of a period. -/
inductive PeriodKind
  | free
  | paid

/-- The primary key of `org_wallet_usage_warnings`. -/
structure WarningKey where
  organizationId : String
  periodStart : Instant
  periodEnd : Instant
  thresholdBasisPoints : ℕ
  deriving DecidableEq

/-- `OrgUsageWarning`, the payload of a row. -/
structure OrgUsageWarning extends WarningKey where
  periodKind : PeriodKind
  effectiveIncludedMicros : ℕ
  usedMicros : ℕ
  heldMicros : ℕ
  nextResetAt : Instant

/-- What a call throws. -/
inductive Failure
  | invalidReference
  | invalidLimit
  | billingPolicyUnavailable
  | warningTransportUnavailable
  | warningDeliveryUnacknowledged
  /-- A statement or the transport throws. -/
  | other

/-- `reference`. -/
def isReference (value : String) : Bool :=
  match value.toList with
  | [] => false
  | c :: cs => c.isAlphanum && decide (cs.length ≤ 127) &&
      cs.all fun c => c.isAlphanum || "._:-".toList.contains c

/-- What `usageWarnings` reads of an `OrgUsageSummary`. -/
structure OrgUsageSummary where
  organizationId : String
  periodKind : PeriodKind
  periodStart : Instant
  periodEnd : Instant
  nextResetAt : Instant
  effectiveIncludedMicros : ℕ
  usedMicros : ℕ
  heldMicros : ℕ

/-- The warning of a threshold. -/
def OrgUsageSummary.warning (x : OrgUsageSummary) (thresholdBasisPoints : ℕ) : OrgUsageWarning :=
  { x with thresholdBasisPoints }

/-- `usageWarnings`. -/
def usageWarnings (x : OrgUsageSummary) : Except Failure (List OrgUsageWarning) :=
  if !isReference x.organizationId then .error .invalidReference
  else if x.periodEnd ≤ x.periodStart then .error .billingPolicyUnavailable
  else if maxSafeInteger < x.effectiveIncludedMicros ∨ maxSafeInteger < x.usedMicros ∨
      maxSafeInteger < x.heldMicros then .error .billingPolicyUnavailable
  else if x.effectiveIncludedMicros = 0 then .ok []
  else if maxSafeInteger < x.usedMicros + x.heldMicros then .error .billingPolicyUnavailable
  else .ok (([8000, 9500].filter fun threshold =>
    x.effectiveIncludedMicros * threshold ≤ (x.usedMicros + x.heldMicros) * 10000).map x.warning)

/-- A row of `entitlement`, in the statement of `prepareUsageWarningStatements`. -/
structure Entitlement where
  organizationId : String
  periodKind : PeriodKind
  periodStart : Instant
  periodEnd : Instant
  original : ℕ
  revoked : ℕ
  usedMicros : ℕ
  heldMicros : ℕ

/-- The conditions of `checked`. -/
def Entitlement.isChecked (e : Entitlement) (instant : Instant) : Prop :=
  e.original ≤ maxSafeInteger ∧ e.revoked ≤ e.original ∧ e.usedMicros ≤ e.original ∧
    e.heldMicros ≤ e.original - e.usedMicros ∧ e.periodStart ≤ instant ∧ instant < e.periodEnd ∧
    e.periodStart < e.periodEnd

instance (e : Entitlement) (instant : Instant) : Decidable (e.isChecked instant) := by
  unfold Entitlement.isChecked
  infer_instance

/-- The summary of what is left of an entitlement. -/
def Entitlement.summary (e : Entitlement) : OrgUsageSummary :=
  { e with nextResetAt := e.periodEnd, effectiveIncludedMicros := e.original - e.revoked }

/-- `thresholds`: basis points, and the fraction that the statement computes with. -/
def thresholds : List (ℕ × ℕ × ℕ) := [(8000, 4, 5), (9500, 19, 20)]

/-- What the statement compares with what is used and held. -/
def thresholdMicros (net numerator denominator : ℕ) : ℕ :=
  net / denominator * numerator +
    (net % denominator * numerator + denominator - 1) / denominator

/-- The rows that `prepareUsageWarningStatements` selects. -/
def Entitlement.warnings (e : Entitlement) (instant : Instant) : List OrgUsageWarning :=
  let net := e.original - e.revoked
  if e.isChecked instant ∧ 0 < net then
    (thresholds.filter fun t =>
      thresholdMicros net t.2.1 t.2.2 ≤ e.usedMicros + e.heldMicros).map fun t =>
        e.summary.warning t.1
  else []

/-- `decodeWarning`, of a payload with the key of its row. -/
def decodeWarning (x : OrgUsageWarning) : Except Failure OrgUsageWarning :=
  if !isReference x.organizationId then .error .invalidReference
  else if x.periodEnd ≤ x.periodStart ∨ x.thresholdBasisPoints ∉ [8000, 9500] ∨
      maxSafeInteger < x.effectiveIncludedMicros ∨ maxSafeInteger < x.usedMicros ∨
      maxSafeInteger < x.heldMicros then .error .billingPolicyUnavailable
  else .ok x

/-! ### The table -/

/-- `state` of a warning. -/
inductive WarningState
  | pending
  | dispatching (claimToken : String) (claimUntil : Instant)
  | delivered (deliveredAt : Instant)

/-- A row of `org_wallet_usage_warnings`. -/
structure WarningRow where
  warning : OrgUsageWarning
  state : WarningState
  createdAt : Instant

/-- The primary key. -/
def WarningRow.key (r : WarningRow) : WarningKey := r.warning.toWarningKey

/-- `state = 'pending' OR (state = 'dispatching' AND claim_until <= ?)`. -/
def WarningRow.isDue (r : WarningRow) (instant : Instant) : Bool :=
  match r.state with
  | .pending => true
  | .dispatching _ claimUntil => decide (claimUntil ≤ instant)
  | .delivered _ => false

/-- `state = 'dispatching' AND claim_token = ?`. -/
def WarningRow.isClaimed (r : WarningRow) (token : String) : Bool :=
  match r.state with
  | .dispatching claimToken _ => decide (claimToken = token)
  | _ => false

/-- The `ORDER BY` of `dispatchWarnings`. -/
def WarningRow.order (r : WarningRow) : ℕ ×ₗ String ×ₗ ℕ ×ₗ ℕ :=
  toLex (r.createdAt, toLex (r.warning.organizationId,
    toLex (r.warning.periodStart, r.warning.thresholdBasisPoints)))

/-- The outbox, with the clock and the history of the tokens. -/
structure Store where
  rows : List WarningRow := []
  clock : Instant := 0
  /-- The tokens, and who has drawn them. -/
  tokens : List (ℕ × String) := []
  /-- What the transport has acknowledged. -/
  acknowledged : List WarningKey := []
  /-- The warnings that dispatchers have counted. -/
  counted : List WarningKey := []

/-- One `INSERT … ON CONFLICT DO NOTHING`. -/
def Store.record (s : Store) (createdAt : Instant) (x : OrgUsageWarning) : Store :=
  if s.rows.any fun r => decide (r.key = x.toWarningKey) then s
  else { s with rows := s.rows ++ [{ warning := x, state := .pending, createdAt }] }

/-! ### The calls -/

/-- A statement of the outbox, or what is read around it. -/
inductive Call
  | now
  /-- `warning_` and a random UUID. -/
  | token
  | record (warnings : List OrgUsageWarning) (createdAt : Instant)
  /-- The statement of `prepareUsageWarningStatements`, in a batch that moves money. -/
  | settle (organizationId : String) (instant : Instant)
  | due (instant : Instant) (limit : ℕ)
  | claim (key : WarningKey) (token : String) (claimUntil claimedAt : Instant)
  | deliver (warning : OrgUsageWarning)
  | finish (key : WarningKey) (token : String) (deliveredAt : Instant)

/-- What a call gives back. -/
abbrev Call.Answer : Call → Type
  | .now => Instant
  | .token => String
  | .record .. | .settle .. => Unit
  | .due .. => List WarningRow
  | .claim .. | .finish .. => ℕ
  | .deliver _ => Bool

/-- What happens while a call runs. -/
structure Outside where
  elapsed : ℕ := 0
  token : String := ""
  /-- What the statement of a money batch reads. -/
  entitlement : Option Entitlement := none
  acknowledges : Bool := true
  fails : Bool := false
  lost : Bool := false

/-- What a call answers, and the tables it leaves. -/
def exec (n : ℕ) (w : Outside) (s : Store) : (c : Call) → c.Answer × Store
  | .now => (s.clock, s)
  | .token => (w.token, { s with tokens := s.tokens ++ [(n, w.token)] })
  | .record warnings createdAt => ((), warnings.foldl (·.record createdAt) s)
  | .settle organizationId instant =>
    match w.entitlement with
    | some e =>
      if e.organizationId = organizationId then
        ((), (e.warnings instant).foldl (·.record instant) s)
      else ((), s)
    | none => ((), s)
  | .due instant limit =>
    (((s.rows.filter (·.isDue instant)).insertionSort fun r r' => r.order ≤ r'.order).take limit, s)
  | .claim key token claimUntil claimedAt =>
    let p := fun r : WarningRow => decide (r.key = key) && r.isDue claimedAt
    (s.rows.countP p, { s with
      rows := Table.update p (fun r => { r with state := .dispatching token claimUntil }) s.rows })
  | .deliver warning =>
    (w.acknowledges, if w.acknowledges then
      { s with acknowledged := s.acknowledged ++ [warning.toWarningKey] } else s)
  | .finish key token deliveredAt =>
    let p := fun r : WarningRow => decide (r.key = key) && r.isClaimed token
    (s.rows.countP p, { s with
      rows := Table.update p (fun r => { r with state := .delivered deliveredAt }) s.rows
      counted := s.counted ++ (s.rows.filter p).map WarningRow.key })

/-- A call may fail, and so may what comes back; no token is drawn twice. -/
def runs : Runs Call Call.Answer Failure Store Outside := fun n c w s =>
  let s := { s with clock := s.clock + w.elapsed }
  if w.token ∈ s.tokens.map Prod.snd then none
  else if w.fails then some (.error .other, s)
  else some (if w.lost then .error .other else .ok (exec n w s c).1, (exec n w s c).2)

/-! ### The programs -/

/-- A call of the policy. -/
abbrev Program := Async Call Call.Answer Failure

/-- One statement. -/
def ask (c : Call) : Program c.Answer := .call c

/-- `observeUsageSummary`. -/
def observeUsageSummary (x : OrgUsageSummary) : Program Unit := do
  let warnings ← .ofExcept (usageWarnings x)
  if warnings.isEmpty then return
  ask (.record warnings (← ask .now))

/-- `prepareUsageWarningStatements`, and the batch it is part of. -/
def prepareUsageWarningStatements (organizationId : String) (instant : Instant) : Program Unit :=
  if !isReference organizationId then throw .invalidReference
  else ask (.settle organizationId instant)

/-- The loop of `dispatchWarnings`. -/
def dispatch : List WarningRow → ℕ → Program ℕ
  | [], delivered => pure delivered
  | row :: due, delivered => do
    let warning ← .ofExcept (decodeWarning row.warning)
    let token ← ask .token
    let claimedAt ← ask .now
    let changes ← ask (.claim warning.toWarningKey token (claimedAt + 60000) claimedAt)
    if changes ≠ 1 then dispatch due delivered
    else
      let acknowledged ← ask (.deliver warning)
      if !acknowledged then throw .warningDeliveryUnacknowledged
      let finished ← ask (.finish warning.toWarningKey token (← ask .now))
      dispatch due (if finished = 1 then delivered + 1 else delivered)

/-- `dispatchWarnings`. -/
def dispatchWarnings (transport : Bool) (limit : ℕ) : Program ℕ := do
  if !transport then throw .warningTransportUnavailable
  if limit < 1 ∨ 50 < limit then throw .invalidLimit
  dispatch (← ask (.due (← ask .now) limit)) 0

/-- The calls. -/
inductive Request
  | observe (summary : OrgUsageSummary)
  | settle (organizationId : String) (instant : Instant)
  | dispatch (transport : Bool) (limit : ℕ)

/-- What a call answers. -/
inductive Answer
  | observed (summary : OrgUsageSummary)
  | settled
  | dispatched (delivered : ℕ)

/-- The program of a request. -/
def Request.body : Request → Program Answer
  | .observe x => do
    observeUsageSummary x
    return .observed x
  | .settle organizationId instant => do
    prepareUsageWarningStatements organizationId instant
    return .settled
  | .dispatch transport limit => .dispatched <$> dispatchWarnings transport limit

/-- All interleavings. -/
def outbox : Machine (Pool Store (Program Answer)) (PoolAction Request Outside) :=
  pool runs Request.body {}

/-! ### The thresholds -/

theorem crosses_iff {t : ℕ × ℕ × ℕ} (ht : t ∈ thresholds) (net exposure : ℕ) :
    thresholdMicros net t.2.1 t.2.2 ≤ exposure ↔ net * t.1 ≤ exposure * 10000 := by
  simp only [thresholds, List.mem_cons, List.not_mem_nil, or_false] at ht
  unfold thresholdMicros
  rcases ht with rfl | rfl <;> dsimp only <;> omega

/-- **Both ways to compute the warnings agree.** -/
theorem usageWarnings_eq {e : Entitlement} {instant : Instant}
    (hreference : isReference e.organizationId = true) (hchecked : e.isChecked instant) :
    usageWarnings e.summary = .ok (e.warnings instant) := by
  have hpart := hchecked
  obtain ⟨horiginal, hrevoked, hused, hheld, -, -, hperiod⟩ := hpart
  have hamounts : ¬(maxSafeInteger < e.original - e.revoked ∨ maxSafeInteger < e.usedMicros ∨
      maxSafeInteger < e.heldMicros) := by omega
  have hexposure : ¬maxSafeInteger < e.usedMicros + e.heldMicros := by omega
  unfold usageWarnings Entitlement.warnings
  simp only [Entitlement.summary, hreference, Bool.not_true, Bool.false_eq_true, if_false,
    not_le.mpr hperiod, hamounts, hexposure]
  by_cases hnet : e.original - e.revoked = 0
  · rw [if_pos hnet, if_neg fun h => h.2.ne' hnet]
  rw [if_neg hnet, if_pos ⟨hchecked, Nat.pos_of_ne_zero hnet⟩]
  have hfilter : (thresholds.filter fun t =>
      thresholdMicros (e.original - e.revoked) t.2.1 t.2.2 ≤ e.usedMicros + e.heldMicros) =
      thresholds.filter fun t =>
        (e.original - e.revoked) * t.1 ≤ (e.usedMicros + e.heldMicros) * 10000 :=
    List.filter_congr fun t ht => decide_eq_decide.mpr (crosses_iff ht _ _)
  rw [hfilter, show [8000, 9500] = thresholds.map Prod.fst from rfl, List.filter_map, List.map_map]
  rfl

theorem usageWarnings_eq_four_fifths :
    usageWarnings (Entitlement.summary ⟨"org", .free, 0, 9, 100, 0, 70, 10⟩) =
      .ok (Entitlement.warnings ⟨"org", .free, 0, 9, 100, 0, 70, 10⟩ 5) :=
  usageWarnings_eq (by decide) (by decide)

/-! ### What every call keeps -/

variable {n : ℕ} {w : Outside} {s t : Store} {c : Call} {r r' : WarningRow} {x : OrgUsageWarning}

/-- A warning stays, and so does its delivery. -/
structure WarningRow.Evolves (r r' : WarningRow) : Prop where
  warning : r'.warning = r.warning
  createdAt : r'.createdAt = r.createdAt
  delivered : ∀ i, r.state = .delivered i → r'.state = r.state

/-- What holds in every state. -/
structure Sound (s : Store) : Prop where
  keys : (s.rows.map WarningRow.key).Nodup
  tokens : (s.tokens.map Prod.snd).Nodup
  decodes : ∀ r ∈ s.rows, decodeWarning r.warning = .ok r.warning
  acknowledged : ∀ r ∈ s.rows, ∀ i, r.state = .delivered i → r.key ∈ s.acknowledged
  once : s.counted.Nodup
  counted : ∀ k ∈ s.counted, ∃ r ∈ s.rows, r.key = k ∧ ∃ i, r.state = .delivered i

/-- What every step keeps. -/
structure Leads (s t : Store) : Prop where
  clock : s.clock ≤ t.clock
  tokens : s.tokens ⊆ t.tokens
  acknowledged : s.acknowledged ⊆ t.acknowledged
  rows : ∀ r ∈ s.rows, ∃ r' ∈ t.rows, r.Evolves r'

theorem Leads.of_rows (h : s.rows ⊆ t.rows) (hclock : s.clock ≤ t.clock)
    (htokens : s.tokens ⊆ t.tokens) (hacknowledged : s.acknowledged ⊆ t.acknowledged) :
    Leads s t :=
  ⟨hclock, htokens, hacknowledged, fun r hr => ⟨r, h hr, rfl, rfl, fun _ _ => rfl⟩⟩

theorem Leads.refl (s : Store) : Leads s s :=
  .of_rows (List.Subset.refl _) le_rfl (List.Subset.refl _) (List.Subset.refl _)

theorem Leads.trans {u : Store} (h : Leads s t) (h' : Leads t u) : Leads s u := by
  refine ⟨h.clock.trans h'.clock, List.Subset.trans h.tokens h'.tokens,
    List.Subset.trans h.acknowledged h'.acknowledged, fun r hr => ?_⟩
  obtain ⟨r', hr', hev⟩ := h.rows r hr
  obtain ⟨r'', hr'', hev'⟩ := h'.rows r' hr'
  refine ⟨r'', hr'', hev'.warning.trans hev.warning, hev'.createdAt.trans hev.createdAt,
    fun i hi => ?_⟩
  have hsame := hev.delivered i hi
  rw [hev'.delivered i (hsame.trans hi), hsame]

/-- **What an `UPDATE` of rows that are not delivered keeps.** -/
theorem Sound.update {p : WarningRow → Bool} {q : WarningState} (hs : Sound s)
    (hp : ∀ r ∈ s.rows, p r = true → ∀ i, r.state ≠ .delivered i)
    (hf : ∀ r ∈ s.rows, p r = true → ∀ i, q = .delivered i → r.key ∈ s.acknowledged) :
    let t := { s with rows := Table.update p (fun r => { r with state := q }) s.rows }
    Sound t ∧ Leads s t := by
  have hkept : ∀ r ∈ s.rows, ∃ r' ∈ Table.update p (fun r => { r with state := q }) s.rows,
      r.Evolves r' ∧ (p r = true → r'.state = q) := by
    intro r hr
    refine ⟨_, Table.mem_update_of_mem hr, ?_⟩
    split
    · next hpr => exact ⟨⟨rfl, rfl, fun i hi => absurd hi (hp r hr hpr i)⟩, fun _ => rfl⟩
    · next hpr => exact ⟨⟨rfl, rfl, fun _ _ => rfl⟩, fun h => absurd h hpr⟩
  refine ⟨⟨?_, hs.tokens, ?_, ?_, hs.once, ?_⟩, le_rfl, List.Subset.refl _, List.Subset.refl _,
    fun r hr => ?_⟩
  · rw [Table.map_update (g := WarningRow.key) (f := fun r => { r with state := q }) fun _ => rfl]
    exact hs.keys
  · intro r' hr'
    rcases Table.mem_update.mp hr' with ⟨hr, -⟩ | ⟨r, hr, -, rfl⟩
    · exact hs.decodes r' hr
    · exact hs.decodes r hr
  · intro r' hr' i hi
    rcases Table.mem_update.mp hr' with ⟨hr, -⟩ | ⟨r, hr, hpr, rfl⟩
    · exact hs.acknowledged r' hr i hi
    · exact hf r hr hpr i hi
  · intro k hk
    obtain ⟨r, hr, hkey, i, hi⟩ := hs.counted k hk
    obtain ⟨r', hr', hev, -⟩ := hkept r hr
    exact ⟨r', hr', (congrArg OrgUsageWarning.toWarningKey hev.warning).trans hkey, i,
      (hev.delivered i hi).trans hi⟩
  · obtain ⟨r', hr', hev, -⟩ := hkept r hr
    exact ⟨r', hr', hev⟩

theorem key_of_evolves (h : r.Evolves r') : r'.key = r.key :=
  congrArg OrgUsageWarning.toWarningKey h.warning

theorem not_delivered_of_isDue {i : Instant} (h : r.isDue i = true) (j : Instant) :
    r.state ≠ .delivered j := by
  intro hj
  simp [WarningRow.isDue, hj] at h

theorem not_delivered_of_isClaimed {token : String} (h : r.isClaimed token = true) (j : Instant) :
    r.state ≠ .delivered j := by
  intro hj
  simp [WarningRow.isClaimed, hj] at h

/-- A `finish` counts what it delivers. -/
theorem Sound.finish {key : WarningKey} {token : String} {i : Instant} (hs : Sound s)
    (hkey : key ∈ s.acknowledged) :
    Sound (exec n w s (.finish key token i)).2 ∧ Leads s (exec n w s (.finish key token i)).2 := by
  have hp : ∀ r ∈ s.rows, (decide (r.key = key) && r.isClaimed token) = true →
      r.key = key ∧ ∀ j, r.state ≠ .delivered j := by
    intro r _ hr
    rw [Bool.and_eq_true, decide_eq_true_eq] at hr
    exact ⟨hr.1, not_delivered_of_isClaimed hr.2⟩
  obtain ⟨hsound, hleads⟩ := hs.update (q := .delivered i) (fun r hr hpr => (hp r hr hpr).2)
    fun r hr hpr _ _ => (hp r hr hpr).1 ▸ hkey
  refine ⟨{ hsound with once := ?_, counted := ?_ }, { hleads with }⟩
  · -- what was counted before is delivered, and no row that is claimed
    refine List.Nodup.append hs.once ((hs.keys).sublist (List.filter_sublist.map _)) ?_
    rintro k hk hk'
    obtain ⟨r, hr, hrk, j, hj⟩ := hs.counted k hk
    obtain ⟨r', hr', hrk'⟩ := List.mem_map.mp hk'
    rw [List.mem_filter] at hr'
    rw [Table.eq_of_key hs.keys hr hr'.1 (hrk.trans hrk'.symm)] at hj
    exact (hp r' hr'.1 hr'.2).2 j hj
  · intro k hk
    rcases List.mem_append.mp hk with hk | hk
    · exact hsound.counted k hk
    · obtain ⟨r, hr, rfl⟩ := List.mem_map.mp hk
      rw [List.mem_filter] at hr
      exact ⟨_, Table.mem_update.mpr (Or.inr ⟨r, hr.1, hr.2, rfl⟩), rfl, i, rfl⟩

theorem Sound.record {warnings : List OrgUsageWarning} {createdAt : Instant} (hs : Sound s)
    (hvalid : ∀ x ∈ warnings, decodeWarning x = .ok x) :
    let t := warnings.foldl (·.record createdAt) s
    Sound t ∧ Leads s t ∧ s.rows ⊆ t.rows ∧
      ∀ x ∈ warnings, ∃ r ∈ t.rows, r.key = x.toWarningKey := by
  induction warnings generalizing s with
  | nil => exact ⟨hs, .refl s, List.Subset.refl _, nofun⟩
  | cons x xs ih =>
    have hone : Sound (s.record createdAt x) ∧ Leads s (s.record createdAt x) ∧
        s.rows ⊆ (s.record createdAt x).rows ∧
        ∃ r ∈ (s.record createdAt x).rows, r.key = x.toWarningKey := by
      unfold Store.record
      split
      · next hany =>
        obtain ⟨r, hr, hkey⟩ := List.any_eq_true.mp hany
        exact ⟨hs, .refl s, List.Subset.refl _, r, hr, of_decide_eq_true hkey⟩
      · next hnew =>
        have hfree : ∀ r ∈ s.rows, r.key ≠ x.toWarningKey := by simpa using hnew
        have hsub : s.rows ⊆ s.rows ++ [{ warning := x, state := .pending, createdAt }] :=
          List.subset_append_left _ _
        refine ⟨⟨Table.nodup_insert hs.keys hfree, hs.tokens, fun r hr => ?_, fun r hr i hi => ?_,
          hs.once, fun k hk => ?_⟩, .of_rows hsub le_rfl (List.Subset.refl _)
          (List.Subset.refl _), hsub, _, List.mem_append_right _ List.mem_cons_self, rfl⟩
        · rcases Table.mem_insert.mp hr with hr | rfl
          · exact hs.decodes r hr
          · exact hvalid x List.mem_cons_self
        · rcases Table.mem_insert.mp hr with hr | rfl
          · exact hs.acknowledged r hr i hi
          · cases hi
        · obtain ⟨r, hr, hrk⟩ := hs.counted k hk
          exact ⟨r, hsub hr, hrk⟩
    obtain ⟨hsound, hleads, hsub, r, hr, hkey⟩ := hone
    obtain ⟨hsound', hleads', hsub', hall⟩ :=
      ih hsound fun y hy => hvalid y (List.mem_cons_of_mem _ hy)
    refine ⟨hsound', hleads.trans hleads', List.Subset.trans hsub hsub', fun y hy => ?_⟩
    rcases List.mem_cons.mp hy with rfl | hy
    · exact ⟨r, hsub' hr, hkey⟩
    · exact hall y hy

theorem decodes_of_usageWarnings {y : OrgUsageSummary} {warnings : List OrgUsageWarning}
    (h : usageWarnings y = .ok warnings) : ∀ x ∈ warnings, decodeWarning x = .ok x := by
  unfold usageWarnings at h
  split_ifs at h with hreference hperiod hamounts hnet hexposure <;> cases h
  · exact nofun
  · intro x hx
    obtain ⟨threshold, hthreshold, rfl⟩ := List.mem_map.mp hx
    have hmem := (List.mem_filter.mp hthreshold).1
    unfold decodeWarning OrgUsageSummary.warning
    rw [if_neg hreference, if_neg]
    rintro (h | h | h)
    · exact hperiod h
    · exact h hmem
    · exact hamounts h

theorem decodes_of_warnings {e : Entitlement} (instant : Instant)
    (hreference : isReference e.organizationId = true) :
    ∀ x ∈ e.warnings instant, decodeWarning x = .ok x := by
  by_cases hchecked : e.isChecked instant
  · exact decodes_of_usageWarnings (usageWarnings_eq hreference hchecked)
  · unfold Entitlement.warnings
    rw [if_neg fun h => hchecked h.1]
    exact nofun

/-- What a call of a process needs. -/
def Needs (n : ℕ) : Call → Store → Prop
  | .record warnings _, _ => ∀ x ∈ warnings, decodeWarning x = .ok x
  | .settle organizationId _, _ => isReference organizationId = true
  | .claim _ token _ claimedAt, s => claimedAt ≤ s.clock ∧ (n, token) ∈ s.tokens
  | .finish key token _, s => key ∈ s.acknowledged ∧ (n, token) ∈ s.tokens
  | _, _ => True

/-- A batch records warnings that dispatchers can read, if any. -/
theorem Sound.settle {organizationId : String} {instant : Instant} (hs : Sound s)
    (hneeds : Needs n (.settle organizationId instant) s) :
    let t := (exec n w s (.settle organizationId instant)).2
    Sound t ∧ Leads s t ∧ s.rows ⊆ t.rows := by
  unfold UsageWarnings.exec
  dsimp only
  split
  · next e _ =>
    split
    · next heq =>
      subst heq
      obtain ⟨hsound, hleads, hsub, -⟩ := hs.record (decodes_of_warnings instant hneeds)
      exact ⟨hsound, hleads, hsub⟩
    · exact ⟨hs, .refl s, List.Subset.refl _⟩
  · exact ⟨hs, .refl s, List.Subset.refl _⟩

/-- **Every call keeps what holds.** -/
theorem Sound.exec (hs : Sound s) (hneeds : Needs n c s)
    (htoken : w.token ∉ s.tokens.map Prod.snd) :
    Sound (exec n w s c).2 ∧ Leads s (exec n w s c).2 := by
  cases c with
  | now => exact ⟨hs, .refl s⟩
  | due => exact ⟨hs, .refl s⟩
  | token =>
    refine ⟨{ hs with tokens := Table.nodup_insert hs.tokens fun x hx h => ?_ },
      .of_rows (List.Subset.refl _) le_rfl (List.subset_append_left _ _) (List.Subset.refl _)⟩
    exact htoken (List.mem_map.mpr ⟨x, hx, h⟩)
  | record =>
    obtain ⟨hsound, hleads, -⟩ := hs.record hneeds
    exact ⟨hsound, hleads⟩
  | settle =>
    obtain ⟨hsound, hleads, -⟩ := hs.settle hneeds
    exact ⟨hsound, hleads⟩
  | claim =>
    refine hs.update (fun r _ hr => not_delivered_of_isDue (Bool.and_eq_true _ _ ▸ hr).2) ?_
    exact fun _ _ _ _ h => by cases h
  | deliver warning =>
    unfold UsageWarnings.exec
    dsimp only
    split
    · refine ⟨{ hs with acknowledged := fun r hr i hi => ?_ }, .of_rows (List.Subset.refl _) le_rfl
        (List.Subset.refl _) (List.subset_append_left _ _)⟩
      exact List.mem_append_left _ (hs.acknowledged r hr i hi)
    · exact ⟨hs, .refl s⟩
  | finish => exact hs.finish hneeds.1

theorem Needs.leads (h : Needs n c s) (hl : Leads s t) : Needs n c t := by
  cases c with
  | claim => exact ⟨h.1.trans hl.clock, hl.tokens h.2⟩
  | finish => exact ⟨hl.acknowledged h.1, hl.tokens h.2⟩
  | _ => exact h

theorem Sound.elapse (hs : Sound s) (k : ℕ) :
    Sound { s with clock := s.clock + k } ∧ Leads s { s with clock := s.clock + k } :=
  ⟨{ hs with }, .of_rows (List.Subset.refl _) (Nat.le_add_right _ _) (List.Subset.refl _)
    (List.Subset.refl _)⟩

theorem Sound.runs {y : Except Failure c.Answer} (hs : Sound s) (hneeds : Needs n c s)
    (hrun : runs n c w s = some (y, t)) : Sound t ∧ Leads s t := by
  obtain ⟨hsound, hleads⟩ := hs.elapse w.elapsed
  unfold UsageWarnings.runs at hrun
  dsimp only at hrun
  split_ifs at hrun with htoken
  · cases hrun
    exact ⟨hsound, hleads⟩
  all_goals
    cases hrun
    obtain ⟨hsound', hleads'⟩ := hsound.exec (hneeds.leads hleads) htoken
    exact ⟨hsound', hleads.trans hleads'⟩

/-- The contract of the statements. -/
def contract : Contract runs where
  inv := Sound
  leads := Leads
  rely _ _ := Leads
  pre := Needs
  leads_refl := Leads.refl
  leads_trans := Leads.trans
  rely_refl _ _ := Leads.refl
  rely_trans := Leads.trans
  leads_of_rely h := h

/-! ### The programs keep the contract -/

theorem eq_exec_of_runs {a : c.Answer} (h : runs n c w s = some (.ok a, t)) :
    (a, t) = exec n w { s with clock := s.clock + w.elapsed } c := by
  unfold runs at h
  dsimp only at h
  split_ifs at h <;> cases h
  rfl

theorem returns_ask {P : c.Answer → Store → Prop} (hneeds : ∀ t, Leads s t → Needs n c t)
    (h : ∀ w u, Sound u → Needs n c u → P (exec n w u c).1 (exec n w u c).2) :
    contract.Returns n (ask c) P s := by
  refine Contract.returns_call fun t hl ht => ⟨hneeds t hl, fun w a u hrun _ _ => ?_⟩
  obtain ⟨hsound, hleads⟩ := Sound.elapse ht w.elapsed
  have hexec := eq_exec_of_runs hrun
  have hP := h w _ hsound ((hneeds t hl).leads hleads)
  rw [← hexec] at hP
  exact hP

theorem returns_now : contract.Returns n (ask .now) (fun i u => i ≤ u.clock) s :=
  returns_ask (fun _ _ => trivial) fun _ _ _ _ => le_rfl

theorem returns_dispatch : ∀ (due : List WarningRow) (delivered : ℕ) {s : Store}, Sound s →
    contract.Returns n (dispatch due delivered) (fun _ _ => True) s := by
  intro due
  induction due with
  | nil => exact fun _ _ _ => Contract.returns_pure trivial
  | cons row due ih =>
    intro delivered s hs
    unfold dispatch
    refine Contract.returns_ofExcept_bind fun warning _ => ?_
    refine (returns_ask (c := .token) (P := fun token u => (n, token) ∈ u.tokens)
      (fun _ _ => trivial) fun _ _ _ _ => List.mem_append_right _ List.mem_cons_self).bind hs
      fun token s₁ hs₁ _ htoken => ?_
    refine returns_now.bind hs₁ fun claimedAt s₂ hs₂ hl₂ hclaimedAt => ?_
    refine (returns_ask (c := .claim warning.toWarningKey token (claimedAt + 60000) claimedAt)
      (P := fun _ _ => True) (fun t hl => ⟨hclaimedAt.trans hl.clock,
        hl.tokens (hl₂.tokens htoken)⟩) fun _ _ _ _ => trivial).bind hs₂
      fun changes s₃ hs₃ hl₃ _ => ?_
    split
    · exact ih delivered hs₃
    refine (returns_ask (c := .deliver warning)
      (P := fun a u => a = true → warning.toWarningKey ∈ u.acknowledged) (fun _ _ => trivial)
      fun w u _ _ h => ?_).bind hs₃ fun acknowledged s₄ hs₄ hl₄ hack => ?_
    · dsimp only [exec] at h ⊢
      rw [if_pos h]
      exact List.mem_append_right _ List.mem_cons_self
    refine Contract.returns_guard fun hnot => ?_
    have hkey := hack (by simpa using hnot)
    refine returns_now.bind hs₄ fun deliveredAt s₅ hs₅ hl₅ _ => ?_
    have hl := ((hl₂.trans hl₃).trans hl₄).trans hl₅
    refine (returns_ask (c := .finish warning.toWarningKey token deliveredAt)
      (P := fun _ _ => True) (fun t hl' => ⟨hl'.acknowledged (hl₅.acknowledged hkey),
        hl'.tokens (hl.tokens htoken)⟩) fun _ _ _ _ => trivial).bind hs₅ fun _ _ hs₆ _ _ => ?_
    exact ih _ hs₆

/-- What is known once a request has been answered. -/
def Ensured : Answer → Store → Prop
  | .observed y, s => ∀ warnings, usageWarnings y = .ok warnings →
      ∀ x ∈ warnings, ∃ r ∈ s.rows, r.key = x.toWarningKey
  | _, _ => True

theorem returns_body (hs : Sound s) (request : Request) :
    contract.Returns n request.body Ensured s := by
  cases request with
  | observe y =>
    refine Contract.Returns.bind (P := fun _ u => Ensured (.observed y) u) ?_ hs
      fun _ _ _ _ h => Contract.returns_pure h
    refine Contract.returns_ofExcept_bind fun warnings hwarnings => ?_
    split
    · next hempty =>
      refine Contract.returns_pure fun warnings' h x hx => ?_
      rw [hwarnings] at h
      cases h
      rw [List.isEmpty_iff.mp hempty] at hx
      cases hx
    · refine returns_now.bind hs fun i s₁ hs₁ _ _ => ?_
      have hvalid := decodes_of_usageWarnings hwarnings
      refine returns_ask (fun _ _ => hvalid) fun _ u hu _ warnings' h x hx => ?_
      rw [hwarnings] at h
      cases h
      exact (hu.record hvalid).2.2.2 x hx
  | settle organizationId instant =>
    refine Contract.Returns.bind (P := fun _ _ => True) ?_ hs
      fun _ _ _ _ _ => Contract.returns_pure trivial
    unfold prepareUsageWarningStatements
    split
    · exact Contract.returns_throw
    · next hreference =>
      rw [Bool.not_eq_true', Bool.not_eq_false] at hreference
      exact returns_ask (fun _ _ => hreference) fun _ _ _ _ => trivial
  | dispatch transport limit =>
    refine Contract.Returns.map (P := fun _ _ => True) ?_ hs fun _ _ _ _ _ => trivial
    unfold dispatchWarnings
    refine Contract.returns_guard fun _ => Contract.returns_guard fun _ => ?_
    refine returns_now.bind hs fun i s₁ hs₁ _ _ => ?_
    exact (returns_ask (c := .due i limit) (P := fun _ _ => True) (fun _ _ => trivial)
      fun _ _ _ _ => trivial).bind hs₁ fun due s₂ hs₂ _ _ => returns_dispatch due 0 hs₂

theorem upheld : contract.Upheld Request.body {} (fun _ _ => True)
    (fun _ y s => ∀ a, y = .ok a → Ensured a s) where
  init := ⟨List.nodup_nil, List.nodup_nil, nofun, nofun, List.nodup_nil, nofun⟩
  body request n s hs := returns_body hs request
  ended n y s t hl h a ha := by
    have hensured := h a ha
    cases a with
    | observed =>
      intro warnings hwarnings x hx
      obtain ⟨r, hr, hkey⟩ := hensured warnings hwarnings x hx
      obtain ⟨r', hr', hev⟩ := hl.rows r hr
      exact ⟨r', hr', (key_of_evolves hev).trans hkey⟩
    | _ => trivial
  step S n w c y t _ hc hinv hpre hrun := by
    obtain ⟨hsound, hleads⟩ := Sound.runs hinv (hpre n c hc) hrun
    exact ⟨hsound, hleads, fun _ _ _ _ => hleads⟩

/-! ### Claims -/

theorem rows_of_update {p : WarningRow → Bool} {q : WarningState} (hs : Sound s) (hr : r ∈ s.rows)
    (hr' : r' ∈ Table.update p (fun r => { r with state := q }) s.rows) (hkey : r'.key = r.key) :
    r'.state = r.state ∨ p r = true ∧ r'.state = q := by
  rcases Table.mem_update.mp hr' with ⟨hold, -⟩ | ⟨r₀, hr₀, hp, rfl⟩
  · exact Or.inl (congrArg _ (Table.eq_of_key hs.keys hold hr hkey))
  · rw [Table.eq_of_key hs.keys hr₀ hr hkey] at hp
    exact Or.inr ⟨hp, rfl⟩

/-- Only `finish` and `claim` change the state of a row. -/
theorem state_of_exec (hs : Sound s) (hneeds : Needs n c s) (hr : r ∈ s.rows)
    (hr' : r' ∈ (exec n w s c).2.rows) (hkey : r'.key = r.key) :
    r'.state = r.state ∨
      (∃ token i, c = .finish r.key token i ∧ r.isClaimed token = true ∧
        r'.state = .delivered i) ∨
      ∃ token claimUntil i, c = .claim r.key token claimUntil i ∧ r.isDue i = true ∧
        r'.state = .dispatching token claimUntil := by
  have hsame : ∀ {u : Store}, Sound u → s.rows ⊆ u.rows → r' ∈ u.rows → r'.state = r.state :=
    fun hu hsub hmem => congrArg _ (Table.eq_of_key hu.keys hmem (hsub hr) hkey)
  cases c with
  | now | due | token => exact Or.inl (hsame hs (List.Subset.refl _) hr')
  | record =>
    obtain ⟨hsound, -, hsub, -⟩ := hs.record hneeds
    exact Or.inl (hsame hsound hsub hr')
  | settle =>
    obtain ⟨hsound, -, hsub⟩ := hs.settle hneeds
    exact Or.inl (hsame hsound hsub hr')
  | deliver =>
    dsimp only [exec] at hr'
    split at hr' <;> exact Or.inl (hsame hs (List.Subset.refl _) hr')
  | claim key token claimUntil i =>
    refine (rows_of_update hs hr hr' hkey).imp_right fun h => Or.inr ?_
    rw [Bool.and_eq_true, decide_eq_true_eq] at h
    exact ⟨token, claimUntil, i, by rw [h.1.1], h.1.2, h.2⟩
  | finish key token i =>
    refine (rows_of_update hs hr hr' hkey).imp_right fun h => Or.inl ?_
    rw [Bool.and_eq_true, decide_eq_true_eq] at h
    exact ⟨token, i, by rw [h.1.1], h.1.2, h.2⟩

variable {S S' : Pool Store (Program Answer)}

/-- **The warnings of every run.**  A warning is recorded once for its key and stays as it is, a
delivered one was acknowledged, each is counted at most once and only when delivered, every row is
one that dispatchers can read, what was observed is recorded, and a claim ends by a dispatcher that
has its token, or when it is over. -/
theorem warnings_dispatched (h : outbox.Reachable S) :
    (S.store.rows.map WarningRow.key).Nodup ∧ S.store.counted.Nodup ∧
    (S.store.tokens.map Prod.snd).Nodup ∧
    (∀ r ∈ S.store.rows, decodeWarning r.warning = .ok r.warning ∧
      ∀ i, r.state = .delivered i → r.key ∈ S.store.acknowledged) ∧
    (∀ k ∈ S.store.counted, ∃ r ∈ S.store.rows, r.key = k ∧ ∃ i, r.state = .delivered i) ∧
    (∀ S', outbox.Path S S' → ∀ r ∈ S.store.rows, ∃ r' ∈ S'.store.rows, r.Evolves r') ∧
    (∀ (n : ℕ) y warnings, S.tasks[n]? = some (some (.pure (.observed y))) →
      usageWarnings y = .ok warnings → ∀ x ∈ warnings, ∃ r ∈ S.store.rows,
        r.key = x.toWarningKey) ∧
    ∀ a S', outbox.next S a = some S' → ∀ r ∈ S.store.rows, ∀ token claimUntil,
      r.state = .dispatching token claimUntil → ∀ r' ∈ S'.store.rows, r'.key = r.key →
        r'.state = r.state ∨
        (∃ n i, S.awaited? n = some (.finish r.key token i) ∧ (n, token) ∈ S.store.tokens ∧
          r'.state = .delivered i) ∨
        (claimUntil ≤ S.store.clock ∧ ∃ n token' claimUntil' i, (n, token') ∈ S.store.tokens ∧
          S.awaited? n = some (.claim r.key token' claimUntil' i) ∧
          r'.state = .dispatching token' claimUntil') := by
  have hholds := upheld.holds h
  have hs : Sound S.store := hholds.inv
  refine ⟨hs.keys, hs.once, hs.tokens, fun r hr => ⟨hs.decodes r hr, hs.acknowledged r hr⟩,
    hs.counted, fun S' hpath => (upheld.leads h hpath).rows,
    fun n y warnings htask => hholds.result htask _ rfl warnings,
    fun a S' hnext r hr token claimUntil hstate r' hr' hkey => ?_⟩
  -- a start and a crash leave the rows as they are
  rcases pool_next_cases hnext with ⟨_, -, rfl⟩ | ⟨n, w, c, k, x, store, rfl, htask, hrun, rfl⟩ |
    ⟨_, -, rfl⟩
  · exact Or.inl (congrArg _ (Table.eq_of_key hs.keys hr' hr hkey))
  · have hc : S.awaited? n = some c := by simp [Pool.awaited?, htask, Async.awaited?]
    have hneeds : Needs n c S.store := hholds.pre hc
    obtain ⟨hs', hl⟩ := hs.elapse w.elapsed
    have hcases : r'.state = r.state ∨ r' ∈ (exec n w
        { S.store with clock := S.store.clock + w.elapsed } c).2.rows := by
      unfold runs at hrun
      dsimp only at hrun
      split_ifs at hrun <;> cases hrun
      · exact Or.inl (congrArg _ (Table.eq_of_key hs.keys hr' hr hkey))
      · exact Or.inr hr'
      · exact Or.inr hr'
    rcases hcases with hsame | hr'
    · exact Or.inl hsame
    rcases state_of_exec hs' (hneeds.leads hl) hr hr' hkey with hsame | hfinish | hclaim
    · exact Or.inl hsame
    · obtain ⟨token', i, rfl, hclaimed, hdelivered⟩ := hfinish
      simp only [WarningRow.isClaimed, hstate, decide_eq_true_eq] at hclaimed
      subst hclaimed
      exact Or.inr (Or.inl ⟨n, i, hc, hneeds.2, hdelivered⟩)
    · obtain ⟨token', claimUntil', i, rfl, hdue, hdispatching⟩ := hclaim
      simp only [WarningRow.isDue, hstate, decide_eq_true_eq] at hdue
      exact Or.inr (Or.inr ⟨hdue.trans hneeds.1, n, token', claimUntil', i, hneeds.2, hc,
        hdispatching⟩)
  · exact Or.inl (congrArg _ (Table.eq_of_key hs.keys hr' hr hkey))

/-- What is observed is recorded, claimed, handed over and finished. -/
def deliveryActions : List (PoolAction Request Outside) :=
  [.start (.observe (Entitlement.summary ⟨"org", .free, 0, 9, 100, 0, 70, 10⟩)), .step 0 {},
    .step 0 {}, .start (.dispatch true 20), .step 1 { elapsed := 1 }, .step 1 {},
    .step 1 { token := "warning_1" }, .step 1 {}, .step 1 {}, .step 1 {}, .step 1 {}, .step 1 {}]

theorem warnings_dispatched_deliveryActions : ∃ S, outbox.Reachable S ∧
    ∃ k ∈ S.store.counted, ∃ r ∈ S.store.rows, r.key = k ∧ ∃ i, r.state = .delivered i := by
  obtain ⟨S, hS, hp⟩ := Machine.exists_reachable_of_run (M := outbox) deliveryActions
    (fun S => !S.store.counted.isEmpty) (by decide +kernel)
  obtain ⟨k, hk⟩ := List.exists_mem_of_ne_nil S.store.counted (by rintro h; simp [h] at hp)
  exact ⟨S, hS, k, hk, (warnings_dispatched hS).2.2.2.2.1 k hk⟩

end Takoserver.UsageWarnings
