import Takoserver.Metering.Debits
import Takoserver.Metering.RollUps

/-!
# Roll-ups are exact

A run prices rows it has read, and claims rows that are still unclaimed when its batch commits.
No statement changes what a row was priced at, so the rows it has read are the rows it claims,
and the debit of its batch is the sum of their prices, rounded up to a micro once.
-/

namespace Takoserver.Metering.RollUps

open Wallet (Tables DebitCall Circumstance Selection SameDebit)

variable {options : Options} {s s' : System} {b b' : Books} {events events' : List UsageEvent}
  {fold : Fold}

/-! ### Rows -/

/-- What a row costs. -/
def price (e : UsageEvent) : ℚ :=
  (e.amountNumeratorMicros.getD 0 : ℕ) / (e.amountDenominator.getD 1 : ℕ)

/-- The rows a roll-up has claimed. -/
def claimedRows (events : List UsageEvent) (org ref : String) : List UsageEvent :=
  events.filter fun e => e.organizationId == org && e.rollupId == some ref

/-- A row but for its claim. -/
def base (e : UsageEvent) : UsageEvent := { e with rollupId := none }

theorem price_base (e : UsageEvent) : price (base e) = price e := rfl

/-- A row that was read is a row of the table, but for a claim that came since. -/
def Known (events : List UsageEvent) (row : UsageEvent) : Prop :=
  ∃ e ∈ events, base e = base row

/-- Rows stay, and keep all but a claim that they do not have yet. -/
def Leads (events events' : List UsageEvent) : Prop :=
  ∀ e ∈ events, ∃ e' ∈ events', base e' = base e ∧ ∀ ref, e.rollupId = some ref → e' = e

theorem Leads.refl (events : List UsageEvent) : Leads events events :=
  fun e he => ⟨e, he, rfl, fun _ _ => rfl⟩

theorem Leads.trans {events'' : List UsageEvent} (h : Leads events events')
    (h' : Leads events' events'') : Leads events events'' := by
  intro e he
  obtain ⟨e', he', hbase, hclaim⟩ := h e he
  obtain ⟨e'', he'', hbase', hclaim'⟩ := h' e' he'
  refine ⟨e'', he'', hbase'.trans hbase, fun ref href => ?_⟩
  have heq := hclaim ref href
  rw [hclaim' ref (heq ▸ href), heq]

theorem Known.leads {row : UsageEvent} (h : Known events row) (hl : Leads events events') :
    Known events' row := by
  obtain ⟨e, he, hrow⟩ := h
  obtain ⟨e', he', hbase, -⟩ := hl e he
  exact ⟨e', he', hbase.trans hrow⟩

/-! ### What a run knows -/

/-- Rows of one organization that were read. -/
structure GroupSound (events : List UsageEvent) (org : String) (rows : List UsageEvent) : Prop where
  ids : (rows.map UsageEvent.requestId).Nodup
  rows : ∀ row ∈ rows, row.organizationId = org ∧ Known events row

structure Fold.Sound (fold : Fold) (events : List UsageEvent) : Prop
    extends GroupSound events fold.org fold.rows where
  reference : isRollupId fold.rollupId = true
  amount : ∃ exact, exactAmount fold.rows .zero = some exact ∧
    ceilPricedMicros exact = some fold.amountMicros

def Rest.Sound (rest : Rest) (events : List UsageEvent) : Prop :=
  ∀ group ∈ rest.groups, GroupSound events group.1 group.2

/-- What a run knows of the rows it holds. -/
def Run.Sound (events : List UsageEvent) : Run → Prop
  | .witnessing pending =>
    (pending.map UsageEvent.requestId).Nodup ∧ ∀ row ∈ pending, Known events row
  | .folding rest => rest.Sound events
  | .receivable fold _ rest => fold.Sound events ∧ rest.Sound events
  | .lots fold _ rest => fold.Sound events ∧ rest.Sound events
  | .committing fold plan rest =>
    fold.Sound events ∧ rest.Sound events ∧ (plan = none → fold.amountMicros = 0)
  | _ => True

variable {org ref : String} {rows : List UsageEvent} {rest : Rest} {run : Run}
  {plan : Option (Selection fold.amountMicros × Wallet.Instant)}

theorem GroupSound.leads (h : GroupSound events org rows) (hl : Leads events events') :
    GroupSound events' org rows :=
  ⟨h.ids, fun row hrow => ⟨(h.rows row hrow).1, (h.rows row hrow).2.leads hl⟩⟩

theorem Fold.Sound.leads (h : fold.Sound events) (hl : Leads events events') : fold.Sound events' :=
  { h.toGroupSound.leads hl with reference := h.reference, amount := h.amount }

theorem Rest.Sound.leads (h : rest.Sound events) (hl : Leads events events') :
    rest.Sound events' :=
  fun group hgroup => (h group hgroup).leads hl

theorem Run.Sound.leads (h : run.Sound events) (hl : Leads events events') :
    run.Sound events' := by
  cases run with
  | witnessing => exact ⟨h.1, fun row hrow => (h.2 row hrow).leads hl⟩
  | folding => exact Rest.Sound.leads h hl
  | receivable => exact ⟨h.1.leads hl, h.2.leads hl⟩
  | lots => exact ⟨h.1.leads hl, h.2.leads hl⟩
  | committing => exact ⟨h.1.leads hl, h.2.1.leads hl, h.2.2⟩
  | _ => trivial

/-- The rows of each organization among those that were read. -/
theorem groupSound_byOrg {pending : List UsageEvent}
    (hids : (pending.map UsageEvent.requestId).Nodup) (hrows : ∀ row ∈ pending, Known events row) :
    ∀ group ∈ byOrg pending, GroupSound events group.1 group.2 := by
  intro group hgroup
  obtain ⟨_, -, rfl⟩ := List.mem_map.mp hgroup
  refine ⟨hids.sublist (List.filter_sublist.map _), fun row hrow => ?_⟩
  obtain ⟨hmem, horg⟩ := List.mem_filter.mp hrow
  exact ⟨beq_iff_eq.mp horg, hrows row hmem⟩

theorem pendingRows_sound (limit : ℕ) (hids : (events.map UsageEvent.requestId).Nodup) :
    ((pendingRows limit events).map UsageEvent.requestId).Nodup ∧
      ∀ row ∈ pendingRows limit events, Known events row := by
  have hperm := List.perm_insertionSort (fun a b : UsageEvent => a.createdAt ≤ b.createdAt)
    (events.filter fun e => e.rollupId.isNone)
  constructor
  · have hsorted := (hperm.map UsageEvent.requestId).nodup_iff.mpr
      (hids.sublist (List.filter_sublist.map _))
    exact hsorted.sublist ((List.take_sublist _ _).map _)
  · intro row hrow
    have hmem := hperm.mem_iff.mp (List.mem_of_mem_take hrow)
    exact ⟨row, List.mem_of_mem_filter hmem, rfl⟩

/-! ### Prices -/

theorem exactAmount_value {r exact : RationalMicros} (h : exactAmount rows r = some exact) :
    exact.value = r.value + (rows.map price).sum := by
  induction rows generalizing r with
  | nil =>
    cases h
    simp
  | cons row rows ih =>
    unfold exactAmount at h
    split at h
    · split at h
      · next priced hpriced =>
        have hvalue : priced.value = price row := by
          unfold parsePricedRational at hpriced
          split at hpriced
          · next hn hd =>
            split at hpriced
            · rw [rational_value hpriced]
              unfold price
              rw [hn, hd]
              rfl
            · cases hpriced
          · cases hpriced
        rw [ih h, addRational_value, hvalue, List.map_cons, List.sum_cons, add_assoc]
      · cases h
    · cases h

theorem Fold.Sound.amount_eq (h : fold.Sound events) :
    (fold.amountMicros : ℤ) = ⌈(fold.rows.map price).sum⌉ := by
  obtain ⟨exact, hexact, hceil⟩ := h.amount
  have hvalue := exactAmount_value hexact
  rw [RationalMicros.zero_value, zero_add] at hvalue
  rw [← hvalue]
  exact ceilPricedMicros_eq hceil

/-! ### The claim -/

theorem claim_lead (fold : Fold) (events : List UsageEvent) : Leads events (fold.claim events) := by
  intro e he
  refine ⟨_, Table.mem_update_of_mem he, ?_, fun ref href => ?_⟩
  · split <;> rfl
  · rw [if_neg]
    simp [Fold.claims, href]

theorem map_id_claim (fold : Fold) (events : List UsageEvent) :
    (fold.claim events).map UsageEvent.requestId = events.map UsageEvent.requestId := by
  exact Table.map_update (f := fun e : UsageEvent => { e with rollupId := some fold.rollupId })
    (g := UsageEvent.requestId) (fun _ => rfl) events

theorem claimedRows_claim (hnone : events.any fold.claimed = false) :
    claimedRows (fold.claim events) fold.org fold.rollupId =
      (events.filter fold.claims).map fun e => { e with rollupId := some fold.rollupId } := by
  unfold claimedRows Fold.claim Table.update
  rw [List.filter_map]
  have hfilter : events.filter ((fun e : UsageEvent => e.organizationId == fold.org &&
      e.rollupId == some fold.rollupId) ∘ fun e =>
        if fold.claims e then { e with rollupId := some fold.rollupId } else e) =
      events.filter fold.claims := by
    refine List.filter_congr fun e he => ?_
    simp only [Function.comp]
    cases hclaims : fold.claims e with
    | true =>
      simp only [Fold.claims, Bool.and_eq_true] at hclaims
      simp [hclaims.1.1]
    | false =>
      simpa [Fold.claimed] using List.any_eq_false.mp hnone e he
  rw [hfilter]
  refine List.map_congr_left fun e he => ?_
  rw [if_pos (List.mem_filter.mp he).2]

theorem claimedRows_claim_of_ne (hne : ¬(fold.org = org ∧ fold.rollupId = ref)) :
    claimedRows (fold.claim events) org ref = claimedRows events org ref := by
  unfold claimedRows Fold.claim Table.update
  rw [List.filter_map]
  have hfilter : events.filter ((fun e : UsageEvent => e.organizationId == org &&
      e.rollupId == some ref) ∘ fun e =>
        if fold.claims e then { e with rollupId := some fold.rollupId } else e) =
      events.filter fun e => e.organizationId == org && e.rollupId == some ref := by
    refine List.filter_congr fun e _ => ?_
    simp only [Function.comp]
    cases hclaims : fold.claims e with
    | true =>
      simp only [Fold.claims, Bool.and_eq_true, beq_iff_eq, Option.isNone_iff_eq_none] at hclaims
      obtain ⟨⟨horg, hnone⟩, -⟩ := hclaims
      simp only [if_true, horg, hnone]
      by_cases ho : fold.org = org
      · have hr : fold.rollupId ≠ ref := fun hr => hne ⟨ho, hr⟩
        simp [hr]
      · simp [ho]
    | false => rfl
  rw [hfilter]
  conv_rhs => rw [← List.map_id (events.filter _)]
  refine List.map_congr_left fun e he => ?_
  have hclaimed := (List.mem_filter.mp he).2
  simp only [Bool.and_eq_true, beq_iff_eq] at hclaimed
  rw [if_neg]
  · rfl
  · simp [Fold.claims, hclaimed.2]

theorem perm_ids (hids : (events.map UsageEvent.requestId).Nodup)
    (hcount : events.countP fold.claims = fold.ids.length) :
    ((events.filter fold.claims).map UsageEvent.requestId).Perm fold.ids := by
  have hnodup : ((events.filter fold.claims).map UsageEvent.requestId).Nodup :=
    hids.sublist (List.filter_sublist.map _)
  have hsubset : (events.filter fold.claims).map UsageEvent.requestId ⊆ fold.ids := by
    intro id hid
    obtain ⟨e, he, rfl⟩ := List.mem_map.mp hid
    have hclaims := (List.mem_filter.mp he).2
    simp only [Fold.claims, Bool.and_eq_true, decide_eq_true_eq] at hclaims
    exact hclaims.2
  refine (List.subperm_of_subset hnodup hsubset).perm_of_length_le ?_
  rw [List.length_map, ← List.countP_eq_length_filter, hcount]

/-- What a request of the table costs. -/
def priceOf (events : List UsageEvent) (id : String) : ℚ :=
  ((Table.find UsageEvent.requestId events id).map price).getD 0

theorem priceOf_known {row : UsageEvent} (hids : (events.map UsageEvent.requestId).Nodup)
    (h : Known events row) : priceOf events row.requestId = price row := by
  obtain ⟨e, he, hbase⟩ := h
  have hid : (base e).requestId = (base row).requestId := congrArg UsageEvent.requestId hbase
  replace hid : e.requestId = row.requestId := hid
  have hprice : price e = price row := by
    rw [← price_base e, hbase, price_base]
  unfold priceOf
  rw [← hid, Table.find_of_mem hids he, ← hprice]
  rfl

/-- They cost the same. -/
theorem sum_price_claims (hids : (events.map UsageEvent.requestId).Nodup) (h : fold.Sound events)
    (hcount : events.countP fold.claims = fold.ids.length) :
    ((events.filter fold.claims).map price).sum = (fold.rows.map price).sum := by
  have hperm := (perm_ids hids hcount).map (priceOf events)
  have hclaims : ((events.filter fold.claims).map UsageEvent.requestId).map (priceOf events) =
      (events.filter fold.claims).map price := by
    rw [List.map_map]
    exact List.map_congr_left fun e he =>
      priceOf_known hids ⟨e, List.mem_of_mem_filter he, rfl⟩
  have hrows : fold.ids.map (priceOf events) = fold.rows.map price := by
    unfold Fold.ids
    rw [List.map_map]
    exact List.map_congr_left fun row hrow => priceOf_known hids (h.rows row hrow).2
  rw [← hclaims, ← hrows]
  exact hperm.sum_eq

/-! ### The batch -/

theorem Fold.batch_cases {c : Circumstance} (h : fold.batch plan c b = some b') :
    fold.unclaimed b = true ∧ b'.events = fold.claim b.events ∧
      ((plan = none ∧ b'.db = b.db) ∨ ∃ selection now, plan = some (selection, now) ∧
        fold.debit.batch selection.picks now c b.db = some b'.db) := by
  unfold Fold.batch at h
  split at h
  · next hunclaimed =>
    dsimp only at h
    split at h
    · rw [Option.map_eq_some_iff] at h
      obtain ⟨_, hpay, rfl⟩ := h
      refine ⟨hunclaimed, rfl, ?_⟩
      unfold Fold.pay at hpay
      cases plan with
      | none =>
        cases hpay
        exact Or.inl ⟨rfl, rfl⟩
      | some plan =>
        obtain ⟨selection, now⟩ := plan
        dsimp only at hpay
        split at hpay
        · exact Or.inr ⟨selection, now, rfl, hpay⟩
        · cases hpay
    · cases h
  · cases h

theorem Fold.unclaimed_cases (h : fold.unclaimed b = true) :
    b.events.countP fold.claims = fold.ids.length ∧ b.events.any fold.claimed = false ∧
      fold.debit.unused b.db = true := by
  simp only [Fold.unclaimed, Bool.and_eq_true, decide_eq_true_eq, Bool.not_eq_true'] at h
  exact ⟨h.1.1, h.1.2, h.2⟩

/-- The debit of a roll-up is the price of its rows. -/
structure Exact (b : Books) (org ref : String) : Prop where
  debited : b.db.debited org ref = ⌈((claimedRows b.events org ref).map price).sum⌉
  allocated : (b.db.allocatedBy org .usageDebit ref : ℤ) =
    ⌈((claimedRows b.events org ref).map price).sum⌉

theorem Exact.of_same (h : Exact b org ref)
    (hrows : claimedRows b'.events org ref = claimedRows b.events org ref)
    (hsame : SameDebit b.db b'.db org ref) : Exact b' org ref :=
  ⟨by rw [hrows, hsame.debited]; exact h.debited, by rw [hrows, hsame.allocatedBy]; exact h.allocated⟩

/-- **A batch that commits claims the rows that were priced, and debits their price.** -/
theorem Fold.batch_exact {c : Circumstance} (hids : (b.events.map UsageEvent.requestId).Nodup)
    (hsound : fold.Sound b.events) (hplan : plan = none → fold.amountMicros = 0)
    (h : fold.batch plan c b = some b') :
    ((claimedRows b'.events fold.org fold.rollupId).map UsageEvent.requestId).Perm fold.ids ∧
      Exact b' fold.org fold.rollupId := by
  obtain ⟨hunclaimed, hevents, hdb⟩ := Fold.batch_cases h
  obtain ⟨hcount, hnone, hunused⟩ := Fold.unclaimed_cases hunclaimed
  have hrows := claimedRows_claim hnone
  have hsum : ((claimedRows b'.events fold.org fold.rollupId).map price).sum =
      (fold.rows.map price).sum := by
    rw [hevents, hrows, List.map_map, ← sum_price_claims hids hsound hcount]
    rfl
  refine ⟨?_, ?_⟩
  · rw [hevents, hrows, List.map_map]
    exact perm_ids hids hcount
  rcases hdb with ⟨hno, hdb⟩ | ⟨_, _, -, hdebit⟩
  · -- nothing to pay: nothing is debited
    have hzero := Wallet.debited_of_unused hunused
    have hceil : ⌈(fold.rows.map price).sum⌉ = 0 := by
      rw [← hsound.amount_eq, hplan hno]
      rfl
    exact ⟨by rw [hsum, hceil, hdb]; exact hzero.1, by rw [hsum, hceil, hdb]; exact_mod_cast hzero.2⟩
  · have hpaid := Wallet.debited_of_batch rfl hdebit
    exact ⟨by rw [hsum, ← hsound.amount_eq]; exact hpaid.1,
      by rw [hsum, ← hsound.amount_eq]; exact_mod_cast hpaid.2⟩

/-! ### Every state -/

/-- Another user of the wallet is in no roll-up's debit. -/
def Foreign (client : Wallet.Client) : Prop := ∀ d, client.debit? = some d → foreign d = true

/-- What holds in every state. -/
structure Sound (s : System) : Prop where
  ids : (s.books.events.map UsageEvent.requestId).Nodup
  references : ∀ e ∈ s.books.events, ∀ ref, e.rollupId = some ref → isRollupId ref = true
  exact : ∀ org ref, claimedRows s.books.events org ref ≠ [] → Exact s.books org ref
  runs : ∀ i, (s.run i).Sound s.books.events
  clients : ∀ i, Foreign (s.client i)

theorem sound_init : Sound {} where
  ids := List.nodup_nil
  references := nofun
  exact _ _ h := absurd rfl h
  runs _ := trivial
  clients _ _ h := nomatch h

/-- A reference under which rows are claimed is a roll-up's. -/
theorem Sound.isRollupId (h : Sound s) (hrows : claimedRows s.books.events org ref ≠ []) :
    isRollupId ref = true := by
  obtain ⟨e, he⟩ := List.exists_mem_of_ne_nil _ hrows
  obtain ⟨hmem, hclaimed⟩ := List.mem_filter.mp he
  rw [Bool.and_eq_true] at hclaimed
  exact h.references e hmem ref (beq_iff_eq.mp hclaimed.2)

theorem foreign_ne {d : DebitCall} (h : foreign d = true) (href : RollUps.isRollupId ref = true) :
    ¬(d.kind ≠ .hold ∧ d.org = org ∧ d.reference = ref) := by
  rintro ⟨hkind, -, rfl⟩
  simp [foreign, hkind, href] at h

theorem foreign_start {call : Wallet.Call} (h : foreignCall call = true) : Foreign call.start := by
  intro d hd
  unfold Wallet.Call.start at hd
  split at hd <;> split at hd
  -- only a debit starts one
  case h_2.isTrue => exact Option.some.inj hd ▸ h
  all_goals cases hd

/-! #### The steps -/

/-- What a run may change of itself and of the tables. -/
structure Kept (b : Books) (run : Run) (b' : Books) : Prop where
  ids : (b'.events.map UsageEvent.requestId).Nodup
  references : ∀ e ∈ b'.events, ∀ ref, e.rollupId = some ref → isRollupId ref = true
  exact : ∀ org ref, claimedRows b'.events org ref ≠ [] → Exact b' org ref
  run : run.Sound b'.events
  leads : Leads b.events b'.events

/-- A fold is what its rows say. -/
theorem fold_sound {witnesses : Option (List (String × Option String))} {id : String}
    (hrows : GroupSound events org rows) (h : options.fold witnesses org rows id = some fold) :
    fold.Sound events := by
  unfold Options.fold at h
  simp only [Option.bind_eq_bind, Option.bind_eq_some_iff, Option.pure_def, Option.some.injEq] at h
  obtain ⟨exact, hexact, _, -, _, hamount, rfl⟩ := h
  refine { toGroupSound := hrows, reference := ?_, amount := ⟨exact, hexact, hamount⟩ }
  simp [RollUps.isRollupId]

theorem fold_begin {now : Wallet.Instant} (h : fold.Sound events) (hrest : rest.Sound events) :
    (fold.begin now rest).Sound events := by
  unfold Fold.begin
  split
  · exact ⟨h, hrest⟩
  · next hzero => exact ⟨h, hrest, fun _ => Nat.eq_zero_of_not_pos hzero⟩

theorem Sound.reads (hs : Sound s) (h : run.Sound s.books.events) :
    Kept s.books run s.books :=
  ⟨hs.ids, hs.references, hs.exact, h, .refl _⟩

/-- **Every statement of a run keeps what holds.** -/
theorem kept_step (hs : Sound s) (x : Outside) (hrun : run.Sound s.books.events) :
    Kept s.books (run.step options s.books x).1 (run.step options s.books x).2 := by
  -- only a debit writes; the stages before it read
  cases run with
  | idle => exact hs.reads trivial
  | done => exact hs.reads trivial
  | failed => exact hs.reads trivial
  | selecting limit =>
    obtain ⟨hids, hrows⟩ := pendingRows_sound limit hs.ids
    simp only [Run.step]
    split
    · exact hs.reads trivial
    · split
      · exact hs.reads ⟨hids, hrows⟩
      · exact hs.reads (groupSound_byOrg hids hrows)
  | witnessing => exact hs.reads (groupSound_byOrg hrun.1 hrun.2)
  | folding rest =>
    obtain ⟨groups, _, _⟩ := rest
    cases groups with
    | nil => exact hs.reads trivial
    | cons group =>
      simp only [Run.step]
      split
      · exact hs.reads trivial
      · next hfold =>
        refine hs.reads (fold_begin (fold_sound (hrun group List.mem_cons_self) hfold) ?_)
        exact fun g hg => hrun g (List.mem_cons_of_mem _ hg)
  | receivable =>
    simp only [Run.step]
    split
    · exact hs.reads hrun
    · exact hs.reads trivial
  | lots =>
    simp only [Run.step]
    split
    · exact hs.reads ⟨hrun.1, hrun.2, nofun⟩
    · exact hs.reads trivial
  | committing fold =>
    obtain ⟨hfold, hrest, hplan⟩ := hrun
    simp only [Run.step]
    split
    · exact hs.reads trivial
    next b' hbatch =>
    obtain ⟨-, hevents, hdb⟩ := Fold.batch_cases hbatch
    obtain ⟨-, hexact⟩ := Fold.batch_exact hs.ids hfold hplan hbatch
    have hleads : Leads s.books.events b'.events := hevents ▸ claim_lead fold s.books.events
    refine ⟨by rw [hevents, map_id_claim]; exact hs.ids, fun e he ref href => ?_,
      fun org ref hrows => ?_, ?_, hleads⟩
    · rw [hevents] at he
      rcases Table.mem_update.mp he with ⟨hold, -⟩ | ⟨_, -, -, rfl⟩
      · exact hs.references e hold ref href
      · rw [← Option.some.inj href]
        exact hfold.reference
    · by_cases hown : fold.org = org ∧ fold.rollupId = ref
      · obtain ⟨rfl, rfl⟩ := hown
        exact hexact
      · have hother : claimedRows (fold.claim s.books.events) org ref =
            claimedRows s.books.events org ref := claimedRows_claim_of_ne hown
        rw [hevents, hother] at hrows
        refine (hs.exact org ref hrows).of_same (by rw [hevents, hother]) ?_
        rcases hdb with ⟨-, hdb⟩ | ⟨_, _, -, hdebit⟩
        · exact .of_eq (by rw [hdb]) (by rw [hdb])
        · exact .debit (fun h => hown h.2) hdebit
    · split
      · trivial
      · exact Rest.Sound.leads hrest hleads

theorem sound_next {a : Action} (hs : Sound s) (h : (rollUps options).next s a = some s') :
    Sound s' ∧ Leads s.books.events s'.books.events := by
  have hrun : ∀ {i : ℕ} {run : Run}, run.Sound s.books.events →
      ∀ j, (Function.update s.run i run j).Sound s.books.events := by
    intro i run hr j
    by_cases hj : j = i
    · subst hj
      rw [Function.update_self]
      exact hr
    · rw [Function.update_of_ne hj]
      exact hs.runs j
  have hclient : ∀ {i : ℕ} {client : Wallet.Client}, Foreign client →
      ∀ j, Foreign (Function.update s.client i client j) := by
    intro i client hc j
    by_cases hj : j = i
    · subst hj
      rw [Function.update_self]
      exact hc
    · rw [Function.update_of_ne hj]
      exact hs.clients j
  -- only a recording and a run's batch move the events
  cases a with
  | record event =>
    simp only [rollUps] at h
    split at h
    · split at h
      · cases h
        exact ⟨hs, .refl _⟩
      next hfree =>
      cases h
      have hnew := Table.find_none.mp (Option.not_isSome_iff_eq_none.mp hfree)
      have hleads : Leads s.books.events
          (s.books.events ++ [{ event with rollupId := none }]) :=
        fun e he => ⟨e, List.mem_append_left _ he, rfl, fun _ _ => rfl⟩
      have hrows : ∀ org ref, claimedRows (s.books.events ++ [{ event with rollupId := none }])
          org ref = claimedRows s.books.events org ref := by
        intro org ref
        unfold claimedRows
        rw [List.filter_append]
        simp
      refine ⟨⟨Table.nodup_insert hs.ids hnew, fun e he ref href => ?_, fun org ref hne => ?_,
        fun i => (hs.runs i).leads hleads, hs.clients⟩, hleads⟩
      · rcases List.mem_append.mp he with hold | hin
        · exact hs.references e hold ref href
        · rw [List.mem_singleton.mp hin] at href
          cases href
      · rw [hrows] at hne
        exact (hs.exact org ref hne).of_same (hrows org ref) (.refl _ _ _)
    · cases h
  | rollUp =>
    cases h
    exact ⟨{ hs with runs := hrun trivial }, .refl _⟩
  | step i x =>
    simp only [rollUps] at h
    split at h
    · cases h
      exact ⟨{ hs with runs := hrun trivial }, .refl _⟩
    cases h
    have hkept : Kept s.books ((s.run i).step options s.books x).1 _ := kept_step hs x (hs.runs i)
    refine ⟨⟨hkept.ids, hkept.references, hkept.exact, fun j => ?_, hs.clients⟩, hkept.leads⟩
    by_cases hj : j = i
    · subst hj
      simp only [Function.update_self]
      exact hkept.run
    · simp only [Function.update_of_ne hj]
      exact (hs.runs j).leads hkept.leads
  | crash i =>
    cases h
    exact ⟨{ hs with runs := hrun trivial }, .refl _⟩
  | call =>
    simp only [rollUps] at h
    split at h
    · next hforeign =>
      cases h
      exact ⟨{ hs with clients := hclient (foreign_start hforeign) }, .refl _⟩
    · cases h
  | use i c =>
    cases h
    have hforeign := hs.clients i
    refine ⟨⟨hs.ids, hs.references, fun org ref hrows => ?_, hs.runs, hclient fun d hd => ?_⟩,
      .refl _⟩
    · refine (hs.exact org ref hrows).of_same rfl ?_
      exact .step s.books.db c fun d hd => foreign_ne (hforeign d hd) (hs.isRollupId hrows)
    · exact hforeign d (Wallet.debit?_step _ c _ d hd)
  | leave i =>
    cases h
    exact ⟨{ hs with clients := hclient fun d hd => by cases hd }, .refl _⟩
  | fence f =>
    cases h
    refine ⟨⟨hs.ids, hs.references, fun org ref hrows => ?_, hs.runs, hs.clients⟩, .refl _⟩
    exact (hs.exact org ref hrows).of_same rfl (.of_eq rfl rfl)

theorem sound_of_reachable (h : (rollUps options).Reachable s) : Sound s := by
  refine Machine.ReachVia.invariant sound_init ?_ h
  intro s a s' hs _ hnext
  exact (sound_next hs hnext).1

theorem leads_of_path (h : (rollUps options).Reachable s) (hpath : (rollUps options).Path s s') :
    Leads s.books.events s'.books.events := by
  refine Machine.Path.invariant (P := fun t => Leads s.books.events t.books.events) ?_ h hpath
    (.refl _)
  intro t a t' ht hlead hnext
  exact hlead.trans (sound_next (sound_of_reachable ht) hnext).2

theorem books_of_abort {i : ℕ} {x : Outside} (hrun : s.run i = .committing fold plan rest)
    (habort : x.fails = true ∨ fold.batch plan x.circumstance s.books = none)
    (h : (rollUps options).next s (.step i x) = some s') : s'.books = s.books := by
  simp only [rollUps] at h
  split at h
  · cases h
    rfl
  · next hok =>
    have hnone := habort.resolve_left hok
    cases h
    simp only [hrun, Run.step, hnone]

theorem step_cases (options : Options) (b : Books) (x : Outside) (run : Run) :
    (run.step options b x).2 = b ∨ ∃ fold plan rest, run = .committing fold plan rest ∧
      fold.batch plan x.circumstance b = some (run.step options b x).2 := by
  cases run with
  | selecting =>
    refine Or.inl ?_
    simp only [Run.step]
    split
    · rfl
    · split <;> rfl
  | folding rest =>
    obtain ⟨groups, _, _⟩ := rest
    cases groups with
    | nil => exact Or.inl rfl
    | cons =>
      refine Or.inl ?_
      simp only [Run.step]
      split <;> rfl
  | receivable =>
    refine Or.inl ?_
    simp only [Run.step]
    split <;> rfl
  | lots =>
    refine Or.inl ?_
    simp only [Run.step]
    split <;> rfl
  | committing fold plan rest =>
    cases hbatch : fold.batch plan x.circumstance b with
    | none =>
      refine Or.inl ?_
      simp only [Run.step, hbatch]
    | some b' =>
      refine Or.inr ⟨fold, plan, rest, rfl, ?_⟩
      simp only [Run.step, hbatch]
  | _ => exact Or.inl rfl

theorem claims_of_step (hs : Sound s) {i : ℕ} {x : Outside}
    (h : (rollUps options).next s (.step i x) = some s') (hne : s'.books ≠ s.books) :
    ∃ fold plan rest, s.run i = .committing fold plan rest ∧
      fold.batch plan x.circumstance s.books = some s'.books ∧
      claimedRows s.books.events fold.org fold.rollupId = [] ∧
      ((claimedRows s'.books.events fold.org fold.rollupId).map UsageEvent.requestId).Perm fold.ids ∧
      Exact s'.books fold.org fold.rollupId := by
  simp only [rollUps] at h
  split at h
  · cases h
    exact absurd rfl hne
  cases h
  obtain ⟨fold, plan, rest, hrun, hbatch⟩ :=
    (step_cases options s.books x (s.run i)).resolve_left hne
  have hsound := hs.runs i
  rw [hrun] at hsound
  obtain ⟨hperm, hexact⟩ := Fold.batch_exact hs.ids hsound.1 hsound.2.2 hbatch
  obtain ⟨-, hnone, -⟩ := Fold.unclaimed_cases (Fold.batch_cases hbatch).1
  refine ⟨fold, plan, rest, hrun, hbatch, ?_, hperm, hexact⟩
  refine List.filter_eq_nil_iff.mpr fun e he => ?_
  simpa [Fold.claimed] using List.any_eq_false.mp hnone e he

/-- **Roll-ups are exact.**  In every interleaving of any number of runs, of events that are
recorded and of other users of the wallet: an event that is claimed stays as it is, so none is
claimed twice; what is debited for a roll-up is the exact sum of what the events it claimed cost,
rounded up to a micro; a batch that aborts leaves the events and the wallet as they were; and a
batch that commits claims exactly the events that were priced. -/
theorem rollUp_exact (options : Options) {s : System} (h : (rollUps options).Reachable s) :
    (s.books.events.map UsageEvent.requestId).Nodup ∧
    (∀ s', (rollUps options).Path s s' → Leads s.books.events s'.books.events) ∧
    (∀ org ref, claimedRows s.books.events org ref ≠ [] → Exact s.books org ref) ∧
    (∀ i x s' fold plan rest, s.run i = .committing fold plan rest →
      (x.fails = true ∨ fold.batch plan x.circumstance s.books = none) →
      (rollUps options).next s (.step i x) = some s' → s'.books = s.books) ∧
    ∀ i x s', (rollUps options).next s (.step i x) = some s' → s'.books ≠ s.books →
      ∃ fold plan rest, s.run i = .committing fold plan rest ∧
        fold.batch plan x.circumstance s.books = some s'.books ∧
        claimedRows s.books.events fold.org fold.rollupId = [] ∧
        ((claimedRows s'.books.events fold.org fold.rollupId).map UsageEvent.requestId).Perm
          fold.ids ∧ Exact s'.books fold.org fold.rollupId := by
  have hs := sound_of_reachable h
  refine ⟨hs.ids, fun s' hpath => leads_of_path h hpath, hs.exact, ?_, ?_⟩
  · intro i x s' fold plan rest hrun habort hnext
    exact books_of_abort hrun habort hnext
  · intro i x s' hnext hne
    exact claims_of_step hs hnext hne

/-! ### A roll-up of two events -/

/-- An event that costs a number of thirds of a micro. -/
def thirds (requestId : String) (numerator : ℕ) : UsageEvent where
  requestId := requestId
  organizationId := "org"
  resourceUid := "bucket"
  meter := "requests"
  quantity := .zero
  amountMicros := numerator / 3
  amountNumeratorMicros := some numerator
  amountDenominator := some 3
  createdAt := 0

/-- A lot of 100 is funded; two events of four thirds are rolled up. -/
def rolledRun : List Action :=
  [.call 0 (.fund { org := "org", fundingRef := "lot", amountMicros := 100,
                    consumptionClass := .subscription })] ++
  List.replicate 6 (.use 0 { now := 0 }) ++
  [.record (thirds "a" 4), .record (thirds "b" 4), .rollUp 0 10] ++
  List.replicate 5 (.step 0 { circumstance := { now := 0 }, id := "1" })

theorem rollUp_exact_rolledRun : ∃ s, (rollUps { parse := fun _ => none }).Reachable s ∧
    (claimedRows s.books.events "org" "roll_1").map UsageEvent.requestId = ["a", "b"] ∧
    Exact s.books "org" "roll_1" ∧ s.books.db.debited "org" "roll_1" = 3 := by
  obtain ⟨s, hs, hp⟩ := Machine.exists_reachable_of_run
    (M := rollUps { parse := fun _ => none }) rolledRun
    (fun s => decide (
      (claimedRows s.books.events "org" "roll_1").map UsageEvent.requestId = ["a", "b"] ∧
      s.books.db.debited "org" "roll_1" = 3)) (by decide +kernel)
  obtain ⟨hrows, hdebited⟩ := of_decide_eq_true hp
  refine ⟨s, hs, hrows, ?_, hdebited⟩
  refine (rollUp_exact { parse := fun _ => none } hs).2.2.1 "org" "roll_1" fun hnil => ?_
  rw [hnil] at hrows
  cases hrows

end Takoserver.Metering.RollUps
