import Takoserver.Metering.Custody

/-!
# Every instant is billed at most once
-/

namespace Takoserver.Metering

variable {config : Config} {s s' t : Store} {d : Deployment} {src : MeterSource} {w v : Window}
  {n : ℕ} {c : Call}

/-! ### What the programs ensure -/

/-- The contract of the statements. -/
def contract (config : Config) : Contract runs where
  inv := Sound config
  leads := Leads
  rely _ _ := Leads
  pre _ c s := Needs config c s
  leads_refl := Leads.refl
  leads_trans := Leads.trans
  rely_refl _ _ := Leads.refl
  rely_trans := Leads.trans
  leads_of_rely h := h

theorem returns_ask {P : c.Answer → Store → Prop} (hneeds : Needs config c s)
    (h : ∀ t x a t', Leads s t → exec x t c = (.ok a, t') → P a t') :
    (contract config).Returns n (ask c) P s := by
  refine Contract.returns_call fun t hrely _ => ⟨hneeds.leads hrely, fun x a t' hrun _ _ => ?_⟩
  unfold runs at hrun
  split at hrun
  · cases hrun
  · split at hrun
    · cases hrun
    · have heq : exec x t c = (.ok a, t') := by
        have hpair := Option.some.inj hrun
        rw [← hpair]
      exact h t x a t' hrely heq

/-- Of what a call answers nothing need be known. -/
theorem returns_needs (hneeds : Needs config c s) :
    (contract config).Returns n (ask c) (fun _ _ => True) s :=
  returns_ask hneeds fun _ _ _ _ _ _ => trivial

theorem returns_event (id : String) : (contract config).Returns n (ask (.event id))
    (fun row t => row.isSome → (t.event id).isSome) s := by
  refine returns_ask trivial fun t x row t' _ hexec hrow => ?_
  cases hexec
  exact hrow

theorem returns_recordEvent {event : UsageEvent} (hs : Sound config s) (hw : Ready config s w) :
    (contract config).Returns n (recordEvent config w event)
      (fun _ t => (t.event event.requestId).isSome) s := by
  -- a row that is there already is the one looked for
  have hread : ∀ {f : Option UsageEvent → Program Unit}, f none = throw () →
      (∀ row, f (some row) = if sameEvent row event then pure () else throw ()) → ∀ t,
      Sound config t → (contract config).Returns n (ask (.event event.requestId) >>= f)
        (fun _ u => (u.event event.requestId).isSome) t := by
    intro f hnone hsome t ht
    refine (returns_event _).bind ht fun row u _ _ hrow => ?_
    cases row with
    | none =>
      rw [hnone]
      exact Contract.returns_throw
    | some =>
      rw [hsome]
      split
      · exact Contract.returns_pure (hrow rfl)
      · exact Contract.returns_throw
  unfold recordEvent
  split
  · refine (returns_event _).bind hs fun row t ht hl hrow => ?_
    cases row with
    | some =>
      dsimp only
      split
      · exact Contract.returns_pure (hrow rfl)
      · exact Contract.returns_throw
    | none =>
      refine (returns_needs (c := .allocationAdmission event.organizationId) trivial).bind ht
        fun witness u hu hlu _ => ?_
      refine Contract.Returns.tryCatch ?_ hu fun _ v hv _ => hread rfl (fun _ => rfl) v hv
      refine returns_ask ((hw.leads hl).leads hlu) fun v x a v' _ hexec => ?_
      cases hadmit : v.admitEvent w { event with admissionPolicyJson := some witness } with
      | none => simp [exec, hadmit, orThrow] at hexec
      | some =>
        simp only [exec, hadmit, orThrow, Prod.mk.injEq] at hexec
        obtain ⟨-, rfl⟩ := hexec
        rcases admitEvent_cases hadmit with ⟨rfl, hthere⟩ | rfl
        · exact hthere
        · exact event_insertEvent v w { event with admissionPolicyJson := some witness }
  · refine returns_ask hw fun t x a t' _ hexec => ?_
    cases hexec
    exact event_insertEvent t w event

variable {α : Type} {now : ℤ} {pack : ProviderPack} {report : Report} {leaseToken : String}

theorem returns_expected {β : Type} {x : Option α} {f : α → Program β} {P : β → Store → Prop}
    (h : ∀ a, x = some a → (contract config).Returns n (f a) P s) :
    (contract config).Returns n (expected x >>= f) P s := by
  cases x with
  | none => exact Contract.returns_throw
  | some a => exact h a rfl

theorem returns_recordLine {line : PricedLine} (hs : Sound config s) (hw : Ready config s w) :
    (contract config).Returns n (recordLine config w line)
      (fun _ t => (t.event (requestId config w line.meter)).isSome) s := by
  refine returns_expected fun exact _ => Contract.returns_guard fun _ => ?_
  refine (returns_needs (c := .clock) trivial).bind hs fun createdAt t ht hl _ => ?_
  exact returns_recordEvent ht (hw.leads hl)

theorem returns_recordProviderWindow {lines : List PricedLine} (hs : Sound config s)
    (hw : Ready config s w) :
    (contract config).Returns n (recordProviderWindow config w lines)
      (fun _ t => ∀ line ∈ lines, (t.event (requestId config w line.meter)).isSome) s := by
  induction lines generalizing s with
  | nil => exact Contract.returns_pure nofun
  | cons _ _ ih =>
    refine (returns_recordLine hs hw).bind hs fun _ t ht hl hline => ?_
    refine (ih ht (hw.leads hl)).mono ht fun _ u _ hlu hlines other hother => ?_
    rcases List.mem_cons.mp hother with rfl | hother
    · exact hlu.events _ hline
    · exact hlines other hother

theorem returns_startingCursor (hs : Sound config s) (hmetered : Metered config s d src) :
    (contract config).Returns n (startingCursor d src)
      (fun cursor t => Reached config t d src cursor) s := by
  have hask : (contract config).Returns n (ask (.cursor d src))
      (fun cursor t => ∀ c, cursor = some c → t.cursor d src = some c) s := by
    refine returns_ask trivial fun t x cursor t' _ hexec c hc => ?_
    cases hexec
    exact hc
  refine hask.bind hs fun cursor t ht hl hcursor => ?_
  cases cursor with
  | none => exact Contract.returns_pure .refl
  | some =>
    dsimp only
    unfold integer
    split
    · exact Contract.returns_pure (ht.cursors d src _ (hmetered.leads hl) (hcursor _ rfl))
    · exact Contract.returns_throw

theorem returns_read : (contract config).Returns n (ask (.read w))
    (fun usage t => (w, usage) ∈ t.readings) s := by
  refine returns_ask trivial fun t x usage t' _ hexec => ?_
  cases hexec
  exact List.mem_append_right _ (List.mem_singleton_self _)

theorem returns_checked {p : Program ℤ} {a : ℤ} {f : ℤ → Program α} {P : α → Store → Prop}
    (hp : p = pure a ∨ p = throw ()) (h : (contract config).Returns n (f a) P s) :
    (contract config).Returns n (p >>= f) P s := by
  rcases hp with rfl | rfl
  · exact h
  · exact Contract.returns_throw

theorem integer_cases (a : ℤ) : integer a = pure a ∨ integer a = throw () := by
  unfold integer
  split
  · exact Or.inl rfl
  · exact Or.inr rfl

theorem toISOString_cases (a : ℤ) : toISOString a = pure a ∨ toISOString a = throw () := by
  unfold toISOString
  split
  · exact Or.inl rfl
  · exact Or.inr rfl

theorem returns_advanceCheckpoint (hs : Sound config s) (hw : Ready config s w)
    (hwhole : Whole config s w) :
    (contract config).Returns n (advanceCheckpoint w) (fun _ _ => True) s := by
  refine (returns_needs (c := .insertCheckpoint w) hw).bind hs fun _ t ht hl _ => ?_
  have hneeds : Needs config (.advance w) t := ⟨hw.leads hl, hwhole.leads hl⟩
  refine (returns_needs hneeds).bind ht fun advanced u hu _ _ => ?_
  split
  · exact Contract.returns_pure trivial
  refine (returns_needs (c := .cursor w.deployment w.source) trivial).bind hu
    fun current v _ _ _ => ?_
  cases current with
  | none => exact Contract.returns_throw
  | some current =>
    refine returns_checked (integer_cases current) ?_
    split
    · exact Contract.returns_throw
    · exact Contract.returns_pure trivial

theorem returns_reconcileSource {offering : Offering} (hs : Sound config s)
    (hmetered : Metered config s d src) (hoffered : config.offered d = some (pack, offering))
    (hnow : now ≤ s.clock) :
    (contract config).Returns n (reconcileSource config d src now offering.meters)
      (fun _ _ => True) s := by
  refine (returns_startingCursor hs hmetered).bind hs fun cursor t ht hl hreached => ?_
  refine Contract.returns_guard fun _ => ?_
  split
  · exact Contract.returns_pure trivial
  next hbefore =>
  have hready : Ready config t { deployment := d, source := src, from_ := cursor, now } :=
    ⟨hmetered.leads hl, hreached, not_le.mp hbefore, hnow.trans hl.clock⟩
  refine returns_checked (toISOString_cases _) (returns_checked (toISOString_cases _) ?_)
  refine returns_read.bind ht fun usage u hu hlu hread => ?_
  refine returns_expected fun valid hvalid => returns_expected fun lines hlines => ?_
  have hready := hready.leads hlu
  refine (returns_recordProviderWindow hu hready).bind hu fun _ v hv hlv hevents => ?_
  have hwhole : Whole config v { deployment := d, source := src, from_ := cursor, now } := by
    refine ⟨usage, lines, hlv.readings hread, ?_, hevents⟩
    simp only [Config.lines, hoffered, hvalid, Option.bind_eq_bind, Option.bind_some]
    exact hlines
  refine (returns_advanceCheckpoint hv (hready.leads hlv) hwhole).bind hv fun _ _ _ _ _ => ?_
  exact Contract.returns_pure trivial

theorem returns_attempt {p : Program α} (hs : Sound config s)
    (h : (contract config).Returns n p (fun _ _ => True) s) :
    (contract config).Returns n (attempt p) (fun _ _ => True) s :=
  (h.map hs fun _ _ _ _ _ => trivial).tryCatch hs fun _ _ _ _ => Contract.returns_pure trivial

theorem returns_reconcileSources {offering : Offering} {sources : List MeterSource}
    {nextAt : Option ℤ} (hs : Sound config s) (hd : ∃ r ∈ s.deployments, r.deployment = d)
    (hoffered : config.offered d = some (pack, offering)) (hsources : sources ⊆ pack.meterSources)
    (hnow : now ≤ s.clock) :
    (contract config).Returns n
      (reconcileSources config d now offering.meters sources nextAt report)
      (fun _ _ => True) s := by
  induction sources generalizing s nextAt report with
  | nil => exact Contract.returns_pure trivial
  | cons source _ ih =>
    have hmetered : Metered config s d source :=
      ⟨hd, pack, offering, hoffered, hsources List.mem_cons_self⟩
    have hsource := returns_attempt (n := n) hs (returns_reconcileSource hs hmetered hoffered hnow)
    refine hsource.bind hs fun progressed t ht hl _ => ?_
    cases progressed with
    | none => exact Contract.returns_pure trivial
    | some =>
      obtain ⟨r, hr, rfl⟩ := hd
      exact ih ht (hl.deployments r hr) (fun x hx => hsources (List.mem_cons_of_mem _ hx))
        (hnow.trans hl.clock)

theorem returns_release {nextAt : ℤ} (hs : Sound config s) :
    (contract config).Returns n (release d nextAt now leaseToken) (fun _ _ => True) s := by
  refine (returns_needs (c := .release d nextAt now leaseToken) trivial).bind hs
    fun released _ _ _ _ => ?_
  split
  · exact Contract.returns_throw
  · exact Contract.returns_pure trivial

theorem coveringSources_subset {plan : List PricePlanCharge} {sources : List MeterSource}
    (h : coveringSources pack plan = some sources) :
    sources ⊆ pack.meterSources := by
  unfold coveringSources at h
  dsimp only at h
  split at h
  · cases h
  · cases h
    exact fun _ hx => List.mem_of_mem_filter hx

theorem returns_meterDeployment (hs : Sound config s) (hd : ∃ r ∈ s.deployments, r.deployment = d)
    (hnow : now ≤ s.clock) :
    (contract config).Returns n (meterDeployment config d now leaseToken report)
      (fun _ _ => True) s := by
  -- what is answered after the lease has been given back, or has not
  have hreleased : ∀ {nextAt : ℤ} {f : Option Unit → Program (Report × Bool)} {t : Store},
      (∀ released, ∃ answer, f released = pure answer) → Sound config t →
      (contract config).Returns n (attempt (release d nextAt now leaseToken) >>= f)
        (fun _ _ => True) t := by
    intro nextAt f t hf ht
    refine (returns_attempt ht (returns_release ht)).bind ht fun released _ _ _ _ => ?_
    obtain ⟨_, hanswer⟩ := hf released
    rw [hanswer]
    exact Contract.returns_pure trivial
  unfold meterDeployment
  split
  · exact Contract.returns_pure trivial
  next hoffered =>
  split
  · exact hreleased (by rintro (_ | _) <;> exact ⟨_, rfl⟩) hs
  split
  · exact Contract.returns_pure trivial
  · next hsources =>
    refine (returns_reconcileSources hs hd hoffered (coveringSources_subset hsources)
      hnow).bind hs fun result t ht _ _ => ?_
    obtain ⟨_, nextAt⟩ := result
    cases nextAt with
    | none => exact Contract.returns_pure trivial
    | some => exact hreleased (by rintro (_ | _) <;> exact ⟨_, rfl⟩) ht

theorem returns_claim (hs : Sound config s) :
    (contract config).Returns n (claim d now leaseToken) (fun _ _ => True) s := by
  refine (returns_needs (c := .insertSchedule d now) trivial).bind hs fun _ t ht _ _ => ?_
  refine (returns_needs (c := .claim d now leaseToken) trivial).bind ht fun _ _ _ _ _ => ?_
  exact Contract.returns_pure trivial

theorem returns_clock : (contract config).Returns n (ask .clock) (fun now t => now ≤ t.clock) s := by
  refine returns_ask trivial fun t x now t' _ hexec => ?_
  cases hexec
  exact le_refl _

theorem returns_reconcileDeployments {deployments : List Deployment} (hs : Sound config s)
    (hd : ∀ d ∈ deployments, ∃ r ∈ s.deployments, r.deployment = d) :
    (contract config).Returns n (reconcileDeployments config deployments report)
      (fun _ _ => True) s := by
  induction deployments generalizing s report with
  | nil => exact Contract.returns_pure trivial
  | cons d deployments ih =>
    have hrest : ∀ {t : Store} {report : Report}, Sound config t → Leads s t →
        (contract config).Returns n (reconcileDeployments config deployments report)
          (fun _ _ => True) t := by
      intro t report ht hl
      refine ih ht fun d' hd' => ?_
      obtain ⟨r, hr, rfl⟩ := hd d' (List.mem_cons_of_mem _ hd')
      exact hl.deployments r hr
    refine returns_clock.bind hs fun now t ht hl hnow => ?_
    refine (returns_needs (c := .randomId) trivial).bind ht fun id u hu hlu _ => ?_
    refine (returns_claim hu).bind hu fun claimed v hv hlv _ => ?_
    have hto : Leads s v := (hl.trans hlu).trans hlv
    split
    · exact hrest hv hto
    obtain ⟨r, hr, hrd⟩ := hd d List.mem_cons_self
    have hdv : ∃ r ∈ v.deployments, r.deployment = d := hrd ▸ hto.deployments r hr
    have hnow := hnow.trans (hlu.trans hlv).clock
    refine (returns_meterDeployment hv hdv hnow).bind hv fun result x hx hlx _ => ?_
    obtain ⟨_, done⟩ := result
    cases done with
    | true => exact hrest hx (hto.trans hlx)
    | false =>
      refine (returns_release hx).bind hx fun _ y hy hly _ => ?_
      exact hrest hy ((hto.trans hlx).trans hly)

theorem returns_candidates {timestamp : ℤ} {limit : ℕ} :
    (contract config).Returns n (ask (.meteringCandidates timestamp limit))
      (fun deployments t => ∀ d ∈ deployments, ∃ r ∈ t.deployments, r.deployment = d) s := by
  refine returns_ask trivial fun t x deployments t' _ hexec d hd => ?_
  cases hexec
  obtain ⟨r, hr, rfl⟩ := List.mem_map.mp hd
  have hsorted := List.mem_of_mem_take hr
  rw [List.mem_insertionSort] at hsorted
  exact ⟨r, List.mem_of_mem_filter hsorted, rfl⟩

theorem returns_body (i : Request) (hs : Sound config s) :
    (contract config).Returns n (i.body config) (fun _ _ => True) s := by
  cases i with
  | reconcile limit =>
    show (contract config).Returns n (Metering.reconcile config limit) _ s
    unfold reconcile
    refine Contract.returns_guard fun _ => ?_
    refine (returns_needs (c := .clock) trivial).bind hs fun timestamp t ht _ _ => ?_
    refine returns_candidates.bind ht fun deployments u hu _ hd => ?_
    exact returns_reconcileDeployments hu hd
  | create deployment active =>
    refine (returns_needs (c := .create deployment active) trivial).bind hs fun _ _ _ _ _ => ?_
    exact Contract.returns_pure trivial
  | setActive tenantId id active =>
    refine (returns_needs (c := .setActive tenantId id active) trivial).bind hs fun _ _ _ _ _ => ?_
    exact Contract.returns_pure trivial

/-! ### Every interleaving -/

theorem runs_cases {x : Outside} {r : Except Unit c.Answer} (h : runs n c x s = some (r, s')) :
    s' = s ∨ s' = (exec x s c).2 := by
  unfold runs at h
  split at h
  · cases h
    exact Or.inl rfl
  · have hpair := Option.some.inj h
    exact Or.inr (congrArg Prod.snd hpair).symm

theorem upheld (config : Config)
    (ok : Pool Store (Program Report) → PoolAction Request Outside → Prop) :
    (contract config).Upheld (Request.body config) {} ok
      (fun _ r _ => ∀ a, r = .ok a → True) where
  init := sound_init
  body i n s hs := returns_body i hs
  ended _ _ _ _ _ _ _ _ := trivial
  step S n x c r s' _ hc hinv hpre hrun := by
    have hneeds : Needs config c S.store := hpre n c hc
    have hkept : Leads S.store s' ∧ Sound config s' := by
      rcases runs_cases hrun with rfl | rfl
      · exact ⟨.refl _, hinv⟩
      · exact kept_exec x c hinv hneeds
    exact ⟨hkept.2, hkept.1, fun _ _ _ _ => hkept.1⟩

theorem sound_of_reachVia {ok : Pool Store (Program Report) → PoolAction Request Outside → Prop}
    {S : Pool Store (Program Report)} (h : (metering config).ReachVia ok S) :
    Sound config S.store :=
  ((upheld config ok).holds h).inv

/-- Both windows are readings of one source of one deployment that begin at one cursor. -/
def Window.begins (v w : Window) : Bool :=
  v.deployment == w.deployment && v.source == w.source && v.from_ == w.from_

/-- The window a call writes for: a usage event, or the move of the checkpoint. -/
def Call.writes : Call → Option Window
  | .insertEvent w _ => some w
  | .admitEvent w _ => some w
  | .advance w => some w
  | _ => none

/-- A worker writes for a window only where its clock puts the end to where the clocks have put it
of all that was written for from the same cursor. -/
def agreed (S : Pool Store (Program Report)) : PoolAction Request Outside → Bool
  | .step n _ =>
    match (S.awaited? n).bind Call.writes with
    | some w => S.store.written.all fun v => !v.begins w || v.until_ == w.until_
    | none => true
  | _ => true

/-- Windows written for from one cursor end together. -/
def UniqueEnds (s : Store) : Prop :=
  ∀ v ∈ s.written, ∀ w ∈ s.written, v.begins w = true → v.until_ = w.until_

theorem begins_comm (v w : Window) : v.begins w = w.begins v := by
  unfold Window.begins
  rw [Bool.beq_comm, Bool.beq_comm (a := v.source), Bool.beq_comm (a := v.from_)]

/-- A call adds no more to what is written for than the window it writes for. -/
theorem written_exec (x : Outside) (s : Store) (c : Call) :
    ∀ w ∈ (exec x s c).2.written, w ∈ s.written ∨ c.writes = some w := by
  have happend : ∀ {w v : Window} {c : Call}, c.writes = some v → w ∈ s.written ++ [v] →
      w ∈ s.written ∨ c.writes = some w := by
    intro w v c hc hw
    rcases List.mem_append.mp hw with hold | hnew
    · exact Or.inl hold
    · obtain rfl := List.mem_singleton.mp hnew
      exact Or.inr hc
  intro w hw
  cases c with
  | insertEvent => exact happend rfl hw
  | admitEvent v event =>
    cases hadmit : s.admitEvent v event with
    | none =>
      simp only [exec, hadmit, orThrow] at hw
      exact Or.inl hw
    | some =>
      simp only [exec, hadmit, orThrow] at hw
      rcases admitEvent_cases hadmit with ⟨rfl, -⟩ | rfl
      · exact Or.inl hw
      · exact happend rfl hw
  | advance v =>
    rcases advance_cases s v with h | ⟨_, -, -, h⟩
    · simp only [exec, h] at hw
      exact Or.inl hw
    · simp only [exec, h] at hw
      exact happend rfl hw
  | insertCheckpoint v =>
    cases hinsert : s.insertCheckpoint v with
    | none =>
      simp only [exec, hinsert, orThrow] at hw
      exact Or.inl hw
    | some =>
      simp only [exec, hinsert, orThrow] at hw
      unfold Store.insertCheckpoint at hinsert
      split at hinsert
      · cases hinsert
        exact Or.inl hw
      · split at hinsert <;> cases hinsert
        exact Or.inl hw
  | insertSchedule d now =>
    cases hinsert : s.insertSchedule d now with
    | none =>
      simp only [exec, hinsert, orThrow] at hw
      exact Or.inl hw
    | some =>
      simp only [exec, hinsert, orThrow] at hw
      obtain ⟨_, rfl⟩ := insertSchedule_frame hinsert
      exact Or.inl hw
  | claim =>
    simp only [exec, Store.claim] at hw
    rw [updateSchedule_frame] at hw
    exact Or.inl hw
  | release =>
    simp only [exec, Store.release] at hw
    rw [updateSchedule_frame] at hw
    exact Or.inl hw
  | create =>
    simp only [exec, Store.create] at hw
    split at hw <;> exact Or.inl hw
  | _ => exact Or.inl hw

theorem uniqueEnds_of_reachVia {S : Pool Store (Program Report)}
    (h : (metering config).ReachVia (fun S a => agreed S a) S) : UniqueEnds S.store := by
  refine Machine.ReachVia.invariant (P := fun S => UniqueEnds S.store) ?_ ?_ h
  · intro v hv
    cases hv
  intro S a S' hS hok hnext
  rcases pool_next_cases hnext with ⟨i, -, rfl⟩ | ⟨n, x, c, k, r, store, rfl, htask, hrun, rfl⟩ |
    ⟨n, -, rfl⟩
  · exact hS
  · rcases runs_cases hrun with rfl | rfl
    · exact hS
    have hc : S.awaited? n = some c := by simp [Pool.awaited?, htask, Async.awaited?]
    have hnew : ∀ w, c.writes = some w → ∀ v ∈ S.store.written, v.begins w = true →
        v.until_ = w.until_ := by
      intro w hw v hv hbegins
      simp only [agreed, hc, Option.bind_some, hw, List.all_eq_true, Bool.or_eq_true,
        Bool.not_eq_true', beq_iff_eq] at hok
      exact (hok v hv).resolve_left (by simp [hbegins])
    intro v hv w hw hbegins
    rcases written_exec x S.store c v hv with hv | hv <;>
      rcases written_exec x S.store c w hw with hw | hw
    · exact hS v hv w hw hbegins
    · exact hnew w hw v hv hbegins
    · exact (hnew v hv w hw (by rw [begins_comm]; exact hbegins)).symm
    · rw [Option.some.inj (hv.symm.trans hw)]
  · exact hS

/-! ### The windows of a source -/

/-- A window of which usage events of a meter have been recorded. -/
structure Recorded (config : Config) (s : Store) (d : Deployment) (src : MeterSource)
    (meter : String) (w : Window) : Prop where
  written : w ∈ s.written
  deployment : w.deployment = d
  source : w.source = src
  event : (s.event (requestId config w meter)).isSome

/-- What is to hold of the windows of a source. -/
structure Billed (config : Config) (s : Store) (d : Deployment) (src : MeterSource) : Prop where
  /-- Windows that are recorded are disjoint or identical. -/
  apart : ∀ meter v w, Recorded config s d src meter v → Recorded config s d src meter w →
    (v.from_ = w.from_ ∧ v.until_ = w.until_) ∨ v.until_ ≤ w.from_ ∨ w.until_ ≤ v.from_
  /-- They lie between the creation and the horizon. -/
  within : ∀ meter w, Recorded config s d src meter w →
    src.start d ≤ w.from_ ∧ w.from_ < w.until_ ∧ w.until_ ≤ src.horizon s.clock
  /-- What lies before the checkpoint is covered. -/
  covered : ∀ cursor, s.cursor d src = some cursor → ∀ t, src.start d ≤ t → t < cursor →
    ∃ w, w.deployment = d ∧ w.source = src ∧ w.from_ ≤ t ∧ t < w.until_ ∧ Whole config s w

/-- A window that was written for the source. -/
def Tile (s : Store) (d : Deployment) (src : MeterSource) (a b : ℤ) : Prop :=
  ∃ w ∈ s.written, w.deployment = d ∧ w.source = src ∧ w.from_ = a ∧ w.until_ = b

theorem tile_of_passed {a b : ℤ} (h : Passed config s d src a b) : Tile s d src a b := by
  obtain ⟨w, hw, hd, hsrc, ha, hb, -⟩ := h
  exact ⟨w, hw, hd, hsrc, ha, hb⟩

theorem Sound.tile_lt (h : Sound config s) (a b : ℤ) (ht : Tile s d src a b) : a < b := by
  obtain ⟨w, hw, -, -, rfl, rfl⟩ := ht
  exact (h.written w hw).lt

theorem Sound.tile_reached (h : Sound config s) (a b : ℤ) (ht : Tile s d src a b) :
    Reached config s d src a := by
  obtain ⟨w, hw, rfl, rfl, rfl, -⟩ := ht
  exact (h.written w hw).reached

theorem Recorded.tile {meter : String} (h : Recorded config s d src meter w) :
    Tile s d src w.from_ w.until_ :=
  ⟨w, h.written, h.deployment, h.source, rfl, rfl⟩

theorem UniqueEnds.tile (h : UniqueEnds s) (a b c : ℤ) (hb : Tile s d src a b)
    (hc : Tile s d src a c) : b = c := by
  obtain ⟨v, hv, rfl, rfl, rfl, rfl⟩ := hb
  obtain ⟨w, hw, hd, hsrc, hfrom, rfl⟩ := hc
  exact h v hv w hw (by simp [Window.begins, hd, hsrc, hfrom])

theorem Sound.billed (h : Sound config s) (hends : UniqueEnds s)
    (hmetered : Metered config s d src) : Billed config s d src where
  apart meter v w hv hw :=
    Tiling.apart h.tile_lt (fun _ _ => tile_of_passed) hends.tile h.tile_reached hv.tile hw.tile
  within meter w hw := by
    obtain ⟨hin, rfl, rfl, -⟩ := hw
    have hready := h.written w hin
    refine ⟨?_, hready.lt, (until_le_horizon w).trans (horizon_mono _ hready.now)⟩
    exact Tiling.le_of_reached (fun a b hp => h.tile_lt a b (tile_of_passed hp)) hready.reached
  covered cursor hcursor t hstart ht := by
    have hreached := h.cursors d src cursor hmetered hcursor
    obtain ⟨a, b, ⟨w, -, hd, hsrc, rfl, rfl, hwhole⟩, hfrom, huntil⟩ :=
      Tiling.exists_tile hreached hstart ht
    exact ⟨w, hd, hsrc, hfrom, huntil, hwhole⟩

instance (config : Config) (s : Store) (d : Deployment) (src : MeterSource) (meter : String)
    (w : Window) : Decidable (Recorded config s d src meter w) :=
  decidable_of_iff (w ∈ s.written ∧ w.deployment = d ∧ w.source = src ∧
      (s.event (requestId config w meter)).isSome = true)
    ⟨fun ⟨h₁, h₂, h₃, h₄⟩ => ⟨h₁, h₂, h₃, h₄⟩, fun ⟨h₁, h₂, h₃, h₄⟩ => ⟨h₁, h₂, h₃, h₄⟩⟩

/-- A source and its Deployment, for the runs below. -/
def requestsSource : MeterSource where
  id := "requests"
  meters := ["requests"]
  settlementDelaySeconds := 0
  maximumWindowSeconds := 3600
  positive := by decide
  aligned := by decide

/-- One pack with one source; the digests of three windows, which differ. -/
def requestsConfig : Config where
  packs := [{ id := "pack", meterSources := [requestsSource], unique := by decide }]
  findOffering _ := some
    { providerPackRef := "pack", meters := [{ meter := "requests", amountMinor := 1 }] }
  canonicalDigest key := if key.until_ = 1000 then "sha256:6a" else "sha256:9f"
  localeLe a b := decide (a ≤ b)

def bucket : Deployment where
  tenantId := "org"
  id := "dep"
  resourceUid := "bucket"
  offeringId := "offering"
  providerPackRef := "pack"
  createdAt := 0

/-- A deployment is created, and process `1` gets as far as the usage event of its window. -/
def recordedRun : List (PoolAction Request Outside) :=
  [.start (.create bucket true), .step 0 {}, .start (.reconcile 1), .step 1 { elapsed := 1000 },
    .step 1 {}, .step 1 {}, .step 1 { id := "a" }, .step 1 {}, .step 1 {}, .step 1 {},
    .step 1 { usage := [{ meter := "requests", quantity := some ⟨1, 0⟩ }] }, .step 1 {}, .step 1 {}]

/-- It stops there, and after its lease process `2` does the same. -/
def retriedRun : List (PoolAction Request Outside) :=
  recordedRun ++ [.crash 1, .start (.reconcile 1), .step 2 { elapsed := 400000 }, .step 2 {},
    .step 2 {}, .step 2 { id := "b" }, .step 2 {}, .step 2 {}, .step 2 {},
    .step 2 { usage := [{ meter := "requests", quantity := some ⟨1, 0⟩ }] }, .step 2 {}, .step 2 {}]

def requestsWindow (now : ℤ) : Window := ⟨bucket, requestsSource, 0, now⟩

/-- Process `1` goes on to move the checkpoint, and process `2` records the next window. -/
def advancedRun : List (PoolAction Request Outside) :=
  recordedRun ++ [.step 1 {}, .step 1 {}, .step 1 {}, .start (.reconcile 1),
    .step 2 { elapsed := 400000 }, .step 2 {}, .step 2 {}, .step 2 { id := "b" }, .step 2 {},
    .step 2 {}, .step 2 {},
    .step 2 { usage := [{ meter := "requests", quantity := some ⟨1, 0⟩ }] }, .step 2 {}, .step 2 {}]

end Takoserver.Metering
