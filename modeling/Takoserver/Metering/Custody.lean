import Takoserver.Lib.Tiling
import Takoserver.Metering.Windows

/-!
# What the windows of a source have in common

Whatever the workers do, a window that is written for begins where the checkpoint of its source
once stood, and the checkpoint moves only over windows whose usage has been recorded whole.
-/

namespace Takoserver.Metering

variable {config : Config} {s s' t : Store} {d : Deployment} {src : MeterSource} {w v : Window}

/-! ### Windows -/

/-- What is recorded of a reading. -/
def Config.lines (config : Config) (w : Window) (usage : List MeterUsage) :
    Option (List PricedLine) := do
  let (_, offering) ← config.offered w.deployment
  let valid ← validateUsage usage w.source
  priceMeteredUsage config offering.meters valid

/-- A deployment of the table, and a source that meters it. -/
structure Metered (config : Config) (s : Store) (d : Deployment) (src : MeterSource) : Prop where
  deployment : ∃ r ∈ s.deployments, r.deployment = d
  source : ∃ pack offering, config.offered d = some (pack, offering) ∧ src ∈ pack.meterSources

/-- Every line of a reading of the window has its row. -/
def Whole (config : Config) (s : Store) (w : Window) : Prop :=
  ∃ usage lines, (w, usage) ∈ s.readings ∧ config.lines w usage = some lines ∧
    ∀ line ∈ lines, (s.event (requestId config w line.meter)).isSome

/-- The checkpoint has moved from `a` to `b`. -/
def Passed (config : Config) (s : Store) (d : Deployment) (src : MeterSource)
    (a b : ℤ) : Prop :=
  ∃ w ∈ s.written, w.deployment = d ∧ w.source = src ∧ w.from_ = a ∧ w.until_ = b ∧
    Whole config s w

/-- The checkpoint has stood at `c`. -/
def Reached (config : Config) (s : Store) (d : Deployment) (src : MeterSource) :
    ℤ → Prop :=
  Relation.ReflTransGen (Passed config s d src) (src.start d)

/-- A window that may be written for. -/
structure Ready (config : Config) (s : Store) (w : Window) : Prop where
  metered : Metered config s w.deployment w.source
  reached : Reached config s w.deployment w.source w.from_
  before : w.from_ < w.source.horizon w.now
  now : w.now ≤ s.clock

theorem Ready.lt (h : Ready config s w) : w.from_ < w.until_ := by
  have hpos := w.source.positive
  exact lt_min h.before (by omega)

/-! ### Horizons -/

theorem startOfUtcDay_mono {a b : ℤ} (h : a ≤ b) : startOfUtcDay a ≤ startOfUtcDay b := by
  unfold startOfUtcDay
  omega

theorem horizon_mono (src : MeterSource) {a b : ℤ} (h : a ≤ b) :
    src.horizon a ≤ src.horizon b := by
  unfold MeterSource.horizon
  dsimp only
  split
  · exact startOfUtcDay_mono (by omega)
  · omega

/-- A window ends by the horizon of its clock. -/
theorem until_le_horizon (w : Window) : w.until_ ≤ w.source.horizon w.now := min_le_left _ _

/-! ### What becomes of the tables -/

/-- What becomes of the tables. -/
structure Leads (s s' : Store) : Prop where
  clock : s.clock ≤ s'.clock
  deployments : ∀ r ∈ s.deployments, ∃ r' ∈ s'.deployments, r'.deployment = r.deployment
  events : ∀ id, (s.event id).isSome → (s'.event id).isSome
  readings : s.readings ⊆ s'.readings
  written : s.written ⊆ s'.written
  cursors : ∀ d src c, s.cursor d src = some c → ∃ c', s'.cursor d src = some c' ∧ c ≤ c'

theorem Leads.refl (s : Store) : Leads s s where
  clock := le_refl _
  deployments r hr := ⟨r, hr, rfl⟩
  events _ h := h
  readings := List.Subset.refl _
  written := List.Subset.refl _
  cursors _ _ c h := ⟨c, h, le_refl c⟩

theorem Leads.trans (h : Leads s s') (h' : Leads s' t) : Leads s t where
  clock := h.clock.trans h'.clock
  deployments r hr := by
    obtain ⟨r', hr', heq⟩ := h.deployments r hr
    obtain ⟨r'', hr'', heq'⟩ := h'.deployments r' hr'
    exact ⟨r'', hr'', heq'.trans heq⟩
  events id hid := h'.events id (h.events id hid)
  readings := List.Subset.trans h.readings h'.readings
  written := List.Subset.trans h.written h'.written
  cursors d src c hc := by
    obtain ⟨c', hc', hle⟩ := h.cursors d src c hc
    obtain ⟨c'', hc'', hle'⟩ := h'.cursors d src c' hc'
    exact ⟨c'', hc'', hle.trans hle'⟩

theorem Metered.leads (h : Metered config s d src) (hl : Leads s s') : Metered config s' d src := by
  refine ⟨?_, h.source⟩
  obtain ⟨r, hr, rfl⟩ := h.deployment
  exact hl.deployments r hr

theorem Metered.of_eq (h : Metered config s' d src) (hd : s'.deployments = s.deployments) :
    Metered config s d src :=
  ⟨hd ▸ h.deployment, h.source⟩

theorem Whole.leads (h : Whole config s w) (hl : Leads s s') : Whole config s' w := by
  obtain ⟨usage, lines, hread, hlines, hevents⟩ := h
  exact ⟨usage, lines, hl.readings hread, hlines, fun line hline => hl.events _ (hevents line hline)⟩

theorem Passed.leads {a b : ℤ} (h : Passed config s d src a b) (hl : Leads s s') :
    Passed config s' d src a b := by
  obtain ⟨w, hw, hd, hsrc, hfrom, huntil, hwhole⟩ := h
  exact ⟨w, hl.written hw, hd, hsrc, hfrom, huntil, hwhole.leads hl⟩

theorem Reached.leads {c : ℤ} (h : Reached config s d src c) (hl : Leads s s') :
    Reached config s' d src c :=
  Relation.ReflTransGen.mono (fun _ _ hp => hp.leads hl) _ _ h

theorem Ready.leads (h : Ready config s w) (hl : Leads s s') : Ready config s' w :=
  ⟨h.metered.leads hl, h.reached.leads hl, h.before, h.now.trans hl.clock⟩

/-! ### What holds of the tables -/

/-- What holds of the tables in every state. -/
structure Sound (config : Config) (s : Store) : Prop where
  keys : (s.deployments.map DeploymentRow.key).Nodup
  /-- A checkpoint is of a deployment of the table. -/
  known : ∀ r ∈ s.checkpoints, ∃ row ∈ s.deployments, row.key = (r.tenantId, r.deploymentId)
  cursors : ∀ d src c, Metered config s d src → s.cursor d src = some c → Reached config s d src c
  written : ∀ w ∈ s.written, Ready config s w

theorem sound_init : Sound config {} := by
  constructor
  · simp
  · simp
  · intro d src c _ hc
    simp [Store.cursor, Table.find] at hc
  · simp

/-- A deployment is known by its key. -/
theorem Sound.deployment_eq (h : Sound config s) {d' : Deployment} {src' : MeterSource}
    (hd : Metered config s d src) (hd' : Metered config s d' src')
    (hkey : (d.tenantId, d.id) = (d'.tenantId, d'.id)) : d = d' := by
  obtain ⟨r, hr, rfl⟩ := hd.deployment
  obtain ⟨_, hr', rfl⟩ := hd'.deployment
  rw [Table.eq_of_key h.keys hr hr' hkey]

theorem source_eq {src' : MeterSource} (h : Metered config s d src) (h' : Metered config s d src')
    (hid : src.id = src'.id) : src = src' := by
  obtain ⟨pack, _, hoffered, hsrc⟩ := h.source
  obtain ⟨_, _, hoffered', hsrc'⟩ := h'.source
  obtain ⟨rfl, rfl⟩ := Prod.mk.inj (Option.some.inj (hoffered.symm.trans hoffered'))
  exact Table.eq_of_key pack.unique hsrc hsrc' hid

/-- What a statement may rely on. -/
def Needs (config : Config) : Call → Store → Prop
  | .insertEvent w _, s => Ready config s w
  | .admitEvent w _, s => Ready config s w
  | .insertCheckpoint w, s => Ready config s w
  | .advance w, s => Ready config s w ∧ Whole config s w
  | _, _ => True

theorem Needs.leads {c : Call} (h : Needs config c s) (hl : Leads s s') : Needs config c s' := by
  cases c with
  | insertEvent => exact Ready.leads h hl
  | admitEvent => exact Ready.leads h hl
  | insertCheckpoint w => exact Ready.leads h hl
  | advance w => exact ⟨Ready.leads h.1 hl, Whole.leads h.2 hl⟩
  | _ => trivial

/-- A statement that leaves the deployments and the checkpoints, and writes for no more than what
is ready, keeps what holds. -/
theorem Sound.frame (h : Sound config s) (hl : Leads s s') (hd : s'.deployments = s.deployments)
    (hc : s'.checkpoints = s.checkpoints)
    (hw : ∀ w ∈ s'.written, w ∈ s.written ∨ Ready config s' w) : Sound config s' where
  keys := by rw [hd]; exact h.keys
  known := by rw [hd, hc]; exact h.known
  cursors d src c hmetered hcursor := by
    have hcursor : s.cursor d src = some c := by
      unfold Store.cursor at hcursor ⊢
      rw [← hc]
      exact hcursor
    exact (h.cursors d src c (hmetered.of_eq hd) hcursor).leads hl
  written w hin := by
    rcases hw w hin with hold | hready
    · exact (h.written w hold).leads hl
    · exact hready

/-! ### Statements -/

theorem event_append {id : String} {event : UsageEvent} {events : List UsageEvent}
    (h : (Table.find UsageEvent.requestId events id).isSome) :
    (Table.find UsageEvent.requestId (events ++ [event]) id).isSome := by
  unfold Table.find at h ⊢
  rw [List.find?_append]
  obtain ⟨_, hrow⟩ := Option.isSome_iff_exists.mp h
  rw [hrow]
  rfl

/-- A row is there after its `INSERT OR IGNORE`. -/
theorem event_insertEvent (s : Store) (w : Window) (event : UsageEvent) :
    ((s.insertEvent w event).event event.requestId).isSome := by
  by_cases h : (s.event event.requestId).isSome = true
  · unfold Store.insertEvent
    rw [if_pos h]
    exact h
  · unfold Store.insertEvent
    rw [if_neg h]
    show (Table.find UsageEvent.requestId (s.events ++ [event]) event.requestId).isSome
    unfold Table.find
    rw [List.find?_append]
    cases List.find? (fun r => decide (r.requestId = event.requestId)) s.events with
    | some => rfl
    | none => simp

theorem leads_insertEvent (s : Store) (w : Window) (event : UsageEvent) :
    Leads s (s.insertEvent w event) where
  clock := le_refl _
  deployments r hr := ⟨r, hr, rfl⟩
  events id hid := by
    unfold Store.insertEvent
    split
    · exact hid
    · exact event_append hid
  readings := List.Subset.refl _
  written := List.subset_append_left _ _
  cursors _ _ c h := ⟨c, h, le_refl c⟩

theorem sound_insertEvent {event : UsageEvent} (h : Sound config s) (hw : Ready config s w) :
    Sound config (s.insertEvent w event) := by
  have hl := leads_insertEvent s w event
  refine h.frame hl rfl rfl fun v hv => ?_
  rcases List.mem_append.mp hv with hold | hnew
  · exact Or.inl hold
  · obtain rfl := List.mem_singleton.mp hnew
    exact Or.inr (hw.leads hl)

theorem admitEvent_cases {event : UsageEvent} (h : s.admitEvent w event = some s') :
    (s' = s ∧ (s.event event.requestId).isSome) ∨ s' = s.insertEvent w event := by
  unfold Store.admitEvent at h
  split at h
  · next hrow =>
    split at h
    · cases h
      exact Or.inl ⟨rfl, by rw [hrow]; rfl⟩
    · cases h
  · cases h
    exact Or.inr rfl

theorem leads_insertCheckpoint (h : s.insertCheckpoint w = some s') : Leads s s' := by
  unfold Store.insertCheckpoint at h
  split at h
  · cases h
    exact .refl s
  split at h
  · cases h
    refine ⟨le_refl _, fun r hr => ⟨r, hr, rfl⟩, fun _ hid => hid, List.Subset.refl _,
      List.Subset.refl _, fun d src c hc => ⟨c, ?_, le_refl c⟩⟩
    unfold Store.cursor Table.find at hc ⊢
    rw [List.find?_append]
    obtain ⟨_, hrow, rfl⟩ := Option.map_eq_some_iff.mp hc
    rw [hrow]
    rfl
  · cases h

theorem sound_insertCheckpoint (hs : Sound config s) (hw : Ready config s w)
    (h : s.insertCheckpoint w = some s') : Sound config s' := by
  have hl := leads_insertCheckpoint h
  unfold Store.insertCheckpoint at h
  split at h
  · cases h
    exact hs
  next =>
  split at h
  · cases h
    refine ⟨hs.keys, fun r hr => ?_, fun d src c hmetered hc => ?_,
      fun v hv => (hs.written v hv).leads hl⟩
    · rcases List.mem_append.mp hr with hold | hnew
      · exact hs.known r hold
      · obtain rfl := List.mem_singleton.mp hnew
        obtain ⟨row, hrow, hd⟩ := hw.metered.deployment
        exact ⟨row, hrow, by rw [← hd]; rfl⟩
    · have hmetered : Metered config s d src := hmetered.of_eq rfl
      unfold Store.cursor Table.find at hc
      rw [List.find?_append] at hc
      obtain ⟨_, hrow, rfl⟩ := Option.map_eq_some_iff.mp hc
      rcases Option.or_eq_some_iff.mp hrow with hold | ⟨-, hnew⟩
      · refine (hs.cursors d src _ hmetered ?_).leads hl
        unfold Store.cursor Table.find
        rw [hold]
        rfl
      · rw [List.find?_singleton] at hnew
        split at hnew
        · next hkey =>
          cases hnew
          rw [decide_eq_true_eq] at hkey
          simp only [Checkpoint.key, Prod.mk.injEq] at hkey
          have hd := hs.deployment_eq hw.metered hmetered
            (Prod.ext hkey.1 hkey.2.1)
          subst hd
          obtain rfl := source_eq hw.metered hmetered hkey.2.2
          exact hw.reached.leads hl
        · cases hnew
  · cases h

/-- Everything the `UPDATE` of a checkpoint does. -/
theorem advance_cases (s : Store) (w : Window) :
    (s.advance w = (0, s)) ∨
    (∃ row, Table.find Checkpoint.key s.checkpoints
        (w.deployment.tenantId, w.deployment.id, w.source.id) = some row ∧
      row.cursorAt = w.from_ ∧ s.advance w = (1, { s with
        checkpoints := Table.put Checkpoint.key
          { row with cursorAt := w.until_, updatedAt := w.now } s.checkpoints
        written := s.written ++ [w] })) := by
  unfold Store.advance
  split
  · next row hrow =>
    split
    · next hcursor => exact Or.inr ⟨row, hrow, hcursor, rfl⟩
    · exact Or.inl rfl
  · exact Or.inl rfl

/-- The cursors after the checkpoint of `w` has moved. -/
theorem cursor_put {row : Checkpoint} {now : ℤ} {written : List Window}
    (hrow : Table.find Checkpoint.key s.checkpoints
      (w.deployment.tenantId, w.deployment.id, w.source.id) = some row) (d : Deployment)
    (src : MeterSource) :
    Store.cursor { s with
        checkpoints := Table.put Checkpoint.key
          { row with cursorAt := w.until_, updatedAt := now } s.checkpoints
        written := written } d src =
      if (d.tenantId, d.id, src.id) = (w.deployment.tenantId, w.deployment.id, w.source.id) then
        some w.until_
      else s.cursor d src := by
  have hkey : Checkpoint.key { row with cursorAt := w.until_, updatedAt := now } =
      (w.deployment.tenantId, w.deployment.id, w.source.id) := (Table.find_some hrow).2
  unfold Store.cursor
  rw [Table.find_put, hkey]
  by_cases heq : (d.tenantId, d.id, src.id) =
      (w.deployment.tenantId, w.deployment.id, w.source.id)
  · rw [if_pos heq.symm, if_pos heq, heq, hrow]
    rfl
  · rw [if_neg (Ne.symm heq), if_neg heq]

theorem leads_advance (hw : Ready config s w) : Leads s (s.advance w).2 := by
  rcases advance_cases s w with h | ⟨row, hrow, hcursor, h⟩
  · rw [h]
    exact .refl s
  rw [h]
  refine ⟨le_refl _, fun r hr => ⟨r, hr, rfl⟩, fun _ hid => hid, List.Subset.refl _,
    List.subset_append_left _ _, fun d src c hc => ?_⟩
  rw [cursor_put hrow]
  split
  · next heq =>
    refine ⟨w.until_, rfl, ?_⟩
    -- the row moved is the one whose cursor was read here
    unfold Store.cursor at hc
    rw [heq, hrow] at hc
    cases hc
    rw [hcursor]
    exact hw.lt.le
  · exact ⟨c, hc, le_refl c⟩

theorem sound_advance (hs : Sound config s) (hw : Ready config s w) (hwhole : Whole config s w) :
    Sound config (s.advance w).2 := by
  have hl := leads_advance hw
  rcases advance_cases s w with h | ⟨row, hrow, -, h⟩
  · rw [h]
    exact hs
  rw [h] at hl ⊢
  refine ⟨hs.keys, fun r hr => ?_, fun d src c hmetered hc => ?_, fun v hv => ?_⟩
  · rcases Table.mem_put.mp hr with ⟨hold, -⟩ | ⟨rfl, -⟩
    · exact hs.known r hold
    · exact hs.known row (Table.find_some hrow).1
  · have hmetered : Metered config s d src := hmetered.of_eq rfl
    rw [cursor_put hrow] at hc
    split at hc
    · next heq =>
      cases hc
      simp only [Prod.mk.injEq] at heq
      have hd := hs.deployment_eq hw.metered hmetered
        (Prod.ext heq.1.symm heq.2.1.symm)
      subst hd
      obtain rfl := source_eq hw.metered hmetered heq.2.2.symm
      -- the checkpoint stood where the window begins, and has moved over it
      refine (hw.reached.leads hl).tail ?_
      exact ⟨w, List.mem_append_right _ (List.mem_singleton_self w), rfl, rfl, rfl, rfl,
        hwhole.leads hl⟩
    · exact (hs.cursors d src c hmetered hc).leads hl
  · rcases List.mem_append.mp hv with hold | hnew
    · exact (hs.written v hold).leads hl
    · obtain rfl := List.mem_singleton.mp hnew
      exact hw.leads hl

theorem leads_create (s : Store) (d : Deployment) (active : Bool) : Leads s (s.create d active) := by
  unfold Store.create
  split
  · exact .refl s
  · exact ⟨le_refl _, fun r hr => ⟨r, List.mem_append_left _ hr, rfl⟩, fun _ hid => hid,
      List.Subset.refl _, List.Subset.refl _, fun _ _ c hc => ⟨c, hc, le_refl c⟩⟩

theorem sound_create (hs : Sound config s) (d : Deployment) (active : Bool) :
    Sound config (s.create d active) := by
  have hl := leads_create s d active
  unfold Store.create at hl ⊢
  split
  · exact hs
  next hfree =>
  rw [if_neg hfree] at hl
  have hnew : ∀ r ∈ s.deployments, r.key ≠ (d.tenantId, d.id) := by
    intro r hr heq
    exact hfree (List.any_eq_true.mpr ⟨r, hr, beq_iff_eq.mpr heq⟩)
  refine ⟨?_, fun r hr => ?_, fun d' src c hmetered hc => ?_,
    fun v hv => (hs.written v hv).leads hl⟩
  · rw [List.map_append, List.nodup_append]
    refine ⟨hs.keys, List.nodup_singleton _, ?_⟩
    intro key hkey key' hkey'
    obtain ⟨r, hr, rfl⟩ := List.mem_map.mp hkey
    obtain rfl := List.mem_singleton.mp hkey'
    exact hnew r hr
  · obtain ⟨row, hrow, hkey⟩ := hs.known r hr
    exact ⟨row, List.mem_append_left _ hrow, hkey⟩
  · -- a deployment that is new has no checkpoint yet
    obtain ⟨r, hr, rfl⟩ := hmetered.deployment
    have hold : r ∈ s.deployments := by
      obtain ⟨row, hrow, -⟩ := Option.map_eq_some_iff.mp hc
      obtain ⟨hmem, hkey⟩ := Table.find_some hrow
      obtain ⟨known, hknown, hk⟩ := hs.known row hmem
      simp only [Checkpoint.key, Prod.mk.injEq] at hkey
      rcases List.mem_append.mp hr with hold | hr
      · exact hold
      · obtain rfl := List.mem_singleton.mp hr
        exact absurd (hk.trans (Prod.ext hkey.1 hkey.2.1)) (hnew known hknown)
    exact (hs.cursors _ src c ⟨⟨r, hold, rfl⟩, hmetered.source⟩ hc).leads hl

theorem map_setActive {β : Type} {g : DeploymentRow → β} (s : Store) (tenantId id : String)
    (active : Bool) (hg : ∀ r : DeploymentRow, g { r with active } = g r) :
    (s.setActive tenantId id active).deployments.map g = s.deployments.map g :=
  Table.map_update hg s.deployments

theorem leads_setActive (s : Store) (tenantId id : String) (active : Bool) :
    Leads s (s.setActive tenantId id active) where
  clock := le_refl _
  deployments _ hr := Table.exists_of_map_eq (map_setActive s tenantId id active fun _ => rfl).symm hr
  events _ hid := hid
  readings := List.Subset.refl _
  written := List.Subset.refl _
  cursors _ _ c hc := ⟨c, hc, le_refl c⟩

theorem sound_setActive (hs : Sound config s) (tenantId id : String) (active : Bool) :
    Sound config (s.setActive tenantId id active) := by
  have hl := leads_setActive s tenantId id active
  have hmap : (s.setActive tenantId id active).deployments.map DeploymentRow.deployment =
      s.deployments.map DeploymentRow.deployment := map_setActive s tenantId id active fun _ => rfl
  refine ⟨?_, fun r hr => ?_, fun d src c hmetered hc => ?_,
    fun v hv => (hs.written v hv).leads hl⟩
  · rw [map_setActive s tenantId id active fun _ => rfl]
    exact hs.keys
  · obtain ⟨row, hrow, hkey⟩ := hs.known r hr
    obtain ⟨row', hrow', heq⟩ := hl.deployments row hrow
    exact ⟨row', hrow', by rw [← hkey]; unfold DeploymentRow.key; rw [heq]⟩
  · obtain ⟨r, hr, rfl⟩ := hmetered.deployment
    obtain ⟨r', hr', heq⟩ := Table.exists_of_map_eq hmap hr
    exact (hs.cursors _ src c ⟨⟨r', hr', heq⟩, hmetered.source⟩ hc).leads hl

/-! ### Every call -/

theorem updateSchedule_frame (s : Store) (d : Deployment) (p : Schedule → Bool)
    (f : Schedule → Schedule) :
    (s.updateSchedule d p f).2 = { s with schedule := (s.updateSchedule d p f).2.schedule } := by
  unfold Store.updateSchedule
  split
  · split <;> rfl
  · rfl

theorem leads_schedule (s : Store) (schedule : List Schedule) : Leads s { s with schedule } :=
  ⟨le_refl _, fun r hr => ⟨r, hr, rfl⟩, fun _ hid => hid, List.Subset.refl _, List.Subset.refl _,
    fun _ _ c hc => ⟨c, hc, le_refl c⟩⟩

theorem insertSchedule_frame {now : ℤ} (h : s.insertSchedule d now = some s') :
    ∃ schedule, s' = { s with schedule } := by
  unfold Store.insertSchedule at h
  split at h
  · cases h
    exact ⟨s.schedule, rfl⟩
  · split at h
    · cases h
      exact ⟨_, rfl⟩
    · cases h

theorem kept_orThrow {next : Option Store} (hs : Sound config s)
    (h : ∀ s', next = some s' → Leads s s' ∧ Sound config s') :
    Leads s (orThrow s next).2 ∧ Sound config (orThrow s next).2 := by
  cases next with
  | none => exact ⟨.refl s, hs⟩
  | some s' => exact h s' rfl

/-- **Every call keeps what holds of the tables.** -/
theorem kept_exec (x : Outside) (c : Call) (hs : Sound config s) (hneeds : Needs config c s) :
    Leads s (exec x s c).2 ∧ Sound config (exec x s c).2 := by
  cases c with
  | clock =>
    have hl : Leads s { s with clock := s.clock + x.elapsed } :=
      ⟨by dsimp only; omega, fun r hr => ⟨r, hr, rfl⟩, fun _ hid => hid, List.Subset.refl _,
        List.Subset.refl _, fun _ _ c hc => ⟨c, hc, le_refl c⟩⟩
    exact ⟨hl, hs.frame hl rfl rfl fun w hw => Or.inl hw⟩
  | read w =>
    have hl : Leads s { s with readings := s.readings ++ [(w, x.usage)] } :=
      ⟨le_refl _, fun r hr => ⟨r, hr, rfl⟩, fun _ hid => hid, List.subset_append_left _ _,
        List.Subset.refl _, fun _ _ c hc => ⟨c, hc, le_refl c⟩⟩
    exact ⟨hl, hs.frame hl rfl rfl fun w hw => Or.inl hw⟩
  | insertSchedule =>
    refine kept_orThrow hs fun s' h => ?_
    obtain ⟨schedule, rfl⟩ := insertSchedule_frame h
    have hl := leads_schedule s schedule
    exact ⟨hl, hs.frame hl rfl rfl fun w hw => Or.inl hw⟩
  | claim d now leaseToken =>
    show Leads s (s.claim d now leaseToken).2 ∧ Sound config (s.claim d now leaseToken).2
    unfold Store.claim
    rw [updateSchedule_frame]
    have hl := leads_schedule s
    exact ⟨hl _, hs.frame (hl _) rfl rfl fun w hw => Or.inl hw⟩
  | release d nextAt now leaseToken =>
    show Leads s (s.release d nextAt now leaseToken).2 ∧
      Sound config (s.release d nextAt now leaseToken).2
    unfold Store.release
    rw [updateSchedule_frame]
    have hl := leads_schedule s
    exact ⟨hl _, hs.frame (hl _) rfl rfl fun w hw => Or.inl hw⟩
  | insertEvent w event => exact ⟨leads_insertEvent s w event, sound_insertEvent hs hneeds⟩
  | admitEvent w event =>
    refine kept_orThrow hs fun s' h => ?_
    rcases admitEvent_cases h with ⟨rfl, -⟩ | rfl
    · exact ⟨.refl _, hs⟩
    · exact ⟨leads_insertEvent s w event, sound_insertEvent hs hneeds⟩
  | insertCheckpoint w =>
    exact kept_orThrow hs fun s' h =>
      ⟨leads_insertCheckpoint h, sound_insertCheckpoint hs hneeds h⟩
  | advance w => exact ⟨leads_advance hneeds.1, sound_advance hs hneeds.1 hneeds.2⟩
  | create d active => exact ⟨leads_create s d active, sound_create hs d active⟩
  | setActive tenantId id active =>
    exact ⟨leads_setActive s tenantId id active, sound_setActive hs tenantId id active⟩
  | _ => exact ⟨.refl s, hs⟩

end Takoserver.Metering
