import Takoserver.Cron.Matches

/-!
# What a tick does

A tick inserts what is due of the page it read before it moves the cursor over the page, and it
claims and settles under lease tokens of its own only.  So every tick meets the contract, in any
interleaving, whatever the clocks read and whatever fails.
-/

namespace Takoserver.Cron

/-! ### Answers -/

variable {c : Call} {m : Match}

section Answers

variable {h : Host} {n : ℕ} {w : Outside} {s s' : Store}

/-- Where a call did not fail and its answer was not lost, the answer is that of the call. -/
theorem eq_exec_of_runs {x : Except TickError c.Answer} (hrun : runs h n c w s = some (x, s'))
    (hx : x ≠ .error .other) :
    (x, s') = exec h n w { s with time := w.time.getD s.time } c := by
  unfold runs at hrun
  split at hrun
  · cases hrun
  · simp only [Option.some.injEq] at hrun
    split at hrun
    · exact absurd (congrArg Prod.fst hrun).symm hx
    · split at hrun
      · exact absurd (congrArg Prod.fst hrun).symm hx
      · exact hrun.symm

/-- The insert of a match leaves it recorded, where the trigger is still as it was read. -/
theorem recorded_of_insert (hs : Sound h s)
    {specJson scheduledAt : String} {x : Except TickError ℕ}
    (hid : m.matchId = h.bytesDigest (matchKey m.triggerUid m.cron m.scheduledTimeMs))
    (hcron : '\x00' ∉ m.cron.toList)
    (hrun : runs h n (.insertMatch m specJson scheduledAt) w s = some (x, s'))
    (hx : x ≠ .error .other) {v : Watch} (hv : v.Throughout h s') (huid : m.triggerUid = v.uid)
    (htarget : m.targetKey = v.targetKey) (hminute : m.scheduledTimeMs = v.minute) :
    v.Recorded s' := by
  have hexec := eq_exec_of_runs hrun hx
  simp only [exec, Store.insertMatch] at hexec
  split_ifs at hexec with hcurrent hrefused hconflict
  · cases hexec
    have := hv.inserts m _ (List.mem_append_right _ List.mem_cons_self) huid htarget hminute
    rw [hcurrent] at this
    cases this
  · cases hexec
    exact Or.inr ⟨m, List.mem_append_right _ List.mem_cons_self, huid, hminute⟩
  · cases hexec
    simp only [List.any_eq_true, decide_eq_true_eq] at hconflict
    obtain ⟨r, hr, hsame | hkey⟩ := hconflict
    · -- the digest tells the trigger and the minute
      obtain ⟨hrid, hrcron⟩ := hs.digests r hr
      obtain ⟨hruid, hrminute⟩ := matchKey_inj hrcron hcron
        (hv.separate m _ (List.mem_append_right _ List.mem_cons_self) huid hminute r hr
          (hrid.symm.trans (hsame.trans hid)))
      exact Or.inl ⟨r, hr, hruid.trans huid, hrminute.trans hminute⟩
    · simp only [Match.key, Prod.mk.injEq] at hkey
      exact Or.inl ⟨r, hr, hkey.1.trans huid, hkey.2.2.trans hminute⟩
  · cases hexec
    exact Or.inl ⟨m, List.mem_append_right _ List.mem_cons_self, huid, hminute⟩

end Answers

/-! ### The program -/

section Programs

variable {h : Host} {clocked : Prop} {n : ℕ} {s : Store}

theorem returns_ask (hc : ∀ s', Needs h clocked n c s') :
    (contract h clocked).Returns n (ask c) (fun _ _ => True) s :=
  Contract.returns_call fun s' _ _ => ⟨hc s', fun _ _ _ _ _ _ => trivial⟩

theorem returns_randomUUID :
    (contract h clocked).Returns n (ask .randomUUID) (fun token t => (n, token) ∈ t.tokens) s := by
  refine Contract.returns_call fun s' _ _ => ⟨trivial, fun w token s'' hrun _ _ => ?_⟩
  have hexec := eq_exec_of_runs hrun nofun
  cases hexec
  exact List.mem_append_right _ List.mem_cons_self

theorem returns_now :
    (contract h clocked).Returns n (ask .now)
      (fun reading t => ∀ time, reading = some time → time = t.time) s := by
  refine Contract.returns_call fun s' _ _ => ⟨trivial, fun w reading s'' hrun _ _ => ?_⟩
  have hexec := eq_exec_of_runs hrun nofun
  cases hexec
  intro time htime
  rw [htime]
  rfl

variable {targetKey : String} {scheduledTime tickAt : ℤ}

theorem returns_loadScanCursor :
    (contract h clocked).Returns n (ask (.loadScanCursor targetKey))
      (fun saved _ => ∀ c : ScanCursor, saved = some c → c.targetKey = targetKey) s := by
  refine Contract.returns_call fun s' _ _ => ⟨trivial, fun w saved s'' hrun _ _ => ?_⟩
  have hexec := eq_exec_of_runs hrun nofun
  cases hexec
  exact fun c hc => (Table.find_some hc).2

theorem returns_scanPage {after : String} :
    (contract h clocked).Returns n (ask (.scanPage scheduledTime targetKey after))
      (fun page t => ∃ world : World,
        (targetKey, scheduledTime, world) ∈ t.pages ∧ page = world.scanPage targetKey after) s := by
  refine Contract.returns_call fun s' _ _ => ⟨trivial, fun w page s'' hrun _ _ => ?_⟩
  have hexec := eq_exec_of_runs hrun nofun
  cases hexec
  exact ⟨w.world, List.mem_append_right _ List.mem_cons_self, rfl⟩

/-- Every trigger of the rows that is due at the minute is recorded. -/
def RowsRecorded (h : Host) (targetKey : String) (scheduledTime : ℤ) (rows : List TriggerRow)
    (s : Store) : Prop :=
  ∀ v : Watch, v.Throughout h s → targetKey = v.targetKey →
    scheduledTime = v.minute → ∀ row ∈ rows, row.uid = v.uid →
      (h.matchOf targetKey 0 scheduledTime row).isSome = true → v.Recorded s

theorem RowsRecorded.leads {rows : List TriggerRow} {t : Store}
    (hr : RowsRecorded h targetKey scheduledTime rows s) (hl : Leads clocked s t) :
    RowsRecorded h targetKey scheduledTime rows t :=
  fun v hv htarget hminute row hrow huid hdue =>
    (hr v (hv.earlier hl) htarget hminute row hrow huid hdue).leads hl

/-- Everything a match says of its row. -/
theorem matchOf_eq_some {row : TriggerRow}
    (hm : h.matchOf targetKey tickAt scheduledTime row = some m) :
    (m.matchId = h.bytesDigest (matchKey m.triggerUid m.cron m.scheduledTimeMs) ∧
      '\x00' ∉ m.cron.toList) ∧
      m.triggerUid = row.uid ∧ m.targetKey = targetKey ∧ m.scheduledTimeMs = scheduledTime := by
  unfold Host.matchOf at hm
  split at hm
  · next spec _ _ _ =>
    split at hm
    · cases hm
    · cases hm
      exact ⟨⟨rfl, spec.plain⟩, rfl, rfl, rfl⟩
  · cases hm

theorem matchOf_isSome (targetKey : String) (tickAt tickAt' scheduledTime : ℤ) (row : TriggerRow) :
    (h.matchOf targetKey tickAt scheduledTime row).isSome =
      (h.matchOf targetKey tickAt' scheduledTime row).isSome := by
  unfold Host.matchOf
  split
  · split <;> rfl
  · rfl

theorem returns_insertMatch {row : TriggerRow}
    (hm : h.matchOf targetKey tickAt scheduledTime row = some m) {specJson scheduledAt : String} :
    (contract h clocked).Returns n (tryCatch (ask (.insertMatch m specJson scheduledAt))
      fun e => if e = .constraint then pure 0 else throw e)
      (fun _ t => RowsRecorded h targetKey scheduledTime [row] t) s := by
  obtain ⟨hneeds, huid, htarget, hminute⟩ := matchOf_eq_some hm
  have hrecorded : ∀ {w : Outside} {s' s'' : Store} {x : Except TickError ℕ}, Sound h s' →
      runs h n (.insertMatch m specJson scheduledAt) w s' = some (x, s'') → x ≠ .error .other →
        RowsRecorded h targetKey scheduledTime [row] s'' := by
    intro w s' s'' x hs' hrun hx v hv hvtarget hvminute r hr hruid _
    rw [List.mem_singleton.mp hr] at hruid
    exact recorded_of_insert hs' hneeds.1 hneeds.2 hrun hx hv
      (huid.trans hruid) (htarget.trans hvtarget) (hminute.trans hvminute)
  refine Contract.wp_tryCatch.mpr (Contract.wp_call fun s' _ hs' => ⟨hneeds, ?_⟩)
  intro w x s'' hrun _ _
  cases x with
  | ok =>
    intro _ _
    exact hrecorded hs' hrun nofun
  | error e =>
    by_cases he : e = .constraint
    · subst he
      intro _ _
      exact hrecorded hs' hrun nofun
    · simp only [if_neg he]
      exact Contract.returns_throw

theorem returns_recordMatches :
    ∀ (rows : List TriggerRow) (recorded : ℕ) {s : Store}, Sound h s →
      (contract h clocked).Returns n (recordMatches h targetKey tickAt scheduledTime rows recorded)
        (fun _ t => RowsRecorded h targetKey scheduledTime rows t) s := by
  intro rows
  induction rows with
  | nil =>
    intro recorded s _
    exact Contract.returns_pure fun _ _ _ _ row hrow => absurd hrow List.not_mem_nil
  | cons _ _ ih =>
    intro recorded s hs
    unfold recordMatches
    split
    · next hnone =>
      refine (ih recorded hs).mono hs fun _ t _ _ hrest v hv htarget hminute r hr huid hdue => ?_
      rcases List.mem_cons.mp hr with rfl | hr
      · rw [matchOf_isSome targetKey 0 tickAt, hnone] at hdue
        cases hdue
      · exact hrest v hv htarget hminute r hr huid hdue
    · next hm =>
      refine (returns_insertMatch hm).bind hs fun changes t ht _ hrow => ?_
      refine (ih _ ht).mono ht fun _ t' _ hl hrest v hv htarget hminute r hr huid hdue => ?_
      rcases List.mem_cons.mp hr with rfl | hr
      · exact hrow.leads hl v hv htarget hminute r List.mem_cons_self huid hdue
      · exact hrest v hv htarget hminute r hr huid hdue

/-- What lies behind the cursor that a tick moves on is recorded, or lies behind the cursor that
it read. -/
theorem recorded_of_page {saved : Option ScanCursor} {world : World}
    (hpage : (targetKey, scheduledTime, world) ∈ s.pages)
    (hrows : RowsRecorded h targetKey scheduledTime
      ((world.scanPage targetKey (startOf saved scheduledTime)).take scanPageSize) s)
    {v : Watch} (hv : v.Throughout h s)
    (htarget : targetKey = v.targetKey) (hminute : scheduledTime = v.minute)
    (hbehind : v.uid ≤ (((world.scanPage targetKey (startOf saved scheduledTime)).take
        scanPageSize).getLast?.map TriggerRow.uid).getD (startOf saved scheduledTime) ∨
      (world.scanPage targetKey (startOf saved scheduledTime)).length ≤ scanPageSize) :
    v.Recorded s ∨ ∃ p, saved = some p ∧ p.scheduledTime = v.minute ∧ v.uid ≤ p.afterUid := by
  subst htarget hminute
  obtain ⟨row, hrow, huid, hdue⟩ := hv.pages world hpage
  rcases lt_or_ge (startOf saved v.minute) v.uid with hafter | hle
  · rw [← huid] at hafter hbehind
    exact Or.inl (hrows v hv rfl rfl row (scanPage_lists hrow hafter hbehind) huid hdue)
  have hpos : "" < v.uid := huid ▸ lt_uid_of_mem_triggers hrow
  have hempty : ¬v.uid ≤ "" := not_le.mpr hpos
  unfold startOf at hle
  split at hle
  · next p =>
    split at hle
    · next hsame => exact Or.inr ⟨p, rfl, hsame, hle⟩
    · exact absurd hle hempty
  · exact absurd hle hempty

theorem returns_scanMinute (hs : Sound h s) :
    (contract h clocked).Returns n (scanMinute h targetKey tickAt scheduledTime)
      (fun _ _ => True) s := by
  refine returns_loadScanCursor.bind hs fun saved s₁ hs₁ _ hsaved => ?_
  split
  · exact Contract.returns_pure trivial
  split
  · exact Contract.returns_pure trivial
  refine returns_scanPage.bind hs₁ fun page s₂ hs₂ _ hpage => ?_
  obtain ⟨_, hpage, rfl⟩ := hpage
  refine (returns_recordMatches _ 0 hs₂).bind hs₂ fun recorded s₃ hs₃ hl hrows => ?_
  refine Contract.Returns.bind (P := fun _ _ => True) ?_ hs₃ fun _ s₄ hs₄ _ _ => ?_
  · refine Contract.returns_call fun s₄ hrely hs₄ => ⟨⟨hsaved, ?_⟩, fun _ _ _ _ _ _ => trivial⟩
    intro v hv htarget hminute hbehind
    refine recorded_of_page (hrely.pages (hl.pages hpage)) (hrows.leads hrely) hv
      htarget hminute (hbehind.imp_right fun hcomplete => ?_)
    simpa using hcomplete
  · refine returns_loadScanCursor.bind hs₄ fun saved' s₅ _ _ _ => ?_
    split
    · split <;> exact Contract.returns_pure trivial
    · exact Contract.returns_pure trivial

theorem returns_deliver {row : Match} :
    (contract h clocked).Returns n (deliver row) (fun _ _ => True) s := by
  have honly : (deliver row).Only fun c => c = .invokeScheduled row := by
    refine Async.only_bind (Async.only_tryCatch (Async.only_call rfl) fun _ => trivial) ?_
    intro result
    cases result <;> trivial
  refine Contract.returns_only honly ?_
  rintro c s rfl
  trivial

theorem returns_settle {retryMilliseconds : ℤ} {leaseToken : String} {row : Match}
    {t : TickResult} {result : DeliveryResult} (hs : Sound h s)
    (htoken : (n, leaseToken) ∈ s.tokens) :
    (contract h clocked).Returns n
      (settle retryMilliseconds targetKey leaseToken row t result) (fun _ _ => True) s := by
  have hend : ∀ {c : Call} {f : c.Answer → Program TickResult} {s' : Store}, Sound h s' →
      (∀ s'', Leads clocked s' s'' → Needs h clocked n c s'') →
        (∀ a, ∃ t', f a = pure t') →
          (contract h clocked).Returns n (ask c >>= f) (fun _ _ => True) s' := by
    intro c f s' hs' hc hf
    refine Contract.Returns.bind (P := fun _ _ => True)
      (Contract.returns_call fun s'' hrely _ => ⟨hc s'' hrely, fun _ _ _ _ _ _ => trivial⟩) hs' ?_
    intro a _ _ _ _
    obtain ⟨_, ht'⟩ := hf a
    rw [ht']
    exact Contract.returns_pure trivial
  cases result with
  | handlerResolved uid | handlerRejected uid =>
    refine returns_now.bind hs fun updatedAt s₁ hs₁ hl _ => ?_
    exact hend hs₁ (fun _ hl' => hl'.tokens (hl.tokens htoken)) fun a => by split <;> exact ⟨_, rfl⟩
  | unknown =>
    refine returns_now.bind hs fun retryAt s₁ hs₁ hl _ => ?_
    refine returns_now.bind hs₁ fun updatedAt s₂ hs₂ hl' _ => ?_
    exact hend hs₂ (fun _ hl'' => hl''.tokens (hl'.tokens (hl.tokens htoken)))
      fun a => by split <;> exact ⟨_, rfl⟩

theorem returns_dispatch {leaseMilliseconds retryMilliseconds : ℤ} :
    ∀ (claimable : List String) (t : TickResult) {s : Store}, Sound h s →
      (clocked → tickAt ≤ s.time) →
        (contract h clocked).Returns n
          (dispatch leaseMilliseconds retryMilliseconds targetKey tickAt claimable t)
          (fun _ _ => True) s := by
  intro claimable
  induction claimable with
  | nil =>
    intro t s _ _
    exact Contract.returns_pure trivial
  | cons matchId _ ih =>
    intro t s hs hstarted
    have hlater : ∀ {s' : Store}, Leads clocked s s' → clocked → tickAt ≤ s'.time :=
      fun hl hclocked => (hstarted hclocked).trans (hl.time hclocked)
    refine returns_randomUUID.bind hs fun leaseToken s₁ hs₁ hl₁ htoken => ?_
    refine Contract.Returns.bind (P := fun _ _ => True) ?_ hs₁ fun changes s₂ hs₂ hl₂ _ => ?_
    · exact Contract.returns_call fun s₂ hrely _ =>
        ⟨⟨hrely.tokens htoken, hlater (hl₁.trans hrely)⟩, fun _ _ _ _ _ _ => trivial⟩
    split
    · exact ih t hs₂ (hlater (hl₁.trans hl₂))
    refine (returns_ask (c := .readMatch matchId targetKey leaseToken)
      fun _ => trivial).bind hs₂ fun row? s₃ hs₃ hl₃ _ => ?_
    have hl := (hl₁.trans hl₂).trans hl₃
    split
    · exact ih t hs₃ (hlater hl)
    · next =>
      refine returns_deliver.bind hs₃ fun result s₄ hs₄ hl₄ _ => ?_
      have htoken' := hl₄.tokens (hl₃.tokens (hl₂.tokens htoken))
      refine (returns_settle hs₄ htoken').bind hs₄ fun t' s₅ hs₅ hl₅ _ => ?_
      exact ih t' hs₅ (hlater ((hl.trans hl₄).trans hl₅))

theorem returns_runWorkerCronTriggerTick {o : Options} (hs : Sound h s) :
    (contract h clocked).Returns n (runWorkerCronTriggerTick h o) (fun _ _ => True) s := by
  unfold runWorkerCronTriggerTick
  refine Contract.returns_guard fun _ => ?_
  refine Contract.returns_guard fun _ => ?_
  refine Contract.returns_guard fun _ => ?_
  refine Contract.returns_guard fun _ => ?_
  refine returns_now.bind hs fun reading s₁ hs₁ _ hreading => ?_
  split
  · exact Contract.returns_throw
  next tickAt =>
  refine Contract.returns_guard fun _ => ?_
  refine (returns_scanMinute hs₁).bind hs₁ fun t s₂ hs₂ hl₂ _ => ?_
  refine (returns_ask (c := .claimable o.targetKey tickAt (o.limit.getD 16).toNat)
    fun _ => trivial).bind hs₂ fun claimable s₃ hs₃ hl₃ _ => ?_
  have hstarted : clocked → tickAt ≤ s₃.time := fun hclocked =>
    (hreading tickAt rfl).le.trans ((hl₂.trans hl₃).time hclocked)
  refine (returns_dispatch claimable t hs₃ hstarted).bind hs₃ fun t' s₄ _ _ _ => ?_
  exact Contract.returns_pure trivial

end Programs

/-! ### Every interleaving -/

section Interleavings

variable {h : Host}

/-- Every interleaving keeps the contract; where the clocks are one, that one is not set back. -/
theorem upheld {clocked : Prop}
    {ok : Pool Store (Program TickResult) → PoolAction Options Outside → Prop}
    (hok : ∀ S n w, ok S (.step n w) → clocked → S.store.time ≤ w.time.getD S.store.time) :
    (contract h clocked).Upheld (runWorkerCronTriggerTick h) {} ok
      (fun _ r _ => ∀ a : TickResult, r = .ok a → True) where
  init := ⟨List.nodup_nil, List.nodup_nil, fun _ hr => absurd hr List.not_mem_nil,
    List.nodup_nil, List.nodup_nil, fun _ _ _ hc => absurd hc List.not_mem_nil⟩
  body _ _ _ hs := returns_runWorkerCronTriggerTick hs
  ended _ _ _ _ _ h := h
  step S n w c x s' hstep hc hs hneeds hrun := by
    obtain ⟨hfresh, hchange⟩ := change_of_runs hrun
    have hself : Leads clocked S.store S.store := Leads.refl _
    have htime : Leads clocked S.store { S.store with time := w.time.getD S.store.time } :=
      { hself with time := hok S n w hstep }
    have hs' : Sound h { S.store with time := w.time.getD S.store.time } :=
      { hs with
        behind := fun v hv c hmem htarget hminute hb =>
          (hs.behind v (hv.earlier htime) c hmem htarget hminute hb).leads htime }
    have hneeds' := (hneeds n c hc).leads htime
    have hl := htime.trans (hs'.leads_of_change hneeds' hchange)
    exact ⟨hs'.change hneeds' hfresh hchange, hl, fun _ _ _ _ => hl⟩

variable {S : Pool Store (Program TickResult)}

variable {T : Pool Store (Program TickResult)} {a : PoolAction Options Outside}
  {R : ℕ → Except TickError TickResult → Store → Prop}

theorem change_of_next (hnext : (scheduler h).next S a = some T) :
    T.store = S.store ∨ ∃ n w c, a = .step n w ∧ S.awaited? n = some c ∧
      Change n w { S.store with time := w.time.getD S.store.time } c T.store := by
  rcases pool_next_cases hnext with ⟨i, -, rfl⟩ | ⟨n, w, c, k, x, _, rfl, htask, hrun, rfl⟩ |
    ⟨n, -, rfl⟩
  · exact Or.inl rfl
  · refine Or.inr ⟨n, w, c, rfl, ?_, (change_of_runs hrun).2⟩
    simp [Pool.awaited?, htask, Async.awaited?]
  · exact Or.inl rfl

theorem needs_of_awaited {clocked : Prop} (hS : (contract h clocked).Holds R S) {n : ℕ}
    (hc : S.awaited? n = some c) :
    Needs h clocked n c S.store :=
  hS.pre hc

theorem settled_by_holder (hS : (contract h False).Holds R S) (hT : Sound h T.store)
    (hnext : (scheduler h).next S a = some T) {r r' : Match} (hr : r ∈ S.store.matches_)
    (hr' : r' ∈ T.store.matches_) (hid : r'.matchId = r.matchId) (hopen : r.state.isOutcome = false)
    (houtcome : r'.state.isOutcome = true) :
    ∃ n w token, a = .step n w ∧ r.state = .dispatching ∧ r.leaseToken = some token ∧
      ∀ m, (m, token) ∈ S.store.tokens ↔ m = n := by
  have hsound : Sound h S.store := hS.inv
  have hstays : r ∉ T.store.matches_ := by
    intro hmem
    obtain rfl := Table.eq_of_key hT.ids hr' hmem hid
    rw [hopen] at houtcome
    cases houtcome
  rcases change_of_next hnext with hsame | ⟨n, w, c, rfl, hc, hchange⟩
  · rw [hsame] at hstays
    exact absurd hr hstays
  rcases hchange.row hsound.ids hr with hmem | ⟨t, ht, htid, -, hreplaced⟩
  · exact absurd hmem hstays
  obtain rfl := Table.eq_of_key hT.ids hr' ht (hid.trans htid.symm)
  cases hreplaced with
  | claimed => cases houtcome
  | recorded _ _ _ _ _ token hleased =>
    have htoken : (n, token) ∈ S.store.tokens := needs_of_awaited hS hc
    simp only [Store.isLeased, decide_eq_true_eq] at hleased
    refine ⟨n, w, token, rfl, hleased.2.1, hleased.2.2, fun m => ⟨fun hm => ?_, ?_⟩⟩
    · exact congrArg Prod.fst (Table.eq_of_key hsound.tokens hm htoken rfl)
    · rintro rfl
      exact htoken
  | released _ _ _ _ _ _ _ hstate =>
    rw [hstate] at houtcome
    cases houtcome

/-- A trigger, cron and minute have one match; cursors go on; a trigger that was eligible
throughout is recorded once the minute is complete, if the guard did not refuse it; what is
recorded and what is settled stays; and only who holds the lease of a match settles it. -/
theorem matches_recorded_and_settled (h : Host) {S : Pool Store (Program TickResult)}
    (hS : (scheduler h).Reachable S) :
    (S.store.matches_.map Match.key).Nodup ∧ (S.store.cursors.map ScanCursor.targetKey).Nodup ∧
    (∀ v : Watch, v.Throughout h S.store →
      (∃ c ∈ S.store.cursors, c.targetKey = v.targetKey ∧ c.scheduledTime = v.minute ∧
        c.scanComplete = true) → v.Recorded S.store) ∧
    (∀ T, (scheduler h).Path S T →
      (∀ c ∈ S.store.cursors, ∃ c' ∈ T.store.cursors, c'.targetKey = c.targetKey ∧
        toLex (c.scheduledTime, c.afterUid) ≤ toLex (c'.scheduledTime, c'.afterUid)) ∧
      (∀ v : Watch, v.Recorded S.store → v.Recorded T.store) ∧
      ∀ r ∈ S.store.matches_, r.state.isOutcome = true → r ∈ T.store.matches_) ∧
    ∀ a T, (scheduler h).next S a = some T → ∀ r ∈ S.store.matches_, ∀ r' ∈ T.store.matches_,
      r'.matchId = r.matchId → r.state.isOutcome = false → r'.state.isOutcome = true →
        ∃ n w token, a = .step n w ∧ r.state = .dispatching ∧ r.leaseToken = some token ∧
          ∀ m, (m, token) ∈ S.store.tokens ↔ m = n := by
  have hup : (contract h False).Upheld (runWorkerCronTriggerTick h) {} (fun _ _ => True)
      fun _ r _ => ∀ a : TickResult, r = .ok a → True := upheld fun _ _ _ _ hc => hc.elim
  have hholds := hup.holds hS
  have hsound : Sound h S.store := hholds.inv
  refine ⟨hsound.keys, hsound.cursors, ?_, ?_, ?_⟩
  · rintro v hv ⟨c, hc, htarget, hminute, hcomplete⟩
    exact hsound.behind v hv c hc htarget hminute (Or.inr hcomplete)
  · intro T hpath
    have hl : Leads False S.store T.store := hup.leads hS hpath
    refine ⟨hl.cursors, fun v hv => hv.leads hl, fun r hr houtcome => ?_⟩
    obtain ⟨_, hr', -, -, hsame⟩ := hl.rows r hr
    rwa [hsame houtcome] at hr'
  · intro a T hnext r hr r' hr' hid hopen houtcome
    have hT : Sound h T.store := (hup.holds_next hholds trivial hnext).inv
    exact settled_by_holder hholds hT hnext hr hr' hid hopen houtcome

end Interleavings

/-! ### A run -/

/-- A host of triggers that are due every minute. -/
def everyMinute : Host where
  parseSpec _ := some ⟨"w", "* * * * *", fun _ => true, by decide⟩
  dateParse _ := some 0
  toISOString _ := "1970-01-01T00:01:00.000Z"
  bytesDigest := id
  admits _ _ := true

/-- Two triggers of a worker, for the run below. -/
def exampleTrigger (uid operation : String) : Resource :=
  { uid, principal := "p", space := "s", targetKey := "t", formUrl := workerCronTriggerFormUrl
    generation := 1, observedGeneration := some 1, lastOperation := some operation
    specJson := "\x7b\x7d", phase := "idle" }

def exampleOperation (id uid : String) : Operation :=
  { id, resourceUid := uid, principal := "p", targetKey := "t", action := "create"
    status := "succeeded", generation := 1, acceptedSpecJson := some "\x7b\x7d"
    updatedAt := "1970-01-01T00:00:00.000Z" }

def twoTriggers : World where
  resources := [exampleTrigger "a" "o1", exampleTrigger "b" "o2",
    { exampleTrigger "w" "o3" with formUrl := moduleWorkerFormUrl }]
  operations := [exampleOperation "o1" "a", exampleOperation "o2" "b"]
  referenceSets := [⟨"o1", true⟩, ⟨"o2", true⟩]
  references := [⟨"o1", "w", moduleWorkerFormUrl, "observed"⟩,
    ⟨"o2", "w", moduleWorkerFormUrl, "observed"⟩]
  edges := [⟨"a", "w"⟩, ⟨"b", "w"⟩]

/-- A call of a process at a time, where a delivery is resolved. -/
def callAt (n : ℕ) (time : ℤ) (token : String) : PoolAction Options Outside :=
  .step n { time := some time, world := twoTriggers, token, result := .handlerResolved "w" }

/-- A tick records both matches, and the first one is resolved. -/
def firstDelivery : List (PoolAction Options Outside) :=
  .start { targetKey := "t", leaseMilliseconds := some 1000 } ::
    List.replicate 8 (callAt 0 60000 "") ++
    [callAt 0 60000 "x", callAt 0 60000 "", callAt 0 60000 "", callAt 0 65000 "",
      callAt 0 65000 "", callAt 0 65000 ""]

/-- The second trigger, at the first minute. -/
def secondTrigger : Watch := ⟨"b", "t", 60000⟩

/-- The minute is complete, with one match resolved and one that is pending; the trigger of the
second was eligible throughout, and is recorded. -/
theorem matches_recorded_and_settled_delivery :
    ∃ S, (scheduler everyMinute).Reachable S ∧
      (S.store.matches_.map fun m => (m.triggerUid, m.state)) = [("a", .resolved), ("b", .pending)] ∧
      secondTrigger.Throughout everyMinute S.store ∧ secondTrigger.Recorded S.store ∧
      (S.store.matches_.map Match.key).Nodup := by
  obtain ⟨S, hS, hp⟩ := Machine.exists_reachable_of_run (M := scheduler everyMinute) firstDelivery
    (fun S => decide ((S.store.matches_.map fun m => (m.triggerUid, m.state)) =
        [("a", .resolved), ("b", .pending)]) &&
      (S.store.cursors.any fun c => decide (c.targetKey = "t" ∧ c.scheduledTime = 60000 ∧
        c.scanComplete = true)) &&
      (S.store.pages.all fun p => (p.2.2.triggers "t" "").any fun row =>
        decide (row.uid = "b") && (everyMinute.matchOf "t" 0 60000 row).isSome) &&
      S.store.inserts.all Prod.snd) (by decide +kernel)
  simp only [Bool.and_eq_true, decide_eq_true_eq, List.any_eq_true, List.all_eq_true] at hp
  obtain ⟨⟨⟨hmatches, hcomplete⟩, hpages⟩, hinserts⟩ := hp
  have hthroughout : secondTrigger.Throughout everyMinute S.store :=
    ⟨fun world hworld => hpages _ hworld, fun m current hm _ _ _ => hinserts _ hm,
      fun m current _ _ _ r _ h => h⟩
  obtain ⟨hkeys, -, hrecorded, -⟩ := matches_recorded_and_settled everyMinute hS
  exact ⟨S, hS, hmatches, hthroughout, hrecorded secondTrigger hthroughout hcomplete, hkeys⟩

end Takoserver.Cron
