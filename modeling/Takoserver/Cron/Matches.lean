import Takoserver.Cron.Scheduler

/-!
# Matches and cursors

Ticks coordinate by three things only: the keys of a match, the cursor, which moves from
the very row that was read, and the lease token, which nobody draws twice.  Who advances the
cursor of a minute has inserted every trigger of its page that is due at the minute, so what
lies behind the cursor is recorded, or the guard refused it.
-/

namespace Takoserver.Cron

/-! ### What a call does -/

/-- The match under a lease. -/
def Match.leased (m : Match) (leaseToken : String) (leaseUntil tickAt : ℤ) : Match :=
  { m with
    state := .dispatching, attempts := m.attempts + 1, leaseToken := some leaseToken
    leaseUntilMs := some leaseUntil, updatedAtMs := tickAt }

/-- Everything a call of process `n` does to the tables. -/
inductive Change (n : ℕ) (w : Outside) (s : Store) : Call → Store → Prop
  | same (c : Call) : Change n w s c s
  | drawn : Change n w s .randomUUID { s with tokens := s.tokens ++ [(n, w.token)] }
  | read (scheduledTime : ℤ) (targetKey after : String) :
      Change n w s (.scanPage scheduledTime targetKey after)
        { s with pages := s.pages ++ [(targetKey, scheduledTime, w.world)] }
  | looked (m : Match) (specJson scheduledAt : String) (current : Bool) :
      Change n w s (.insertMatch m specJson scheduledAt)
        { s with inserts := s.inserts ++ [(m, current)] }
  | refused (m : Match) (specJson scheduledAt : String) (current : Bool) :
      Change n w s (.insertMatch m specJson scheduledAt)
        { s with inserts := s.inserts ++ [(m, current)], refused := s.refused ++ [m] }
  | inserted (m : Match) (specJson scheduledAt : String) (current : Bool)
      (hid : ∀ r ∈ s.matches_, r.matchId ≠ m.matchId) (hkey : ∀ r ∈ s.matches_, r.key ≠ m.key) :
      Change n w s (.insertMatch m specJson scheduledAt)
        { s with inserts := s.inserts ++ [(m, current)], matches_ := s.matches_ ++ [m] }
  | started (next : ScanCursor) (hfresh : ∀ c ∈ s.cursors, c.targetKey ≠ next.targetKey) :
      Change n w s (.advanceScanCursor none next) { s with cursors := s.cursors ++ [next] }
  | advanced (previous next : ScanCursor) (hmem : previous ∈ s.cursors)
      (htransition : Store.isTransition previous next = true) :
      Change n w s (.advanceScanCursor (some previous) next)
        { s with cursors := Table.put ScanCursor.targetKey next s.cursors }
  | claimed (m : Match) (leaseToken : String) (leaseUntil tickAt : ℤ) (targetKey : String)
      (hm : m ∈ s.matches_) (hdue : Store.isDue m tickAt = true) :
      Change n w s (.claim leaseToken leaseUntil tickAt m.matchId targetKey)
        { s with
          matches_ :=
            Table.put Match.matchId (m.leased leaseToken leaseUntil tickAt) s.matches_ }
  | recorded (m m' : Match) (rejected : Bool) (uid : String) (updatedAt : Option ℤ)
      (targetKey leaseToken : String) (hm : m ∈ s.matches_)
      (hleased : Store.isLeased targetKey leaseToken m = true) (hid : m'.matchId = m.matchId)
      (hkey : m'.key = m.key) :
      Change n w s (.record rejected uid updatedAt m.matchId targetKey leaseToken)
        { s with
          matches_ := Table.put Match.matchId m' s.matches_, ended := s.ended ++ [leaseToken] }
  | released (m m' : Match) (retryAt updatedAt : Option ℤ) (targetKey leaseToken : String)
      (hm : m ∈ s.matches_) (hleased : Store.isLeased targetKey leaseToken m = true)
      (hid : m'.matchId = m.matchId) (hkey : m'.key = m.key) (hstate : m'.state = .pending) :
      Change n w s (.release retryAt updatedAt m.matchId targetKey leaseToken)
        { s with
          matches_ := Table.put Match.matchId m' s.matches_, ended := s.ended ++ [leaseToken] }

theorem updateMatch_cases {s : Store} {matchId : String} {p : Match → Bool}
    {sound : Match → Match → Bool} {f : Match → Match} {ended : List String}
    {x : Except TickError ℕ × Store} (h : s.updateMatch matchId p sound f ended = x) :
    x.2 = s ∨ ∃ m ∈ s.matches_, m.matchId = matchId ∧ p m = true ∧ x.2 =
      { s with
        matches_ := Table.put Match.matchId (f m) s.matches_, ended := s.ended ++ ended } := by
  subst h
  unfold Store.updateMatch
  split
  · exact Or.inl rfl
  · next m hfind =>
    split
    · have hm := List.find?_some hfind
      rw [Bool.and_eq_true, decide_eq_true_eq] at hm
      exact Or.inr ⟨m, List.mem_of_find?_eq_some hfind, hm.1, hm.2, rfl⟩
    · exact Or.inl rfl

theorem change_of_exec (h : Host) (n : ℕ) (w : Outside) (s : Store) (c : Call) :
    Change n w s c (exec h n w s c).2 := by
  cases c with
  | now | loadScanCursor | claimable | readMatch | invokeScheduled => exact .same _
  | randomUUID => exact .drawn
  | scanPage scheduledTime targetKey after => exact .read scheduledTime targetKey after
  | insertMatch m specJson scheduledAt =>
    simp only [exec, Store.insertMatch]
    split_ifs with hcurrent hrefused hconflict
    · exact .looked m specJson scheduledAt _
    · exact .refused m specJson scheduledAt _
    · exact .looked m specJson scheduledAt _
    · simp only [List.any_eq_true, decide_eq_true_eq, not_exists, not_and, not_or] at hconflict
      exact .inserted m specJson scheduledAt _ (fun r hr => (hconflict r hr).1)
        fun r hr => (hconflict r hr).2
  | advanceScanCursor previous next =>
    simp only [exec, Store.advanceScanCursor]
    split
    · exact .same _
    cases previous with
    | none =>
      simp only
      split
      · exact .same _
      · next hfresh =>
        refine .started next fun c hc heq => hfresh ?_
        simp only [List.any_eq_true, decide_eq_true_eq]
        exact ⟨c, hc, heq⟩
    | some previous =>
      simp only
      split
      · next hmem =>
        split
        · next htransition => exact .advanced previous next hmem htransition
        · exact .same _
      · exact .same _
  | claim leaseToken leaseUntil tickAt matchId targetKey =>
    show Change n w s _ (s.claim w.world leaseToken leaseUntil tickAt matchId targetKey).2
    rcases updateMatch_cases (rfl : s.claim w.world leaseToken leaseUntil tickAt matchId targetKey = _)
      with hsame | ⟨m, hm, rfl, hdue, hrow⟩
    · rw [hsame]
      exact .same _
    · rw [hrow, List.append_nil]
      rw [Bool.and_eq_true] at hdue
      exact .claimed m leaseToken leaseUntil tickAt targetKey hm hdue.2
  | record rejected uid updatedAt matchId targetKey leaseToken =>
    show Change n w s _ (s.record w.world rejected uid updatedAt matchId targetKey leaseToken).2
    rcases updateMatch_cases (rfl : s.record w.world rejected uid updatedAt matchId targetKey leaseToken = _)
      with hsame | ⟨m, hm, rfl, hleased, hrow⟩
    · rw [hsame]
      exact .same _
    · rw [hrow]
      exact .recorded m _ rejected uid updatedAt targetKey leaseToken hm hleased rfl rfl
  | release retryAt updatedAt matchId targetKey leaseToken =>
    show Change n w s _ (s.release retryAt updatedAt matchId targetKey leaseToken).2
    rcases updateMatch_cases (rfl : s.release retryAt updatedAt matchId targetKey leaseToken = _)
      with hsame | ⟨m, hm, rfl, hleased, hrow⟩
    · rw [hsame]
      exact .same _
    · rw [hrow]
      exact .released m _ retryAt updatedAt targetKey leaseToken hm hleased rfl rfl rfl

/-- Everything a call does, with its time: it may fail, and nothing is done. -/
theorem change_of_runs {h : Host} {n : ℕ} {c : Call} {w : Outside} {s s' : Store}
    {x : Except TickError c.Answer} (hrun : runs h n c w s = some (x, s')) :
    (c = .randomUUID → w.token ∉ s.tokens.map Prod.snd) ∧
      Change n w { s with time := w.time.getD s.time } c s' := by
  unfold runs at hrun
  split at hrun
  · cases hrun
  · next hfresh =>
    refine ⟨fun hc htoken => hfresh ⟨hc, htoken⟩, ?_⟩
    split at hrun
    · cases hrun
      exact .same _
    · cases hrun
      exact change_of_exec h n w _ c

variable {targetKey after : String} {m : Match} {t : Store} {world : World}

theorem isOutcome_of_leased {leaseToken : String} (h : Store.isLeased targetKey leaseToken m = true) :
    m.state.isOutcome = false := by
  simp only [Store.isLeased, decide_eq_true_eq] at h
  rw [h.2.1]
  rfl

theorem isOutcome_of_due {tickAt : ℤ} (h : Store.isDue m tickAt = true) :
    m.state.isOutcome = false := by
  simp only [Store.isDue, Bool.or_eq_true, Bool.and_eq_true, decide_eq_true_eq] at h
  rcases h with ⟨hstate, -⟩ | ⟨hstate, -⟩ <;> rw [hstate] <;> rfl

/-- How a call replaces a row. -/
inductive Replaced (s' : Store) (r : Match) : Call → Match → Prop
  | claimed (leaseToken : String) (leaseUntil tickAt : ℤ) (targetKey : String)
      (hdue : Store.isDue r tickAt = true) :
      Replaced s' r (.claim leaseToken leaseUntil tickAt r.matchId targetKey)
        (r.leased leaseToken leaseUntil tickAt)
  | recorded (r' : Match) (rejected : Bool) (uid : String) (updatedAt : Option ℤ)
      (targetKey leaseToken : String) (hleased : Store.isLeased targetKey leaseToken r = true)
      (hended : leaseToken ∈ s'.ended) :
      Replaced s' r (.record rejected uid updatedAt r.matchId targetKey leaseToken) r'
  | released (r' : Match) (retryAt updatedAt : Option ℤ) (targetKey leaseToken : String)
      (hleased : Store.isLeased targetKey leaseToken r = true) (hended : leaseToken ∈ s'.ended)
      (hstate : r'.state = .pending) :
      Replaced s' r (.release retryAt updatedAt r.matchId targetKey leaseToken) r'

theorem Replaced.isOutcome {s' : Store} {r r' : Match} {c : Call} (h : Replaced s' r c r') :
    r.state.isOutcome = false := by
  cases h with
  | claimed _ _ _ _ hdue => exact isOutcome_of_due hdue
  | recorded _ _ _ _ _ _ hleased => exact isOutcome_of_leased hleased
  | released _ _ _ _ _ hleased => exact isOutcome_of_leased hleased

/-- A row stays, or the call replaces it by one of its keys. -/
theorem Change.row {n : ℕ} {w : Outside} {s s' : Store} {c : Call} (hc : Change n w s c s')
    (hids : (s.matches_.map Match.matchId).Nodup) {r : Match} (hr : r ∈ s.matches_) :
    r ∈ s'.matches_ ∨ ∃ r' ∈ s'.matches_, r'.matchId = r.matchId ∧ r'.key = r.key ∧
      Replaced s' r c r' := by
  have hput : ∀ {m m' : Match}, m ∈ s.matches_ → m'.matchId = m.matchId →
      r ∈ Table.put Match.matchId m' s.matches_ ∨
        r = m ∧ m' ∈ Table.put Match.matchId m' s.matches_ := by
    intro m m' hm hid
    by_cases hsame : r.matchId = m'.matchId
    · exact Or.inr ⟨Table.eq_of_key hids hr hm (hsame.trans hid), Table.mem_put_self hr hsame⟩
    · exact Or.inl (Table.mem_put_of_ne hr hsame)
  cases hc with
  | inserted => exact Or.inl (List.mem_append_left _ hr)
  | claimed m leaseToken leaseUntil tickAt targetKey hm hdue =>
    have hid : (m.leased leaseToken leaseUntil tickAt).matchId = m.matchId := rfl
    rcases hput hm hid with hstays | ⟨rfl, hmem⟩
    · exact Or.inl hstays
    · exact Or.inr ⟨_, hmem, rfl, rfl, .claimed leaseToken leaseUntil tickAt targetKey hdue⟩
  | recorded m m' rejected uid updatedAt targetKey leaseToken hm hleased hid hkey =>
    rcases hput hm hid with hstays | ⟨rfl, hmem⟩
    · exact Or.inl hstays
    · exact Or.inr ⟨m', hmem, hid, hkey, .recorded m' rejected uid updatedAt targetKey leaseToken
        hleased (List.mem_append_right _ List.mem_cons_self)⟩
  | released m m' retryAt updatedAt targetKey leaseToken hm hleased hid hkey hstate =>
    rcases hput hm hid with hstays | ⟨rfl, hmem⟩
    · exact Or.inl hstays
    · exact Or.inr ⟨m', hmem, hid, hkey, .released m' retryAt updatedAt targetKey leaseToken
        hleased (List.mem_append_right _ List.mem_cons_self) hstate⟩
  | _ => exact Or.inl hr

/-! ### What stays -/

/-- What is kept of the tables, whatever anyone does; and of the time, where all clocks are one
that is never set back. -/
structure Leads (clocked : Prop) (s t : Store) : Prop where
  rows : ∀ r ∈ s.matches_, ∃ r' ∈ t.matches_, r'.matchId = r.matchId ∧ r'.key = r.key ∧
    (r.state.isOutcome = true → r' = r)
  refused : s.refused ⊆ t.refused
  tokens : s.tokens ⊆ t.tokens
  ended : s.ended ⊆ t.ended
  cursors : ∀ c ∈ s.cursors, ∃ c' ∈ t.cursors, c'.targetKey = c.targetKey ∧
    toLex (c.scheduledTime, c.afterUid) ≤ toLex (c'.scheduledTime, c'.afterUid)
  pages : s.pages ⊆ t.pages
  inserts : s.inserts ⊆ t.inserts
  time : clocked → s.time ≤ t.time

variable {clocked : Prop}

theorem Leads.refl (s : Store) : Leads clocked s s where
  rows r hr := ⟨r, hr, rfl, rfl, fun _ => rfl⟩
  refused := List.Subset.refl _
  tokens := List.Subset.refl _
  ended := List.Subset.refl _
  cursors c hc := ⟨c, hc, rfl, le_rfl⟩
  pages := List.Subset.refl _
  inserts := List.Subset.refl _
  time _ := le_rfl

theorem Leads.trans {s u : Store} (h : Leads clocked s t)
    (h' : Leads clocked t u) : Leads clocked s u where
  rows r hr := by
    obtain ⟨r', hr', hid, hkey, hsame⟩ := h.rows r hr
    obtain ⟨r'', hr'', hid', hkey', hsame'⟩ := h'.rows r' hr'
    refine ⟨r'', hr'', hid'.trans hid, hkey'.trans hkey, fun hstate => ?_⟩
    obtain rfl := hsame hstate
    exact hsame' hstate
  refused := List.Subset.trans h.refused h'.refused
  tokens := List.Subset.trans h.tokens h'.tokens
  ended := List.Subset.trans h.ended h'.ended
  cursors c hc := by
    obtain ⟨c', hc', htarget, hle⟩ := h.cursors c hc
    obtain ⟨c'', hc'', htarget', hle'⟩ := h'.cursors c' hc'
    exact ⟨c'', hc'', htarget'.trans htarget, hle.trans hle'⟩
  pages := List.Subset.trans h.pages h'.pages
  inserts := List.Subset.trans h.inserts h'.inserts
  time hclocked := (h.time hclocked).trans (h'.time hclocked)

theorem toLex_le_of_isTransition {old new : ScanCursor}
    (h : Store.isTransition old new = true) :
    toLex (old.scheduledTime, old.afterUid) ≤ toLex (new.scheduledTime, new.afterUid) := by
  simp only [Store.isTransition, Bool.or_eq_true, decide_eq_true_eq] at h
  rw [Prod.Lex.toLex_le_toLex]
  rcases h with hlt | ⟨heq, -, hlt | ⟨heq', -⟩⟩
  · exact Or.inl hlt
  · exact Or.inr ⟨heq, hlt.le⟩
  · exact Or.inr ⟨heq, heq'.le⟩

theorem leads_of_change {n : ℕ} {w : Outside} {s s' : Store} {c : Call}
    (hids : (s.matches_.map Match.matchId).Nodup)
    (hcursors : (s.cursors.map ScanCursor.targetKey).Nodup)
    (hprevious : ∀ p next, c = .advanceScanCursor (some p) next → p.targetKey = next.targetKey)
    (hc : Change n w s c s') : Leads clocked s s' := by
  have hrows : ∀ r ∈ s.matches_, ∃ r' ∈ s'.matches_, r'.matchId = r.matchId ∧ r'.key = r.key ∧
      (r.state.isOutcome = true → r' = r) := by
    intro r hr
    rcases hc.row hids hr with hr' | ⟨r', hr', hid, hkey, hreplaced⟩
    · exact ⟨r, hr', rfl, rfl, fun _ => rfl⟩
    · refine ⟨r', hr', hid, hkey, fun hstate => ?_⟩
      rw [hreplaced.isOutcome] at hstate
      cases hstate
  cases hc with
  | drawn => exact { Leads.refl s with tokens := List.subset_append_left _ _ }
  | read => exact { Leads.refl s with pages := List.subset_append_left _ _ }
  | looked => exact { Leads.refl s with inserts := List.subset_append_left _ _ }
  | refused =>
    exact { Leads.refl s with
      inserts := List.subset_append_left _ _, refused := List.subset_append_left _ _ }
  | inserted => exact { Leads.refl s with inserts := List.subset_append_left _ _, rows := hrows }
  | started =>
    exact { Leads.refl s with cursors := fun c hc => ⟨c, List.mem_append_left _ hc, rfl, le_rfl⟩ }
  | advanced previous next hmem htransition =>
    refine { Leads.refl s with cursors := fun c hc => ?_ }
    have htarget := hprevious previous next rfl
    by_cases hsame : c.targetKey = next.targetKey
    · obtain rfl := Table.eq_of_key hcursors hc hmem (hsame.trans htarget.symm)
      exact ⟨next, Table.mem_put_self hc hsame, hsame.symm, toLex_le_of_isTransition htransition⟩
    · exact ⟨c, Table.mem_put_of_ne hc hsame, rfl, le_rfl⟩
  | recorded | released =>
    exact { Leads.refl s with rows := hrows, ended := List.subset_append_left _ _ }
  | _ => exact { Leads.refl s with rows := hrows }

/-! ### What is known of a trigger -/

/-- A trigger, its target, and a minute. -/
structure Watch where
  uid : String
  targetKey : String
  minute : ℤ

/-- The trigger has a match for the minute, or the guard refused one. -/
def Watch.Recorded (v : Watch) (s : Store) : Prop :=
  (∃ r ∈ s.matches_, r.triggerUid = v.uid ∧ r.scheduledTimeMs = v.minute) ∨
    ∃ r ∈ s.refused, r.triggerUid = v.uid ∧ r.scheduledTimeMs = v.minute

/-- The trigger is one of those that are scanned, and due at the minute. -/
def Watch.IsEligible (h : Host) (v : Watch) (world : World) : Prop :=
  ∃ row ∈ world.triggers v.targetKey "", row.uid = v.uid ∧
    (h.matchOf v.targetKey 0 v.minute row).isSome = true

/-- The trigger was eligible whenever a page was read for the minute, and still as it was read
whenever its match was to be inserted; and the text of no recorded match collides with that of
its own under the digest. -/
structure Watch.Throughout (h : Host) (v : Watch) (s : Store) : Prop where
  pages : ∀ world, (v.targetKey, v.minute, world) ∈ s.pages → v.IsEligible h world
  inserts : ∀ m current, (m, current) ∈ s.inserts → m.triggerUid = v.uid →
    m.targetKey = v.targetKey → m.scheduledTimeMs = v.minute → current = true
  separate : ∀ m current, (m, current) ∈ s.inserts → m.triggerUid = v.uid →
    m.scheduledTimeMs = v.minute → ∀ r ∈ s.matches_,
      h.bytesDigest (matchKey r.triggerUid r.cron r.scheduledTimeMs) =
        h.bytesDigest (matchKey m.triggerUid m.cron m.scheduledTimeMs) →
      matchKey r.triggerUid r.cron r.scheduledTimeMs =
        matchKey m.triggerUid m.cron m.scheduledTimeMs

theorem Watch.Recorded.leads {v : Watch} {s : Store} (h : v.Recorded s)
    (hl : Leads clocked s t) : v.Recorded t := by
  rcases h with ⟨r, hr, huid, hminute⟩ | ⟨r, hr, hrest⟩
  · obtain ⟨r', hr', -, hkey, -⟩ := hl.rows r hr
    simp only [Match.key, Prod.mk.injEq] at hkey
    exact Or.inl ⟨r', hr', hkey.1.trans huid, hkey.2.2.trans hminute⟩
  · exact Or.inr ⟨r, hl.refused hr, hrest⟩

theorem Watch.Throughout.earlier {h : Host} {v : Watch} {s : Store}
    (ht : v.Throughout h t) (hl : Leads clocked s t) : v.Throughout h s where
  pages world hp := ht.pages world (hl.pages hp)
  inserts m current hi := ht.inserts m current (hl.inserts hi)
  separate m current hi huid hminute r hr hid := by
    obtain ⟨r', hr', -, hkey, -⟩ := hl.rows r hr
    simp only [Match.key, Prod.mk.injEq] at hkey
    rw [← hkey.1, ← hkey.2.1, ← hkey.2.2] at hid ⊢
    exact ht.separate m current (hl.inserts hi) huid hminute r' hr' hid

/-! ### The text of a match -/

/-- What follows the last `a` of a list, and what stands before it. -/
theorem append_cons_inj {α : Type} {a : α} {x x' z z' : List α} (hz : a ∉ z) (hz' : a ∉ z')
    (h : x ++ a :: z = x' ++ a :: z') : x = x' ∧ z = z' := by
  rcases List.append_eq_append_iff.mp h with ⟨c, hx, hc⟩ | ⟨c, hx, hc⟩
  · cases c with
    | nil => exact ⟨by simpa using hx.symm, by simpa using hc⟩
    | cons d c =>
      obtain ⟨-, rfl⟩ := List.cons.inj hc
      exact absurd (List.mem_append_right c List.mem_cons_self) hz
  · cases c with
    | nil => exact ⟨by simpa using hx, by simpa using hc.symm⟩
    | cons d c =>
      obtain ⟨-, rfl⟩ := List.cons.inj hc
      exact absurd (List.mem_append_right c List.mem_cons_self) hz'

theorem null_not_mem_toString (t : ℤ) : '\x00' ∉ (toString t).toList := by
  have hdigits : ∀ n : ℕ, '\x00' ∉ Nat.toDigits 10 n := by
    intro n hmem
    exact absurd (Nat.isDigit_of_mem_toDigits (by decide) (by decide) hmem) (by decide)
  cases t with
  | ofNat n =>
    show '\x00' ∉ n.repr.toList
    rw [Nat.toList_repr]
    exact hdigits n
  | negSucc n =>
    show '\x00' ∉ ("-" ++ (n + 1).repr).toList
    rw [String.toList_append, Nat.toList_repr, List.mem_append, not_or]
    exact ⟨by decide, hdigits (n + 1)⟩

theorem toString_injective : Function.Injective (toString : ℤ → String) := by
  have hdigits : ∀ {n n' : ℕ}, n.repr = n'.repr → n = n' := by
    intro n n' h
    have hlist : Nat.toDigits 10 n = Nat.toDigits 10 n' := by
      simpa using congrArg String.toList h
    rw [← Nat.ofDigitChars_toDigits (b := 10) (n := n) (by decide) (by decide), hlist,
      Nat.ofDigitChars_toDigits (by decide) (by decide)]
  have hminus : ∀ {n : ℕ} {text : String}, n.repr ≠ "-" ++ text := by
    intro n text h
    have hmem : '-' ∈ Nat.toDigits 10 n := by
      rw [← Nat.toList_repr, h, String.toList_append]
      exact List.mem_append_left _ (by decide)
    exact absurd (Nat.isDigit_of_mem_toDigits (by decide) (by decide) hmem) (by decide)
  intro t t' h
  cases t with
  | ofNat n =>
    cases t' with
    | ofNat n' => exact congrArg Int.ofNat (hdigits h)
    | negSucc n' => exact absurd h hminus
  | negSucc n =>
    cases t' with
    | ofNat n' => exact absurd h.symm hminus
    | negSucc n' =>
      have hlist : ("-" ++ (n + 1).repr).toList = ("-" ++ (n' + 1).repr).toList :=
        congrArg String.toList h
      rw [String.toList_append, String.toList_append] at hlist
      have hn := hdigits (String.toList_inj.mp (List.append_cancel_left hlist))
      rw [Nat.succ.inj hn]

theorem matchKey_inj {uid uid' cron cron' : String} {t t' : ℤ}
    (hcron : '\x00' ∉ cron.toList) (hcron' : '\x00' ∉ cron'.toList)
    (h : matchKey uid cron t = matchKey uid' cron' t') : uid = uid' ∧ t = t' := by
  have hlist : (uid.toList ++ '\x00' :: cron.toList) ++ '\x00' :: (toString t).toList =
      (uid'.toList ++ '\x00' :: cron'.toList) ++ '\x00' :: (toString t').toList := by
    have hnull : "\x00".toList = ['\x00'] := rfl
    simpa only [matchKey, String.toList_append, hnull, List.append_assoc, List.cons_append,
      List.nil_append] using congrArg String.toList h
  obtain ⟨hfront, htime⟩ := append_cons_inj (null_not_mem_toString t) (null_not_mem_toString t') hlist
  obtain ⟨huid, -⟩ := append_cons_inj hcron hcron' hfront
  exact ⟨String.toList_inj.mp huid, toString_injective (String.toList_inj.mp htime)⟩

/-! ### The contract -/

section Contracts

variable (h : Host) (clocked : Prop)

/-- What holds between any two calls. -/
structure Sound (s : Store) : Prop where
  ids : (s.matches_.map Match.matchId).Nodup
  keys : (s.matches_.map Match.key).Nodup
  digests : ∀ r ∈ s.matches_,
    r.matchId = h.bytesDigest (matchKey r.triggerUid r.cron r.scheduledTimeMs) ∧
      '\x00' ∉ r.cron.toList
  cursors : (s.cursors.map ScanCursor.targetKey).Nodup
  tokens : (s.tokens.map Prod.snd).Nodup
  /-- What lies behind a cursor is recorded. -/
  behind : ∀ v : Watch, v.Throughout h s →
    ∀ c ∈ s.cursors, c.targetKey = v.targetKey → c.scheduledTime = v.minute →
      (v.uid ≤ c.afterUid ∨ c.scanComplete = true) → v.Recorded s

/-- What a call of process `n` needs. -/
def Needs (n : ℕ) : Call → Store → Prop
  | .insertMatch m _ _, _ =>
    m.matchId = h.bytesDigest (matchKey m.triggerUid m.cron m.scheduledTimeMs) ∧
      '\x00' ∉ m.cron.toList
  | .advanceScanCursor previous next, s =>
    (∀ p, previous = some p → p.targetKey = next.targetKey) ∧
      (∀ v : Watch, v.Throughout h s →
        next.targetKey = v.targetKey → next.scheduledTime = v.minute →
          (v.uid ≤ next.afterUid ∨ next.scanComplete = true) →
            v.Recorded s ∨ ∃ p, previous = some p ∧ p.scheduledTime = v.minute ∧ v.uid ≤ p.afterUid)
  | .claim leaseToken _ tickAt _ _, s => (n, leaseToken) ∈ s.tokens ∧ (clocked → tickAt ≤ s.time)
  | .record _ _ _ _ _ leaseToken, s | .release _ _ _ _ leaseToken, s => (n, leaseToken) ∈ s.tokens
  | _, _ => True

variable {h clocked} {n : ℕ} {w : Outside} {s s' : Store} {c : Call}

theorem Needs.leads (hc : Needs h clocked n c s) (hl : Leads clocked s s') :
    Needs h clocked n c s' := by
  cases c with
  | advanceScanCursor =>
    refine ⟨hc.1, fun v hv htarget hminute hbehind => ?_⟩
    exact (hc.2 v (hv.earlier hl) htarget hminute hbehind).imp_left fun hr => hr.leads hl
  | claim => exact ⟨hl.tokens hc.1, fun hclocked => (hc.2 hclocked).trans (hl.time hclocked)⟩
  | record | release => exact hl.tokens hc
  | _ => exact hc

theorem Sound.leads_of_change (hs : Sound h s) (hneeds : Needs h clocked n c s)
    (hc : Change n w s c s') : Leads clocked s s' := by
  refine Cron.leads_of_change hs.ids hs.cursors ?_ hc
  rintro p _ rfl
  exact hneeds.1 p rfl

/-- A row is replaced by one of its key. -/
theorem Sound.put (hs : Sound h s) {m' : Match} {ended : List String} (hm : m ∈ s.matches_)
    (hid : m'.matchId = m.matchId) (hkey : m'.key = m.key) (hl : Leads clocked s
      { s with matches_ := Table.put Match.matchId m' s.matches_, ended := ended }) :
    Sound h { s with matches_ := Table.put Match.matchId m' s.matches_, ended := ended } where
  ids := by simpa using hs.ids
  keys := by
    have hsame : (Table.put Match.matchId m' s.matches_).map Match.key =
        s.matches_.map Match.key := by
      refine Table.map_put Match.key fun r hr hrid => ?_
      rw [Table.eq_of_key hs.ids hr hm (hrid.trans hid), hkey]
    rw [hsame]
    exact hs.keys
  digests r hr := by
    rcases Table.mem_put.mp hr with ⟨hr, -⟩ | ⟨rfl, -⟩
    · exact hs.digests r hr
    · simp only [Match.key, Prod.mk.injEq] at hkey
      rw [hid, hkey.1, hkey.2.1, hkey.2.2]
      exact hs.digests m hm
  cursors := hs.cursors
  tokens := hs.tokens
  behind v hv c hc htarget hminute hbehind :=
    (hs.behind v (hv.earlier hl) c hc htarget hminute hbehind).leads hl

/-- A call that has what it needs keeps the tables sound. -/
theorem Sound.change (hs : Sound h s) (hneeds : Needs h clocked n c s)
    (hfresh : c = .randomUUID → w.token ∉ s.tokens.map Prod.snd) (hc : Change n w s c s') :
    Sound h s' := by
  have hl := hs.leads_of_change hneeds hc
  have hbehind : ∀ v : Watch, v.Throughout h s' →
      ∀ c ∈ s.cursors, c.targetKey = v.targetKey → c.scheduledTime = v.minute →
        (v.uid ≤ c.afterUid ∨ c.scanComplete = true) → v.Recorded s' :=
    fun v hv c hc htarget hminute hb =>
      (hs.behind v (hv.earlier hl) c hc htarget hminute hb).leads hl
  cases hc with
  | same => exact hs
  | drawn =>
    refine { hs with tokens := ?_, behind := hbehind }
    refine Table.nodup_insert hs.tokens fun r hr heq => hfresh rfl ?_
    exact List.mem_map.mpr ⟨r, hr, heq⟩
  | read | looked | refused => exact { hs with behind := hbehind }
  | inserted _ _ _ _ hid hkey =>
    refine { hs with ids := ?_, keys := ?_, digests := ?_, behind := hbehind }
    · exact Table.nodup_insert hs.ids hid
    · exact Table.nodup_insert hs.keys hkey
    · intro r hr
      rcases Table.mem_insert.mp hr with hr | rfl
      · exact hs.digests r hr
      · exact hneeds
  | started next hfresh' =>
    refine { hs with cursors := Table.nodup_insert hs.cursors hfresh', behind := ?_ }
    intro v hv c hc htarget hminute hb
    rcases List.mem_append.mp hc with hc | hc
    · exact hbehind v hv c hc htarget hminute hb
    · obtain rfl := List.mem_singleton.mp hc
      rcases hneeds.2 v (hv.earlier hl) htarget hminute hb with hr | ⟨p, hp, -⟩
      · exact hr.leads hl
      · cases hp
  | advanced previous _ hmem =>
    refine { hs with cursors := by simpa using hs.cursors, behind := ?_ }
    intro v hv c hc htarget hminute hb
    rcases Table.mem_put.mp hc with ⟨hc, -⟩ | ⟨rfl, -⟩
    · exact hbehind v hv c hc htarget hminute hb
    · -- the cursor moved from the row that was read
      rcases hneeds.2 v (hv.earlier hl) htarget hminute hb with hr | ⟨p, hp, hpminute, hple⟩
      · exact hr.leads hl
      · cases hp
        exact hbehind v hv previous hmem ((hneeds.1 previous rfl).trans htarget) hpminute
          (Or.inl hple)
  | claimed _ _ _ _ _ hm => exact hs.put hm rfl rfl hl
  | recorded _ _ _ _ _ _ _ hm _ hid hkey =>
    exact hs.put hm hid hkey hl
  | released _ _ _ _ _ _ hm _ hid hkey =>
    exact hs.put hm hid hkey hl

variable (h clocked)

/-- What the ticks may rely on. -/
def contract : Contract (runs h) where
  inv := Sound h
  leads := Leads clocked
  rely _ _ := Leads clocked
  pre := Needs h clocked
  leads_refl := Leads.refl
  leads_trans := Leads.trans
  rely_refl _ _ := Leads.refl
  rely_trans := Leads.trans
  leads_of_rely h := h

end Contracts

/-! ### A page -/

theorem triggers_unique {after' : String} {a b : TriggerRow}
    (ha : a ∈ world.triggers targetKey after) (hb : b ∈ world.triggers targetKey after')
    (huid : a.uid = b.uid) : a = b := by
  have hrow : ∀ {start : String} {row : TriggerRow}, row ∈ world.triggers targetKey start →
      ∃ r ∈ world.resources, ∃ op ∈ world.operations, r.lastOperation = some op.id ∧
        row = { uid := r.uid, principal := r.principal, space := r.space, targetKey := r.targetKey
                generation := r.generation, lastOperation := op.id, updatedAt := op.updatedAt
                specJson := r.specJson } := by
    intro start row hrow
    simp only [World.triggers, List.mem_flatMap] at hrow
    obtain ⟨r, hr, op, hop, hrow⟩ := hrow
    split at hrow
    · next hsettled =>
      obtain ⟨-, -, rfl⟩ := List.mem_map.mp hrow
      have hsettled := hsettled.1
      simp only [Resource.isSettledBy, decide_eq_true_eq] at hsettled
      exact ⟨r, hr, op, hop, hsettled.2.2.2.2.1, rfl⟩
    · cases hrow
  obtain ⟨r, hr, _, hop, hlast, rfl⟩ := hrow ha
  obtain ⟨_, hr', _, hop', hlast', rfl⟩ := hrow hb
  obtain rfl := Table.eq_of_key world.resource_keys hr hr' huid
  obtain rfl := Table.eq_of_key world.operation_keys hop hop'
    (Option.some.inj (hlast.symm.trans hlast'))
  rfl

theorem mem_triggers_after {row : TriggerRow} (h : row ∈ world.triggers targetKey "")
    (hafter : after < row.uid) :
    row ∈ world.triggers targetKey after := by
  simp only [World.triggers, List.mem_flatMap] at h ⊢
  obtain ⟨r, hr, op, hop, hrow⟩ := h
  refine ⟨r, hr, op, hop, ?_⟩
  split at hrow
  · next hsettled =>
    obtain ⟨u, hu, rfl⟩ := List.mem_map.mp hrow
    obtain ⟨h₁, h₂, h₃, h₄, h₅, -⟩ := hsettled
    rw [if_pos ⟨h₁, h₂, h₃, h₄, h₅, hafter⟩]
    exact List.mem_map_of_mem hu
  · cases hrow

theorem lt_uid_of_mem_triggers {row : TriggerRow} (h : row ∈ world.triggers targetKey after) :
    after < row.uid := by
  simp only [World.triggers, List.mem_flatMap] at h
  obtain ⟨r, -, _, -, hrow⟩ := h
  split at hrow
  · next hsettled =>
    obtain ⟨-, -, rfl⟩ := List.mem_map.mp hrow
    exact hsettled.2.2.2.2.2
  · cases hrow

/-- A page misses no trigger up to its last one, and none at all where it is the last page. -/
theorem scanPage_lists {row : TriggerRow} (hrow : row ∈ world.triggers targetKey "")
    (hafter : after < row.uid)
    (hlast : row.uid ≤ (((world.scanPage targetKey after).take scanPageSize).getLast?.map
        TriggerRow.uid).getD after ∨ (world.scanPage targetKey after).length ≤ scanPageSize) :
    row ∈ (world.scanPage targetKey after).take scanPageSize := by
  have hmem := mem_triggers_after hrow hafter
  have : Std.Total fun a b : TriggerRow => a.uid ≤ b.uid := ⟨fun a b => le_total a.uid b.uid⟩
  have : IsTrans TriggerRow fun a b => a.uid ≤ b.uid := ⟨fun _ _ _ => le_trans⟩
  have hpairwise := List.pairwise_insertionSort (fun a b : TriggerRow => a.uid ≤ b.uid)
    (world.triggers targetKey after)
  have hsorted := List.mem_insertionSort (r := fun a b : TriggerRow => a.uid ≤ b.uid) |>.mpr hmem
  have hback : ∀ x ∈ (world.triggers targetKey after).insertionSort fun a b => a.uid ≤ b.uid,
      x ∈ world.triggers targetKey after := fun x hx => (List.mem_insertionSort _).mp hx
  simp only [World.scanPage, List.take_take, List.length_take] at hlast ⊢
  rw [Nat.min_eq_left (Nat.le_succ _)] at hlast ⊢
  generalize (world.triggers targetKey after).insertionSort (fun a b => a.uid ≤ b.uid) = sorted
    at hpairwise hsorted hback hlast ⊢
  rw [← List.take_append_drop scanPageSize sorted] at hsorted hpairwise
  rcases List.mem_append.mp hsorted with htake | hdrop
  · exact htake
  have hlong : scanPageSize < sorted.length := by
    have := List.length_pos_of_mem hdrop
    rw [List.length_drop] at this
    omega
  rcases hlast with hle | hshort
  · obtain ⟨last, hlast⟩ : ∃ last, (sorted.take scanPageSize).getLast? = some last := by
      rw [← Option.ne_none_iff_exists', ne_eq, List.getLast?_eq_none_iff, ← List.length_eq_zero_iff,
        List.length_take]
      simp only [scanPageSize] at hlong ⊢
      omega
    rw [hlast] at hle
    have hmemlast := List.mem_of_getLast? hlast
    -- the trigger follows the last one of the page, so it is that one
    have hge : last.uid ≤ row.uid :=
      (List.pairwise_append.mp hpairwise).2.2 last hmemlast row hdrop
    have hsame := triggers_unique hrow (hback last (List.mem_of_mem_take hmemlast))
      (le_antisymm hle hge)
    rw [hsame]
    exact hmemlast
  · simp only [scanPageSize] at hlong hshort
    omega

end Takoserver.Cron
