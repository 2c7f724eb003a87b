import Takoserver.Cron.Ticks

/-!
# Leases of matches

The end of a lease is counted from the time at which the tick began, and the delivery of an
earlier match of the tick may have taken longer than the lease: such a match is claimed under a
lease that is over already, and the next tick claims it again while it is being delivered.  Where
a match is claimed at the time its tick began with, nobody else claims it within the lease.
-/

namespace Takoserver.Cron

/-- The clock is not set back. -/
def keepsTime (S : Pool Store (Program TickResult)) : PoolAction Options Outside → Bool
  | .step _ w => w.time.all fun t => decide (S.store.time ≤ t)
  | _ => true

/-- The claim of a match by process `n`; a tick asks for its lease until
`tickAt + leaseMilliseconds`. -/
structure Claim where
  n : ℕ
  w : Outside
  matchId : String
  targetKey : String
  leaseToken : String
  leaseUntil : ℤ
  tickAt : ℤ

/-- How long the lease is for. -/
def Claim.leaseMilliseconds (q : Claim) : ℤ := q.leaseUntil - q.tickAt

/-- A step claims the match. -/
structure Claim.Takes (h : Host) (q : Claim) (S T : Pool Store (Program TickResult)) : Prop where
  time : keepsTime S (.step q.n q.w) = true
  next : (scheduler h).next S (.step q.n q.w) = some T
  awaited : S.awaited? q.n =
    some (.claim q.leaseToken q.leaseUntil q.tickAt q.matchId q.targetKey)
  changes : T.store.matches_ ≠ S.store.matches_

/-- The match is leased until then, or was ended, or it is over. -/
def Claim.Kept (q : Claim) (s : Store) : Prop :=
  q.leaseToken ∈ s.ended ∨ q.leaseUntil ≤ s.time ∨
    ∃ r ∈ s.matches_, r.matchId = q.matchId ∧ r.state = .dispatching ∧
      r.leaseToken = some q.leaseToken ∧ r.leaseUntilMs = some q.leaseUntil

section Leases

variable {h : Host} {q : Claim} {S T : Pool Store (Program TickResult)}
  {R : ℕ → Except TickError TickResult → Store → Prop}

theorem upheld_clocked : (contract h True).Upheld (runWorkerCronTriggerTick h) {}
    (fun S a => keepsTime S a = true) (fun _ r _ => ∀ a : TickResult, r = .ok a → True) := by
  refine upheld fun S n w hok _ => ?_
  simp only [keepsTime] at hok
  cases htime : w.time with
  | none => exact le_rfl
  | some t => simpa [htime] using hok

/-- What a claim does to its row. -/
theorem Claim.Takes.row (hq : q.Takes h S T) :
    ∃ r ∈ S.store.matches_, r.matchId = q.matchId ∧ Store.isDue r q.tickAt = true ∧
      r.leased q.leaseToken q.leaseUntil q.tickAt ∈ T.store.matches_ := by
  rcases change_of_next hq.next with hsame | ⟨n, w, c, ha, hc, hchange⟩
  · exact absurd (congrArg Store.matches_ hsame) hq.changes
  cases ha
  cases hq.awaited.symm.trans hc
  generalize hid : q.matchId = matchId at hchange
  generalize hT : T.store = t at hchange
  have hne := hq.changes
  rw [hT] at hne
  cases hchange with
  | same => exact absurd rfl hne
  | claimed m _ _ _ _ hm hdue => exact ⟨m, hm, rfl, hdue, Table.mem_put_self hm rfl⟩

theorem Claim.Takes.kept (hq : q.Takes h S T) : q.Kept T.store := by
  obtain ⟨r, -, hid, -, hleased⟩ := hq.row
  exact Or.inr (Or.inr ⟨_, hleased, hid, rfl, rfl, rfl⟩)

theorem le_of_isDue {r : Match} {tickAt leaseUntil : ℤ} (hstate : r.state = .dispatching)
    (huntil : r.leaseUntilMs = some leaseUntil) (hdue : Store.isDue r tickAt = true) :
    leaseUntil ≤ tickAt := by
  simpa [Store.isDue, hstate, huntil] using hdue

theorem Claim.kept_next (hS : (contract h True).Holds R S) (hl : Leads True S.store T.store)
    {a : PoolAction Options Outside} (hnext : (scheduler h).next S a = some T)
    (hq : q.Kept S.store) : q.Kept T.store := by
  have hsound : Sound h S.store := hS.inv
  rcases hq with hended | hover | ⟨r, hr, hid, hstate, htoken, huntil⟩
  · exact Or.inl (hl.ended hended)
  · exact Or.inr (Or.inl (hover.trans (hl.time trivial)))
  rcases change_of_next hnext with hsame | ⟨n, w, c, -, hc, hchange⟩
  · rw [hsame]
    exact Or.inr (Or.inr ⟨r, hr, hid, hstate, htoken, huntil⟩)
  rcases hchange.row hsound.ids hr with hmem | ⟨_, -, -, -, hreplaced⟩
  · exact Or.inr (Or.inr ⟨r, hmem, hid, hstate, htoken, huntil⟩)
  have hheld : ∀ {targetKey leaseToken : String},
      Store.isLeased targetKey leaseToken r = true → leaseToken ∈ T.store.ended →
        q.leaseToken ∈ T.store.ended := by
    intro targetKey leaseToken hleased hended
    simp only [Store.isLeased, decide_eq_true_eq] at hleased
    rwa [Option.some.inj (htoken.symm.trans hleased.2.2)]
  cases hreplaced with
  | claimed _ _ _ _ hdue =>
    -- who claims it now began when it was over
    have hneeds := (needs_of_awaited hS hc).2 trivial
    have hover := (le_of_isDue hstate huntil hdue).trans hneeds
    exact Or.inr (Or.inl (hover.trans (hl.time trivial)))
  | recorded _ _ _ _ _ _ hleased hended => exact Or.inl (hheld hleased hended)
  | released _ _ _ _ _ hleased hended => exact Or.inl (hheld hleased hended)

end Leases

/-- Where a match is claimed at the time its tick began with, it is claimed again only when the
lease is over, if the first tick did not record an outcome or release it meanwhile. -/
theorem claimed_after_lease (h : Host) {q q' : Claim} {S S₁ S₂ T : Pool Store (Program TickResult)}
    (hS : (scheduler h).ReachVia (fun S a => keepsTime S a = true) S) (hq : q.Takes h S S₁)
    (hontime : S₁.store.time = q.tickAt)
    (hpath : (scheduler h).PathVia (fun S a => keepsTime S a = true) S₁ S₂)
    (hq' : q'.Takes h S₂ T) (hid : q'.matchId = q.matchId) :
    S₁.store.time + q.leaseMilliseconds ≤ T.store.time ∨ q.leaseToken ∈ S₂.store.ended := by
  have hup := upheld_clocked (h := h)
  have hholds₁ := hup.holds_next (hup.holds hS) hq.time hq.next
  have hkept : (contract h True).Holds (fun _ r _ => ∀ a : TickResult, r = .ok a → True) S₂ ∧
      q.Kept S₂.store := by
    refine Machine.PathVia.invariant (P := fun U => (contract h True).Holds
      (fun _ r _ => ∀ a : TickResult, r = .ok a → True) U ∧ q.Kept U.store) ?_ hpath
      ⟨hholds₁, hq.kept⟩
    rintro U a _ ⟨hU, hkept⟩ hok hnext
    exact ⟨hup.holds_next hU hok hnext, Claim.kept_next hU (hup.leads_next hU hok hnext) hnext hkept⟩
  obtain ⟨hholds₂, hkept⟩ := hkept
  have htime : S₂.store.time ≤ T.store.time :=
    (hup.leads_next hholds₂ hq'.time hq'.next).time trivial
  have huntil : S₁.store.time + q.leaseMilliseconds = q.leaseUntil := by
    rw [hontime, Claim.leaseMilliseconds]
    omega
  rw [huntil]
  rcases hkept with hended | hover | ⟨r, hr, hrid, hstate, -, hrow⟩
  · exact Or.inr hended
  · exact Or.inl (hover.trans htime)
  · obtain ⟨m, hm, hmid, hdue, -⟩ := hq'.row
    have hsound : Sound h S₂.store := hholds₂.inv
    obtain rfl := Table.eq_of_key hsound.ids hm hr (hmid.trans (hid.trans hrid.symm))
    have hneeds := (needs_of_awaited hholds₂ hq'.awaited).2 trivial
    exact Or.inl (((le_of_isDue hstate hrow hdue).trans hneeds).trans htime)

/-! ### Two runs -/

/-- The step takes the lease. -/
def Claim.takes (q : Claim) (S T : Pool Store (Program TickResult)) : Bool :=
  keepsTime S (.step q.n q.w) && decide (S.awaited? q.n = some (.claim q.leaseToken q.leaseUntil
    q.tickAt q.matchId q.targetKey) ∧ T.store.matches_ ≠ S.store.matches_)

/-- A run of ticks in which two claims are made shows this of the states about them. -/
def showsClaims (h : Host) (q q' : Claim) (as bs : List (PoolAction Options Outside))
    (p : Store → Store → Store → Bool) : Bool :=
  let M := scheduler h
  (M.runVia keepsTime M.init as).any fun S => (M.next S (.step q.n q.w)).any fun S₁ =>
    (M.runVia keepsTime S₁ bs).any fun S₂ => (M.next S₂ (.step q'.n q'.w)).any fun T =>
      q.takes S S₁ && q'.takes S₂ T && p S₁.store S₂.store T.store

theorem exists_of_showsClaims (h : Host) (q q' : Claim) (as bs : List (PoolAction Options Outside))
    (p : Store → Store → Store → Bool) (hshows : showsClaims h q q' as bs p = true) :
    ∃ S S₁ S₂ T, (scheduler h).ReachVia (fun S a => keepsTime S a = true) S ∧ q.Takes h S S₁ ∧
      (scheduler h).PathVia (fun S a => keepsTime S a = true) S₁ S₂ ∧ q'.Takes h S₂ T ∧
      p S₁.store S₂.store T.store = true := by
  have htakes : ∀ {q : Claim} {S T : Pool Store (Program TickResult)},
      (scheduler h).next S (.step q.n q.w) = some T → q.takes S T = true → q.Takes h S T := by
    intro q S T hnext hq
    simp only [Claim.takes, Bool.and_eq_true, decide_eq_true_eq] at hq
    exact ⟨hq.1, hnext, hq.2.1, hq.2.2⟩
  obtain ⟨S, hS, hshows⟩ := (Option.any_eq_true _ _).mp hshows
  obtain ⟨S₁, hS₁, hshows⟩ := (Option.any_eq_true _ _).mp hshows
  obtain ⟨S₂, hS₂, hshows⟩ := (Option.any_eq_true _ _).mp hshows
  obtain ⟨T, hT, hshows⟩ := (Option.any_eq_true _ _).mp hshows
  simp only [Bool.and_eq_true] at hshows
  exact ⟨S, S₁, S₂, T, Machine.pathVia_of_runVia _ _ _ hS, htakes hS₁ hshows.1.1,
    Machine.pathVia_of_runVia _ _ _ hS₂, htakes hT hshows.1.2, hshows.2⟩

/-- The claim of a match of the run by a process, at a time, under a token. -/
def claimAt (n : ℕ) (uid : String) (time : ℤ) (leaseToken : String) (tickAt : ℤ) : Claim where
  n := n
  w := { time := some time, world := twoTriggers, result := .handlerResolved "w" }
  matchId := matchKey uid "* * * * *" 60000
  targetKey := "t"
  leaseToken := leaseToken
  leaseUntil := tickAt + 1000
  tickAt := tickAt

/-- Another tick, up to its first claim. -/
def secondTick (time : ℤ) : List (PoolAction Options Outside) :=
  .start { targetKey := "t", leaseMilliseconds := some 1000 } ::
    List.replicate 3 (callAt 1 time "") ++ [callAt 1 time "z"]

/-- The first match is claimed on time, and claimed again as its lease is over. -/
theorem claimed_after_lease_over : ∃ S S₁ S₂ T : Pool Store (Program TickResult),
    (claimAt 0 "a" 60000 "x" 60000).Takes everyMinute S S₁ ∧
    (claimAt 1 "a" 61000 "z" 61000).Takes everyMinute S₂ T ∧
    S₁.store.time + (claimAt 0 "a" 60000 "x" 60000).leaseMilliseconds ≤ T.store.time := by
  obtain ⟨S, S₁, S₂, T, hS, hq, hpath, hq', hp⟩ := exists_of_showsClaims everyMinute
    (claimAt 0 "a" 60000 "x" 60000) (claimAt 1 "a" 61000 "z" 61000) (firstDelivery.take 10)
    (secondTick 61000) (fun s₁ s₂ _ => decide (s₁.time = 60000 ∧ "x" ∉ s₂.ended)) (by decide +kernel)
  rw [decide_eq_true_eq] at hp
  exact ⟨S, S₁, S₂, T, hq, hq',
    (claimed_after_lease everyMinute hS hq hp.1 hpath hq' rfl).resolve_right hp.2⟩

/-- The first delivery took longer than the lease, and the second match is claimed twice at
once. -/
theorem not_claimed_after_lease :
    ¬∀ (h : Host) (q q' : Claim) (S S₁ S₂ T : Pool Store (Program TickResult)),
      (scheduler h).ReachVia (fun S a => keepsTime S a = true) S → q.Takes h S S₁ →
      (scheduler h).PathVia (fun S a => keepsTime S a = true) S₁ S₂ → q'.Takes h S₂ T →
      q'.matchId = q.matchId →
        S₁.store.time + q.leaseMilliseconds ≤ T.store.time ∨ q.leaseToken ∈ S₂.store.ended := by
  intro hall
  obtain ⟨S, S₁, S₂, T, hS, hq, hpath, hq', hp⟩ := exists_of_showsClaims everyMinute
    (claimAt 0 "b" 65000 "y" 60000) (claimAt 1 "b" 65000 "z" 65000)
    (firstDelivery ++ [callAt 0 65000 "y"]) (secondTick 65000)
    (fun s₁ s₂ t => decide (s₁.time = 65000 ∧ t.time = 65000 ∧ "y" ∉ s₂.ended))
    (by decide +kernel)
  rw [decide_eq_true_eq] at hp
  rcases hall everyMinute _ _ S S₁ S₂ T hS hq hpath hq' rfl with hover | hmem
  · rw [hp.1, hp.2.1] at hover
    exact absurd hover (by decide)
  · exact hp.2.2 hmem

end Takoserver.Cron
