import Takoserver.RuntimeInputs.Answers

/-!
# What a stale retry may destroy

A statement that is planned against an old row may find a new one under the same key and the same
fence.  Most statements compare the lease generation as well.  `discardReplaceable` and
`markClaimIndeterminate` compare only the fence, so a stale `prepare` or `claim` may remove, or close,
the row that another client has prepared or claimed since.
-/

namespace Takoserver.RuntimeInputs

variable {κ χ : Type} {P : Primitives κ χ} {s s' : Tables χ} {n : ℕ}

/-- Prepared or claimed, and not expired. -/
def Row.standing (r : Row χ) (now : Instant) : Prop := r.live ∧ r.expired now = false

instance (r : Row χ) (now : Instant) : Decidable (r.standing now) := by
  unfold Row.standing
  infer_instance

/-- A statement that is addressed to the generation of a row, or revokes its key. -/
def Call.addresses (c : Call χ) (r : Row χ) : Prop :=
  match c with
  | .abort input _ => r.leaseGeneration = some input.leaseGeneration
  | .dispatch input _ _ => r.leaseGeneration = some input.leaseGeneration
  | .abandon _ _ _ generation _ => r.leaseGeneration = some generation
  | .noEffect statement => r.leaseGeneration = some statement.generation
  | .markIndeterminate row _ => r.leaseGeneration = row.leaseGeneration
  | .revoke organizationId operationKey _ => r.key = (organizationId, operationKey)
  | _ => False

/-- A statement that compares only the fence would find the row. -/
def Call.finds (c : Call χ) (r : Row χ) : Bool :=
  match c with
  | .discardReplaceable row => decide (r.key = row.key ∧ r.fence = row.fence)
  | .markIndeterminate row _ => decide (r.organizationId = row.organizationId ∧
      r.preparationId = row.preparationId ∧ r.state = .claimed ∧ r.fence = row.fence)
  | _ => false

/-- The generation of the row that such a statement is planned against. -/
def Call.plannedGeneration : Call χ → Option Nonce
  | .discardReplaceable row | .markIndeterminate row _ => row.leaseGeneration
  | _ => none

/-- Of the standing rows, a statement that compares only the fence finds at most the one that its
call has read. -/
def Call.current (c : Call χ) (s : Tables χ) : Bool :=
  s.rows.all fun r => !c.finds r || decide (¬r.standing s.now) ||
    decide (r.leaseGeneration = c.plannedGeneration)

/-- The step runs no statement that is not current. -/
def current (S : Pool (Tables χ) (Program χ Answer)) : PoolAction (Request κ) Outside → Bool
  | .step n w => (S.awaited? n).all fun c => c.current (S.store.after w.elapsed)
  | _ => true

/-- The row is there, prepared or claimed. -/
def Stays (r : Row χ) (s : Tables χ) : Prop := ∃ r' ∈ s.rows, r'.fixed = r.fixed ∧ r'.live

variable {r : Row χ} {q : Row χ → Bool}

theorem Stays.of_mem (h : r ∈ s.rows) (hlive : r.live) : Stays r s := ⟨r, h, rfl, hlive⟩

theorem expired_mono {t now : Instant} (h : r.expired t = true) (hle : t ≤ now) :
    r.expired now = true := by
  simp only [Row.expired, Bool.or_eq_true, Bool.and_eq_true, decide_eq_true_eq] at h ⊢
  rcases h with ⟨hstate, hexpiry⟩ | ⟨hstate, hexpiry⟩
  · exact Or.inl ⟨hstate, hexpiry.trans hle⟩
  · exact Or.inr ⟨hstate, hexpiry.trans hle⟩

theorem expired_of_due {now : Instant} (h : r.due now = true) :
    r.expired now = true := by
  simp only [Row.due, Row.expired, Bool.or_eq_true, Bool.and_eq_true, decide_eq_true_eq] at h ⊢
  rcases h with h | ⟨hstate, hexpiry⟩
  · exact Or.inl h
  · obtain ⟨t, ht, hle⟩ := (Option.any_eq_true _ _).mp hexpiry
    refine Or.inr ⟨hstate, ?_⟩
    rw [ht]
    exact of_decide_eq_true hle

/-- The rows that a statement picks by age are among those it asks for. -/
theorem of_oldest (hs : Ledger P s) {limit : ℕ} (hr : r ∈ s.rows)
    (h : (s.oldest q limit).contains r.key = true) : q r = true := by
  unfold Tables.oldest at h
  rw [List.contains_iff_mem] at h
  obtain ⟨r', hr', hkey⟩ := List.mem_map.mp h
  have hmem : r' ∈ s.rows.filter q :=
    (List.mem_insertionSort _).mp (List.mem_of_mem_take hr')
  obtain ⟨hr'', hq⟩ := List.mem_filter.mp hmem
  rw [Table.eq_of_key hs.keys hr hr'' hkey.symm]
  exact hq

theorem stays_or_of_update {f : Row χ → Row χ} (hr : r ∈ s.rows) (hlive : r.live) :
    Stays r (s.update q f).2 ∨ q r = true := by
  unfold Tables.update
  split
  · cases hq : q r
    · exact Or.inl (.of_mem (Table.mem_update.mpr (Or.inl ⟨hr, hq⟩)) hlive)
    · exact Or.inr rfl
  · exact Or.inl (.of_mem hr hlive)

theorem stays_or_of_delete (hr : r ∈ s.rows) (hlive : r.live) :
    Stays r (s.delete q).2 ∨ q r = true := by
  cases hq : q r
  · exact Or.inl (.of_mem (Table.mem_delete.mpr ⟨hr, hq⟩) hlive)
  · exact Or.inr rfl

theorem stays_of_claim {w : Outside} {u : ClaimUpdate} (hr : r ∈ s.rows) (hlive : r.live) :
    Stays r (s.claim w.authorized u).2 := by
  unfold Tables.claim Tables.update
  dsimp only
  split
  · next hupdate =>
    split at hupdate
    · cases hupdate
      have hstays : ∀ q f, (∀ r ∈ s.rows, (f r).fixed = r.fixed ∧ (f r).live) →
          Stays r { s with rows := Table.update q f s.rows } := by
        intro q f hf
        cases hq : q r
        · exact .of_mem (Table.mem_update.mpr (Or.inl ⟨hr, hq⟩)) hlive
        · exact ⟨f r, Table.mem_update.mpr (Or.inr ⟨r, hr, hq, rfl⟩), hf r hr⟩
      split
      · exact hstays _ _ fun r _ => ⟨rfl, Or.inr rfl⟩
      · exact hstays _ _ fun r _ => ⟨rfl, Or.inr rfl⟩
    · cases hupdate
  · next hupdate =>
    split at hupdate
    · cases hupdate
    · cases hupdate
      exact .of_mem hr hlive

theorem stays_or_of_exec {w : Outside} {c : Call χ} {x : Except Failure c.Answer} (hs : Ledger P s)
    (hneeds : Needs P n c s) (hcurrent : c.current s = true) (h : exec n w s c = some (x, s'))
    (hr : r ∈ s.rows) (hstanding : r.standing s.now) : Stays r s' ∨ c.addresses r := by
  obtain ⟨hlive, hunexpired⟩ := hstanding
  have hnot : ∀ t ≤ s.now, r.expired t ≠ true := by
    intro t ht hexpired
    rw [expired_mono hexpired ht] at hunexpired
    cases hunexpired
  -- what a statement that compares only the fence finds is the row that its call has read
  have hfound : c.finds r = true → r.leaseGeneration = c.plannedGeneration := by
    intro hfinds
    have hr' := List.all_eq_true.mp hcurrent r hr
    simp only [hfinds, Bool.not_true, Bool.false_or, Bool.or_eq_true, decide_eq_true_eq] at hr'
    exact hr'.resolve_left fun hnot => hnot ⟨hlive, hunexpired⟩
  cases c
  case randomBytes =>
    simp only [exec] at h
    split at h
    · cases h
      exact Or.inl (.of_mem hr hlive)
    · cases h
  case insert =>
    simp only [exec, Option.some.injEq] at h
    unfold Tables.insert at h
    split at h
    · cases h
      exact Or.inl (.of_mem (List.mem_append_left _ hr) hlive)
    · cases h
      exact Or.inl (.of_mem hr hlive)
  all_goals obtain rfl := snd_of_some h
  case ensureGeneration =>
    refine Or.inl ((stays_or_of_update hr hlive).resolve_right fun hq => ?_)
    obtain ⟨e, -, hgen⟩ := (hs.known r hr).generation
    rw [decide_eq_true_eq] at hq
    rw [hq.2.2.2.2.2] at hgen
    cases hgen
  case claim => exact Or.inl (stays_of_claim hr hlive)
  case abort =>
    refine (stays_or_of_update hr hlive).imp_right fun hq => ?_
    exact (of_decide_eq_true hq).2.2.2.2.1
  case dispatch =>
    refine (stays_or_of_update hr hlive).imp_right fun hq => ?_
    simp only [Bool.and_eq_true] at hq
    exact (of_decide_eq_true hq.1.1.1).2.2.2.2.1
  case consume =>
    refine Or.inl ((stays_or_of_update hr hlive).resolve_right fun hq => ?_)
    have hstate := (of_decide_eq_true hq).2.2.1
    rcases hlive with hprepared | hclaimed
    · rw [hstate] at hprepared
      cases hprepared
    · rw [hstate] at hclaimed
      cases hclaimed
  case abandon =>
    refine (stays_or_of_update hr hlive).imp_right fun hq => ?_
    exact (of_decide_eq_true hq).2.2.2.1
  case noEffect =>
    refine (stays_or_of_update hr hlive).imp_right fun hq => ?_
    exact (of_decide_eq_true hq).2.2.2.1
  case revoke =>
    exact (stays_or_of_update hr hlive).imp_right fun hq => (of_decide_eq_true hq).1
  case expireDue now _ =>
    refine Or.inl ((stays_or_of_update hr hlive).resolve_right fun hq => ?_)
    exact hnot now hneeds (expired_of_due (of_oldest hs hr hq))
  case expireExact row now =>
    refine Or.inl ((stays_or_of_update hr hlive).resolve_right fun hq => ?_)
    obtain ⟨-, -, hstate, -, hexpiry⟩ := of_decide_eq_true hq
    -- the row has the state and the expiry of the row that was read, which has expired
    refine hnot now hneeds.2 ?_
    have hexpired := hneeds.1
    simp only [Row.expired, Bool.or_eq_true, Bool.and_eq_true, decide_eq_true_eq] at hexpired ⊢
    rw [hstate]
    split at hexpiry
    · next hclaimed =>
      rw [hexpiry]
      exact Or.inr (hexpired.resolve_left fun hprepared => by
        rw [hclaimed] at hprepared
        cases hprepared.1)
    · next hclaimed =>
      rw [hexpiry]
      exact Or.inl (hexpired.resolve_right fun hclaimed' => hclaimed hclaimed'.1)
  case markIndeterminate =>
    exact (stays_or_of_update hr hlive).imp_right fun hq => hfound hq
  case reclaim =>
    refine Or.inl ((stays_or_of_delete hr hlive).resolve_right fun hq => ?_)
    have hdead := of_oldest hs hr hq
    simp only [Bool.and_eq_true, decide_eq_true_eq] at hdead
    exact hlive.elim hdead.1.1.1 hdead.1.1.2
  case discardSpent =>
    refine Or.inl ((stays_or_of_delete hr hlive).resolve_right fun hq => ?_)
    have hstate := (of_decide_eq_true hq).2.2.1
    refine hneeds ?_
    unfold Row.live at hlive ⊢
    rw [← hstate]
    exact hlive
  case discardReplaceable row =>
    refine Or.inl ((stays_or_of_delete hr hlive).resolve_right fun hq => ?_)
    obtain ⟨hkey, hfence, -, -⟩ := of_decide_eq_true hq
    obtain ⟨⟨-, hlater⟩, t, ht, hreplaceable⟩ := hneeds
    -- of its generation, the row of that fence is the one that was read
    have hgen := hfound (decide_eq_true ⟨hkey, hfence⟩)
    have hsame := (hlater r hr hgen).same hfence
    subst hsame
    rw [replaceablePreparation, Bool.or_eq_true, decide_eq_true_eq] at hreplaceable
    rcases hreplaceable with hdead | hexpired
    · rcases hlive with hstate | hstate <;> rw [hstate] at hdead <;>
        simp only [reduceCtorEq, or_self] at hdead
    · exact hnot t ht hexpired
  case host => exact Or.inl (.of_mem hr hlive)
  all_goals exact Or.inl (.of_mem hr hlive)

theorem now_of_written (h : Written P n s s') : s'.now = s.now := by
  cases h <;> rfl

theorem holds_of_reachable {S : Pool (Tables χ) (Program χ Answer)}
    (h : (preparations P).Reachable S) :
    (contract P fun _ => True).Holds
      (fun _ r s => ∀ a, r = .ok a → Ensured P (fun _ => True) a s) S :=
  (upheld (fun _ _ _ _ => trivial) ledger_init trivial).holds h

/-- **A standing row is left only by a statement that is addressed to it**, or by a revocation of
its key, in every run where each statement that compares only the fence is current. -/
theorem kept_of_reachVia {S S' : Pool (Tables χ) (Program χ Answer)}
    {a : PoolAction (Request κ) Outside}
    (h : (preparations P).ReachVia (fun S a => current S a = true) S) (ha : current S a = true)
    (hn : (preparations P).next S a = some S') {r : Row χ} (hr : r ∈ S.store.rows)
    (hstanding : r.standing S'.store.now) :
    Stays r S'.store ∨ ∃ n w c, a = .step n w ∧ S.awaited? n = some c ∧ c.addresses r := by
  have hholds := holds_of_reachable h.reachable
  rcases pool_next_cases hn with ⟨i, -, rfl⟩ | ⟨n, w, c, k, x, store, rfl, htask, hrun, rfl⟩ |
    ⟨n, -, rfl⟩
  · exact Or.inl (.of_mem hr hstanding.1)
  · have hc : S.awaited? n = some c := by simp [Pool.awaited?, htask, Async.awaited?]
    have hneeds := hholds.pre hc
    have hcurrent : c.current (S.store.after w.elapsed) = true := by
      simpa only [current, hc, Option.all_some] using ha
    have hnow := now_of_written (written_runs hholds.inv.1 hneeds hrun)
    rw [hnow] at hstanding
    rcases runs_cases hrun with ⟨y, hexec, -⟩ | ⟨-, rfl⟩
    · refine (stays_or_of_exec (hholds.inv.1.after _)
        (hneeds.relies (relies_after S.store w.elapsed n)) hcurrent hexec hr hstanding).imp_right
        fun haddresses => ⟨n, w, c, rfl, hc, haddresses⟩
    · exact Or.inl (.of_mem hr hstanding.1)
  · exact Or.inl (.of_mem hr hstanding.1)

/-! ### Runs -/

/-- A client and its input, for the runs below. -/
def someClient : Client ℕ := { canonicalPublicOrigin := "https://host.example", current := ("key", 1) }

def someInput : PreparationInput where
  organizationId := "org"
  operationKey := "operation"
  canonicalPublicOrigin := "https://host.example"
  publicApply := someApply
  bindings := [("TOKEN", "secret")]

/-- A process takes some steps, with these random bytes where it draws some. -/
def proceeds (n steps : ℕ) (nonce : Nonce) : List (PoolAction (Request ℕ) Outside) :=
  List.replicate steps (.step n { nonce })

/-- A prepared row expires.  Two clients read it, and one of them discards it and prepares another
under the same key, which has the same fence. -/
def staleActions : List (PoolAction (Request ℕ) Outside) :=
  [.start (.prepare someClient someInput none)] ++ proceeds 0 4 "aaaaaaaaaaaaaaaa" ++
  [.start (.prepare someClient someInput none),
    .step 1 { elapsed := preparationTtlMilliseconds }] ++ proceeds 1 1 "" ++
  [.start (.prepare someClient someInput none)] ++ proceeds 2 5 "bbbbbbbbbbbbbbbb"

/-- The next call discards a replaceable row. -/
def discards {χ : Type} : Option (Call χ) → Bool
  | some (.discardReplaceable _) => true
  | _ => false

/-- The other client discards the row that it has not read. -/
theorem kept_of_reachVia_staleActions :
    ¬∀ (S S' : Pool _ _) (a : PoolAction (Request ℕ) Outside) (r : Row _),
      (preparations somePrimitives).Reachable S → (preparations somePrimitives).next S a = some S' →
      r ∈ S.store.rows → r.standing S'.store.now →
      Stays r S'.store ∨ ∃ n w c, a = .step n w ∧ S.awaited? n = some c ∧ c.addresses r := by
  intro hclaim
  obtain ⟨S, S', hS, hn, hp⟩ := Machine.exists_next_of_run (M := preparations somePrimitives)
    staleActions (.step 1 {})
    (fun S S' => (S.store.rows.any fun r => decide (r.standing S'.store.now)) &&
      S'.store.rows.isEmpty && discards (S.awaited? 1)) (by decide +kernel)
  simp only [Bool.and_eq_true, List.isEmpty_iff] at hp
  obtain ⟨⟨hany, hempty⟩, hcall⟩ := hp
  obtain ⟨r, hr, hstanding⟩ := List.any_eq_true.mp hany
  rcases hclaim S S' _ r hS hn hr (of_decide_eq_true hstanding) with ⟨_, hr', -⟩ |
    ⟨n, w, c, heq, hc, haddresses⟩
  · rw [hempty] at hr'
    cases hr'
  · cases heq
    rw [hc] at hcall
    unfold discards at hcall
    split at hcall
    · next hcall' =>
      cases hcall'
      exact haddresses
    · cases hcall

/-- A prepared row expires.  The prepare is made again, discards it and prepares another; then it is
made once more. -/
def retryActions : List (PoolAction (Request ℕ) Outside) :=
  [.start (.prepare someClient someInput none)] ++ proceeds 0 4 "aaaaaaaaaaaaaaaa" ++
  [.start (.prepare someClient someInput none),
    .step 1 { elapsed := preparationTtlMilliseconds }] ++ proceeds 1 4 "bbbbbbbbbbbbbbbb" ++
  [.start (.prepare someClient someInput none)]

/-- The row that the first retry left stays when the second one looks. -/
theorem kept_of_reachVia_retryActions :
    ∃ (S S' : Pool (Tables _) (Program _ Answer)) (r : Row _),
      (preparations somePrimitives).next S (.step 2 {}) = some S' ∧ r ∈ S.store.rows ∧
      r.sealNonce = some "bbbbbbbbbbbbbbbb" ∧ r.standing S'.store.now ∧
      (Stays r S'.store ∨
        ∃ n w c, (.step 2 {} : PoolAction (Request ℕ) Outside) = .step n w ∧
          S.awaited? n = some c ∧ c.addresses r) := by
  obtain ⟨S, hS, hp⟩ := Machine.exists_reachVia_of_run (M := preparations somePrimitives) current
    retryActions
    (fun S => current (κ := ℕ) S (.step 2 {}) &&
      ((preparations somePrimitives).next S (.step 2 {})).any fun S' => S.store.rows.any fun r =>
        decide (r.sealNonce = some "bbbbbbbbbbbbbbbb" ∧ r.standing S'.store.now)) (by decide +kernel)
  rw [Bool.and_eq_true] at hp
  obtain ⟨hcurrent, hnext⟩ := hp
  obtain ⟨S', hn, hany⟩ := (Option.any_eq_true _ _).mp hnext
  obtain ⟨r, hr, hrow⟩ := List.any_eq_true.mp hany
  obtain ⟨hnonce, hstanding⟩ := of_decide_eq_true hrow
  exact ⟨S, S', r, hn, hr, hnonce, hstanding, kept_of_reachVia hS hcurrent hn hr hstanding⟩

end Takoserver.RuntimeInputs
