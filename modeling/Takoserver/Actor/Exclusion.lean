import Takoserver.Actor.System

/-!
# One holder at a time

A holder knows that the lock is its own, so two are the same attempt; and it returns only where the
native children of the owners before it have died.  `acquireActorNativeLease` compares only the
inode of the lock that it last reads, where `recordNative` and `release` also compare the nonce: a
fresh attempt whose lock a recoverer has unlinked may find the inode of its lock in use again, by
the lock of the recoverer, and return beside it.
-/

namespace Takoserver.Actor

variable {s s' : System} {d : Directory} {r : Run} {a : Action}

variable {record : OwnerRecord} {lease : Lease}

theorem owns_of_holds (hs : Sound s) (hmem : r ∈ s.runs) (hlive : r.host ∉ s.dead)
    (hst : r.stage = .held record lease) (hholds : r.holds = true) :
    Holds s.dir record := by
  have hk : KnowsCall s record lease := by
    have := hs.knows r hmem hlive
    rwa [hst] at this
  simp only [Run.holds, hst, Bool.or_eq_true, Bool.not_eq_true', decide_eq_true_eq] at hholds
  by_cases hcall : lease.call = .unlinkOwner
  · rw [KnowsCall, hcall] at hk
    exact hk.2.1
  · have hbetween := hk.between hcall
    rw [KnowsLease, if_neg (by simp [hholds.resolve_right hcall])] at hbetween
    exact hbetween

theorem held_of_holds (hholds : r.holds = true) : ∃ record lease, r.stage = .held record lease := by
  cases hst : r.stage <;> simp only [Run.holds, hst, Bool.false_eq_true] at hholds
  case held record lease => exact ⟨record, lease, rfl⟩

theorem returns_of_step {answer : Answer} {result : Result}
    (hnot : ∀ record lease, r.stage ≠ .held record lease) (hstep : r.step d answer = some result)
    (hheld : result.run.stage = .held record lease) :
    ∃ owned finalLock, r.stage = .lastClaim record owned finalLock ∧ d.claim = none ∧
      lease = { owned } ∧ result.dir = d ∧ result.native = none := by
  obtain ⟨_, _, stage⟩ := r
  cases answer <;> cases stage <;> simp only [Run.step, reduceCtorEq] at hstep
  case go.lastClaim owned finalLock =>
    split at hstep <;> cases hstep
    · next hfinal =>
      rw [Bool.and_eq_true, Option.isNone_iff_eq_none] at hfinal
      cases hheld
      exact ⟨owned, finalLock, rfl, hfinal.1, rfl, rfl, rfl⟩
    · cases hheld
  case go.held record lease | liveness.held record lease | file.held record lease
    | hook.held record lease => exact absurd rfl (hnot record lease)
  -- the other stages go on to stages that hold no lease
  all_goals (repeat' split at hstep) <;> cases hstep <;> cases hheld

theorem step_of_returns {i : ℕ} {r' : Run} (hn : s.next a = some s') (hi : s.runs[i]? = some r)
    (hi' : s'.runs[i]? = some r') (hnot : ∀ record lease, r.stage ≠ .held record lease)
    (hheld : r'.stage = .held record lease) :
    r.host ∉ s.dead ∧ ∃ answer result, a = .step i answer ∧ s.admits r answer = true ∧
      r.step s.dir answer = some result ∧
      s' = s.after i answer result ∧ result.run.stage = .held record lease := by
  -- where the attempt is not the one that moves, it is the same before and after
  have hsame : s'.runs[i]? ≠ s.runs[i]? := by
    intro heq
    rw [heq, hi] at hi'
    cases hi'
    exact hnot record lease hheld
  have hbegin : ∀ k call, s.begin k call = some s' → False := by
    intro k call hn
    unfold System.begin at hn
    split at hn
    · cases hn
    next hk =>
    split at hn
    · next b l hst =>
      split at hn
      · cases hn
        by_cases hki : k = i
        · subst hki
          rw [hi] at hk
          cases hk
          exact hnot b l hst
        · exact hsame (List.getElem?_set_ne hki)
      · cases hn
    · cases hn
  cases a with
  | acquire =>
    simp only [System.next] at hn
    split at hn
    · cases hn
      refine absurd ?_ hsame
      exact List.getElem?_append_left (List.getElem?_eq_some_iff.mp hi).1
    · cases hn
  | step k answer =>
    simp only [System.next] at hn
    split at hn
    · cases hn
    next hk =>
    split at hn
    · next hcond =>
      obtain ⟨result, hstep, rfl⟩ := Option.map_eq_some_iff.mp hn
      by_cases hki : k = i
      · subst hki
        rw [hi] at hk
        cases hk
        refine ⟨hcond.1, answer, result, rfl, hcond.2, hstep, rfl, ?_⟩
        have hlt : k < s.runs.length := (List.getElem?_eq_some_iff.mp hi).1
        rw [List.getElem?_set_self hlt] at hi'
        rwa [Option.some.inj hi']
      · exact absurd (List.getElem?_set_ne hki) hsame
    · cases hn
  | recordNative k => exact (hbegin k _ hn).elim
  | release k => exact (hbegin k _ hn).elim
  | die =>
    cases hn
    exact absurd rfl hsame

theorem natives_dead_of_returns {i : ℕ} {r' : Run} (hs : Sound s) (hok : finalOwn s a = true)
    (hn : s.next a = some s') (hi : s.runs[i]? = some r) (hi' : s'.runs[i]? = some r')
    (hnot : ∀ record lease, r.stage ≠ .held record lease) (hheld : r'.stage = .held record lease) :
    ∀ n ∈ s'.natives, n.2 ∈ s'.dead := by
  have hs' : Sound s' := hs.next hok hn
  obtain ⟨hrlive, answer, result, rfl, hadm, hstep, rfl, hst⟩ :=
    step_of_returns hn hi hi' hnot hheld
  have hlive : r'.host ∉ (s.after i answer result).dead := by
    have hsettled : settled s r = true := by simpa [finalOwn, hi] using hok
    have hnext := next_of_step hs (List.mem_of_getElem? hi) hrlive hsettled hadm hstep
    have hlt : i < s.runs.length := (List.getElem?_eq_some_iff.mp hi).1
    have heq : some result.run = some r' := (List.getElem?_set_self hlt).symm.trans hi'
    rw [← Option.some.inj heq, hnext.host]
    exact hrlive
  obtain ⟨_, _, hlast, hclaim, rfl, hdir, hnative⟩ := returns_of_step hnot hstep hst
  have hholds : r'.holds = true := by simp [Run.holds, hheld]
  have howns := (owns_of_holds hs' (List.mem_of_getElem? hi') hlive hheld hholds).1
  intro n hmem
  by_contra hnlive
  obtain ⟨c, hc, hnonce, -⟩ := hs'.natives n hmem hnlive
  have hold : n ∈ s.natives := by
    have hmem' : n ∈ s.natives ++ result.native.toList := hmem
    rwa [hnative, Option.toList_none, List.append_nil] at hmem'
  -- the record of the child is that of the owner of the lock, the attempt
  have hown : c.nonce = record.nonce := by
    rcases hs'.child c hc with ⟨f, hf, heq⟩ | ⟨g, hg⟩
    · obtain ⟨_, hf', heq'⟩ := howns
      rw [hf] at hf'
      cases hf'
      rw [← heq, heq']
    · have hnone : (s.after i answer result).dir.claim = none := by
        rw [← hclaim, ← hdir]
        rfl
      rw [hnone] at hg
      cases hg
  -- and the attempt has not recorded one, as it has returned no lease before
  obtain ⟨q, hq, b, l, hst', hb⟩ := hs.recorders n hold
  obtain ⟨j, hj⟩ := List.mem_iff_getElem?.mp hq
  have heq : b.nonce = record.nonce := hb.trans (hnonce.symm.trans hown)
  have hji : j = i := hs.distinct j i q r hj hi b record (by rw [hst']; rfl) (by rw [hlast]; rfl) heq
  subst hji
  rw [hi] at hj
  cases hj
  exact hnot b l hst'

/-- **Two live hosts never hold the lease, and none begins to hold it while a native child that was
recorded lives**, in every run where each attempt that returns has last read its own lock. -/
theorem exclusive_of_reachVia (hr : leases.ReachVia (fun s a => finalOwn s a) s) :
    (∀ (i j : ℕ) (r r' : Run), s.runs[i]? = some r → s.runs[j]? = some r' →
      r.host ∉ s.dead → r'.host ∉ s.dead → r.holds = true → r'.holds = true → i = j) ∧
    ∀ a s', finalOwn s a = true → s.next a = some s' →
      ∀ (i : ℕ) (r r' : Run), s.runs[i]? = some r → s'.runs[i]? = some r' →
        (∀ record lease, r.stage ≠ .held record lease) →
        ∀ record lease, r'.stage = .held record lease →
          ∀ n ∈ s'.natives, n.2 ∈ s'.dead := by
  have hs := sound_of_reachVia hr
  refine ⟨fun i j r r' hi hj hlive hlive' hholds hholds' => ?_, ?_⟩
  · obtain ⟨b, _, hst⟩ := held_of_holds hholds
    obtain ⟨b', _, hst'⟩ := held_of_holds hholds'
    obtain ⟨f, hf, hnonce⟩ := (owns_of_holds hs (List.mem_of_getElem? hi) hlive hst hholds).1
    obtain ⟨_, hf', hnonce'⟩ := (owns_of_holds hs (List.mem_of_getElem? hj) hlive' hst' hholds').1
    rw [hf] at hf'
    cases hf'
    exact hs.distinct i j r r' hi hj b b' (by rw [hst]; rfl) (by rw [hst']; rfl)
      (hnonce.symm.trans hnonce')
  · intro a s' hok hn i r r' hi hi' hnot record lease hheld
    exact natives_dead_of_returns hs hok hn hi hi' hnot hheld

/-! ### Runs -/

/-- The steps of the runs below. -/
def actorScope : Scope := ⟨"tenant", "namespace"⟩

/-- An attempt takes some steps that no answer decides. -/
def looks (i n : ℕ) : List Action := List.replicate n (.step i .go)

def findsStale (i : ℕ) : Action := .step i (.liveness .stale)

def creates (i : ℕ) (inode : Inode) (nonce : String) : Action := .step i (.file inode nonce)

/-- An owner dies with its lease; a recoverer stops before it links its claim, and another
recovers. -/
def recoverActions : List Action :=
  [.acquire actorScope 1] ++ looks 0 4 ++ [creates 0 1 "a"] ++ looks 0 9 ++ [.die 1] ++
  [.acquire actorScope 2] ++ looks 1 2 ++ [findsStale 1] ++ looks 1 1 ++
  [.acquire actorScope 3] ++ looks 2 2 ++ [findsStale 2] ++ looks 2 5 ++ [findsStale 2] ++
    looks 2 1 ++ [creates 2 2 "b"] ++ looks 2 9

theorem exclusive_of_reachVia_recoverActions :
    ∃ s : System, leases.ReachVia (fun s a => finalOwn s a) s ∧
      (∃ r ∈ s.runs, r.host ∉ s.dead ∧ r.holds = true) ∧
      ∀ (i j : ℕ) (r r' : Run), s.runs[i]? = some r → s.runs[j]? = some r' →
        r.host ∉ s.dead → r'.host ∉ s.dead → r.holds = true → r'.holds = true → i = j := by
  obtain ⟨s, hs, hp⟩ := Machine.exists_reachVia_of_run (M := leases) finalOwn recoverActions
    (fun s => s.runs.any fun r => decide (r.host ∉ s.dead ∧ r.holds = true)) (by decide +kernel)
  obtain ⟨r, hr, hp⟩ := List.any_eq_true.mp hp
  exact ⟨s, hs, ⟨r, hr, of_decide_eq_true hp⟩, (exclusive_of_reachVia hs).1⟩

/-- The recoverer releases.  A fresh attempt has passed the claim, a next owner takes the inode of
the first and is about to unlink its lock when the other recoverer links its claim; the fresh
attempt publishes its lock, the recoverer unlinks it and takes its inode, and both return. -/
def reuseActions : List Action :=
  recoverActions ++ [.release 2] ++ looks 2 5 ++ [.step 2 (.hook true)] ++ looks 2 4 ++
  [.acquire actorScope 5] ++ looks 3 1 ++
  [.acquire actorScope 4] ++ looks 4 4 ++ [creates 4 1 "c"] ++ looks 4 9 ++
    [.release 4] ++ looks 4 4 ++
  looks 1 4 ++ looks 4 1 ++ [.die 4] ++ looks 3 3 ++ [creates 3 3 "d"] ++ looks 3 3 ++
  [findsStale 1] ++ looks 1 1 ++ [creates 1 3 "e"] ++ looks 1 10 ++ looks 3 5

/-- Two live hosts hold the lease. -/
theorem exclusive_of_reachVia_reuseActions :
    ∃ s : System, leases.Reachable s ∧ ∃ r ∈ s.runs, ∃ r' ∈ s.runs,
      r.host ∉ s.dead ∧ r'.host ∉ s.dead ∧ r.host ≠ r'.host ∧
        r.holds = true ∧ r'.holds = true := by
  obtain ⟨s, hs, hp⟩ := Machine.exists_reachable_of_run (M := leases) reuseActions
    (fun s => s.runs.any fun r => s.runs.any fun r' => decide (r.host ∉ s.dead ∧ r'.host ∉ s.dead ∧
      r.host ≠ r'.host ∧ r.holds = true ∧ r'.holds = true)) (by decide +kernel)
  obtain ⟨r, hr, hp⟩ := List.any_eq_true.mp hp
  obtain ⟨r', hr', hp⟩ := List.any_eq_true.mp hp
  exact ⟨s, hs, r, hr, r', hr', of_decide_eq_true hp⟩

end Takoserver.Actor
