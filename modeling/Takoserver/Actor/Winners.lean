import Takoserver.Actor.Exclusion

/-!
# What losers leave to the winner

A recoverer links its claim before it looks again at the lock that it has linked.  Where another
has recovered first, the claim pins the lock of a live holder; the recoverer throws, the claim
stays, and every later call of the holder throws.  Where no attempt links its claim onto the lock
of a live holder, the files of a holder are its own until it removes its lock, and its calls throw
for no file.
-/

namespace Takoserver.Actor

variable {s s' : System} {d : Directory} {r q : Run} {a : Action} {record : OwnerRecord}
variable {lease : Lease} {i : ℕ} {answer : Answer} {result : Result}

/-- No claim is linked onto the lock of a live holder. -/
def linkFair (s : System) : Action → Bool
  | .step i _ =>
      match s.runs[i]?, s.dir.lock, s.dir.claim with
      | some r, some f, none =>
        match r.stage with
        | .linkClaim _ => s.runs.all fun q => decide (q.host ∈ s.dead) || !q.holds ||
            q.stage.record.all fun record => decide (f.record.nonce ≠ record.nonce)
        | _ => true
      | _, _, _ => true
  | _ => true

/-- The attempt has linked its claim, and not yet unlinked the lock. -/
def Stage.pins : Stage → Bool
  | .readPinned _ | .readCurrent _ _ | .readChildAgain _ _ _ | .testHostAgain _ _ _
  | .testChildAgain _ _ | .unlinkLock _ => true
  | _ => false

/-- The record of an attempt whose lock is published, until it returns. -/
def Stage.published : Stage → Option OwnerRecord
  | .dropTemporary _ file true => some file.record
  | .readOwned _ record | .lookClaim record _ | .lookMarker _ record _ | .makeMarker _ record _
  | .readClaim _ record _ | .readOldChild _ record _ | .testOldChild record _ _
  | .unlinkChild record _ | .unlinkClaim record _ | .readFinal record _
  | .lastClaim record _ _ => some record
  | _ => none

/-- The marker is gone already. -/
def Call.unmarked : Call → Bool
  | .unlinkNative | .unlinkOwner => true
  | _ => false

/-- What holds in every state where links are fair. -/
structure Fair (s : System) : Prop where
  holder : ∀ r ∈ s.runs, r.host ∉ s.dead → r.holds = true → s.dir.claim = none
  pinned : ∀ r ∈ s.runs, r.host ∉ s.dead → r.stage.pins = true →
    ∃ g, s.dir.claim = some g ∧ s.dir.lock = some g
  published : ∀ r ∈ s.runs, r.host ∉ s.dead → ∀ record, r.stage.published = some record →
    Owns s.dir record
  last : ∀ r ∈ s.runs, r.host ∉ s.dead → ∀ record owned finalLock,
    r.stage = .lastClaim record owned finalLock → ∀ c, finalLock = some c →
      c.value.nonce = record.nonce
  unmarked : ∀ r ∈ s.runs, r.host ∉ s.dead → ∀ record lease, r.stage = .held record lease →
    lease.call.unmarked = true → s.dir.marker = false

theorem Stage.record_of_published {stage : Stage} (h : stage.published = some record) :
    stage.record = some record := by
  cases stage <;> simp only [Stage.published, reduceCtorEq] at h <;> try exact h
  case dropTemporary linked =>
    cases linked
    · cases h
    · exact h

theorem Stage.claimed_of_pins {stage : Stage} (h : stage.pins = true) : stage.claimed = true := by
  cases stage <;> simp only [Stage.pins, Bool.false_eq_true] at h <;> rfl

/-! ### The steps of others -/

section Others

variable {minted : List String} {born : Option (String × Process)} {d' : Directory}
variable {other : Run}

theorem pinned_kept (h : Effect s other minted d' born) (hf : Fair s) (hmem : r ∈ s.runs)
    (hother : other ∈ s.runs) (ha : Apart s r other) (hlive : other.host ∉ s.dead)
    (hpins : r.stage.pins = true) : ∃ g, d'.claim = some g ∧ d'.lock = some g := by
  obtain ⟨g, hg, hlock⟩ := hf.pinned r hmem ha.lives hpins
  have hclaimed := Stage.claimed_of_pins hpins
  refine ⟨g, h.claim_kept ha hclaimed hg, ?_⟩
  cases h with
  | clears _ hstage =>
    have hother := ha.claimed hclaimed
    rw [hstage] at hother
    cases hother
  | publishes _ hnone =>
    rw [hlock] at hnone
    cases hnone
  | gives _ _ hholds =>
    -- a holder whose lock is pinned would have a claim on it
    rw [hf.holder other hother hlive hholds] at hg
    cases hg
  | _ => exact hlock

theorem published_kept (h : Effect s other minted d' born) (hs : Sound s) (hf : Fair s)
    (hmem : r ∈ s.runs) (hother : other ∈ s.runs) (ha : Apart s r other)
    (hlive : other.host ∉ s.dead) (hp : r.stage.published = some record) : Owns d' record := by
  have howns := hf.published r hmem ha.lives record hp
  have hr := Stage.record_of_published hp
  cases h with
  | clears _ hstage g hclaim hdead =>
    -- the claim pins this lock, whose owner lives
    obtain ⟨_, hg', hlock⟩ := hf.pinned other hother hlive (by rw [hstage]; rfl)
    rw [hclaim] at hg'
    cases hg'
    obtain ⟨f, hf', hnonce⟩ := howns
    rw [hlock] at hf'
    cases hf'
    have hrecorded := hs.recorded r hmem record hr
    rw [hrecorded.files g (mem_files_lock hlock) hnonce, hrecorded.host] at hdead
    exact absurd hdead ha.lives
  | publishes _ hnone =>
    obtain ⟨f, hf', -⟩ := howns
    rw [hnone] at hf'
    cases hf'
  | gives _ hb _ howns' => exact absurd howns' (Effect.owns_apart ha hr howns hb)
  | _ => exact howns

theorem unmarked_kept (h : Effect s other minted d' born) (hf : Fair s)
    (hother : other ∈ s.runs) (ha : Apart s r other) (hlive : other.host ∉ s.dead)
    (hst : r.stage = .held record lease) (howns : Owns s.dir record)
    (hmarker : s.dir.marker = false) : d'.marker = false := by
  have hr : r.stage.record = some record := by rw [hst]; rfl
  cases h with
  | marks b hstage =>
    cases b
    · rfl
    · obtain ⟨_, b, _, hmakes⟩ := hstage rfl
      have howns' := hf.published other hother hlive b (by rw [hmakes]; rfl)
      exact absurd howns' (Effect.owns_apart ha hr howns (by rw [hmakes]; rfl))
  | _ => exact hmarker

end Others

/-! ### Own steps -/

/-- A call stays that of its lease. -/
theorem held_of_call (hstep : r.callStep d record lease answer = some result) :
    ∃ lease', result.run.stage = .held record lease' := by
  unfold Run.callStep at hstep
  cases answer <;> cases hcall : lease.call <;> simp only [hcall, reduceCtorEq] at hstep <;>
    (repeat' split at hstep) <;> cases hstep <;> exact ⟨_, rfl⟩

theorem pins_of_step (hstep : r.step d answer = some result)
    (hpins : result.run.stage.pins = true) :
    (r.stage.pins = true ∧ result.dir = d) ∨
      ∃ f, d.lock = some f ∧ result.dir = { d with claim := some f } := by
  obtain ⟨_, _, stage⟩ := r
  cases answer <;> cases stage <;> simp only [Run.step, reduceCtorEq] at hstep
  case go.linkClaim =>
    split at hstep <;> cases hstep
    · next f hlock _ => exact Or.inr ⟨f, hlock, rfl⟩
    · cases hpins
  case go.held b l | liveness.held b l | file.held b l | hook.held b l =>
    obtain ⟨_, hst⟩ := held_of_call hstep
    rw [hst] at hpins
    cases hpins
  all_goals
    (repeat' split at hstep) <;> cases hstep <;>
      first | exact absurd hpins Bool.false_ne_true | exact Or.inl ⟨rfl, rfl⟩

theorem published_of_step (hstep : r.step d answer = some result)
    (hp : result.run.stage.published = some record) :
    (r.stage.published = some record ∧ result.dir.lock = d.lock) ∨
      ∃ f, result.dir.lock = some f ∧ f.record.nonce = record.nonce := by
  obtain ⟨_, _, stage⟩ := r
  cases answer <;> cases stage <;> simp only [Run.step, reduceCtorEq] at hstep
  case go.publish file =>
    split at hstep <;> cases hstep
    · cases hp
    · cases hp
      exact Or.inr ⟨file, rfl, rfl⟩
  case go.dropTemporary linked =>
    cases hstep
    cases linked <;> cases hp
    exact Or.inl ⟨rfl, rfl⟩
  case go.held b l | liveness.held b l | file.held b l | hook.held b l =>
    obtain ⟨_, hst⟩ := held_of_call hstep
    rw [hst] at hp
    cases hp
  all_goals
    (repeat' split at hstep) <;> cases hstep <;> cases hp <;> exact Or.inl ⟨rfl, rfl⟩

theorem last_of_step {owned : ReadRecord} {finalLock : Option ReadRecord}
    (hstep : r.step d answer = some result)
    (hlast : result.run.stage = .lastClaim record owned finalLock) :
    r.stage.published = some record ∧ finalLock = d.read d.lock := by
  obtain ⟨_, _, stage⟩ := r
  cases answer <;> cases stage <;> simp only [Run.step, reduceCtorEq] at hstep
  case go.held b l | liveness.held b l | file.held b l | hook.held b l =>
    obtain ⟨_, hst⟩ := held_of_call hstep
    rw [hst] at hlast
    cases hlast
  all_goals
    (repeat' split at hstep) <;> cases hstep <;> cases hlast <;> exact ⟨rfl, rfl⟩

theorem holds_of_call (hk : KnowsCall s record lease) (hst : r.stage = .held record lease)
    (hstep : r.callStep s.dir record lease answer = some result)
    (hholds : result.run.holds = true) : r.holds = true ∧ result.dir.claim = s.dir.claim := by
  obtain ⟨_, _, _⟩ := r
  obtain ⟨_, started, invoked, _, call, _⟩ := lease
  subst hst
  unfold KnowsCall at hk
  cases answer <;> cases call <;> simp only [Run.callStep, reduceCtorEq] at hstep <;>
    simp only at hk
  case go.releaseClaim current =>
    cases started
    · refine ⟨rfl, ?_⟩
      (repeat' split at hstep) <;> cases hstep <;> rfl
    -- the lock that is there is another's
    split at hstep
    · cases hstep
      cases hholds
    next hpass =>
    rw [if_pos rfl] at hstep
    cases current with
    | none =>
      cases hstep
      cases invoked <;> cases hholds
    | some c =>
      have hnonce := hk.2 c rfl
      simp [hnonce] at hpass
  case go.removeMarker =>
    cases hstep
    obtain ⟨rfl, -⟩ := hk
    exact ⟨rfl, rfl⟩
  case go.unlinkNative =>
    obtain ⟨rfl, -⟩ := hk
    refine ⟨rfl, ?_⟩
    split at hstep <;> cases hstep <;> rfl
  case go.unlinkOwner =>
    refine ⟨by simp [Run.holds], ?_⟩
    split at hstep <;> cases hstep <;> rfl
  all_goals
    (repeat' split at hstep) <;> cases hstep <;> exact ⟨hholds, rfl⟩

theorem unmarked_of_call {lease' : Lease} (hk : KnowsCall s record lease)
    (hstep : r.callStep s.dir record lease answer = some result)
    (hst : result.run.stage = .held record lease') (hu : lease'.call.unmarked = true) :
    result.dir.marker = false ∨ lease.call.unmarked = true ∧ result.dir.marker = s.dir.marker := by
  obtain ⟨_, started, invoked, _, call, _⟩ := lease
  unfold KnowsCall at hk
  cases answer <;> cases call <;> simp only [Run.callStep, reduceCtorEq] at hstep <;>
    simp only at hk
  case go.releaseClaim current =>
    split at hstep
    · cases hstep
      cases hst
      cases hu
    next hpass =>
    cases started
    · cases hstep
      cases hst
      cases hu
    rw [if_pos rfl] at hstep
    cases current with
    | none =>
      cases hstep
      cases hst
      cases invoked <;> cases hu
    | some c =>
      have hnonce := hk.2 c rfl
      simp [hnonce] at hpass
  case go.removeMarker =>
    cases hstep
    exact Or.inl rfl
  case go.unlinkOwner =>
    split at hstep <;> cases hstep <;> exact Or.inr ⟨rfl, rfl⟩
  case go.unlinkNative =>
    split at hstep <;> cases hstep <;> exact Or.inr ⟨rfl, rfl⟩
  all_goals
    (repeat' split at hstep) <;> cases hstep <;> cases hst <;> cases hu

/-! ### The machine -/

theorem claim_of_fair {minted : List String} {born : Option (String × Process)} {d' : Directory}
    (he : Effect s r minted d' born) (hs : Sound s) (hi : s.runs[i]? = some r)
    (hfair : linkFair s (.step i answer) = true) (hq : q ∈ s.runs) (hlive : q.host ∉ s.dead)
    (hholds : q.holds = true) (hclaim : s.dir.claim = none) : d'.claim = none := by
  cases he with
  | claims _ hstage _ hlock =>
    obtain ⟨b, _, hst⟩ := held_of_holds hholds
    obtain ⟨_, hf', hnonce⟩ := (owns_of_holds hs hq hlive hst hholds).1
    rw [hlock] at hf'
    cases hf'
    simp only [linkFair, hi, hlock, hclaim, hstage, List.all_eq_true] at hfair
    have hq' := hfair q hq
    simp [hlive, hholds, hst, Stage.record, hnonce] at hq'
  | unclaims => rfl
  | _ => exact hclaim

theorem last_of_next (hf : Fair s) (hi : s.runs[i]? = some r) (hlive : r.host ∉ s.dead)
    (hstep : r.step s.dir answer = some result) : ∀ q ∈ (s.after i answer result).runs, q.host ∉ s.dead →
    ∀ b owned finalLock, q.stage = .lastClaim b owned finalLock → ∀ c, finalLock = some c →
      c.value.nonce = b.nonce := by
  intro q hq hqlive b owned finalLock hlast c hc
  obtain ⟨j, hj⟩ := List.mem_iff_getElem?.mp hq
  rcases set_cases hj with ⟨-, rfl⟩ | ⟨-, hj⟩
  · obtain ⟨hp, hread⟩ := last_of_step hstep hlast
    obtain ⟨f, hf', hnonce⟩ := hf.published r (List.mem_of_getElem? hi) hlive b hp
    rw [hread, Directory.read, hf'] at hc
    cases hc
    exact hnonce
  · exact hf.last q (List.mem_of_getElem? hj) hqlive b owned finalLock hlast c hc

section Step

variable (hs : Sound s) (hf : Fair s) (hi : s.runs[i]? = some r) (hlive : r.host ∉ s.dead)
  (hadm : s.admits r answer = true) (hn : Next s r answer result)
  (hstep : r.step s.dir answer = some result)

include hs hf hi hlive hn hstep

theorem holder_of_next (hfair : linkFair s (.step i answer) = true) :
    ∀ q ∈ (s.after i answer result).runs, q.host ∉ s.dead → q.holds = true →
      result.dir.claim = none := by
  intro q hq hqlive hholds
  obtain ⟨j, hj⟩ := List.mem_iff_getElem?.mp hq
  have hmem : r ∈ s.runs := List.mem_of_getElem? hi
  rcases set_cases hj with ⟨-, rfl⟩ | ⟨-, hj⟩
  · by_cases hheld : ∃ b lease, r.stage = .held b lease
    · obtain ⟨b, lease, hst⟩ := hheld
      have hk : KnowsCall s b lease := by
        have := hs.knows r hmem hlive
        rwa [hst] at this
      have hcall : r.callStep s.dir b lease answer = some result := by
        simpa only [Run.step, hst] using hstep
      obtain ⟨hbefore, hclaim⟩ := holds_of_call hk hst hcall hholds
      rw [hclaim]
      exact hf.holder r hmem hlive hbefore
    · obtain ⟨b, lease, hst⟩ := held_of_holds hholds
      obtain ⟨-, -, -, hclaim, -, hdir, -⟩ :=
        returns_of_step (fun b lease h => hheld ⟨b, lease, h⟩) hstep hst
      rw [hdir]
      exact hclaim
  · have hq' : q ∈ s.runs := List.mem_of_getElem? hj
    exact claim_of_fair hn.effect hs hi hfair hq' hqlive hholds (hf.holder q hq' hqlive hholds)

theorem pinned_of_next : ∀ q ∈ (s.after i answer result).runs, q.host ∉ s.dead →
    q.stage.pins = true → ∃ g, result.dir.claim = some g ∧ result.dir.lock = some g := by
  intro q hq hqlive hpins
  obtain ⟨j, hj⟩ := List.mem_iff_getElem?.mp hq
  have hmem : r ∈ s.runs := List.mem_of_getElem? hi
  rcases set_cases hj with ⟨-, rfl⟩ | ⟨hne, hj⟩
  · rcases pins_of_step hstep hpins with ⟨hbefore, hdir⟩ | ⟨f, hlock, hdir⟩
    · rw [hdir]
      exact hf.pinned r hmem hlive hbefore
    · rw [hdir]
      exact ⟨f, rfl, hlock⟩
  · have hq' : q ∈ s.runs := List.mem_of_getElem? hj
    exact pinned_kept hn.effect hf hq' hmem (hs.apart hi hj hne hlive hqlive) hlive hpins

theorem published_of_next : ∀ q ∈ (s.after i answer result).runs, q.host ∉ s.dead →
    ∀ b, q.stage.published = some b → Owns result.dir b := by
  intro q hq hqlive b hp
  obtain ⟨j, hj⟩ := List.mem_iff_getElem?.mp hq
  have hmem : r ∈ s.runs := List.mem_of_getElem? hi
  rcases set_cases hj with ⟨-, rfl⟩ | ⟨hne, hj⟩
  · rcases published_of_step hstep hp with ⟨hbefore, hlock⟩ | howns
    · obtain ⟨f, hf', hnonce⟩ := hf.published r hmem hlive b hbefore
      exact ⟨f, hlock.trans hf', hnonce⟩
    · exact howns
  · have hq' : q ∈ s.runs := List.mem_of_getElem? hj
    exact published_kept hn.effect hs hf hq' hmem (hs.apart hi hj hne hlive hqlive) hlive hp

theorem unmarked_of_next : ∀ q ∈ (s.after i answer result).runs, q.host ∉ s.dead →
    ∀ b lease, q.stage = .held b lease → lease.call.unmarked = true →
      result.dir.marker = false := by
  intro q hq hqlive b lease hst hu
  obtain ⟨j, hj⟩ := List.mem_iff_getElem?.mp hq
  have hmem : r ∈ s.runs := List.mem_of_getElem? hi
  rcases set_cases hj with ⟨-, rfl⟩ | ⟨hne, hj⟩
  · by_cases hheld : ∃ b lease, r.stage = .held b lease
    · obtain ⟨b', lease', hst'⟩ := hheld
      have hk : KnowsCall s b' lease' := by
        have := hs.knows r hmem hlive
        rwa [hst'] at this
      have hcall : r.callStep s.dir b' lease' answer = some result := by
        simpa only [Run.step, hst'] using hstep
      obtain ⟨_, hst''⟩ := held_of_call hcall
      rw [hst''] at hst
      cases hst
      rcases unmarked_of_call hk hcall hst'' hu with hnone | ⟨hbefore, hmarker⟩
      · exact hnone
      · rw [hmarker]
        exact hf.unmarked r hmem hlive b lease' hst' hbefore
    · obtain ⟨_, _, -, -, hreturned, -⟩ :=
        returns_of_step (fun b lease h => hheld ⟨b, lease, h⟩) hstep hst
      rw [hreturned] at hu
      cases hu
  · have hq' : q ∈ s.runs := List.mem_of_getElem? hj
    have hk : KnowsCall s b lease := by
      have := hs.knows q hq' hqlive
      rwa [hst] at this
    have howns : Owns s.dir b := by
      unfold KnowsCall at hk
      cases hcall : lease.call <;> rw [hcall] at hk hu <;> simp only [Call.unmarked,
        Bool.false_eq_true] at hu
      case unlinkNative => exact hk.2.1.1
      case unlinkOwner => exact hk.2.1.1
    exact unmarked_kept hn.effect hf hmem (hs.apart hi hj hne hlive hqlive) hlive hst howns
      (hf.unmarked q hq' hqlive b lease hst hu)

theorem Fair.after (hfair : linkFair s (.step i answer) = true) : Fair (s.after i answer result) where
  holder := holder_of_next hs hf hi hlive hn hstep hfair
  pinned := pinned_of_next hs hf hi hlive hn hstep
  published := published_of_next hs hf hi hlive hn hstep
  last := last_of_next hf hi hlive hstep
  unmarked := unmarked_of_next hs hf hi hlive hn hstep

end Step

theorem Fair.final (hf : Fair s) (hn : s.next a = some s') : finalOwn s a = true := by
  cases a with
  | step =>
    simp only [System.next] at hn
    split at hn
    · cases hn
    next r hi =>
    split at hn
    · next hcond =>
      have hmem : r ∈ s.runs := List.mem_of_getElem? hi
      simp only [finalOwn, hi, Option.all_some, settled]
      split
      · next b owned finalLock hst =>
        rw [Bool.or_eq_true, Option.all_eq_true]
        refine Or.inr fun c hc => ?_
        have hnonce := hf.last r hmem hcond.1 b owned finalLock hst c hc
        rw [Bool.or_eq_true, decide_eq_true_eq]
        exact Or.inr hnonce
      · rfl
    · cases hn
  | _ => rfl

theorem fair_init : Fair leases.init := by
  have hruns : ∀ r, r ∉ leases.init.runs := fun r hr => absurd hr List.not_mem_nil
  exact
    { holder := fun r hr => absurd hr (hruns r)
      pinned := fun r hr => absurd hr (hruns r)
      published := fun r hr => absurd hr (hruns r)
      last := fun r hr => absurd hr (hruns r)
      unmarked := fun r hr => absurd hr (hruns r) }

theorem holds_congr (h : r.stage = q.stage) : r.holds = q.holds := by
  unfold Run.holds
  rw [h]

/-- The stage of an attempt is the same, or that of a call that begins. -/
def Stage.Begins (a b : Stage) : Prop :=
  b = a ∨ ∃ record lease call, a = .held record lease ∧ lease.call = .idle ∧
    call.unmarked = false ∧ b = .held record { lease with call }

/-- Attempts and calls that begin, and deaths, leave the directory. -/
theorem Fair.of_runs {t : System} (hf : Fair s) (hdir : t.dir = s.dir)
    (hruns : ∀ r ∈ t.runs, r.host ∉ t.dead → r.stage = .checkClaim ∨
      ∃ q ∈ s.runs, q.host ∉ s.dead ∧ q.stage.Begins r.stage) : Fair t := by
  refine ⟨?_, ?_, ?_, ?_, ?_⟩
  · intro r hr hlive hholds
    rw [hdir]
    rcases hruns r hr hlive with hst | ⟨q, hq, hqlive, hst | ⟨b, lease, call, hst, -, hu, hst'⟩⟩
    · simp [Run.holds, hst] at hholds
    · exact hf.holder q hq hqlive (holds_congr hst ▸ hholds)
    · refine hf.holder q hq hqlive ?_
      have hcall : call ≠ .unlinkOwner := by
        rintro rfl
        cases hu
      have hstarted : lease.releaseStarted = false := by
        simpa [Run.holds, hst', hcall] using hholds
      simp [Run.holds, hst, hstarted]
  · intro r hr hlive hpins
    rw [hdir]
    rcases hruns r hr hlive with hst | ⟨q, hq, hqlive, hst | ⟨b, _, _, hst, -, -, hst'⟩⟩
    · rw [hst] at hpins
      cases hpins
    · exact hf.pinned q hq hqlive (hst ▸ hpins)
    · rw [hst'] at hpins
      cases hpins
  · intro r hr hlive b hp
    rw [hdir]
    rcases hruns r hr hlive with hst | ⟨q, hq, hqlive, hst | ⟨b, _, _, hst, -, -, hst'⟩⟩
    · rw [hst] at hp
      cases hp
    · exact hf.published q hq hqlive b (hst ▸ hp)
    · rw [hst'] at hp
      cases hp
  · intro r hr hlive b owned finalLock hlast
    rcases hruns r hr hlive with hst | ⟨q, hq, hqlive, hst | ⟨b, _, _, hst, -, -, hst'⟩⟩
    · rw [hst] at hlast
      cases hlast
    · exact hf.last q hq hqlive b owned finalLock (hst ▸ hlast)
    · rw [hst'] at hlast
      cases hlast
  · intro r hr hlive b lease hheld hunmarked
    rw [hdir]
    rcases hruns r hr hlive with hst | ⟨q, hq, hqlive, hst | ⟨b, lease, _, hst, -, hu, hst'⟩⟩
    · rw [hst] at hheld
      cases hheld
    · exact hf.unmarked q hq hqlive b lease (hst ▸ hheld) hunmarked
    · rw [hst'] at hheld
      cases hheld
      exact absurd (hu.symm.trans hunmarked) Bool.false_ne_true

theorem Fair.begins {call : Call} (hf : Fair s) (hn : s.begin i call = some s')
    (hcall : call.unmarked = false) : Fair s' := by
  unfold System.begin at hn
  split at hn
  · cases hn
  next r hi =>
  split at hn
  · next record lease hst =>
    split at hn
    · next hcond =>
      cases hn
      refine hf.of_runs rfl fun q hq hqlive => Or.inr ?_
      obtain ⟨j, hj⟩ := List.mem_iff_getElem?.mp hq
      rcases set_cases hj with ⟨-, rfl⟩ | ⟨-, hj⟩
      · exact ⟨r, List.mem_of_getElem? hi, hcond.1,
          Or.inr ⟨record, lease, call, hst, hcond.2, hcall, rfl⟩⟩
      · exact ⟨q, List.mem_of_getElem? hj, hqlive, Or.inl rfl⟩
    · cases hn
  · cases hn

theorem Fair.next (hs : Sound s) (hf : Fair s) (hfair : linkFair s a = true)
    (hn : s.next a = some s') : Fair s' := by
  cases a with
  | acquire =>
    simp only [System.next] at hn
    split at hn
    · cases hn
      refine hf.of_runs rfl fun q hq hqlive => ?_
      rcases List.mem_append.mp hq with hq | hq
      · exact Or.inr ⟨q, hq, hqlive, Or.inl rfl⟩
      · rw [List.mem_singleton.mp hq]
        exact Or.inl rfl
    · cases hn
  | step =>
    have hfinal := hf.final hn
    simp only [System.next] at hn
    split at hn
    · cases hn
    · next r hi =>
      split at hn
      · next hcond =>
        obtain ⟨_, hstep, rfl⟩ := Option.map_eq_some_iff.mp hn
        have hsettled : settled s r = true := by simpa [finalOwn, hi] using hfinal
        have hnext := next_of_step hs (List.mem_of_getElem? hi) hcond.1 hsettled hcond.2 hstep
        exact hf.after hs hi hcond.1 hnext hstep hfair
      · cases hn
  | recordNative => exact hf.begins hn rfl
  | release i => exact hf.begins hn rfl
  | die =>
    cases hn
    refine hf.of_runs rfl fun q hq hqlive => Or.inr ⟨q, hq, ?_, Or.inl rfl⟩
    exact fun hdead => hqlive (List.mem_cons_of_mem _ hdead)

theorem fair_of_reachVia (hr : leases.ReachVia (fun s a => linkFair s a) s) :
    Sound s ∧ Fair s := by
  refine Machine.ReachVia.invariant (P := fun s => Sound s ∧ Fair s) ⟨sound_init, fair_init⟩ ?_ hr
  rintro t a _ ⟨hs, hf⟩ hok hn
  exact ⟨hs.next (hf.final hn) hn, hf.next hs hok hn⟩

/-! ### The files of a holder -/

/-- The last call on the lease threw. -/
def Run.failed (r : Run) : Bool :=
  match r.stage with
  | .held _ lease => decide (lease.call = .idle) && lease.failed
  | _ => false

/-- The files are such that no look at them makes a call of the lease throw. -/
structure Undisturbed (d : Directory) (r : Run) (record : OwnerRecord) (lease : Lease) : Prop where
  lock : ∃ f, d.lock = some f ∧ f.inode = lease.owned.inode ∧ f.record.nonce = record.nonce
  claim : d.claim = none
  child : ∀ c, d.child = some c → c.nonce = record.nonce ∧ c.scope = r.scope
  marker : lease.call.unmarked = true → d.marker = false

theorem undisturbed_of_holds (hs : Sound s) (hf : Fair s) (hmem : r ∈ s.runs)
    (hlive : r.host ∉ s.dead) (hst : r.stage = .held record lease) (hholds : r.holds = true) :
    Undisturbed s.dir r record lease := by
  have hr : r.stage.record = some record := by rw [hst]; rfl
  have hrec := hs.recorded r hmem record hr
  obtain ⟨f, hlock, hnonce⟩ := (owns_of_holds hs hmem hlive hst hholds).1
  have hclaim := hf.holder r hmem hlive hholds
  refine ⟨⟨f, hlock, ?_, hnonce⟩, hclaim, fun c hc => ?_, hf.unmarked r hmem hlive record lease hst⟩
  · exact hrec.owned lease.owned (by rw [hst]; rfl) f (mem_files_lock hlock) hnonce
  · rcases hs.child c hc with ⟨_, hf', heq⟩ | ⟨g, hg⟩
    · rw [hlock] at hf'
      cases hf'
      have hown : c.nonce = record.nonce := heq.symm.trans hnonce
      exact ⟨hown, (hrec.child c hc hown).trans hrec.scope⟩
    · rw [hclaim] at hg
      cases hg

/-- No look at the files makes a call throw, and the removal of the lock leaves no path. -/
theorem call_of_undisturbed (hk : KnowsCall s record lease) (hu : Undisturbed s.dir r record lease)
    (hst : r.stage = .held record lease) (hholds : r.holds = true)
    (hstep : r.callStep s.dir record lease .go = some result) :
    result.run.failed = false ∧ (result.run.holds = false → result.dir.lock = none ∧
      result.dir.claim = none ∧ result.dir.child = none ∧ result.dir.marker = false) := by
  obtain ⟨⟨f, hlock, hinode, hnonce⟩, hclaim, hchild, hmarker⟩ := hu
  obtain ⟨_, started, invoked, _, call, _⟩ := lease
  have hread : s.dir.read s.dir.lock = some ⟨f.record, f.inode, s.dir.links f.inode⟩ := by
    rw [hlock]
    rfl
  have hgoes : ∀ {t : Run}, t.holds = r.holds → t.holds = false → result.dir.lock = none ∧
      result.dir.claim = none ∧ result.dir.child = none ∧ result.dir.marker = false := by
    intro t ht hnot
    rw [ht, hholds] at hnot
    cases hnot
  unfold KnowsCall at hk
  obtain ⟨_, _, _⟩ := r
  subst hst
  cases call <;> simp only [Run.callStep, reduceCtorEq] at hstep <;> simp only at hk hinode
  case recordLock =>
    rw [hread] at hstep
    simp only [sameInode, hinode, hnonce, decide_true, Bool.and_self, if_true] at hstep
    cases hstep
    exact ⟨rfl, hgoes rfl⟩
  case recordClaim =>
    rw [hclaim] at hstep
    cases hstep
    exact ⟨rfl, hgoes rfl⟩
  case recordPrior =>
    split at hstep
    · cases hstep
      exact ⟨rfl, hgoes rfl⟩
    · next prior hprior =>
      rw [if_pos (hchild prior hprior)] at hstep
      cases hstep
      exact ⟨rfl, hgoes rfl⟩
  case rename =>
    cases hstep
    exact ⟨rfl, hgoes rfl⟩
  case readBack =>
    rw [hk.2.2] at hstep
    simp only [and_self, if_true] at hstep
    cases hstep
    exact ⟨rfl, hgoes rfl⟩
  case releaseLock =>
    split at hstep <;> cases hstep
    · exact ⟨rfl, hgoes rfl⟩
    · exact ⟨rfl, hgoes rfl⟩
  case releaseClaim =>
    cases started
    · obtain ⟨-, c, rfl, hcnonce, hcinode⟩ := hk
      simp only [sameInode, hcinode, hcnonce, hclaim, Option.isNone_some, Bool.not_false,
        Bool.and_false, Option.any_some, decide_true, Bool.not_true, ne_eq, not_true_eq_false,
        decide_false, Bool.or_self, Option.isSome_none, Bool.false_eq_true, if_false] at hstep
      cases hstep
      exact ⟨rfl, hgoes rfl⟩
    · cases hholds
  case releaseChild =>
    split at hstep
    · cases hstep
      exact ⟨rfl, hgoes rfl⟩
    · next native hnative =>
      rw [if_pos (hchild native hnative).1] at hstep
      cases hstep
      exact ⟨rfl, hgoes rfl⟩
  case removeMarker native =>
    cases hstep
    cases native
    · exact ⟨rfl, fun h => by cases h⟩
    · exact ⟨rfl, hgoes rfl⟩
  case unlinkNative =>
    rw [hk.2.2.2] at hstep
    cases hstep
    exact ⟨rfl, fun h => by cases h⟩
  case unlinkOwner =>
    rw [hlock] at hstep
    cases hstep
    refine ⟨?_, fun _ => ⟨rfl, hclaim, hk.2.2, hmarker rfl⟩⟩
    cases invoked <;> rfl
  -- the lock has been removed
  case seeLock | seeMarker | seeChild | seeClaim =>
    obtain ⟨rfl, -⟩ := hk
    cases hholds

theorem claimed_of_unfair (hn : s.next a = some s') (hunfair : linkFair s a = false) :
    ∃ q ∈ s'.runs, q.host ∉ s'.dead ∧ q.holds = true ∧ s'.dir.claim ≠ none := by
  cases a with
  | step i answer =>
    simp only [System.next] at hn
    split at hn
    · cases hn
    next hi =>
    split at hn
    · next =>
      obtain ⟨result, hstep, rfl⟩ := Option.map_eq_some_iff.mp hn
      simp only [linkFair, hi] at hunfair
      split at hunfair
      · next f hr hlock hclaim =>
        cases hr
        split at hunfair
        · next hst =>
          obtain ⟨q, hq, hfails⟩ := List.all_eq_false.mp hunfair
          simp only [Bool.or_eq_true, decide_eq_true_eq, Bool.not_eq_true', not_or,
            Bool.not_eq_false] at hfails
          obtain ⟨⟨hqlive, hholds⟩, -⟩ := hfails
          obtain ⟨j, hj⟩ := List.mem_iff_getElem?.mp hq
          have hne : i ≠ j := by
            rintro rfl
            rw [hi] at hj
            cases hj
            simp [Run.holds, hst] at hholds
          refine ⟨q, List.mem_of_getElem? ((List.getElem?_set_ne hne).trans hj), hqlive, hholds, ?_⟩
          have hresult : result.dir.claim = some f := by
            cases answer <;> simp only [Run.step, hst, reduceCtorEq] at hstep
            rw [hlock, hclaim] at hstep
            cases hstep
            rfl
          rw [hresult]
          exact Option.some_ne_none f
        · cases hunfair
      · cases hunfair
    · cases hn
  | _ => cases hunfair

/-- **No file makes a call of a live holder throw**, and the removal of its lock leaves no path, in
every run where links are fair; and a step leaves every live holder undisturbed exactly where it is
fair. -/
theorem undisturbed_of_reachVia (hr : leases.ReachVia (fun s a => linkFair s a) s) :
    (∀ r ∈ s.runs, r.host ∉ s.dead → r.holds = true → ∀ result,
      r.step s.dir .go = some result → result.run.failed = false ∧
        (result.run.holds = false → result.dir.lock = none ∧ result.dir.claim = none ∧
          result.dir.child = none ∧ result.dir.marker = false)) ∧
    ∀ a s', s.next a = some s' → (linkFair s a = true ↔ ∀ r ∈ s'.runs, r.host ∉ s'.dead →
      r.holds = true → ∀ record lease, r.stage = .held record lease →
        Undisturbed s'.dir r record lease) := by
  obtain ⟨hs, hf⟩ := fair_of_reachVia hr
  refine ⟨?_, fun a s' hn => ⟨fun hfair => ?_, fun hall => ?_⟩⟩
  · intro r hmem hlive hholds result hstep
    obtain ⟨record, lease, hst⟩ := held_of_holds hholds
    have hk : KnowsCall s record lease := by
      have := hs.knows r hmem hlive
      rwa [hst] at this
    have hcall : r.callStep s.dir record lease .go = some result := by
      simpa only [Run.step, hst] using hstep
    exact call_of_undisturbed hk (undisturbed_of_holds hs hf hmem hlive hst hholds) hst hholds hcall
  · intro r hmem hlive hholds record lease hst
    have hs' := hs.next (hf.final hn) hn
    exact undisturbed_of_holds hs' (hf.next hs hfair hn) hmem hlive hst hholds
  · by_contra hnot
    obtain ⟨q, hq, hlive, hholds, hclaim⟩ := claimed_of_unfair hn (Bool.eq_false_iff.mpr hnot)
    obtain ⟨record, lease, hst⟩ := held_of_holds hholds
    exact hclaim (hall q hq hlive hholds record lease hst).claim

theorem undisturbed_of_reachVia_recoverActions :
    ∃ s : System, leases.ReachVia (fun s a => linkFair s a) s ∧
      ∃ r ∈ s.runs, r.host ∉ s.dead ∧ r.holds = true ∧
        ∀ a s', s.next a = some s' → (linkFair s a = true ↔ ∀ r ∈ s'.runs, r.host ∉ s'.dead →
          r.holds = true → ∀ record lease, r.stage = .held record lease →
            Undisturbed s'.dir r record lease) := by
  obtain ⟨s, hs, hp⟩ := Machine.exists_reachVia_of_run (M := leases) linkFair recoverActions
    (fun s => s.runs.any fun r => decide (r.host ∉ s.dead ∧ r.holds = true)) (by decide +kernel)
  obtain ⟨r, hr, hp⟩ := List.any_eq_true.mp hp
  obtain ⟨hlive, hholds⟩ := of_decide_eq_true hp
  exact ⟨s, hs, r, hr, hlive, hholds, (undisturbed_of_reachVia hs).2⟩

/-- The recoverer that had stopped links its claim onto the lock of the other, and throws. -/
def loserActions : List Action := recoverActions ++ looks 1 4

/-- The runs below, in parts. -/
def recordActions : List Action := [.recordNative 2 7, .step 2 (.liveness .live)] ++ looks 2 2

def releaseActions : List Action := [.release 2] ++ looks 2 2

/-- The holder lives, and can neither record a native child nor release. -/
theorem undisturbed_of_reachVia_loserActions :
    ∃ s : System, leases.Reachable s ∧ ∃ q ∈ s.runs, ∃ r ∈ s.runs,
      (q.stage = .threw ∧ r.host ∉ s.dead ∧ r.host ≠ q.host ∧ r.holds = true) ∧
      ∀ actions ∈ [recordActions, releaseActions], ∃ t, leases.run s actions = some t ∧
        ∃ r' ∈ t.runs, r'.host = r.host ∧ r'.failed = true := by
  obtain ⟨s, hs, hp⟩ := Machine.exists_reachable_of_run (M := leases) loserActions
    (fun s => s.runs.any fun q => s.runs.any fun r =>
      decide (q.stage = .threw ∧ r.host ∉ s.dead ∧ r.host ≠ q.host ∧ r.holds = true) &&
      [recordActions, releaseActions].all fun actions => (leases.run s actions).any fun t =>
        t.runs.any fun r' => decide (r'.host = r.host ∧ r'.failed = true)) (by decide +kernel)
  obtain ⟨q, hq, hp⟩ := List.any_eq_true.mp hp
  obtain ⟨r, hr, hp⟩ := List.any_eq_true.mp hp
  rw [Bool.and_eq_true] at hp
  refine ⟨s, hs, q, hq, r, hr, of_decide_eq_true hp.1, fun actions hactions => ?_⟩
  obtain ⟨t, ht, hp⟩ := (Option.any_eq_true _ _).mp (List.all_eq_true.mp hp.2 actions hactions)
  obtain ⟨r', hr', hp⟩ := List.any_eq_true.mp hp
  exact ⟨t, ht, r', hr', of_decide_eq_true hp⟩

end Takoserver.Actor
