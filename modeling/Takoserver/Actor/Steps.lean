import Takoserver.Actor.Knowledge

/-!
# The steps of attempts

A step of one attempt leaves what another knows; and what it does to the directory is one of the
effects, after which the attempt knows what its next stage says.
-/

namespace Takoserver.Actor

variable {s s' : System} {d' : Directory} {r other : Run} {born : Option (String × Process)}
variable {record : OwnerRecord} {minted : List String}

/-! ### The steps of others -/

theorem AllDead.kept (hn : s'.natives = s.natives ++ born.toList) (hd : s'.dead = s.dead)
    (hnone : born = none) (h : AllDead s) : AllDead s' := by
  intro n hmem
  rw [hn, hnone, Option.toList_none, List.append_nil] at hmem
  rw [hd]
  exact h n hmem

section Others

variable (h : Effect s other minted s'.dir born) (hn : s'.natives = s.natives ++ born.toList)
  (hd : s'.dead = s.dead) (hs : Sound s) (hmem : r ∈ s.runs) (ha : Apart s r other)

include h hn hd hs hmem ha

/-- The steps of others leave what a lease knows. -/
theorem KnowsCall.kept {lease : Lease} (hst : r.stage = .held record lease)
    (hk : KnowsCall s record lease) : KnowsCall s' record lease := by
  have hr : r.stage.record = some record := by rw [hst]; rfl
  have hholds : Holds s.dir record → Holds s'.dir record := h.holds_kept hs hmem ha hr
  have hlost : Lost s.dir record → Lost s'.dir record := h.lost_kept ha hr
  have hchild : Holds s.dir record → s'.dir.child = s.dir.child :=
    fun ho => (h.child_kept ha hr ho.1).1
  have hdead : Holds s.dir record → AllDead s → AllDead s' :=
    fun ho => AllDead.kept hn hd (h.child_kept ha hr ho.1).2
  unfold KnowsCall at hk ⊢
  cases hcall : lease.call <;> rw [hcall] at hk <;> simp only at hk ⊢
  case idle | testSelf | recordLock | releaseLock =>
    unfold KnowsLease at hk ⊢
    split
    · next hstarted =>
      rw [if_pos hstarted] at hk
      exact hlost hk
    · next hstarted =>
      rw [if_neg hstarted] at hk
      exact hholds hk
  case recordClaim | recordPrior | releaseChild => exact ⟨hk.1, hholds hk.2⟩
  case testPrior | readBack | testNative =>
    obtain ⟨hstarted, ho, hc⟩ := hk
    exact ⟨hstarted, hholds ho, (hchild ho).trans hc⟩
  case rename =>
    obtain ⟨hstarted, ho, hall⟩ := hk
    exact ⟨hstarted, hholds ho, hdead ho hall⟩
  case releaseClaim =>
    split
    · next hstarted =>
      rw [if_pos hstarted] at hk
      exact ⟨hlost hk.1, hk.2⟩
    · next hstarted =>
      rw [if_neg hstarted] at hk
      exact ⟨hholds hk.1, hk.2⟩
  case removeMarker | unlinkNative =>
    obtain ⟨hstarted, ho, hall, hc⟩ := hk
    exact ⟨hstarted, hholds ho, hdead ho hall, by rw [hchild ho]; exact hc⟩
  case unlinkOwner =>
    obtain ⟨hstarted, ho, hc⟩ := hk
    exact ⟨hstarted, hholds ho, (hchild ho).trans hc⟩
  case hook | seeLock | seeMarker | seeChild | seeClaim => exact ⟨hk.1, hlost hk.2⟩

/-- **The steps of others leave what an attempt knows.** -/
theorem Knows.kept (hk : Knows s r.stage) : Knows s' r.stage := by
  have hpins : r.stage.claimed = true → ∀ {g}, s.dir.claim = some g → s'.dir.claim = some g :=
    fun hc {g} => h.claim_kept ha hc
  have hclaimed : r.stage.claimed = true → Claimed s.dir → Claimed s'.dir := h.claimed_kept ha
  have howns : ∀ {b}, r.stage.claimed = true → r.stage.record = some b → Owns s.dir b →
      Owns s'.dir b := fun hc hr ho => h.owns_kept hs hmem ha hr ho (Or.inl hc)
  cases hst : r.stage <;> rw [hst] at hk hpins hclaimed howns <;>
    simp only [Knows] at hk ⊢
  case readPinned => exact hclaimed rfl hk
  case readCurrent | readChildAgain | testHostAgain =>
    obtain ⟨g, hg, hrest⟩ := hk
    exact ⟨g, hpins rfl hg, hrest⟩
  case testChildAgain | unlinkLock =>
    obtain ⟨g, hg, hdead⟩ := hk
    exact ⟨g, hpins rfl hg, by rw [hd]; exact hdead⟩
  case create => exact fun hp => hclaimed hp (hk hp)
  case publish file =>
    have hr : r.stage.record = some file.record := by rw [hst]; rfl
    exact ⟨h.temporary_kept ha hr hk.1, fun hp => hclaimed hp (hk.2 hp)⟩
  case dropTemporary =>
    exact fun hp => ⟨hclaimed hp (hk hp).1, fun hl => howns hp rfl ((hk hp).2 hl)⟩
  case readOwned | lookMarker | makeMarker | readClaim =>
    exact fun hp => ⟨hclaimed hp (hk hp).1, howns hp rfl (hk hp).2⟩
  case readOldChild => exact ⟨hclaimed rfl hk.1, howns rfl rfl hk.2⟩
  case testOldChild b _ _ =>
    have hr : r.stage.record = some b := by rw [hst]; rfl
    exact ⟨hclaimed rfl hk.1, howns rfl rfl hk.2.1,
      (h.child_kept ha hr hk.2.1).1.trans hk.2.2⟩
  case unlinkChild b _ =>
    have hr : r.stage.record = some b := by rw [hst]; rfl
    exact ⟨hclaimed rfl hk.1, howns rfl rfl hk.2.1,
      AllDead.kept hn hd (h.child_kept ha hr hk.2.1).2 hk.2.2⟩
  case unlinkClaim b _ =>
    have hr : r.stage.record = some b := by rw [hst]; rfl
    exact ⟨hclaimed rfl hk.1, howns rfl rfl hk.2.1,
      (h.child_kept ha hr hk.2.1).1.trans hk.2.2⟩
  case readFinal b _ =>
    have hr : r.stage.record = some b := by rw [hst]; rfl
    exact h.pins_kept ha hr hk
  case lastClaim b _ _ =>
    have hr : r.stage.record = some b := by rw [hst]; rfl
    exact fun hany => h.holds_kept hs hmem ha hr (hk hany)
  case held => exact KnowsCall.kept h hn hd hs hmem ha hst hk

end Others

/-! ### Own steps -/

theorem Knows.congr {t : System} {stage : Stage} (hdir : s'.dir = t.dir)
    (hn : s'.natives = t.natives) (hd : s'.dead = t.dead) (h : Knows t stage) :
    Knows s' stage := by
  obtain ⟨_, _, _, _, _⟩ := s'
  obtain ⟨_, _, _, _, _⟩ := t
  subst hdir hn hd
  cases stage <;> exact h

/-- The stage goes on from another with no new record, lock or claim. -/
structure Stage.Follows (a b : Stage) : Prop where
  record : ∀ record, b.record = some record → a.record = some record
  owned : ∀ owned, b.owned = some owned → a.owned = some owned
  claimed : b.claimed = true → a.claimed = true
  held : ∀ record lease, a = .held record lease → ∃ lease', b = .held record lease'

theorem not_held {a b : Stage} (hnot : ∀ record lease, a ≠ .held record lease) :
    ∀ record lease, a = .held record lease → ∃ lease', b = .held record lease' :=
  fun record lease h => absurd h (hnot record lease)

theorem Stage.Follows.of_eq {a b : Stage} (hnot : ∀ record lease, a ≠ .held record lease)
    (hr : b.record = a.record) (ho : b.owned = a.owned) (hc : b.claimed = a.claimed) :
    a.Follows b :=
  ⟨fun _ h => hr ▸ h, fun _ h => ho ▸ h, fun h => hc ▸ h, not_held hnot⟩

/-- What a step of an attempt does, and what the attempt knows then. -/
structure Next (s : System) (r : Run) (answer : Answer) (result : Result) : Prop where
  effect : Effect s r (s.drawn answer) result.dir result.native
  scope : result.run.scope = r.scope
  host : result.run.host = r.host
  /-- A new record is that of the file the step creates. -/
  record : ∀ record, result.run.stage.record = some record → r.stage.record = some record ∨
    ((∃ inode, answer = .file inode record.nonce) ∧ record.host = r.host ∧
      record.scope = r.scope ∧ result.run.stage.owned = none ∧
      ∀ f ∈ result.dir.files, f ∈ s.dir.files ∨ f.record = record)
  owned : ∀ owned, result.run.stage.owned = some owned → r.stage.owned = some owned ∨
    ∃ record f, r.stage.record = some record ∧ s.dir.lock = some f ∧
      f.record.nonce = record.nonce ∧ owned.inode = f.inode
  claimed : result.run.stage.claimed = true → r.stage.claimed = true ∨ s.dir.claim = none
  held : ∀ record lease, r.stage = .held record lease →
    ∃ lease', result.run.stage = .held record lease'
  knows : ∀ s' : System, s'.dir = result.dir → s'.natives = s.natives ++ result.native.toList →
    s'.dead = s.dead → Knows s' result.run.stage

section Own

variable {answer : Answer} {stage : Stage} {d : Directory} {result : Result}

theorem next_of_follows (hf : r.stage.Follows stage) (he : Effect s r (s.drawn answer) d none)
    (hk : Knows { s with dir := d } stage) : Next s r answer ⟨{ r with stage }, d, none⟩ where
  effect := he
  scope := rfl
  host := rfl
  record := fun record h => Or.inl (hf.record record h)
  owned := fun owned h => Or.inl (hf.owned owned h)
  claimed := fun h => Or.inl (hf.claimed h)
  held := hf.held
  knows := by
    intro s' hdir hn hd
    rw [Option.toList_none, List.append_nil] at hn
    have ht : Knows { s with dir := d } stage := hk
    exact Knows.congr (t := { s with dir := d }) hdir hn hd ht

/-- A step that only looks. -/
theorem next_of_look (hf : r.stage.Follows stage) (hk : Knows s stage) :
    Next s r answer ⟨{ r with stage }, s.dir, none⟩ :=
  next_of_follows hf .quiet hk

theorem next_of_throws (hnot : ∀ record lease, r.stage ≠ .held record lease) :
    Next s r answer ⟨{ r with stage := .threw }, s.dir, none⟩ := by
  refine next_of_look ⟨?_, ?_, ?_, not_held hnot⟩ trivial
  · rintro _ ⟨⟩
  · rintro _ ⟨⟩
  · rintro ⟨⟩

theorem allDead_of_none (hs : Sound s) (hc : s.dir.child = none) : AllDead s := by
  intro n hmem
  by_contra hlive
  obtain ⟨c, hchild, -⟩ := hs.natives n hmem hlive
  rw [hc] at hchild
  cases hchild

theorem allDead_of_stale (hs : Sound s) {c : ChildRecord} (hc : s.dir.child = some c)
    (hdead : c.child ∈ s.dead) : AllDead s := by
  intro n hmem
  by_contra hlive
  obtain ⟨_, hchild, -, heq⟩ := hs.natives n hmem hlive
  rw [hc] at hchild
  cases hchild
  exact hlive (heq ▸ hdead)

theorem dead_of_stale {p : Process} (hadm : s.admits r (.liveness .stale) = true)
    (hp : r.tested = some p) : p ∈ s.dead := by
  simpa [System.admits, hp] using hadm

theorem mem_files_lock {f : File} (h : d.lock = some f) : f ∈ d.files := by
  simp [Directory.files, h]

theorem mem_files_claim {f : File} (h : d.claim = some f) : f ∈ d.files := by
  simp [Directory.files, h]

end Own

/-! ### The steps of an attempt -/

/-- Where the attempt is about to return its lease, the lock that it last read has its nonce, and
not only the inode of its lock. -/
def settled (s : System) (r : Run) : Bool :=
  match r.stage with
  | .lastClaim record owned finalLock =>
      s.dir.claim.isSome ||
        finalLock.all fun c => !sameInode owned c || decide (c.value.nonce = record.nonce)
  | _ => true

section Equations

-- made here once, and not by all the proofs at a time that unfold them
attribute [local simp] Run.step Run.callStep Knows

end Equations

section Attempts

variable {result : Result} (hs : Sound s) (hmem : r ∈ s.runs) (hlive : r.host ∉ s.dead)

include hs hmem hlive

/-- A step of an attempt that no answer decides. -/
theorem next_of_go (hnot : ∀ record lease, r.stage ≠ .held record lease) (hok : settled s r = true)
    (hstep : r.step s.dir .go = some result) : Next s r .go result := by
  have hk := hs.knows r hmem hlive
  have hthrows : Next s r .go ⟨{ r with stage := .threw }, s.dir, none⟩ := next_of_throws hnot
  obtain ⟨scope, host, stage⟩ := r
  -- a stage that looks moves on or throws; the others change one file
  cases stage <;> simp only [Run.step, reduceCtorEq] at hstep <;> simp only [Knows] at hk
  case checkClaim =>
    split at hstep <;> cases hstep
    · exact hthrows
    · exact next_of_look (.of_eq hnot rfl rfl rfl) trivial
  case readLock =>
    split at hstep
    · cases hstep
      exact next_of_look (.of_eq hnot rfl rfl rfl) trivial
    · split at hstep <;> cases hstep
      · exact next_of_look (.of_eq hnot rfl rfl rfl) trivial
      · exact hthrows
  case checkMarker =>
    split at hstep <;> cases hstep
    · exact hthrows
    · exact next_of_look (.of_eq hnot rfl rfl rfl) trivial
  case checkChild =>
    split at hstep <;> cases hstep
    · exact hthrows
    · exact next_of_look (.of_eq hnot rfl rfl rfl) nofun
  case readChild =>
    split at hstep
    · cases hstep
      exact next_of_look (.of_eq hnot rfl rfl rfl) trivial
    · split at hstep <;> cases hstep
      · exact next_of_look (.of_eq hnot rfl rfl rfl) trivial
      · exact hthrows
  case linkClaim previous =>
    split at hstep
    · next f hlock hclaim =>
      cases hstep
      exact
        { effect := .claims previous rfl f hlock hclaim
          scope := rfl
          host := rfl
          record := fun _ h => Or.inl h
          owned := fun _ h => Or.inl h
          claimed := fun _ => Or.inr hclaim
          held := not_held hnot
          knows := fun s' hdir _ _ => ⟨f, by rw [hdir]⟩ }
    · cases hstep
      exact hthrows
  case readPinned =>
    cases hstep
    obtain ⟨g, hg⟩ := hk
    refine next_of_look (.of_eq hnot rfl rfl rfl) ⟨g, hg, ?_⟩
    exact ⟨⟨g.record, g.inode, s.dir.links g.inode⟩, by rw [hg]; rfl, rfl, rfl⟩
  case readCurrent =>
    cases hstep
    obtain ⟨g, hg, hreads⟩ := hk
    refine next_of_look (.of_eq hnot rfl rfl rfl) ⟨g, hg, hreads, ?_⟩
    intro c hc hinode
    obtain ⟨f, hf, rfl⟩ := Option.map_eq_some_iff.mp hc
    exact congrArg File.record
      (hs.inodes f (mem_files_lock hf) g (mem_files_claim hg) hinode)
  case readChildAgain =>
    split at hstep
    · next c =>
      split at hstep <;> cases hstep
      · next hsame =>
        obtain ⟨g, hg, ⟨_, hp, hinode, -⟩, hcurrent⟩ := hk
        cases hp
        simp only [sameInode, Bool.and_eq_true, decide_eq_true_eq] at hsame
        refine next_of_look (.of_eq hnot rfl rfl rfl) ⟨g, hg, ?_⟩
        exact hcurrent c rfl (hsame.1.2.symm.trans (hsame.1.1.trans hinode))
      · exact hthrows
    · cases hstep
      exact hthrows
  case unlinkLock previous =>
    split at hstep <;> cases hstep
    · obtain ⟨g, hg, hdead⟩ := hk
      exact next_of_follows (.of_eq hnot rfl rfl rfl)
        (.clears previous rfl g hg hdead) fun _ => ⟨g, hg⟩
    · exact hthrows
  case publish file =>
    split at hstep <;> cases hstep
    · exact next_of_look (.of_eq hnot rfl rfl rfl)
        fun hp => ⟨hk.2 hp, nofun⟩
    · next hlock =>
      refine next_of_follows (.of_eq hnot rfl rfl rfl)
        (.publishes file (by simpa using hlock) hk.1 rfl) fun hp => ⟨hk.2 hp, fun _ => ?_⟩
      exact ⟨file, rfl, rfl⟩
  case dropTemporary file linked =>
    cases hstep
    cases linked
    · refine next_of_follows ⟨?_, ?_, ?_, not_held hnot⟩ (.drops file rfl) trivial
      · rintro _ ⟨⟩
      · rintro _ ⟨⟩
      · rintro ⟨⟩
    · exact next_of_follows (.of_eq hnot rfl rfl rfl) (.drops file rfl)
        fun hp => ⟨(hk hp).1, (hk hp).2 rfl⟩
  case readOwned previous record =>
    split at hstep
    · cases hstep
      exact hthrows
    next owned hread =>
    split at hstep
    · next hnonce =>
      obtain ⟨f, hf, rfl⟩ := Option.map_eq_some_iff.mp hread
      cases hstep
      have howned : ∀ stage : Stage, stage.owned = some ⟨f.record, f.inode, s.dir.links f.inode⟩ →
          ∀ o, stage.owned = some o → o.inode = f.inode := by
        intro stage h o ho
        rw [h] at ho
        cases ho
        rfl
      exact
        { effect := .quiet
          scope := rfl
          host := rfl
          record := by cases previous <;> exact fun _ h => Or.inl h
          owned := by
            cases previous <;>
              exact fun o h => Or.inr ⟨record, f, rfl, hf, hnonce, howned _ rfl o h⟩
          claimed := by cases previous <;> exact fun h => Or.inl h
          held := not_held hnot
          knows := by
            intro s' hdir _ _
            cases previous with
            | none => trivial
            | some =>
              intro hp
              rw [hdir]
              exact hk hp }
    · cases hstep
      exact hthrows
  case lookClaim =>
    split at hstep <;> cases hstep
    · exact hthrows
    · exact next_of_look (.of_eq hnot rfl rfl rfl) nofun
  case lookMarker =>
    cases hstep
    cases s.dir.marker
    · exact next_of_look (.of_eq hnot rfl rfl rfl) hk
    · exact next_of_look (.of_eq hnot rfl rfl rfl) hk
  case makeMarker previous record owned =>
    split at hstep <;> cases hstep
    · exact hthrows
    · exact next_of_follows (.of_eq hnot rfl rfl rfl)
        (.marks true fun _ => ⟨previous, record, owned, rfl⟩) hk
  case readClaim =>
    split at hstep
    · next =>
      split at hstep <;> cases hstep
      · exact next_of_look ⟨fun _ h => h, fun _ h => h, fun _ => rfl, not_held hnot⟩ (hk rfl)
      · exact hthrows
    · cases hstep
      exact hthrows
    · cases hstep
      exact hthrows
    · next hread =>
      cases hstep
      refine next_of_look ⟨fun _ h => h, fun _ h => h, nofun, not_held hnot⟩ fun _ g hg => ?_
      rw [Option.map_eq_none_iff.mp hread] at hg
      cases hg
  case readOldChild =>
    split at hstep
    · next hchild =>
      cases hstep
      exact next_of_look (.of_eq hnot rfl rfl rfl) ⟨hk.1, hk.2, hchild⟩
    · next hchild =>
      split at hstep <;> cases hstep
      · exact next_of_look (.of_eq hnot rfl rfl rfl) ⟨hk.1, hk.2, hchild⟩
      · exact hthrows
  case unlinkChild record _ =>
    split at hstep <;> cases hstep
    · exact next_of_follows (.of_eq hnot rfl rfl rfl)
        (.forgets record rfl hk.2.1 hk.2.2) ⟨hk.1, hk.2.1, rfl⟩
    · exact hthrows
  case unlinkClaim record _ =>
    split at hstep <;> cases hstep
    · exact next_of_follows ⟨fun _ h => h, fun _ h => h, nofun, not_held hnot⟩
        (.unclaims record rfl rfl hk.2.1 hk.2.2) fun _ g hg => nomatch hg
    · exact hthrows
  case readFinal record _ =>
    cases hstep
    refine next_of_look (.of_eq hnot rfl rfl rfl) ?_
    rintro ⟨c, hread, hnonce⟩
    obtain ⟨f, hf, rfl⟩ := Option.map_eq_some_iff.mp hread
    have howns : Owns s.dir record := ⟨f, hf, hnonce⟩
    exact ⟨howns, hk howns⟩
  case lastClaim record _ _ =>
    split at hstep <;> cases hstep
    · next hfinal =>
      rw [Bool.and_eq_true, Option.isNone_iff_eq_none] at hfinal
      obtain ⟨c, hc, hsame⟩ := (Option.any_eq_true _ _).mp hfinal.2
      have hnonce : c.value.nonce = record.nonce := by
        simpa [settled, hfinal.1, hc, hsame] using hok
      refine next_of_look (.of_eq hnot rfl rfl rfl) ?_
      exact hk ⟨c, hc, hnonce⟩
    · exact hthrows
  case held record lease => exact absurd rfl (hnot record lease)

theorem next_of_liveness {l : Liveness} (hnot : ∀ record lease, r.stage ≠ .held record lease)
    (hadm : s.admits r (.liveness l) = true) (hstep : r.step s.dir (.liveness l) = some result) :
    Next s r (.liveness l) result := by
  have hk := hs.knows r hmem hlive
  have hthrows : Next s r (.liveness l) ⟨{ r with stage := .threw }, s.dir, none⟩ :=
    next_of_throws hnot
  obtain ⟨_, host, stage⟩ := r
  cases stage <;> simp only [Run.step, reduceCtorEq] at hstep <;> simp only [Knows] at hk
  case testHost previous | testChild previous oldChild =>
    split at hstep <;> cases hstep
    · exact next_of_look (.of_eq hnot rfl rfl rfl) trivial
    · exact hthrows
  case testHostAgain =>
    split at hstep
    · next hstale =>
      subst hstale
      obtain ⟨g, hg, hvalue⟩ := hk
      have hdead : g.record.host ∈ s.dead := by
        rw [← hvalue]
        exact dead_of_stale hadm rfl
      split at hstep
      · cases hstep
        exact next_of_look (.of_eq hnot rfl rfl rfl) ⟨g, hg, hdead⟩
      · split at hstep <;> cases hstep
        · exact next_of_look (.of_eq hnot rfl rfl rfl) ⟨g, hg, hdead⟩
        · exact hthrows
    · cases hstep
      exact hthrows
  case testChildAgain =>
    split at hstep <;> cases hstep
    · exact next_of_look (.of_eq hnot rfl rfl rfl) hk
    · exact hthrows
  case testOldChild =>
    split at hstep
    · next hstale =>
      subst hstale
      cases hstep
      refine next_of_look (.of_eq hnot rfl rfl rfl) ⟨hk.1, hk.2.1, ?_⟩
      exact allDead_of_stale hs hk.2.2 (dead_of_stale hadm rfl)
    · cases hstep
      exact hthrows
  case held record lease => exact absurd rfl (hnot record lease)

theorem next_of_file {inode : Inode} {nonce : String}
    (hnot : ∀ record lease, r.stage ≠ .held record lease)
    (hadm : s.admits r (.file inode nonce) = true)
    (hstep : r.step s.dir (.file inode nonce) = some result) :
    Next s r (.file inode nonce) result := by
  have hk := hs.knows r hmem hlive
  have hfresh : nonce ∉ s.nonces := by simpa [System.admits] using hadm
  obtain ⟨scope, host, stage⟩ := r
  cases stage <;> simp only [Run.step, reduceCtorEq] at hstep <;> simp only [Knows] at hk
  case create =>
    split at hstep
    · next hall =>
      cases hstep
      have hinode : ∀ f ∈ s.dir.files, f.inode ≠ inode := by simpa using hall
      exact
        { effect := .creates ⟨inode, ⟨nonce, scope, host⟩⟩ hinode hfresh
            (List.mem_cons_self ..)
          scope := rfl
          host := rfl
          record := by
            rintro _ ⟨⟩
            refine Or.inr ⟨⟨inode, rfl⟩, rfl, rfl, rfl, fun f hf => ?_⟩
            simp only [Directory.files, List.mem_append, List.mem_singleton] at hf ⊢
            rcases hf with hf | hf | rfl
            · exact Or.inl (Or.inl hf)
            · exact Or.inl (Or.inr hf)
            · exact Or.inr rfl
          owned := nofun
          claimed := fun h => Or.inl h
          held := not_held hnot
          knows := by
            intro s' hdir _ _
            refine ⟨?_, fun hp => ?_⟩
            · rw [hdir]
              exact List.mem_append_right _ (List.mem_singleton_self _)
            · rw [hdir]
              exact hk hp }
    · cases hstep
  case held record lease => exact absurd rfl (hnot record lease)

end Attempts

/-! ### The steps of a call -/

theorem KnowsLease.of_started {lease : Lease} (h : lease.releaseStarted = true)
    (hl : Lost s.dir record) : KnowsLease s record lease := by
  rw [KnowsLease, if_pos h]
  exact hl

theorem KnowsLease.of_holds {lease : Lease} (h : lease.releaseStarted = false)
    (ho : Holds s.dir record) : KnowsLease s record lease := by
  rw [KnowsLease, if_neg (by rw [h]; exact Bool.false_ne_true)]
  exact ho

theorem KnowsCall.between {lease : Lease} (hnot : lease.call ≠ .unlinkOwner)
    (hk : KnowsCall s record lease) : KnowsLease s record lease := by
  unfold KnowsCall at hk
  cases hcall : lease.call <;> rw [hcall] at hk <;> simp only at hk
  case idle | testSelf | recordLock | releaseLock => exact hk
  case recordClaim | recordPrior | releaseChild => exact .of_holds hk.1 hk.2
  case testPrior | readBack | testNative | rename | removeMarker | unlinkNative =>
    exact .of_holds hk.1 hk.2.1
  case releaseClaim =>
    split at hk
    · next h => exact .of_started h hk.1
    · next h => exact .of_holds (Bool.eq_false_iff.mpr h) hk.1
  case unlinkOwner => exact absurd hcall hnot
  case hook | seeLock | seeMarker | seeChild | seeClaim => exact .of_started hk.1 hk.2

section Calls

variable {result : Result} {lease : Lease} {answer : Answer}

theorem next_of_calls {lease' : Lease} (hst : r.stage = .held record lease) {d : Directory}
    (he : Effect s r (s.drawn answer) d none)
    (hk : lease'.owned = lease.owned ∧ KnowsCall { s with dir := d } record lease') :
    Next s r answer ⟨{ r with stage := .held record lease' }, d, none⟩ := by
  obtain ⟨howned, hk⟩ := hk
  refine next_of_follows ⟨?_, ?_, nofun, ?_⟩ he hk
  · rw [hst]
    exact fun _ h => h
  · intro owned h
    rw [hst]
    exact (congrArg some howned.symm).trans h
  · rw [hst]
    rintro _ _ ⟨⟩
    exact ⟨lease', rfl⟩

variable (hs : Sound s) (hmem : r ∈ s.runs) (hlive : r.host ∉ s.dead)
  (hst : r.stage = .held record lease)

include hs hmem hlive hst

/-- A step of `recordNative` or `release` that no answer decides. -/
theorem next_of_call_go (hstep : r.callStep s.dir record lease .go = some result) :
    Next s r .go result := by
  have hr : r.stage.record = some record := by rw [hst]; rfl
  have hrec := hs.recorded r hmem record hr
  have hk : KnowsCall s record lease := by
    have := hs.knows r hmem hlive
    rwa [hst] at this
  have hends : lease.call ≠ .unlinkOwner → ∀ failed, Next s r .go
      ⟨{ r with stage := .held record { lease with call := .idle, failed } }, s.dir, none⟩ := by
    intro hnot failed
    have hbetween : KnowsLease s record lease := hk.between hnot
    exact next_of_calls hst .quiet ⟨rfl, hbetween⟩
  have hafter : ∀ d : Directory, Effect s r s.nonces d none → Lost d record →
      lease.releaseStarted = true → Next s r .go
        ⟨{ r with stage := .held record { lease with
            call := if lease.releaseHookInvoked then .seeLock else .hook
            releaseHookInvoked := true } }, d, none⟩ := by
    intro d he hl hstarted
    refine next_of_calls hst he ⟨rfl, ?_⟩
    cases lease.releaseHookInvoked
    · exact ⟨hstarted, hl⟩
    · exact ⟨hstarted, hl⟩
  obtain ⟨owned, started, _, _, call, _⟩ := lease
  unfold KnowsCall at hk
  cases call <;> simp only [Run.callStep, reduceCtorEq] at hstep <;> simp only at hk
  case recordLock =>
    split at hstep
    · cases hstep
      exact hends nofun true
    next hread =>
    split at hstep <;> cases hstep
    · next hsame =>
      obtain ⟨f, hf, rfl⟩ := Option.map_eq_some_iff.mp hread
      rw [Bool.and_eq_true, decide_eq_true_eq] at hsame
      -- a lock of the lease's own is not lost
      cases started
      · exact next_of_calls hst .quiet ⟨rfl, rfl, hk⟩
      · exact absurd hsame.2 (hk f hf)
    · exact hends nofun true
  case recordClaim =>
    split at hstep <;> cases hstep
    · exact hends nofun true
    · exact next_of_calls hst .quiet ⟨rfl, hk⟩
  case recordPrior =>
    split at hstep
    · next hchild =>
      cases hstep
      exact next_of_calls hst .quiet ⟨rfl, hk.1, hk.2, allDead_of_none hs hchild⟩
    · next hchild =>
      split at hstep <;> cases hstep
      · exact next_of_calls hst .quiet ⟨rfl, hk.1, hk.2, hchild⟩
      · exact hends nofun true
  case rename identity =>
    cases hstep
    obtain ⟨hstarted, ho, hdead⟩ := hk
    have heffect : Effect s r s.nonces { s.dir with child := some ⟨record.nonce, record.scope, identity⟩ }
        (some (record.nonce, identity)) :=
      .records record hr ⟨_, hst⟩ ho.1 hdead identity
    rw [hrec.scope] at heffect
    exact
      { effect := heffect
        scope := rfl
        host := rfl
        record := fun b h => Or.inl (by rw [hst]; exact h)
        owned := fun b h => Or.inl (by rw [hst]; exact h)
        claimed := nofun
        held := by
          rw [hst]
          rintro _ _ ⟨⟩
          exact ⟨_, rfl⟩
        knows := by
          intro s' hdir _ _
          refine ⟨hstarted, ?_, ?_⟩
          · rw [hdir]
            exact ho
          · rw [hdir, hrec.scope] }
  case readBack =>
    split at hstep
    · cases hstep
      exact hends nofun true
    · split at hstep <;> cases hstep
      · exact hends nofun false
      · exact hends nofun true
  case releaseLock =>
    split at hstep <;> cases hstep
    · exact hends nofun false
    refine next_of_calls hst .quiet ⟨rfl, ?_⟩
    cases started
    · obtain ⟨⟨f, hf, hnonce⟩, -⟩ := id hk
      have howned : f.inode = owned.inode :=
        hrec.owned owned (by rw [hst]; rfl) f (mem_files_lock hf) hnonce
      refine ⟨hk, ⟨f.record, f.inode, s.dir.links f.inode⟩, ?_, hnonce, howned⟩
      rw [hf]
      rfl
    · refine ⟨hk, fun c hc => ?_⟩
      obtain ⟨f, hf, rfl⟩ := Option.map_eq_some_iff.mp hc
      exact hk f hf
  case releaseClaim current =>
    split at hstep
    · cases hstep
      exact hends nofun true
    next hpass =>
    cases started
    · cases hstep
      exact next_of_calls hst .quiet ⟨rfl, rfl, hk.1⟩
    rw [if_pos rfl] at hstep
    cases current with
    | none =>
      cases hstep
      exact hafter s.dir .quiet hk.1 rfl
    | some c =>
      -- the lock that is there is another's
      have hnonce := hk.2 c rfl
      simp [hnonce] at hpass
  case releaseChild =>
    split at hstep
    · next hchild =>
      cases hstep
      refine next_of_calls hst .quiet ⟨rfl, hk.1, hk.2, allDead_of_none hs hchild, ?_⟩
      rw [hchild]
      rfl
    · next hchild =>
      split at hstep <;> cases hstep
      · exact next_of_calls hst .quiet ⟨rfl, hk.1, hk.2, hchild⟩
      · exact hends nofun true
  case removeMarker native =>
    cases hstep
    obtain ⟨hstarted, ho, hdead, hchild⟩ := hk
    cases native
    · exact next_of_calls hst (.marks false nofun) ⟨rfl, rfl, ho, by simpa using hchild⟩
    · exact next_of_calls hst (.marks false nofun) ⟨rfl, hstarted, ho, hdead, hchild⟩
  case unlinkNative =>
    split at hstep <;> cases hstep
    · obtain ⟨-, ho, hdead, -⟩ := hk
      exact next_of_calls hst (.forgets record hr ho.1 hdead) ⟨rfl, rfl, ho, rfl⟩
    · exact hends nofun true
  case unlinkOwner =>
    obtain ⟨hstarted, ho, hchild⟩ := hk
    obtain ⟨f, hf, -⟩ := id ho.1
    rw [hf] at hstep
    cases hstep
    have hholds : r.holds = true := by simp [Run.holds, hst]
    exact hafter _ (.gives record hr hholds ho.1 hchild) nofun hstarted
  case seeLock | seeMarker | seeChild | seeClaim =>
    split at hstep <;> cases hstep
    · exact hends nofun true
    · first
      | exact next_of_calls hst .quiet ⟨rfl, hk⟩
      | exact next_of_calls hst .quiet ⟨rfl, .of_started hk.1 hk.2⟩

theorem next_of_call_liveness {l : Liveness} (hadm : s.admits r (.liveness l) = true)
    (hstep : r.callStep s.dir record lease (.liveness l) = some result) :
    Next s r (.liveness l) result := by
  have hk : KnowsCall s record lease := by
    have := hs.knows r hmem hlive
    rwa [hst] at this
  have hfails : lease.call ≠ .unlinkOwner → Next s r (.liveness l)
      ⟨{ r with stage := .held record { lease with call := .idle, failed := true } }, s.dir, none⟩ := by
    intro hnot
    have hbetween : KnowsLease s record lease := hk.between hnot
    exact next_of_calls hst .quiet ⟨rfl, hbetween⟩
  obtain ⟨_, _, _, _, call, _⟩ := lease
  unfold KnowsCall at hk
  cases call <;> simp only [Run.callStep, reduceCtorEq] at hstep <;> simp only at hk
  case testSelf =>
    split at hstep <;> cases hstep
    · exact next_of_calls hst .quiet ⟨rfl, hk⟩
    · exact hfails nofun
  case testPrior prior =>
    split at hstep
    · next hstale =>
      subst hstale
      cases hstep
      have hdead : prior.child ∈ s.dead := dead_of_stale hadm (by unfold Run.tested; rw [hst])
      exact next_of_calls hst .quiet ⟨rfl, hk.1, hk.2.1, allDead_of_stale hs hk.2.2 hdead⟩
    · cases hstep
      exact hfails nofun
  case testNative native =>
    split at hstep
    · next hstale =>
      subst hstale
      cases hstep
      have hdead : native.child ∈ s.dead := dead_of_stale hadm (by unfold Run.tested; rw [hst])
      refine next_of_calls hst .quiet
        ⟨rfl, hk.1, hk.2.1, allDead_of_stale hs hk.2.2 hdead, ?_⟩
      rw [hk.2.2]
      rfl
    · cases hstep
      exact hfails nofun

/-- The end of the hook of `release`. -/
theorem next_of_call_hook {ok : Bool}
    (hstep : r.callStep s.dir record lease (.hook ok) = some result) :
    Next s r (.hook ok) result := by
  have hk : KnowsCall s record lease := by
    have := hs.knows r hmem hlive
    rwa [hst] at this
  obtain ⟨_, _, _, _, call, _⟩ := lease
  unfold KnowsCall at hk
  cases call <;> simp only [Run.callStep, reduceCtorEq] at hstep
  case hook =>
    split at hstep
    · cases hstep
      exact next_of_calls hst .quiet ⟨rfl, hk⟩
    · cases hstep
      exact next_of_calls hst .quiet ⟨rfl, .of_started hk.1 hk.2⟩

end Calls

/-- **What a step of an attempt does, and what the attempt knows then.** -/
theorem next_of_step {answer : Answer} {result : Result} (hs : Sound s) (hmem : r ∈ s.runs)
    (hlive : r.host ∉ s.dead) (hok : settled s r = true) (hadm : s.admits r answer = true)
    (hstep : r.step s.dir answer = some result) : Next s r answer result := by
  by_cases hheld : ∃ record lease, r.stage = .held record lease
  · obtain ⟨record, lease, hst⟩ := hheld
    have hcall : r.callStep s.dir record lease answer = some result := by
      simpa only [Run.step, hst] using hstep
    cases answer with
    | go => exact next_of_call_go hs hmem hlive hst hcall
    | liveness l => exact next_of_call_liveness hs hmem hlive hst hadm hcall
    | file =>
      unfold Run.callStep at hcall
      cases hc : lease.call <;> rw [hc] at hcall <;> cases hcall
    | hook ok => exact next_of_call_hook hs hmem hlive hst hcall
  · have hnot : ∀ record lease, r.stage ≠ .held record lease :=
      fun record lease h => hheld ⟨record, lease, h⟩
    cases answer with
    | go => exact next_of_go hs hmem hlive hnot hok hstep
    | liveness l => exact next_of_liveness hs hmem hlive hnot hadm hstep
    | file => exact next_of_file hs hmem hlive hnot hadm hstep
    | hook ok =>
      cases hst : r.stage <;> simp only [Run.step, hst, reduceCtorEq] at hstep
      exact absurd hst (hnot _ _)

end Takoserver.Actor
