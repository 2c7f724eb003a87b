import Takoserver.Actor.Steps

/-!
# What holds in every state

Every effect keeps what holds of the directory, and every step of an attempt keeps what ties the
attempts to it, as long as no attempt takes the lock of another, on a reused inode, for its own.
-/

namespace Takoserver.Actor

variable {s s' : System} {d d' : Directory} {r : Run} {born : Option (String × Process)}
variable {minted : List String} {a : Action}

/-! ### The directory -/

namespace Effect

/-- The names after an effect are of files from before it, or of the one that it creates. -/
theorem files (h : Effect s r minted d' born) :
    (∀ f ∈ d'.files, f ∈ s.dir.files) ∨ ∃ file,
      (∀ f ∈ d'.files, f ∈ s.dir.files ∨ f = file) ∧
      (∀ g ∈ s.dir.files, g.inode ≠ file.inode) ∧ file.record.nonce ∉ s.nonces ∧
      file.record.nonce ∈ minted := by
  cases h with
  | creates file hinode hnonce hminted =>
    refine Or.inr ⟨file, fun f hf => ?_, hinode, hnonce, hminted⟩
    simp only [Directory.files, List.mem_append, List.mem_singleton] at hf ⊢
    rcases hf with hf | hf | hf
    · exact Or.inl (Or.inl hf)
    · exact Or.inl (Or.inr hf)
    · exact Or.inr hf
  | claims _ _ _ hlock hclaim =>
    refine Or.inl fun g hg => ?_
    simp only [Directory.files, List.mem_append, hlock, hclaim] at hg ⊢
    rcases hg with (hg | hg) | hg
    · exact Or.inl (Or.inl hg)
    · exact Or.inl (Or.inl hg)
    · exact Or.inr hg
  | publishes _ _ hfile =>
    refine Or.inl fun g hg => ?_
    simp only [Directory.files, List.mem_append] at hg ⊢
    rcases hg with (hg | hg) | hg
    · rw [Option.toList_some, List.mem_singleton] at hg
      exact Or.inr (hg ▸ hfile)
    · exact Or.inl (Or.inr hg)
    · exact Or.inr hg
  | drops =>
    refine Or.inl fun g hg => ?_
    simp only [Directory.files, List.mem_append] at hg ⊢
    rcases hg with hg | hg
    · exact Or.inl hg
    · exact Or.inr (List.mem_of_mem_erase hg)
  | clears | gives =>
    refine Or.inl fun g hg => ?_
    simp only [Directory.files, List.mem_append, Option.toList_none, List.not_mem_nil,
      false_or] at hg ⊢
    exact hg.imp_left Or.inr
  | unclaims =>
    refine Or.inl fun g hg => ?_
    simp only [Directory.files, List.mem_append, Option.toList_none, List.not_mem_nil,
      or_false] at hg ⊢
    exact hg.imp_left Or.inl
  | _ => exact Or.inl fun g hg => hg

variable (h : Effect s r minted d' born) (hs : Sound s)

include h hs

theorem inodes : ∀ f ∈ d'.files, ∀ g ∈ d'.files, f.inode = g.inode → f = g := by
  intro f hf g hg heq
  rcases h.files with hold | ⟨_, hnew, hinode, -⟩
  · exact hs.inodes f (hold f hf) g (hold g hg) heq
  · rcases hnew f hf with hf | rfl <;> rcases hnew g hg with hg | rfl
    · exact hs.inodes f hf g hg heq
    · exact absurd heq (hinode f hf)
    · exact absurd heq.symm (hinode g hg)
    · rfl

theorem unique : ∀ f ∈ d'.files, ∀ g ∈ d'.files, f.record.nonce = g.record.nonce → f = g := by
  intro f hf g hg heq
  rcases h.files with hold | ⟨_, hnew, -, hnonce, -⟩
  · exact hs.unique f (hold f hf) g (hold g hg) heq
  · rcases hnew f hf with hf | rfl <;> rcases hnew g hg with hg | rfl
    · exact hs.unique f hf g hg heq
    · exact absurd (heq ▸ hs.minted f hf) hnonce
    · exact absurd (heq ▸ hs.minted g hg) hnonce
    · rfl

theorem minted_files (hsub : s.nonces ⊆ minted) : ∀ f ∈ d'.files, f.record.nonce ∈ minted := by
  intro f hf
  rcases h.files with hold | ⟨_, hnew, -, -, hminted⟩
  · exact hsub (hs.minted f (hold f hf))
  · rcases hnew f hf with hf | rfl
    · exact hsub (hs.minted f hf)
    · exact hminted

/-- The record of a child stays that of the owner of the lock, unless there is a claim. -/
theorem child_owned : ∀ c, d'.child = some c →
    (∃ f, d'.lock = some f ∧ f.record.nonce = c.nonce) ∨ Claimed d' := by
  intro c hc
  cases h with
  | claims _ _ f => exact Or.inr ⟨f, rfl⟩
  | clears _ _ g hclaim => exact Or.inr ⟨g, hclaim⟩
  | publishes _ hlock =>
    rcases hs.child c hc with ⟨f, hf, -⟩ | hclaimed
    · rw [hlock] at hf
      cases hf
    · exact Or.inr hclaimed
  | forgets => cases hc
  | unclaims _ _ _ _ hchild =>
    rw [show s.dir.child = some c from hc] at hchild
    cases hchild
  | records _ _ _ howns =>
    obtain ⟨f, hf, hnonce⟩ := howns
    cases hc
    exact Or.inl ⟨f, hf, hnonce⟩
  | gives _ _ _ _ hchild =>
    rw [show s.dir.child = some c from hc] at hchild
    cases hchild
  | _ => exact hs.child c hc

theorem child_minted (hmem : r ∈ s.runs) : ∀ c, d'.child = some c → c.nonce ∈ s.nonces := by
  intro c hc
  cases h with
  | forgets => cases hc
  | records record hrecord =>
    cases hc
    exact (hs.recorded r hmem record hrecord).minted
  | _ => exact hs.childMinted c hc

theorem natives : ∀ n ∈ s.natives ++ born.toList, n.2 ∉ s.dead →
    ∃ c, d'.child = some c ∧ c.nonce = n.1 ∧ c.child = n.2 := by
  intro n hn hlive
  cases h with
  | forgets _ _ _ hdead =>
    rw [Option.toList_none, List.append_nil] at hn
    exact absurd (hdead n hn) hlive
  | records _ _ _ _ hdead =>
    rcases List.mem_append.mp hn with hn | hn
    · exact absurd (hdead n hn) hlive
    · rw [Option.toList_some, List.mem_singleton] at hn
      exact ⟨_, rfl, by rw [hn], by rw [hn]⟩
  | _ =>
    rw [Option.toList_none, List.append_nil] at hn
    exact hs.natives n hn hlive

end Effect

/-! ### The attempts -/

theorem set_cases {i j : ℕ} {r' q : Run} (h : (s.runs.set i r')[j]? = some q) :
    (j = i ∧ q = r') ∨ (j ≠ i ∧ s.runs[j]? = some q) := by
  rw [List.getElem?_set] at h
  split at h
  · next heq =>
    split at h
    · exact Or.inl ⟨heq.symm, (Option.some.inj h).symm⟩
    · cases h
  · next hne => exact Or.inr ⟨fun heq => hne heq.symm, h⟩

theorem Knows.claimed {stage : Stage} (hk : Knows s stage) (hc : stage.claimed = true) :
    Claimed s.dir := by
  cases stage <;> simp only [Stage.claimed, Bool.false_eq_true] at hc <;> simp only [Knows] at hk
  case readPinned => exact hk
  case readCurrent | readChildAgain | testHostAgain | testChildAgain | unlinkLock =>
    obtain ⟨g, hg, -⟩ := hk
    exact ⟨g, hg⟩
  case create => exact hk hc
  case publish => exact hk.2 hc
  case dropTemporary | readOwned | lookMarker | makeMarker | readClaim => exact (hk hc).1
  case readOldChild | testOldChild | unlinkChild | unlinkClaim => exact hk.1

theorem drawn_subset (answer : Answer) : s.nonces ⊆ s.drawn answer := by
  cases answer with
  | file => exact List.subset_cons_self _ _
  | _ => exact List.Subset.refl _

theorem Effect.old_file (h : Effect s r minted d' born) {f : File} (hf : f ∈ d'.files)
    (hnonce : f.record.nonce ∈ s.nonces) : f ∈ s.dir.files := by
  rcases h.files with hold | ⟨_, hnew, -, hfresh, -⟩
  · exact hold f hf
  · rcases hnew f hf with hf | rfl
    · exact hf
    · exact absurd hnonce hfresh

theorem Effect.child_scope (h : Effect s r minted d' born) {b : OwnerRecord}
    (hscope : ∀ record, r.stage.record = some record → record.nonce = b.nonce →
      record.scope = b.scope)
    (hold : ∀ c, s.dir.child = some c → c.nonce = b.nonce → c.scope = b.scope) :
    ∀ c, d'.child = some c → c.nonce = b.nonce → c.scope = b.scope := by
  intro c hc hnonce
  cases h with
  | forgets => cases hc
  | records record hrecord =>
    cases hc
    exact hscope record hrecord hnonce
  | _ => exact hold c hc hnonce

section Step

variable {i : ℕ} {answer : Answer} {result : Result}

/-- The machine after a step of an attempt. -/
def System.after (s : System) (i : ℕ) (answer : Answer) (result : Result) : System :=
  { s with
    dir := result.dir
    runs := s.runs.set i result.run
    nonces := s.drawn answer
    natives := s.natives ++ result.native.toList }

/-- Two attempts are apart. -/
theorem Sound.apart {i j : ℕ} {q : Run} (hs : Sound s) (hi : s.runs[i]? = some r)
    (hj : s.runs[j]? = some q) (hne : j ≠ i) (hlive : r.host ∉ s.dead) (hqlive : q.host ∉ s.dead) :
    Apart s q r where
  lives := hqlive
  record := fun a b ha hb heq => hne (hs.distinct j i q r hj hi a b ha hb heq)
  claimed := by
    intro hclaimed
    rw [Bool.eq_false_iff]
    exact fun hother => hne (hs.claimants j i q r hj hi hclaimed hother hqlive hlive)

theorem Recorded.kept (hn : Next s r answer result) {q : Run} {b : OwnerRecord}
    (hb : Recorded s q b)
    (hscope : ∀ record, r.stage.record = some record → record.nonce = b.nonce →
      record.scope = b.scope) : Recorded (s.after i answer result) q b where
  minted := drawn_subset answer hb.minted
  host := hb.host
  scope := hb.scope
  files := fun f hf hnonce =>
    hb.files f (hn.effect.old_file hf (hnonce ▸ hb.minted)) hnonce
  child := hn.effect.child_scope hscope hb.child
  owned := fun owned howned f hf hnonce =>
    hb.owned owned howned f (hn.effect.old_file hf (hnonce ▸ hb.minted)) hnonce

variable (hs : Sound s) (hi : s.runs[i]? = some r) (hlive : r.host ∉ s.dead)
  (hadm : s.admits r answer = true) (hn : Next s r answer result)

include hs hi hn

theorem recorders_of_next : ∀ n ∈ (s.after i answer result).natives,
    ∃ q ∈ (s.after i answer result).runs, ∃ record lease,
      q.stage = .held record lease ∧ record.nonce = n.1 := by
  intro n hmem
  have hlt : i < s.runs.length := (List.getElem?_eq_some_iff.mp hi).1
  have hself : ∀ record lease, r.stage = .held record lease → record.nonce = n.1 →
      ∃ q ∈ (s.after i answer result).runs, ∃ record lease,
        q.stage = .held record lease ∧ record.nonce = n.1 := by
    intro record lease hst hnonce
    obtain ⟨lease', hst'⟩ := hn.held record lease hst
    exact ⟨result.run, List.mem_of_getElem? (List.getElem?_set_self hlt), record, lease', hst',
      hnonce⟩
  rcases List.mem_append.mp hmem with hold | hnew
  · obtain ⟨q, hq, record, lease, hst, hnonce⟩ := hs.recorders n hold
    obtain ⟨j, hj⟩ := List.mem_iff_getElem?.mp hq
    by_cases hij : i = j
    · subst hij
      rw [hi] at hj
      cases hj
      exact hself record lease hst hnonce
    · refine ⟨q, List.mem_of_getElem? (i := j) ?_, record, lease, hst, hnonce⟩
      exact (List.getElem?_set_ne hij).trans hj
  · have heffect := hn.effect
    obtain ⟨_, _, _⟩ := result
    cases heffect with
    | records record _ hheld =>
      obtain ⟨lease, hst⟩ := hheld
      rw [Option.toList_some, List.mem_singleton] at hnew
      exact hself record lease hst (by rw [hnew])
    | _ => exact absurd hnew List.not_mem_nil

include hadm

theorem recorded_of_next : ∀ q ∈ (s.after i answer result).runs, ∀ b,
    q.stage.record = some b → Recorded (s.after i answer result) q b := by
  intro q hq b hb
  have hmem : r ∈ s.runs := List.mem_of_getElem? hi
  obtain ⟨j, hj⟩ := List.mem_iff_getElem?.mp hq
  rcases set_cases hj with ⟨-, rfl⟩ | ⟨hne, hj⟩
  · rcases hn.record b hb with hold | ⟨⟨_, rfl⟩, hhost, hscope, hnone, hfiles⟩
    · have hrec : Recorded (s.after i answer result) r b := by
        refine (hs.recorded r hmem b hold).kept hn fun record hrecord _ => ?_
        rw [hold] at hrecord
        cases hrecord
        rfl
      refine ⟨hrec.minted, hrec.host.trans hn.host.symm, hrec.scope.trans hn.scope.symm,
        hrec.files, hrec.child, fun owned howned f hf hnonce => ?_⟩
      rcases hn.owned owned howned with hthen | ⟨_, g, hrecord, hg, hown, hinode⟩
      · exact hrec.owned owned hthen f hf hnonce
      · -- the file that the attempt has read is the one of its nonce
        rw [hold] at hrecord
        cases hrecord
        have hf' := hn.effect.old_file hf (hnonce ▸ (hs.recorded r hmem b hold).minted)
        have heq := hs.unique f hf' g (mem_files_lock hg) (hnonce.trans hown.symm)
        rw [heq, hinode]
    · have hfresh : b.nonce ∉ s.nonces := by simpa [System.admits] using hadm
      refine ⟨List.mem_cons_self .., hhost.trans hn.host.symm, hscope.trans hn.scope.symm, ?_, ?_,
        ?_⟩
      · intro f hf hnonce
        rcases hfiles f hf with hf | heq
        · exact absurd (hnonce ▸ hs.minted f hf) hfresh
        · exact heq
      · intro c hc hnonce
        exact absurd (hnonce ▸ hn.effect.child_minted hs hmem c hc) hfresh
      · intro owned howned
        rw [hnone] at howned
        cases howned
  · have hq' : q ∈ s.runs := List.mem_of_getElem? hj
    refine (hs.recorded q hq' b hb).kept hn fun record hrecord hnonce => ?_
    exact absurd (hs.distinct i j r q hi hj record b hrecord hb hnonce).symm hne

theorem distinct_of_next : ∀ (j k : ℕ) (q q' : Run), (s.after i answer result).runs[j]? = some q →
    (s.after i answer result).runs[k]? = some q' → ∀ a b, q.stage.record = some a →
    q'.stage.record = some b → a.nonce = b.nonce → j = k := by
  -- the record of the attempt that steps is its former one, or new
  have hother : ∀ k q b c, k ≠ i → s.runs[k]? = some q → q.stage.record = some b →
      result.run.stage.record = some c → b.nonce ≠ c.nonce := by
    intro k q b c hne hk hb hc heq
    rcases hn.record c hc with hold | ⟨⟨_, rfl⟩, -⟩
    · exact hne (hs.distinct k i q r hk hi b c hb hold heq)
    · have hfresh : c.nonce ∉ s.nonces := by simpa [System.admits] using hadm
      exact hfresh (heq ▸ (hs.recorded q (List.mem_of_getElem? hk) b hb).minted)
  intro j k q q' hj hk a b ha hb heq
  rcases set_cases hj with ⟨rfl, rfl⟩ | ⟨hj', hjq⟩ <;>
    rcases set_cases hk with ⟨rfl, rfl⟩ | ⟨hk', hkq⟩
  · rfl
  · exact absurd heq.symm (hother k q' b a hk' hkq hb ha)
  · exact absurd heq (hother j q a b hj' hjq ha hb)
  · exact hs.distinct j k q q' hjq hkq a b ha hb heq

omit hadm

include hlive

theorem claimants_of_next : ∀ (j k : ℕ) (q q' : Run),
    (s.after i answer result).runs[j]? = some q → (s.after i answer result).runs[k]? = some q' →
    q.stage.claimed = true → q'.stage.claimed = true → q.host ∉ s.dead → q'.host ∉ s.dead →
    j = k := by
  -- a claim is linked where no other attempt has one
  have hother : ∀ k q, k ≠ i → s.runs[k]? = some q → q.stage.claimed = true → q.host ∉ s.dead →
      result.run.stage.claimed = false := by
    intro k q hne hk hq hqlive
    rw [Bool.eq_false_iff]
    intro hclaimed
    rcases hn.claimed hclaimed with hold | hnone
    · exact hne (hs.claimants k i q r hk hi hq hold hqlive hlive)
    · obtain ⟨g, hg⟩ := (hs.knows q (List.mem_of_getElem? hk) hqlive).claimed hq
      rw [hnone] at hg
      cases hg
  intro j k q q' hj hk hq hq' hql hql'
  rcases set_cases hj with ⟨rfl, rfl⟩ | ⟨hj', hjq⟩ <;>
    rcases set_cases hk with ⟨rfl, rfl⟩ | ⟨hk', hkq⟩
  · rfl
  · rw [hother k q' hk' hkq hq' hql'] at hq
    cases hq
  · rw [hother j q hj' hjq hq hql] at hq'
    cases hq'
  · exact hs.claimants j k q q' hjq hkq hq hq' hql hql'

theorem knows_of_next : ∀ q ∈ (s.after i answer result).runs, q.host ∉ s.dead →
    Knows (s.after i answer result) q.stage := by
  intro q hq hqlive
  obtain ⟨j, hj⟩ := List.mem_iff_getElem?.mp hq
  rcases set_cases hj with ⟨-, rfl⟩ | ⟨hne, hj⟩
  · exact hn.knows _ rfl rfl rfl
  · have hq' : q ∈ s.runs := List.mem_of_getElem? hj
    have heffect : Effect s r (s.drawn answer) (s.after i answer result).dir result.native :=
      hn.effect
    have hapart := hs.apart hi hj hne hlive hqlive
    exact Knows.kept heffect rfl rfl hs hq' hapart (hs.knows q hq' hqlive)

include hadm

theorem Sound.after : Sound (s.after i answer result) where
  inodes := hn.effect.inodes hs
  unique := hn.effect.unique hs
  minted := hn.effect.minted_files hs (drawn_subset answer)
  child := hn.effect.child_owned hs
  childMinted := fun c hc =>
    drawn_subset answer (hn.effect.child_minted hs (List.mem_of_getElem? hi) c hc)
  natives := hn.effect.natives hs
  recorders := recorders_of_next hs hi hn
  recorded := recorded_of_next hs hi hadm hn
  distinct := distinct_of_next hs hi hadm hn
  claimants := claimants_of_next hs hi hlive hn
  knows := knows_of_next hs hi hlive hn

end Step

/-! ### The machine -/

/-- No attempt takes the lock of another, on a reused inode, for its own. -/
def finalOwn (s : System) : Action → Bool
  | .step i _ => s.runs[i]?.all (settled s)
  | _ => true

theorem sound_init : Sound leases.init := by
  have hfiles : ∀ f, f ∉ leases.init.dir.files := fun f hf => absurd hf List.not_mem_nil
  have hruns : ∀ r, r ∉ leases.init.runs := fun r hr => absurd hr List.not_mem_nil
  exact
    { inodes := fun f hf => absurd hf (hfiles f)
      unique := fun f hf => absurd hf (hfiles f)
      minted := fun f hf => absurd hf (hfiles f)
      child := fun c hc => nomatch hc
      childMinted := fun c hc => nomatch hc
      natives := fun n hn => absurd hn List.not_mem_nil
      recorders := fun n hn => absurd hn List.not_mem_nil
      recorded := fun r hr => absurd hr (hruns r)
      distinct := fun i j r r' hi => absurd (List.mem_of_getElem? hi) (hruns r)
      claimants := fun i j r r' hi => absurd (List.mem_of_getElem? hi) (hruns r)
      knows := fun r hr => absurd hr (hruns r) }

/-- An attempt that begins knows nothing. -/
theorem Sound.acquires (hs : Sound s) {new : Run} (hnew : new.stage = .checkClaim) :
    Sound { s with runs := s.runs ++ [new] } := by
  have hrun : ∀ {j : ℕ} {q : Run}, (s.runs ++ [new])[j]? = some q →
      s.runs[j]? = some q ∨ q.stage = .checkClaim := by
    intro j q h
    rw [List.getElem?_append] at h
    split at h
    · exact Or.inl h
    · rw [List.getElem?_singleton] at h
      split at h
      · exact Or.inr (Option.some.inj h ▸ hnew)
      · cases h
  have hmem : ∀ q ∈ s.runs ++ [new], q ∈ s.runs ∨ q.stage = .checkClaim := by
    intro q hq
    obtain ⟨j, hj⟩ := List.mem_iff_getElem?.mp hq
    exact (hrun hj).imp_left List.mem_of_getElem?
  have hrecord : ∀ {q : Run} {b}, q.stage = .checkClaim → q.stage.record ≠ some b := by
    intro q b hst
    rw [hst]
    nofun
  have hclaimed : ∀ {q : Run}, q.stage = .checkClaim → q.stage.claimed ≠ true := by
    intro q hst
    rw [hst]
    nofun
  refine { hs with recorders := ?_, recorded := ?_, distinct := ?_, claimants := ?_, knows := ?_ }
  · intro n hn
    obtain ⟨q, hq, hrest⟩ := hs.recorders n hn
    exact ⟨q, List.mem_append_left _ hq, hrest⟩
  · intro q hq b hb
    rcases hmem q hq with hq | hst
    · exact { hs.recorded q hq b hb with }
    · exact absurd hb (hrecord hst)
  · intro j k q q' hj hk a b ha hb heq
    rcases hrun hj with hj | hst
    · rcases hrun hk with hk | hst
      · exact hs.distinct j k q q' hj hk a b ha hb heq
      · exact absurd hb (hrecord hst)
    · exact absurd ha (hrecord hst)
  · intro j k q q' hj hk hq hq' hl hl'
    rcases hrun hj with hj | hst
    · rcases hrun hk with hk | hst
      · exact hs.claimants j k q q' hj hk hq hq' hl hl'
      · exact absurd hq' (hclaimed hst)
    · exact absurd hq (hclaimed hst)
  · intro q hq hlive
    rcases hmem q hq with hq | hst
    · exact Knows.congr (t := s) rfl rfl rfl (hs.knows q hq hlive)
    · rw [hst]
      trivial

theorem Sound.begins {i : ℕ} {call : Call} (hs : Sound s) (hn : s.begin i call = some s')
    (hcall : (∃ identity, call = .testSelf identity) ∨ call = .releaseLock) : Sound s' := by
  unfold System.begin at hn
  split at hn
  · cases hn
  next r hi =>
  split at hn
  · next record lease hst =>
    split at hn
    · next hcond =>
      cases hn
      have hk : KnowsCall s record lease := by
        have := hs.knows r (List.mem_of_getElem? hi) hcond.1
        rwa [hst] at this
      have hbetween : KnowsLease s record lease :=
        hk.between (by rw [hcond.2]; nofun)
      have hnext : Next s r .go
          ⟨{ r with stage := .held record { lease with call } }, s.dir, none⟩ := by
        refine next_of_calls hst .quiet ⟨rfl, ?_⟩
        rcases hcall with ⟨_, rfl⟩ | rfl
        · exact hbetween
        · exact hbetween
      have hafter := hs.after hi hcond.1 rfl hnext
      have heq : s.after i .go ⟨{ r with stage := .held record { lease with call } }, s.dir, none⟩ =
          { s with runs := s.runs.set i { r with stage := .held record { lease with call } } } := by
        simp [System.after, System.drawn]
      rwa [heq] at hafter
    · cases hn
  · cases hn

theorem AllDead.dies (process : Process) (h : AllDead s) :
    AllDead { s with dead := process :: s.dead } :=
  fun n hn => List.mem_cons_of_mem _ (h n hn)

theorem Knows.dies {stage : Stage} (process : Process) (hk : Knows s stage) :
    Knows { s with dead := process :: s.dead } stage := by
  cases stage <;> simp only [Knows] at hk ⊢
  case testChildAgain | unlinkLock =>
    obtain ⟨g, hg, hdead⟩ := hk
    exact ⟨g, hg, List.mem_cons_of_mem _ hdead⟩
  case unlinkChild => exact ⟨hk.1, hk.2.1, hk.2.2.dies process⟩
  case held lease =>
    unfold KnowsCall at hk ⊢
    cases hcall : lease.call <;> rw [hcall] at hk <;> simp only at hk ⊢
    case rename => exact ⟨hk.1, hk.2.1, hk.2.2.dies process⟩
    case removeMarker | unlinkNative => exact ⟨hk.1, hk.2.1, hk.2.2.1.dies process, hk.2.2.2⟩
    all_goals exact hk
  all_goals exact hk

theorem Sound.dies (hs : Sound s) (process : Process) :
    Sound { s with dead := process :: s.dead } := by
  have hlive : ∀ {p}, p ∉ process :: s.dead → p ∉ s.dead :=
    fun h hp => h (List.mem_cons_of_mem _ hp)
  refine { hs with natives := ?_, recorded := ?_, claimants := ?_, knows := ?_ }
  · exact fun n hn h => hs.natives n hn (hlive h)
  · exact fun q hq b hb => { hs.recorded q hq b hb with }
  · exact fun j k q q' hj hk hq hq' hl hl' =>
      hs.claimants j k q q' hj hk hq hq' (hlive hl) (hlive hl')
  · exact fun q hq hl => (hs.knows q hq (hlive hl)).dies process

/-- **What holds in every state.** -/
theorem Sound.next (hs : Sound s) (hok : finalOwn s a = true) (hn : s.next a = some s') : Sound s' := by
  cases a with
  | acquire =>
    simp only [System.next] at hn
    split at hn
    · cases hn
      exact hs.acquires rfl
    · cases hn
  | step =>
    simp only [System.next] at hn
    split at hn
    · cases hn
    next r hi =>
    split at hn
    · next hcond =>
      obtain ⟨_, hstep, rfl⟩ := Option.map_eq_some_iff.mp hn
      have hmem : r ∈ s.runs := List.mem_of_getElem? hi
      have hsettled : settled s r = true := by simpa [finalOwn, hi] using hok
      have hnext := next_of_step hs hmem hcond.1 hsettled hcond.2 hstep
      exact hs.after hi hcond.1 hcond.2 hnext
    · cases hn
  | recordNative i identity => exact hs.begins hn (Or.inl ⟨identity, rfl⟩)
  | release i => exact hs.begins hn (Or.inr rfl)
  | die process =>
    cases hn
    exact hs.dies process

/-- What holds in every state, where each attempt that returns has last read its own lock. -/
theorem sound_of_reachVia (hr : leases.ReachVia (fun s a => finalOwn s a) s) : Sound s := by
  refine Machine.ReachVia.invariant (P := Sound) sound_init ?_ hr
  intro t a t' ht hok hn
  exact ht.next hok hn

end Takoserver.Actor
