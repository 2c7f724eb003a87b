import Takoserver.Actor.Runs

/-!
# What an attempt knows

At each of its stages an attempt knows something of the directory that no other attempt can make
false: a recoverer knows that the claim is there and, in time, that it pins the lock of a dead
owner; a recoverer that has published, and a holder, know that the lock is theirs.
-/

namespace Takoserver.Actor

variable {s s' : System} {d d' : Directory} {r : Run}

/-! ### Stages -/

/-- The record of an attempt, from the creation of its file on. -/
def Stage.record : Stage → Option OwnerRecord
  | .publish _ file => some file.record
  | .dropTemporary _ file _ => some file.record
  | .readOwned _ record => some record
  | .lookClaim record _ => some record
  | .lookMarker _ record _ => some record
  | .makeMarker _ record _ => some record
  | .readClaim _ record _ => some record
  | .readOldChild _ record _ => some record
  | .testOldChild record _ _ => some record
  | .unlinkChild record _ => some record
  | .unlinkClaim record _ => some record
  | .readFinal record _ => some record
  | .lastClaim record _ _ => some record
  | .held record _ => some record
  | _ => none

/-- The lock as the attempt has read it after it was published. -/
def Stage.owned : Stage → Option ReadRecord
  | .lookClaim _ owned => some owned
  | .lookMarker _ _ owned => some owned
  | .makeMarker _ _ owned => some owned
  | .readClaim _ _ owned => some owned
  | .readOldChild _ _ owned => some owned
  | .testOldChild _ owned _ => some owned
  | .unlinkChild _ owned => some owned
  | .unlinkClaim _ owned => some owned
  | .readFinal _ owned => some owned
  | .lastClaim _ owned _ => some owned
  | .held _ lease => some lease.owned
  | _ => none

/-- The attempt has linked the claim, and not yet unlinked it. -/
def Stage.claimed : Stage → Bool
  | .readPinned _ | .readCurrent _ _ | .readChildAgain _ _ _ | .testHostAgain _ _ _
  | .testChildAgain _ _ | .unlinkLock _ => true
  | .create previous | .publish previous _ | .dropTemporary previous _ _
  | .readOwned previous _ | .lookMarker previous _ _ | .makeMarker previous _ _
  | .readClaim previous _ _ => previous.isSome
  | .readOldChild _ _ _ | .testOldChild _ _ _ | .unlinkChild _ _ | .unlinkClaim _ _ => true
  | _ => false

/-! ### Knowledge -/

/-- The lock is that of a record. -/
def Owns (d : Directory) (record : OwnerRecord) : Prop :=
  ∃ f, d.lock = some f ∧ f.record.nonce = record.nonce

/-- The lock is that of a record, and no claim pins another. -/
def Holds (d : Directory) (record : OwnerRecord) : Prop :=
  Owns d record ∧ ∀ g, d.claim = some g → g.record.nonce = record.nonce

/-- The lock is not that of a record, and will not be again. -/
def Lost (d : Directory) (record : OwnerRecord) : Prop :=
  ∀ f, d.lock = some f → f.record.nonce ≠ record.nonce

/-- A claim is there. -/
def Claimed (d : Directory) : Prop := ∃ g, d.claim = some g

/-- Every native child that was recorded has died. -/
def AllDead (s : System) : Prop := ∀ n ∈ s.natives, n.2 ∈ s.dead

/-- A record was read from a file. -/
def Reads (read : Option ReadRecord) (g : File) : Prop :=
  ∃ p, read = some p ∧ p.inode = g.inode ∧ p.value = g.record

/-- What a lease knows between two calls. -/
def KnowsLease (s : System) (record : OwnerRecord) (lease : Lease) : Prop :=
  if lease.releaseStarted then Lost s.dir record else Holds s.dir record

/-- What a lease knows between two steps of a call. -/
def KnowsCall (s : System) (record : OwnerRecord) (lease : Lease) : Prop :=
  match lease.call with
  | .idle | .testSelf _ | .recordLock _ | .releaseLock => KnowsLease s record lease
  | .recordClaim _ | .recordPrior _ | .releaseChild =>
      lease.releaseStarted = false ∧ Holds s.dir record
  | .testPrior _ prior =>
      lease.releaseStarted = false ∧ Holds s.dir record ∧ s.dir.child = some prior
  | .rename _ => lease.releaseStarted = false ∧ Holds s.dir record ∧ AllDead s
  | .readBack identity =>
      lease.releaseStarted = false ∧ Holds s.dir record ∧
        s.dir.child = some ⟨record.nonce, record.scope, identity⟩
  | .releaseClaim current =>
      if lease.releaseStarted then
        Lost s.dir record ∧ ∀ c, current = some c → c.value.nonce ≠ record.nonce
      else
        Holds s.dir record ∧
          ∃ c, current = some c ∧ c.value.nonce = record.nonce ∧ c.inode = lease.owned.inode
  | .testNative native =>
      lease.releaseStarted = false ∧ Holds s.dir record ∧ s.dir.child = some native
  | .removeMarker native =>
      lease.releaseStarted = false ∧ Holds s.dir record ∧ AllDead s ∧ s.dir.child.isSome = native
  | .unlinkNative =>
      lease.releaseStarted = false ∧ Holds s.dir record ∧ AllDead s ∧ s.dir.child.isSome = true
  | .unlinkOwner => lease.releaseStarted = true ∧ Holds s.dir record ∧ s.dir.child = none
  | .hook | .seeLock | .seeMarker | .seeChild | .seeClaim =>
      lease.releaseStarted = true ∧ Lost s.dir record

/-- What an attempt knows at its stage. -/
def Knows (s : System) : Stage → Prop
  | .readPinned _ => Claimed s.dir
  | .readCurrent _ pinned => ∃ g, s.dir.claim = some g ∧ Reads pinned g
  | .readChildAgain _ pinned current => ∃ g, s.dir.claim = some g ∧ Reads pinned g ∧
      ∀ c, current = some c → c.inode = g.inode → c.value = g.record
  | .testHostAgain _ current _ => ∃ g, s.dir.claim = some g ∧ current.value = g.record
  | .testChildAgain _ _ | .unlinkLock _ => ∃ g, s.dir.claim = some g ∧ g.record.host ∈ s.dead
  | .create previous => previous.isSome = true → Claimed s.dir
  | .publish previous file =>
      file ∈ s.dir.temporaries ∧ (previous.isSome = true → Claimed s.dir)
  | .dropTemporary previous file linked => previous.isSome = true →
      Claimed s.dir ∧ (linked = true → Owns s.dir file.record)
  | .readOwned previous record | .lookMarker previous record _ | .makeMarker previous record _
  | .readClaim previous record _ =>
      previous.isSome = true → Claimed s.dir ∧ Owns s.dir record
  | .readOldChild _ record _ => Claimed s.dir ∧ Owns s.dir record
  | .testOldChild record _ oldChild =>
      Claimed s.dir ∧ Owns s.dir record ∧ s.dir.child = some oldChild
  | .unlinkChild record _ => Claimed s.dir ∧ Owns s.dir record ∧ AllDead s
  | .unlinkClaim record _ => Claimed s.dir ∧ Owns s.dir record ∧ s.dir.child = none
  | .readFinal record _ =>
      Owns s.dir record → ∀ g, s.dir.claim = some g → g.record.nonce = record.nonce
  | .lastClaim record _ finalLock =>
      (∃ c, finalLock = some c ∧ c.value.nonce = record.nonce) → Holds s.dir record
  | .held record lease => KnowsCall s record lease
  | _ => True

/-- What ties the record of an attempt to the directory. -/
structure Recorded (s : System) (r : Run) (record : OwnerRecord) : Prop where
  minted : record.nonce ∈ s.nonces
  host : record.host = r.host
  scope : record.scope = r.scope
  files : ∀ f ∈ s.dir.files, f.record.nonce = record.nonce → f.record = record
  child : ∀ c, s.dir.child = some c → c.nonce = record.nonce → c.scope = record.scope
  owned : ∀ owned, r.stage.owned = some owned → ∀ f ∈ s.dir.files,
    f.record.nonce = record.nonce → f.inode = owned.inode

/-- What holds in every state. -/
structure Sound (s : System) : Prop where
  inodes : ∀ f ∈ s.dir.files, ∀ g ∈ s.dir.files, f.inode = g.inode → f = g
  unique : ∀ f ∈ s.dir.files, ∀ g ∈ s.dir.files, f.record.nonce = g.record.nonce → f = g
  minted : ∀ f ∈ s.dir.files, f.record.nonce ∈ s.nonces
  /-- The record of a child is that of the owner of the lock, unless there is a claim. -/
  child : ∀ c, s.dir.child = some c →
    (∃ f, s.dir.lock = some f ∧ f.record.nonce = c.nonce) ∨ Claimed s.dir
  childMinted : ∀ c, s.dir.child = some c → c.nonce ∈ s.nonces
  /-- A native child that lives has its record. -/
  natives : ∀ n ∈ s.natives, n.2 ∉ s.dead →
    ∃ c, s.dir.child = some c ∧ c.nonce = n.1 ∧ c.child = n.2
  recorders : ∀ n ∈ s.natives, ∃ r ∈ s.runs, ∃ record lease,
    r.stage = .held record lease ∧ record.nonce = n.1
  recorded : ∀ r ∈ s.runs, ∀ record, r.stage.record = some record → Recorded s r record
  distinct : ∀ (i j : ℕ) (r r' : Run), s.runs[i]? = some r → s.runs[j]? = some r' →
    ∀ a b, r.stage.record = some a → r'.stage.record = some b → a.nonce = b.nonce → i = j
  claimants : ∀ (i j : ℕ) (r r' : Run), s.runs[i]? = some r → s.runs[j]? = some r' →
    r.stage.claimed = true → r'.stage.claimed = true → r.host ∉ s.dead → r'.host ∉ s.dead → i = j
  knows : ∀ r ∈ s.runs, r.host ∉ s.dead → Knows s r.stage

/-! ### Effects -/

/-- What a step of an attempt does to the directory, and the native child that it records; `minted`
are the nonces after the step. -/
inductive Effect (s : System) (r : Run) (minted : List String) :
    Directory → Option (String × Process) → Prop
  | quiet : Effect s r minted s.dir none
  | marks (b : Bool)
      (hstage : b = true → ∃ previous record owned, r.stage = .makeMarker previous record owned) :
      Effect s r minted { s.dir with marker := b } none
  | claims (previous : ReadRecord) (hstage : r.stage = .linkClaim previous) (f : File)
      (hlock : s.dir.lock = some f) (hclaim : s.dir.claim = none) :
      Effect s r minted { s.dir with claim := some f } none
  | clears (previous : ReadRecord) (hstage : r.stage = .unlinkLock previous) (g : File)
      (hclaim : s.dir.claim = some g)
      (hdead : g.record.host ∈ s.dead) : Effect s r minted { s.dir with lock := none } none
  | creates (file : File) (hinode : ∀ f ∈ s.dir.files, f.inode ≠ file.inode)
      (hnonce : file.record.nonce ∉ s.nonces) (hminted : file.record.nonce ∈ minted) :
      Effect s r minted { s.dir with temporaries := s.dir.temporaries ++ [file] } none
  | publishes (file : File) (hlock : s.dir.lock = none) (hfile : file ∈ s.dir.temporaries)
      (hrecord : r.stage.record = some file.record) :
      Effect s r minted { s.dir with lock := some file } none
  | drops (file : File) (hrecord : r.stage.record = some file.record) :
      Effect s r minted { s.dir with temporaries := s.dir.temporaries.erase file } none
  | forgets (record : OwnerRecord) (hrecord : r.stage.record = some record)
      (howns : Owns s.dir record) (hdead : AllDead s) :
      Effect s r minted { s.dir with child := none } none
  | unclaims (record : OwnerRecord) (hrecord : r.stage.record = some record)
      (hclaimed : r.stage.claimed = true) (howns : Owns s.dir record)
      (hchild : s.dir.child = none) : Effect s r minted { s.dir with claim := none } none
  | records (record : OwnerRecord) (hrecord : r.stage.record = some record)
      (hheld : ∃ lease, r.stage = .held record lease) (howns : Owns s.dir record)
      (hdead : AllDead s) (identity : Process) :
      Effect s r minted { s.dir with child := some ⟨record.nonce, record.scope, identity⟩ }
        (some (record.nonce, identity))
  | gives (record : OwnerRecord) (hrecord : r.stage.record = some record) (hholds : r.holds = true)
      (howns : Owns s.dir record) (hchild : s.dir.child = none) :
      Effect s r minted { s.dir with lock := none } none

/-! ### What others leave -/

/-- Two attempts, of which one knows what the other does not touch. -/
structure Apart (s : System) (r other : Run) : Prop where
  lives : r.host ∉ s.dead
  record : ∀ a b, r.stage.record = some a → other.stage.record = some b → a.nonce ≠ b.nonce
  claimed : r.stage.claimed = true → other.stage.claimed = false

namespace Effect

variable {other : Run} {born : Option (String × Process)} {record : OwnerRecord}
variable {minted : List String}

section

variable (h : Effect s other minted d' born) (ha : Apart s r other)
  (hclaimed : r.stage.claimed = true)

include h ha hclaimed

/-- Only its recoverer unlinks a claim. -/
theorem claim_kept {g : File} (hg : s.dir.claim = some g) :
    d'.claim = some g := by
  cases h with
  | claims _ _ _ _ hclaim => rw [hclaim] at hg; cases hg
  | unclaims _ _ hother =>
    rw [ha.claimed hclaimed] at hother
    cases hother
  | _ => exact hg

theorem claimed_kept (hc : Claimed s.dir) : Claimed d' := by
  obtain ⟨g, hg⟩ := hc
  exact ⟨g, h.claim_kept ha hclaimed hg⟩

end

theorem owns_apart (ha : Apart s r other) (hr : r.stage.record = some record)
    (ho : Owns s.dir record) {b : OwnerRecord} (hb : other.stage.record = some b) :
    ¬ Owns s.dir b := by
  rintro ⟨f, hf, hnonce⟩
  obtain ⟨_, hf', hnonce'⟩ := ho
  rw [hf] at hf'
  cases hf'
  exact ha.record record b hr hb (hnonce'.symm.trans hnonce)

section

variable (h : Effect s other minted d' born)

include h

section

variable (hs : Sound s) (hmem : r ∈ s.runs) (ha : Apart s r other)
  (hr : r.stage.record = some record)

include hs hmem ha hr

/-- Nobody else takes the lock of a recoverer, or a lock that the claim does not make another's. -/
theorem owns_kept (ho : Owns s.dir record)
    (hwhy : r.stage.claimed = true ∨ ∀ g, s.dir.claim = some g → g.record.nonce = record.nonce) :
    Owns d' record := by
  cases h with
  | clears _ hstage g hclaim hdead =>
    rcases hwhy with hclaimed | hpins
    · have hother := ha.claimed hclaimed
      rw [hstage] at hother
      cases hother
    · -- the claim pins the lock of a dead owner, and this one lives
      have hrecorded := hs.recorded r hmem record hr
      have hfile : g ∈ s.dir.files := by
        simp [Directory.files, hclaim]
      rw [hrecorded.files g hfile (hpins g hclaim), hrecorded.host] at hdead
      exact absurd hdead ha.lives
  | publishes _ hlock =>
    obtain ⟨f, hf, -⟩ := ho
    rw [hlock] at hf
    cases hf
  | gives _ hb _ howns => exact absurd howns (owns_apart ha hr ho hb)
  | _ => exact ho

theorem holds_kept (ho : Holds s.dir record) :
    Holds d' record := by
  refine ⟨h.owns_kept hs hmem ha hr ho.1 (Or.inr ho.2), fun g hg => ?_⟩
  cases h with
  | claims _ _ _ hlock =>
    obtain ⟨_, hf', hnonce⟩ := ho.1
    rw [hlock] at hf'
    cases hf'
    cases hg
    exact hnonce
  | unclaims => cases hg
  | _ => exact ho.2 g hg

end

theorem child_kept (ha : Apart s r other) (hr : r.stage.record = some record)
    (ho : Owns s.dir record) :
    d'.child = s.dir.child ∧ born = none := by
  cases h with
  | forgets _ hb howns => exact absurd howns (owns_apart ha hr ho hb)
  | records _ hb _ howns => exact absurd howns (owns_apart ha hr ho hb)
  | _ => exact ⟨rfl, rfl⟩

theorem lost_kept (ha : Apart s r other) (hr : r.stage.record = some record)
    (hl : Lost s.dir record) : Lost d' record := by
  intro f hf
  cases h with
  | clears => cases hf
  | publishes _ _ _ hother =>
    cases hf
    exact fun heq => ha.record record _ hr hother heq.symm
  | gives => cases hf
  | _ => exact hl f hf

theorem temporary_kept (ha : Apart s r other) {file : File} (hr : r.stage.record = some file.record)
    (hf : file ∈ s.dir.temporaries) :
    file ∈ d'.temporaries := by
  cases h with
  | creates => exact List.mem_append_left _ hf
  | drops f hother =>
    refine (List.mem_erase_of_ne fun heq => ?_).mpr hf
    exact ha.record _ _ hr hother (by rw [heq])
  | _ => exact hf

theorem pins_kept (ha : Apart s r other) (hr : r.stage.record = some record)
    (hp : Owns s.dir record → ∀ g, s.dir.claim = some g → g.record.nonce = record.nonce) :
    Owns d' record → ∀ g, d'.claim = some g → g.record.nonce = record.nonce := by
  rintro ⟨f, hf, hnonce⟩ g hg
  cases h with
  | claims _ _ _ hlock =>
    cases hg
    rw [hlock] at hf
    cases hf
    exact hnonce
  | clears => cases hf
  | publishes _ _ _ hother =>
    cases hf
    exact absurd hnonce.symm (ha.record _ _ hr hother)
  | unclaims => cases hg
  | gives => cases hf
  | _ => exact hp ⟨f, hf, hnonce⟩ g hg

end

end Effect

end Takoserver.Actor
