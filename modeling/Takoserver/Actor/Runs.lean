import Takoserver.Lib.Machine

/-!
# Actor native leases

`acquireActorNativeLease` of `src/selfhost-actor-lease.ts`.  Ownership of one key is spread over
four paths of a directory: the owner lock, the record of the native child, the marker directory and
the recovery claim, a hard link that pins the lock of a dead owner.  Each link, unlink, rename,
mkdir, read of a record and test of a process is one step, and anything may happen between two
steps.

The number of an inode is free again when no path names it, and a new file may take it.  A dead
process stays dead, and takes no further step; a test answers `stale` only of a dead process and
`live` only of one that is not, and may always answer `unknown`.  The calls of one lease come one
after the other, as `exclusive` of `src/selfhost-actor-execution-host.ts` has them.
-/

namespace Takoserver.Actor

/-! ### Files -/

/-- An inode number; the file system may give it again. -/
abbrev Inode := ℕ

/-- `LinuxProcessIdentity`: the boot, the namespace, the pid and its start name one process. -/
abbrev Process := ℕ

/-- Whom a lease is for. -/
structure Scope where
  tenantId : String
  namespaceResourceUid : String
  deriving DecidableEq

/-- The record in the lock. -/
structure OwnerRecord where
  nonce : String
  scope : Scope
  host : Process
  deriving DecidableEq

/-- The record of a native child. -/
structure ChildRecord where
  nonce : String
  scope : Scope
  child : Process
  deriving DecidableEq

/-- A file of an owner record. -/
structure File where
  inode : Inode
  record : OwnerRecord
  deriving DecidableEq

/-- The paths of one key, and the temporaries of `publishFile`. -/
structure Directory where
  lock : Option File := none
  claim : Option File := none
  child : Option ChildRecord := none
  marker : Bool := false
  temporaries : List File := []

/-- What `readRecord` returns of an owner record. -/
structure ReadRecord where
  value : OwnerRecord
  inode : Inode
  links : ℕ
  deriving DecidableEq

/-- `sameInode`. -/
def sameInode (a b : ReadRecord) : Bool := decide (a.inode = b.inode)

namespace Directory

variable (d : Directory)

/-- The names of files of owner records. -/
def files : List File := d.lock.toList ++ d.claim.toList ++ d.temporaries

/-- The names of an inode. -/
def links (inode : Inode) : ℕ := d.files.countP fun f => decide (f.inode = inode)

/-- `readRecord`. -/
def read (path : Option File) : Option ReadRecord :=
  path.map fun f => ⟨f.record, f.inode, d.links f.inode⟩

end Directory

/-- `LinuxProcessLiveness`. -/
inductive Liveness where
  | live
  | stale
  | unknown
  deriving DecidableEq

/-! ### Attempts -/

/-- A call on a lease between two of its steps. -/
inductive Call where
  | idle
  /-- `recordNative`. -/
  | testSelf (identity : Process)
  | recordLock (identity : Process)
  | recordClaim (identity : Process)
  | recordPrior (identity : Process)
  | testPrior (identity : Process) (prior : ChildRecord)
  | rename (identity : Process)
  | readBack (identity : Process)
  /-- `release`. -/
  | releaseLock
  | releaseClaim (current : Option ReadRecord)
  | releaseChild
  | testNative (native : ChildRecord)
  | removeMarker (native : Bool)
  | unlinkNative
  | unlinkOwner
  | hook
  | seeLock
  | seeMarker
  | seeChild
  | seeClaim
  deriving DecidableEq

/-- What `acquireActorNativeLease` returns. -/
structure Lease where
  owned : ReadRecord
  releaseStarted : Bool := false
  releaseHookInvoked : Bool := false
  released : Bool := false
  call : Call := .idle
  /-- The last call threw. -/
  failed : Bool := false
  deriving DecidableEq

/-- An attempt between two of its steps. -/
inductive Stage where
  | checkClaim
  | readLock
  | checkMarker
  | checkChild
  | testHost (previous : ReadRecord)
  | readChild (previous : ReadRecord)
  | testChild (previous : ReadRecord) (oldChild : ChildRecord)
  | linkClaim (previous : ReadRecord)
  | readPinned (previous : ReadRecord)
  | readCurrent (previous : ReadRecord) (pinned : Option ReadRecord)
  | readChildAgain (previous : ReadRecord) (pinned current : Option ReadRecord)
  | testHostAgain (previous current : ReadRecord) (childAgain : Option ChildRecord)
  | testChildAgain (previous : ReadRecord) (childAgain : ChildRecord)
  | unlinkLock (previous : ReadRecord)
  | create (previous : Option ReadRecord)
  | publish (previous : Option ReadRecord) (file : File)
  | dropTemporary (previous : Option ReadRecord) (file : File) (linked : Bool)
  | readOwned (previous : Option ReadRecord) (record : OwnerRecord)
  /-- `owned` has been read. -/
  | lookClaim (record : OwnerRecord) (owned : ReadRecord)
  | lookMarker (previous : Option ReadRecord) (record : OwnerRecord) (owned : ReadRecord)
  | makeMarker (previous : Option ReadRecord) (record : OwnerRecord) (owned : ReadRecord)
  | readClaim (previous : Option ReadRecord) (record : OwnerRecord) (owned : ReadRecord)
  | readOldChild (previous : ReadRecord) (record : OwnerRecord) (owned : ReadRecord)
  | testOldChild (record : OwnerRecord) (owned : ReadRecord) (oldChild : ChildRecord)
  | unlinkChild (record : OwnerRecord) (owned : ReadRecord)
  | unlinkClaim (record : OwnerRecord) (owned : ReadRecord)
  | readFinal (record : OwnerRecord) (owned : ReadRecord)
  | lastClaim (record : OwnerRecord) (owned : ReadRecord) (finalLock : Option ReadRecord)
  | held (record : OwnerRecord) (lease : Lease)
  | threw
  deriving DecidableEq

/-- An attempt to acquire the lease, and the lease. -/
structure Run where
  scope : Scope
  host : Process
  stage : Stage := .checkClaim

/-- What decides a step beside the directory. -/
inductive Answer where
  | go
  | liveness (l : Liveness)
  /-- The inode of a new file, and its nonce. -/
  | file (inode : Inode) (nonce : String)
  /-- `afterLockUnlinkBeforeSync` returns, or throws. -/
  | hook (returns : Bool)

/-- What a step leaves. -/
structure Result where
  run : Run
  dir : Directory
  /-- A native child is recorded. -/
  native : Option (String × Process) := none

/-- The process that a step tests. -/
def Run.tested (r : Run) : Option Process :=
  match r.stage with
  | .testHost previous => some previous.value.host
  | .testChild _ oldChild => some oldChild.child
  | .testHostAgain _ current _ => some current.value.host
  | .testChildAgain _ childAgain => some childAgain.child
  | .testOldChild _ _ oldChild => some oldChild.child
  | .held _ lease =>
      match lease.call with
      | .testSelf _ => some r.host
      | .testPrior _ prior => some prior.child
      | .testNative native => some native.child
      | _ => none
  | _ => none

namespace Run

variable (r : Run) (d : Directory)

/-- The run goes on to a stage. -/
def goes (stage : Stage) : Option Result := some { run := { r with stage }, dir := d }

/-- The run ends with an error. -/
def throws : Option Result := r.goes d .threw

/-- The holder begins a call. -/
def calls (record : OwnerRecord) (lease : Lease) (call : Call) : Option Result :=
  r.goes d (.held record { lease with call })

/-- The call throws. -/
def fails (record : OwnerRecord) (lease : Lease) : Option Result :=
  r.goes d (.held record { lease with call := .idle, failed := true })

/-- The holder's call is over. -/
def returns (record : OwnerRecord) (lease : Lease) : Option Result :=
  r.goes d (.held record { lease with call := .idle, failed := false })

/-- After the lock, `release` calls its hook once. -/
def afterUnlink (record : OwnerRecord) (lease : Lease) : Option Result :=
  r.goes d (.held record { lease with
    call := if lease.releaseHookInvoked then .seeLock else .hook
    releaseHookInvoked := true })

/-- The next step of `recordNative` or `release`. -/
def callStep (record : OwnerRecord) (lease : Lease) : Answer → Option Result := fun answer =>
  match lease.call, answer with
  | .testSelf identity, .liveness l =>
      if l = .live then r.calls d record lease (.recordLock identity) else r.fails d record lease
  | .recordLock identity, .go =>
      match d.read d.lock with
      | none => r.fails d record lease
      | some current =>
        if sameInode lease.owned current && decide (current.value.nonce = record.nonce) then
          r.calls d record lease (.recordClaim identity)
        else r.fails d record lease
  | .recordClaim identity, .go =>
      if d.claim.isSome then r.fails d record lease
      else r.calls d record lease (.recordPrior identity)
  | .recordPrior identity, .go =>
      match d.child with
      | none => r.calls d record lease (.rename identity)
      | some prior =>
        if prior.nonce = record.nonce ∧ prior.scope = r.scope then
          r.calls d record lease (.testPrior identity prior)
        else r.fails d record lease
  | .testPrior identity _, .liveness l =>
      if l = .stale then r.calls d record lease (.rename identity) else r.fails d record lease
  | .rename identity, .go =>
      some
        { run := { r with stage := .held record { lease with call := .readBack identity } }
          dir := { d with child := some ⟨record.nonce, r.scope, identity⟩ }
          native := some (record.nonce, identity) }
  | .readBack identity, .go =>
      match d.child with
      | none => r.fails d record lease
      | some persisted =>
        if persisted.nonce = record.nonce ∧ persisted.child = identity then
          r.returns d record lease
        else r.fails d record lease
  | .releaseLock, .go =>
      if lease.released then r.returns d record lease
      else r.calls d record lease (.releaseClaim (d.read d.lock))
  | .releaseClaim current, .go =>
      if (!lease.releaseStarted && current.isNone) ||
          current.any (fun c => !sameInode lease.owned c || decide (c.value.nonce ≠ record.nonce)) ||
          d.claim.isSome then
        r.fails d record lease
      else if lease.releaseStarted then
        if current.isSome then r.calls d record lease .unlinkOwner
        else r.afterUnlink d record lease
      else r.calls d record lease .releaseChild
  | .releaseChild, .go =>
      match d.child with
      | none => r.calls d record lease (.removeMarker false)
      | some native =>
        if native.nonce = record.nonce then r.calls d record lease (.testNative native)
        else r.fails d record lease
  | .testNative _, .liveness l =>
      if l = .stale then r.calls d record lease (.removeMarker true) else r.fails d record lease
  | .removeMarker native, .go =>
      r.calls { d with marker := false } record
        (if native then lease else { lease with releaseStarted := true })
        (if native then .unlinkNative else .unlinkOwner)
  | .unlinkNative, .go =>
      if d.child.isSome then
        r.calls { d with child := none } record { lease with releaseStarted := true } .unlinkOwner
      else r.fails d record lease
  | .unlinkOwner, .go =>
      if d.lock.isSome then r.afterUnlink { d with lock := none } record lease
      else r.fails d record lease
  | .hook, .hook ok => if ok then r.calls d record lease .seeLock else r.fails d record lease
  | .seeLock, .go =>
      if d.lock.isSome then r.fails d record lease else r.calls d record lease .seeMarker
  | .seeMarker, .go =>
      if d.marker then r.fails d record lease else r.calls d record lease .seeChild
  | .seeChild, .go =>
      if d.child.isSome then r.fails d record lease else r.calls d record lease .seeClaim
  | .seeClaim, .go =>
      if d.claim.isSome then r.fails d record lease
      else r.returns d record { lease with released := true }
  | _, _ => none

/-- The next step of an attempt. -/
def step : Answer → Option Result := fun answer =>
  match r.stage, answer with
  | .checkClaim, .go => if d.claim.isSome then r.throws d else r.goes d .readLock
  | .readLock, .go =>
      match d.read d.lock with
      | none => r.goes d .checkMarker
      | some previous =>
        if previous.value.scope = r.scope then r.goes d (.testHost previous) else r.throws d
  | .checkMarker, .go => if d.marker then r.throws d else r.goes d .checkChild
  | .checkChild, .go => if d.child.isSome then r.throws d else r.goes d (.create none)
  | .testHost previous, .liveness l =>
      if l = .stale then r.goes d (.readChild previous) else r.throws d
  | .readChild previous, .go =>
      match d.child with
      | none => r.goes d (.linkClaim previous)
      | some oldChild =>
        if oldChild.scope = r.scope ∧ oldChild.nonce = previous.value.nonce then
          r.goes d (.testChild previous oldChild)
        else r.throws d
  | .testChild previous _, .liveness l =>
      if l = .stale then r.goes d (.linkClaim previous) else r.throws d
  | .linkClaim previous, .go =>
      match d.lock, d.claim with
      | some f, none => r.goes { d with claim := some f } (.readPinned previous)
      | _, _ => r.throws d
  | .readPinned previous, .go => r.goes d (.readCurrent previous (d.read d.claim))
  | .readCurrent previous pinned, .go =>
      r.goes d (.readChildAgain previous pinned (d.read d.lock))
  | .readChildAgain previous pinned current, .go =>
      match pinned, current with
      | some pinned, some current =>
        if sameInode previous pinned && sameInode previous current &&
            decide (current.links = 2 ∧ current.value.scope = r.scope) then
          r.goes d (.testHostAgain previous current d.child)
        else r.throws d
      | _, _ => r.throws d
  | .testHostAgain previous current childAgain, .liveness l =>
      if l = .stale then
        match childAgain with
        | none => r.goes d (.unlinkLock previous)
        | some again =>
          if again.scope = r.scope ∧ again.nonce = current.value.nonce then
            r.goes d (.testChildAgain previous again)
          else r.throws d
      else r.throws d
  | .testChildAgain previous _, .liveness l =>
      if l = .stale then r.goes d (.unlinkLock previous) else r.throws d
  | .unlinkLock previous, .go =>
      if d.lock.isSome then r.goes { d with lock := none } (.create (some previous))
      else r.throws d
  | .create previous, .file inode nonce =>
      if d.files.all fun f => decide (f.inode ≠ inode) then
        r.goes { d with temporaries := d.temporaries ++ [⟨inode, ⟨nonce, r.scope, r.host⟩⟩] }
          (.publish previous ⟨inode, ⟨nonce, r.scope, r.host⟩⟩)
      else none
  | .publish previous file, .go =>
      if d.lock.isSome then r.goes d (.dropTemporary previous file false)
      else r.goes { d with lock := some file } (.dropTemporary previous file true)
  | .dropTemporary previous file linked, .go =>
      r.goes { d with temporaries := d.temporaries.erase file }
        (if linked then .readOwned previous file.record else .threw)
  | .readOwned previous record, .go =>
      match d.read d.lock with
      | none => r.throws d
      | some owned =>
        if owned.value.nonce = record.nonce then
          r.goes d (if previous.isSome then .lookMarker previous record owned
            else .lookClaim record owned)
        else r.throws d
  | .lookClaim record owned, .go =>
      if d.claim.isSome then r.throws d else r.goes d (.lookMarker none record owned)
  | .lookMarker previous record owned, .go =>
      r.goes d (if d.marker then .readClaim previous record owned
        else .makeMarker previous record owned)
  | .makeMarker previous record owned, .go =>
      if d.marker then r.throws d
      else r.goes { d with marker := true } (.readClaim previous record owned)
  | .readClaim previous record owned, .go =>
      match previous, d.read d.claim with
      | some previous, some claimRecord =>
        if sameInode previous claimRecord then r.goes d (.readOldChild previous record owned)
        else r.throws d
      | some _, none => r.throws d
      | none, some _ => r.throws d
      | none, none => r.goes d (.readFinal record owned)
  | .readOldChild previous record owned, .go =>
      match d.child with
      | none => r.goes d (.unlinkClaim record owned)
      | some oldChild =>
        if oldChild.nonce = previous.value.nonce then
          r.goes d (.testOldChild record owned oldChild)
        else r.throws d
  | .testOldChild record owned _, .liveness l =>
      if l = .stale then r.goes d (.unlinkChild record owned) else r.throws d
  | .unlinkChild record owned, .go =>
      if d.child.isSome then r.goes { d with child := none } (.unlinkClaim record owned)
      else r.throws d
  | .unlinkClaim record owned, .go =>
      if d.claim.isSome then r.goes { d with claim := none } (.readFinal record owned)
      else r.throws d
  | .readFinal record owned, .go => r.goes d (.lastClaim record owned (d.read d.lock))
  | .lastClaim record owned finalLock, .go =>
      if d.claim.isNone && finalLock.any (sameInode owned) then
        r.goes d (.held record { owned })
      else r.throws d
  | .held record lease, answer => r.callStep d record lease answer
  | _, _ => none

end Run

/-! ### The machine -/

/-- All runs over one directory. -/
structure System where
  dir : Directory := {}
  runs : List Run := []
  /-- The processes that have died. -/
  dead : List Process := []
  /-- The nonces that `randomUUID` has given. -/
  nonces : List String := []
  /-- History: the native children that leases of the nonces have recorded. -/
  natives : List (String × Process) := []

/-- One move: a new run, a step or a call of one, or a death. -/
inductive Action where
  | acquire (scope : Scope) (host : Process)
  | step (i : ℕ) (answer : Answer)
  | recordNative (i : ℕ) (identity : Process)
  | release (i : ℕ)
  | die (process : Process)

namespace System

variable (s : System)

/-- The answer is one that the world may give. -/
def admits (r : Run) : Answer → Bool
  | .liveness l => r.tested.any fun process =>
      match l with
      | .stale => decide (process ∈ s.dead)
      | .live => decide (process ∉ s.dead)
      | .unknown => true
  | .file _ nonce => decide (nonce ∉ s.nonces)
  | _ => true

/-- The nonces after an answer. -/
def drawn : Answer → List String
  | .file _ nonce => nonce :: s.nonces
  | _ => s.nonces

/-- A call on a lease begins when there is none. -/
def begin (i : ℕ) (call : Call) : Option System :=
  match s.runs[i]? with
  | none => none
  | some r =>
    match r.stage with
    | .held record lease =>
      if r.host ∉ s.dead ∧ lease.call = .idle then
        some { s with runs := s.runs.set i { r with stage := .held record { lease with call } } }
      else none
    | _ => none

/-- The machine. -/
def next (s : System) : Action → Option System
  | .acquire scope host =>
      if host ∉ s.dead then some { s with runs := s.runs ++ [{ scope, host }] } else none
  | .step i answer =>
      match s.runs[i]? with
      | none => none
      | some r =>
        if r.host ∉ s.dead ∧ s.admits r answer = true then
          (r.step s.dir answer).map fun result =>
            { s with
              dir := result.dir
              runs := s.runs.set i result.run
              nonces := s.drawn answer
              natives := s.natives ++ result.native.toList }
        else none
  | .recordNative i identity => s.begin i (.testSelf identity)
  | .release i => s.begin i .releaseLock
  | .die process => some { s with dead := process :: s.dead }

end System

/-- The machine of all interleavings. -/
def leases : Machine System Action where
  init := {}
  next := System.next

/-! ### Holding a lease -/

/-- The attempt has returned its lease, and no release has removed the lock. -/
def Run.holds (r : Run) : Bool :=
  match r.stage with
  | .held _ lease => !lease.releaseStarted || decide (lease.call = .unlinkOwner)
  | _ => false

end Takoserver.Actor
