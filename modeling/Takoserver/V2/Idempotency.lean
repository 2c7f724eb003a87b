import Takoserver.V2.Lockstep
import Takoserver.V2.Acceptance

/-!
# Idempotent acceptance

The unique key of a principal lets one Operation in; whoever loses the race finds it
by its key and compares the fingerprint.  The invariant `Idempotent` says, for each
place a request can stand at, what it knows about the Operation of its key: what it
compares, and what it answers with, is that Operation.
-/

namespace Takoserver.V2

/-! ### The columns that never change -/

/-- The columns of an Operation no statement assigns, as far as a replay reads them. -/
def OperationRow.identity (o : OperationRow) : Uuid × Uuid × String × String × String × Bool :=
  (o.id, o.resourceUid, o.principal, o.replayKey, o.requestFingerprint, o.privateInputsPresent)

variable {db' : Db} {o : OperationRow}

variable {db : Db}

/-- Progress keeps the identities of the accepted Operations. -/
theorem Progress.map_identity (hl : Lockstep db) (hp : Progress db db') :
    db'.operations.map OperationRow.identity = db.operations.map OperationRow.identity := by
  have hput : ∀ {old new : OperationRow}, old ∈ db.operations → new.id = old.id →
      new.identity = old.identity →
      (Table.put OperationRow.id new db.operations).map OperationRow.identity =
        db.operations.map OperationRow.identity := by
    intro old new hold hid hsame
    refine Table.map_put _ fun x hx hk => ?_
    rw [Table.eq_of_key hl.ids hx hold (hk.trans hid), hsame]
  cases hp with
  | inputs => rfl
  | status _ _ _ hold hupdate =>
    obtain ⟨hid, huid, hp, hk, hf, -, -, hi, -⟩ := Db.updateOperation_assigns hupdate
    rw [(Db.updateOperation_rows hupdate).1]
    refine hput hold hid ?_
    simp only [OperationRow.identity, hid, huid, hp, hk, hf, hi]
  | defer _ _ hold => exact hput hold rfl rfl

theorem Write.map_identity (hl : Lockstep db) (hw : Write db db') :
    db'.operations.map OperationRow.identity = db.operations.map OperationRow.identity ∨
      ∃ record, db'.operations.map OperationRow.identity =
          db.operations.map OperationRow.identity ++ [(Db.acceptedOperation record).identity] ∧
        ∀ o ∈ db.operations, ¬ (o.principal = record.principal ∧ o.replayKey = record.key) := by
  have haccepted : ∀ {record references rows'}, Accepted db db' record references rows' →
      ∃ record, db'.operations.map OperationRow.identity =
          db.operations.map OperationRow.identity ++ [(Db.acceptedOperation record).identity] ∧
        ∀ o ∈ db.operations, ¬ (o.principal = record.principal ∧ o.replayKey = record.key) := by
    intro record references rows' hacc
    refine ⟨record, ?_, hacc.keys⟩
    rw [hacc.operations, List.map_append]
    rfl
  cases hw with
  | progress hp => exact Or.inl (hp.map_identity hl)
  | create _ _ _ _ _ _ _ _ _ _ hacc =>
    exact Or.inr (haccepted hacc)
  | change record references r haction hreferences hr huid hprincipal hlive hgeneration hfree
      hdelete hcheck hacc =>
    exact Or.inr (haccepted hacc)

/-- The principal and key of an identity. -/
def identityKey (i : Uuid × Uuid × String × String × String × Bool) : String × String :=
  (i.2.2.1, i.2.2.2.1)

/-- **The pairs of principal and Idempotency-Key are unique.** -/
theorem keys_of_reachable (h : store.Reachable db) :
    ((db.operations.map OperationRow.identity).map identityKey).Nodup := by
  refine Machine.Reachable.invariant
    (P := fun db => ((db.operations.map OperationRow.identity).map identityKey).Nodup)
    (by simp [store]) ?_ h
  intro db action db' hr hdb hn
  have hl := lockstep_of_reachable hr
  rcases (hl.write_next hn).map_identity hl with hsame | ⟨_, hnew, hfree⟩
  · rw [hsame]
    exact hdb
  · rw [hnew]
    refine Table.nodup_insert hdb fun i hi hk => ?_
    obtain ⟨o, ho, rfl⟩ := List.mem_map.mp hi
    simp only [identityKey, OperationRow.identity, Db.acceptedOperation, Prod.mk.injEq] at hk
    exact hfree o ho hk

theorem eq_of_same_key (h : store.Reachable db) {p : OperationRow}
    (ho : o ∈ db.operations) (hp : p ∈ db.operations) (hprincipal : o.principal = p.principal)
    (hkey : o.replayKey = p.replayKey) : o = p := by
  have hn := keys_of_reachable h
  rw [List.map_map] at hn
  refine Table.eq_of_key hn ho hp ?_
  simp only [Function.comp, identityKey, OperationRow.identity, hprincipal, hkey]

/-- An Operation belongs to a Resource of its own principal. -/
def SamePrincipal (db : Db) : Prop :=
  ∀ o ∈ db.operations, ∀ r ∈ db.resources, r.uid = o.resourceUid → r.principal = o.principal

theorem SamePrincipal.progress (hl : Lockstep db) (h : SamePrincipal db)
    (hp : Progress db db') : SamePrincipal db' := by
  have hops := hp.map_identity hl
  have hres : db'.resources.map (fun r => (r.uid, r.principal)) =
      db.resources.map (fun r => (r.uid, r.principal)) := by
    cases hp with
    | inputs => rfl
    | status _ _ _ _ hupdate =>
      obtain ⟨-, -, -, ⟨-, hres⟩ | ⟨-, r, hr, -, -, -, hres⟩⟩ := Db.updateOperation_rows hupdate
      · rw [hres]
      · rw [hres]
        refine Table.map_put _ fun x hx hk => ?_
        rw [Table.eq_of_key hl.uids hx (Table.find_some hr).1 hk]
        rfl
    | defer => rfl
  intro o ho r hr huid
  obtain ⟨o', ho', hoid⟩ := Table.exists_of_map_eq hops ho
  obtain ⟨r', hr', hrid⟩ := Table.exists_of_map_eq hres hr
  simp only [OperationRow.identity, Prod.mk.injEq] at hoid hrid
  rw [← hrid.2, ← hoid.2.2.1]
  exact h o' ho' r' hr' (by rw [hrid.1, hoid.2.1, huid])

theorem samePrincipal_of_reachable (h : store.Reachable db) : SamePrincipal db := by
  refine Machine.Reachable.invariant (by intro o ho; simp [store] at ho) ?_ h
  intro db action db' hr hdb hn
  have hl := lockstep_of_reachable hr
  cases hl.write_next hn with
  | progress hp => exact hdb.progress hl hp
  | create _ _ _ _ _ _ _ _ _ huid hacc =>
    intro o ho r hrow hk
    rw [hacc.operations, List.mem_append, List.mem_singleton] at ho
    rw [hacc.resources, List.mem_append, List.mem_singleton] at hrow
    rcases ho with ho | rfl <;> rcases hrow with hrow | rfl
    · exact hdb o ho r hrow hk
    · obtain ⟨s, hs, hsu, -⟩ := hl.owned o ho
      exact absurd (hsu.trans hk.symm) (huid s hs)
    · exact absurd hk (huid r hrow)
    · rfl
  | change record references r haction hreferences hmem huid hprincipal hlive hgeneration hfree
      hdelete hcheck hacc =>
    intro o ho s hs hk
    rw [hacc.operations, List.mem_append, List.mem_singleton] at ho
    rw [hacc.resources, Table.mem_put] at hs
    rcases ho with ho | rfl <;> rcases hs with ⟨hs, hne⟩ | ⟨rfl, -⟩
    · exact hdb o ho s hs hk
    · exact hdb o ho r hmem hk
    · exact absurd (hk.trans huid.symm) hne
    · exact hprincipal

/-! ### Where a request stands -/

/-- The Operation a request was accepted as. -/
def OfRequest (sha256 : String → String) (r : Request) (o : OperationRow) : Prop :=
  o.principal = r.principal ∧ o.replayKey = r.key ∧ o.requestFingerprint = r.digest sha256

/-- A row read under a request's key: the Operation it was is still accepted. -/
def Known (db : Db) (r : Request) (row : OperationRow) : Prop :=
  row.identity ∈ db.operations.map OperationRow.identity ∧ row.principal = r.principal ∧
    row.replayKey = r.key

/-- The fingerprint comparison of `replay`. -/
def SameFingerprint (sha256 : String → String) (r : Request) (row : OperationRow) : Prop :=
  row.requestFingerprint = r.digest sha256 ∨ row.requestFingerprint = r.canonicalText

/-- What a request knows about the Operation of its key, where it stands. -/
def Standing (sha256 : String → String) (r : Request) (db : Db) : Process → Prop
  | .comparing existing => Known db r existing
  | .matching existing _ => Known db r existing ∧ SameFingerprint sha256 r existing
  | .committing record _ =>
      record.principal = r.principal ∧ record.key = r.key ∧ record.fingerprint = r.digest sha256
  | .reading id => ∃ o ∈ db.operations, o.id = id ∧ OfRequest sha256 r o
  | .done (.ok row) => Known db r row ∧ SameFingerprint sha256 r row
  | _ => True

/-- Every accepted Operation is still accepted. -/
def KeepsOperations (db db' : Db) : Prop :=
  ∀ i ∈ db.operations.map OperationRow.identity, i ∈ db'.operations.map OperationRow.identity

theorem OfRequest.of_identity {sha256 : String → String} {r : Request} {p : OperationRow}
    (h : OfRequest sha256 r o) (hid : p.identity = o.identity) : OfRequest sha256 r p := by
  simp only [OperationRow.identity, Prod.mk.injEq] at hid
  obtain ⟨-, -, hp, hk, hf, -⟩ := hid
  exact ⟨hp.trans h.1, hk.trans h.2.1, hf.trans h.2.2⟩

/-- What a request knows stays true while others write. -/
theorem Standing.mono {sha256 : String → String} {r : Request} {process : Process}
    (hk : KeepsOperations db db') (h : Standing sha256 r db process) : Standing sha256 r db' process := by
  cases process with
  | comparing => exact ⟨hk _ h.1, h.2⟩
  | matching => exact ⟨⟨hk _ h.1.1, h.1.2⟩, h.2⟩
  | committing => exact h
  | reading id =>
    obtain ⟨o, ho, rfl, hof⟩ := h
    obtain ⟨o', ho', hid⟩ := List.mem_map.mp (hk _ (List.mem_map_of_mem ho))
    refine ⟨o', ho', ?_, hof.of_identity hid⟩
    simp only [OperationRow.identity, Prod.mk.injEq] at hid
    exact hid.1
  | done reply =>
    cases reply with
    | error => trivial
    | ok => exact ⟨⟨hk _ h.1.1, h.1.2⟩, h.2⟩
  | looking => trivial
  | entering => trivial
  | checking => trivial
  | refusing => trivial
  | rereading => trivial
  | lost => trivial

/-! ### A step of a request -/

section StepRequest

variable {sha256 : String → String} {r : Request} {db : Db} {c : Circumstance}

/-- **An acceptance batch is one batch of the store, and all or nothing.** -/
theorem batch_cases {record : AcceptRecord} {p : Preparation} {result : Acceptance}
    (hl : Lockstep db) (hwf : (r.batch record p).wellFormed db = true)
    (h : (r.batch record p).answer db = some (db', result)) :
    store.next db (r.batch record p) = some db' ∧
      ((result ≠ .accepted ∧ db' = db) ∨
        (result = .accepted ∧
          db'.operations = db.operations ++ [Db.acceptedOperation record])) := by
  have hnext : store.next db (r.batch record p) = some ((r.batch record p).apply db) := by
    simp [store, hwf]
  rw [hnext]
  cases r <;> simp only [Request.batch, StoreAction.answer] at h <;>
    refine ⟨by simp only [Request.batch, StoreAction.apply, h, Option.map_some, Option.getD_some],
      ?_⟩
  case create =>
    rcases Db.insertCreate_cases h with hno | ⟨hyes, -, -, hacc, -⟩
    · exact Or.inl hno
    · exact Or.inr ⟨hyes, hacc.operations⟩
  case update | delete =>
    simp only [Request.batch, StoreAction.wellFormed, Bool.and_eq_true,
      Option.isNone_iff_eq_none] at hwf
    rcases Db.insertChange_cases hwf.1.1 hl.busy_exists h with
      hno | ⟨hyes, _, -, -, -, -, -, -, -, -, hacc, -⟩
    · exact Or.inl hno
    · exact Or.inr ⟨hyes, hacc.operations⟩

section

variable {process : Process} (hl : Lockstep db)
  (hwf : ∀ record p, process = .committing record p → (r.batch record p).wellFormed db = true)

include hl hwf

/-- **Only an accepted batch of its own changes anything**: every other step of a request
leaves the database alone. -/
theorem stepRequest_db :
    ((stepRequest sha256 r db c process).2 = db ∧ acceptedNow r db process = none) ∨
      ∃ record p, process = .committing record p ∧
        acceptedNow r db process = some record.id ∧
        store.next db (r.batch record p) = some (stepRequest sha256 r db c process).2 ∧
        (stepRequest sha256 r db c process).2.operations =
          db.operations ++ [Db.acceptedOperation record] := by
  cases process with
  | committing record p =>
    have hbatch := hwf record p rfl
    cases ha : (r.batch record p).answer db with
    | none =>
      left
      simp only [stepRequest, acceptedNow, ha]
      exact ⟨trivial, trivial⟩
    | some answer =>
      obtain ⟨db', result⟩ := answer
      obtain ⟨hnext, hcases⟩ := batch_cases hl hbatch ha
      have hdb : (stepRequest sha256 r db c (.committing record p)).2 = db' := by
        simp only [stepRequest, ha]
        split
        · rfl
        · split <;> rfl
      rw [hdb]
      rcases hcases with ⟨hno, rfl⟩ | ⟨rfl, hops⟩
      · left
        refine ⟨rfl, ?_⟩
        simp only [acceptedNow, ha]
        cases result <;> first | rfl | exact absurd rfl hno
      · right
        refine ⟨record, p, rfl, ?_, hnext, hops⟩
        simp only [acceptedNow, ha]
  | checking target =>
    left
    refine ⟨?_, rfl⟩
    cases r <;> cases target <;> dsimp only [stepRequest]
    all_goals repeat' split
    all_goals rfl
  | _ =>
    left
    refine ⟨?_, rfl⟩
    simp only [stepRequest]
    repeat' split
    all_goals rfl

theorem stepRequest_standing (h : Standing sha256 r db process) :
    Standing sha256 r (stepRequest sha256 r db c process).2 (stepRequest sha256 r db c process).1 := by
  -- what a stage read of the key holds at the next one
  cases process with
  | looking =>
    simp only [stepRequest]
    split
    · next hfind =>
      have hmem := List.mem_of_find?_eq_some hfind
      have hkey := List.find?_some hfind
      simp only [Bool.and_eq_true, beq_iff_eq] at hkey
      exact ⟨List.mem_map_of_mem hmem, hkey⟩
    · split <;> trivial
  | comparing existing =>
    simp only [stepRequest]
    split
    · trivial
    split
    · trivial
    next hsame =>
    have hfingerprint : SameFingerprint sha256 r existing := by
      unfold SameFingerprint
      by_contra hn
      rw [not_or] at hn
      exact hsame hn
    split
    · split
      · trivial
      · exact ⟨h, hfingerprint⟩
    · exact ⟨h, hfingerprint⟩
  | matching =>
    simp only [stepRequest]
    split
    · split
      · trivial
      · trivial
      · exact h
    · trivial
  | checking target =>
    cases r <;> cases target <;> dsimp only [stepRequest]
    all_goals repeat' split
    all_goals trivial
  | committing record p =>
    have hbatch := hwf record p rfl
    cases ha : (r.batch record p).answer db with
    | none =>
      simp only [stepRequest, ha]
      trivial
    | some answer =>
      obtain ⟨_, _⟩ := answer
      simp only [stepRequest, ha]
      split
      · trivial
      · split
        · next hyes =>
          rcases (batch_cases hl hbatch ha).2 with ⟨hno, -⟩ | ⟨-, hops⟩
          · exact absurd hyes hno
          · refine ⟨Db.acceptedOperation record, by rw [hops]; simp, rfl, h.1, h.2.1, h.2.2⟩
        · trivial
  | reading id =>
    simp only [stepRequest]
    split
    · trivial
    · next row hrow =>
      obtain ⟨o, ho, hoid, hof⟩ := h
      obtain ⟨hmem, hid⟩ := Table.find_some hrow
      have heq : row = o := Table.eq_of_key hl.ids hmem ho (hid.trans hoid.symm)
      rw [heq]
      exact ⟨⟨List.mem_map_of_mem ho, hof.1, hof.2.1⟩, Or.inl hof.2.2⟩
  | done reply =>
    cases reply with
    | error => trivial
    | ok => exact h
  | entering =>
    simp only [stepRequest]
    repeat' split
    all_goals trivial
  | refusing =>
    simp only [stepRequest]
    repeat' split
    all_goals trivial
  | rereading =>
    simp only [stepRequest]
    repeat' split
    all_goals trivial
  | lost => trivial

end

end StepRequest

/-! ### The invariant of the intake -/

/-- Every accepted Operation is of a request, and every request knows what it should. -/
structure Idempotent (sha256 : String → String) (requests : ℕ → Request) (s : Intake) : Prop where
  reachable : store.Reachable s.db
  /-- Only requests accept. -/
  logged : ∀ o ∈ s.db.operations, ∃ i, (i, o.id) ∈ s.accepted
  own : ∀ i id, (i, id) ∈ s.accepted →
    ∃ o ∈ s.db.operations, o.id = id ∧ OfRequest sha256 (requests i) o
  standing : ∀ i, Standing sha256 (requests i) s.db (s.process i)

section Intake

variable {sha256 : String → String} {requests : ℕ → Request} {s : Intake}

variable {i : ℕ} {id : Uuid}

theorem Idempotent.own_mono (h : Idempotent sha256 requests s) (hk : KeepsOperations s.db db')
    (hi : (i, id) ∈ s.accepted) :
    ∃ o ∈ db'.operations, o.id = id ∧ OfRequest sha256 (requests i) o := by
  obtain ⟨o, ho, rfl, hof⟩ := h.own i id hi
  obtain ⟨o', ho', hid⟩ := List.mem_map.mp (hk _ (List.mem_map_of_mem ho))
  refine ⟨o', ho', ?_, hof.of_identity hid⟩
  simp only [OperationRow.identity, Prod.mk.injEq] at hid
  exact hid.1

theorem keepsOperations_of_eq
    (h : db'.operations.map OperationRow.identity = db.operations.map OperationRow.identity) :
    KeepsOperations db db' := by
  intro i hi
  rw [h]
  exact hi

/-- A batch that accepts nothing. -/
theorem Idempotent.other (h : Idempotent sha256 requests s) {action : StoreAction}
    (hacc : action.isAcceptance = false) :
    Idempotent sha256 requests { s with db := action.apply s.db } := by
  have hl := lockstep_of_reachable h.reachable
  have hprogress : Progress s.db (action.apply s.db) := progress_apply hacc
  have hsame := hprogress.map_identity hl
  have hk := keepsOperations_of_eq hsame
  refine ⟨?_, ?_, fun i id hi => h.own_mono hk hi, fun i => (h.standing i).mono hk⟩
  · refine h.reachable.next (a := action) ?_
    have hwf : action.wellFormed s.db = true := by
      cases action <;> first | rfl | cases hacc
    simp [store, hwf]
  · intro o ho
    obtain ⟨o', ho', hid⟩ := Table.exists_of_map_eq hsame ho
    simp only [OperationRow.identity, Prod.mk.injEq] at hid
    obtain ⟨i, hi⟩ := h.logged o' ho'
    exact ⟨i, by rw [← hid.1]; exact hi⟩

theorem standing_update (h : Idempotent sha256 requests s) {process : Process}
    (hk : KeepsOperations s.db db') (hi : Standing sha256 (requests i) db' process) (j : ℕ) :
    Standing sha256 (requests j) db' (Function.update s.process i process j) := by
  by_cases hj : j = i
  · subst hj
    rw [Function.update_self]
    exact hi
  · rw [Function.update_of_ne hj]
    exact (h.standing j).mono hk

theorem Idempotent.step (h : Idempotent sha256 requests s) {c : Circumstance}
    (hfresh : s.fresh requests i = true) :
    Idempotent sha256 requests
      { db := (stepRequest sha256 (requests i) s.db c (s.process i)).2
        process := Function.update s.process i (stepRequest sha256 (requests i) s.db c (s.process i)).1
        accepted := s.accepted ++
          ((acceptedNow (requests i) s.db (s.process i)).map fun id => (i, id)).toList } := by
  have hl := lockstep_of_reachable h.reachable
  have hwf : ∀ record p, s.process i = .committing record p →
      ((requests i).batch record p).wellFormed s.db = true := by
    intro record p hp
    simpa only [Intake.fresh, hp] using hfresh
  have hstanding := stepRequest_standing (c := c) hl hwf (h.standing i)
  rcases @stepRequest_db sha256 (requests i) s.db c (s.process i) hl hwf with
    ⟨hdb, hnone⟩ | ⟨record, p, hprocess, hsome, hnext, hops⟩
  · rw [hdb] at hstanding
    simp only [hdb, hnone, Option.map_none, Option.toList_none, List.append_nil]
    exact ⟨h.reachable, h.logged, h.own,
      standing_update h (fun _ hx => hx) hstanding⟩
  · have hk : KeepsOperations s.db (stepRequest sha256 (requests i) s.db c (s.process i)).2 := by
      intro x hx
      rw [hops, List.map_append]
      exact List.mem_append_left _ hx
    simp only [hsome, Option.map_some, Option.toList_some]
    refine ⟨h.reachable.next hnext, ?_, ?_, standing_update h hk hstanding⟩
    · intro o ho
      rw [hops, List.mem_append, List.mem_singleton] at ho
      rcases ho with ho | rfl
      · obtain ⟨j, hj⟩ := h.logged o ho
        exact ⟨j, List.mem_append_left _ hj⟩
      · exact ⟨i, List.mem_append_right _ (List.mem_singleton_self _)⟩
    · intro j id hj
      rw [List.mem_append, List.mem_singleton] at hj
      rcases hj with hj | hj
      · exact h.own_mono hk hj
      · obtain ⟨rfl, rfl⟩ := Prod.mk.inj hj
        have hs := h.standing j
        rw [hprocess] at hs
        exact ⟨Db.acceptedOperation record, by rw [hops]; simp, rfl, hs.1, hs.2.1, hs.2.2⟩

/-- **The invariant holds of every state the requests reach.** -/
theorem idempotent_of_reachable (hs : (intake sha256 requests).Reachable s) :
    Idempotent sha256 requests s := by
  refine Machine.Reachable.invariant ?_ ?_ hs
  · refine ⟨Machine.PathVia.refl _, by simp [intake], by simp [intake], fun i => ?_⟩
    simp only [intake]
    cases requests i <;> trivial
  intro s action s' _ h hn
  cases action with
  | step =>
    simp only [intake] at hn
    split at hn
    · next hfresh =>
      rw [Option.some.injEq] at hn
      rw [← hn]
      exact h.step hfresh
    · cases hn
  | crash i =>
    simp only [intake, Option.some.injEq] at hn
    rw [← hn]
    exact ⟨h.reachable, h.logged, h.own, standing_update h (fun _ hx => hx) trivial⟩
  | other =>
    simp only [intake] at hn
    split at hn
    · cases hn
    · next hacc =>
      rw [Option.some.injEq] at hn
      rw [← hn]
      exact h.other (by simpa using hacc)

theorem Idempotent.ofRequest_of_key (h : Idempotent sha256 requests s) {j : ℕ}
    (hj : (j, id) ∈ s.accepted) (ho : o ∈ s.db.operations)
    (hp : o.principal = (requests j).principal) (hk : o.replayKey = (requests j).key) :
    o.id = id ∧ OfRequest sha256 (requests j) o := by
  obtain ⟨a, ha, haid, haof⟩ := h.own j id hj
  have heq : o = a := eq_of_same_key h.reachable ho ha (hp.trans haof.1.symm)
    (hk.trans haof.2.1.symm)
  rw [heq]
  exact ⟨haid, haof⟩

theorem Idempotent.fingerprint_of_known (h : Idempotent sha256 requests s) {j : ℕ}
    (hj : (j, id) ∈ s.accepted) (hp : (requests i).principal = (requests j).principal)
    (hk : (requests i).key = (requests j).key) {row : OperationRow}
    (hrow : Known s.db (requests i) row) :
    row.id = id ∧ row.requestFingerprint = (requests j).digest sha256 := by
  obtain ⟨o, ho, hid⟩ := List.mem_map.mp hrow.1
  simp only [OperationRow.identity, Prod.mk.injEq] at hid
  obtain ⟨hoid, -, hop, hok, hof, -⟩ := hid
  obtain ⟨hsame, hreq⟩ := h.ofRequest_of_key hj ho (by rw [hop, hrow.2.1, hp])
    (by rw [hok, hrow.2.2, hk])
  exact ⟨by rw [← hoid, hsame], by rw [← hof, hreq.2.2]⟩

/-- **Idempotent acceptance.**  Let SHA-256 have no collision among the canonical texts of the
requests made.  Then in every state the requests reach:
* all requests accepted under one principal and key were accepted as one Operation, the
  database holds exactly the accepted Operations, and one at most of a key;
* a request answered without an error is answered with the Operation of its key;
* a request whose method, target, expected generation or canonical body differs from the
  accepted one's, and so its canonical text, is never answered with an Operation, none of its steps writes anything, a
  lookup it makes finds the accepted Operation, and one that found it answers
  `idempotency_conflict` unless the principal may no longer write. -/
theorem idempotent_acceptance
    (hdigest : ∀ i j, (requests i).digest sha256 = (requests j).digest sha256 →
      (requests i).canonicalText = (requests j).canonicalText)
    (hs : (intake sha256 requests).Reachable s) :
    (∀ i j id id', (i, id) ∈ s.accepted → (j, id') ∈ s.accepted →
      (requests i).principal = (requests j).principal → (requests i).key = (requests j).key →
        id = id') ∧
    (∀ id, (∃ i, (i, id) ∈ s.accepted) ↔ ∃ o ∈ s.db.operations, o.id = id) ∧
    (∀ o ∈ s.db.operations, ∀ p ∈ s.db.operations, o.principal = p.principal →
      o.replayKey = p.replayKey → o = p) ∧
    (∀ i row, s.process i = .done (.ok row) → ∃ o ∈ s.db.operations, o.id = row.id ∧
      o.principal = (requests i).principal ∧ o.replayKey = (requests i).key) ∧
    (∀ i j id, (j, id) ∈ s.accepted → (requests i).principal = (requests j).principal →
      (requests i).key = (requests j).key →
      (requests i).canonicalText ≠ (requests j).canonicalText →
      (∀ row, s.process i ≠ .done (.ok row)) ∧
      ∀ c s', (intake sha256 requests).next s (.step i c) = some s' →
        s'.db = s.db ∧
        (∀ stage, s.process i = .looking stage →
          ∃ existing, existing.id = id ∧ s'.process i = .comparing existing) ∧
        (∀ existing, s.process i = .comparing existing → c.authorized = true →
          (requests i).principal ≠ "" →
          s'.process i = .done (.error .idempotencyConflict))) := by
  have h := idempotent_of_reachable hs
  have hl := lockstep_of_reachable h.reachable
  refine ⟨?_, ?_, ?_, ?_, ?_⟩
  · intro i j id id' hi hj hp hk
    obtain ⟨o, ho, rfl, hof⟩ := h.own i id hi
    exact (h.ofRequest_of_key hj ho (hof.1.trans hp) (hof.2.1.trans hk)).1
  · intro id
    constructor
    · rintro ⟨i, hi⟩
      obtain ⟨o, ho, hid, -⟩ := h.own i id hi
      exact ⟨o, ho, hid⟩
    · rintro ⟨o, ho, rfl⟩
      exact h.logged o ho
  · intro o ho p hp hprincipal hkey
    exact eq_of_same_key h.reachable ho hp hprincipal hkey
  · intro i row hdone
    have hstanding := h.standing i
    rw [hdone] at hstanding
    obtain ⟨o, ho, hid⟩ := List.mem_map.mp hstanding.1.1
    simp only [OperationRow.identity, Prod.mk.injEq] at hid
    exact ⟨o, ho, hid.1, hid.2.2.1.trans hstanding.1.2.1, hid.2.2.2.1.trans hstanding.1.2.2⟩
  · intro i j id hj hp hk hne
    -- a row under the key carries the accepted request's fingerprint, which is another one
    have hother : ∀ row, Known s.db (requests i) row →
        ¬ SameFingerprint sha256 (requests i) row := by
      rintro _ hrow (hsame | hsame)
      · rw [(h.fingerprint_of_known hj hp hk hrow).2] at hsame
        exact hne (hdigest j i hsame).symm
      · rw [(h.fingerprint_of_known hj hp hk hrow).2] at hsame
        exact Request.digest_ne_canonicalText sha256 _ _ hsame
    refine ⟨fun row hdone => ?_, fun c s' hn => ?_⟩
    · have hstanding := h.standing i
      rw [hdone] at hstanding
      exact hother row hstanding.1 hstanding.2
    simp only [intake] at hn
    split at hn
    · next hfresh =>
      rw [Option.some.injEq] at hn
      subst hn
      simp only [Function.update_self]
      refine ⟨?_, ?_, ?_⟩
      · rcases @stepRequest_db sha256 (requests i) s.db c (s.process i) hl (by
            intro record p hprocess
            simpa only [Intake.fresh, hprocess] using hfresh) with
          ⟨hdb, -⟩ | ⟨record, p, hprocess, hsome, hnext, hops⟩
        · exact hdb
        -- its batch would be accepted under a key that is taken
        exfalso
        have hstanding := h.standing i
        rw [hprocess] at hstanding
        have hreach := h.reachable.next hnext
        obtain ⟨o, ho, -, hof⟩ := h.own j id hj
        have hmem : Db.acceptedOperation record ∈
            (stepRequest sha256 (requests i) s.db c (s.process i)).2.operations := by
          rw [hops]
          simp
        have homem : o ∈ (stepRequest sha256 (requests i) s.db c (s.process i)).2.operations := by
          rw [hops]
          exact List.mem_append_left _ ho
        have heq := eq_of_same_key hreach homem hmem
          (hof.1.trans (hp.symm.trans hstanding.1.symm))
          (hof.2.1.trans (hk.symm.trans hstanding.2.1.symm))
        refine hne (hdigest i j ?_)
        rw [← hof.2.2, ← hstanding.2.2, heq]
        rfl
      · intro stage hprocess
        obtain ⟨o, ho, -, hof⟩ := h.own j id hj
        rw [hprocess]
        simp only [stepRequest]
        cases hfind : s.db.operations.find? fun o =>
            o.principal == (requests i).principal && o.replayKey == (requests i).key with
        | none =>
          exfalso
          have := List.find?_eq_none.mp hfind o ho
          simp [hof.1, hof.2.1, hp, hk] at this
        | some existing =>
          have hkey := List.find?_some hfind
          simp only [Bool.and_eq_true, beq_iff_eq] at hkey
          refine ⟨existing, ?_, rfl⟩
          exact (h.ofRequest_of_key hj (List.mem_of_find?_eq_some hfind)
            (hkey.1.trans hp) (hkey.2.trans hk)).1
      · intro existing hprocess hauthorized hprincipal
        have hstanding := h.standing i
        rw [hprocess] at hstanding ⊢
        have howned : ∃ row, ownedResource s.db (requests i).principal existing.resourceUid
            c.authorized = .ok row := by
          obtain ⟨o, ho, hid⟩ := List.mem_map.mp hstanding.1
          simp only [OperationRow.identity, Prod.mk.injEq] at hid
          obtain ⟨r, hr, hru, -⟩ := hl.owned o ho
          have hrp := samePrincipal_of_reachable h.reachable o ho r hr hru
          have hfind : s.db.resource existing.resourceUid = some r := by
            rw [← hid.2.1, ← hru]
            exact Table.find_of_mem hl.uids hr
          refine ⟨r, ?_⟩
          simp only [ownedResource, hfind]
          rw [if_neg (by rw [hrp, hid.2.2.1, hstanding.2.1]; simp), if_neg hprincipal,
            if_pos hauthorized]
        obtain ⟨_, hrow⟩ := howned
        have hno := hother existing hstanding
        unfold SameFingerprint at hno
        rw [not_or] at hno
        simp only [stepRequest, hrow]
        rw [if_pos hno]
    · cases hn

end Intake

/-! ### A different request that loses a race -/

/-- Two updates of one Resource under one key, at different expected generations, and the
creation of that Resource. -/
def racingRequests : ℕ → Request
  | 0 => .update "principal" "key" 10 1 (.obj []) none
  | 1 => .update "principal" "key" 10 7 (.obj []) none
  | _ => .create "principal" "creation" "https://forms.example/worker" "space" "name" (.obj []) none

/-- The digests of these three requests; any other text stands for itself. -/
def plainSha256 (text : String) : String :=
  if text = fingerprintDomain ++ (racingRequests 0).canonicalText then
    "c280c8300fc1b2ff75aa29b4e10b72fc3298a6bb45740cf46e730799992c9796"
  else if text = fingerprintDomain ++ (racingRequests 1).canonicalText then
    "e326f388c95b28fec7169d7446c4cbd938b91d2ae1388c73650dd254390d0e4a"
  else if text = fingerprintDomain ++ (racingRequests 2).canonicalText then
    "beada0a969f17feaa93ab3d744e242c4d41a3624b8014a82e9096bddb4495e01"
  else text

/-- What the Form prepares for an accepted request. -/
def plainPreparation (id : Uuid) : Circumstance where
  prepared := .ok
    { id := id, uid := 10, now := 0, retainUntil := 0, backend := ⟨"backend", "target"⟩ }

/-- The Resource is created; request 1 reads it and finds its key free; then request 0 is
accepted; then request 1 makes its fresh checks. -/
def racingRun : List IntakeAction :=
  [.step 2 {}, .step 2 {}, .step 2 {}, .step 2 (plainPreparation 1), .step 2 {},
    .other (.claim 1 5 0 100), .other (.markDispatch 1 5 0),
    .other (.settle 1 5 { status := .succeeded, effect := .complete, now := 1, retainUntil := 1 }),
    .step 1 {}, .step 1 {}, .step 1 {},
    .step 0 {}, .step 0 {}, .step 0 {}, .step 0 (plainPreparation 2), .step 0 {},
    .step 1 {}]

/-- Nothing collides among the three requests. -/
theorem racing_digests (i j : ℕ) (h : (racingRequests i).digest plainSha256 =
    (racingRequests j).digest plainSha256) :
    (racingRequests i).canonicalText = (racingRequests j).canonicalText := by
  -- from 2 on all requests are the same creation
  have hrest : ∀ i, racingRequests i = racingRequests 0 ∨ racingRequests i = racingRequests 1 ∨
      racingRequests i = racingRequests 2 := by
    intro i
    match i with
    | 0 => exact Or.inl rfl
    | 1 => exact Or.inr (Or.inl rfl)
    | _ + 2 => exact Or.inr (Or.inr rfl)
  revert h
  rcases hrest i with hi | hi | hi <;> rcases hrest j with hj | hj | hj <;> rw [hi, hj] <;>
    decide +kernel

/-- A request that was told `generation_conflict`. -/
def Process.isGenerationConflict : Process → Bool
  | .done (.error .generationConflict) => true
  | _ => false

theorem idempotent_acceptance_racingRun :
    ∃ s, (intake plainSha256 racingRequests).Reachable s ∧ (0, 2) ∈ s.accepted ∧
      ∀ row, s.process 1 ≠ .done (.ok row) := by
  obtain ⟨s, hs, hmem⟩ := Machine.exists_reachable_of_run
    (M := intake plainSha256 racingRequests) racingRun
    (fun s => decide ((0, 2) ∈ s.accepted)) (by decide +kernel)
  rw [decide_eq_true_eq] at hmem
  obtain ⟨-, -, -, -, hdifferent⟩ :=
    idempotent_acceptance racing_digests hs
  exact ⟨s, hs, hmem, (hdifferent 1 0 2 hmem rfl rfl (by decide +kernel)).1⟩

/-- Request 0 is accepted; request 1, under the same principal and key but at another
expected generation, is refused with `generation_conflict`. -/
theorem different_request_generation_conflict :
    ∃ s, (intake plainSha256 racingRequests).Reachable s ∧ (0, 2) ∈ s.accepted ∧
      (racingRequests 1).principal = (racingRequests 0).principal ∧
      (racingRequests 1).key = (racingRequests 0).key ∧
      (racingRequests 1).canonicalText ≠ (racingRequests 0).canonicalText ∧
      s.process 1 = .done (.error .generationConflict) := by
  obtain ⟨s, hs, hp⟩ := Machine.exists_reachable_of_run
    (M := intake plainSha256 racingRequests) racingRun
    (fun s => decide ((0, 2) ∈ s.accepted) && (s.process 1).isGenerationConflict)
    (by decide +kernel)
  rw [Bool.and_eq_true, decide_eq_true_eq] at hp
  refine ⟨s, hs, hp.1, rfl, rfl, by decide +kernel, ?_⟩
  have hconflict := hp.2
  unfold Process.isGenerationConflict at hconflict
  split at hconflict
  · next heq => exact heq
  · cases hconflict

end Takoserver.V2
