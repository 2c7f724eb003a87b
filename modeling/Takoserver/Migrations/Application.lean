import Takoserver.Migrations.Policy

/-!
# Applying a held migration file

`src/takoform-v2/forms/sqlite-migration-application-native.ts`: a session holds one
connection and runs a file and its ledger row in one transaction.  After a failure it
rolls back by its own flag, not by what the connection says, and knows a rollback that
failed by the text of the error.
-/

namespace Takoserver.Migrations

/-- A statement succeeds, fails with its transaction open, or ends it as it fails. -/
inductive Outcome (α : Type) where
  | succeeds (next : α → α)
  | fails (left : α → α) (message : String)
  | rollsBack (message : String)

/-- What `runFileAndLedger` asks of the database, by the number of the statement. -/
inductive Step where
  | beginImmediate
  | catalogs
  | refresh (statement : ℕ)
  | tenant (statement : ℕ)
  | reread (statement : ℕ)
  | ledger
  | commit
  | rollback

/-- One statement of a file. -/
structure MigrationSqlStatement where
  sql : Units
  command : Units
  /-- It declares a full-text table. -/
  fts : Bool
  deriving DecidableEq

/-- A row of the ledger of migrations. -/
structure SQLiteMigrationRecord where
  sequence : ℕ
  path : String
  sha256 : String
  operationId : String
  deriving DecidableEq

/-- A file to apply; `text` is what the fatal UTF-8 decoder makes of its bytes. -/
structure HeldFile where
  sequence : ℕ
  expectedPrefix : List SQLiteMigrationRecord
  path : String
  sha256 : String
  operationId : String
  text : Option Units

/-- The row a file leaves. -/
def HeldFile.record (f : HeldFile) : SQLiteMigrationRecord :=
  ⟨f.sequence, f.path, f.sha256, f.operationId⟩

/-- The database as it is committed, and what an open transaction has made of it. -/
@[ext]
structure Connection (α : Type) where
  committed : α
  transaction : Option α

/-- What the connection reads. -/
def Connection.view {α : Type} (c : Connection α) : α := c.transaction.getD c.committed

/-- What the policy, the Host and SQLite make of one call; a read that throws is `none`. -/
structure Host (α : Type) where
  prepareNativeMigrationSql : Units → Except String (List MigrationSqlStatement)
  introspection : Bool
  stillAuthorized : Bool
  readLedger : ℕ → α → Option (List SQLiteMigrationRecord)
  outcome : Step → Outcome α

/-- What a file came to. -/
inductive SQLiteMigrationFileResult where
  | applied (sequence : ℕ) (record : SQLiteMigrationRecord)
  | rejected (code : String)
  | unknown
  deriving DecidableEq

/-- How a turn of the loop of `applyHeldMigrations` ends. -/
inductive Turn where
  | next (applied : List SQLiteMigrationRecord)
  | failure (code : String)
  | unknown (code : String)

/-- A connection that may have lost track of its transaction. -/
structure Session (α : Type) where
  connection : Connection α
  transactionUncertain : Bool

variable {α : Type}

/-- Runs statements on the contents of an open transaction.  The first failure gives what
it leaves of them and its message. -/
def runSteps : List (Outcome α) → α → Except (Option α × String) α
  | [], w => .ok w
  | .succeeds next :: rest, w => runSteps rest (next w)
  | .fails left m :: _, w => .error (some (left w), m)
  | .rollsBack m :: _, _ => .error (none, m)

/-- The message of a ROLLBACK that failed. -/
def rollbackUnconfirmed : String := "rollback_unconfirmed"

/-- `/locked|busy/iu`; two more characters fold to letters of it. -/
def databaseBusy (message : String) : Bool :=
  let folded := message.toList.map fun c =>
    if c = 'ſ' then 's' else if c = '\u212a' then 'k' else c.toLower
  decide ("locked".toList <:+: folded ∨ "busy".toList <:+: folded)

namespace Host

variable (h : Host α)

/-- What runs between BEGIN and COMMIT. -/
def steps (statements : List MigrationSqlStatement) : List Step :=
  .catalogs :: (statements.zipIdx.flatMap fun (s, i) =>
    (if h.introspection && s.fts then [.refresh i] else []) ++ .tenant i ::
      if [units "create", units "alter", units "drop"].contains s.command then [.reread i] else [])
    ++ [.ledger]

/-- The handler of an error thrown after BEGIN. -/
def abort (c : Connection α) (message : String) : Connection α × Option String :=
  match c.transaction, h.outcome .rollback with
  | some _, .succeeds _ => ({ c with transaction := none }, some message)
  | some w, .fails left _ => ({ c with transaction := some (left w) }, some rollbackUnconfirmed)
  | _, _ => ({ c with transaction := none }, some rollbackUnconfirmed)

/-- The connection after a file, and the message of the error it throws. -/
def runFileAndLedger (sqlText : Units) (c : Connection α) : Connection α × Option String :=
  match h.prepareNativeMigrationSql sqlText with
  | .error m => (c, some m)
  | .ok statements =>
    match c.transaction, h.outcome .beginImmediate with
    | some _, _ => (c, some "cannot start a transaction within a transaction")
    | none, .fails _ m => (c, some m)
    | none, .rollsBack m => (c, some m)
    | none, .succeeds _ =>
      match runSteps ((h.steps statements).map h.outcome) c.committed with
      | .error (left, m) => h.abort { c with transaction := left } m
      | .ok w =>
        match h.outcome .commit with
        | .succeeds _ => (⟨w, none⟩, none)
        | .fails left m => h.abort { c with transaction := some (left w) } m
        | .rollsBack m => h.abort c m

end Host

namespace Session

variable (s : Session α) (h : Host α) (file : HeldFile)

/-- A new session on a database. -/
def start (database : α) : Session α := ⟨⟨database, none⟩, false⟩

/-- The `n`-th read of the ledger in a call. -/
def readLedger (n : ℕ) : Option (List SQLiteMigrationRecord) :=
  if s.transactionUncertain then none else h.readLedger n s.connection.view

/-- The answer to a file that ran without an error. -/
def readback (s : Session α) : SQLiteMigrationFileResult :=
  match h.readLedger 1 s.connection.view with
  | none => .unknown
  | some ledger =>
    match ledger[file.sequence - 1]? with
    | some record =>
      if ledger.length ≠ file.sequence ∨ { record with sequence := file.sequence } ≠ file.record
      then .unknown else .applied file.sequence record
    | none => .unknown

/-- The answer to a file that threw. -/
def caught (c : Connection α) (message : String) : Session α × SQLiteMigrationFileResult :=
  if message = rollbackUnconfirmed then (⟨c, true⟩, .unknown)
  else (⟨c, s.transactionUncertain⟩,
    .rejected (if databaseBusy message then "database_busy" else "migration_sql_error"))

/-- `applyOneHeldFile`. -/
def applyOneHeldFile : Session α × SQLiteMigrationFileResult :=
  if s.transactionUncertain || !h.stillAuthorized then (s, .unknown) else
  match h.readLedger 0 s.connection.view with
  | none => (s, .unknown)
  | some ledger =>
    if ledger.length + 1 ≠ file.sequence ∨ ledger ≠ file.expectedPrefix then (s, .unknown) else
    match file.text with
    | none => (s, .rejected "artifact_invalid")
    | some sqlText =>
      if sqlText.contains 0 then (s, .rejected "migration_sql_error") else
      match h.runFileAndLedger sqlText s.connection with
      | (c, some message) => s.caught c message
      | (c, none) => (⟨c, false⟩, readback h file ⟨c, false⟩)

/-- The turn of a file; `target` is the history asked for, by path and digest. -/
def applyHeldFile (target : List (String × String)) : Session α × Turn :=
  match s.applyOneHeldFile h file with
  | (s', .rejected code) => (s', .failure code)
  | (s', .applied sequence record) =>
    if sequence ≠ file.sequence ∨ record ≠ file.record then (s', .unknown "backend_unavailable")
    else (s', .next (file.expectedPrefix ++ [file.record]))
  | (s', .unknown) =>
    match s'.readLedger h 2 with
    | none => (s', .unknown "backend_unavailable")
    | some entries =>
      if (entries.map fun e => (e.path, e.sha256)) <+: target ∧ entries.length = file.sequence ∧
          entries.map (·.operationId) = file.expectedPrefix.map (·.operationId) ++ [file.operationId]
      then (s', .next (file.expectedPrefix ++ [file.record])) else (s', .unknown "backend_unavailable")

end Session

/-- What calls make of a session. -/
abbrev Session.Reaches : Session α → Session α → Prop :=
  Relation.ReflTransGen fun s s' => ∃ h file, s' = (s.applyOneHeldFile h file).1

/-- The call comes to the tenant statement `k`, the first that does not succeed. -/
structure FailsAt (s : Session α) (h : Host α) (file : HeldFile) (k : ℕ) : Prop where
  certain : s.transactionUncertain = false
  authorized : h.stillAuthorized = true
  ledger : h.readLedger 0 s.connection.view = some file.expectedPrefix
  sequence : file.expectedPrefix.length + 1 = file.sequence
  runs : ∃ sqlText statements before after, file.text = some sqlText ∧ 0 ∉ sqlText ∧
    h.prepareNativeMigrationSql sqlText = .ok statements ∧
    h.steps statements = before ++ .tenant k :: after ∧
    ∀ x ∈ .beginImmediate :: before, ∃ next, h.outcome x = .succeeds next
  fails : ∀ next, h.outcome (.tenant k) ≠ .succeeds next

/-- The statement leaves its transaction open, ROLLBACK then succeeds, and the statement's
message is not the one that stands for a failed ROLLBACK. -/
def Host.Rejects (h : Host α) (k : ℕ) : Prop :=
  (∃ left m, h.outcome (.tenant k) = .fails left m ∧ m ≠ rollbackUnconfirmed) ∧
    ∃ next, h.outcome .rollback = .succeeds next

theorem runSteps_append {before : List (Outcome α)} (h : ∀ x ∈ before, ∃ next, x = .succeeds next)
    (rest : List (Outcome α)) (w : α) : ∃ w', runSteps (before ++ rest) w = runSteps rest w' := by
  induction before generalizing w with
  | nil => exact ⟨w, rfl⟩
  | cons x before ih =>
    obtain ⟨next, rfl⟩ := h x (by simp)
    exact ih (fun y hy => h y (by simp [hy])) (next w)

section Runs

variable {s s' : Session α} {h : Host α} {file : HeldFile} {k : ℕ}

theorem abort_idle (c : Connection α) (m : String) :
    (h.abort c m).1.transaction = none ∨ (h.abort c m).2 = some rollbackUnconfirmed := by
  unfold Host.abort
  split <;> simp

theorem runFileAndLedger_idle {c : Connection α} (hc : c.transaction = none) (sqlText : Units) :
    (h.runFileAndLedger sqlText c).1.transaction = none ∨
      (h.runFileAndLedger sqlText c).2 = some rollbackUnconfirmed := by
  unfold Host.runFileAndLedger
  repeat' split
  all_goals first | exact abort_idle _ _ | exact .inl hc | exact .inl rfl

/-- A session that is certain of its transaction has none open. -/
theorem idle_of_reaches {database : α} (hs : (Session.start database).Reaches s)
    (hc : s.transactionUncertain = false) : s.connection.transaction = none := by
  induction hs with
  | refl => rfl
  | tail _ hstep ih =>
    obtain ⟨h, _, rfl⟩ := hstep
    revert hc
    fun_cases Session.applyOneHeldFile with
    | case6 hcertain ledger _ _ sqlText _ _ c message hrun =>
      have hidle := runFileAndLedger_idle (h := h) (ih (by simp_all)) sqlText
      simp only [Session.caught]
      split
      · nofun
      · simp_all
    | case7 hcertain ledger _ _ sqlText _ _ c hrun =>
      have hidle := runFileAndLedger_idle (h := h) (ih (by simp_all)) sqlText
      simp_all
    | _ => exact ih

/-- The failure of statement `k` is caught, with the committed database as it was. -/
theorem FailsAt.run (hf : FailsAt s h file k) (hidle : s.connection.transaction = none) :
    ∃ c m, s.applyOneHeldFile h file = s.caught c m ∧ c.committed = s.connection.committed ∧
      (m ≠ rollbackUnconfirmed ↔ h.Rejects k) ∧ (m ≠ rollbackUnconfirmed → c.transaction = none) := by
  obtain ⟨sqlText, _, before, after, htext, hnul, hprepare, hsteps, hbefore⟩ := hf.runs
  obtain ⟨next, hbegin⟩ := hbefore .beginImmediate (by simp)
  have hok : ∀ x ∈ before.map h.outcome, ∃ next, x = .succeeds next := by
    rw [List.forall_mem_map]
    exact fun x hx => hbefore x (by simp [hx])
  obtain ⟨w, hw⟩ := runSteps_append hok ((.tenant k :: after).map h.outcome) s.connection.committed
  have hcall : ∀ left m, runSteps (((.tenant k : Step) :: after).map h.outcome) w = .error (left, m) →
      ∀ c m', h.abort { s.connection with transaction := left } m = (c, some m') →
        s.applyOneHeldFile h file = s.caught c m' := by
    intro left m hleft c m' habort
    have hrun : h.runFileAndLedger sqlText s.connection = (c, some m') := by
      simp only [Host.runFileAndLedger, hprepare, hidle, hbegin, hsteps, List.map_append, hw, hleft,
        habort]
    simp [Session.applyOneHeldFile, hf.certain, hf.authorized, hf.ledger, hf.sequence, htext, hnul,
      hrun]
  cases hk : h.outcome (.tenant k) with
  | succeeds next => exact absurd hk (hf.fails next)
  | rollsBack m =>
    refine ⟨_, _, hcall none m (by simp [hk, runSteps]) _ _ rfl, ?_⟩
    simp [Host.Rejects, hk]
  | fails left m =>
    cases hback : h.outcome .rollback <;>
      refine ⟨_, _, hcall (some (left w)) m (by simp [hk, runSteps]) _ _
        (by rw [Host.abort, hback]), ?_⟩ <;>
      simp [Host.Rejects, hk, hback]

/-- A call that comes to a failing tenant statement leaves the committed database as it
was.  It answers `rejected`, with no transaction open, and its turn ends the Operation,
exactly when the statement leaves the transaction to a ROLLBACK that succeeds and its
message is not taken for a failed one. -/
theorem rejected_iff {database : α} (hs : (Session.start database).Reaches s)
    (hf : FailsAt s h file k) (target : List (String × String)) :
    (s.applyOneHeldFile h file).1.connection.committed = s.connection.committed ∧
      ((∃ code, (s.applyOneHeldFile h file).2 = .rejected code) ∧
        (s.applyOneHeldFile h file).1.connection = s.connection ↔ h.Rejects k) ∧
      ((∃ code, (s.applyHeldFile h file target).2 = .failure code) ↔ h.Rejects k) ∧
      (¬h.Rejects k → (s.applyOneHeldFile h file).2 = .unknown ∧
        (s.applyHeldFile h file target).2 = .unknown "backend_unavailable") := by
  have hidle := idle_of_reaches hs hf.certain
  obtain ⟨c, m, hcall, hcommitted, hm, hclosed⟩ := hf.run hidle
  simp only [Session.applyHeldFile, hcall, ← hm, Session.caught]
  by_cases hmessage : m = rollbackUnconfirmed
  · simp [hmessage, Session.readLedger, hcommitted]
  · have hc : c = s.connection := Connection.ext hcommitted ((hclosed hmessage).trans hidle.symm)
    simp [hmessage, hc]

end Runs

/-! ### A conflict -/

/-- The policy of the Form that defers foreign keys. -/
def policy (sqlText : Units) : Except String (List MigrationSqlStatement) :=
  match prepareMigrationSql asciiLower sqlText with
  | .ok slices => .ok (slices.map fun sql => ⟨sql, (firstCommand asciiLower sql).getD [], false⟩)
  | .error _ => .error "migration_sql_error"

/-- A Host whose database holds the row `1` already; the statement ends so. -/
def conflict (ends : Outcome (List ℕ)) : Host (List ℕ) where
  prepareNativeMigrationSql := policy
  introspection := false
  stillAuthorized := true
  readLedger := fun _ _ => some []
  outcome
    | .tenant _ => ends
    | _ => .succeeds id

/-- A file of one statement. -/
def conflictFile (sql : String) : HeldFile := ⟨1, [], "1.sql", "", "op", some (units sql)⟩

theorem conflict_failsAt (ends : Outcome (List ℕ)) (sql : String)
    (haccept : policy (units sql) = .ok [⟨units sql, units "insert", false⟩]) (hnul : 0 ∉ units sql)
    (hends : ∀ next, ends ≠ .succeeds next) :
    FailsAt (.start [1]) (conflict ends) (conflictFile sql) 0 where
  certain := rfl
  authorized := rfl
  ledger := rfl
  sequence := rfl
  runs := ⟨_, _, [.catalogs], [.ledger], rfl, hnul, haccept, rfl, by simp [conflict]⟩
  fails := hends

/-- A plain conflict is rejected. -/
theorem rejected_iff_insert :
    (Session.start [1]).Reaches (Session.start [1]) ∧ FailsAt (.start [1])
      (conflict (.fails id "UNIQUE constraint failed: t.id"))
      (conflictFile "INSERT INTO t VALUES (1);") 0 ∧
    ∃ code, ((Session.start [1]).applyOneHeldFile
      (conflict (.fails id "UNIQUE constraint failed: t.id"))
      (conflictFile "INSERT INTO t VALUES (1);")).2 = .rejected code := by
  have hf := conflict_failsAt (.fails id "UNIQUE constraint failed: t.id")
    "INSERT INTO t VALUES (1);" (by decide +kernel) (by decide) nofun
  have hr : (conflict (.fails id "UNIQUE constraint failed: t.id")).Rejects 0 :=
    ⟨⟨id, _, rfl, by decide⟩, id, rfl⟩
  exact ⟨.refl, hf, ((rejected_iff .refl hf []).2.1.2 hr).1⟩

/-- A conflict that rolls back leaves the file unknown, and the Operation with it. -/
theorem not_rejected :
    ¬∀ (database : List ℕ) (s : Session (List ℕ)) (h : Host (List ℕ)) (file : HeldFile) (k : ℕ),
      (Session.start database).Reaches s → h.prepareNativeMigrationSql = policy →
        FailsAt s h file k → ∃ code, (s.applyOneHeldFile h file).2 = .rejected code := by
  intro hall
  have hf := conflict_failsAt (.rollsBack "UNIQUE constraint failed: t.id")
    "INSERT OR ROLLBACK INTO t VALUES (1);" (by decide +kernel) (by decide) nofun
  obtain ⟨_, hcode⟩ := hall [1] _ _ _ 0 .refl rfl hf
  have hunknown : ((Session.start [1]).applyOneHeldFile
      (conflict (.rollsBack "UNIQUE constraint failed: t.id"))
      (conflictFile "INSERT OR ROLLBACK INTO t VALUES (1);")).2 = .unknown := by decide +kernel
  exact absurd (hcode.symm.trans hunknown) nofun

end Takoserver.Migrations
