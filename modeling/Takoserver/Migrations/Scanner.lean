import Mathlib

/-!
# The scanner of migration SQL

`src/sqlite-migration-policy.ts`: one pass over the text frames its statements, by the
completeness automaton of SQLite, and holds each against the policy of migrations.  A
text is its UTF-16 code units; both units of a surrogate pair are at least `0x80`, so
identifiers are the same by units as by code points.

`scanMigrationSql` is modelled as `prepareMigrationSql` calls it: its PRAGMA policy is
`defer`, it admits PRAGMA statements, and their number does not matter.  What
`String.prototype.toLowerCase` makes of a word is the parameter `lower`.
-/

namespace Takoserver.Migrations

/-- UTF-16 code units. -/
abbrev Units := List ℕ

/-- The code units of an ASCII word. -/
def units (s : String) : Units := s.toList.map Char.toNat

/-! ### Tokens -/

/-- The blanks of a `PRAGMA`. -/
def isPragmaWhitespace (c : ℕ) : Bool := c = 0x20 || decide (0x09 ≤ c ∧ c ≤ 0x0d)

/-- The blanks of the completeness automaton. -/
def isCompleteWhitespace (c : ℕ) : Bool := [0x20, 0x0d, 0x09, 0x0a, 0x0c, 0xfeff].contains c

/-- The units of an identifier. -/
def isSqliteIdentifierUnit (c : ℕ) : Bool :=
  decide (0x80 ≤ c) || c = 0x24 || c = 0x5f || decide (0x30 ≤ c ∧ c ≤ 0x39) ||
    decide (0x41 ≤ c ∧ c ≤ 0x5a) || decide (0x61 ≤ c ∧ c ≤ 0x7a)

/-- What the scanner emits. -/
inductive Lexeme where
  | semicolon
  /-- White space that a PRAGMA may hold too. -/
  | pragmaSpace
  | space
  | comment
  | quoted (value : Units)
  | word (value : Units)
  | symbol (c : ℕ)
  deriving DecidableEq

/-- A block comment after its opening, and what follows it. -/
def blockComment : Units → Option (Units × Units)
  | [] => none
  | [_] => none
  | c :: d :: rest =>
    if c = 0x2a ∧ d = 0x2f then some ([c, d], rest)
    else (blockComment (d :: rest)).map fun (body, rest) => (c :: body, rest)

/-- A line comment after its opening, and what follows it. -/
def lineComment : Units → Units × Units
  | [] => ([], [])
  | c :: rest =>
    if c = 0x0a then ([c], rest) else (c :: (lineComment rest).1, (lineComment rest).2)

/-- What stands before a `]`, and what follows it. -/
def bracketed : Units → Option (Units × Units)
  | [] => none
  | c :: rest =>
    if c = 0x5d then some ([], rest)
    else (bracketed rest).map fun (value, rest) => (c :: value, rest)

/-- The value of a quoted text after its opening quote, its text, and what follows it. -/
def quotedText (quote : ℕ) : Units → Option (Units × Units × Units)
  | [] => none
  | [c] => if c = quote then some ([], [c], []) else none
  | c :: d :: rest =>
    if c = quote then
      if d = quote then
        (quotedText quote rest).map fun (value, text, rest) => (c :: value, c :: d :: text, rest)
      else some ([], [c], d :: rest)
    else (quotedText quote (d :: rest)).map fun (value, text, rest) => (c :: value, c :: text, rest)

/-- The next token of a text, its text and what follows it; none where it does not end.  A PRAGMA
may stand open. -/
def lexeme (pragma : Bool) : Units → Option (Lexeme × Units × Units)
  | [] => none
  | c :: rest =>
    if c = 0x3b then some (.semicolon, [c], rest)
    else if pragma && isPragmaWhitespace c then some (.pragmaSpace, [c], rest)
    else if isCompleteWhitespace c then some (.space, [c], rest)
    else if c = 0x2f ∧ rest.head? = some 0x2a then
      (blockComment (rest.drop 1)).map fun (body, rest) => (.comment, c :: 0x2a :: body, rest)
    else if c = 0x2d ∧ rest.head? = some 0x2d then
      some (.comment, c :: 0x2d :: (lineComment (rest.drop 1)).1, (lineComment (rest.drop 1)).2)
    else if c = 0x5b then
      (bracketed rest).map fun (value, rest) => (.quoted value, c :: value ++ [0x5d], rest)
    else if c = 0x27 ∨ c = 0x22 ∨ c = 0x60 then
      (quotedText c rest).map fun (value, text, rest) => (.quoted value, c :: text, rest)
    else if isSqliteIdentifierUnit c then
      let value := (c :: rest).takeWhile isSqliteIdentifierUnit
      some (.word value, value, (c :: rest).dropWhile isSqliteIdentifierUnit)
    else some (.symbol c, [c], rest)

/-! ### Completeness -/

/-- The tokens of the completeness automaton. -/
inductive CompleteToken where
  | semi
  | ws
  | other
  | explain
  | create
  | temp
  | trigger
  | ended
  deriving DecidableEq

/-- Its states. -/
inductive CompleteState where
  | invalid
  | start
  | normal
  | explain
  | create
  | trigger
  | semi
  | ended
  deriving DecidableEq

/-- `COMPLETE_TRANSITIONS`. -/
def completeTransition : CompleteState → CompleteToken → CompleteState
  | .invalid, .semi => .start
  | .invalid, .ws => .invalid
  | .invalid, .explain => .explain
  | .invalid, .create => .create
  | .invalid, _ => .normal
  | .start, .semi => .start
  | .start, .ws => .start
  | .start, .explain => .explain
  | .start, .create => .create
  | .start, _ => .normal
  | .normal, .semi => .start
  | .normal, _ => .normal
  | .explain, .semi => .start
  | .explain, .ws => .explain
  | .explain, .other => .explain
  | .explain, .create => .create
  | .explain, _ => .normal
  | .create, .semi => .start
  | .create, .ws => .create
  | .create, .temp => .create
  | .create, .trigger => .trigger
  | .create, _ => .normal
  | .trigger, .semi => .semi
  | .trigger, _ => .trigger
  | .semi, .semi => .semi
  | .semi, .ws => .semi
  | .semi, .ended => .ended
  | .semi, _ => .trigger
  | .ended, .semi => .start
  | .ended, .ws => .ended
  | .ended, _ => .trigger

/-! ### Policy -/

/-- `TRANSACTION_OR_EXTERNAL_COMMANDS`. -/
def transactionOrExternalCommands : List Units :=
  [units "begin", units "commit", units "end", units "rollback", units "savepoint",
    units "release", units "attach", units "detach", units "vacuum"]

/-- What the one `PRAGMA` may be set to. -/
def deferForeignKeysValues : List Units :=
  [units "on", units "off", units "true", units "false", units "1", units "0"]

section Policy

variable (lower : Units → Units)

/-- `completeKeyword`. -/
def completeKeyword (value : Units) : CompleteToken :=
  let word := lower value
  if word = units "explain" then .explain
  else if word = units "create" then .create
  else if word = units "temp" ∨ word = units "temporary" then .temp
  else if word = units "trigger" then .trigger
  else if word = units "end" then .ended
  else .other

/-- A lexeme as a token. -/
def completeToken : Lexeme → CompleteToken
  | .semicolon => .semi
  | .pragmaSpace | .space | .comment => .ws
  | .word value => completeKeyword lower value
  | .quoted _ | .symbol _ => .other

/-- The names that `prepareMigrationSql` reserves. -/
def reserved (value : Units) : Bool :=
  let word := lower value
  (units "_takoform_").isPrefixOf word || (units "_cf_").isPrefixOf word ||
    word = units "__cf_kv" || word = units "load_extension" || (units "pragma_").isPrefixOf word

/-- `isMigrationDeferForeignKeysName`. -/
def isMigrationDeferForeignKeysName (value : Units) : Bool :=
  value ≠ [] && value.all (fun c => decide (0x41 ≤ c ∧ c ≤ 0x5a) || decide (0x61 ≤ c ∧ c ≤ 0x7a) ||
    c = 0x5f) && lower value = units "defer_foreign_keys"

/-- `isMigrationDeferForeignKeysValue`. -/
def isMigrationDeferForeignKeysValue (value : Units) : Bool :=
  value ≠ [] && value.all (fun c => decide (0x41 ≤ c ∧ c ≤ 0x5a) || decide (0x61 ≤ c ∧ c ≤ 0x7a) ||
    decide (0x30 ≤ c ∧ c ≤ 0x39)) && deferForeignKeysValues.contains (lower value)

/-- Where the pass stands in a PRAGMA statement: after the keyword, with what stood since, after
the name, after the `=`, after the value. -/
inductive Pragma where
  | none
  | name (gap : Units)
  | equals
  | value
  | ended
  deriving DecidableEq

/-- Where the pass stands among commands and triggers. -/
structure Commands where
  commandPending : Bool := true
  explainPrefix : ℕ := 0
  command : Option Units := none
  head : List Units := []
  triggerHeader : Bool := false
  triggerBody : Bool := false

/-- `resetCommand`. -/
def Commands.reset (s : Commands) : Commands :=
  { s with commandPending := true, explainPrefix := 0, command := none }

/-- A word where a command is awaited: it belongs to the EXPLAIN before the command, or is the
command; the one that ends a trigger body is not held against the policy. -/
def Commands.take (s : Commands) (word : Units) : Option Commands :=
  if (units "pragma" ++ [0xfeff]).isPrefixOf word then none
  else if s.explainPrefix = 0 ∧ word = units "explain" then some { s with explainPrefix := 1 }
  else if s.explainPrefix = 1 ∧ word = units "query" then some { s with explainPrefix := 2 }
  else if s.explainPrefix = 2 ∧ word = units "plan" then some { s with explainPrefix := 3 }
  else
    let s := { s with commandPending := false, command := some word }
    if s.triggerBody ∧ word = units "end" then
      some { s with triggerBody := false, triggerHeader := false }
    else if transactionOrExternalCommands.contains word then none
    else some s

/-- The first words of a statement are those of a trigger. -/
def triggerWords (head : List Units) : Bool :=
  let create := if head[0]? = some (units "explain") then 1 else 0
  head[create]? = some (units "create") && (head[create + 1]? = some (units "trigger") ||
    ((head[create + 1]? = some (units "temp") || head[create + 1]? = some (units "temporary")) &&
      head[create + 2]? = some (units "trigger")))

/-- A word outside a trigger body: the BEGIN after the words of a trigger opens one. -/
def Commands.note (s : Commands) (word : Units) : Commands :=
  if s.triggerBody then s
  else
    let head := if s.head.length < 4 then s.head ++ [word] else s.head
    let triggerHeader := s.triggerHeader || triggerWords head
    if triggerHeader && decide (word = units "begin") then
      { s.reset with head := [], triggerHeader, triggerBody := true }
    else { s with head, triggerHeader }

/-- `semicolon`, of the commands. -/
def Commands.semicolon (s : Commands) : Commands :=
  { s.reset with head := [], triggerHeader := s.triggerHeader && s.triggerBody }

end Policy

/-! ### The pass -/

/-- The state of the pass. -/
structure Scan where
  complete : CompleteState := .invalid
  commands : Commands := {}
  pragma : Pragma := .none
  /-- The text since the last slice. -/
  pending : Units := []
  hasExecutableToken : Bool := false
  statements : List Units := []

namespace Scan

variable (lower : Units → Units) (s : Scan)

/-- `word`: the commands and the PRAGMA after a word, where the policy admits it. -/
def word (value : Units) : Option (Commands × Pragma) :=
  let word := lower value
  if reserved lower word then none
  else
    match s.pragma with
    | .name gap =>
      if isMigrationDeferForeignKeysName lower value ∧ gap ≠ [] ∧
          gap.all isPragmaWhitespace = true then some (s.commands, .equals)
      else none
    | .value =>
      if isMigrationDeferForeignKeysValue lower value then some (s.commands, .ended) else none
    | .equals | .ended => none
    | .none =>
      (if s.commands.commandPending then s.commands.take word else some s.commands).bind fun c =>
        let c := c.note word
        if word = units "pragma" ∧ c.command = some (units "pragma") then
          if c.explainPrefix ≠ 0 then none else some (c, .name [])
        else some (c, .none)

/-- What a token does to the commands and the PRAGMA, where the policy admits it. -/
def admit? (l : Lexeme) (text : Units) : Option (Commands × Pragma) :=
  match l with
  | .semicolon =>
    match s.pragma with
    | .none | .ended => some (s.commands.semicolon, .none)
    | _ => none
  | .pragmaSpace =>
    match s.pragma with
    | .name gap => some (s.commands, .name (gap ++ text))
    | pragma => some (s.commands, pragma)
  | .space | .comment => if s.pragma = .none then some (s.commands, .none) else none
  | .quoted value =>
    if s.pragma = .none ∧ reserved lower value = false then some (s.commands, .none) else none
  | .word value => s.word lower value
  | .symbol c =>
    match s.pragma with
    | .none => some (s.commands, .none)
    | .equals => if c = 0x3d then some (s.commands, .value) else none
    | _ => none

/-- What the pass does with a token: a semicolon that completes a statement cuts a slice. -/
def step (l : Lexeme) (text : Units) : Option Scan :=
  (s.admit? lower l text).map fun (commands, pragma) =>
    let token := completeToken lower l
    let complete := completeTransition s.complete token
    let pending := s.pending ++ text
    let hasExecutableToken := s.hasExecutableToken || decide (token ≠ .ws ∧ token ≠ .semi)
    if token = .semi ∧ complete = .start ∧ hasExecutableToken = true then
      { complete, commands, pragma, statements := s.statements ++ [pending] }
    else { s with complete, commands, pragma, pending, hasExecutableToken }

/-- The next token of a text, scanned. -/
def next (text : Units) : Option (Scan × Units) :=
  (lexeme (decide (s.pragma ≠ .none)) text).bind fun (l, text, rest) =>
    (s.step lower l text).map fun s => (s, rest)

/-- The slices at the end of the text, where the last may lack its semicolon only. -/
def finish : Option (List Units) :=
  if (s.pragma = .none ∨ s.pragma = .ended) ∧ s.commands.triggerBody = false then
    if s.hasExecutableToken then
      if completeTransition s.complete .semi = .start then some (s.statements ++ [s.pending])
      else none
    else some s.statements
  else none

end Scan

/-- The pass over a text, a token at a time. -/
def scan (lower : Units → Units) : ℕ → Scan → Units → Option Scan
  | _, s, [] => some s
  | 0, _, _ :: _ => none
  | fuel + 1, s, c :: text =>
    (s.next lower (c :: text)).bind fun (s, rest) => scan lower fuel s rest

/-- `new TextEncoder().encode(statement).byteLength`. -/
def byteLength : Units → ℕ
  | [] => 0
  | [c] => if c < 0x80 then 1 else if c < 0x800 then 2 else 3
  | c :: d :: rest =>
    if 0xd800 ≤ c ∧ c ≤ 0xdbff ∧ 0xdc00 ≤ d ∧ d ≤ 0xdfff then 4 + byteLength rest
    else (if c < 0x80 then 1 else if c < 0x800 then 2 else 3) + byteLength (d :: rest)

/-- What the policy throws. -/
inductive MigrationSqlError where
  /-- `migration SQL is unsafe or incomplete`. -/
  | unsafeOrIncomplete
  /-- `maximumStatementBytes must be a positive safe integer`. -/
  | maximum
  /-- `MigrationSqlCapacityError`. -/
  | capacity (maximumStatementBytes actualStatementBytes : ℕ)
  deriving DecidableEq

/-- `prepareMigrationSql`.  Every token of a text is at least a unit of it. -/
def prepareMigrationSql (lower : Units → Units) (sql : Units)
    (maximumStatementBytes : Option ℕ := none) : Except MigrationSqlError (List Units) :=
  if sql.contains 0 then .error .unsafeOrIncomplete
  else if maximumStatementBytes.any fun maximum =>
      decide (maximum < 1 ∨ 2 ^ 53 ≤ maximum) then .error .maximum
  else
    match (scan lower sql.length {} sql).bind Scan.finish with
    | none => .error .unsafeOrIncomplete
    | some statements =>
      match maximumStatementBytes with
      | none => .ok statements
      | some maximum =>
        match statements.find? fun statement => decide (maximum < byteLength statement) with
        | none => .ok statements
        | some statement => .error (.capacity maximum (byteLength statement))

end Takoserver.Migrations
