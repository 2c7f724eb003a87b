import Takoserver.Metering.Windows
import Takoserver.Wallet.Clients

/-!
# Rolling usage up

`rollUp` of `src/metering.ts`, one statement at a time, over `usage_events` and the tables of
the wallet.  A run selects events that no roll-up has claimed, and for each organization among
them prices them exactly, plans one debit and commits one batch that claims the events and
makes the debit.  Between any two statements events are recorded, other runs move, and so do
the other users of the wallet, whose usage debits are under references of their own.
-/

namespace Takoserver.Metering.RollUps

open Wallet (Tables DebitCall Circumstance Selection Admission)

/-! ### What a row was admitted under -/

/-- `PREPAID_CONSENT_REVISION`. -/
def prepaidConsentRevision : String := "prepaid-usage-v1"

/-- `/^[A-Za-z0-9][A-Za-z0-9._:-]{0,127}$/u`. -/
def isConsentRevision (text : String) : Bool :=
  match text.toList with
  | [] => false
  | c :: cs => c.isAlphanum && decide (cs.length ≤ 127) &&
      cs.all fun c => c.isAlphanum || c == '.' || c == '_' || c == ':' || c == '-'

/-- `Number.isSafeInteger` of a number that is not negative, and the number. -/
def safeNatural : Option Json → Option ℕ
  | some (.num n) =>
    if n.den = 1 ∧ 0 ≤ n.num ∧ n.num ≤ maxSafeInteger then some n.num.toNat else none
  | _ => none

/-- The checks of `purchasedAdmission` on the members of a witness. -/
def consistentWitness (policyVersion : ℕ) (onLimit allowPurchasedCredit consentRevision :
    Option Json) : Bool :=
  if onLimit = some (.str "stop") then
    decide (allowPurchasedCredit = some (.bool false) ∧ consentRevision = some .null)
  else
    decide (onLimit = some (.str "prepaid") ∨ onLimit = some (.str "on-demand")) &&
      decide (allowPurchasedCredit = some (.bool true)) && decide (1 ≤ policyVersion) &&
      (if onLimit = some (.str "prepaid") then
        decide (consentRevision = some (.str prepaidConsentRevision))
      else match consentRevision with
        | some (.str text) => isConsentRevision text
        | _ => false)

/-- What a process is configured with. -/
structure Options where
  /-- `JSON.parse`; `none` where it throws. -/
  parse : String → Option Json
  /-- `allocationAdmissionResolver` is set. -/
  qualified : Bool := false

/-- `purchasedAdmission`; `none` where it throws. -/
def Options.purchasedAdmission (options : Options) : Option (Option String) → Option Bool
  | none => none
  -- a measurement from before there were policies has no consent to infer
  | some none => some false
  | some (some text) => do
    let p ← options.parse text
    let policyVersion ← safeNatural (p.get? "policyVersion")
    let allowPurchasedCredit := p.get? "allowPurchasedCredit"
    if consistentWitness policyVersion (p.get? "onLimit") allowPurchasedCredit
        (p.get? "consentRevision") then
      some (decide (allowPurchasedCredit = some (.bool true)))
    else none

/-! ### The part of one organization -/

/-- What `rollUp` reads and writes. -/
structure Books where
  db : Tables := {}
  events : List UsageEvent := []

/-- What a row was priced at, to the fraction of a micro. -/
def exactAmount : List UsageEvent → RationalMicros → Option RationalMicros
  | [], exact => some exact
  | row :: rows, exact =>
    if row.exactUnit then
      match parsePricedRational row.amountNumeratorMicros row.amountDenominator with
      | some priced => exactAmount rows (addRational exact priced)
      | none => none
    else none

/-- A row whose price is not zero. -/
def costs (row : UsageEvent) : Bool :=
  (parsePricedRational row.amountNumeratorMicros row.amountDenominator).any fun priced =>
    decide (0 < priced.numerator)

/-- The witness read of a row, if its row was read. -/
def witnessOf (witnesses : List (String × Option String)) (row : UsageEvent) :
    Option (Option String) :=
  witnesses.lookup row.requestId

/-- Whether every row of a cost was admitted to purchased credit. -/
def Options.allowsPurchased (options : Options) (witnesses : List (String × Option String)) :
    List UsageEvent → Bool → Option Bool
  | [], allow => some allow
  | row :: rows, allow =>
    if costs row then do
      let admitted ← options.purchasedAdmission (witnessOf witnesses row)
      options.allowsPurchased witnesses rows (admitted && allow)
    else options.allowsPurchased witnesses rows allow

/-- The part of a roll-up that is of one organization. -/
structure Fold where
  org : String
  rollupId : String
  rows : List UsageEvent
  amountMicros : ℕ
  /-- What the rows were admitted under, where it was asked for. -/
  witnesses : Option (List (String × Option String))
  allowPurchasedCredit : Bool

namespace Fold

variable (fold : Fold)

/-- `ids`. -/
def ids : List String := fold.rows.map UsageEvent.requestId

/-- The debit of the roll-up. -/
def debit : DebitCall where
  org := fold.org
  kind := .rollUp
  reference := fold.rollupId
  amountMicros := fold.amountMicros
  admission := fold.witnesses.map fun _ => { allowPurchasedCredit := fold.allowPurchasedCredit }

/-- A candidate row that is still unclaimed. -/
def claims (e : UsageEvent) : Bool :=
  e.organizationId == fold.org && e.rollupId.isNone && decide (e.requestId ∈ fold.ids)

/-- A row that is claimed under the reference. -/
def claimed (e : UsageEvent) : Bool :=
  e.organizationId == fold.org && e.rollupId == some fold.rollupId

/-- The first guard: every candidate is unclaimed, and the reference is unused. -/
def unclaimed (s : Books) : Bool :=
  decide (s.events.countP fold.claims = fold.ids.length) && !s.events.any fold.claimed &&
    fold.debit.unused s.db

/-- The `UPDATE` that claims the candidates. -/
def claim (events : List UsageEvent) : List UsageEvent :=
  Table.update fold.claims (fun e => { e with rollupId := some fold.rollupId }) events

/-- The second guard: what is claimed under the reference is the candidates. -/
def assigned (events : List UsageEvent) : Bool :=
  decide (events.countP (fun e => fold.claimed e && decide (e.requestId ∈ fold.ids)) =
      fold.ids.length ∧ events.countP fold.claimed = fold.ids.length)

/-- `sourceGuard`: the rows are still those whose witnesses were read. -/
def witnessed (events : List UsageEvent) : Bool :=
  match fold.witnesses with
  | none => true
  | some witnesses => decide (fold.rows.countP (fun row => events.any fun e =>
      e.requestId == row.requestId && e.organizationId == fold.org &&
        e.admissionPolicyJson == (witnessOf witnesses row).join) = fold.rows.length)

/-- The debit among the statements of the batch, where there is one. -/
def pay (plan : Option (Selection fold.amountMicros × Wallet.Instant)) (c : Circumstance)
    (s : Books) : Option Tables :=
  match plan with
  | none => some s.db
  | some (selection, now) =>
    if fold.witnessed s.events then fold.debit.batch selection.picks now c s.db else none

/-- The batch; `none` where it aborts. -/
def batch (plan : Option (Selection fold.amountMicros × Wallet.Instant)) (c : Circumstance)
    (s : Books) : Option Books :=
  if fold.unclaimed s then
    let events := fold.claim s.events
    if fold.assigned events then
      (fold.pay plan c { s with events }).map fun db => { db, events }
    else none
  else none

end Fold

/-! ### Where a run stands -/

/-- What a run has still to do once the present organization is done. -/
structure Rest where
  groups : List (String × List UsageEvent)
  witnesses : Option (List (String × Option String))
  moved : ℕ

/-- Where a run stands. -/
inductive Run where
  | idle
  | selecting (limit : ℕ)
  | witnessing (pending : List UsageEvent)
  | folding (rest : Rest)
  | receivable (fold : Fold) (now : Wallet.Instant) (rest : Rest)
  | lots (fold : Fold) (now : Wallet.Instant) (rest : Rest)
  /-- The warnings of the debit are prepared, and the batch is sent. -/
  | committing (fold : Fold) (plan : Option (Selection fold.amountMicros × Wallet.Instant))
      (rest : Rest)
  | done (moved : ℕ)
  | failed

/-- `byOrg`. -/
def byOrg (pending : List UsageEvent) : List (String × List UsageEvent) :=
  (pending.map UsageEvent.organizationId).eraseDups.map fun org =>
    (org, pending.filter fun row => row.organizationId == org)

/-- What a step reads from outside. -/
structure Outside where
  circumstance : Circumstance
  id : String := ""
  /-- The statement fails, and nothing is done. -/
  fails : Bool := false
  /-- The statement commits, and its answer is lost. -/
  lost : Bool := false

/-- The `SELECT` of the rows to claim. -/
def pendingRows (limit : ℕ) (events : List UsageEvent) : List UsageEvent :=
  ((events.filter fun e => e.rollupId.isNone).insertionSort fun a b => a.createdAt ≤ b.createdAt).take
    (min (max limit 1) 1000)

/-- The fold of one organization, under a new reference; `none` where the pricing throws. -/
def Options.fold (options : Options) (witnesses : Option (List (String × Option String)))
    (org : String) (rows : List UsageEvent) (id : String) : Option Fold := do
  let exact ← exactAmount rows .zero
  let allowPurchasedCredit ← witnesses.elim (some true) fun witnesses =>
    options.allowsPurchased witnesses rows true
  let amountMicros ← ceilPricedMicros exact
  return { org, rollupId := "roll_" ++ id, rows, amountMicros, witnesses, allowPurchasedCredit }

/-- What a run goes on with once its fold is priced. -/
def Fold.begin (fold : Fold) (now : Wallet.Instant) (rest : Rest) : Run :=
  if 0 < fold.amountMicros then .receivable fold now rest else .committing fold none rest

/-- The next statement of a run. -/
def Run.step (options : Options) (s : Books) (x : Outside) : Run → Run × Books
  | .idle => (.idle, s)
  | .selecting limit =>
    match pendingRows limit s.events with
    | [] => (.done 0, s)
    | pending =>
      if options.qualified then (.witnessing pending, s)
      else (.folding ⟨byOrg pending, none, 0⟩, s)
  | .witnessing pending =>
    let ids := pending.map UsageEvent.requestId
    let witnesses := (s.events.filter fun e => decide (e.requestId ∈ ids)).map fun e =>
      (e.requestId, e.admissionPolicyJson)
    (.folding ⟨byOrg pending, some witnesses, 0⟩, s)
  | .folding ⟨[], _, moved⟩ => (.done moved, s)
  | .folding ⟨(org, rows) :: groups, witnesses, moved⟩ =>
    match options.fold witnesses org rows x.id with
    | none => (.failed, s)
    | some fold => (fold.begin x.circumstance.now ⟨groups, witnesses, moved⟩, s)
  | .receivable fold now rest =>
    if s.db.receivableClear fold.org then (.lots fold now rest, s) else (.failed, s)
  | .lots fold now rest =>
    match Wallet.select fold.amountMicros
        (s.db.eligibleLots { x.circumstance with now } fold.debit.admission fold.org) with
    | some selection => (.committing fold (some (selection, now)) rest, s)
    | none => (.failed, s)
  | .committing fold plan rest =>
    match fold.batch plan x.circumstance s with
    | none => (.failed, s)
    | some s' =>
      (if x.lost then .failed
        else .folding { rest with moved := rest.moved + fold.ids.length }, s')
  | .done moved => (.done moved, s)
  | .failed => (.failed, s)

/-! ### The machine -/

/-- The books, and the runs over them. -/
structure System where
  books : Books := {}
  run : ℕ → Run := fun _ => .idle
  client : ℕ → Wallet.Client := fun _ => .idle

/-- What the trigger of `usage_events` lets in. -/
def admissible (event : UsageEvent) : Bool :=
  event.exactUnit && event.amountNumeratorMicros.isSome &&
    event.amountDenominator.any fun denominator => decide (0 < denominator)

/-- The reference of a roll-up. -/
def isRollupId (reference : String) : Bool := decide (reference.toList.take 5 = "roll_".toList)

/-- A debit that no roll-up makes, under a reference of its own. -/
def foreign (d : DebitCall) : Bool :=
  decide (d.kind = .hold) || decide (d.kind = .usage) && !isRollupId d.reference

/-- A call of another user of the wallet. -/
def foreignCall : Wallet.Call → Bool
  | .debit d => foreign d
  | _ => true

/-- One move: of a recorded event, a roll-up, or another user of the wallet. -/
inductive Action where
  /-- A usage event is recorded, unless its request is there already. -/
  | record (event : UsageEvent)
  /-- A process calls `rollUp`; a call it was in is lost. -/
  | rollUp (i limit : ℕ)
  /-- The next statement of a run. -/
  | step (i : ℕ) (x : Outside)
  /-- A process stops. -/
  | crash (i : ℕ)
  /-- Another user of the wallet makes its next call. -/
  | call (i : ℕ) (call : Wallet.Call)
  /-- The next statement of its call. -/
  | use (i : ℕ) (c : Circumstance)
  /-- It stops. -/
  | leave (i : ℕ)
  /-- A fence is raised, moved or lowered. -/
  | fence (f : Wallet.Fence)

/-- The machine of all interleavings. -/
def rollUps (options : Options) : Machine System Action where
  init := {}
  next s
    | .record event =>
      if admissible event then
        if (Table.find UsageEvent.requestId s.books.events event.requestId).isSome then some s
        else some { s with books := { s.books with
          events := s.books.events ++ [{ event with rollupId := none }] } }
      else none
    | .rollUp i limit => some { s with run := Function.update s.run i (.selecting limit) }
    | .step i x =>
      if x.fails then some { s with run := Function.update s.run i .failed }
      else
        let result := (s.run i).step options s.books x
        some { s with books := result.2, run := Function.update s.run i result.1 }
    | .crash i => some { s with run := Function.update s.run i .idle }
    | .call i call =>
      if foreignCall call then some { s with client := Function.update s.client i call.start }
      else none
    | .use i c =>
      let result := (s.client i).step s.books.db c
      some { s with
        books := { s.books with db := result.2 }
        client := Function.update s.client i result.1 }
    | .leave i => some { s with client := Function.update s.client i .idle }
    | .fence f => some { s with books := { s.books with db := s.books.db.setFence f } }

end Takoserver.Metering.RollUps
