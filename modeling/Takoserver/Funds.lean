import Takoserver.Json
import Takoserver.Lib.Table

/-!
# The ledger its callers rely on

`hold`, `capture` and `release` of `src/ledger.ts`, each as one atomic call that
is idempotent by its reference.  `Takoserver.Wallet` models how the calls get
there, one statement at a time; the parts of the program that only spend money
through them see no more than this.
-/

namespace Takoserver

/-- `safeMicros`. -/
def safeMicros (micros : ℕ) : Option ℕ := if micros ≤ maxSafeInteger then some micros else none

/-- An amount is returned exactly where it is a safe integer. -/
theorem safeMicros_eq_some {n micros : ℕ} :
    safeMicros n = some micros ↔ micros = n ∧ micros ≤ maxSafeInteger := by
  unfold safeMicros
  split <;> grind

/-- `minorToMicros`; `none` where it throws. -/
def minorToMicros (minor : ℕ) : Option ℕ := safeMicros (minor * 10000)

namespace Funds

/-- `entry_type` of a row. -/
inductive EntryType where
  | hold
  | capture
  | release
  deriving DecidableEq

/-- A row of `ledger`. -/
structure Entry where
  organizationId : String
  type : EntryType
  reference : String
  amountMicros : ℕ
  deriving DecidableEq

/-- The unique index of `ledger`. -/
def Entry.key (e : Entry) : String × EntryType × String := (e.organizationId, e.type, e.reference)

/-- `held_delta_micros`. -/
def Entry.heldDeltaMicros (e : Entry) : ℤ :=
  match e.type with
  | .hold => e.amountMicros
  | .capture | .release => -e.amountMicros

/-- The rows of `ledger`. -/
abbrev Ledger := List Entry

/-- What is left of the hold of a reference. -/
def remaining (l : Ledger) (organizationId reference : String) : ℤ :=
  Table.sumIf (fun e => decide (e.organizationId = organizationId ∧ e.reference = reference))
    Entry.heldDeltaMicros l

/-- The rows of a reference, in the order they were written. -/
def of (l : Ledger) (organizationId reference : String) : Ledger :=
  l.filter fun e => decide (e.organizationId = organizationId ∧ e.reference = reference)

/-- How a call ends: it returns, `hold` returns `false`, or it throws. -/
inductive Answer where
  | ok
  | declined
  | thrown

/-- `hold`; `covered` says whether the eligible lots cover the amount. -/
def hold (l : Ledger) (organizationId reference : String) (amountMicros : ℕ) (covered : Bool) :
    Answer × Ledger :=
  let e : Entry := ⟨organizationId, .hold, reference, amountMicros⟩
  match Table.find Entry.key l e.key with
  | some existing => (if existing.amountMicros = amountMicros then .ok else .thrown, l)
  | none =>
    if amountMicros = 0 then (.thrown, l)
    else if covered then (.ok, l ++ [e])
    else (.declined, l)

/-- `capture` and `release`; `admitted` says whether nothing else refuses the batch, such as a
billing fence. -/
def settle (l : Ledger) (type : EntryType) (organizationId reference : String) (amountMicros : ℕ)
    (admitted : Bool) : Answer × Ledger :=
  let e : Entry := ⟨organizationId, type, reference, amountMicros⟩
  match Table.find Entry.key l e.key with
  | some existing => (if existing.amountMicros = amountMicros then .ok else .thrown, l)
  | none =>
    if amountMicros = 0 ∨ remaining l organizationId reference < amountMicros ∨
        (type = .release ∧ remaining l organizationId reference ≠ amountMicros) ∨ !admitted then
      (.thrown, l)
    else (.ok, l ++ [e])

variable {l : Ledger} {organizationId reference : String} {amountMicros : ℕ} {b : Bool}

theorem mem_of {e : Entry} : e ∈ of l organizationId reference ↔
    e ∈ l ∧ e.organizationId = organizationId ∧ e.reference = reference := by
  simp [of]

theorem of_append (e : Entry) : of (l ++ [e]) organizationId reference =
    if e.organizationId = organizationId ∧ e.reference = reference then
      of l organizationId reference ++ [e] else of l organizationId reference := by
  simp only [of, List.filter_append, List.filter_cons, List.filter_nil, decide_eq_true_eq]
  split <;> simp

/-- What a call that found a row under its reference did. -/
theorem eq_of_find {e existing : Entry} (h : Table.find Entry.key l e.key = some existing)
    (ha : existing.amountMicros = e.amountMicros) : e ∈ l := by
  obtain ⟨_, hk⟩ := Table.find_some h
  have : existing = e := by
    obtain ⟨o, t, r, a⟩ := existing
    obtain ⟨_, _, _, _⟩ := e
    obtain ⟨rfl, rfl, rfl⟩ := hk
    simp only at ha
    rw [ha]
  rwa [← this]

/-- A hold that answers has its row; one that found none appended it; else nothing changed. -/
theorem hold_cases {answer : Answer} {l' : Ledger}
    (h : hold l organizationId reference amountMicros b = (answer, l')) :
    let e : Entry := ⟨organizationId, .hold, reference, amountMicros⟩
    (answer = .ok ∧ l' = l ∧ e ∈ l) ∨
    (answer = .ok ∧ l' = l ++ [e] ∧ 0 < amountMicros ∧ ∀ e' ∈ l, e'.key ≠ e.key) ∨
    (answer = .declined ∧ l' = l ∧ ∀ e' ∈ l, e'.key ≠ e.key) ∨ (answer = .thrown ∧ l' = l) := by
  intro e
  unfold hold at h
  dsimp only at h
  split at h
  · next hfind =>
    split at h
    · next ha =>
      cases h
      exact Or.inl ⟨rfl, rfl, eq_of_find (e := e) hfind ha⟩
    · cases h
      exact Or.inr (Or.inr (Or.inr ⟨rfl, rfl⟩))
  · next hfind =>
    have hnone := Table.find_none.mp hfind
    split_ifs at h with h0 hb
    · cases h
      exact Or.inr (Or.inr (Or.inr ⟨rfl, rfl⟩))
    · cases h
      exact Or.inr (Or.inl ⟨rfl, rfl, by omega, hnone⟩)
    · cases h
      exact Or.inr (Or.inr (Or.inl ⟨rfl, rfl, hnone⟩))

/-- A settlement that answers has its row; one that found none appended it, out of what was left
of the hold; else nothing changed. -/
theorem settle_cases {type : EntryType} {answer : Answer} {l' : Ledger}
    (h : settle l type organizationId reference amountMicros b = (answer, l')) :
    let e : Entry := ⟨organizationId, type, reference, amountMicros⟩
    (answer = .ok ∧ l' = l ∧ e ∈ l) ∨
    (answer = .ok ∧ l' = l ++ [e] ∧ 0 < amountMicros ∧
      (amountMicros : ℤ) ≤ remaining l organizationId reference ∧
      (type = .release → remaining l organizationId reference = amountMicros) ∧
      ∀ e' ∈ l, e'.key ≠ e.key) ∨
    (answer = .thrown ∧ l' = l) := by
  intro e
  unfold settle at h
  dsimp only at h
  split at h
  · next hfind =>
    split at h
    · next ha =>
      cases h
      exact Or.inl ⟨rfl, rfl, eq_of_find (e := e) hfind ha⟩
    · cases h
      exact Or.inr (Or.inr ⟨rfl, rfl⟩)
  · next hfind =>
    have hnone := Table.find_none.mp hfind
    split at h
    · cases h
      exact Or.inr (Or.inr ⟨rfl, rfl⟩)
    · next hg =>
      cases h
      simp only [not_or, not_and, not_not] at hg
      obtain ⟨_, _, hrelease, -⟩ := hg
      exact Or.inr (Or.inl ⟨rfl, rfl, by omega, by omega, hrelease, hnone⟩)

end Funds

end Takoserver
