import Takoserver.Ai.Writes

/-!
# Where a request may be, and what it knows

A request that is about to advance the row of its key has read that row, or made
it: what it read then still holds, since the others can only move the row on.
The request that inserted the row is the one exception, and it is alone: its
facts are about its own id.
-/

namespace Takoserver.Ai

/-! ### Records -/

/-- How far a request has come. -/
def AiRequestRecord.rank : AiRequestRecord → ℕ
  | .pending p =>
    match p.phase with
    | .claimed => 0
    | .ready => 1
    | .dispatched => 2
  | .settled r =>
    match r.phase with
    | .staged => 3
    | .completed => 4
  | .legacy _ | .rejected .. => 4

/-- The ledger reference of a request, and the ceiling of its charge. -/
def AiRequestRecord.account? : AiRequestRecord → Option (String × ℕ)
  | .pending p => some (p.requestId, p.ceilingMicros)
  | .settled r => some (r.requestId, r.ceilingMicros)
  | .legacy _ | .rejected .. => none

/-- The request of this reference and ceiling has come so far. -/
structure AiRequestRecord.Reaches (record : AiRequestRecord) (rank : ℕ) (requestId : String)
    (ceilingMicros : ℕ) : Prop where
  rank : rank ≤ record.rank
  account : record.account? = some (requestId, ceilingMicros)

/-- What a row keeps once it has it. -/
def AiRequestRecord.Journals (record : AiRequestRecord) (r : AiSettledRequest) : Prop :=
  r.phase = .staged ∧ (record = .settled r ∨ record = .settled { r with phase := .completed })

/-- The reply is the journaled one. -/
def AiRequestRecord.Final (record : AiRequestRecord) (reply : Reply) : Prop :=
  match record with
  | .settled r => r.phase = .completed ∧ reply = resultResponse r
  | .legacy l => reply = legacyResultResponse l
  | .rejected responseStatus responseBody => reply = jsonResponse responseBody responseStatus []
  | .pending _ => False

/-- An outcome this module builds. -/
structure AiSettledRequest.IsProper (r : AiSettledRequest) : Prop where
  actual : r.actualMicros ≤ r.ceilingMicros
  ceiling : r.ceilingMicros ≤ maxSafeInteger
  input : r.inputTokens ≤ maxSafeInteger
  output : r.outputTokens ≤ maxSafeInteger
  status : r.responseStatus = 200 ∨ r.responseStatus = 502

/-- A row that can be read back. -/
def Row.Sound (row : Row) : Prop :=
  match row.record with
  | .pending p => row.status = p.phase.status ∧ p.ceilingMicros ≤ maxSafeInteger
  | .settled r =>
    r.IsProper ∧ row.status = match r.phase with
      | .staged => 202
      | .completed => r.responseStatus
  | .rejected responseStatus _ => row.status = 402 ∧ responseStatus = 402
  | .legacy _ => True

variable {row : Row}

theorem parse_of_sound (h : row.Sound) (hl : ∀ l, row.record ≠ .legacy l) :
    parseRecord row.status row.record = some row.record := by
  obtain ⟨_, _, status, record, _⟩ := row
  cases record with
  | pending p =>
    obtain ⟨hs, hc⟩ := h
    exact if_pos ⟨hs, by simpa [safeIntegers] using hc⟩
  | settled r =>
    obtain ⟨hr, hs⟩ := h
    refine if_pos ⟨?_, ?_, ?_⟩
    · cases hp : r.phase
      · exact Or.inl ⟨by simpa [hp] using hs, rfl⟩
      · exact Or.inr ⟨by simpa [hp] using hs, rfl⟩
    · rcases hr.status with h | h <;> rw [h] <;> rfl
    · have hactual := hr.actual.trans hr.ceiling
      simp [safeIntegers, hr.ceiling, hactual, hr.input, hr.output]
  | legacy l => exact absurd rfl (hl l)
  | rejected =>
    obtain ⟨hs, rfl⟩ := h
    exact if_pos ⟨hs, rfl⟩

/-! ### Outcomes -/

theorem nonNegativeInteger?_le {value : Json} {n : ℕ} (h : nonNegativeInteger? value = some n) :
    n ≤ maxSafeInteger := by
  unfold nonNegativeInteger? at h
  split at h
  · obtain ⟨⟨-⟩, hn⟩ := Option.ite_none_right_eq_some.mp h
    have := Option.some.inj hn
    omega
  · cases h

theorem parseCompletion_le {value : Json} {model : String} {completion : Completion}
    (h : parseCompletion value model = some completion) :
    completion.inputTokens ≤ maxSafeInteger ∧ completion.outputTokens ≤ maxSafeInteger := by
  unfold parseCompletion at h
  split at h
  · cases h
  split at h
  · split at h
    · cases h
    dsimp only at h
    split at h
    · next hin hout _ =>
      obtain ⟨-, hc⟩ := Option.ite_none_right_eq_some.mp h
      cases hc
      obtain ⟨_, -, hin'⟩ := Option.bind_eq_some_iff.mp hin
      obtain ⟨_, -, hout'⟩ := Option.bind_eq_some_iff.mp hout
      exact ⟨nonNegativeInteger?_le hin', nonNegativeInteger?_le hout'⟩
    · cases h
  · cases h

theorem failedOutcome_proper {p : AiPendingRequest} {code : String}
    (hp : p.ceilingMicros ≤ maxSafeInteger) : (failedOutcome p code).IsProper :=
  ⟨Nat.zero_le _, hp, Nat.zero_le _, Nat.zero_le _, Or.inr rfl⟩

/-- **The charge of an outcome is within the ceiling**, whatever the upstream answers. -/
theorem outcome_proper (E : Codec) (model : AiModel) (answer : Option Json)
    {p : AiPendingRequest} (hp : p.ceilingMicros ≤ maxSafeInteger) :
    (outcome E model p answer).IsProper ∧
      (outcome E model p answer).requestId = p.requestId ∧
      (outcome E model p answer).ceilingMicros = p.ceilingMicros ∧
      (outcome E model p answer).phase = .staged := by
  have hfailed : ∀ code, (failedOutcome p code).IsProper ∧
      (failedOutcome p code).requestId = p.requestId ∧
      (failedOutcome p code).ceilingMicros = p.ceilingMicros ∧
      (failedOutcome p code).phase = .staged := fun code => ⟨failedOutcome_proper hp, rfl, rfl, rfl⟩
  unfold outcome
  split
  · exact hfailed _
  split
  · exact hfailed _
  next hparse =>
  obtain ⟨hin, hout⟩ := parseCompletion_le hparse
  split_ifs
  · exact hfailed _
  · split
    · exact hfailed _
    · split_ifs with hle
      · exact ⟨⟨hle, hp, hin, hout, Or.inl rfl⟩, rfl, rfl, rfl⟩
      · exact hfailed _
  · exact hfailed _

/-! ### What a request knows -/

/-- The reply of a check that refuses, or of an error. -/
def Reply.IsRefusal (reply : Reply) : Prop :=
  reply = .thrown ∨ ∃ code status param, reply = openAiFailure code status param

/-- No entry of the ledger has this reference. -/
def Unbooked (ledger : Funds.Ledger) (organizationId requestId : String) : Prop :=
  ∀ e ∈ ledger, ¬(e.organizationId = organizationId ∧ e.reference = requestId)

/-- The key has a row with this fingerprint, and its record is so. -/
def Shared.Has (db : Shared) (scope : Scope) (fingerprint : String)
    (P : AiRequestRecord → Prop) : Prop :=
  ∃ row ∈ db.journal, row.scope = scope ∧ row.fingerprint = fingerprint ∧ P row.record

/-- The charge of an outcome has been captured. -/
def Shared.HasCaptured (db : Shared) (organizationId : String) (r : AiSettledRequest) : Prop :=
  0 < r.actualMicros →
    (⟨organizationId, .capture, r.requestId, r.actualMicros⟩ : Funds.Entry) ∈ db.ledger

/-- What is left of the hold has been released. -/
def Shared.HasReleased (db : Shared) (organizationId : String) (r : AiSettledRequest) : Prop :=
  r.actualMicros < r.ceilingMicros →
    (⟨organizationId, .release, r.requestId, r.ceilingMicros - r.actualMicros⟩ : Funds.Entry) ∈
      db.ledger

/-- The claim of the key is a request's own. -/
structure Shared.Owns (db : Shared) (scope : Scope) (fingerprint : String) (own : Option String)
    (p : AiPendingRequest) : Prop where
  own : own = some p.requestId
  phase : p.phase = .claimed
  row : db.Has scope fingerprint fun record => record = .pending p

/-- What a request knows about a transition it is to make. -/
def Transition.Knows (db : Shared) (scope : Scope) (fingerprint : String) (own : Option String) :
    Transition → Prop
  | .ready p => db.Owns scope fingerprint own p ∧
      (0 < p.ceilingMicros →
        (⟨scope.organizationId, .hold, p.requestId, p.ceilingMicros⟩ : Funds.Entry) ∈ db.ledger)
  | .reject responseStatus responseBody => responseStatus = 402 ∧ responseBody = insufficientQuota ∧
      ∃ p, db.Owns scope fingerprint own p ∧
        Unbooked db.ledger scope.organizationId p.requestId
  | .dispatched p => p.phase = .ready ∧
      db.Has scope fingerprint (·.Reaches 1 p.requestId p.ceilingMicros)
  | .stage r => r.phase = .staged ∧ r.IsProper ∧
      db.Has scope fingerprint (·.Reaches 2 r.requestId r.ceilingMicros)
  | .finish r => db.Has scope fingerprint (·.Journals r) ∧
      db.HasCaptured scope.organizationId r ∧ db.HasReleased scope.organizationId r

/-- What a worker knows at a stage. -/
def Stage.Knows (db : Shared) (scope : Scope) (fingerprint : String) (own : Option String) :
    Stage → Prop
  | .lookup => own = none
  | .existing _ | .stopped => True
  | .claim _ p => own = some p.requestId ∧ p.phase = .claimed ∧ p.ceilingMicros ≤ maxSafeInteger ∧
      ∀ row ∈ db.journal, ∀ c, row.record.account? ≠ some (p.requestId, c)
  | .hold _ p => db.Owns scope fingerprint own p ∧
      Unbooked db.ledger scope.organizationId p.requestId
  | .update _ t => t.Knows db scope fingerprint own
  -- the record it finds tells a request that is here all it needs
  | .recheck _ _ => True
  | .chat _ p | .completion _ p => p.ceilingMicros ≤ maxSafeInteger ∧
      db.Has scope fingerprint (·.Reaches 2 p.requestId p.ceilingMicros)
  | .capture _ r => db.Has scope fingerprint (·.Journals r)
  | .release _ r => db.Has scope fingerprint (·.Journals r) ∧ db.HasCaptured scope.organizationId r
  | .recordUsage _ r => db.Has scope fingerprint (·.Journals r) ∧
      db.HasCaptured scope.organizationId r ∧ db.HasReleased scope.organizationId r
  | .replied reply => reply.IsRefusal ∨ db.Has scope fingerprint (·.Final reply)

/-- What a worker knows of the row of its request. -/
def Worker.Knows (E : Codec) (db : Shared) (w : Worker) : Prop :=
  w.stage.Knows db w.scope (E.canonicalDigest w.request.body) w.requestId

/-! ### Moves -/

/-- The moves of the state machine around one paid inference. -/
inductive AiRequestRecord.Moves : AiRequestRecord → Transition → Prop
  | ready (p : AiPendingRequest) (hp : p.phase = .claimed) : Moves (.pending p) (.ready p)
  | reject (p : AiPendingRequest) (responseBody : Json) (hp : p.phase = .claimed) :
      Moves (.pending p) (.reject 402 responseBody)
  | dispatched (p : AiPendingRequest) (hp : p.phase = .ready) : Moves (.pending p) (.dispatched p)
  | stage (p : AiPendingRequest) (r : AiSettledRequest) (hp : p.phase = .dispatched)
      (hid : r.requestId = p.requestId) (hceiling : r.ceilingMicros = p.ceilingMicros)
      (hr : r.IsProper) (hphase : r.phase = .staged) : Moves (.pending p) (.stage r)
  | finish (r : AiSettledRequest) (hr : r.phase = .staged) : Moves (.settled r) (.finish r)

section Moves

variable {record : AiRequestRecord} {t : Transition}

/-- A move goes on, never back. -/
theorem AiRequestRecord.Reaches.move {n : ℕ} {requestId : String} {ceilingMicros : ℕ}
    (h : record.Reaches n requestId ceilingMicros) (hn : 1 ≤ n) (hm : record.Moves t) :
    t.record.Reaches n requestId ceilingMicros := by
  obtain ⟨hrank, haccount⟩ := h
  cases hm with
  | ready p hp | reject p body hp =>
    simp only [AiRequestRecord.rank, hp] at hrank
    omega
  | dispatched p hp =>
    simp only [AiRequestRecord.rank, hp] at hrank
    exact ⟨hrank.trans (by simp [Transition.record, AiRequestRecord.rank]), haccount⟩
  | stage _ _ hp hid hceiling =>
    simp only [AiRequestRecord.rank, hp] at hrank
    refine ⟨hrank.trans (by simp [Transition.record, AiRequestRecord.rank]), ?_⟩
    simpa [Transition.record, AiRequestRecord.account?, hid, hceiling] using haccount
  | finish r hr =>
    simp only [AiRequestRecord.rank, hr] at hrank
    exact ⟨hrank.trans (by simp [Transition.record, AiRequestRecord.rank]), haccount⟩

/-- A move keeps what is journaled. -/
theorem AiRequestRecord.Journals.move {r : AiSettledRequest} (h : record.Journals r)
    (hm : record.Moves t) : t.record.Journals r := by
  obtain ⟨hphase, rfl | rfl⟩ := h
  · cases hm with
    | finish => exact ⟨hphase, Or.inr rfl⟩
  · cases hm with
    | finish r hr => cases hr

/-- A move keeps what is final. -/
theorem AiRequestRecord.Final.move {reply : Reply} (h : record.Final reply) : ¬record.Moves t := by
  intro hm
  cases hm with
  | finish r hr =>
    obtain ⟨hphase, -⟩ := h
    rw [hr] at hphase
    cases hphase
  | _ => exact h

/-- A move leads on. -/
theorem AiRequestRecord.Moves.rank_le (hm : record.Moves t) : record.rank ≤ t.record.rank := by
  cases hm with
  | ready p hp | dispatched p hp | reject p body hp =>
    simp [Transition.record, AiRequestRecord.rank, hp]
  | stage _ _ hp => simp [Transition.record, AiRequestRecord.rank, hp]
  | finish r hr => simp [Transition.record, AiRequestRecord.rank, hr]

theorem AiRequestRecord.Moves.account (hm : record.Moves t) :
    t.record.account? = record.account? ∨ t.record.account? = none := by
  cases hm with
  | stage _ _ _ hid hceiling =>
    left
    simp [Transition.record, AiRequestRecord.account?, hid, hceiling]
  | reject => exact Or.inr rfl
  | _ => exact Or.inl rfl

theorem Row.Sound.after (h : row.Sound) (hm : row.record.Moves t) :
    (row.after t).Sound := by
  unfold Row.Sound at h
  generalize hrecord : row.record = record at h hm
  cases hm with
  | ready p hp | dispatched p hp => exact ⟨rfl, h.2⟩
  | reject => exact ⟨rfl, rfl⟩
  | stage _ _ _ _ _ hr => exact ⟨⟨hr.1, hr.2, hr.3, hr.4, hr.5⟩, rfl⟩
  | finish => exact ⟨⟨h.1.1, h.1.2, h.1.3, h.1.4, h.1.5⟩, rfl⟩

end Moves

theorem Shared.Has.record {db : Shared} (hn : (db.journal.map Row.scope).Nodup)
    (hrow : row ∈ db.journal) {scope : Scope} (hscope : row.scope = scope) {fingerprint : String}
    {P : AiRequestRecord → Prop} (h : db.Has scope fingerprint P) : P row.record := by
  obtain ⟨_, hrow', hscope', -, hP⟩ := h
  obtain rfl := Table.eq_of_key hn hrow' hrow (hscope'.trans hscope.symm)
  exact hP

theorem Row.Sound.pending (h : row.Sound) (phase : PendingPhase)
    (hstatus : row.status = phase.status) {account : String × ℕ}
    (haccount : row.record.account? = some account) :
    ∃ q, row.record = .pending q ∧ q.phase = phase ∧ account = (q.requestId, q.ceilingMicros) := by
  unfold Row.Sound at h
  generalize row.record = record at h haccount
  cases record with
  | pending q =>
    obtain ⟨hq, -⟩ := h
    rw [hstatus] at hq
    refine ⟨q, rfl, ?_, (Option.some.inj haccount).symm⟩
    cases phase <;> cases hqphase : q.phase <;> simp [hqphase, PendingPhase.status] at hq ⊢
  | settled r =>
    obtain ⟨hr, hs⟩ := h
    rw [hstatus] at hs
    rcases hr.status with h | h <;> cases hp : r.phase <;> cases phase <;>
      simp [hp, h, PendingPhase.status] at hs
  | legacy l => cases haccount
  | rejected => cases haccount

/-- **A request's `UPDATE` is a move of the state machine.** -/
theorem moves_of_knows {db : Shared} (hn : (db.journal.map Row.scope).Nodup)
    (hrow : row ∈ db.journal) (hsound : row.Sound) {fingerprint : String} {own : Option String}
    {t : Transition} (h : t.Knows db row.scope fingerprint own) (hstatus : row.status = t.fromStatus) :
    row.record.Moves t := by
  cases t with
  | ready p =>
    obtain ⟨⟨-, hphase, hhas⟩, -⟩ := h
    rw [hhas.record hn hrow rfl]
    exact .ready p hphase
  | reject =>
    obtain ⟨rfl, -, p, ⟨-, hphase, hhas⟩, -⟩ := h
    rw [hhas.record hn hrow rfl]
    exact .reject p _ hphase
  | dispatched p =>
    obtain ⟨hphase, hhas⟩ := h
    obtain ⟨-, haccount⟩ := hhas.record hn hrow rfl
    obtain ⟨q, hq, hqphase, heq⟩ := hsound.pending .ready hstatus haccount
    obtain ⟨hid, hceiling⟩ := Prod.mk.inj heq
    have hpq : p = q := by
      obtain ⟨_, _, _⟩ := q
      obtain ⟨_, _, _⟩ := p
      simp only at hphase hqphase hid hceiling
      rw [hphase, hqphase, hid, hceiling]
    rw [hq, hpq]
    exact .dispatched q hqphase
  | stage r =>
    obtain ⟨hphase, hproper, hhas⟩ := h
    obtain ⟨-, haccount⟩ := hhas.record hn hrow rfl
    obtain ⟨q, hq, hqphase, heq⟩ := hsound.pending .dispatched hstatus haccount
    obtain ⟨hid, hceiling⟩ := Prod.mk.inj heq
    rw [hq]
    exact .stage q r hqphase hid hceiling hproper hphase
  | finish r =>
    obtain ⟨hphase, hrecord⟩ := h.1.record hn hrow rfl
    rcases hrecord with hrecord | hrecord
    · rw [hrecord]
      exact .finish r hphase
    · -- a row that is finished already is not at 202
      unfold Row.Sound at hsound
      rw [hrecord] at hsound
      obtain ⟨hr, hs⟩ := hsound
      rw [hstatus] at hs
      rcases hr.status with h | h <;> simp only at h <;> rw [h] at hs <;> cases hs

end Takoserver.Ai
