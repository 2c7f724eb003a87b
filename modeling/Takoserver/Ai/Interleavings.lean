import Takoserver.Ai.Phases

/-!
# All interleavings of chat requests

What holds in every state that any number of requests, crashes and faults lead
to: rows have one key each and can be read back, ids are drawn once, and the
ledger has of each reference what the row of its key says.
-/

namespace Takoserver.Ai

open Machine

/-! ### Charges -/

/-- The entry of a hold. -/
def holdOf (organizationId requestId : String) (ceilingMicros : ℕ) : Funds.Ledger :=
  if 0 < ceilingMicros then [⟨organizationId, .hold, requestId, ceilingMicros⟩] else []

/-- The entry of a capture. -/
def captureOf (organizationId : String) (r : AiSettledRequest) : Funds.Ledger :=
  if 0 < r.actualMicros then [⟨organizationId, .capture, r.requestId, r.actualMicros⟩] else []

/-- The entry of a release. -/
def releaseOf (organizationId : String) (r : AiSettledRequest) : Funds.Ledger :=
  if r.actualMicros < r.ceilingMicros then
    [⟨organizationId, .release, r.requestId, r.ceilingMicros - r.actualMicros⟩] else []

/-- The whole charge of an outcome. -/
def chargeOf (organizationId : String) (r : AiSettledRequest) : Funds.Ledger :=
  holdOf organizationId r.requestId r.ceilingMicros ++ captureOf organizationId r ++
    releaseOf organizationId r

/-- The entries are those a record of this phase may have. -/
def AiRequestRecord.Charged (organizationId : String) (l : Funds.Ledger) : AiRequestRecord → Prop
  | .pending p =>
    Funds.of l organizationId p.requestId = holdOf organizationId p.requestId p.ceilingMicros ∨
      (p.phase = .claimed ∧ Funds.of l organizationId p.requestId = [])
  | .settled r =>
    Funds.of l organizationId r.requestId = chargeOf organizationId r ∨
      (r.phase = .staged ∧
        (Funds.of l organizationId r.requestId =
            holdOf organizationId r.requestId r.ceilingMicros ∨
          Funds.of l organizationId r.requestId =
            holdOf organizationId r.requestId r.ceilingMicros ++ captureOf organizationId r))
  | .legacy _ | .rejected .. => True

/-- The ledger has under the reference of a row what the row says. -/
def Row.Charged (l : Funds.Ledger) (row : Row) : Prop :=
  row.record.Charged row.scope.organizationId l

/-! ### The invariant -/

/-- What holds of every state that is reached. -/
structure Holds (E : Codec) (s : System) : Prop where
  scopes : (s.db.journal.map Row.scope).Nodup
  /-- An id is drawn by one request. -/
  ids : ∀ (n m : ℕ) (w w' : Worker) (requestId : String), s.workers[n]? = some w → s.workers[m]? = some w' →
    w.requestId = some requestId → w'.requestId = some requestId → n = m
  /-- The reference of a row was drawn by a request of its key. -/
  drawn : ∀ row ∈ s.db.journal, ∀ requestId c, row.record.account? = some (requestId, c) →
    ∃ (n : ℕ) (w : Worker), s.workers[n]? = some w ∧ w.requestId = some requestId ∧
      w.scope = row.scope
  sound : ∀ row ∈ s.db.journal, row.Sound
  charged : ∀ row ∈ s.db.journal, row.Charged s.db.ledger
  /-- An entry of the ledger is under the reference of a row. -/
  booked : ∀ e ∈ s.db.ledger, ∃ row ∈ s.db.journal,
    row.scope.organizationId = e.organizationId ∧ ∃ c, row.record.account? = some (e.reference, c)
  knows : ∀ (n : ℕ) (w : Worker), s.workers[n]? = some w → w.Knows E s.db

variable {row : Row} {requestId organizationId : String} {t : Transition} {record : AiRequestRecord}
  {r : AiSettledRequest} {m : ℕ} {v : Worker}

/-- The row of a reference is unique. -/
theorem Holds.account_unique {E : Codec} {s : System} (h : Holds E s) {row' : Row}
    (hrow : row ∈ s.db.journal) (hrow' : row' ∈ s.db.journal) {c c' : ℕ}
    (ha : row.record.account? = some (requestId, c))
    (ha' : row'.record.account? = some (requestId, c')) : row = row' := by
  obtain ⟨n, w, hw, hid, hscope⟩ := h.drawn row hrow requestId c ha
  obtain ⟨m, w', hw', hid', hscope'⟩ := h.drawn row' hrow' requestId c' ha'
  obtain rfl := h.ids n m w w' requestId hw hw' hid hid'
  rw [hw] at hw'
  cases hw'
  exact Table.eq_of_key h.scopes hrow hrow' (hscope.symm.trans hscope')

theorem Holds.update {E : Codec} {s : System} (h : Holds E s) {n : ℕ} {w : Worker}
    (hw : s.workers[n]? = some w) {model : AiModel} (hstage : w.stage = .update model t)
    (hrow : row ∈ s.db.journal) (hscope : row.scope = w.scope) (hstatus : row.status = t.fromStatus) :
    t.Knows s.db row.scope (E.canonicalDigest w.request.body) w.requestId ∧ row.record.Moves t := by
  have hknows := h.knows n w hw
  unfold Worker.Knows at hknows
  rw [hstage, ← hscope] at hknows
  exact ⟨hknows, moves_of_knows h.scopes hrow (h.sound row hrow) hknows hstatus⟩

theorem AiRequestRecord.Journals.account (h : record.Journals r) :
    record.account? = some (r.requestId, r.ceilingMicros) := by
  obtain ⟨-, rfl | rfl⟩ := h <;> rfl

/-! ### What goes on is kept -/

/-- Rows stay or are moved, and entries stay. -/
structure Shared.Leads (db db' : Shared) : Prop where
  rows : ∀ row ∈ db.journal, ∃ row' ∈ db'.journal, row'.scope = row.scope ∧
    row'.fingerprint = row.fingerprint ∧ row'.expiresAt = row.expiresAt ∧
    (row'.record = row.record ∨ ∃ t, row.record.Moves t ∧ row'.record = t.record)
  entries : ∀ e ∈ db.ledger, e ∈ db'.ledger

section Leads

variable {db db' : Shared} {scope : Scope} {fingerprint : String}

/-- What every move keeps, a request goes on to know. -/
theorem Shared.Has.leads {P : AiRequestRecord → Prop} (h : db.Has scope fingerprint P)
    (hl : db.Leads db') (hP : ∀ record t, record.Moves t → P record → P t.record) :
    db'.Has scope fingerprint P := by
  obtain ⟨row, hrow, hscope, hfp, hrecord⟩ := h
  obtain ⟨row', hrow', hscope', hfp', -, hsame | ⟨t, hm, hafter⟩⟩ := hl.rows row hrow
  · exact ⟨row', hrow', hscope'.trans hscope, hfp'.trans hfp, hsame ▸ hrecord⟩
  · exact ⟨row', hrow', hscope'.trans hscope, hfp'.trans hfp, hafter ▸ hP _ t hm hrecord⟩

theorem Shared.Has.reaches_leads {n : ℕ} {c : ℕ}
    (h : db.Has scope fingerprint (·.Reaches n requestId c)) (hl : db.Leads db') (hn : 1 ≤ n) :
    db'.Has scope fingerprint (·.Reaches n requestId c) :=
  h.leads hl fun _ _ hm hr => hr.move hn hm

theorem Shared.Has.journals_leads (h : db.Has scope fingerprint (·.Journals r)) (hl : db.Leads db') :
    db'.Has scope fingerprint (·.Journals r) :=
  h.leads hl fun _ _ hm hr => hr.move hm

theorem Shared.Has.final_leads {reply : Reply}
    (h : db.Has scope fingerprint (·.Final reply)) (hl : db.Leads db') :
    db'.Has scope fingerprint (·.Final reply) :=
  h.leads hl fun _ _ hm hr => absurd hm hr.move

theorem Shared.HasCaptured.leads (h : db.HasCaptured organizationId r) (hl : db.Leads db') :
    db'.HasCaptured organizationId r :=
  fun hpos => hl.entries _ (h hpos)

theorem Shared.HasReleased.leads (h : db.HasReleased organizationId r) (hl : db.Leads db') :
    db'.HasReleased organizationId r :=
  fun hpos => hl.entries _ (h hpos)

end Leads

/-! ### What a write leaves -/

section Writes

variable {E : Codec} {s : System} {n : ℕ} {w : Worker} {now : Instant} {journal : Journal}
  {ledger : Funds.Ledger}

variable {p : AiPendingRequest} {e : Funds.Entry} {l : Funds.Ledger} {organizationId' : String}
  {a : ℕ} {fingerprint : String}

theorem own_of_claimed {db : Shared} (hn : (db.journal.map Row.scope).Nodup)
    (hrow : row ∈ db.journal) {own : Option String}
    (h : t.Knows db row.scope fingerprint own) (hrecord : row.record = .pending p)
    (hm : row.record.Moves t) (hp : p.phase = .claimed) :
    own = some p.requestId := by
  rw [hrecord] at hm
  cases hm with
  | ready => exact h.1.own
  | reject =>
    obtain ⟨-, -, q, ⟨hown, -, hhas⟩, -⟩ := h
    have hq := hhas.record hn hrow rfl
    rw [hrecord] at hq
    obtain rfl := AiRequestRecord.pending.inj hq
    exact hown
  | dispatched p hp' => simp [hp'] at hp
  | stage p r hp' => simp [hp'] at hp

theorem leads_of_writes (h : Holds E s) (hw : s.workers[n]? = some w)
    (hwrites : Writes (E.canonicalDigest w.request.body) w now s.db journal ledger)
    {db' : Shared} (hj : db'.journal = journal) (hl : db'.ledger = ledger) : s.db.Leads db' := by
  cases hwrites with
  | nothing =>
    exact ⟨fun row hrow => ⟨row, hj ▸ hrow, rfl, rfl, rfl, Or.inl rfl⟩, fun e he => hl ▸ he⟩
  | claim =>
    refine ⟨fun row hrow => ⟨row, ?_, rfl, rfl, rfl, Or.inl rfl⟩, fun e he => hl ▸ he⟩
    rw [hj]
    exact List.mem_append_left _ hrow
  | update _ t row hstage hrow hscope _ hstatus =>
    refine ⟨fun r hr => ?_, fun e he => hl ▸ he⟩
    rw [hj]
    by_cases hk : r.scope = row.scope
    · obtain rfl := Table.eq_of_key h.scopes hr hrow hk
      have hm := (h.update hw hstage hrow hscope hstatus).2
      exact ⟨r.after t, Table.mem_put_self hrow rfl, rfl, rfl, rfl, Or.inr ⟨t, hm, rfl⟩⟩
    · exact ⟨r, Table.mem_put_of_ne hr hk, rfl, rfl, rfl, Or.inl rfl⟩
  | book =>
    refine ⟨fun row hrow => ⟨row, hj ▸ hrow, rfl, rfl, rfl, Or.inl rfl⟩, fun e' he => ?_⟩
    rw [hl]
    exact List.mem_append_left _ he

/-- The entry a request books is under the reference of the row of its key, which it made itself
or has seen dispatched. -/
theorem row_of_entry (h : Holds E s) (hw : s.workers[n]? = some w)
    (hstage : w.stage.entry? w.scope.organizationId = some e) :
    ∃ row ∈ s.db.journal, row.scope = w.scope ∧ e.organizationId = w.scope.organizationId ∧
      (∃ c, row.record.account? = some (e.reference, c)) ∧
      ((∃ p, row.record = .pending p ∧ p.phase = .claimed ∧ w.requestId = some p.requestId ∧
          e = ⟨w.scope.organizationId, .hold, p.requestId, p.ceilingMicros⟩ ∧
          Unbooked s.db.ledger w.scope.organizationId p.requestId) ∨
        (∃ r, row.record.Journals r ∧
          (e = ⟨w.scope.organizationId, .capture, r.requestId, r.actualMicros⟩ ∨
            (s.db.HasCaptured w.scope.organizationId r ∧
              e = ⟨w.scope.organizationId, .release, r.requestId,
                r.ceilingMicros - r.actualMicros⟩)))) := by
  have hknows := h.knows n w hw
  unfold Worker.Knows at hknows
  cases hs : w.stage <;> simp only [hs, Stage.entry?, reduceCtorEq] at hstage
  case hold p =>
    cases hstage
    rw [hs] at hknows
    obtain ⟨⟨hown, hphase, row, hrow, hscope, -, hrecord⟩, hun⟩ := hknows
    refine ⟨row, hrow, hscope, rfl, ⟨p.ceilingMicros, by rw [hrecord]; rfl⟩, Or.inl ?_⟩
    exact ⟨p, hrecord, hphase, hown, rfl, hun⟩
  case capture r =>
    cases hstage
    rw [hs] at hknows
    obtain ⟨row, hrow, hscope, -, hrecord⟩ := hknows
    exact ⟨row, hrow, hscope, rfl, ⟨_, hrecord.account⟩, Or.inr ⟨r, hrecord, Or.inl rfl⟩⟩
  case release r =>
    cases hstage
    rw [hs] at hknows
    obtain ⟨⟨row, hrow, hscope, -, hrecord⟩, hcaptured⟩ := hknows
    exact ⟨row, hrow, hscope, rfl, ⟨_, hrecord.account⟩,
      Or.inr ⟨r, hrecord, Or.inr ⟨hcaptured, rfl⟩⟩⟩

/-! ### Charges go with the rows -/

theorem AiRequestRecord.Charged.congr {l' : Funds.Ledger} (h : record.Charged organizationId l)
    (hof : ∀ requestId c, record.account? = some (requestId, c) →
      Funds.of l' organizationId requestId = Funds.of l organizationId requestId) :
    record.Charged organizationId l' := by
  cases record with
  | pending p => simpa only [AiRequestRecord.Charged, hof _ _ rfl] using h
  | settled r => simpa only [AiRequestRecord.Charged, hof _ _ rfl] using h
  | legacy l => trivial
  | rejected => trivial

theorem not_mem_of_new (hnew : ∀ e' ∈ l, e'.key ≠ e.key) :
    e ∉ Funds.of l e.organizationId e.reference :=
  fun he => hnew e (Funds.mem_of.mp he).1 rfl

theorem mem_captureOf (h : 0 < r.actualMicros) :
    (⟨organizationId, .capture, r.requestId, r.actualMicros⟩ : Funds.Entry) ∈
      captureOf organizationId r := by
  simp [captureOf, h]

theorem mem_releaseOf (h : r.actualMicros < r.ceilingMicros) :
    (⟨organizationId, .release, r.requestId, r.ceilingMicros - r.actualMicros⟩ : Funds.Entry) ∈
      releaseOf organizationId r := by
  simp [releaseOf, h]

theorem capture_not_mem_holdOf {requestId' : String}
    {c : ℕ} : (⟨organizationId, .capture, requestId, a⟩ : Funds.Entry) ∉
      holdOf organizationId' requestId' c := by
  unfold holdOf
  split <;> simp

theorem charged_capture (h : record.Charged organizationId l) (hr : record.Journals r)
    (hpos : 0 < r.actualMicros) (hnew : ∀ e ∈ l, e.key ≠ (organizationId, .capture, r.requestId)) :
    record.Charged organizationId
      (l ++ [⟨organizationId, .capture, r.requestId, r.actualMicros⟩]) := by
  have hnot := not_mem_of_new
    (e := ⟨organizationId, .capture, r.requestId, r.actualMicros⟩) hnew
  obtain ⟨hphase, rfl | rfl⟩ := hr
  · rcases h with h | ⟨-, h | h⟩
    · rw [h, chargeOf] at hnot
      simp [mem_captureOf hpos] at hnot
    · refine Or.inr ⟨hphase, Or.inr ?_⟩
      rw [Funds.of_append, if_pos ⟨rfl, rfl⟩, h, captureOf, if_pos hpos]
    · rw [h] at hnot
      simp [mem_captureOf hpos] at hnot
  · rcases h with h | ⟨h, -⟩
    · rw [h, chargeOf] at hnot
      exact absurd (List.mem_append_left _ (List.mem_append_right _ (mem_captureOf hpos))) hnot
    · cases h

theorem charged_release (h : record.Charged organizationId l) (hr : record.Journals r)
    (hlt : r.actualMicros < r.ceilingMicros) (hcaptured : 0 < r.actualMicros →
      (⟨organizationId, .capture, r.requestId, r.actualMicros⟩ : Funds.Entry) ∈ l)
    (hnew : ∀ e ∈ l, e.key ≠ (organizationId, .release, r.requestId)) :
    record.Charged organizationId
      (l ++ [⟨organizationId, .release, r.requestId, r.ceilingMicros - r.actualMicros⟩]) := by
  have hnot := not_mem_of_new
    (e := ⟨organizationId, .release, r.requestId, r.ceilingMicros - r.actualMicros⟩) hnew
  obtain ⟨-, rfl | rfl⟩ := hr
  · rcases h with h | ⟨-, h | h⟩
    · rw [h, chargeOf] at hnot
      exact absurd (List.mem_append_right _ (mem_releaseOf hlt)) hnot
    · -- nothing was captured, so nothing is to be
      have hzero : ¬0 < r.actualMicros := by
        intro hpos
        have hmem := Funds.mem_of.mpr ⟨hcaptured hpos, rfl, rfl⟩
        rw [h] at hmem
        exact capture_not_mem_holdOf hmem
      left
      rw [Funds.of_append, if_pos ⟨rfl, rfl⟩, h, chargeOf, captureOf, if_neg hzero, releaseOf,
        if_pos hlt, List.append_nil]
    · left
      rw [Funds.of_append, if_pos ⟨rfl, rfl⟩, h, chargeOf, releaseOf, if_pos hlt]
  · rcases h with h | ⟨h, -⟩
    · rw [h, chargeOf] at hnot
      exact absurd (List.mem_append_right _ (mem_releaseOf hlt)) hnot
    · cases h

theorem charged_book (h : Holds E s) (hw : s.workers[n]? = some w)
    (hstage : w.stage.entry? w.scope.organizationId = some e) (hpos : 0 < e.amountMicros)
    (hnew : ∀ e' ∈ s.db.ledger, e'.key ≠ e.key) (hrow : row ∈ s.db.journal) :
    row.Charged (s.db.ledger ++ [e]) := by
  obtain ⟨row', hrow', hscope, -, ⟨c, haccount⟩, hcases⟩ := row_of_entry h hw hstage
  have hcharged := h.charged row hrow
  by_cases heq : row = row'
  · subst heq
    unfold Row.Charged at hcharged ⊢
    rw [hscope] at hcharged ⊢
    rcases hcases with ⟨p, hrecord, -, -, rfl, hun⟩ | ⟨r, hr, rfl | ⟨hcaptured, rfl⟩⟩
    · have hnone : Funds.of s.db.ledger w.scope.organizationId p.requestId = [] := by
        rw [Funds.of, List.filter_eq_nil_iff]
        intro e' he'
        simpa using hun e' he'
      rw [hrecord]
      left
      rw [Funds.of_append, if_pos ⟨rfl, rfl⟩, hnone]
      exact (if_pos hpos).symm
    · exact charged_capture hcharged hr hpos hnew
    · exact charged_release hcharged hr (Nat.sub_pos_iff_lt.mp hpos) hcaptured hnew
  · refine hcharged.congr fun requestId c' haccount' => ?_
    rw [Funds.of_append, if_neg]
    rintro ⟨-, rfl⟩
    exact heq (h.account_unique hrow hrow' haccount' haccount)

theorem release_not_mem_holdOf {requestId' : String}
    {c : ℕ} : (⟨organizationId, .release, requestId, a⟩ : Funds.Entry) ∉
      holdOf organizationId' requestId' c := by
  unfold holdOf
  split <;> simp

theorem release_not_mem_captureOf : (⟨organizationId, .release, requestId, a⟩ : Funds.Entry) ∉
      captureOf organizationId' r := by
  unfold captureOf
  split <;> simp

theorem charge_of_settled {db : Shared}
    (h : (AiRequestRecord.settled r).Charged organizationId db.ledger)
    (hcaptured : db.HasCaptured organizationId r) (hreleased : db.HasReleased organizationId r) :
    Funds.of db.ledger organizationId r.requestId = chargeOf organizationId r := by
  rcases h with h | ⟨-, h | h⟩
  · exact h
  · have hc : ¬0 < r.actualMicros := by
      intro hpos
      have hmem := Funds.mem_of.mpr ⟨hcaptured hpos, rfl, rfl⟩
      rw [h] at hmem
      exact capture_not_mem_holdOf hmem
    have hr : ¬r.actualMicros < r.ceilingMicros := by
      intro hlt
      have hmem := Funds.mem_of.mpr ⟨hreleased hlt, rfl, rfl⟩
      rw [h] at hmem
      exact release_not_mem_holdOf hmem
    rw [h, chargeOf, captureOf, if_neg hc, releaseOf, if_neg hr, List.append_nil, List.append_nil]
  · have hr : ¬r.actualMicros < r.ceilingMicros := by
      intro hlt
      have hmem := Funds.mem_of.mpr ⟨hreleased hlt, rfl, rfl⟩
      rw [h, List.mem_append] at hmem
      exact hmem.elim release_not_mem_holdOf release_not_mem_captureOf
    rw [h, chargeOf, releaseOf, if_neg hr, List.append_nil]

theorem charged_move {db : Shared} {own : Option String}
    (hknows : t.Knows db row.scope fingerprint own) (hm : row.record.Moves t)
    (hcharged : row.Charged db.ledger) : (row.after t).Charged db.ledger := by
  unfold Row.Charged at hcharged ⊢
  generalize hrecord : row.record = record at hcharged hm
  change t.record.Charged row.scope.organizationId db.ledger
  cases hm with
  | ready p hp =>
    left
    rcases hcharged with h | ⟨-, h⟩
    · exact h
    · have hzero : ¬0 < p.ceilingMicros := by
        intro hpos
        have hmem := Funds.mem_of.mpr ⟨hknows.2 hpos, rfl, rfl⟩
        rw [h] at hmem
        cases hmem
      exact h.trans (if_neg hzero).symm
  | reject => trivial
  | dispatched p hp =>
    rcases hcharged with h | ⟨h, -⟩
    · exact Or.inl h
    · rw [hp] at h
      cases h
  | stage _ _ hp hid hceiling =>
    rcases hcharged with h | ⟨h, -⟩
    · refine Or.inr ⟨rfl, Or.inl ?_⟩
      rw [hid, hceiling]
      exact h
    · rw [hp] at h
      cases h
  | finish r hr => exact Or.inl (charge_of_settled (r := r) hcharged hknows.2.1 hknows.2.2)

theorem account_move {db : Shared} (hn : (db.journal.map Row.scope).Nodup) (hrow : row ∈ db.journal)
    {own : Option String} (hknows : t.Knows db row.scope fingerprint own)
    (hm : row.record.Moves t) (he : e ∈ db.ledger)
    (horg : row.scope.organizationId = e.organizationId) {c : ℕ}
    (haccount : row.record.account? = some (e.reference, c)) :
    t.record.account? = some (e.reference, c) := by
  rcases hm.account with hsame | hnone
  · exact hsame.trans haccount
  -- only a refusal forgets the reference, and only when nothing is booked
  exfalso
  generalize hrecord : row.record = record at hm haccount
  cases hm with
  | reject =>
    obtain ⟨-, -, q, ⟨-, -, hhas⟩, hun⟩ := hknows
    have hq := hhas.record hn hrow rfl
    rw [hrecord] at hq
    obtain rfl := AiRequestRecord.pending.inj hq
    obtain ⟨href, -⟩ := Prod.mk.inj (Option.some.inj haccount)
    exact hun e he ⟨horg.symm, href.symm⟩
  | _ => cases hnone

/-! ### What the others know -/

section

variable (h : Holds E s) (hw : s.workers[n]? = some w) (hv : s.workers[m]? = some v) (hne : n ≠ m)
  (hwrites : Writes (E.canonicalDigest w.request.body) w now s.db journal ledger)

include h hw hv hne hwrites

theorem Shared.Owns.other {db' : Shared} (hj : db'.journal = journal)
    (hp : s.db.Owns v.scope fingerprint v.requestId p) :
    db'.Owns v.scope fingerprint v.requestId p := by
  obtain ⟨hown, hphase, row, hrow, hscope, hfp, hrecord⟩ := hp
  refine ⟨hown, hphase, row, ?_, hscope, hfp, hrecord⟩
  rw [hj]
  cases hwrites with
  | nothing | book => exact hrow
  | claim => exact List.mem_append_left _ hrow
  | update _ _ _ hstage hrow' hscope' _ hstatus =>
    refine Table.mem_put_of_ne hrow fun hk => hne ?_
    obtain rfl := Table.eq_of_key h.scopes hrow hrow' hk
    obtain ⟨hknows, hm⟩ := h.update hw hstage hrow hscope' hstatus
    exact h.ids n m w v _ hw hv (own_of_claimed h.scopes hrow hknows hrecord hm hphase) hown

theorem Unbooked.other (hp : s.db.Owns v.scope fingerprint v.requestId p)
    (hun : Unbooked s.db.ledger v.scope.organizationId p.requestId) :
    Unbooked ledger v.scope.organizationId p.requestId := by
  cases hwrites with
  | nothing | claim | update => exact hun
  | book _ hstage =>
    intro e' he'
    rcases List.mem_append.mp he' with he' | he'
    · exact hun e' he'
    obtain rfl := List.mem_singleton.mp he'
    rintro ⟨-, href⟩
    obtain ⟨_, hrow', -, -, ⟨c, haccount⟩, hcases⟩ := row_of_entry h hw hstage
    obtain ⟨hown, -, _, hrow, -, -, hrecord⟩ := hp
    rw [href] at haccount
    obtain rfl := h.account_unique hrow hrow' (c := p.ceilingMicros) (by rw [hrecord]; rfl) haccount
    rcases hcases with ⟨q, hq, -, hown', -⟩ | ⟨r, ⟨-, hr | hr⟩, -⟩
    · rw [hrecord] at hq
      obtain rfl := AiRequestRecord.pending.inj hq
      exact hne (h.ids n m w v _ hw hv hown' hown)
    · rw [hrecord] at hr
      cases hr
    · rw [hrecord] at hr
      cases hr

theorem knows_other {db' : Shared} (hj : db'.journal = journal) (hl : db'.ledger = ledger)
    : v.Knows E db' := by
  have hleads := leads_of_writes h hw hwrites hj hl
  have hknows := h.knows m v hv
  unfold Worker.Knows at hknows ⊢
  -- whatever the other writes, a record only moves on
  cases hstage : v.stage with
  | existing | stopped | recheck => trivial
  | lookup =>
    rw [hstage] at hknows
    exact hknows
  | claim =>
    rw [hstage] at hknows
    obtain ⟨hown, hphase, hsafe, hnone⟩ := hknows
    refine ⟨hown, hphase, hsafe, fun row hrow c => ?_⟩
    rw [hj] at hrow
    cases hwrites with
    | nothing | book => exact hnone row hrow c
    | claim _ _ hstage' =>
      rcases List.mem_append.mp hrow with hrow | hrow
      · exact hnone row hrow c
      · obtain rfl := List.mem_singleton.mp hrow
        intro haccount
        -- no two workers draw one id
        obtain ⟨hid, -⟩ := Prod.mk.inj (Option.some.inj haccount)
        have hknows' := h.knows n w hw
        unfold Worker.Knows at hknows'
        rw [hstage'] at hknows'
        exact hne (h.ids n m w v _ hw hv (hknows'.1.trans (congrArg some hid)) hown)
    | update _ _ row' hstage' hrow' hscope' _ hstatus =>
      rcases Table.mem_put.mp hrow with ⟨hrow, -⟩ | ⟨rfl, -⟩
      · exact hnone row hrow c
      · have hm := (h.update hw hstage' hrow' hscope' hstatus).2
        rcases hm.account with hsame | hnone'
        · exact fun haccount => hnone row' hrow' c (hsame.symm.trans haccount)
        · exact fun haccount => by cases hnone'.symm.trans haccount
  | hold =>
    rw [hstage] at hknows
    obtain ⟨hp, hun⟩ := hknows
    exact ⟨hp.other h hw hv hne hwrites hj, hl ▸ hun.other h hw hv hne hwrites hp⟩
  | update _ t =>
    rw [hstage] at hknows
    cases t with
    | ready p => exact ⟨hknows.1.other h hw hv hne hwrites hj, fun hpos => hleads.entries _ (hknows.2 hpos)⟩
    | reject =>
      obtain ⟨hs, hb, p, hp, hun⟩ := hknows
      exact ⟨hs, hb, p, hp.other h hw hv hne hwrites hj, hl ▸ hun.other h hw hv hne hwrites hp⟩
    | dispatched p => exact ⟨hknows.1, hknows.2.reaches_leads hleads le_rfl⟩
    | stage r => exact ⟨hknows.1, hknows.2.1, hknows.2.2.reaches_leads hleads (by decide)⟩
    | finish r =>
      exact ⟨hknows.1.journals_leads hleads, hknows.2.1.leads hleads, hknows.2.2.leads hleads⟩
  | chat model p | completion model p =>
    rw [hstage] at hknows
    exact ⟨hknows.1, hknows.2.reaches_leads hleads (by decide)⟩
  | capture =>
    rw [hstage] at hknows
    exact Shared.Has.journals_leads hknows hleads
  | release =>
    rw [hstage] at hknows
    exact ⟨hknows.1.journals_leads hleads, hknows.2.leads hleads⟩
  | recordUsage =>
    rw [hstage] at hknows
    exact ⟨hknows.1.journals_leads hleads, hknows.2.1.leads hleads, hknows.2.2.leads hleads⟩
  | replied =>
    rw [hstage] at hknows
    exact hknows.imp id fun hfinal => hfinal.final_leads hleads

end

end Writes

/-! ### What a request learns -/

section Learning

variable {E : Codec} {db : Shared} {scope : Scope} {fingerprint : String} {own : Option String}
  {model : AiModel}

section

variable (h : db.Has scope fingerprint (·.Journals r))

include h

theorem settled_knows (hcaptured : db.HasCaptured scope.organizationId r)
    (hreleased : db.HasReleased scope.organizationId r) :
    (settled model r).Knows db scope fingerprint own := by
  unfold settled
  split
  · exact ⟨h, hcaptured, hreleased⟩
  · exact ⟨h, hcaptured, hreleased⟩

theorem captured_knows (hcaptured : db.HasCaptured scope.organizationId r) :
    (captured model r).Knows db scope fingerprint own := by
  unfold captured
  split
  · exact ⟨h, hcaptured⟩
  · next hlt => exact settled_knows h hcaptured fun hlt' => absurd hlt' hlt

theorem settle_knows :
    (settle model r).Knows db scope fingerprint own := by
  unfold settle
  split
  · exact h
  · next hpos => exact captured_knows h fun hpos' => absurd hpos' hpos

end

theorem refusal_knows {code : String} {status : ℕ} {param : Option String} :
    (Stage.replied (openAiFailure code status param)).Knows db scope fingerprint own :=
  Or.inl (Or.inr ⟨code, status, param, rfl⟩)

theorem requestStoreFailure_knows {e : StoreError} :
    (Stage.replied (requestStoreFailure e)).Knows db scope fingerprint own := by
  cases e <;> exact refusal_knows

theorem failure_knows {e : StoreError} :
    (Stage.replied (t.failure e)).Knows db scope fingerprint own := by
  cases t with
  | finish r => exact refusal_knows
  | _ => exact requestStoreFailure_knows

theorem resume_knows (h : db.Has scope fingerprint (· = record)) :
    (resume model record).Knows db scope fingerprint own := by
  obtain ⟨row, hrow, hscope, hfp, hrecord⟩ := h
  cases record with
  | legacy l =>
    refine Or.inr ⟨row, hrow, hscope, hfp, ?_⟩
    rw [hrecord]
    rfl
  | rejected =>
    refine Or.inr ⟨row, hrow, hscope, hfp, ?_⟩
    rw [hrecord]
    rfl
  | settled r =>
    unfold resume
    dsimp only
    cases hphase : r.phase with
    | completed =>
      refine Or.inr ⟨row, hrow, hscope, hfp, ?_⟩
      rw [hrecord]
      exact ⟨hphase, rfl⟩
    | staged => exact settle_knows ⟨row, hrow, hscope, hfp, hphase, Or.inl hrecord⟩
  | pending p =>
    unfold resume
    dsimp only
    cases hphase : p.phase with
    | claimed | dispatched => exact refusal_knows
    | ready =>
      refine ⟨hphase, row, hrow, hscope, hfp, ?_⟩
      rw [hrecord]
      exact ⟨by simp [AiRequestRecord.rank, hphase], rfl⟩

theorem next_knows (h : db.Has scope fingerprint (· = t.record))
    (hsound : ∀ row ∈ db.journal, row.Sound) : (t.next model).Knows db scope fingerprint own := by
  cases t with
  | ready p => exact resume_knows h
  | dispatched p =>
    obtain ⟨row, hrow, hscope, hfp, hrecord⟩ := h
    have hrow' := hsound row hrow
    unfold Row.Sound at hrow'
    rw [hrecord] at hrow'
    refine ⟨hrow'.2, row, hrow, hscope, hfp, ?_⟩
    rw [hrecord]
    exact ⟨le_rfl, rfl⟩
  | stage r =>
    obtain ⟨row, hrow, hscope, hfp, hrecord⟩ := h
    exact settle_knows ⟨row, hrow, hscope, hfp, rfl, Or.inl hrecord⟩
  | finish r =>
    obtain ⟨row, hrow, hscope, hfp, hrecord⟩ := h
    refine Or.inr ⟨row, hrow, hscope, hfp, ?_⟩
    rw [hrecord]
    exact ⟨rfl, rfl⟩
  | reject =>
    obtain ⟨row, hrow, hscope, hfp, hrecord⟩ := h
    refine Or.inr ⟨row, hrow, hscope, hfp, ?_⟩
    rw [hrecord]
    rfl

end Learning

section Next

variable {E : Codec} {receipts : Receipts} {s s' : System} {n : ℕ} {w w' : Worker}
  {c : Circumstance} {db' : Shared}

section

variable (h : Holds E s) (hw : s.workers[n]? = some w)

include h hw

theorem sound_of_writes {now : Instant} {journal : Journal} {ledger : Funds.Ledger}
    (hwrites : Writes (E.canonicalDigest w.request.body) w now s.db journal ledger) :
    ∀ row ∈ journal, row.Sound := by
  have hknows := h.knows n w hw
  unfold Worker.Knows at hknows
  intro row hrow
  cases hwrites with
  | nothing | book => exact h.sound row hrow
  | claim _ _ hstage =>
    rcases List.mem_append.mp hrow with hrow | hrow
    · exact h.sound row hrow
    · obtain rfl := List.mem_singleton.mp hrow
      rw [hstage] at hknows
      obtain ⟨-, hphase, hsafe, -⟩ := hknows
      exact ⟨by rw [hphase]; rfl, hsafe⟩
  | update _ _ row' hstage hrow' hscope _ hstatus =>
    rcases Table.mem_put.mp hrow with ⟨hrow, -⟩ | ⟨rfl, -⟩
    · exact h.sound row hrow
    · exact (h.sound row' hrow').after (h.update hw hstage hrow' hscope hstatus).2

theorem knows_perform (hfresh : s.isFresh c.randomId = true)
    (hstep : w.perform E c s.db = (w', db')) :
    w'.Knows E db' := by
  have hwrites := perform_writes h.scopes hstep
  have hsound := sound_of_writes h hw hwrites
  have hleads := leads_of_writes h hw hwrites rfl rfl
  have hknows := h.knows n w hw
  unfold Worker.Knows at hknows
  -- by the stage: what it read is still so, or is written now
  cases hstage : w.stage <;> rw [hstage] at hknows <;>
    simp only [Worker.perform, hstage] at hstep
  case lookup =>
    split at hstep
    · cases hstep
      exact requestStoreFailure_knows
    · next hlookup =>
      cases hstep
      obtain ⟨row, hrow, hscope, hfp, hrecord⟩ := lookupCompletedLegacy_eq_some hlookup
      refine Or.inr ⟨row, hrow, hscope, hfp, ?_⟩
      rw [hrecord]
      rfl
    · split at hstep
      · next hplan =>
        cases hstep
        exact Or.inl (Or.inr (planRequest_error hplan))
      · next hplan =>
        cases hstep
        refine ⟨rfl, rfl, planRequest_ok hplan, fun row hrow c' haccount => ?_⟩
        obtain ⟨m, v, hv, hid, -⟩ := h.drawn row hrow _ _ haccount
        have hne := List.all_eq_true.mp hfresh v (List.mem_of_getElem? hv)
        exact of_decide_eq_true hne hid
  -- no charge is booked against an id drawn just now
  case claim p =>
    obtain ⟨hown, hphase, -, hnone⟩ := hknows
    split at hstep
    · next journal hinsert =>
      cases hstep
      obtain ⟨-, rfl⟩ := insertClaim_eq_some hinsert
      let row : Row := { scope := w.scope, fingerprint := E.canonicalDigest w.request.body,
                         status := 100, record := .pending p, expiresAt := c.now + retentionMs }
      have hp : Shared.Owns { s.db with journal := s.db.journal ++ [row] } w.scope
          (E.canonicalDigest w.request.body) w.requestId p :=
        ⟨hown, hphase, row, List.mem_append_right _ (List.mem_singleton_self _), rfl, rfl, rfl⟩
      unfold Worker.Knows claimed
      split
      · refine ⟨hp, fun e he => ?_⟩
        rintro ⟨-, href⟩
        obtain ⟨row, hrow, -, c', haccount⟩ := h.booked e he
        exact hnone row hrow c' (href ▸ haccount)
      · next hpos => exact ⟨hp, fun hpos' => absurd hpos' hpos⟩
    · cases hstep
      trivial
  case existing =>
    split at hstep
    · cases hstep
      exact requestStoreFailure_knows
    · next hread =>
      cases hstep
      obtain ⟨row, hrow, hscope, hfp, -, hrecord, -⟩ := read_eq_ok hread
      exact resume_knows ⟨row, hrow, hscope, hfp, hrecord⟩
  case hold p =>
    obtain ⟨hp, hun⟩ := hknows
    split at hstep
    · next hcall =>
      cases hstep
      refine ⟨⟨hp.own, hp.phase, hp.row⟩, fun _ => ?_⟩
      rcases Funds.hold_cases hcall with ⟨-, -, he⟩ | ⟨-, rfl, -⟩ | ⟨h, -⟩ | ⟨h, -⟩
      · exact hleads.entries _ he
      · exact List.mem_append_right _ (List.mem_singleton_self _)
      · cases h
      · cases h
    · next hcall =>
      cases hstep
      refine ⟨rfl, rfl, p, ⟨hp.own, hp.phase, hp.row⟩, ?_⟩
      rcases Funds.hold_cases hcall with ⟨h, -⟩ | ⟨h, -⟩ | ⟨-, rfl, -⟩ | ⟨h, -⟩
      · cases h
      · cases h
      · exact hun
      · cases h
    · cases hstep
      exact Or.inl (Or.inl rfl)
  case update t =>
    split at hstep
    · next hmove =>
      cases hstep
      obtain ⟨row, hrow, hscope, hfp, -, -, rfl⟩ := transition_eq_some h.scopes hmove
      exact next_knows ⟨row.after t, Table.mem_put_self hrow rfl, hscope, hfp, rfl⟩ hsound
    · cases hstep
      trivial
  case recheck =>
    split at hstep
    · cases hstep
      exact failure_knows
    · next hread =>
      cases hstep
      obtain ⟨row, hrow, hscope, hfp, -, hrecord, -⟩ := read_eq_ok hread
      split
      · next heq => exact next_knows ⟨row, hrow, hscope, hfp, hrecord.trans heq⟩ hsound
      · exact failure_knows
  case chat =>
    cases hstep
    exact hknows
  case completion model _ =>
    cases hstep
    obtain ⟨hproper, hid, hceiling, hphase⟩ :=
      outcome_proper E model c.answer hknows.1
    refine ⟨hphase, hproper, ?_⟩
    rw [hid, hceiling]
    exact hknows.2
  case capture =>
    split at hstep
    · next hcall =>
      cases hstep
      refine captured_knows (Shared.Has.journals_leads hknows hleads) fun _ => ?_
      rcases Funds.settle_cases hcall with ⟨-, -, he⟩ | ⟨-, rfl, -⟩ | ⟨h, -⟩
      · exact hleads.entries _ he
      · exact List.mem_append_right _ (List.mem_singleton_self _)
      · cases h
    · cases hstep
      exact refusal_knows
  case release =>
    split at hstep
    · next hcall =>
      cases hstep
      refine settled_knows (hknows.1.journals_leads hleads) (hknows.2.leads hleads) fun _ => ?_
      rcases Funds.settle_cases hcall with ⟨-, -, he⟩ | ⟨-, rfl, -⟩ | ⟨h, -⟩
      · exact hleads.entries _ he
      · exact List.mem_append_right _ (List.mem_singleton_self _)
      · cases h
    · cases hstep
      exact refusal_knows
  case recordUsage =>
    cases hstep
    exact hknows
  case replied | stopped =>
    cases hstep
    exact h.knows n w hw

theorem knows_step (hfresh : s.isFresh c.randomId = true) (hstep : w.step E c s.db = (w', db')) :
    w'.Knows E db' := by
  have hknows := h.knows n w hw
  have hthrown : ∀ db'' : Shared, s.db.Leads db'' → (w.stage.thrown = w.stage → db'' = s.db) →
      (w.atStage w.stage.thrown).Knows E db'' := by
    intro db'' hleads hsame
    unfold Worker.Knows at hknows ⊢
    cases hstage : w.stage with
    | lookup | claim | existing => exact requestStoreFailure_knows
    | hold => exact Or.inl (Or.inl rfl)
    | update model t | recheck model t => exact failure_knows
    | completion =>
      rw [hstage] at hknows
      exact ⟨rfl, failedOutcome_proper hknows.1, hknows.2.reaches_leads hleads (by decide)⟩
    | capture | release | recordUsage => exact refusal_knows
    | chat model p | replied reply | stopped =>
      rw [hstage] at hknows hsame
      rw [hsame rfl]
      exact hknows
  unfold Worker.step at hstep
  split at hstep
  · exact knows_perform h hw hfresh hstep
  · exact knows_perform h hw hfresh hstep
  · cases hstep
    exact hthrown _ ⟨fun row hrow => ⟨row, hrow, rfl, rfl, rfl, Or.inl rfl⟩, fun e he => he⟩
      fun _ => rfl
  · next hchat =>
    cases hstep
    refine hthrown _ (leads_of_writes h hw (perform_writes h.scopes rfl) rfl rfl) fun hsame => ?_
    cases hstage : w.stage with
    | chat model p => exact absurd hstage (hchat model p)
    | replied | stopped => simp only [Worker.perform, hstage]
    | _ => simp [hstage, Stage.thrown] at hsame

end

theorem getElem?_set_cases {workers : List Worker} {n : ℕ} {w' : Worker}
    (h : (workers.set n w')[m]? = some v) :
    (m = n ∧ v = w') ∨ (n ≠ m ∧ workers[m]? = some v) := by
  rw [List.getElem?_set] at h
  split at h
  · next heq =>
    split at h
    · exact Or.inl ⟨heq.symm, (Option.some.inj h).symm⟩
    · cases h
  · next hne => exact Or.inr ⟨hne, h⟩

theorem holds_step (h : Holds E s) (hw : s.workers[n]? = some w)
    (hfresh : s.isFresh c.randomId = true) (hstep : w.step E c s.db = (w', db')) :
    Holds E { db := db', workers := s.workers.set n w' } := by
  have hwrites := step_writes h.scopes hstep
  obtain ⟨hrequest, -, hid⟩ := step_request hstep
  have hscope' : w'.scope = w.scope := by rw [Worker.scope, hrequest, Worker.scope]
  have hn : n < s.workers.length := (List.getElem?_eq_some_iff.mp hw).1
  have hknown := h.knows n w hw
  have hids : ∀ requestId, w.requestId = some requestId → w'.requestId = some requestId := by
    intro requestId hr
    rcases hid with hsame | ⟨hlookup, -⟩
    · exact hsame.trans hr
    · unfold Worker.Knows at hknown
      rw [hlookup] at hknown
      cases hknown.symm.trans hr
  -- an id that is drawn now was drawn by nobody
  have hnew : ∀ requestId, w'.requestId = some requestId → w.requestId = some requestId ∨
      ∀ (m : ℕ) (v : Worker), s.workers[m]? = some v → v.requestId ≠ some requestId := by
    intro requestId hr
    rcases hid with hsame | ⟨-, hdraw⟩
    · exact Or.inl (hsame.symm.trans hr)
    · right
      intro m v hv
      have hne := List.all_eq_true.mp hfresh v (List.mem_of_getElem? hv)
      rw [← hr, hdraw]
      exact of_decide_eq_true hne
  have hkeep : ∀ (m : ℕ) (v : Worker) (requestId : String), s.workers[m]? = some v →
      v.requestId = some requestId →
      ∃ (k : ℕ) (u : Worker), (s.workers.set n w')[k]? = some u ∧ u.requestId = some requestId ∧
        u.scope = v.scope := by
    intro m v requestId hv hr
    by_cases hm : n = m
    · subst hm
      rw [hw] at hv
      cases hv
      exact ⟨n, w', List.getElem?_set_self hn, hids _ hr, hscope'⟩
    · exact ⟨m, v, by rw [List.getElem?_set_ne hm]; exact hv, hr, rfl⟩
  have hother : ∀ (m : ℕ) (v : Worker), (s.workers.set n w')[m]? = some v → v.Knows E db' := by
    intro m v hv
    rcases getElem?_set_cases hv with ⟨rfl, rfl⟩ | ⟨hne, hv⟩
    · exact knows_step h hw hfresh hstep
    · exact knows_other h hw hv hne hwrites rfl rfl
  refine ⟨?_, ?_, ?_, sound_of_writes h hw hwrites, ?_, ?_, hother⟩
  · generalize db'.journal = journal at hwrites
    generalize db'.ledger = ledger at hwrites
    cases hwrites with
    | nothing | book => exact h.scopes
    | claim _ _ _ hnone => exact Table.nodup_insert h.scopes hnone
    | update =>
      rw [Table.map_key_put]
      exact h.scopes
  · intro m k v u requestId hv hu hrv hru
    rcases getElem?_set_cases hv with ⟨rfl, rfl⟩ | ⟨-, hv'⟩ <;>
      rcases getElem?_set_cases hu with ⟨rfl, rfl⟩ | ⟨-, hu'⟩
    · rfl
    · rcases hnew requestId hrv with hold | hnone
      · exact h.ids _ k w u requestId hw hu' hold hru
      · exact absurd hru (hnone k u hu')
    · rcases hnew requestId hru with hold | hnone
      · exact h.ids m _ v w requestId hv' hw hrv hold
      · exact absurd hrv (hnone m v hv')
    · exact h.ids m k v u requestId hv' hu' hrv hru
  · intro row hrow requestId c' haccount
    suffices hold : ∃ (m : ℕ) (v : Worker), s.workers[m]? = some v ∧
        v.requestId = some requestId ∧ v.scope = row.scope by
      obtain ⟨m, v, hv, hr, hvscope⟩ := hold
      obtain ⟨k, u, hu, hru, huscope⟩ := hkeep m v requestId hv hr
      exact ⟨k, u, hu, hru, huscope.trans hvscope⟩
    generalize db'.journal = journal at hwrites hrow
    generalize db'.ledger = ledger at hwrites
    cases hwrites with
    | nothing | book => exact h.drawn row hrow requestId c' haccount
    | claim _ _ hstage =>
      rcases List.mem_append.mp hrow with hrow | hrow
      · exact h.drawn row hrow requestId c' haccount
      · obtain rfl := List.mem_singleton.mp hrow
        obtain ⟨rfl, -⟩ := Prod.mk.inj (Option.some.inj haccount)
        unfold Worker.Knows at hknown
        rw [hstage] at hknown
        exact ⟨n, w, hw, hknown.1, rfl⟩
    | update _ _ row' hstage hrow' hscope _ hstatus =>
      rcases Table.mem_put.mp hrow with ⟨hrow, -⟩ | ⟨rfl, -⟩
      · exact h.drawn row hrow requestId c' haccount
      · have hm := (h.update hw hstage hrow' hscope hstatus).2
        rcases hm.account with hsame | hnone
        · exact h.drawn row' hrow' requestId c' (hsame.symm.trans haccount)
        · cases hnone.symm.trans haccount
  · intro row hrow
    generalize db'.journal = journal at hwrites hrow
    generalize db'.ledger = ledger at hwrites ⊢
    cases hwrites with
    | nothing => exact h.charged row hrow
    | book e hstage hpos hnone => exact charged_book h hw hstage hpos hnone hrow
    | claim _ _ hstage =>
      rcases List.mem_append.mp hrow with hrow | hrow
      · exact h.charged row hrow
      obtain rfl := List.mem_singleton.mp hrow
      unfold Worker.Knows at hknown
      rw [hstage] at hknown
      obtain ⟨-, hphase, -, hfree⟩ := hknown
      refine Or.inr ⟨hphase, ?_⟩
      rw [Funds.of, List.filter_eq_nil_iff]
      intro e he
      obtain ⟨row, hrow, -, c', haccount⟩ := h.booked e he
      simp only [decide_eq_true_eq, not_and]
      exact fun _ href => hfree row hrow c' (href ▸ haccount)
    | update _ _ row' hstage hrow' hscope _ hstatus =>
      rcases Table.mem_put.mp hrow with ⟨hrow, -⟩ | ⟨rfl, -⟩
      · exact h.charged row hrow
      · obtain ⟨hdue, hm⟩ := h.update hw hstage hrow' hscope hstatus
        exact charged_move hdue hm (h.charged row' hrow')
  · intro e he
    generalize db'.journal = journal at hwrites ⊢
    generalize db'.ledger = ledger at hwrites he
    cases hwrites with
    | nothing => exact h.booked e he
    | book _ hstage =>
      rcases List.mem_append.mp he with he | he
      · exact h.booked e he
      · obtain rfl := List.mem_singleton.mp he
        obtain ⟨row, hrow, hscope, horg, haccount, -⟩ := row_of_entry h hw hstage
        exact ⟨row, hrow, by rw [hscope, horg], haccount⟩
    | claim =>
      obtain ⟨row, hrow, horg, haccount⟩ := h.booked e he
      exact ⟨row, List.mem_append_left _ hrow, horg, haccount⟩
    | update _ t row' hstage hrow' hscope _ hstatus =>
      obtain ⟨row, hrow, horg, c', haccount⟩ := h.booked e he
      by_cases hk : row.scope = row'.scope
      · obtain rfl := Table.eq_of_key h.scopes hrow hrow' hk
        obtain ⟨hdue, hm⟩ := h.update hw hstage hrow hscope hstatus
        exact ⟨row.after t, Table.mem_put_self hrow rfl, horg, c',
          account_move h.scopes hrow hdue hm he horg haccount⟩
      · exact ⟨row, Table.mem_put_of_ne hrow hk, horg, c', haccount⟩

/-- Every step keeps it. -/
theorem holds_next {a : Action} (h : Holds E s) (hn : (requests E receipts).next s a = some s') :
    Holds E s' := by
  cases a with
  | arrive =>
    cases hn
    -- the newcomer has drawn nothing
    have hcases : ∀ (m : ℕ) (v u : Worker), (s.workers ++ [u])[m]? = some v →
        s.workers[m]? = some v ∨ (m = s.workers.length ∧ v = u) := by
      intro m v u hv
      rw [List.getElem?_append] at hv
      split at hv
      · exact Or.inl hv
      · right
        have hm : m - s.workers.length = 0 := by
          by_contra hne
          rw [List.getElem?_singleton, if_neg hne] at hv
          cases hv
        rw [hm] at hv
        exact ⟨by omega, (Option.some.inj hv).symm⟩
    refine ⟨h.scopes, ?_, ?_, h.sound, h.charged, h.booked, ?_⟩
    · intro m k v u requestId hv hu hrv hru
      rcases hcases _ _ _ hv with hv | ⟨-, rfl⟩
      · rcases hcases _ _ _ hu with hu | ⟨-, rfl⟩
        · exact h.ids m k v u requestId hv hu hrv hru
        · cases hru
      · cases hrv
    · intro row hrow requestId c haccount
      obtain ⟨m, v, hv, hr, hscope⟩ := h.drawn row hrow requestId c haccount
      refine ⟨m, v, ?_, hr, hscope⟩
      rw [List.getElem?_append_left (List.getElem?_eq_some_iff.mp hv).1]
      exact hv
    · intro m v hv
      rcases hcases _ _ _ hv with hv | ⟨-, rfl⟩
      · exact h.knows m v hv
      split
      · next hrefused =>
        left
        unfold invalidRequest? at hrefused
        split_ifs at hrefused
        · exact Or.inr ⟨_, _, _, (Option.some.inj hrefused).symm⟩
        · exact Or.inr ⟨_, _, _, (Option.some.inj hrefused).symm⟩
        · split at hrefused
          · exact Or.inr ⟨_, _, _, (Option.some.inj hrefused).symm⟩
          · split_ifs at hrefused
            exact Or.inr ⟨_, _, _, (Option.some.inj hrefused).symm⟩
      · rfl
  | step =>
    obtain ⟨w, hw, hstep⟩ := Option.bind_eq_some_iff.mp hn
    obtain ⟨hfresh, heq⟩ := Option.ite_none_right_eq_some.mp hstep
    cases heq
    exact holds_step h hw hfresh rfl
  | crash n =>
    obtain ⟨w, hw, rfl⟩ := Option.map_eq_some_iff.mp hn
    have hlt : n < s.workers.length := (List.getElem?_eq_some_iff.mp hw).1
    refine ⟨h.scopes, ?_, ?_, h.sound, h.charged, h.booked, ?_⟩
    · intro m k v u requestId hv hu hrv hru
      rcases getElem?_set_cases hv with ⟨rfl, rfl⟩ | ⟨-, hv'⟩ <;>
        rcases getElem?_set_cases hu with ⟨rfl, rfl⟩ | ⟨-, hu'⟩
      · rfl
      · exact h.ids _ k w u requestId hw hu' hrv hru
      · exact h.ids m _ v w requestId hv' hw hrv hru
      · exact h.ids m k v u requestId hv' hu' hrv hru
    · intro row hrow requestId c haccount
      obtain ⟨m, v, hv, hr, hscope⟩ := h.drawn row hrow requestId c haccount
      by_cases hm : n = m
      · subst hm
        rw [hw] at hv
        cases hv
        exact ⟨n, w.atStage .stopped, List.getElem?_set_self hlt, hr, hscope⟩
      · exact ⟨m, v, by rw [List.getElem?_set_ne hm]; exact hv, hr, hscope⟩
    · intro m v hv
      rcases getElem?_set_cases hv with ⟨rfl, rfl⟩ | ⟨-, hv⟩
      · trivial
      · exact h.knows m v hv

theorem leads_next {a : Action} (h : Holds E s) (hn : (requests E receipts).next s a = some s') :
    s.db.Leads s'.db := by
  have hrefl : s.db.Leads s.db :=
    ⟨fun row hrow => ⟨row, hrow, rfl, rfl, rfl, Or.inl rfl⟩, fun e he => he⟩
  cases a with
  | arrive =>
    cases hn
    exact hrefl
  | step =>
    obtain ⟨w, hw, hstep⟩ := Option.bind_eq_some_iff.mp hn
    obtain ⟨-, heq⟩ := Option.ite_none_right_eq_some.mp hstep
    cases heq
    exact leads_of_writes h hw (step_writes h.scopes rfl) rfl rfl
  | crash n =>
    obtain ⟨w, -, rfl⟩ := Option.map_eq_some_iff.mp hn
    exact hrefl

/-- **The invariant holds in every state that is reached.** -/
theorem holds_of_reachVia {ok : System → Action → Prop}
    (h : (requests E receipts).ReachVia ok s) : Holds E s := by
  refine h.invariant ?_ fun s a s' hs _ hn => holds_next hs hn
  refine ⟨receipts.nodup, ?_, ?_, ?_, ?_, ?_, ?_⟩
  · intro n m w w' requestId hw
    cases hw
  · intro row hrow requestId c haccount
    obtain ⟨l, hl⟩ := receipts.legacy row hrow
    rw [hl] at haccount
    cases haccount
  · intro row hrow
    obtain ⟨l, hl⟩ := receipts.legacy row hrow
    unfold Row.Sound
    rw [hl]
    trivial
  · intro row hrow
    obtain ⟨l, hl⟩ := receipts.legacy row hrow
    unfold Row.Charged
    rw [hl]
    trivial
  · intro e he
    cases he
  · intro n w hw
    cases hw

end Next

end Takoserver.Ai
