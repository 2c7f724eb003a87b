import Takoserver.Ai.Requests

/-!
# What a request writes

One call of a request changes the journal by one row, or the ledger by one
entry, or neither.  Which row and which entry is a matter of the stage the
request is at, so each invariant of the machine is kept by four kinds of write.
-/

namespace Takoserver.Ai

/-- The ledger entry the next call of a request asks for. -/
def Stage.entry? (organizationId : String) : Stage → Option Funds.Entry
  | .hold _ p => some ⟨organizationId, .hold, p.requestId, p.ceilingMicros⟩
  | .capture _ r => some ⟨organizationId, .capture, r.requestId, r.actualMicros⟩
  | .release _ r => some ⟨organizationId, .release, r.requestId, r.ceilingMicros - r.actualMicros⟩
  | _ => none

/-- What a call of a request does to the journal and the ledger. -/
inductive Writes (fingerprint : String) (w : Worker) (now : Instant) (db : Shared) :
    Journal → Funds.Ledger → Prop
  | nothing : Writes fingerprint w now db db.journal db.ledger
  | claim (model : AiModel) (p : AiPendingRequest) (hstage : w.stage = .claim model p)
      (hnone : ∀ row ∈ db.journal, row.scope ≠ w.scope) :
      Writes fingerprint w now db
        (db.journal ++ [{ scope := w.scope, fingerprint, status := 100, record := .pending p,
                          expiresAt := now + retentionMs }]) db.ledger
  | update (model : AiModel) (t : Transition) (row : Row) (hstage : w.stage = .update model t)
      (hrow : row ∈ db.journal) (hscope : row.scope = w.scope)
      (hfp : row.fingerprint = fingerprint) (hstatus : row.status = t.fromStatus)
      (hnow : now < row.expiresAt) :
      Writes fingerprint w now db (Table.put Row.scope (row.after t) db.journal) db.ledger
  | book (e : Funds.Entry) (hstage : w.stage.entry? w.scope.organizationId = some e)
      (hpos : 0 < e.amountMicros) (hnew : ∀ e' ∈ db.ledger, e'.key ≠ e.key) :
      Writes fingerprint w now db db.journal (db.ledger ++ [e])

variable {E : Codec} {c : Circumstance} {w w' : Worker} {db db' : Shared}

theorem perform_writes (hn : (db.journal.map Row.scope).Nodup)
    (h : w.perform E c db = (w', db')) :
    Writes (E.canonicalDigest w.request.body) w c.now db db'.journal db'.ledger := by
  unfold Worker.perform at h
  -- the stages in the order of `perform`
  dsimp only at h
  split at h
  case h_1 =>
    split at h
    case h_3 =>
      split at h
      all_goals obtain ⟨-, rfl⟩ := Prod.mk.inj h; exact .nothing
    all_goals obtain ⟨-, rfl⟩ := Prod.mk.inj h; exact .nothing
  case h_2 model p hstage =>
    split at h
    · next hinsert =>
      obtain ⟨-, rfl⟩ := Prod.mk.inj h
      obtain ⟨hnone, rfl⟩ := insertClaim_eq_some hinsert
      exact .claim model p hstage hnone
    · obtain ⟨-, rfl⟩ := Prod.mk.inj h
      exact .nothing
  case h_3 =>
    split at h
    all_goals obtain ⟨-, rfl⟩ := Prod.mk.inj h; exact .nothing
  case h_4 hstage =>
    split at h
    all_goals
      next hcall =>
      obtain ⟨-, rfl⟩ := Prod.mk.inj h
      rcases Funds.hold_cases hcall with ⟨-, rfl, -⟩ | ⟨-, rfl, hpos, hnew⟩ | ⟨-, rfl, -⟩ | ⟨-, rfl⟩
      · exact .nothing
      · exact .book _ (by rw [hstage]; rfl) hpos hnew
      · exact .nothing
      · exact .nothing
  case h_5 model t hstage =>
    split at h
    · next hmove =>
      obtain ⟨-, rfl⟩ := Prod.mk.inj h
      obtain ⟨row, hrow, hscope, hfp, hstatus, hnow, rfl⟩ := transition_eq_some hn hmove
      exact .update model t row hstage hrow hscope hfp hstatus hnow
    · obtain ⟨-, rfl⟩ := Prod.mk.inj h
      exact .nothing
  case h_6 =>
    split at h
    all_goals obtain ⟨-, rfl⟩ := Prod.mk.inj h; exact .nothing
  case h_9 hstage =>
    split at h
    all_goals
      next hcall =>
      obtain ⟨-, rfl⟩ := Prod.mk.inj h
      rcases Funds.settle_cases hcall with ⟨-, rfl, -⟩ | ⟨-, rfl, hpos, -, -, hnew⟩ | ⟨-, rfl⟩
      · exact .nothing
      · exact .book _ (by rw [hstage]; rfl) hpos hnew
      · exact .nothing
  case h_10 hstage =>
    split at h
    all_goals
      next hcall =>
      obtain ⟨-, rfl⟩ := Prod.mk.inj h
      rcases Funds.settle_cases hcall with ⟨-, rfl, -⟩ | ⟨-, rfl, hpos, -, -, hnew⟩ | ⟨-, rfl⟩
      · exact .nothing
      · exact .book _ (by rw [hstage]; rfl) hpos hnew
      · exact .nothing
  all_goals obtain ⟨-, rfl⟩ := Prod.mk.inj h; exact .nothing

/-- **What a call writes.**  Where it throws it may have taken effect or not. -/
theorem step_writes (hn : (db.journal.map Row.scope).Nodup) (h : w.step E c db = (w', db')) :
    Writes (E.canonicalDigest w.request.body) w c.now db db'.journal db'.ledger := by
  unfold Worker.step at h
  split at h
  · exact perform_writes hn h
  · exact perform_writes hn h
  · obtain ⟨-, rfl⟩ := Prod.mk.inj h
    exact .nothing
  · obtain ⟨-, rfl⟩ := Prod.mk.inj h
    exact perform_writes hn rfl

theorem step_request (h : w.step E c db = (w', db')) :
    w'.request = w.request ∧ w'.catalog = w.catalog ∧
      (w'.requestId = w.requestId ∨
        (w.stage = .lookup ∧ w'.requestId = some ("ai_" ++ c.randomId))) := by
  have hperform : ∀ w'' db'', w.perform E c db = (w'', db'') →
      w''.request = w.request ∧ w''.catalog = w.catalog ∧
        (w''.requestId = w.requestId ∨
          (w.stage = .lookup ∧ w''.requestId = some ("ai_" ++ c.randomId))) := by
    intro w'' db'' h
    unfold Worker.perform at h
    dsimp only at h
    repeat' split at h
    all_goals
      obtain ⟨rfl, -⟩ := Prod.mk.inj h
      first
        | exact ⟨rfl, rfl, Or.inl rfl⟩
        | exact ⟨rfl, rfl, Or.inr ⟨‹_›, rfl⟩⟩
  unfold Worker.step at h
  split at h
  · exact hperform _ _ h
  · exact hperform _ _ h
  · obtain ⟨rfl, -⟩ := Prod.mk.inj h
    exact ⟨rfl, rfl, Or.inl rfl⟩
  · obtain ⟨rfl, -⟩ := Prod.mk.inj h
    exact ⟨rfl, rfl, Or.inl rfl⟩

end Takoserver.Ai
