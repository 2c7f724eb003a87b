import Takoserver.V1.LedgerCalls

/-!
# The ledger in step

`recordResourceEffect` inserts its row, and then lists it.  A call that stops
between the two writes leaves a row that no attestation lists, and a repeated
call finds the row and answers that all is recorded.  Two calls that have read
the phases of an attempt before either has written may both conclude it, and a
commit concludes an attempt that was cancelled.
-/

namespace Takoserver.V1

open Machine

/-! ### The property -/

/-- No call stands between its two writes on an incarnation. -/
def Ledger.isQuiet (s : Ledger) (tenantUid : String × String) : Bool :=
  (eventsOf tenantUid s.unprojected).isEmpty

/-- The event rows, the attestations that list them, and the failures that compare the two. -/
structure Ledger.InStep (D : Digests) (s : Ledger) : Prop where
  /-- An open attestation lists exactly the rows of its incarnation, each once, and its fence has
  advanced once for each. -/
  exact : ∀ a ∈ s.store.tables.attestations, a.isOpen = true → s.isQuiet a.tenantUid = true →
    ∃ p ∈ s.projections, p.tenantUid = a.tenantUid ∧
      p.effects = eventsOf a.tenantUid s.store.tables.effects ∧ (p.effects.map Effect.key).Nodup ∧
      p.closureFence = (eventsOf a.tenantUid s.store.tables.effects).length + 1
  /-- While a call stands between its two writes, its row is the one that is missing. -/
  waiting : ∀ a ∈ s.store.tables.attestations, a.isOpen = true → s.isQuiet a.tenantUid = false →
    ∃ p ∈ s.projections, ∃ e ∈ s.unprojected, p.tenantUid = a.tenantUid ∧
      p.effects ++ [e] = eventsOf a.tenantUid s.store.tables.effects ∧
      p.closureFence = (eventsOf a.tenantUid s.store.tables.effects).length
  /-- No attempt has both succeeded and been cancelled. -/
  concluded : ∀ e ∈ s.store.tables.effects, ∀ e' ∈ s.store.tables.effects,
    e.attempt = e'.attempt → e.phase = .succeeded → e'.phase ≠ .cancelled
  /-- A definitive failure that passes its other guards finds the ledger as its last one says;
  a compensation is that of an incarnation that had no other attempt. -/
  failure : ∀ (c : DefinitiveFailure) (elsewhere deleted : Bool) (timestamp : Instant) (t' : Tables),
    commitDefinitiveProviderMutationFailure D c elsewhere timestamp s.store.tables =
      some (deleted, t') → s.isQuiet c.tenantUid = true →
    (c.compensation.isSome = true → ∀ e ∈ s.store.tables.effects, e.tenantUid = c.tenantUid →
      e.effectId = c.saga.operationId) →
    c.ledgerFence t' (c.project elsewhere s.store.tables s.projections) = true

/-! ### The condition -/

/-- The incarnation whose attempts a call concludes or removes. -/
def Call.concludes : Call → Option (String × String)
  | .releaseIncarnation tenantId resourceUid _ _ => some (tenantId, resourceUid)
  | .settlePrecondition i _ _ => some (i.tenantId, i.resourceUid)
  | .commitDefinitiveFailure failure _ => some failure.tenantUid
  | .commitImmediate m _ _ _ | .commitDeferred _ m _ _ _ =>
    if m.receiptJson.isNone then none else some m.tenantUid
  | _ => none

/-- The attempt a commit concludes has not been concluded. -/
def Call.isUnconcluded (t : Tables) (call : Call) : Bool :=
  call.mutation.all fun c => c.1.receiptJson.isNone ||
    !t.hasEffect c.1.address.tenantId c.1.resourceUid c.2 Effect.isTerminal

/-- What keeps the ledger in step. -/
def LedgerAct.keepsStep (s : Ledger) : LedgerAct → Bool
  | .call c => c.concludes.all s.isQuiet && c.isUnconcluded s.store.tables
  | .start _ => true
  | .step n => s.recorders[n]?.all fun r =>
      decide (r.stage ≠ .insert) || !effectIsInserted r.effect s.store.tables ||
        (s.isQuiet r.effect.tenantUid && phaseIsPermitted r.effect s.store.tables)
  | .stop n => s.recorders[n]?.all fun r => decide (r.stage ≠ .project)

/-! ### A step -/

variable {s : Ledger}

section Steps

variable {D : Digests} {timestamp : Instant} {t t' : Tables} {unprojected : List Effect}
  {ps : List Projection}

theorem Ledger.isQuiet_iff {k : String × String} :
    s.isQuiet k = true ↔ eventsOf k s.unprojected = [] := List.isEmpty_iff

theorem Call.project_eq_self {call : Call} (hcall : call.incarnation = none) :
    call.project timestamp t ps = ps := by
  cases call with
  | settlePrecondition | commitDefinitiveFailure | reserveIncarnation | recordEffect
  | prepareDeletion | releaseIncarnation | commitImmediate | commitDeferred => cases hcall
  | _ => rfl

/-- A batch of the store keeps the ledger in step. -/
theorem Call.apply_ledger {call : Call} (h : LedgerHolds unprojected t ps)
    (hquiet : ∀ k, call.concludes = some k → eventsOf k unprojected = [])
    (hnone : call.isUnconcluded t = true) (hrecord : ∀ e, call ≠ .recordEffect e)
    (happly : call.apply D timestamp t = some t') :
    LedgerHolds unprojected t' (call.project timestamp t ps) := by
  -- what both commits need of the condition
  have hcommit : ∀ (m : Mutation) (operationId : String), call.mutation = some (m, operationId) →
      (m.receiptJson.isNone = false → call.concludes = some m.tenantUid) →
      (m.receiptJson.isNone = false → eventsOf m.tenantUid unprojected = []) ∧
      (m.receiptJson.isNone = false →
        t.hasEffect m.address.tenantId m.resourceUid operationId Effect.isTerminal = false) := by
    intro m operationId hm hconcludes
    refine ⟨fun hreceipt => hquiet _ (hconcludes hreceipt), fun hreceipt => ?_⟩
    simp only [Call.isUnconcluded, hm, Option.all_some, hreceipt, Bool.false_or,
      Bool.not_eq_true'] at hnone
    exact hnone
  cases call with
  | reserveIncarnation =>
    cases happly
    exact reserveIncarnation_ledger h
  | prepareDeletion => exact prepareDeletion_ledger h happly
  | releaseIncarnation =>
    exact releaseIncarnation_ledger h (hquiet _ rfl) happly
  | settlePrecondition =>
    obtain ⟨⟨_, u⟩, hu, rfl⟩ := Option.map_eq_some_iff.mp happly
    exact settlePrecondition_ledger h (hquiet _ rfl) hu
  | commitDefinitiveFailure =>
    obtain ⟨⟨_, u⟩, hu, rfl⟩ := Option.map_eq_some_iff.mp happly
    exact definitiveFailure_ledger h (hquiet _ rfl) hu
  | commitImmediate m operationId =>
    obtain ⟨hq, hn⟩ := hcommit m operationId rfl fun hreceipt => by
      simp only [Call.concludes, hreceipt]
      rfl
    unfold Call.apply commitImmediateMutation at happly
    dsimp only at happly
    split at happly
    · exact commit_ledger h hq hn happly
    · cases happly
  | commitDeferred operation m =>
    obtain ⟨hq, hn⟩ := hcommit m operation.id rfl fun hreceipt => by
      simp only [Call.concludes, hreceipt]
      rfl
    unfold Call.apply commitDeferredMutation at happly
    dsimp only at happly
    split at happly
    · exact commit_ledger h hq hn happly
    · cases happly
  | recordEffect e => exact absurd rfl (hrecord e)
  | _ =>
    rw [Call.project_eq_self rfl]
    obtain ⟨heffects, hattestations⟩ := Call.apply_sameLedger rfl happly
    exact ⟨by rw [heffects]; exact h.events, by rw [heffects, hattestations]; exact h.listed⟩

theorem isPermitted_of_inserted {e : Effect} (hinserted : effectIsInserted e t = true)
    (hpermitted : phaseIsPermitted e t = true) : IsPermitted e t.effects := by
  simp only [effectIsInserted, Bool.and_eq_true, Bool.not_eq_true', List.any_eq_false,
    decide_eq_true_eq] at hinserted
  have hhas : ∀ phase, t.hasEffect e.tenantId e.resourceUid e.effectId
      (fun e' => decide (e'.phase = phase)) = true ↔
        ∃ e' ∈ t.effects, e'.attempt = e.attempt ∧ e'.phase = phase := by
    intro phase
    rw [hasEffect_iff]
    simp [Effect.attempt]
  simp only [phaseIsPermitted, Bool.not_eq_true', Bool.or_eq_false_iff] at hpermitted
  obtain ⟨⟨⟨⟨hdispatched, -⟩, -⟩, hsucceeded⟩, hcancelled⟩ := hpermitted
  refine ⟨hinserted.2, fun hphase => ?_, fun _ e' he' hattempt => ?_⟩
  · rw [hphase, decide_eq_true rfl, Bool.true_and, Bool.not_eq_false'] at hdispatched
    exact (hhas _).mp hdispatched
  · rw [Bool.eq_false_iff] at hsucceeded hcancelled ⊢
    intro hterminal
    rcases of_decide_eq_true hterminal with hphase | hphase
    · exact hsucceeded ((hhas _).mpr ⟨e', he', hattempt, hphase⟩)
    · exact hcancelled ((hhas _).mpr ⟨e', he', hattempt, hphase⟩)

theorem recordResourceEffect_eq (e : Effect) (t : Tables) :
    recordResourceEffect e t =
      if effectIsInserted e t then { t with effects := t.effects ++ [e] } else t := by
  unfold recordResourceEffect insertEffect effectIsInserted
  cases t.attests e.tenantId e.resourceUid Attestation.isOpen <;>
    cases t.effects.any fun e' => decide (e'.key = e.key) <;> rfl

theorem unprojected_set {r : Recorder} (r' : Recorder) : ∀ {recorders : List Recorder} {n : ℕ},
    recorders[n]? = some r → ∃ before after,
      recorders.filterMap Recorder.unprojected = before ++ r.unprojected.toList ++ after ∧
        (recorders.set n r').filterMap Recorder.unprojected =
          before ++ r'.unprojected.toList ++ after := by
  intro recorders
  induction recorders with
  | nil =>
    intro n h
    simp at h
  | cons q recorders ih =>
    intro n h
    cases n with
    | zero =>
      simp only [List.getElem?_cons_zero, Option.some.injEq] at h
      subst h
      refine ⟨[], recorders.filterMap Recorder.unprojected, ?_, ?_⟩
      · cases hq : q.unprojected <;> simp [hq]
      · cases hr' : r'.unprojected <;> simp [hr']
    | succ n =>
      obtain ⟨before, after, hold, hnew⟩ := ih (by simpa using h)
      refine ⟨q.unprojected.toList ++ before, after, ?_, ?_⟩
      · cases hq : q.unprojected <;> simp [hq, hold]
      · cases hq : q.unprojected <;> simp [hq, hnew]

/-- What the machine keeps. -/
def Ledger.Holds (s : Ledger) : Prop := LedgerHolds s.unprojected s.store.tables s.projections

/-- One call of `recordResourceEffect` runs its next statement. -/
theorem Ledger.step_holds {u : Ledger} {n : ℕ} {r : Recorder} (h : s.Holds)
    (hr : s.recorders[n]? = some r) (hok : LedgerAct.keepsStep s (.step n) = true)
    (hnext : s.step D timestamp n r = some u) : u.Holds := by
  simp only [LedgerAct.keepsStep, hr, Option.all_some, Bool.or_eq_true, decide_eq_true_eq,
    Bool.not_eq_true', Bool.and_eq_true] at hok
  obtain ⟨r', hr', hu⟩ := Option.bind_eq_some_iff.mp hnext
  obtain ⟨before, after, hold, hnew⟩ := unprojected_set r' hr
  unfold Ledger.Holds at h ⊢
  rw [Ledger.unprojected, hold] at h
  obtain ⟨e, stage⟩ := r
  -- a stage that has no row to list before or after
  have hidle : ∀ v : Ledger, v.recorders = s.recorders.set n r' → v.store = s.store →
      v.projections = s.projections → stage ≠ .project → r'.stage ≠ .project →
      LedgerHolds v.unprojected v.store.tables v.projections := by
    intro v hrecorders hstore hps hstage hstage'
    rw [Ledger.unprojected, hrecorders, hnew, hstore, hps]
    have hnone : (Recorder.mk e stage).unprojected = none := if_neg hstage
    have hnone' : r'.unprojected = none := if_neg hstage'
    rw [hnone']
    rw [hnone] at h
    exact h
  cases stage with
  | existing =>
    cases hu
    cases hr'
    refine hidle _ rfl rfl rfl (by simp) ?_
    split <;> simp
  | prior =>
    cases hu
    cases hr'
    refine hidle _ rfl rfl rfl (by simp) ?_
    split <;> simp
  | insert =>
    obtain ⟨store, hstore, rfl⟩ := Option.map_eq_some_iff.mp hu
    obtain ⟨-, happly, -⟩ := store_next hstore
    have htables : recordResourceEffect e s.store.tables = store.tables :=
      Option.some.inj happly
    rw [recordResourceEffect_eq] at htables
    cases hr'
    by_cases hinserted : effectIsInserted e s.store.tables = true
    · rw [if_pos hinserted] at htables
      rcases hok with (hstage | hnot) | ⟨hquiet, hpermitted⟩
      · exact absurd rfl hstage
      · rw [hinserted] at hnot
        cases hnot
      have hpermits := isPermitted_of_inserted hinserted hpermitted
      rw [Ledger.isQuiet_iff, Ledger.unprojected, hold] at hquiet
      have hopen : ∃ a ∈ s.store.tables.attestations, a.tenantUid = e.tenantUid ∧
          a.isOpen = true := by
        simp only [effectIsInserted, Bool.and_eq_true] at hinserted
        exact attests_iff.mp hinserted.1
      rw [Ledger.unprojected, hnew, ← htables]
      refine ⟨h.events.append hpermits, ?_⟩
      have hsplit : before ++ (Recorder.mk e .insert).unprojected.toList ++ after =
          before ++ after := by simp [Recorder.unprojected]
      have hlisted := h.listed.insert hsplit hopen hquiet
      simpa [Recorder.unprojected, hinserted] using hlisted
    · rw [if_neg hinserted] at htables
      rw [Ledger.unprojected, hnew, ← htables]
      simpa [Recorder.unprojected, hinserted] using h
  | project =>
    cases hu
    cases hr'
    rw [Ledger.unprojected, hnew]
    have hwaits : LedgerHolds (before ++ [e] ++ after) s.store.tables s.projections := h
    obtain ⟨a, ha, hkey, hopen⟩ := hwaits.listed.written e (by simp)
    have hattests : s.store.tables.attests e.tenantId e.resourceUid Attestation.isOpen = true :=
      attests_iff.mpr ⟨a, ha, hkey, hopen⟩
    have hproject : project e Attestation.isOpen s.store.tables s.projections =
        Table.update (fun p => decide (p.tenantUid = e.tenantUid)) (Projection.record e)
          s.projections := by
      unfold project
      rw [if_pos hattests]
    rw [hproject]
    have hlisted := hwaits.listed.list
    exact ⟨h.events, by simpa [Recorder.unprojected] using hlisted⟩
  | answered => cases hr'
  | stopped => cases hr'

theorem ledger_holds_next {u : Ledger} {a : Instant × LedgerAct} (h : s.Holds)
    (hok : a.2.keepsStep s = true) (hnext : (ledger D).next s a = some u) : u.Holds := by
  obtain ⟨timestamp, act⟩ := a
  cases act with
  | call c =>
    have hrecord : ∀ e, c ≠ .recordEffect e := by
      rintro e rfl
      cases hnext
    have hstep : (((V1.store D).next s.store (timestamp, c)).bind fun store =>
        if c.ledgerFence store.tables (c.project timestamp s.store.tables s.projections) then
          some { s with
            store, projections := c.project timestamp s.store.tables s.projections }
        else none) = some u := by
      cases c <;> first | exact hnext | cases hnext
    obtain ⟨_, hstore, hu⟩ := Option.bind_eq_some_iff.mp hstep
    obtain ⟨-, happly, -⟩ := store_next hstore
    split at hu
    swap
    · cases hu
    cases hu
    simp only [LedgerAct.keepsStep, Bool.and_eq_true, Option.all_eq_true] at hok
    exact Call.apply_ledger h (fun k hk => Ledger.isQuiet_iff.mp (hok.1 k hk)) hok.2 hrecord happly
  | start e =>
    cases hnext
    unfold Ledger.Holds at h ⊢
    rw [Ledger.unprojected, List.filterMap_append]
    simpa [Recorder.unprojected, Ledger.unprojected] using h
  | step n =>
    obtain ⟨r, hr, hu⟩ := Option.bind_eq_some_iff.mp hnext
    exact Ledger.step_holds h hr hok hu
  | stop n =>
    obtain ⟨r, hr, hu⟩ := Option.bind_eq_some_iff.mp hnext
    simp only [LedgerAct.keepsStep, hr, Option.all_some, decide_eq_true_eq] at hok
    obtain ⟨_, _, hold, hnew⟩ :=
      unprojected_set { r with stage := .stopped } hr
    have hnone : r.unprojected = none := if_neg hok
    have hsame : (s.recorders.set n { r with stage := .stopped }).filterMap Recorder.unprojected =
        s.unprojected := by
      rw [hnew, Ledger.unprojected, hold, hnone]
      rfl
    unfold Ledger.Holds at h ⊢
    rw [← hsame] at h
    split at hu
    · cases hu
    · cases hu
    · cases hu
      exact h

/-! ### The failures that compare -/

theorem eq_planned_dispatched {l : List Effect} {p d : Effect} (hn : (l.map Effect.key).Nodup)
    (hp : p ∈ l) (hd : d ∈ l) (hpphase : p.phase = .planned) (hdphase : d.phase = .dispatched)
    (hattempt : ∀ e ∈ l, e.attempt = p.attempt) (hopen : ∀ e ∈ l, e.isTerminal = false)
    (hordered : l.Pairwise fun e e' =>
      e.attempt = e'.attempt → e.phase = .dispatched → e'.phase ≠ .planned) : l = [p, d] := by
  have hpd : p ≠ d := by
    rintro rfl
    rw [hpphase] at hdphase
    cases hdphase
  have hboth : ∀ e ∈ l, e = p ∨ e = d := by
    intro e he
    have hphase := hopen e he
    simp only [Effect.isTerminal, decide_eq_false_iff_not, not_or] at hphase
    cases hcase : e.phase with
    | planned =>
      exact Or.inl (Table.eq_of_key hn he hp (Effect.key_eq_iff.mpr
        ⟨hattempt e he, hcase.trans hpphase.symm⟩))
    | dispatched =>
      exact Or.inr (Table.eq_of_key hn he hd (Effect.key_eq_iff.mpr
        ⟨(hattempt e he).trans (hattempt d hd).symm, hcase.trans hdphase.symm⟩))
    | succeeded => exact absurd hcase hphase.1
    | cancelled => exact absurd hcase hphase.2
  have hnodup : l.Nodup := List.Nodup.of_map _ hn
  have hdpattempt : d.attempt = p.attempt := hattempt d hd
  clear hn hattempt hopen
  rcases l with _ | ⟨x, _ | ⟨y, rest⟩⟩
  · cases hp
  · rw [List.mem_singleton] at hp hd
    exact absurd (hp.trans hd.symm) hpd
  · have hxy : x ≠ y := by
      rintro rfl
      simp at hnodup
    have hx := hboth x (by simp)
    have hy := hboth y (by simp)
    have hrest : rest = [] := by
      rw [List.eq_nil_iff_forall_not_mem]
      intro z hz
      rcases hboth z (by simp [hz]) with rfl | rfl <;> rcases hx with rfl | rfl <;>
        rcases hy with rfl | rfl <;> simp_all
    subst hrest
    rcases hx with rfl | rfl <;> rcases hy with rfl | rfl
    · exact absurd rfl hxy
    · rfl
    · have hlater := List.rel_of_pairwise_cons hordered (List.mem_cons_self (a := y))
      exact absurd hpphase (hlater hdpattempt hdphase)
    · exact absurd rfl hxy

theorem LedgerHolds.exists_listed {a : Attestation} (h : LedgerHolds unprojected t ps)
    (ha : a ∈ t.attestations) (hopen : a.isOpen = true) :
    ∃ p ∈ ps, p.tenantUid = a.tenantUid ∧
      p.effects ++ eventsOf a.tenantUid unprojected = eventsOf a.tenantUid t.effects ∧
      p.closureFence = p.effects.length + 1 := by
  obtain ⟨p, hp, hkey⟩ := h.listed.exists_projection ha
  exact ⟨p, hp, hkey, h.listed.listed a ha hopen p hp hkey⟩

variable {c : DefinitiveFailure}

section

variable (h : LedgerHolds unprojected t ps) (hfence : FencedAttempt c t)
  (hquiet : eventsOf c.tenantUid unprojected = [])

include h hfence hquiet

theorem DefinitiveFailure.exists_recorded :
    ∃ p ∈ V1.project (c.event .cancelled) (fun a => decide (a.state = .live)) t ps,
      p.tenantUid = c.tenantUid ∧
        p.effects = eventsOf c.tenantUid t.effects ++ [c.event .cancelled] ∧
        p.closureFence = p.effects.length + 1 := by
  obtain ⟨a, ha, hkey, hlive⟩ := attests_iff.mp hfence.isLive
  have hopen : a.isOpen = true := by simp [Attestation.isOpen, of_decide_eq_true hlive]
  obtain ⟨p, hp, hpkey, hlist, hpfence⟩ := h.exists_listed ha hopen
  have hak : a.tenantUid = c.tenantUid := hkey
  rw [hak, hquiet, List.append_nil] at hlist
  refine ⟨p.record (c.event .cancelled), ?_, hpkey.trans hak, ?_, ?_⟩
  · have hstate : t.attests (c.event .cancelled).tenantId (c.event .cancelled).resourceUid
        (fun a => decide (a.state = .live)) = true := hfence.isLive
    unfold V1.project
    rw [if_pos hstate]
    exact Table.mem_update.mpr (Or.inr ⟨p, hp, decide_eq_true (hpkey.trans hak), rfl⟩)
  · rw [← hlist]
    rfl
  · simp [Projection.record, hpfence]

theorem compensation_ledgerFence (hcreate : c.create = true)
    (hcompensation : c.compensation.isSome = true)
    (hown : ∀ e ∈ t.effects, e.tenantUid = c.tenantUid → e.effectId = c.saga.operationId)
    (heffects : t'.effects = t.effects ++ [c.event .cancelled])
    (hattestations : t'.attestations = (c.conclude t).attestations) :
    c.ledgerFence t'
      (V1.project (c.event .cancelled) (fun a => decide (a.state = .live)) t ps) = true := by
  have hattempt : ∀ e ∈ t.effects, e.tenantUid = c.tenantUid →
      e.attempt = (c.event .cancelled).attempt := by
    intro e he hkey
    have hid := hown e he hkey
    simp only [Effect.tenantUid, DefinitiveFailure.tenantUid, Prod.mk.injEq] at hkey
    rw [Effect.attempt, hkey.1, hkey.2, hid]
    rfl
  -- the rows of the incarnation are those of the attempt, and there are two
  have hrows : eventsOf c.tenantUid t.effects = [c.event .planned, c.event .dispatched] := by
    refine eq_planned_dispatched (h.events.keys.sublist (List.filter_sublist.map _))
      (mem_eventsOf.mpr ⟨hfence.planned, rfl⟩) (mem_eventsOf.mpr ⟨hfence.dispatched, rfl⟩) rfl rfl
      (fun e he => ?_) (fun e he => ?_) (h.events.ordered.sublist List.filter_sublist)
    · obtain ⟨he, hkey⟩ := mem_eventsOf.mp he
      exact hattempt e he hkey
    · obtain ⟨he, hkey⟩ := mem_eventsOf.mp he
      have hnone := hfence.unconcluded
      rw [Bool.eq_false_iff] at hnone ⊢
      exact fun hterminal => hnone (hasEffect_iff.mpr ⟨e, he, hattempt e he hkey, hterminal⟩)
  have hfilter : (t.effects.filter fun e => decide (e.attempt = (c.event .cancelled).attempt)) =
      eventsOf c.tenantUid t.effects := by
    refine List.filter_congr fun e he => ?_
    by_cases hkey : e.tenantUid = c.tenantUid
    · rw [decide_eq_true hkey, decide_eq_true (hattempt e he hkey)]
    · rw [decide_eq_false hkey]
      exact decide_eq_false fun heq => hkey (Effect.tenantUid_of_attempt heq)
  obtain ⟨p, hp, hpkey, hpeffects, hpfence⟩ := DefinitiveFailure.exists_recorded h hfence hquiet
  rw [hrows] at hpeffects
  obtain ⟨a, ha, hkey, hlive⟩ := attests_iff.mp hfence.live
  simp only [Bool.and_eq_true, decide_eq_true_eq] at hlive
  unfold DefinitiveFailure.ledgerFence
  rw [if_pos hcreate, if_pos hcompensation]
  simp only [Bool.and_eq_true, decide_eq_true_eq, List.all_eq_true, List.any_eq_true]
  refine ⟨⟨⟨?_, ?_⟩, ?_⟩, p, hp, hpkey, ?_, hpeffects⟩
  · rw [heffects, List.filter_append, hfilter, hrows]
    simp
  · intro phase hphase
    rw [heffects, List.mem_append, List.mem_singleton]
    simp only [List.mem_cons, List.not_mem_nil, or_false] at hphase
    rcases hphase with rfl | rfl | rfl
    · exact Or.inl hfence.planned
    · exact Or.inl hfence.dispatched
    · exact Or.inr rfl
  · refine attests_iff.mpr ⟨{ a with state := .cancelled }, ?_, hkey, ?_⟩
    · rw [hattestations]
      refine Table.mem_update.mpr (Or.inr ⟨a, ha, ?_, rfl⟩)
      rw [hcompensation, Bool.and_true]
      exact decide_eq_true ⟨hkey, hlive.1.2⟩
    · simp only [Bool.and_eq_true, decide_eq_true_eq]
      exact ⟨⟨hlive.1.1, trivial⟩, hlive.2⟩
  · rw [hpfence, hpeffects]
    rfl

end

/-- The last guard of the failure of a create that reached no provider: nothing is left. -/
theorem create_ledgerFence {elsewhere : Bool} {u : Tables} (h : LedgerHolds unprojected t ps)
    (hfence : FencedAttempt c t) (hcreate : c.create = true)
    (hcompensation : c.compensation.isSome = false)
    (huncommitted : isUncommitted c.saga.target.tenantId c.saga.resourceUid c.saga.operationId
      elsewhere t = true)
    (hrelease : uncommittedResourceIncarnationRelease c.saga.target.tenantId c.saga.resourceUid
      c.saga.operationId elsewhere (c.conclude t) = some u) (heffects : t'.effects = u.effects)
    (hattestations : t'.attestations = u.attestations) (qs : List Projection) :
    c.ledgerFence t' qs = true := by
  have hnone : c.compensation = none := by
    rwa [Option.isSome_eq_false_iff, Option.isNone_iff_eq_none] at hcompensation
  have hsame : (c.conclude t).attestations = t.attestations := (conclude_attestations).2 hnone
  simp only [isUncommitted, Bool.and_eq_true, Bool.not_eq_true', List.any_eq_false,
    decide_eq_true_eq, not_and, not_or, not_not] at huncommitted
  obtain ⟨⟨⟨huid, helsewhere⟩, hlive⟩, hown⟩ := huncommitted
  -- every row of the incarnation is of the attempt, the new one too
  have hattempt : ∀ e ∈ (c.conclude t).effects, e.tenantUid = c.tenantUid →
      e.effectId = c.saga.operationId ∧ e.phase ≠ .succeeded := by
    intro e he hkey
    rcases List.mem_append.mp he with he | he
    · simp only [Effect.tenantUid, DefinitiveFailure.tenantUid, Prod.mk.injEq] at hkey
      exact hown e he hkey.1 hkey.2
    · rw [List.mem_singleton] at he
      subst he
      exact ⟨rfl, by simp⟩
  have hstill : isUncommitted c.saga.target.tenantId c.saga.resourceUid c.saga.operationId
      elsewhere (c.conclude t) = true := by
    simp only [isUncommitted, Bool.and_eq_true, Bool.not_eq_true', List.any_eq_false,
      decide_eq_true_eq, not_and, not_or, not_not]
    refine ⟨⟨⟨huid, helsewhere⟩, ?_⟩, fun e he htenant hresource => ?_⟩
    · rw [Tables.attests, hsame]
      exact hlive
    · exact hattempt e he (by rw [Effect.tenantUid, htenant, hresource]; rfl)
  unfold uncommittedResourceIncarnationRelease at hrelease
  rw [if_pos hstill] at hrelease
  split at hrelease
  · cases hrelease
  cases hrelease
  unfold DefinitiveFailure.ledgerFence
  rw [if_pos hcreate, if_neg (by rw [hcompensation]; simp)]
  simp only [Bool.and_eq_true, Bool.not_eq_true', List.any_eq_false, decide_eq_true_eq]
  constructor
  · intro e he hkey
    rw [heffects] at he
    obtain ⟨he, hkept⟩ := Table.mem_delete.mp he
    have hid := (hattempt e he hkey).1
    simp only [Effect.tenantUid, DefinitiveFailure.tenantUid, Prod.mk.injEq] at hkey
    exact of_decide_eq_false hkept ⟨hkey.1, hkey.2, hid⟩
  · rw [Bool.eq_false_iff]
    intro hattests
    obtain ⟨b, hb, hbkey, -⟩ := attests_iff.mp hattests
    rw [hattestations] at hb
    obtain ⟨hb, hkept⟩ := Table.mem_delete.mp hb
    rw [hsame] at hb
    obtain ⟨a, ha, hakey, hastate⟩ := attests_iff.mp hfence.isLive
    have hab : a = b := Table.eq_of_key h.listed.incarnations ha hb (hakey.trans hbkey.symm)
    subst hab
    exact of_decide_eq_false hkept ⟨hbkey, of_decide_eq_true hastate⟩

/-- A definitive failure that passes its other guards finds the ledger as its last one says. -/
theorem definitiveFailure_ledgerFence {elsewhere deleted : Bool} (h : LedgerHolds unprojected t ps)
    (hquiet : eventsOf c.tenantUid unprojected = [])
    (hown : c.compensation.isSome = true → ∀ e ∈ t.effects, e.tenantUid = c.tenantUid →
      e.effectId = c.saga.operationId)
    (hcall : commitDefinitiveProviderMutationFailure D c elsewhere timestamp t =
      some (deleted, t')) :
    c.ledgerFence t' (c.project elsewhere t ps) = true := by
  obtain ⟨hwell, hinitial, u, hu, -, -, -, hattestations, -, -, heffects⟩ :=
    definitiveFailure_stages hcall
  have hfence := fencedAttempt hinitial
  simp only [DefinitiveFailure.isWellFormed, Bool.and_eq_true, decide_eq_true_eq] at hwell
  obtain ⟨⟨⟨⟨⟨-, haction⟩, hiff⟩, -⟩, hcreates⟩, -⟩ := hwell
  unfold DefinitiveFailure.project
  -- a compensation, a refused create, or another refusal
  cases hcompensation : c.compensation.isSome with
  | true =>
    have hcreate : c.create = true := by
      rw [hiff.mpr hcompensation] at haction
      simp only [Option.isNone_some, Bool.false_or, Bool.and_eq_true] at haction
      exact haction.1
    have hnot : (c.create && c.compensation.isNone) = false := by
      cases hc : c.compensation <;> simp_all
    rw [hnot] at hu ⊢
    cases hu
    exact compensation_ledgerFence h hfence hquiet hcreate hcompensation (hown hcompensation)
      heffects hattestations
  | false =>
    have hnone : c.compensation = none := by
      rwa [Option.isSome_eq_false_iff, Option.isNone_iff_eq_none] at hcompensation
    cases hcreate : c.create with
    | true =>
      have huncommitted : isUncommitted c.saga.target.tenantId c.saga.resourceUid
          c.saga.operationId elsewhere t = true := by
        have hnew : c.saga.accepted = none := by
          rw [← Option.isNone_iff_eq_none, ← hcreates, hcreate]
        simp only [DefinitiveFailure.initialFence, DefinitiveFailure.fencesResource, hnew, hnone,
          Bool.and_eq_true] at hinitial
        exact hinitial.1.1.2.2
      rw [hcreate, hnone] at hu
      exact create_ledgerFence h hfence hcreate hcompensation huncommitted hu heffects
        hattestations _
    | false =>
      rw [hcreate] at hu
      cases hu
      obtain ⟨p, hp, hpkey, hpeffects, -⟩ := DefinitiveFailure.exists_recorded h hfence hquiet
      obtain ⟨a, ha, hkey, hlive⟩ := attests_iff.mp hfence.live
      simp only [Bool.and_eq_true, decide_eq_true_eq] at hlive
      unfold DefinitiveFailure.ledgerFence
      rw [if_neg (by rw [hcreate]; simp)]
      simp only [Bool.and_eq_true, decide_eq_true_eq, List.any_eq_true]
      refine ⟨⟨?_, ?_⟩, p, hp, hpkey, ?_⟩
      · rw [heffects]
        exact List.mem_append_right _ (List.mem_singleton_self _)
      · refine attests_iff.mpr ⟨a, ?_, hkey, decide_eq_true hlive.1⟩
        rw [hattestations, conclude_attestations.2 hnone]
        exact ha
      · rw [hpeffects]
        exact List.mem_append_right _ (List.mem_singleton_self _)

end Steps

/-! ### Every run -/

theorem ledger_holds_of_reachVia {D : Digests}
    (h : (ledger D).ReachVia (fun s a => a.2.keepsStep s) s) : s.Holds :=
  h.invariant ⟨EventsHold.nil, Listed.nil⟩ fun _ _ _ hs hok hnext => ledger_holds_next hs hok hnext

section Examples

/-- An event of the bucket, for the runs below. -/
def bucketEvent (phase : EffectPhase) : Effect :=
  { tenantId := bucket.address.tenantId, resourceUid := bucket.uid, effectId := "op_1",
    effectKind := .apply, phase, operationMode := .initial }

/-- The incarnation of a bucket is reserved. -/
def reserveBucket : LedgerAct :=
  .call (.reserveIncarnation bucket.address bucket.uid bucket.document.formRef)

/-- A call of `recordResourceEffect` with its four statements. -/
def recordSteps (n : ℕ) (phase : EffectPhase) : List LedgerAct :=
  [.start (bucketEvent phase), .step n, .step n, .step n, .step n]

/-- An attempt is planned and dispatched. -/
def recordedRun : List (Instant × LedgerAct) :=
  (reserveBucket :: (recordSteps 0 .planned ++ recordSteps 1 .dispatched)).map fun act => (1, act)

/-- A call stops after it has inserted its row, and is repeated: the row answers it. -/
def stoppedRun : List (Instant × LedgerAct) :=
  ([reserveBucket, .start (bucketEvent .planned), .step 0, .step 0, .step 0, .stop 0,
    .start (bucketEvent .planned), .step 1] : List LedgerAct).map fun act => (1, act)

end Examples

end Takoserver.V1
