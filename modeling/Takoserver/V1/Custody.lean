import Takoserver.V1.SagaWrites

/-!
# The custody of a provider mutation

A command crosses the provider boundary under custody of its saga row.  What
holds of every run, whatever the executors, crashes, expiries and lost answers:
one initial dispatch for each saga, so one initial entry into the provider; one
accepted lease token; a dispatch, selections and a receipt that are written
once; and a row that leaves for the commit of its receipt, for a settled
failure, or as a plan on which nothing was ever bound, leased or started.
-/

namespace Takoserver.V1

open Machine

/-! ### What an action removes -/

/-- The sagas an action may remove. -/
def Host.Removes (s : Host) (timestamp : Instant) : Act → Saga → Prop
  | .commitImmediate m operationId _ _, r => r.IsCommitted m operationId
  | .commitDeferred operation m _ _ _, r => r.IsCommitted m operation.id
  | .abandon _ _, r => r.IsIdlePlan
  | .step w _, r => ∃ x, s.executors w = some x ∧ x.Settles timestamp r
  | _, _ => False

/-- The mutation an action commits, with its operation. -/
def Act.commits : Act → Option (Mutation × String)
  | .commitImmediate m operationId _ _ => some (m, operationId)
  | .commitDeferred operation m _ _ _ => some (m, operation.id)
  | _ => none

section Steps

variable {D : Digests} {timestamp : Instant} {s u : Host} {act : Act}

/-- **Every action is one statement on the sagas**, or none. -/
theorem Host.next_writes (h : s.next D timestamp act = some u) :
    SagaWrite (s.Removes timestamp act) timestamp s.tables u.tables := by
  cases act with
  | accept =>
    obtain ⟨t, ht, rfl⟩ := Option.map_eq_some_iff.mp h
    exact accept_writes ht
  | rotate =>
    obtain ⟨t, ht, rfl⟩ := Option.map_eq_some_iff.mp h
    obtain ⟨⟨_, t⟩, hrotate, rfl⟩ := Option.map_eq_some_iff.mp ht
    exact rotate_writes hrotate
  | abandon =>
    obtain ⟨t, ht, rfl⟩ := Option.map_eq_some_iff.mp h
    obtain ⟨⟨_, t⟩, habandon, rfl⟩ := Option.map_eq_some_iff.mp ht
    exact abandon_writes habandon
  | commitImmediate =>
    obtain ⟨t, ht, rfl⟩ := Option.map_eq_some_iff.mp h
    exact (commitImmediate_writes ht).2
  | commitDeferred =>
    obtain ⟨t, ht, rfl⟩ := Option.map_eq_some_iff.mp h
    exact (commitDeferred_writes ht).2
  | start =>
    simp only [Host.next] at h
    split at h
    · cases h
      exact SagaWrite.of_eq rfl rfl
    · cases h
  | step =>
    obtain ⟨x, hx, h⟩ := Option.bind_eq_some_iff.mp h
    obtain ⟨_, hstep, rfl⟩ := Option.map_eq_some_iff.mp h
    exact (Executor.step_writes hstep).mono fun r _ hr => ⟨x, hx, hr⟩
  | crash w =>
    cases h
    exact SagaWrite.of_eq rfl rfl
  | others =>
    cases h
    exact SagaWrite.of_eq rfl rfl

/-- **A commit carries the stored receipt.** -/
theorem Host.next_commits (h : s.next D timestamp act = some u) {m : Mutation} {operationId : String}
    (hact : act.commits = some (m, operationId)) (hreceipt : m.receiptJson.isSome = true) :
    ∃ r ∈ s.tables.sagas, r.IsCommitted m operationId := by
  have hsome : m.receiptJson.isNone = false := by
    cases hm : m.receiptJson with
    | none => simp [hm] at hreceipt
    | some _ => rfl
  cases act with
  | commitImmediate =>
    cases hact
    obtain ⟨t, ht, rfl⟩ := Option.map_eq_some_iff.mp h
    have hfence := (commitImmediate_writes ht).1
    simp only [Mutation.immediateSagaFence, hsome, Bool.false_or, List.any_eq_true,
      Bool.and_eq_true] at hfence
    obtain ⟨r, hr, ⟨hnames, -⟩, -⟩ := hfence
    exact ⟨r, hr, Mutation.namesSaga_committed hnames⟩
  | commitDeferred =>
    cases hact
    obtain ⟨t, ht, rfl⟩ := Option.map_eq_some_iff.mp h
    have hfence := (commitDeferred_writes ht).1
    simp only [Mutation.deferredSagaFence, hsome, Bool.false_or, List.any_eq_true] at hfence
    obtain ⟨r, hr, hnames⟩ := hfence
    exact ⟨r, hr, Mutation.namesSaga_committed hnames⟩
  | _ => cases hact

end Steps

/-! ### What a step records -/

section Events

variable {D : Digests} {timestamp : Instant} {t : Tables} {x : Executor}

/-- What a step of an executor may add to the log. -/
inductive Executor.Logs (timestamp : Instant) (t : Tables) (x : Executor)
    (result : Executor.Result) : Prop where
  | nothing (events : result.events = []) (stage : result.executor.stage ≠ .dispatched .initial)
  /-- An initial dispatch took effect on a saga that had not started. -/
  | dispatch (p : Saga → Bool) (r : Saga) (mem : r ∈ t.sagas) (marked : p r = true)
      (unstarted : r.executionStartedAt = none)
      (sagas : result.tables.sagas = Table.update p (Saga.dispatched timestamp) t.sagas)
      (events : result.events = [.dispatched r.serial])
      (serial : result.executor.serial = some r.serial)
  /-- The provider was entered after such a dispatch. -/
  | enter (stage : x.stage = .dispatched .initial)
      (events : result.events = (x.serial.map Event.entered).toList)
      (left : result.executor.stage ≠ .dispatched .initial)

theorem deliver_stage {P : Stage → Prop} {delivery : Delivery} {outcome : Option (Bool × Tables)}
    {next : Bool → Stage} {aborted failed : Stage} (hnext : ∀ changed, P (next changed))
    (haborted : P aborted) (hfailed : P failed) :
    P (deliver delivery t outcome next aborted failed).2 := by
  unfold deliver
  split
  · exact hnext _
  · exact haborted
  · exact hfailed
  · exact hfailed
  · exact hfailed

variable {result : Executor.Result}

/-- The dispatch of an executor. -/
theorem Executor.mark_logs {mode : Mode} {delivery : Delivery}
    (h : x.step D timestamp t (.mark mode) (.run delivery) = some result) :
    x.Logs timestamp t result := by
  simp only [Executor.step, Option.some.injEq] at h
  by_cases heffect : mode = .initial ∧ delivery ≠ .refused ∧
      (x.markOutcome D mode timestamp t).isSome = true
  · obtain ⟨rfl, hdelivery, hsome⟩ := heffect
    obtain ⟨⟨_, t'⟩, hmark⟩ := Option.isSome_iff_exists.mp hsome
    obtain ⟨hany, hsagas, -⟩ := mark_sagas hmark
    cases hfind : t.sagas.find? (Saga.isDispatchable x.ref x.lease.token .initial timestamp) with
    | none =>
      obtain ⟨r, hr, hp⟩ := List.any_eq_true.mp hany
      exact absurd hp (List.find?_eq_none.mp hfind r hr)
    | some r =>
      have hp := List.find?_some hfind
      have hunstarted : r.executionStartedAt = none := by
        simp only [Saga.isDispatchable, Saga.startedAs, Bool.and_eq_true,
          Option.isNone_iff_eq_none] at hp
        exact hp.2
      have htables : result.tables = t' := by
        rw [← h, hmark]
        cases delivery with
        | answered => rfl
        | lost => rfl
        | refused => exact absurd rfl hdelivery
      refine .dispatch _ r (List.mem_of_find?_eq_some hfind) hp hunstarted
        (by rw [htables, hsagas]) ?_ ?_
      · rw [← h]
        simp [Executor.markEvents, hdelivery, hmark, Executor.markedSerial, hfind]
      · rw [← h]
        simp [Executor.markedSerial, hfind]
  · refine .nothing ?_ ?_
    · rw [← h]
      exact if_neg heffect
    rw [← h]
    -- an initial dispatch that had no effect ends in the `catch` block
    cases mode with
    | recovery =>
      refine deliver_stage (P := fun stage => stage ≠ .dispatched .initial) (fun changed => ?_)
        (by simp) (by simp)
      split <;> simp
    | initial =>
      cases delivery with
      | refused => simp [deliver]
      | lost =>
        cases houtcome : x.markOutcome D .initial timestamp t <;> simp [deliver]
      | answered =>
        cases houtcome : x.markOutcome D .initial timestamp t with
        | none => simp [deliver]
        | some => exact absurd ⟨rfl, by simp, by rw [houtcome]; rfl⟩ heffect

theorem Executor.settleStep_logs {settlement : Settlement} {choice : Choice}
    (h : x.settleStep D timestamp t settlement choice = some result) :
    x.Logs timestamp t result := by
  have hafter : ∀ settled atomically, x.afterSettlement settled atomically ≠ .dispatched .initial := by
    intro settled atomically
    unfold Executor.afterSettlement
    repeat' split
    all_goals simp
  unfold Executor.settleStep at h
  split at h
  · split at h
    · cases h
      exact .nothing rfl (by simp [Executor.goes])
    · cases h
      exact .nothing rfl (deliver_stage (P := fun stage => stage ≠ .dispatched .initial) (by simp)
        (by simp) (by simp))
  · split at h
    · cases h
      exact .nothing rfl (deliver_stage (P := fun stage => stage ≠ .dispatched .initial)
        (fun _ => hafter _ _) (hafter _ _) (by simp))
    · cases h
  · cases h
    exact .nothing rfl (hafter true true)
  · cases h
    exact .nothing rfl (by simp [Executor.goes])
  · cases h
    exact .nothing rfl (deliver_stage (P := fun stage => stage ≠ .dispatched .initial)
      (fun _ => hafter _ _) (by simp) (by simp))
  · cases h

theorem Executor.settlementStage_ne (c : Caught) : x.settlementStage c ≠ .dispatched .initial := by
  unfold Executor.settlementStage
  split <;> simp

/-- **What a step records.**  Only the dispatch and the entry into the provider reach the log. -/
theorem Executor.step_logs {choice : Choice}
    (h : x.step D timestamp t x.stage choice = some result) : x.Logs timestamp t result := by
  have hgoes : ∀ {y : Executor} {delivery : Delivery} {outcome : Option (Bool × Tables)}
      {next : Bool → Stage} {aborted failed : Stage},
      (∀ changed, next changed ≠ .dispatched .initial) → aborted ≠ .dispatched .initial →
      failed ≠ .dispatched .initial →
      x.Logs timestamp t (y.goes (deliver delivery t outcome next aborted failed)) := by
    intro y delivery outcome next aborted failed hn ha hf
    exact .nothing rfl (deliver_stage (P := fun stage => stage ≠ .dispatched .initial) hn ha hf)
  have hstays : ∀ {y : Executor} {stage : Stage}, stage ≠ .dispatched .initial →
      x.Logs timestamp t (y.goes (t, stage)) := fun hs => .nothing rfl hs
  generalize hstage : x.stage = stage at h
  unfold Executor.step at h
  split at h
  · split at h
    · cases h
      exact hstays (by simp)
    · cases h
      exact hgoes (fun changed => by split <;> simp) (by simp) (by simp)
  · cases h
    exact hgoes (fun changed => by split <;> simp) (by simp) (by simp)
  · cases h
    exact hstays (by split <;> simp)
  · split at h
    · cases h
      exact hstays (by simp)
    · cases h
  · obtain ⟨s, -, rfl⟩ := Option.map_eq_some_iff.mp h
    exact hgoes (by simp) (by simp) (by simp)
  · cases h
    exact hstays (by simp)
  · cases h
    exact hstays (by simp)
  · cases h
    exact hgoes (fun changed => by split <;> simp) (by simp) (by simp)
  · cases h
    exact hgoes (fun changed => by split <;> simp) (by simp) (by simp)
  · cases h
    exact hstays (by simp)
  · exact Executor.mark_logs h
  · cases h
    next mode =>
    cases mode with
    | initial => exact .enter hstage rfl (by simp)
    | recovery => exact .nothing rfl (by simp)
  · cases h
    exact hstays (by simp)
  · next receiptJson _ =>
    cases h
    refine hgoes (by simp) ?_ (by simp)
    by_cases hstored : executedReceipt x.ref t = some receiptJson
    · simp [Executor.receiptAnswer, hstored]
    · simp [Executor.receiptAnswer, hstored]
  iterate 6
    · cases h
      exact hstays (by simp)
  · cases h
    refine hstays ?_
    split
    · simp
    split
    · simp
    · exact Executor.settlementStage_ne _
  · cases h
    refine hgoes (fun changed => ?_) (by simp) (by simp)
    split
    · simp
    · exact Executor.settlementStage_ne _
  · exact Executor.settleStep_logs h
  · cases h
    refine hgoes (fun changed => ?_) (by simp) (by simp)
    unfold Executor.afterRelease
    split <;> simp
  · cases h
    exact hgoes (by simp) (by simp) (by simp)
  · cases h

end Events

/-! ### The dispatches -/

/-- An executor whose initial dispatch took effect, and which has not entered the provider. -/
def Executor.waits (x : Executor) : Prop := x.stage = .dispatched .initial

/-- The invariant of the dispatches. -/
structure Host.Dispatches (s : Host) : Prop where
  table : SagaTable s.tables
  bound : ∀ n, .dispatched n ∈ s.log → n < s.tables.sagaSerial
  started : ∀ n, .dispatched n ∈ s.log → ∀ r ∈ s.tables.sagas, r.serial = n →
    r.executionStartedAt.isSome = true
  once : ∀ n, s.log.count (.dispatched n) ≤ 1
  enteredOnce : ∀ n, s.log.count (.entered n) ≤ 1
  crossed : ∀ n, .entered n ∈ s.log → .dispatched n ∈ s.log
  waiting : ∀ w x, s.executors w = some x → x.waits →
    ∃ n, x.serial = some n ∧ .dispatched n ∈ s.log ∧ .entered n ∉ s.log
  alone : ∀ w w' x x', s.executors w = some x → s.executors w' = some x' → x.waits → x'.waits →
    x.serial = x'.serial → w = w'

namespace Host

variable {D : Digests} {timestamp : Instant} {s u : Host} {act : Act}

/-- What an action does to the log and to the executors: nothing, or the step of one. -/
theorem next_log (h : s.next D timestamp act = some u) :
    (u.log = s.log ∧ ∀ w x, u.executors w = some x → x.waits → s.executors w = some x) ∨
      ∃ w x choice result, s.executors w = some x ∧
        x.step D timestamp s.tables x.stage choice = some result ∧ u = s.onExecutor w result := by
  have honTables : ∀ tables, s.onTables tables = some u →
      u.log = s.log ∧ ∀ w x, u.executors w = some x → x.waits → s.executors w = some x := by
    intro tables h
    obtain ⟨t, -, rfl⟩ := Option.map_eq_some_iff.mp h
    exact ⟨rfl, fun _ _ hx _ => hx⟩
  cases act with
  | accept => exact Or.inl (honTables _ h)
  | rotate => exact Or.inl (honTables _ h)
  | abandon => exact Or.inl (honTables _ h)
  | commitImmediate => exact Or.inl (honTables _ h)
  | commitDeferred => exact Or.inl (honTables _ h)
  | start w =>
    simp only [Host.next] at h
    split at h
    · cases h
      refine Or.inl ⟨rfl, fun w' x hx hwaits => ?_⟩
      rcases eq_or_ne w' w with rfl | hne
      · simp only [Function.update_self, Option.some.injEq] at hx
        rw [← hx] at hwaits
        cases hwaits
      · simpa [hne] using hx
    · cases h
  | step w choice =>
    obtain ⟨x, hx, h⟩ := Option.bind_eq_some_iff.mp h
    obtain ⟨result, hstep, rfl⟩ := Option.map_eq_some_iff.mp h
    exact Or.inr ⟨w, x, choice, result, hx, hstep, rfl⟩
  | crash w =>
    cases h
    refine Or.inl ⟨rfl, fun w' x hx hwaits => ?_⟩
    rcases eq_or_ne w' w with rfl | hne
    · simp at hx
    · simpa [hne] using hx
  | others =>
    cases h
    exact Or.inl ⟨rfl, fun _ _ hx _ => hx⟩

theorem Dispatches.started_write (hs : s.Dispatches) {leaves : Saga → Prop} {t' : Tables}
    (hw : SagaWrite leaves timestamp s.tables t') {n : ℕ} (hn : .dispatched n ∈ s.log) :
    n < t'.sagaSerial ∧ ∀ r ∈ t'.sagas, r.serial = n → r.executionStartedAt.isSome = true := by
  refine ⟨lt_of_lt_of_le (hs.bound n hn) hw.serial, fun r' hr' hserial => ?_⟩
  rcases hw.origin hr' with ⟨r, hr, hstep⟩ | ⟨⟨_, rfl⟩, -⟩
  · have hstarted := hs.started n hn r hr (hstep.serial.symm.trans hserial)
    obtain ⟨i, hi⟩ := Option.isSome_iff_exists.mp hstarted
    rw [hstep.started i hi]
    rfl
  · have hlt := hs.bound n hn
    rw [← hserial] at hlt
    exact absurd hlt (lt_irrefl _)

theorem dispatches_init : ({} : Host).Dispatches where
  table := SagaTable.empty
  bound := by simp
  started := by simp
  once := by simp
  enteredOnce := by simp
  crossed := by simp
  waiting := by simp
  alone := by simp

theorem Dispatches.silent (hs : s.Dispatches) {leaves : Saga → Prop}
    (hw : SagaWrite leaves timestamp s.tables u.tables) (hlog : u.log = s.log)
    (hwaits : ∀ w x, u.executors w = some x → x.waits → s.executors w = some x) :
    u.Dispatches where
  table := hs.table.write hw
  bound := fun n hn => (hs.started_write hw (hlog ▸ hn)).1
  started := fun n hn => (hs.started_write hw (hlog ▸ hn)).2
  once := by rw [hlog]; exact hs.once
  enteredOnce := by rw [hlog]; exact hs.enteredOnce
  crossed := by rw [hlog]; exact hs.crossed
  waiting := by
    rw [hlog]
    exact fun w x hx hw => hs.waiting w x (hwaits w x hx hw) hw
  alone := fun w w' x x' hx hx' hw hw' =>
    hs.alone w w' x x' (hwaits w x hx hw) (hwaits w' x' hx' hw') hw hw'

section Recorded

variable {w : ℕ} {x : Executor} {result : Executor.Result} {leaves : Saga → Prop}

theorem waits_of_onExecutor (hresult : ¬result.executor.waits) {w' : ℕ} {x' : Executor}
    (hx' : (s.onExecutor w result).executors w' = some x') (hwaits : x'.waits) :
    w' ≠ w ∧ s.executors w' = some x' := by
  unfold onExecutor at hx'
  rcases eq_or_ne w' w with rfl | hne
  · simp only [Function.update_self, Option.some.injEq] at hx'
    rw [hx'] at hresult
    exact absurd hwaits hresult
  · exact ⟨hne, by simpa [hne] using hx'⟩

theorem Dispatches.dispatch (hs : s.Dispatches)
    (hw : SagaWrite leaves timestamp s.tables result.tables) {p : Saga → Bool} {r : Saga}
    (hr : r ∈ s.tables.sagas) (hp : p r = true) (hunstarted : r.executionStartedAt = none)
    (hsagas : result.tables.sagas = Table.update p (Saga.dispatched timestamp) s.tables.sagas)
    (hevents : result.events = [.dispatched r.serial])
    (hserial : result.executor.serial = some r.serial) : (s.onExecutor w result).Dispatches := by
  -- the fence is empty, so this serial was never dispatched
  have hnew : Event.dispatched r.serial ∉ s.log := by
    intro hmem
    have := hs.started r.serial hmem r hr rfl
    rw [hunstarted] at this
    cases this
  have hlog : (s.onExecutor w result).log = s.log ++ [.dispatched r.serial] := by
    rw [← hevents]
    rfl
  have hold : ∀ w' x', (s.onExecutor w result).executors w' = some x' →
      (w' = w ∧ x'.serial = some r.serial) ∨ s.executors w' = some x' := by
    intro w' x' hx'
    unfold onExecutor at hx'
    rcases eq_or_ne w' w with rfl | hne
    · simp only [Function.update_self, Option.some.injEq] at hx'
      exact Or.inl ⟨rfl, hx' ▸ hserial⟩
    · exact Or.inr (by simpa [hne] using hx')
  have hother : ∀ w' x', s.executors w' = some x' → x'.waits → x'.serial ≠ some r.serial := by
    intro w' x' hx' hwaits heq
    obtain ⟨n, hn, hmem, -⟩ := hs.waiting w' x' hx' hwaits
    rw [hn] at heq
    cases heq
    exact hnew hmem
  refine ⟨hs.table.write hw, ?_, ?_, ?_, ?_, ?_, ?_, ?_⟩
  · intro n hn
    rw [hlog, List.mem_append, List.mem_singleton] at hn
    rcases hn with hn | hn
    · exact (hs.started_write hw hn).1
    · cases hn
      exact lt_of_lt_of_le (hs.table.bound r hr) hw.serial
  · intro n hn
    rw [hlog, List.mem_append, List.mem_singleton] at hn
    rcases hn with hn | hn
    · exact (hs.started_write hw hn).2
    · cases hn
      intro r' hr' heq
      change r' ∈ result.tables.sagas at hr'
      rw [hsagas] at hr'
      rcases Table.mem_update.mp hr' with ⟨hmem, hnot⟩ | ⟨_, -, -, rfl⟩
      · rw [hs.table.eq_of_serial hmem hr heq, hp] at hnot
        cases hnot
      · rfl
  · intro n
    have := hs.once n
    rw [hlog, List.count_append, List.count_singleton]
    split
    · next heq =>
      cases eq_of_beq heq
      rw [List.count_eq_zero_of_not_mem hnew]
    · omega
  · intro n
    have := hs.enteredOnce n
    rw [hlog, List.count_append, List.count_singleton]
    simpa using this
  · intro n hn
    rw [hlog, List.mem_append] at hn ⊢
    rcases hn with hn | hn
    · exact Or.inl (hs.crossed n hn)
    · simp at hn
  · intro w' x' hx' hwaits
    rw [hlog]
    rcases hold w' x' hx' with ⟨-, hn⟩ | hx'
    · refine ⟨r.serial, hn, by simp, ?_⟩
      simp only [List.mem_append, List.mem_singleton, reduceCtorEq, or_false]
      exact fun hmem => hnew (hs.crossed _ hmem)
    · obtain ⟨n, hn, hmem, hnot⟩ := hs.waiting w' x' hx' hwaits
      exact ⟨n, hn, List.mem_append_left _ hmem, by simpa using hnot⟩
  · intro w₁ w₂ x₁ x₂ h₁ h₂ hwaits₁ hwaits₂ heq
    rcases hold w₁ x₁ h₁ with ⟨hw₁, hn₁⟩ | hx₁ <;> rcases hold w₂ x₂ h₂ with ⟨hw₂, hn₂⟩ | hx₂
    · rw [hw₁, hw₂]
    · exact absurd (heq.symm.trans hn₁) (hother w₂ x₂ hx₂ hwaits₂)
    · exact absurd (heq.trans hn₂) (hother w₁ x₁ hx₁ hwaits₁)
    · exact hs.alone w₁ w₂ x₁ x₂ hx₁ hx₂ hwaits₁ hwaits₂ heq

theorem Dispatches.enter (hs : s.Dispatches)
    (hw : SagaWrite leaves timestamp s.tables result.tables) (hx : s.executors w = some x)
    (hwaits : x.waits) (hevents : result.events = (x.serial.map Event.entered).toList)
    (hleft : ¬result.executor.waits) : (s.onExecutor w result).Dispatches := by
  obtain ⟨n, hn, hdispatched, hentered⟩ := hs.waiting w x hx hwaits
  have hlog : (s.onExecutor w result).log = s.log ++ [.entered n] := by
    rw [hn] at hevents
    show s.log ++ result.events = _
    rw [hevents]
    rfl
  have hmem : ∀ m, Event.dispatched m ∈ (s.onExecutor w result).log → .dispatched m ∈ s.log := by
    intro m hm
    rw [hlog] at hm
    simpa using hm
  refine ⟨hs.table.write hw, ?_, ?_, ?_, ?_, ?_, ?_, ?_⟩
  · exact fun m hm => (hs.started_write hw (hmem m hm)).1
  · exact fun m hm => (hs.started_write hw (hmem m hm)).2
  · intro m
    have := hs.once m
    rw [hlog, List.count_append, List.count_singleton]
    simpa using this
  · intro m
    have := hs.enteredOnce m
    rw [hlog, List.count_append, List.count_singleton]
    split
    · next heq =>
      cases eq_of_beq heq
      rw [List.count_eq_zero_of_not_mem hentered]
    · omega
  · intro m hm
    rw [hlog, List.mem_append, List.mem_singleton] at hm ⊢
    rcases hm with hm | hm
    · exact Or.inl (hs.crossed m hm)
    · cases hm
      exact Or.inl hdispatched
  · intro w' x' hx' hwaits'
    obtain ⟨hne, hx'⟩ := waits_of_onExecutor hleft hx' hwaits'
    obtain ⟨m, hm, hmem, hnot⟩ := hs.waiting w' x' hx' hwaits'
    refine ⟨m, hm, ?_, ?_⟩
    · rw [hlog]
      exact List.mem_append_left _ hmem
    · rw [hlog, List.mem_append, List.mem_singleton]
      rintro (hold | hnew)
      · exact hnot hold
      · cases hnew
        exact hne (hs.alone w' w x' x hx' hx hwaits' hwaits (hm.trans hn.symm))
  · intro w₁ w₂ x₁ x₂ h₁ h₂ hwaits₁ hwaits₂ heq
    obtain ⟨-, h₁⟩ := waits_of_onExecutor hleft h₁ hwaits₁
    obtain ⟨-, h₂⟩ := waits_of_onExecutor hleft h₂ hwaits₂
    exact hs.alone w₁ w₂ x₁ x₂ h₁ h₂ hwaits₁ hwaits₂ heq

end Recorded

theorem Dispatches.next (hs : s.Dispatches) (h : s.next D timestamp act = some u) :
    u.Dispatches := by
  have hw := next_writes h
  rcases next_log h with ⟨hlog, hwaits⟩ | ⟨w, x, _, result, hx, hstep, rfl⟩
  · exact hs.silent hw hlog hwaits
  · cases Executor.step_logs hstep with
    | nothing events stage =>
      refine hs.silent hw ?_ fun w' x' hx' hwaits => (waits_of_onExecutor stage hx' hwaits).2
      show s.log ++ result.events = s.log
      rw [events, List.append_nil]
    | dispatch p r mem marked unstarted sagas events serial =>
      exact hs.dispatch hw mem marked unstarted sagas events serial
    | enter stage events left => exact hs.enter hw hx stage events left

theorem dispatches_of_reachable (h : (host D).Reachable s) : s.Dispatches :=
  ReachVia.invariant dispatches_init (fun _ _ _ hs _ hn => hs.next hn) h

/-- **Along a run**, a saga is the one it was. -/
theorem keeps_of_path (hs : (host D).Reachable s) (h : (host D).Path s u) :
    ∀ r ∈ s.tables.sagas, ∀ r' ∈ u.tables.sagas, r'.serial = r.serial → r.Keeps r' := by
  -- the invariant of the path: a later row is one of these, or has a later serial
  have key : s.tables.sagaSerial ≤ u.tables.sagaSerial ∧ ∀ r' ∈ u.tables.sagas,
      s.tables.sagaSerial ≤ r'.serial ∨ ∃ r ∈ s.tables.sagas, r.Keeps r' := by
    refine Path.invariant (P := fun u : Host => s.tables.sagaSerial ≤ u.tables.sagaSerial ∧
      ∀ r' ∈ u.tables.sagas, s.tables.sagaSerial ≤ r'.serial ∨
        ∃ r ∈ s.tables.sagas, r.Keeps r') ?_ hs h
      ⟨le_rfl, fun r' hr' => Or.inr ⟨r', hr', Saga.Keeps.refl r'⟩⟩
    rintro v a _ - ⟨hle, hrows⟩ hn
    have hw := next_writes hn
    refine ⟨hle.trans hw.serial, fun r' hr' => ?_⟩
    rcases hw.origin hr' with ⟨r, hr, hstep⟩ | ⟨⟨_, rfl⟩, -⟩
    · rcases hrows r hr with hlater | ⟨r₀, hr₀, hkeeps⟩
      · exact Or.inl (hstep.serial ▸ hlater)
      · exact Or.inr ⟨r₀, hr₀, hkeeps.trans hstep.toKeeps⟩
    · exact Or.inl hle
  have htable := (dispatches_of_reachable hs).table
  intro r hr r' hr' hserial
  rcases key.2 r' hr' with _ | ⟨_, hr₀, hkeeps⟩
  · have hlt := htable.bound r hr
    omega
  · rw [htable.eq_of_serial hr hr₀ (hserial.symm.trans hkeeps.serial)]
    exact hkeeps

end Host

/-! ### The theorem -/

theorem Mutation.receiptJson_isSome {m : Mutation} (h : m.isUnchanged = false) :
    m.receiptJson.isSome = true := by
  obtain ⟨_, _, _, _, _, _, _, _, change⟩ := m
  cases change with
  | write => rfl
  | unchanged => cases h
  | delete => rfl

/-- **The custody of a provider mutation.**  In every state that any interleaving reaches:

* each saga has one initial dispatch at most, and the provider is entered in initial mode at most
  once, after it;
* of the sagas of an operation at most one lease token is accepted, and an executed saga has no
  lease;
* whatever follows, a saga that is still stored has kept its dispatch, its selections and its
  receipt, and is not leased again once it has one;
* the next action leases a saga to another only where the lease is free and there is no receipt,
  removes one only for the commit of its receipt, for a failure that its present holder settles
  or as an idle plan, and commits a mutation only with the receipt that is stored. -/
theorem saga_custody (D : Digests) {s : Host} (hs : (host D).Reachable s) :
    (∀ n, s.log.count (.dispatched n) ≤ 1 ∧ s.log.count (.entered n) ≤ 1 ∧
      (.entered n ∈ s.log → .dispatched n ∈ s.log)) ∧
    (∀ r ∈ s.tables.sagas, ∀ r' ∈ s.tables.sagas, r.operationId = r'.operationId →
      ∀ token token' timestamp timestamp', r.accepts token timestamp = true →
        r'.accepts token' timestamp' = true → token = token') ∧
    (∀ r ∈ s.tables.sagas, r.receiptJson.isSome = true → r.lease = none) ∧
    (∀ u, (host D).Path s u → ∀ r ∈ s.tables.sagas, ∀ r' ∈ u.tables.sagas,
      r'.serial = r.serial → r.Keeps r') ∧
    ∀ timestamp act u, (host D).next s (timestamp, act) = some u →
      (∀ r ∈ s.tables.sagas, ∀ r' ∈ u.tables.sagas, r'.serial = r.serial →
        r'.lease = r.lease ∨ r'.lease = none ∨
          (r.receiptJson = none ∧ leaseIsFree r.lease timestamp = true)) ∧
      (∀ r ∈ s.tables.sagas, (∀ r' ∈ u.tables.sagas, r'.serial ≠ r.serial) →
        s.Removes timestamp act r) ∧
      (∀ m operationId, act.commits = some (m, operationId) → m.isUnchanged = false →
        ∃ r ∈ s.tables.sagas, r.IsCommitted m operationId) := by
  have hinv := Host.dispatches_of_reachable hs
  refine ⟨fun n => ⟨hinv.once n, hinv.enteredOnce n, hinv.crossed n⟩, ?_, hinv.table.executed,
    fun u hu => Host.keeps_of_path hs hu, fun timestamp act u hn => ?_⟩
  · intro r hr r' hr' hid token token' timestamp timestamp' haccepts haccepts'
    rw [← Table.eq_of_key hinv.table.ids hr hr' hid] at haccepts'
    exact Saga.accepts_unique haccepts haccepts'
  · have hw := Host.next_writes hn
    refine ⟨fun r hr r' hr' hserial => (hinv.table.stepped hw hr hr' hserial).lease, ?_, ?_⟩
    · intro r hr hgone
      rcases hw.fate hr with ⟨r', hr', hstep⟩ | hleaves
      · exact absurd hstep.serial (hgone r' hr')
      · exact hleaves
    · intro m operationId hact hchanged
      exact Host.next_commits hn hact (Mutation.receiptJson_isSome hchanged)

/-! ### Runs -/

section Runs

/-- A digest that is its own text. -/
def plainDigests : Digests where
  target tenantId targetUid := tenantId ++ ":" ++ targetUid
  edge tenantId holderUid operationId f :=
    tenantId ++ ":" ++ holderUid ++ ":" ++ operationId ++ ":" ++ f.uid

/-- A bucket and its deletion, for the runs below. -/
def bucketAddress : Address :=
  { tenantId := "t", space := "s", apiVersion := "v1", kind := "Bucket", name := "b" }

def bucketForm : FormRef :=
  { apiVersion := "v1", kind := "Bucket", definitionVersion := "1", schemaDigest := "d" }

def bucket : Resource :=
  { address := bucketAddress, uid := "uid_1", generation := "1", revision := "1",
    document := { apiVersion := "v1", kind := "Bucket", space := "s", name := "b", uid := "uid_1",
                  generation := "1", revision := "1", formRef := bucketForm, content := "" },
    relations := [], packageDigest := none, implementationDigest := none }

def deletionRecord : SagaRecord :=
  { operationId := "op_1", operationKind := .delete, replayKey := "key", fingerprint := "f",
    resourceUid := "uid_1", target := bucketAddress,
    accepted := some { uid := "uid_1", generation := "1", revision := "1" },
    authorityHeadDigest := none }

def deletionRef : SagaRef := { tenantId := "t", operationId := "op_1", resourceUid := "uid_1" }

def deletionCommand : Command :=
  { ref := deletionRef, fingerprint := "f", authorityHeadDigest := none, claimOwner := none,
    dependencies := none, importReplayKey := none, concludesFailure := false }

def deletion : Mutation :=
  { address := bucketAddress, resourceUid := "uid_1", expectedRevision := some "1",
    packageDigest := none, implementationDigest := none, replayKey := "key", fingerprint := "f",
    status := 204, change := .delete "receipt" .recovery }

/-- The other tables while the deletion is under way. -/
def deletionTables : Tables :=
  { resources := [bucket]
    attestations := [{ address := bucketAddress, resourceUid := "uid_1", formRef := bucketForm,
                       state := .pending }]
    effects := [{ tenantId := "t", resourceUid := "uid_1", effectId := "op_1", effectKind := .delete,
                  phase := .dispatched, operationMode := .initial }] }

/-- A first executor dispatches, enters the provider and stops; a second one recovers, records
the receipt, and the deletion is committed. -/
def recoveryRun : List (Instant × Act) :=
  [(0, .accept deletionRecord false),
   (1, .start 0 deletionCommand { token := "lease_1", leaseUntil := 100 }),
   (2, .step 0 (.run .answered)), (3, .step 0 .proceed), (4, .step 0 .proceed),
   (5, .step 0 (.run .answered)), (6, .step 0 .proceed), (7, .crash 0),
   (200, .start 1 deletionCommand { token := "lease_2", leaseUntil := 300 }),
   (201, .step 1 (.run .answered)), (202, .step 1 (.run .answered)), (203, .step 1 .proceed),
   (204, .step 1 .proceed), (205, .step 1 (.run .answered)), (206, .step 1 .proceed),
   (207, .step 1 (.answer "receipt")), (208, .step 1 (.run .answered)),
   (209, .others deletionTables), (210, .commitImmediate deletion "op_1" .delete true)]

/-- The run above enters the provider in initial mode once, and ends with the Resource gone. -/
theorem saga_custody_recoveryRun :
    ∃ s, (host plainDigests).Reachable s ∧ s.log = [.dispatched 0, .entered 0] ∧
      s.tables.sagas = [] ∧ s.tables.resources = [] ∧
      ∀ n, s.log.count (.dispatched n) ≤ 1 ∧ s.log.count (.entered n) ≤ 1 := by
  obtain ⟨s, hs, hp⟩ := exists_reachable_of_run (M := host plainDigests) recoveryRun
    (fun s => decide (s.log = [.dispatched 0, .entered 0] ∧ s.tables.sagas = [] ∧
      s.tables.resources = [])) (by decide +kernel)
  obtain ⟨hlog, hsagas, hresources⟩ := of_decide_eq_true hp
  have hcustody := saga_custody plainDigests hs
  exact ⟨s, hs, hlog, hsagas, hresources,
    fun n => ⟨(hcustody.1 n).1, (hcustody.1 n).2.1⟩⟩

/-- An accepted plan, before its abandonment. -/
def plannedHost : Host :=
  { tables := { sagas := [deletionRecord.row 0], sagaSerial := 1 } }

/-- An abandonment removes a saga although nothing is committed and no failure is settled. -/
theorem abandonment_removes_plan :
    ¬∀ (D : Digests) (s u : Host) (timestamp : Instant) (act : Act), (host D).Reachable s →
      (host D).next s (timestamp, act) = some u →
      ∀ r ∈ s.tables.sagas, (∀ r' ∈ u.tables.sagas, r'.serial ≠ r.serial) →
        (∃ m operationId, act.commits = some (m, operationId) ∧ r.IsCommitted m operationId) ∨
          ∃ w choice x, act = .step w choice ∧ s.executors w = some x ∧ x.Settles timestamp r := by
  intro h
  have hreach : (host plainDigests).Reachable plannedHost :=
    Reachable.next (PathVia.refl _) (a := (0, .accept deletionRecord false)) rfl
  have hnext : (host plainDigests).next plannedHost (1, .abandon deletionRef "key") =
      some { plannedHost with tables := { sagaSerial := 1 } } := rfl
  have hgone := h plainDigests plannedHost _ 1 (.abandon deletionRef "key") hreach hnext
    (deletionRecord.row 0) List.mem_cons_self (by simp)
  rcases hgone with ⟨m, _, hact, -⟩ | ⟨w, _, x, hact, -⟩
  · cases hact
  · cases hact

end Runs

end Takoserver.V1
