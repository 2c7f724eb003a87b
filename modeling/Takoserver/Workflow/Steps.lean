import Takoserver.Workflow.Hosts

/-!
# The steps of a run

What each step of a run changes, and that it keeps what holds around the run: a statement under
the claim finds the row that the run holds, a statement without it finds none.
-/

namespace Takoserver.Workflow

open Db (Assignment Outcome)

variable {minted : List String} {db db' : Db} {m : Move} {clock : Instant}

/-! ### What a run does -/

variable {identity : RunIdentity} {timestamp : Instant} {live : Bool} {run : Run} {kind : StepKind}
  {result : Run.Result} {call : Call}

theorem owns_of_runExists (h : db.runExists identity timestamp live = true) : Owns db identity := by
  obtain ⟨r, hr, hrun⟩ := List.any_eq_true.mp h
  obtain ⟨hclaimed, -, hrunning, -⟩ := runnable_iff.mp hrun
  refine ⟨r, hr, hclaimed, ?_⟩
  rw [hrunning]
  rfl

theorem Owns.row (h : Owns db identity) :
    ∃ r ∈ db.instances, r.toIncarnation = identity.toIncarnation := by
  obtain ⟨r, hr, hclaimed, -⟩ := h
  exact ⟨r, hr, (claimedBy_iff.mp hclaimed).1⟩

variable {key : String} {row : StepRow} {config : StepConfig} {next : Then}

theorem Held.eq_of_isStep (ht : Tidy minted db) {i : Incarnation} {p : StepRow}
    (hheld : Held db i key row) (hi : ∃ r ∈ db.instances, r.toIncarnation = i) (hp : p ∈ db.steps)
    (hstep : p.isStep i key = true) : p = row := by
  obtain ⟨r, hr, hinc⟩ := hi
  have hread := (ht.readStep_iff hr hinc).mpr ⟨hp, (isStep_iff ht hp hr hinc).mp hstep⟩
  rw [hheld.1] at hread
  exact (Option.some.inj hread).symm

theorem Tidy.find_meets (ht : Tidy minted db) {i : Incarnation} {w : EventWhere} {e : EventRow}
    (he : e ∈ db.events) (hmeets : e.meets i w = true) :
    db.events.find? (EventRow.meets i w) = some e := by
  cases hfind : db.events.find? (EventRow.meets i w) with
  | none => exact absurd hmeets (List.find?_eq_none.mp hfind e he)
  | some e' =>
    have hmeets' := List.find?_some hfind
    have hsame : e'.eventId = e.eventId :=
      (of_decide_eq_true hmeets').1.trans (of_decide_eq_true hmeets).1.symm
    rw [Table.eq_of_key ht.eventIds (List.mem_of_find?_eq_some hfind) he hsame]

theorem look_eq :
    ∃ call answer, run.look db kind key config = { db, run := { run with call, answer } } := by
  unfold Run.look
  split
  · split
    · exact ⟨_, _, rfl⟩
    · split
      · exact ⟨_, _, rfl⟩
      · split <;> exact ⟨_, _, rfl⟩
  · split <;> exact ⟨_, _, rfl⟩

theorem readBack_eq :
    ∃ call answer, run.readBack db key next = { db, run := { run with call, answer } } := by
  unfold Run.readBack
  split
  · exact ⟨_, _, rfl⟩
  · cases next with
    | park =>
      dsimp only
      split <;> exact ⟨_, _, rfl⟩
    | _ => exact ⟨_, _, rfl⟩

theorem look_db :
    (run.look db kind key config).db = db := by
  obtain ⟨_, _, heq⟩ := @look_eq db run kind key config
  rw [heq]

theorem readBack_db :
    (run.readBack db key next).db = db := by
  obtain ⟨_, _, heq⟩ := @readBack_eq db run key next
  rw [heq]

/-- What a step of a run does. -/
inductive Run.Stepped (run : Run) (db : Db) (clock : Instant) : Run.Step → Run.Result → Prop
  | start (timestamp : Instant) (live : Bool) (run' : Run)
      (hrun : run' = { run with opened := true } ∨
        run' = { run with stopped := true, ended := true }) :
      Stepped run db clock (.start timestamp live) { db, run := run' }
  | stop : Stepped run db clock .stop { db, run := { run with stopped := true, ended := true } }
  | lapse (timestamp : Instant) (hclock : timestamp ≤ clock)
      (hlapse : run.lapses db timestamp = true) :
      Stepped run db clock (.lapse timestamp) { db, run := { run with ended := true } }
  | release (hended : run.ended = true) :
      Stepped run db clock .release { db := db.clearOwner run.identity, run }
  | heartbeat (timestamp : Instant) (live : Bool) (hsampled : run.sampled ≤ timestamp) :
      Stepped run db clock (.heartbeat timestamp live)
        { db := db.heartbeat run.identity
            (min run.identity.deadlineAt (timestamp + run.leaseMs)) timestamp live
          run :=
            { run with
              sampled := timestamp
              renewing := if db.runExists run.identity timestamp live then
                some (min run.identity.deadlineAt (timestamp + run.leaseMs)) else none } }
  | extend (next : Instant) (hnext : run.renewing = some next) :
      Stepped run db clock .extend
        { db
          run :=
            { run with
              contextUntil := if run.alive clock then next else run.contextUntil
              renewing := none } }
  | latch (outcome : Outcome) :
      Stepped run db clock (.latch outcome) { db, run := { run with outcome := some outcome } }
  | terminalize (outcome : Outcome) (timestamp : Instant) (live : Bool)
      (hended : run.ended = true) :
      Stepped run db clock (.terminalize timestamp live)
        { db := db.terminalize run.identity outcome timestamp live, run }
  | begin (kind : StepKind) (key : String) (timestamp : Instant) (live : Bool) (call : Call)
      (hidle : run.call = .idle) (hcall : call = .named kind key ∨ call = .over) :
      Stepped run db clock (.begin kind key timestamp live) (run.goes db call)
  | look (kind : StepKind) (key : String) (config : StepConfig)
      (hcall : run.call = .named kind key) :
      Stepped run db clock (.look config) (run.look db kind key config)
  | find (key : String) (config : StepConfig) (hcall : run.call = .prepared key config) :
      Stepped run db clock .find (run.goes db (run.find db key config))
  | insert (key : String) (config : StepConfig) (timestamp : Instant) (live : Bool)
      (hcall : run.call = .inserting key config) :
      Stepped run db clock (.insert timestamp live)
        (run.goes (db.insertStep run.identity key config timestamp live).1
          (if (db.insertStep run.identity key config timestamp live).2 then .wrote key .hold
            else .over))
  | readBack (key : String) (next : Then) (hcall : run.call = .wrote key next) :
      Stepped run db clock .readBack (run.readBack db key next)
  | decide (key : String) (row : StepRow) (timestamp : Instant) (hcall : run.call = .holds key row) :
      Stepped run db clock (.decide timestamp) (run.goes db (run.decides db key row timestamp))
  | effect (key : String) (row : StepRow) (hcall : run.call = .due key row)
      (halive : run.alive clock = true) :
      Stepped run db clock .effect (run.goes db (.running key row))
  | settle (key : String) (row : StepRow) (value : Option (Option String)) (timestamp : Instant)
      (hcall : run.call = .running key row) :
      Stepped run db clock (.settle value timestamp)
        (run.goes db (run.attempted key row value timestamp))
  | expire (key : String) (row : StepRow) (timeoutAt timestamp : Instant)
      (hcall : run.call = .unmet key row timeoutAt) :
      Stepped run db clock (.expire timestamp)
        (run.goes db
          (if timeoutAt ≤ timestamp then .writing key row (.errored .waitTimeout) (.throw .waitTimeout)
            else .parking key .waiting (min timeoutAt run.identity.deadlineAt)))
  | take (key : String) (row : StepRow) (w : EventWhere) (timestamp : Instant) (live : Bool)
      (hcall : run.call = .taking key row w) :
      Stepped run db clock (.take timestamp live)
        { run.goes (db.consume run.identity key row.revision w timestamp live).1
            (if (db.consume run.identity key row.revision w timestamp live).2 then .wrote key .memo
              else .over) with
          consumed :=
            if (db.consume run.identity key row.revision w timestamp live).2 then
              (db.events.find? (EventRow.meets run.identity.toIncarnation w)).map fun e => (e, key)
            else none }
  | write (key : String) (row : StepRow) (assignment : Assignment) (next : Then)
      (timestamp : Instant) (live : Bool) (hcall : run.call = .writing key row assignment next) :
      Stepped run db clock (.write timestamp live)
        { run.goes (db.changeStep run.identity key row.revision assignment timestamp live).1
            (if (db.changeStep run.identity key row.revision assignment timestamp live).2 then
              .wrote key next else .over) with
          journaled :=
            if (db.changeStep run.identity key row.revision assignment timestamp live).2 &&
              journals row assignment then some key else none }
  | park (key : String) (status : Status) (wakeAt timestamp : Instant) (live : Bool)
      (hcall : run.call = .parking key status wakeAt) (hclock : timestamp ≤ clock)
      (hended : run.ended = true) :
      Stepped run db clock (.park timestamp live)
        (run.goes (db.park run.identity key status wakeAt timestamp live) .over)

theorem Run.stepped {step : Run.Step} (hn : run.step db clock step = some result) :
    run.Stepped db clock step result := by
  cases step <;> simp only [Run.step] at hn
  case start timestamp live =>
    split at hn <;> cases hn
    split
    · exact .start timestamp live _ (Or.inl rfl)
    · exact .start timestamp live _ (Or.inr rfl)
  case stop =>
    split at hn <;> cases hn
    exact .stop
  case lapse timestamp =>
    split at hn <;> cases hn
    next hc => exact .lapse timestamp hc.1 hc.2
  case release =>
    split at hn <;> cases hn
    next hended => exact .release hended
  case heartbeat timestamp live =>
    split at hn <;> cases hn
    next hc => exact .heartbeat timestamp live hc.1
  case extend =>
    split at hn <;> cases hn
    next next hnext => exact .extend next hnext
  case latch outcome =>
    split at hn <;> cases hn
    exact .latch outcome
  case terminalize timestamp live =>
    (repeat' split at hn) <;> cases hn
    next outcome _ hc => exact .terminalize outcome timestamp live hc.2
  case begin kind key timestamp live =>
    split at hn <;> cases hn
    next hc =>
      split
      · exact .begin kind key timestamp live _ hc.2 (Or.inl rfl)
      · exact .begin kind key timestamp live _ hc.2 (Or.inr rfl)
  case look config =>
    (repeat' split at hn) <;> cases hn
    next kind key hcall _ => exact .look kind key config hcall
  case find =>
    split at hn <;> cases hn
    next key config hcall => exact .find key config hcall
  case insert timestamp live =>
    split at hn
    · next key config hcall =>
      split at hn <;> cases hn
      exact .insert key config timestamp live hcall
    · cases hn
  case readBack =>
    split at hn <;> cases hn
    next key next hcall => exact .readBack key next hcall
  case decide timestamp =>
    (repeat' split at hn) <;> cases hn
    next key row hcall _ => exact .decide key row timestamp hcall
  case effect =>
    (repeat' split at hn) <;> cases hn
    next key row hcall halive => exact .effect key row hcall halive
  case settle value timestamp =>
    (repeat' split at hn) <;> cases hn
    next key row hcall _ => exact .settle key row value timestamp hcall
  case expire timestamp =>
    split at hn
    · next key row timeoutAt hcall =>
      split at hn <;> cases hn
      exact .expire key row timeoutAt timestamp hcall
    · cases hn
  case take timestamp live =>
    split at hn
    · next key row w hcall =>
      split at hn <;> cases hn
      exact .take key row w timestamp live hcall
    · cases hn
  case write timestamp live =>
    split at hn
    · next key row assignment next hcall =>
      split at hn <;> cases hn
      exact .write key row assignment next timestamp live hcall
    · cases hn
  case park timestamp live =>
    (repeat' split at hn) <;> cases hn
    next key status wakeAt hcall hc => exact .park key status wakeAt timestamp live hcall hc.1 hc.2

/-- Only a write of the journal journals the outcome of an attempt. -/
theorem Run.step_journaled {step : Run.Step} (hn : run.step db clock step = some result) :
    result.journaled = none ∨ ∃ key row assignment next timestamp live,
      step = .write timestamp live ∧ run.call = .writing key row assignment next ∧
        Run.journals row assignment = true ∧
        (db.changeStep run.identity key row.revision assignment timestamp live).2 = true ∧
        result.db = (db.changeStep run.identity key row.revision assignment timestamp live).1 ∧
        result.journaled = some key := by
  cases Run.stepped hn with
  | look =>
    obtain ⟨_, _, heq⟩ := look_eq
    rw [heq]
    exact Or.inl rfl
  | readBack =>
    obtain ⟨_, _, heq⟩ := readBack_eq
    rw [heq]
    exact Or.inl rfl
  | write key row assignment next timestamp live hcall =>
    dsimp only
    split
    · next hc =>
      obtain ⟨hchanged, hjournals⟩ := Bool.and_eq_true_iff.mp hc
      exact Or.inr ⟨key, row, assignment, next, timestamp, live, rfl, hcall, hjournals, hchanged,
        rfl, rfl⟩
    · exact Or.inl rfl
  | _ => exact Or.inl rfl

/-- The run journals a step. -/
def Run.Step.works : Run.Step → Bool
  | .write _ _ => true
  | _ => false

/-- The step parks the run. -/
def Run.Step.parks : Run.Step → Bool
  | .park _ _ => true
  | _ => false

/-- **What a step of a run changes.** -/
theorem Hosted.changes {step : Run.Step} (h : Hosted minted db clock run) (ht : Tidy m.minted db)
    (hn : run.step db clock step = some result) (hwriter : m.writer = some run.identity)
    (hworks : step.works = true → m.works = true) (hparks : step.parks = true → m.parks = true)
    (htaken : ∀ e name, result.consumed = some (e, name) → e ∈ m.taken) :
    Changes m db result.db := by
  have hrow : ∀ {timestamp live}, db.runExists run.identity timestamp live = true →
      ∃ r ∈ db.instances, r.toIncarnation = run.identity.toIncarnation :=
    fun hruns => (owns_of_runExists hruns).row
  have hfits := h.call
  have hstands := h.stands
  cases Run.stepped hn with
  | release => exact (change_clearOwner hwriter).one
  | heartbeat => exact (change_heartbeat hwriter).one
  | terminalize => exact (change_terminalize ht).one
  | look =>
    rw [look_db]
    exact .refl
  | insert => exact changes_insertStep hwriter
  | readBack =>
    rw [readBack_db]
    exact .refl
  | take key _ _ _ _ hcall =>
    rw [hcall] at hfits
    refine changes_consume ht hwriter (fun hruns p hp hstep => ?_) fun htook e he hmeets => ?_
    · obtain ⟨hheld, hkind⟩ := hfits (owns_of_runExists hruns)
      rw [hheld.eq_of_isStep ht (hrow hruns) hp hstep]
      exact ⟨rfl, hkind⟩
    · refine htaken e key ?_
      dsimp only
      rw [if_pos htook, ht.find_meets he hmeets]
      rfl
  | write _ _ _ _ _ _ hcall =>
    rw [hcall] at hfits
    refine (change_changeStep ht hwriter fun hruns p hp hstep => ?_).one
    obtain ⟨hheld, -⟩ := hfits (owns_of_runExists hruns)
    rw [hheld.eq_of_isStep ht (hrow hruns) hp hstep]
    exact ⟨hheld.2, fun _ => hworks rfl⟩
  | park _ _ _ _ _ hcall =>
    rw [hcall] at hstands
    refine (change_park hwriter (hparks rfl) ?_).one
    rcases hstands with hs | hs <;> rw [hs] <;> rfl
  | _ => exact .refl

/-! ### What a run knows after a step of its own -/

theorem Hosted.calls (h : Hosted minted db clock run) (hinst : db'.instances = db.instances)
    {answer : Option Answer}
    (hfits : Owns db run.identity → call.Fits db' run.identity.toIncarnation)
    (hstands : call.Stands db' run.identity.toIncarnation) :
    Hosted minted db' clock { run with call := call, answer := answer } where
  minted := h.minted
  below := by
    unfold Below
    rw [hinst]
    exact h.below
  context := h.context
  renewal := h.renewal
  leased := by
    intro hspent
    unfold Leased
    rw [hinst]
    exact h.leased hspent
  ended := by
    unfold Gone
    rw [hinst]
    exact h.ended
  call := by
    unfold Owns
    rw [hinst]
    exact hfits
  stands := hstands

theorem Hosted.ends (h : Hosted m.former db m.clock run) (ht : Tidy m.minted db)
    (hc : Changes m db db') (hsub : m.former ⊆ m.minted) (hended : run.ended = true)
    (hfits : Owns db' run.identity → call.Fits db' run.identity.toIncarnation)
    (hstands : call.Stands db' run.identity.toIncarnation) :
    Hosted m.minted db' m.clock { run with call := call } where
  minted := hsub h.minted
  below := hc.below ht h.minted h.below
  context := h.context
  renewal := h.renewal
  leased := by
    intro hspent r hr hinc hlive
    rcases h.ended hended with hs | hgone
    · exact absurd hs hspent
    · rw [hc.gone ht h.minted hgone r hr hinc] at hlive
      cases hlive
  ended := fun hended => (h.ended hended).imp_right (hc.gone ht h.minted)
  call := hfits
  stands := hstands

/-- A stop without an acknowledgement returns only when the claim is over. -/
theorem Hosted.lapsed (h : Hosted minted db clock run) (ht : Tidy minted db)
    (hclock : timestamp ≤ clock) (hlapses : run.lapses db timestamp = true) :
    run.spent clock ∨ Gone db run.identity.toIncarnation := by
  by_cases hspent : run.spent clock
  · exact Or.inl hspent
  refine Or.inr fun r hr hinc => ?_
  by_contra hlive
  obtain ⟨hclaimed, _, hlease, hcovers, -⟩ :=
    h.leased hspent r hr hinc (Bool.eq_false_iff.mpr hlive)
  have hlater : clock < run.contextUntil := Nat.lt_of_not_le fun hle => hspent (Or.inr hle)
  have hread : db.read run.identity.toInstanceKey = some r := by
    rw [← hinc]
    exact Table.find_of_mem ht.keys hr
  have hleased : r.leased timestamp = true := by
    rw [InstanceRow.leased, hlease]
    exact decide_eq_true (Nat.lt_of_le_of_lt hclock (Nat.lt_of_lt_of_le hlater hcovers))
  have hdeadline : timestamp < run.identity.deadlineAt :=
    Nat.lt_of_le_of_lt hclock (Nat.lt_of_lt_of_le hlater
      (Nat.le_trans h.context (Nat.min_le_left _ _)))
  unfold Run.lapses at hlapses
  rw [hread] at hlapses
  simp [hclaimed, hleased, Nat.not_le_of_lt hdeadline] at hlapses

theorem Hosted.extends (h : Hosted minted db clock run) {next : Instant}
    (hnext : run.renewing = some next) :
    Hosted minted db clock { run with
      contextUntil := if run.alive clock then next else run.contextUntil
      renewing := none } := by
  have hrenewal := h.renewal next hnext
  by_cases halive : run.alive clock = true
  · have hspent : ¬ run.spent clock := by
      simp only [Run.alive, Bool.and_eq_true, Bool.not_eq_true', decide_eq_true_eq] at halive
      rintro (hs | hs)
      · rw [halive.1.2] at hs
        cases hs
      · exact absurd halive.2 (Nat.not_lt_of_le hs)
    rw [if_pos halive]
    exact
      { minted := h.minted
        below := h.below
        context := hrenewal
        renewal := fun _ h => by cases h
        leased := fun _ r hr hinc hlive => by
          obtain ⟨hclaimed, untilMs, hlease, -, hcovers⟩ := h.leased hspent r hr hinc hlive
          exact ⟨hclaimed, untilMs, hlease, hcovers next hnext, fun _ h => by cases h⟩
        ended := fun hended => (h.ended hended).elim (fun hs => absurd hs hspent) Or.inr
        call := h.call
        stands := h.stands }
  · rw [if_neg halive]
    exact
      { minted := h.minted
        below := h.below
        context := h.context
        renewal := fun _ h => by cases h
        leased := fun hs r hr hinc hlive => by
          obtain ⟨hclaimed, untilMs, hlease, hcovers, -⟩ := h.leased hs r hr hinc hlive
          exact ⟨hclaimed, untilMs, hlease, hcovers, fun _ h => by cases h⟩
        ended := h.ended
        call := h.call
        stands := h.stands }

theorem Hosted.beats (h : Hosted m.former db m.clock run) (ht : Tidy m.minted db)
    (hsub : m.former ⊆ m.minted) (hwriter : m.writer = some run.identity)
    (hsampled : run.sampled ≤ timestamp) :
    Hosted m.minted (db.heartbeat run.identity
        (min run.identity.deadlineAt (timestamp + run.leaseMs)) timestamp live) m.clock { run with
      sampled := timestamp
      renewing := if db.runExists run.identity timestamp live then
        some (min run.identity.deadlineAt (timestamp + run.leaseMs)) else none } := by
  have hc : Changes m db (db.heartbeat run.identity
      (min run.identity.deadlineAt (timestamp + run.leaseMs)) timestamp live) :=
    (change_heartbeat hwriter).one
  have hcontext : run.contextUntil ≤ min run.identity.deadlineAt (timestamp + run.leaseMs) :=
    Nat.le_trans h.context (Nat.le_min.mpr ⟨Nat.min_le_left _ _, Nat.le_trans (Nat.min_le_right _ _)
      (Nat.add_le_add_right hsampled run.leaseMs)⟩)
  exact
    { minted := hsub h.minted
      below := hc.below ht h.minted h.below
      context := hcontext
      renewal := fun next hnext => by
        split at hnext
        · exact Nat.le_of_eq (Option.some.inj hnext).symm
        · cases hnext
      leased := fun hspent r' hr' hinc hlive => by
        have hleased := h.leased hspent
        rcases mem_updateInstances.mp hr' with ⟨hr, hnot⟩ | ⟨r, hr, hrunnable, rfl⟩
        · obtain ⟨hclaimed, untilMs, hlease, hcovers, -⟩ := hleased r' hr hinc hlive
          refine ⟨hclaimed, untilMs, hlease, hcovers, fun next hnext => ?_⟩
          -- the row is the only one that the heartbeat could find
          have hnone : db.runExists run.identity timestamp live = false := by
            refine List.any_eq_false.mpr fun q hq hrunnable => ?_
            have hinc' := (claimedBy_iff.mp (runnable_iff.mp hrunnable).1).1
            rw [ht.incarnation_unique hq hr (hinc'.trans hinc.symm), hnot] at hrunnable
            cases hrunnable
          simp [hnone] at hnext
        · obtain ⟨hclaimed, -⟩ := hleased r hr hinc hlive
          refine ⟨claimedBy_iff.mpr (claimedBy_iff.mp hclaimed), _, rfl, hcontext, ?_⟩
          intro next hnext
          split at hnext
          · exact Nat.le_of_eq (Option.some.inj hnext).symm
          · cases hnext
      ended := fun hended => (h.ended hended).imp_right (hc.gone ht h.minted)
      call := fun howns =>
        Call.Fits.congr (fun _ => rfl) (h.call (hc.owns_back ht h.minted h.below howns))
      stands := hc.stands ht h.minted h.stands }

theorem Then.Fits.congr {p p' : StepRow} (hstate : p'.state = p.state)
    (hconfig : p'.config = p.config) (h : next.Fits p) : next.Fits p' := by
  cases next <;> simp only [Then.Fits, hstate, hconfig] at h ⊢ <;> exact h

/-- The row that `changeStep` leaves. -/
theorem readStep_changeStep (ht : Tidy m.minted db) {assignment : Assignment}
    (hwriter : m.writer = some identity) (hheld : Held db identity.toIncarnation key row)
    (hworks : m.works = true)
    (hchanged : (db.changeStep identity key row.revision assignment timestamp live).2 = true) :
    (db.changeStep identity key row.revision assignment timestamp live).1.readStep
        identity.toIncarnation key =
      some { assignment.apply row with updatedAt := timestamp, revision := row.revision + 1 } := by
  obtain ⟨p, hp, hc⟩ := List.any_eq_true.mp hchanged
  obtain ⟨hstep, -, hruns⟩ := changes_iff.mp hc
  have hrow := (owns_of_runExists hruns).row
  obtain rfl := hheld.eq_of_isStep ht hrow hp hstep
  have ht' : Tidy m.minted
      (db.changeStep identity key p.revision assignment timestamp live).1 := by
    refine ht.change (change_changeStep ht hwriter fun _ q hq hq' => ?_)
    rw [hheld.eq_of_isStep ht hrow hq hq']
    exact ⟨hheld.2, fun _ => hworks⟩
  obtain ⟨r, hr, hinc⟩ := hrow
  obtain ⟨hexec, hname⟩ := (isStep_iff ht hp hr hinc).mp hstep
  refine (ht'.readStep_iff hr hinc).mpr ⟨?_, ?_, ?_⟩
  · exact Table.mem_update.mpr (Or.inr ⟨p, hp, hc, rfl⟩)
  · rw [← hexec]
    exact apply_execution assignment p
  · rw [← hname]
    exact apply_name assignment p

section

variable (h : Hosted minted db clock run)

include h

theorem Hosted.goes (hfits : Owns db run.identity → call.Fits db run.identity.toIncarnation)
    (hstands : call.Stands db run.identity.toIncarnation) :
    Hosted minted db clock (run.goes db call).run :=
  h.calls rfl hfits hstands

theorem Hosted.answers {answer : Answer} :
    Hosted minted db clock (run.answers db answer).run :=
  have hidle : Call.Stands db run.identity.toIncarnation .idle := trivial
  h.calls rfl (fun _ => trivial) hidle

theorem Hosted.look :
    Hosted minted db clock (run.look db kind key config).run := by
  unfold Run.look
  split
  · next hread =>
    split
    · exact h.answers
    next hunsettled =>
    split
    · exact h.goes (fun _ => trivial) trivial
    · split
      · refine h.goes (fun _ p hp => ?_) trivial
        rw [hread] at hp
        cases hp
        exact Bool.eq_false_iff.mpr hunsettled
      · exact h.goes (fun _ => trivial) trivial
  · next hread =>
    split
    · refine h.goes (fun _ p hp => ?_) trivial
      rw [hread] at hp
      cases hp
    · exact h.goes (fun _ => trivial) trivial

theorem Hosted.find (hcall : run.call = .prepared key config) :
    Hosted minted db clock (run.goes db (run.find db key config)).run := by
  have hfits := h.call
  rw [hcall] at hfits
  unfold Run.find
  split
  · next row hread =>
    split
    · exact h.goes (fun _ => trivial) trivial
    · exact h.goes (fun howns => ⟨hread, hfits howns row hread⟩) trivial
  · exact h.goes (fun _ => trivial) trivial

theorem Hosted.readBack (hcall : run.call = .wrote key next) :
    Hosted minted db clock (run.readBack db key next).run := by
  have hfits := h.call
  rw [hcall] at hfits
  unfold Run.readBack
  split
  · exact h.goes (fun _ => trivial) trivial
  next row hread =>
  cases next with
  | hold => exact h.goes (fun howns => ⟨hread, hfits howns row hread⟩) trivial
  | effect =>
    refine h.goes (fun howns => ?_) trivial
    obtain ⟨hunsettled, hkind⟩ := hfits howns row hread
    exact ⟨⟨hread, hunsettled⟩, hkind⟩
  | memo => exact h.answers
  | park =>
    dsimp only
    split
    · exact h.goes (fun _ => trivial) (Or.inl rfl)
    · exact h.goes (fun _ => trivial) trivial
  | parkUntil => exact h.goes (fun _ => trivial) (Or.inl rfl)
  | throw => exact h.answers

theorem Hosted.decides (hcall : run.call = .holds key row) :
    Hosted minted db clock (run.goes db (run.decides db key row timestamp)).run := by
  have hheld := h.call
  rw [hcall] at hheld
  unfold Run.decides
  split
  · next hconfig =>
    have hkind : row.config.kind = .run := by
      rw [hconfig]
      rfl
    split
    · split
      · exact h.goes (fun _ => trivial) trivial
      · split
        · exact h.goes (fun _ => trivial) (Or.inl rfl)
        · exact h.goes (fun howns => ⟨hheld howns, ⟨rfl, hkind⟩, fun _ _ hr => by cases hr⟩)
            (fun _ hr => by cases hr)
    · exact h.goes (fun howns => ⟨hheld howns, hkind⟩) trivial
  · split
    · exact h.goes (fun _ => trivial) trivial
    split
    · exact h.goes (fun howns => ⟨hheld howns, trivial, fun _ _ hr => by cases hr⟩)
        (fun _ hr => by cases hr)
    · split
      · exact h.goes (fun howns => ⟨hheld howns, trivial, fun _ _ hr => by cases hr⟩)
          (fun _ hr => by cases hr)
      · split
        · exact h.goes (fun _ => trivial) (Or.inl rfl)
        · exact h.goes (fun _ => trivial) trivial
  · next hconfig =>
    have hkind : row.config.kind = .wait := by
      rw [hconfig]
      rfl
    split
    · exact h.goes (fun howns => ⟨hheld howns, rfl, fun _ _ hr => by cases hr⟩)
        (fun _ hr => by cases hr)
    · split
      · exact h.goes (fun howns => ⟨hheld howns, hkind⟩) trivial
      · exact h.goes hheld trivial

theorem Hosted.attempted {value : Option (Option String)} (hcall : run.call = .running key row) :
    Hosted minted db clock (run.goes db (run.attempted key row value timestamp)).run := by
  have hfits := h.call
  rw [hcall] at hfits
  unfold Run.attempted
  split
  · exact h.goes (fun howns => ⟨(hfits howns).1, trivial, fun _ _ hr => by cases hr⟩)
      (fun _ hr => by cases hr)
  · next delays hconfig =>
    split
    · refine h.goes (fun howns => ⟨(hfits howns).1, trivial, fun _ _ hr => by cases hr⟩) ?_
      rintro _ ⟨⟩
      rfl
    · next hdelay =>
      refine h.goes (fun howns => ⟨(hfits howns).1, trivial, ?_⟩) (fun _ hr => by cases hr)
      rintro _ _ ⟨⟩
      exact ⟨rfl, delays, hconfig, (List.getElem?_eq_some_iff.mp hdelay).1⟩
  · exact h.goes (fun _ => trivial) trivial

theorem Hosted.writes (ht : Tidy m.minted db) {assignment : Assignment}
    (hcall : run.call = .writing key row assignment next) (hwriter : m.writer = some run.identity)
    (hworks : m.works = true) :
    let changed := db.changeStep run.identity key row.revision assignment timestamp live
    Hosted minted changed.1 clock
      (run.goes changed.1 (if changed.2 then .wrote key next else .over)).run := by
  intro changed
  have hinst : changed.1.instances = db.instances := rfl
  have hfits := h.call
  have hstands := h.stands
  rw [hcall] at hfits hstands
  split
  · next hchanged =>
    obtain ⟨p, hp, hc⟩ := List.any_eq_true.mp hchanged
    have howns := owns_of_runExists (changes_iff.mp hc).2.2
    obtain ⟨hheld, hnext, -⟩ := hfits howns
    have hread := readStep_changeStep ht hwriter hheld hworks hchanged
    refine h.calls hinst (fun _ q hq => ?_) fun reason hreason => Or.inr ?_
    · rw [show changed.1.readStep run.identity.toIncarnation key = some _ from hread] at hq
      cases hq
      exact Then.Fits.congr (p := assignment.apply row) rfl rfl hnext
    · obtain rfl := hstands reason hreason
      obtain ⟨r, hr, hinc⟩ := howns.row
      obtain ⟨hexec, hname⟩ := (isStep_iff ht hp hr hinc).mp (changes_iff.mp hc).1
      exact ⟨_, Table.mem_update.mpr (Or.inr ⟨p, hp, hc, rfl⟩), hexec, hname, rfl, rfl⟩
  · exact h.calls hinst (fun _ => trivial) trivial

theorem Hosted.inserts :
    let inserted := db.insertStep run.identity key config timestamp live
    Hosted minted inserted.1 clock
      (run.goes inserted.1 (if inserted.2 then .wrote key .hold else .over)).run := by
  intro inserted
  have hinst : inserted.1.instances = db.instances := by
    show (db.insertStep run.identity key config timestamp live).1.instances = _
    unfold Db.insertStep
    split <;> rfl
  split
  · next hinserted =>
    refine h.calls hinst (fun _ p hp => ?_) fun _ hr => by cases hr
    change (db.insertStep run.identity key config timestamp live).2 = true at hinserted
    change (db.insertStep run.identity key config timestamp live).1.readStep _ key = some p at hp
    unfold Db.insertStep at hinserted hp
    split at hinserted
    · next hc =>
      rw [if_pos hc] at hp
      simp only [Bool.and_eq_true, Option.isNone_iff_eq_none] at hc
      have hnone : db.steps.find? (StepRow.isStep run.identity.toIncarnation key) = none := hc.2
      simp only [Db.readStep, List.find?_append, hnone, Option.none_or] at hp
      obtain rfl := List.mem_singleton.mp (List.mem_of_find?_eq_some hp)
      rfl
    · cases hinserted
  · exact h.calls hinst (fun _ => trivial) trivial

theorem Hosted.takes {w : EventWhere} :
    let taken := db.consume run.identity key row.revision w timestamp live
    Hosted minted taken.1 clock
      (run.goes taken.1 (if taken.2 then .wrote key .memo else .over)).run := by
  intro taken
  have hinst : taken.1.instances = db.instances := rfl
  split
  · exact h.calls hinst (fun _ _ _ => trivial) fun _ hr => by cases hr
  · exact h.calls hinst (fun _ => trivial) trivial

end

theorem readStep_terminalize (ht : Tidy minted db) {outcome : Outcome} (hbelow : Below db identity)
    (howns : Owns (db.terminalize identity outcome timestamp live) identity) (key : String) :
    (db.terminalize identity outcome timestamp live).readStep identity.toIncarnation key =
      db.readStep identity.toIncarnation key := by
  let m : Move := { former := [], minted := minted, clock := 0 }
  have hc : Change m db (db.terminalize identity outcome timestamp live) :=
    change_terminalize (m := m) ht
  exact hc.readStep_kept ht hbelow (fun _ hwriter => by cases hwriter) howns key

theorem Hosted.stops (h : Hosted minted db clock run) :
    Hosted minted db clock { run with stopped := true, ended := true } :=
  { minted := h.minted
    below := h.below
    context := h.context
    renewal := h.renewal
    leased := fun hspent => absurd (Or.inl rfl) hspent
    ended := fun _ => Or.inl (Or.inl rfl)
    call := h.call
    stands := h.stands }

/-- **A step of a run keeps what holds around it.** -/
theorem Hosted.step {step : Run.Step} (h : Hosted m.former db m.clock run) (ht : Tidy m.minted db)
    (hsub : m.former ⊆ m.minted) (hc : Changes m db result.db)
    (hn : run.step db m.clock step = some result) (hwriter : m.writer = some run.identity)
    (hworks : step.works = true → m.works = true) :
    Hosted m.minted result.db m.clock result.run := by
  have hown : Hosted m.minted db m.clock run := { h with minted := hsub h.minted }
  have hfits := h.call
  cases Run.stepped hn with
  | start _ _ _ hrun =>
    rcases hrun with rfl | rfl
    · exact { hown with }
    · exact hown.stops
  | stop => exact hown.stops
  | lapse _ hclock hlapse =>
    exact { hown with ended := fun _ => hown.lapsed ht hclock hlapse }
  | release hended =>
    exact h.ends ht hc hsub hended (fun howns => Call.Fits.congr (fun _ => rfl)
      (h.call (hc.owns_back ht h.minted h.below howns))) (hc.stands ht h.minted h.stands)
  | heartbeat _ _ hsampled => exact h.beats ht hsub hwriter hsampled
  | extend next hnext => exact hown.extends hnext
  | latch => exact { hown with }
  | terminalize _ _ _ hended =>
    refine h.ends ht hc hsub hended (fun howns => ?_) (hc.stands ht h.minted h.stands)
    refine Call.Fits.congr (readStep_terminalize ht h.below howns) ?_
    exact h.call (hc.owns_back ht h.minted h.below howns)
  | begin _ _ _ _ _ _ hcall =>
    rcases hcall with rfl | rfl
    · exact hown.goes (fun _ => trivial) trivial
    · exact hown.goes (fun _ => trivial) trivial
  | look =>
    rw [look_db]
    exact hown.look
  | find _ _ hcall => exact hown.find hcall
  | insert => exact hown.inserts
  | readBack _ _ hcall =>
    rw [readBack_db]
    exact hown.readBack hcall
  | decide _ _ _ hcall => exact hown.decides hcall
  | effect _ _ hcall =>
    rw [hcall] at hfits
    exact hown.goes hfits trivial
  | settle _ _ _ _ hcall => exact hown.attempted hcall
  | expire _ _ _ _ hcall =>
    rw [hcall] at hfits
    split
    · refine hown.goes (fun howns => ⟨hfits howns, trivial, fun _ _ hr => by cases hr⟩) ?_
      rintro _ ⟨⟩
      rfl
    · exact hown.goes (fun _ => trivial) (Or.inr rfl)
  | take => exact hown.takes
  | write _ _ _ _ _ _ hcall =>
    exact hown.writes ht hcall hwriter (hworks rfl)
  | park _ _ _ _ _ _ _ hended =>
    exact h.ends ht hc hsub hended (fun _ => trivial) trivial

end Takoserver.Workflow
