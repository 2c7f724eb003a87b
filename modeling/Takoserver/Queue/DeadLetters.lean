import Takoserver.Lib.Acyclic
import Takoserver.Queue.Consumers
import Takoserver.V2.Lockstep

/-!
# The graph of dead-letter queues

A consumer moves a message that it gave up to the dead-letter queue of its policy, and the
consumer of that queue may move it on.  Triggers on `tf_v2_resources` refuse the acceptance of a
consumer whose dead-letter queue leads back to its own queue; they follow the desired spec of each
live consumer, and the spec that the last Operation which succeeded was accepted with.

The trigger on an update leaves out the edges of the consumer that is updated.  Every edge of a
consumer starts at its queue, which no update changes and no other live consumer has, so a path
from the new dead-letter queue that first comes back to the queue uses the edges of the others.
-/

namespace Takoserver.Queue

open V2 (Db ResourceRow OperationRow StoreAction Uuid Lockstep Write Progress)
open Relation (Acyclic Edge reach mem_reach_iff)

/-! ### The triggers -/

/-- The queue that a spec names, and the dead-letter queue. -/
def specEdge (spec : Json) : Option (String × String) :=
  match spec.textAt? ["queue", "resourceUid"], spec.textAt? ["deadLetterQueue", "resourceUid"] with
  | some queue, some deadLetterQueue => some (queue, deadLetterQueue)
  | _, _ => none

/-- A consumer that is not deleted. -/
def liveConsumer (r : ResourceRow) : Bool :=
  decide (r.formUrl = queueConsumerFormUrl ∧ r.deletedAt = none)

/-- The Operation is the one whose success the Resource last observed. -/
def lastSucceeded (r : ResourceRow) (o : OperationRow) : Bool :=
  decide (o.resourceUid = r.uid ∧ o.generation = r.observedGeneration ∧ o.status = .succeeded)

/-- The edges of one consumer: `spec_json`, and `accepted_spec_json` of the Operation last
observed. -/
def consumerEdges (db : Db) (r : ResourceRow) : List (String × String) :=
  (specEdge r.spec).toList ++
    (db.operations.filter (lastSucceeded r)).filterMap fun o => specEdge o.acceptedSpec

/-- `edges`, of the live consumers that are not left out. -/
def deadLetterEdges (db : Db) (leftOut : ResourceRow → Bool) : List (String × String) :=
  (db.resources.filter fun r => liveConsumer r && !leftOut r).flatMap (consumerEdges db)

/-- `tf_v2_queue_consumer_unique_create`. -/
def uniqueCreate (db : Db) (new : ResourceRow) : Bool :=
  decide (new.formUrl = queueConsumerFormUrl) &&
    db.resources.any fun r => liveConsumer r &&
      (r.spec.textAt? ["queue", "resourceUid"]).any fun queue =>
        decide (new.spec.textAt? ["queue", "resourceUid"] = some queue)

/-- `tf_v2_queue_consumer_cycle_create`. -/
def cycleCreate (db : Db) (new : ResourceRow) : Bool :=
  decide (new.formUrl = queueConsumerFormUrl) &&
    (specEdge new.spec).any fun edge =>
      decide (edge.1 ∈ reach (deadLetterEdges db fun _ => false) edge.2)

/-- `tf_v2_queue_consumer_cycle_update`. -/
def cycleUpdate (db : Db) (new : ResourceRow) : Bool :=
  liveConsumer new && (specEdge new.spec).any fun edge =>
    decide (edge.1 ∈ reach (deadLetterEdges db fun r => decide (r.uid = new.uid)) edge.2)

/-! ### The machine -/

/-- The row that the batch inserts into `tf_v2_resources`. -/
def insertedRow (db : Db) : StoreAction → Option ResourceRow
  | .insertCreate record form space name _ initialOutput admission guard _ =>
      if V2.admits db (V2.withReferenceGuard admission guard) then
        some (Db.createdResource record form space name initialOutput)
      else none
  | _ => none

/-- The row whose spec the batch assigns, as it becomes. -/
def assignedRow (db : Db) : StoreAction → Option ResourceRow
  | .insertChange record _ serialize admission guard _ =>
      ((db.resource record.resourceUid).filter (db.changeGuard record
        (record.action == .update && serialize) (V2.withReferenceGuard admission guard))).map
          fun r => Db.changedResource r record
  | _ => none

/-- One of the triggers aborts the statement. -/
def triggersAbort (db : Db) (a : StoreAction) : Bool :=
  (insertedRow db a).any (fun new => uniqueCreate db new || cycleCreate db new) ||
    (assignedRow db a).any (cycleUpdate db)

/-- What the form of a consumer makes sure of before an acceptance. -/
def formAccepts (db : Db) : StoreAction → Bool
  | .insertCreate record form .. =>
      decide (form ≠ queueConsumerFormUrl) || (parseQueueConsumerSpec record.spec).isSome
  | .insertChange record .. =>
      (db.resource record.resourceUid).all fun r =>
        decide (r.formUrl ≠ queueConsumerFormUrl) ||
          if record.action = .update then validateQueueConsumerUpdate r.spec record.spec
          else decide (record.spec = r.spec)
  | _ => true

/-- The machine of all runs of acceptances and settlements under the triggers: a batch that one of
them aborts leaves the database as it is.  The other triggers on a consumer, which ask for the
Resources it refers to, can only abort a batch too. -/
def attachments : Machine Db StoreAction where
  init := {}
  next db a :=
    if a.wellFormed db && formAccepts db a then
      some (if triggersAbort db a then db else a.apply db)
    else none

/-- The graph: from the queue of each live consumer to the dead-letter queue of its desired spec,
and to that of the spec that the last Operation which succeeded was accepted with. -/
def DeadLetters (db : Db) (queue deadLetterQueue : String) : Prop :=
  ∃ r ∈ db.resources, liveConsumer r = true ∧ (specEdge r.spec = some (queue, deadLetterQueue) ∨
    ∃ o ∈ db.operations, lastSucceeded r o = true ∧
      specEdge o.acceptedSpec = some (queue, deadLetterQueue))

/-! ### Edges -/

/-- The queue that a spec names. -/
def queueText (spec : Json) : Option String := spec.textAt? ["queue", "resourceUid"]

variable {db db' : Db}

theorem queueText_of_specEdge {spec : Json} {q d : String} (h : specEdge spec = some (q, d)) :
    queueText spec = some q := by
  unfold specEdge at h
  split at h
  · next hq _ =>
    obtain ⟨rfl, -⟩ := Prod.mk.inj (Option.some.inj h)
    exact hq
  · cases h

variable {r : ResourceRow} {admission : Option V2.Admission} {guard : Option (Db → Bool)}
  {vetoed : Bool}

theorem liveConsumer_iff :
    liveConsumer r = true ↔ r.formUrl = queueConsumerFormUrl ∧ r.deletedAt = none :=
  decide_eq_true_iff

theorem lastSucceeded_iff {o : OperationRow} :
    lastSucceeded r o = true ↔
      o.resourceUid = r.uid ∧ o.generation = r.observedGeneration ∧ o.status = .succeeded :=
  decide_eq_true_iff

theorem edge_deadLetterEdges {leftOut : ResourceRow → Bool} {q d : String} :
    Edge (deadLetterEdges db leftOut) q d ↔
      ∃ r ∈ db.resources, liveConsumer r = true ∧ leftOut r = false ∧
        (specEdge r.spec = some (q, d) ∨ ∃ o ∈ db.operations, lastSucceeded r o = true ∧
          specEdge o.acceptedSpec = some (q, d)) := by
  simp only [Edge, deadLetterEdges, consumerEdges, List.mem_flatMap, List.mem_filter,
    List.mem_append, List.mem_filterMap, Option.mem_toList, Bool.and_eq_true, Bool.not_eq_true',
    and_assoc]

theorem deadLetters_iff {q d : String} :
    DeadLetters db q d ↔ Edge (deadLetterEdges db fun _ => false) q d := by
  rw [edge_deadLetterEdges]
  simp only [DeadLetters, true_and]

/-- The edges of the other consumers are edges. -/
theorem deadLetters_of_others {leftOut : ResourceRow → Bool} {q d : String}
    (h : Edge (deadLetterEdges db leftOut) q d) : DeadLetters db q d := by
  obtain ⟨r, hr, hlive, -, hedge⟩ := edge_deadLetterEdges.mp h
  exact ⟨r, hr, hlive, hedge⟩

/-! ### The invariant -/

/-- What the triggers and the form make of the consumers that are attached. -/
structure Attached (db : Db) : Prop where
  lockstep : Lockstep db
  /-- A live consumer names its queue. -/
  named : ∀ r ∈ db.resources, liveConsumer r = true → (queueText r.spec).isSome = true
  /-- A queue has one live consumer. -/
  alone : ∀ r ∈ db.resources, ∀ r' ∈ db.resources, liveConsumer r = true →
    liveConsumer r' = true → queueText r.spec = queueText r'.spec → r.uid = r'.uid
  /-- No Operation of a live consumer is about another queue. -/
  keeps : ∀ r ∈ db.resources, liveConsumer r = true → ∀ o ∈ db.operations,
    o.resourceUid = r.uid → queueText o.acceptedSpec = queueText r.spec
  /-- The desired spec is the one that the last Operation was accepted with. -/
  current : ∀ r ∈ db.resources, ∀ o ∈ db.operations, o.resourceUid = r.uid →
    o.generation = r.generation → o.acceptedSpec = r.spec
  acyclic : Acyclic (DeadLetters db)

theorem attached_init : Attached attachments.init := by
  refine ⟨V2.lockstep_init, ?_, ?_, ?_, ?_, ?_⟩
  · simp [attachments]
  · simp [attachments]
  · simp [attachments]
  · simp [attachments]
  · intro q hq
    obtain ⟨d, ⟨r, hr, -⟩, -⟩ := Relation.TransGen.head'_iff.mp hq
    simp [attachments] at hr

/-! ### Batches that accept nothing -/

/-- The rows after a batch that accepts nothing are those before it, with the columns that the
graph is made of; what is newly observed, or succeeds, is the last Operation accepted. -/
structure Carries (db db' : Db) : Prop where
  resources : ∀ r' ∈ db'.resources, ∃ r ∈ db.resources, r'.uid = r.uid ∧ r'.spec = r.spec ∧
    r'.generation = r.generation ∧ (liveConsumer r' = true → liveConsumer r = true) ∧
    (r'.observedGeneration = r.observedGeneration ∨ r'.observedGeneration = r.generation)
  operations : ∀ o' ∈ db'.operations, ∃ o ∈ db.operations, o'.resourceUid = o.resourceUid ∧
    o'.generation = o.generation ∧ o'.acceptedSpec = o.acceptedSpec ∧
    (o'.status = .succeeded → o.status = .succeeded ∨
      ∀ r ∈ db.resources, o.resourceUid = r.uid → o.generation = r.generation)

/-- No edge is new: the spec of the Operation that succeeds is the desired one. -/
theorem Attached.deadLetters_of_carries (h : Attached db) (hc : Carries db db') {q d : String}
    (he : DeadLetters db' q d) : DeadLetters db q d := by
  obtain ⟨r', hr', hlive', hspec | ⟨o', ho', hlast, hspec⟩⟩ := he
  · obtain ⟨r, hr, -, hs, -, hlive, -⟩ := hc.resources r' hr'
    exact ⟨r, hr, hlive hlive', Or.inl (hs ▸ hspec)⟩
  obtain ⟨r, hr, huid, -, -, hlive, hobserved⟩ := hc.resources r' hr'
  obtain ⟨o, ho, hres, hgen, hacc, hsucceeded⟩ := hc.operations o' ho'
  obtain ⟨hown, hat, hstatus⟩ := lastSucceeded_iff.mp hlast
  have hown' : o.resourceUid = r.uid := hres.symm.trans (hown.trans huid)
  have hlatest : o.generation = r.generation → DeadLetters db q d := fun hat' =>
    ⟨r, hr, hlive hlive', Or.inl (h.current r hr o ho hown' hat' ▸ hacc ▸ hspec)⟩
  rcases hsucceeded hstatus with hold | hlast'
  · rcases hobserved with hsame | hnew
    · refine ⟨r, hr, hlive hlive', Or.inr ⟨o, ho, lastSucceeded_iff.mpr ⟨hown', ?_, hold⟩,
        hacc ▸ hspec⟩⟩
      exact hgen.symm.trans (hat.trans hsame)
    · exact hlatest (hgen.symm.trans (hat.trans hnew))
  · exact hlatest (hlast' r hr hown')

theorem Attached.carries (h : Attached db) (hc : Carries db db') (hl : Lockstep db') :
    Attached db' := by
  refine ⟨hl, ?_, ?_, ?_, ?_, h.acyclic.mono fun q d => h.deadLetters_of_carries hc⟩
  · intro r' hr' hlive'
    obtain ⟨r, hr, -, hs, -, hlive, -⟩ := hc.resources r' hr'
    rw [hs]
    exact h.named r hr (hlive hlive')
  · intro r₁' hr₁' r₂' hr₂' hlive₁' hlive₂' hqueue
    obtain ⟨r₁, hr₁, huid₁, hs₁, -, hlive₁, -⟩ := hc.resources r₁' hr₁'
    obtain ⟨r₂, hr₂, huid₂, hs₂, -, hlive₂, -⟩ := hc.resources r₂' hr₂'
    rw [hs₁, hs₂] at hqueue
    rw [huid₁, huid₂]
    exact h.alone r₁ hr₁ r₂ hr₂ (hlive₁ hlive₁') (hlive₂ hlive₂') hqueue
  · intro r' hr' hlive' o' ho' hown
    obtain ⟨r, hr, huid, hs, -, hlive, -⟩ := hc.resources r' hr'
    obtain ⟨o, ho, hres, -, hacc, -⟩ := hc.operations o' ho'
    rw [hacc, hs]
    exact h.keeps r hr (hlive hlive') o ho (hres.symm.trans (hown.trans huid))
  · intro r' hr' o' ho' hown hat
    obtain ⟨r, hr, huid, hs, hg, -⟩ := hc.resources r' hr'
    obtain ⟨o, ho, hres, hgen, hacc, -⟩ := hc.operations o' ho'
    rw [hacc, hs]
    exact h.current r hr o ho (hres.symm.trans (hown.trans huid))
      (hgen.symm.trans (hat.trans hg))

/-- A status update carries the rows on: an Operation succeeds as the last of its Resource. -/
theorem carries_updateOperation (hl : Lockstep db) {old new : OperationRow}
    (hold : old ∈ db.operations) (hu : db.updateOperation old new = some db') :
    Carries db db' := by
  obtain ⟨-, hruid, -, -, -, -, hgen, -, -, htrans⟩ := Db.updateOperation_assigns hu
  have hspec := Db.updateOperation_acceptedSpec hu
  have hopen := V2.Status.not_terminal_of_transition htrans
  obtain ⟨hops, -, -, hres⟩ := Db.updateOperation_rows hu
  constructor
  · intro r' hr'
    rcases hres with ⟨-, hsame⟩ | ⟨-, r, hfind, hg, -, -, hput⟩
    · rw [hsame] at hr'
      exact ⟨r', hr', rfl, rfl, rfl, id, Or.inl rfl⟩
    rw [hput, Table.mem_put] at hr'
    rcases hr' with ⟨hr', -⟩ | ⟨rfl, -⟩
    · exact ⟨r', hr', rfl, rfl, rfl, id, Or.inl rfl⟩
    refine ⟨r, (Table.find_some hfind).1, rfl, rfl, rfl, fun hlive => ?_, ?_⟩
    · obtain ⟨hform, hlive⟩ := liveConsumer_iff.mp hlive
      refine liveConsumer_iff.mpr ⟨hform, ?_⟩
      simp only [Db.terminalResource] at hlive
      split at hlive
      · cases hlive
      · exact hlive
    · simp only [Db.terminalResource]
      split
      · exact Or.inr hg.symm
      · exact Or.inl rfl
  · intro o' ho'
    rw [hops, Table.mem_put] at ho'
    rcases ho' with ⟨ho', -⟩ | ⟨rfl, -⟩
    · exact ⟨o', ho', rfl, rfl, rfl, Or.inl⟩
    · refine ⟨old, hold, hruid, hgen, hspec, fun _ => Or.inr fun r hr hown => ?_⟩
      obtain ⟨s, hs, hsuid, -, hsg, -⟩ := hl.pending old hold hopen
      rw [← Table.eq_of_key hl.uids hs hr (hsuid.trans hown), hsg]

theorem carries_progress (hl : Lockstep db) (hp : Progress db db') : Carries db db' := by
  cases hp with
  | inputs =>
    exact ⟨fun r hr => ⟨r, hr, rfl, rfl, rfl, id, Or.inl rfl⟩,
      fun o ho => ⟨o, ho, rfl, rfl, rfl, Or.inl⟩⟩
  | defer old _ hold =>
    refine ⟨fun r hr => ⟨r, hr, rfl, rfl, rfl, id, Or.inl rfl⟩, fun o ho => ?_⟩
    rcases Table.mem_put.mp ho with ⟨ho, -⟩ | ⟨rfl, -⟩
    · exact ⟨o, ho, rfl, rfl, rfl, Or.inl⟩
    · exact ⟨old, hold, rfl, rfl, rfl, Or.inl⟩
  | status rows _ _ hold hupdate =>
    have hl' : Lockstep { db with privateInputs := rows } := hl.of_columns rfl rfl
    have hc := carries_updateOperation hl' hold hupdate
    exact ⟨hc.resources, hc.operations⟩

/-! ### Acceptances -/

section Accepts

variable {record : V2.AcceptRecord} {references : Option (List V2.Reference)}
  {rows : List ResourceRow} {new : ResourceRow} {q d : String}

/-- An edge after an acceptance is one of another consumer, the desired one of the row that was
written, or one that this row has observed. -/
theorem edge_of_accepted (hacc : V2.Accepted db db' record references rows)
    (hrows : ∀ r ∈ rows, r = new ∨ r ∈ db.resources ∧ r.uid ≠ new.uid)
    (he : DeadLetters db' q d) :
    Edge (deadLetterEdges db fun r => decide (r.uid = new.uid)) q d ∨
      liveConsumer new = true ∧ (specEdge new.spec = some (q, d) ∨
        ∃ o ∈ db.operations, lastSucceeded new o = true ∧ specEdge o.acceptedSpec = some (q, d)) := by
  -- the accepted Operation has not succeeded
  have hkept : ∀ r o, o ∈ db'.operations → lastSucceeded r o = true → o ∈ db.operations := by
    intro r o ho hlast
    rw [hacc.operations, List.mem_append, List.mem_singleton] at ho
    rcases ho with ho | rfl
    · exact ho
    · exact absurd (lastSucceeded_iff.mp hlast).2.2 (by simp [Db.acceptedOperation])
  obtain ⟨r, hr, hlive, hspec⟩ := he
  have hspec' : specEdge r.spec = some (q, d) ∨ ∃ o ∈ db.operations, lastSucceeded r o = true ∧
      specEdge o.acceptedSpec = some (q, d) := by
    rcases hspec with hspec | ⟨o, ho, hlast, hspec⟩
    · exact Or.inl hspec
    · exact Or.inr ⟨o, hkept r o ho hlast, hlast, hspec⟩
  rw [hacc.resources] at hr
  rcases hrows r hr with rfl | ⟨hr, hne⟩
  · exact Or.inr ⟨hlive, hspec'⟩
  · exact Or.inl (edge_deadLetterEdges.mpr ⟨r, hr, hlive, decide_eq_false hne, hspec'⟩)

/-- The row that is written is consumer of a queue that has no other, it has observed nothing new,
and its dead-letter queue does not lead back along the edges of the others. -/
def Takes (db : Db) (new : ResourceRow) (queue : String) : Prop :=
  queueText new.spec = some queue ∧
    (∀ r ∈ db.resources, liveConsumer r = true → r.uid ≠ new.uid → queueText r.spec ≠ some queue) ∧
    (∀ o ∈ db.operations, o.resourceUid = new.uid → queueText o.acceptedSpec = some queue ∧
      (lastSucceeded new o = true → ∀ q d, specEdge o.acceptedSpec = some (q, d) →
        DeadLetters db q d)) ∧
    ∀ d, specEdge new.spec = some (queue, d) → ¬ Relation.ReflTransGen
      (Edge (deadLetterEdges db fun r => decide (r.uid = new.uid))) d queue

/-- **An acceptance keeps the graph without a cycle.** -/
theorem Attached.acyclic_accepts (h : Attached db)
    (hacc : V2.Accepted db db' record references rows)
    (hrows : ∀ r ∈ rows, r = new ∨ r ∈ db.resources ∧ r.uid ≠ new.uid)
    (hnew : liveConsumer new = true → ∃ queue, Takes db new queue) :
    Acyclic (DeadLetters db') := by
  by_cases hlive : liveConsumer new = true
  swap
  · refine h.acyclic.mono fun a b he => ?_
    rcases edge_of_accepted hacc hrows he with hother | ⟨hlive', -⟩
    · exact deadLetters_of_others hother
    · exact absurd hlive' hlive
  obtain ⟨queue, hqueue, halone, hobserved, hfree⟩ := hnew hlive
  -- every edge of the row that is written starts at its queue
  have hothers : ∀ a b, a ≠ queue → DeadLetters db' a b →
      Edge (deadLetterEdges db fun r => decide (r.uid = new.uid)) a b := by
    intro a b hne he
    rcases edge_of_accepted hacc hrows he with hother | ⟨-, hspec | ⟨o, ho, hlast, hspec⟩⟩
    · exact hother
    · exact absurd (Option.some.inj ((queueText_of_specEdge hspec).symm.trans hqueue)) hne
    · have ho' := (hobserved o ho (lastSucceeded_iff.mp hlast).1).1
      exact absurd (Option.some.inj ((queueText_of_specEdge hspec).symm.trans ho')) hne
  refine h.acyclic.redirect (fun a b hne he => deadLetters_of_others (hothers a b hne he)) ?_
  intro b he hback
  have hfirst := Relation.ReflTransGen.to_first hothers hback
  rcases edge_of_accepted hacc hrows he with hother | ⟨-, hspec | ⟨o, ho, hlast, hspec⟩⟩
  · -- an edge of another consumer of the queue
    obtain ⟨r, hr, hliver, hout, hedge⟩ := edge_deadLetterEdges.mp hother
    refine halone r hr hliver (of_decide_eq_false hout) ?_
    rcases hedge with hspec | ⟨o, ho, hlast, hspec⟩
    · exact queueText_of_specEdge hspec
    · rw [← h.keeps r hr hliver o ho (lastSucceeded_iff.mp hlast).1]
      exact queueText_of_specEdge hspec
  · exact hfree b hspec hfirst
  · -- an edge that was there, and a path back
    have hold := (hobserved o ho (lastSucceeded_iff.mp hlast).1).2 hlast queue b hspec
    exact h.acyclic queue (Relation.TransGen.head' hold
      (Relation.ReflTransGen.mono (fun _ _ => deadLetters_of_others) _ _ hfirst))

/-- What an accepted row that takes its queue leaves. -/
theorem Attached.accepts (h : Attached db) (hl : Lockstep db')
    (hacc : V2.Accepted db db' record references rows)
    (hrows : ∀ r ∈ rows, r = new ∨ r ∈ db.resources ∧ r.uid ≠ new.uid)
    (huid : new.uid = record.resourceUid) (hspec : new.spec = record.spec)
    (hearlier : ∀ o ∈ db.operations, o.resourceUid = new.uid → o.generation ≠ new.generation)
    (hnew : liveConsumer new = true → ∃ queue, Takes db new queue) : Attached db' := by
  have hother : ∀ r ∈ db.resources, r.uid ≠ new.uid → liveConsumer r = true →
      liveConsumer new = true → queueText r.spec ≠ queueText new.spec := by
    intro r hr hne hlive hlive' hsame
    obtain ⟨queue, hq, halone, -⟩ := hnew hlive'
    exact halone r hr hlive hne (hsame.trans hq)
  refine ⟨hl, ?_, ?_, ?_, ?_, h.acyclic_accepts hacc hrows hnew⟩
  · intro r hr hlive
    rw [hacc.resources] at hr
    rcases hrows r hr with rfl | ⟨hr, -⟩
    · obtain ⟨_, hq, -⟩ := hnew hlive
      simp [hq]
    · exact h.named r hr hlive
  · intro r hr r' hr' hlive hlive' hsame
    rw [hacc.resources] at hr hr'
    rcases hrows r hr with rfl | ⟨hr, hne⟩ <;> rcases hrows r' hr' with rfl | ⟨hr', hne'⟩
    · rfl
    · exact absurd hsame.symm (hother r' hr' hne' hlive' hlive)
    · exact absurd hsame (hother r hr hne hlive hlive')
    · exact h.alone r hr r' hr' hlive hlive' hsame
  · intro r hr hlive o ho hown
    rw [hacc.resources] at hr
    rw [hacc.operations, List.mem_append, List.mem_singleton] at ho
    rcases hrows r hr with rfl | ⟨hr, hne⟩ <;> rcases ho with ho | rfl
    · obtain ⟨_, hq, -, hobserved, -⟩ := hnew hlive
      rw [(hobserved o ho hown).1, hq]
    · rw [hspec]
      rfl
    · exact h.keeps r hr hlive o ho hown
    · exact absurd (hown.symm.trans huid.symm) hne
  · intro r hr o ho hown hat
    rw [hacc.resources] at hr
    rw [hacc.operations, List.mem_append, List.mem_singleton] at ho
    rcases hrows r hr with rfl | ⟨hr, hne⟩ <;> rcases ho with ho | rfl
    · exact absurd hat (hearlier o ho hown)
    · rw [hspec]
      rfl
    · exact h.current r hr o ho hown hat
    · exact absurd (hown.symm.trans huid.symm) hne

theorem Attached.create {form space name : String} {initialOutput : Json} (h : Attached db)
    (hl : Lockstep db') (hacc : V2.Accepted db db' record references
      (db.resources ++ [Db.createdResource record form space name initialOutput]))
    (huid : ∀ r ∈ db.resources, r.uid ≠ record.resourceUid)
    (hform : form = queueConsumerFormUrl → (parseQueueConsumerSpec record.spec).isSome = true)
    (hunique : uniqueCreate db (Db.createdResource record form space name initialOutput) = false)
    (hcycle : cycleCreate db (Db.createdResource record form space name initialOutput) = false) :
    Attached db' := by
  set new := Db.createdResource record form space name initialOutput with hnew
  have hrows : ∀ r ∈ db.resources ++ [new], r = new ∨ r ∈ db.resources ∧ r.uid ≠ new.uid := by
    intro r hr
    rcases List.mem_append.mp hr with hr | hr
    · exact Or.inr ⟨hr, huid r hr⟩
    · exact Or.inl (List.mem_singleton.mp hr)
  -- no Operation is of the new Resource
  have hnone : ∀ o ∈ db.operations, o.resourceUid ≠ new.uid := by
    intro o ho heq
    obtain ⟨r, hr, hruid, -⟩ := h.lockstep.owned o ho
    exact huid r hr (hruid.trans heq)
  refine h.accepts hl hacc hrows rfl rfl (fun o ho hown => absurd hown (hnone o ho)) fun hlive => ?_
  have hurl := (liveConsumer_iff.mp hlive).1
  obtain ⟨spec, hspec⟩ := Option.isSome_iff_exists.mp (hform hurl)
  refine ⟨spec.queue, (texts_of_parse hspec).1, fun r hr hliver _ hsame => ?_,
    fun o ho hown => absurd hown (hnone o ho), fun d hedge hback => ?_⟩
  · have hno : ∀ r ∈ db.resources, liveConsumer r = true → ∀ queue,
        queueText r.spec = some queue → queueText new.spec ≠ some queue := by
      simpa [uniqueCreate, hurl, queueText, Option.any_eq_false] using hunique
    exact hno r hr hliver _ hsame (texts_of_parse hspec).1
  · have hnot : spec.queue ∉ reach (deadLetterEdges db fun _ => false) d := by
      simpa [cycleCreate, hurl, hedge] using hcycle
    refine hnot (mem_reach_iff.mpr (Relation.ReflTransGen.mono (fun a b hab => ?_) _ _ hback))
    exact deadLetters_iff.mp (deadLetters_of_others hab)

theorem Attached.change {r₀ : ResourceRow} (h : Attached db) (hl : Lockstep db')
    (hacc : V2.Accepted db db' record references
      (Table.put ResourceRow.uid (Db.changedResource r₀ record) db.resources))
    (hr₀ : r₀ ∈ db.resources) (huid : r₀.uid = record.resourceUid)
    (hgeneration : record.generation = r₀.generation + 1)
    (hform : r₀.formUrl = queueConsumerFormUrl →
      queueText record.spec = queueText r₀.spec)
    (hcycle : cycleUpdate db (Db.changedResource r₀ record) = false) : Attached db' := by
  set new := Db.changedResource r₀ record with hnew
  have hrows : ∀ r ∈ Table.put ResourceRow.uid new db.resources,
      r = new ∨ r ∈ db.resources ∧ r.uid ≠ new.uid := by
    intro r hr
    rcases Table.mem_put.mp hr with hr | ⟨rfl, -⟩
    · exact Or.inr hr
    · exact Or.inl rfl
  refine h.accepts hl hacc hrows huid rfl (fun o ho hown => ?_) fun hlive => ?_
  · -- the Operations before are of earlier generations
    obtain ⟨r, hr, hruid, hle⟩ := h.lockstep.owned o ho
    have heq : r = r₀ := Table.eq_of_key h.lockstep.uids hr hr₀ (hruid.trans hown)
    have hnext : new.generation = r₀.generation + 1 := hgeneration
    rw [heq] at hle
    omega
  · have hlive₀ : liveConsumer r₀ = true := hlive
    obtain ⟨queue, hq⟩ := Option.isSome_iff_exists.mp (h.named r₀ hr₀ hlive₀)
    refine ⟨queue, (hform (liveConsumer_iff.mp hlive).1).trans hq, fun r hr hliver hne hsame => ?_,
      fun o ho hown => ⟨?_, fun hlast q d hspec => ?_⟩, fun d hspec hback => ?_⟩
    · exact hne (h.alone r hr r₀ hr₀ hliver hlive₀ (hsame.trans hq.symm))
    · rw [h.keeps r₀ hr₀ hlive₀ o ho hown]
      exact hq
    · exact ⟨r₀, hr₀, hlive₀, Or.inr ⟨o, ho, hlast, hspec⟩⟩
    · have hnot : queue ∉ reach (deadLetterEdges db fun r => decide (r.uid = new.uid)) d := by
        simpa [cycleUpdate, hlive, hspec] using hcycle
      exact hnot (mem_reach_iff.mpr hback)

end Accepts

/-! ### Runs -/

theorem insertedRow_of_accepted {record : V2.AcceptRecord} {form space name : String}
    {references : Option (List V2.Reference)} {initialOutput : Json}
    (h : db.insertCreate record form space name references initialOutput admission guard vetoed =
      some (db', .accepted)) :
    insertedRow db (.insertCreate record form space name references initialOutput admission guard
      vetoed) = some (Db.createdResource record form space name initialOutput) := by
  by_cases hadmits : V2.admits db (V2.withReferenceGuard admission guard) = true
  · simp [insertedRow, hadmits]
  have hcode : ∀ a : V2.Admission, a.conflictCode ≠ .accepted := by
    intro a
    unfold V2.Admission.conflictCode
    split <;> simp
  simp only [Db.insertCreate, hadmits] at h
  split at h
  · next hfalse => cases hfalse
  · split at h
    · cases h
    · exfalso
      split at h <;> simp only [Option.some.injEq, Prod.mk.injEq] at h
      · cases hg : V2.withReferenceGuard admission guard with
        | none => simp [hg] at h
        | some a => exact hcode a (by simpa [hg] using h.2)
      · simp at h

section

variable {record : V2.AcceptRecord} {references : Option (List V2.Reference)} {serialize : Bool}
  (hl : Lockstep db) (hr : r ∈ db.resources) (huid : r.uid = record.resourceUid)

include hl hr huid

theorem assignedRow_of_accepted
    (h : db.insertChange record references serialize admission guard vetoed = some (db', .accepted))
    :
    assignedRow db (.insertChange record references serialize admission guard vetoed) =
      some (Db.changedResource r record) := by
  have hfind : db.resource record.resourceUid = some r := by
    rw [← huid]
    exact Table.find_of_mem hl.uids hr
  by_cases hguard : db.changeGuard record (record.action == .update && serialize)
      (V2.withReferenceGuard admission guard) r = true
  · simp [assignedRow, hfind, Option.filter, hguard]
  · exfalso
    simp only [Db.insertChange, hfind, Option.filter, hguard, Bool.false_eq_true, if_false,
      Option.isSome_none, Option.bind_eq_bind, Option.bind_eq_some_iff] at h
    obtain ⟨_, _, _, _, _, _, _, _, h⟩ := h
    split at h
    · cases h
    · exact Db.changeRefusal_ne_accepted (Prod.mk.inj (Option.some.inj h)).2

theorem queueText_of_formAccepts (hform : r.formUrl = queueConsumerFormUrl)
    (h : formAccepts db (.insertChange record references serialize admission guard vetoed) = true) :
    queueText record.spec = queueText r.spec := by
  have hfind : db.resource record.resourceUid = some r := by
    rw [← huid]
    exact Table.find_of_mem hl.uids hr
  simp only [formAccepts, hfind, Option.all_some, hform, ne_eq, not_true_eq_false, decide_false,
    Bool.false_or] at h
  split at h
  · unfold validateQueueConsumerUpdate at h
    split at h
    · next hprevious hnext =>
      have hsame := (of_decide_eq_true h).1
      rw [queueText, queueText, (texts_of_parse hprevious).1, (texts_of_parse hnext).1, hsame]
    · cases h
  · rw [of_decide_eq_true h]

end

theorem Attached.apply {a : StoreAction} (h : Attached db) (hwf : a.wellFormed db = true)
    (hform : formAccepts db a = true) (htriggers : triggersAbort db a = false) :
    Attached (a.apply db) := by
  have hl : Lockstep (a.apply db) := h.lockstep.write (V2.write_apply h.lockstep.busy_exists hwf)
  by_cases hacc : a.isAcceptance = true
  swap
  · exact h.carries (carries_progress h.lockstep (V2.progress_apply (by simpa using hacc))) hl
  cases a with
  | insertCreate =>
    revert hl
    refine V2.effect_of_results (P := fun db' => Lockstep db' → Attached db') (fun _ => h)
      fun db' answer hr hl => ?_
    rcases Db.insertCreate_cases hr with ⟨-, rfl⟩ | ⟨rfl, -, huid, hacc, -⟩
    · exact h
    · simp only [triggersAbort, insertedRow_of_accepted hr, Option.any_some, Bool.or_eq_false_iff]
        at htriggers
      refine h.create hl hacc huid (fun hurl => ?_) htriggers.1.1 htriggers.1.2
      simpa [formAccepts, hurl] using hform
  | insertChange =>
    simp only [StoreAction.wellFormed, Bool.and_eq_true, Option.isNone_iff_eq_none] at hwf
    revert hl
    refine V2.effect_of_results (P := fun db' => Lockstep db' → Attached db') (fun _ => h)
      fun db' answer hr hl => ?_
    rcases Db.insertChange_cases hwf.1.1 h.lockstep.busy_exists hr with
      ⟨-, rfl⟩ | ⟨rfl, r, hmem, huid, -, -, hgeneration, -, -, -, hacc, -⟩
    · exact h
    · simp only [triggersAbort, assignedRow_of_accepted h.lockstep hmem huid hr, Option.any_some,
        Bool.or_eq_false_iff] at htriggers
      exact h.change hl hacc hmem huid hgeneration
        (fun hurl => queueText_of_formAccepts h.lockstep hmem huid hurl hform) htriggers.2
  | _ => cases hacc

theorem attached_of_reachable (h : attachments.Reachable db) : Attached db := by
  refine Machine.Reachable.invariant attached_init ?_ h
  intro db a db' _ hdb hn
  simp only [attachments] at hn
  split at hn
  · next hok =>
    rw [Option.some.injEq] at hn
    rw [← hn]
    obtain ⟨hwf, hform⟩ := Bool.and_eq_true_iff.mp hok
    split
    · exact hdb
    · next htriggers => exact hdb.apply hwf hform (by simpa using htriggers)
  · cases hn

/-- **No dead-letter queue leads back.**  In every reachable state the graph of the desired and of
the last observed dead-letter queues of the live consumers has no cycle, so a message that is
moved from queue to queue comes to an end. -/
theorem dead_letters_acyclic (h : attachments.Reachable db) :
    Acyclic (DeadLetters db) ∧
      ∀ walk : ℕ → String, ¬ ∀ n, DeadLetters db (walk n) (walk (n + 1)) := by
  have hacyclic := (attached_of_reachable h).acyclic
  refine ⟨hacyclic, fun walk hwalk => ?_⟩
  have hedges : Acyclic (Edge (deadLetterEdges db fun _ => false)) :=
    hacyclic.mono fun _ _ => deadLetters_iff.mpr
  exact hedges.no_walk walk fun n => deadLetters_iff.mp (hwalk n)

/-! ### A run that a trigger refuses -/

/-- A consumer of a queue whose dead-letter queue is another. -/
def attachedSpec (queue deadLetterQueue : String) : Json :=
  .obj [("queue", .obj [("resourceUid", .str queue)]), ("worker", .obj [("resourceUid", .str "w")]),
    ("maxBatchSize", .num 1), ("maxBatchTimeoutSeconds", .num 0), ("maxConcurrency", .num 1),
    ("maxRetries", .num 0), ("retryDelaySeconds", .num 0),
    ("deadLetterQueue", .obj [("resourceUid", .str deadLetterQueue)])]

/-- A record, for the run below. -/
def attachRecord (id uid : Uuid) (action : V2.Action) (generation : ℕ) (spec : Json) :
    V2.AcceptRecord where
  id := id
  resourceUid := uid
  principal := "principal"
  key := toString id
  fingerprint := "fingerprint"
  action := action
  generation := generation
  acceptedAt := 0
  retainUntil := 0
  backendId := "backend"
  targetKey := "target"
  spec := spec

/-- An Operation is dispatched, and succeeds. -/
def succeedActions (id : Uuid) : List StoreAction :=
  [.claim id 7 0 100000, .markDispatch id 7 0,
    .settle id 7 { status := .succeeded, effect := .complete, now := 0, retainUntil := 0 }]

/-- A consumer of queue `a` gives up to `b`, then is to give up to `c`; meanwhile one of `b` that
gives up to `a` is refused, and one of `c` that gives up to `d` is created. -/
def attachActions : List StoreAction :=
  [.insertCreate (attachRecord 1 10 .create 1 (attachedSpec "a" "b")) queueConsumerFormUrl "space"
    "first" none (.obj []) none none false] ++ succeedActions 1 ++
  [.insertChange (attachRecord 2 10 .update 2 (attachedSpec "a" "c")) none false none none false,
    .insertCreate (attachRecord 3 20 .create 1 (attachedSpec "b" "a")) queueConsumerFormUrl "space"
      "second" none (.obj []) none none false,
    .insertCreate (attachRecord 4 30 .create 1 (attachedSpec "c" "d")) queueConsumerFormUrl "space"
      "third" none (.obj []) none none false]

theorem dead_letters_acyclic_attachActions :
    ∃ db, attachments.Reachable db ∧ db.resources.length = 2 ∧
      deadLetterEdges db (fun _ => false) = [("a", "c"), ("a", "b"), ("c", "d")] ∧
      Acyclic (DeadLetters db) := by
  obtain ⟨db, hdb, hp⟩ := Machine.exists_reachable_of_run (M := attachments) attachActions
    (fun db => decide (db.resources.length = 2 ∧
      deadLetterEdges db (fun _ => false) = [("a", "c"), ("a", "b"), ("c", "d")]))
    (by decide +kernel)
  obtain ⟨hlength, hedges⟩ := of_decide_eq_true hp
  exact ⟨db, hdb, hlength, hedges, (dead_letters_acyclic hdb).1⟩

end Takoserver.Queue
