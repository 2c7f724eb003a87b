import Takoserver.Queue.Attempts
import Takoserver.Queue.Consumers
import Takoserver.V2.Lockstep

/-!
# The source of a transfer notice

The scheduler finds the source of a transfer notice by the number of its generation: there must
be one succeeded create or update of the source consumer with that number, and its accepted spec
must name the queue and the dead-letter queue.  The number in the notice is the custody row's,
the number of the Operation is the Resource's.  An update that keeps the policy, and a consumer
that is created after another one's deletion, let the two numbers part.

Where each generation that is installed has the number of its own Operation, or one whose
transfers an earlier Operation of that number names, every notice has its source.  The
Operation that installs a generation has succeeded before any lease of the generation is given:
a reservation is made only for a consumer that is idle.
-/

namespace Takoserver.Queue

open V2 (Db ResourceRow OperationRow StoreAction Uuid Lockstep Write Progress)

/-! ### What stands behind a notice -/

/-- A succeeded create or update of the consumer names the transfer. -/
def Backed (db : Db) (identity : Identity) (targetQueueId : String) : Prop :=
  ∃ r ∈ db.resources, ∃ o ∈ db.operations, namesTransfer identity targetQueueId r o = true ∧
    o.status = .succeeded ∧ o.effect = .complete

/-- A create or update of the consumer that names the transfer is carried out. -/
def Pending (db : Db) (identity : Identity) (targetQueueId : String) : Prop :=
  ∃ r ∈ db.resources, ∃ o ∈ db.operations, namesTransfer identity targetQueueId r o = true ∧
    o.status = .reconciling ∧ o.dispatchPossible = true

variable {db db' : Db} {identity : Identity} {target : String}

theorem mem_sourceRows {row : ResourceRow × OperationRow} :
    row ∈ sourceRows db identity target ↔ row.1 ∈ db.resources ∧ row.2 ∈ db.operations ∧
      namesTransfer identity target row.1 row.2 = true ∧ row.2.status = .succeeded ∧
        row.2.effect = .complete := by
  obtain ⟨r, o⟩ := row
  simp [sourceRows, List.mem_filter, and_assoc]

theorem uidText_injective : Function.Injective uidText := by
  intro uid uid' h
  have hdigits : Nat.toDigits 10 uid = Nat.toDigits 10 uid' := by
    simpa [uidText, Nat.toString_eq_repr] using congrArg String.toList h
  rw [← Nat.ofDigitChars_toDigits (b := 10) (n := uid) (by decide) (by decide), hdigits,
    Nat.ofDigitChars_toDigits (by decide) (by decide)]

variable {r : ResourceRow} {o : OperationRow} {id token : Uuid} {c : Call} {read : ℕ → Tables}
  {n : ℕ} {policy : RetryPolicy} {spec : QueueConsumerSpec} {clocks : List Instant}
  {acknowledged : Bool}

/-- The columns that name a transfer. -/
theorem namesTransfer_iff :
    namesTransfer identity target r o = true ↔
      uidText r.uid = identity.consumerId ∧ r.formUrl = queueConsumerFormUrl ∧
        o.resourceUid = r.uid ∧ o.generation = identity.generation ∧ o.action ≠ .delete ∧
        o.principal = r.principal ∧ o.targetKey = r.targetKey ∧
        some identity.queueId = specQueueId o.acceptedSpec ∧
        some target = specDeadLetterQueueId o.acceptedSpec := decide_eq_true_iff

theorem eq_of_mem_sourceRows (hl : Lockstep db) {x y : ResourceRow × OperationRow}
    (hx : x ∈ sourceRows db identity target) (hy : y ∈ sourceRows db identity target) : x = y := by
  obtain ⟨hxr, hxo, hxn, -⟩ := mem_sourceRows.mp hx
  obtain ⟨hyr, hyo, hyn, -⟩ := mem_sourceRows.mp hy
  obtain ⟨hxu, -, hxuid, hxg, -⟩ := namesTransfer_iff.mp hxn
  obtain ⟨hyu, -, hyuid, hyg, -⟩ := namesTransfer_iff.mp hyn
  have huid : x.1.uid = y.1.uid := uidText_injective (hxu.trans hyu.symm)
  have hres : x.1 = y.1 := Table.eq_of_key hl.uids hxr hyr huid
  have hid : x.2.id = y.2.id :=
    hl.generations _ hxo _ hyo (hxuid.trans (huid.trans hyuid.symm)) (hxg.trans hyg.symm)
  exact Prod.ext hres (Table.eq_of_key hl.ids hxo hyo hid)

theorem nodup_sourceRows (hl : Lockstep db) : (sourceRows db identity target).Nodup :=
  (List.Nodup.product (List.Nodup.of_map _ hl.uids) (List.Nodup.of_map _ hl.ids)).filter _

/-- **The lookup finds a source exactly where one stands.** -/
theorem isSome_noticeSource_iff (hl : Lockstep db) {n : Notice} :
    (noticeSource db n).isSome = true ↔ Backed db n.source n.targetQueueId := by
  constructor
  · intro h
    unfold noticeSource at h
    split at h
    · next row hrow =>
      have hmem : row ∈ sourceRows db n.source n.targetQueueId :=
        List.mem_of_mem_take (hrow ▸ List.mem_singleton_self row)
      obtain ⟨hr, ho, hn, hs, he⟩ := mem_sourceRows.mp hmem
      exact ⟨row.1, hr, row.2, ho, hn, hs, he⟩
    · cases h
  · rintro ⟨r, hr, o, ho, hn, hs, he⟩
    have hmem : (r, o) ∈ sourceRows db n.source n.targetQueueId :=
      mem_sourceRows.mpr ⟨hr, ho, hn, hs, he⟩
    have hrows : sourceRows db n.source n.targetQueueId = [(r, o)] := by
      have hnodup : (sourceRows db n.source n.targetQueueId).Nodup := nodup_sourceRows hl
      cases hl' : sourceRows db n.source n.targetQueueId with
      | nil =>
        rw [hl'] at hmem
        cases hmem
      | cons x rows =>
        have hx : x ∈ sourceRows db n.source n.targetQueueId := hl' ▸ List.mem_cons_self
        have hxo := eq_of_mem_sourceRows hl hx hmem
        cases rows with
        | nil => rw [hxo]
        | cons y =>
          have hy : y ∈ sourceRows db n.source n.targetQueueId :=
            hl' ▸ List.mem_cons_of_mem _ List.mem_cons_self
          rw [hl', List.nodup_cons] at hnodup
          exact absurd (eq_of_mem_sourceRows hl hx hy ▸ List.mem_cons_self) hnodup.1
    simp [noticeSource, hrows]

/-! ### Batches of the engine -/

/-- The columns of an Operation that name its transfers. -/
def named (o : OperationRow) : Uuid × ℕ × V2.Action × String × String × Json :=
  (o.resourceUid, o.generation, o.action, o.principal, o.targetKey, o.acceptedSpec)

theorem namesTransfer_congr {r' : ResourceRow} {o' : OperationRow} (huid : r'.uid = r.uid)
    (hp : r'.principal = r.principal) (hf : r'.formUrl = r.formUrl)
    (hk : r'.targetKey = r.targetKey) (ho : named o' = named o) :
    namesTransfer identity target r' o' = namesTransfer identity target r o := by
  simp only [named, Prod.mk.injEq] at ho
  obtain ⟨h1, h2, h3, h4, h5, h6⟩ := ho
  simp only [namesTransfer, huid, hp, hf, hk, h1, h2, h3, h4, h5, h6]

/-- A Resource stays, with the columns that never change. -/
theorem resource_of_write (hl : Lockstep db) (hw : Write db db') (hr : r ∈ db.resources) :
    ∃ r' ∈ db'.resources, r'.uid = r.uid ∧
      r'.principal = r.principal ∧ r'.formUrl = r.formUrl ∧ r'.targetKey = r.targetKey := by
  have hput : ∀ {old new : ResourceRow}, old ∈ db.resources → new.uid = old.uid →
      new.principal = old.principal → new.formUrl = old.formUrl → new.targetKey = old.targetKey →
      ∃ r' ∈ Table.put ResourceRow.uid new db.resources, r'.uid = r.uid ∧
        r'.principal = r.principal ∧ r'.formUrl = r.formUrl ∧ r'.targetKey = r.targetKey := by
    intro old new hold huid hp hf hk
    by_cases hsame : r.uid = old.uid
    · obtain rfl : r = old := Table.eq_of_key hl.uids hr hold hsame
      exact ⟨new, Table.mem_put_self hr huid.symm, huid, hp, hf, hk⟩
    · exact ⟨r, Table.mem_put_of_ne hr (by rw [huid]; exact hsame), rfl, rfl, rfl, rfl⟩
  cases hw with
  | progress hp =>
    cases hp with
    | inputs => exact ⟨r, hr, rfl, rfl, rfl, rfl⟩
    | defer => exact ⟨r, hr, rfl, rfl, rfl, rfl⟩
    | status _ _ _ _ hupdate =>
      obtain ⟨-, -, -, ⟨-, hres⟩ | ⟨-, _, hr₀, -, -, -, hres⟩⟩ := V2.Db.updateOperation_rows hupdate
      · exact ⟨r, hres ▸ hr, rfl, rfl, rfl, rfl⟩
      · rw [hres]
        exact hput (Table.find_some hr₀).1 rfl rfl rfl rfl
  | create _ _ _ _ _ _ _ _ _ _ hacc =>
    refine ⟨r, ?_, rfl, rfl, rfl, rfl⟩
    rw [hacc.resources]
    exact List.mem_append_left _ hr
  | change record references r₀ haction hreferences hr₀ huid hprincipal hlive hgeneration hfree
      hdelete hcheck hacc =>
    rw [hacc.resources]
    exact hput hr₀ rfl rfl rfl rfl

theorem Backed.write (hl : Lockstep db) (hw : Write db db') (h : Backed db identity target) :
    Backed db' identity target := by
  obtain ⟨r, hr, o, ho, hn, hs, he⟩ := h
  obtain ⟨r', hr', huid, hp, hf, hk⟩ := resource_of_write hl hw hr
  refine ⟨r', hr', o, hl.terminal_mem_write hw ho (by rw [hs]; rfl), ?_, hs, he⟩
  rw [namesTransfer_congr huid hp hf hk rfl]
  exact hn

variable {condition : OperationRow → Bool} {set : OperationRow → OperationRow}
  {clock : Instant → Instant → Prop} {row : Option Custody}

/-- A conditional status update leaves an Operation, or updates it where it meets the
condition. -/
theorem mem_of_updateWhere {changed : Bool} (hl : Lockstep db)
    (h : db.updateWhere id condition set = some (db', changed)) (ho : o ∈ db.operations) :
    o ∈ db'.operations ∨
      (condition o = true ∧ db.operation id = some o ∧ set o ∈ db'.operations) := by
  rcases V2.Db.updateWhere_some h with ⟨-, rfl⟩ | ⟨-, old, hold, hfind, -, hcondition, hu⟩
  · exact Or.inl ho
  · by_cases hsame : o.id = old.id
    · obtain rfl : o = old := Table.eq_of_key hl.ids ho hold hsame
      exact Or.inr ⟨hcondition, hfind, V2.mem_updateOperation_self ho hu⟩
    · exact Or.inl (V2.mem_of_ne_updateOperation hu ho hsame)

/-- `run` carries the Operation out. -/
def carriedOut (o : OperationRow) : Prop := o.status = .reconciling ∧ o.dispatchPossible = true

/-- The Operation is still carried out, or has succeeded. -/
def advanced (db : Db) (o : OperationRow) : Prop :=
  ∃ o' ∈ db.operations, named o' = named o ∧
    (carriedOut o' ∨ (o'.status = .succeeded ∧ o'.effect = .complete))

theorem advanced_of_mem (h : carriedOut o) (ho : o ∈ db.operations) :
    advanced db o := ⟨o, ho, rfl, Or.inl h⟩

/-- An update that asks for another status leaves an Operation that is carried out. -/
theorem advanced_of_updateWhere (hl : Lockstep db) (ho : o ∈ db.operations)
    (hcarried : carriedOut o)
    (hset : condition o = true → db.operation id = some o → named (set o) = named o ∧
      (carriedOut (set o) ∨ ((set o).status = .succeeded ∧ (set o).effect = .complete))) :
    advanced (((db.updateWhere id condition set).map Prod.fst).getD db) o := by
  refine V2.effect_of_results (P := fun db => advanced db o) (advanced_of_mem hcarried ho)
    fun db' changed h => ?_
  rcases mem_of_updateWhere hl h ho with hmem | ⟨hcondition, hfind, hmem⟩
  · exact advanced_of_mem hcarried hmem
  · exact ⟨set o, hmem, hset hcondition hfind⟩

variable {s s' : Consumers} {finalRead : ℕ} {a : StoreAction}

section

variable (hl : Lockstep s.db) (hwf : a.wellFormed s.db = true)
  (hpermits : s.permitsStore finalRead a = true)

include hl hwf hpermits

/-- **An Operation of a consumer that is carried out goes on or succeeds**, whatever batch of the
engine comes next. -/
theorem advanced_of_apply (hr : r ∈ s.db.resources) (hform : r.formUrl = queueConsumerFormUrl)
    (ho : o ∈ s.db.operations) (huid : o.resourceUid = r.uid) (hcarried : carriedOut o) :
    advanced (a.apply s.db) o := by
  -- a batch that asks for an Operation that runs, or waits, is not about this one
  have hother : ∀ {u : V2.Status}, o.status = u → u ≠ .reconciling → False :=
    fun h hne => hne (h.symm.trans hcarried.1)
  cases a with
  | insertCreate | insertChange =>
    rcases V2.accepted_apply hl.busy_exists hwf rfl with heq | ⟨_, _, hacc, -⟩
    · rw [heq]
      exact advanced_of_mem hcarried ho
    · exact advanced_of_mem hcarried (hacc.operations ▸ List.mem_append_left _ ho)
  | defer id =>
    simp only [StoreAction.apply, V2.Db.defer]
    split
    · exact advanced_of_mem hcarried ho
    · next old hold =>
      have hmem := (Table.find_some (Option.filter_eq_some_iff.mp hold).1).1
      by_cases hsame : o.id = old.id
      · obtain rfl : o = old := Table.eq_of_key hl.ids ho hmem hsame
        exact ⟨_, Table.mem_put_self ho rfl, rfl, Or.inl hcarried⟩
      · exact advanced_of_mem hcarried (Table.mem_put_of_ne ho hsame)
  | claim =>
    refine advanced_of_updateWhere hl ho hcarried fun _ _ => ⟨rfl, Or.inl ⟨?_, hcarried.2⟩⟩
    simp [hcarried.2]
  | markDispatch =>
    refine advanced_of_updateWhere hl ho hcarried fun h _ => (hother (u := .running) ?_ ?_).elim
    · simpa using (Bool.and_eq_true_iff.mp h).2
    · decide
  | waitForInputs =>
    refine advanced_of_updateWhere hl ho hcarried fun h _ => (hother (u := .running) ?_ ?_).elim
    · simp only [Bool.and_eq_true, beq_iff_eq] at h
      exact h.1.1.1.2
    · decide
  | failUnverifiable =>
    refine advanced_of_updateWhere hl ho hcarried fun h _ => (hother (u := .running) ?_ ?_).elim
    · simp only [Bool.and_eq_true, beq_iff_eq] at h
      exact h.1.2
    · decide
  | replenish id inputs =>
    -- only the private inputs may have changed before the update
    refine V2.effect_of_results (P := fun db => advanced db o) (advanced_of_mem hcarried ho)
      fun db' changed h => ?_
    simp only [V2.Db.replenish, Option.map_eq_some_iff] at h
    obtain ⟨⟨db₁, changed'⟩, h, heq⟩ := h
    obtain rfl : db₁ = db' := (Prod.mk.inj heq).1
    have hstays : ∀ {db₀ : Db} {condition set}, Lockstep db₀ → o ∈ db₀.operations →
        (condition o = true → o.status = .waitingInput) →
        db₀.updateWhere id condition set = some (db₁, changed') → advanced db₁ o := by
      intro db₀ condition set hl₀ ho₀ hwaiting h
      rcases mem_of_updateWhere hl₀ h ho₀ with hmem | ⟨hcondition, -⟩
      · exact advanced_of_mem hcarried hmem
      · exact (hother (hwaiting hcondition) (by decide)).elim
    refine hstays ?_ ?_ ?_ h
    · split
      · exact hl.of_columns rfl rfl
      · exact hl
    · split <;> exact ho
    · intro hcondition
      simp only [V2.Db.awaitsInputs, Bool.and_eq_true, beq_iff_eq] at hcondition
      exact hcondition.1.1.1
  | settle =>
    refine advanced_of_updateWhere hl ho hcarried fun h hfind => ⟨rfl, ?_⟩
    have hres : s.db.resource o.resourceUid = some r := by
      rw [huid]
      exact Table.find_of_mem hl.uids hr
    simp only [Consumers.permitsStore, hfind, hres, hform, Option.all_some, Consumers.runEnds,
      ne_eq, not_true_eq_false, decide_false, Bool.false_or] at hpermits
    split at hpermits
    · next hstatus => exact Or.inl ⟨hstatus, hcarried.2⟩
    · next hstatus =>
      exact Or.inr ⟨hstatus, of_decide_eq_true (Bool.and_eq_true_iff.mp hpermits).1⟩
    · cases hpermits

theorem Pending.apply (h : Pending s.db identity target) :
    Backed (a.apply s.db) identity target ∨ Pending (a.apply s.db) identity target := by
  obtain ⟨r, hr, o, ho, hn, hs, hd⟩ := h
  have hnames := namesTransfer_iff.mp hn
  have hw : Write s.db (a.apply s.db) := V2.write_apply hl.busy_exists hwf
  obtain ⟨r', hr', huid, hp, hf, hk⟩ := resource_of_write hl hw hr
  obtain ⟨o', ho', hsame, hstands⟩ := advanced_of_apply hl hwf hpermits hr hnames.2.1 ho
    hnames.2.2.1 ⟨hs, hd⟩
  have hn' : namesTransfer identity target r' o' = true := by
    rw [namesTransfer_congr huid hp hf hk hsame]
    exact hn
  rcases hstands with ⟨hs', hd'⟩ | ⟨hs', he'⟩
  · exact Or.inr ⟨r', hr', o', ho', hn', hs', hd'⟩
  · exact Or.inl ⟨r', hr', o', ho', hn', hs', he'⟩

end

theorem not_pending_of_idle (hl : Lockstep db) (hr : r ∈ db.resources)
    (huid : uidText r.uid = identity.consumerId) (hidle : r.busyOperation = none) :
    ¬ Pending db identity target := by
  rintro ⟨r', hr', o, ho, hn, hs, -⟩
  obtain ⟨huid', -, hres, -⟩ := namesTransfer_iff.mp hn
  obtain rfl : r' = r :=
    Table.eq_of_key hl.uids hr' hr (uidText_injective (huid'.trans huid.symm))
  obtain ⟨x, hx, hxu, hbusy, -⟩ := hl.pending o ho (by rw [hs]; rfl)
  rw [Table.eq_of_key hl.uids hx hr' (hxu.trans hres), hidle] at hbusy
  cases hbusy

/-! ### Leases and notices -/

/-- The transfers of all leases and notices are of a kind. -/
structure Tables.Transfers (B : Identity → String → Prop) (t : Tables) : Prop where
  leased : ∀ m ∈ t.messages, ∀ l, m.lease = some l → ∀ q ∈ l.policy.deadLetterQueue,
    B (m.holder l) q.queueId
  noticed : ∀ n ∈ t.notices, B n.source n.targetQueueId

variable {B : Identity → String → Prop} {lic : Licence} {t t' : Tables}

theorem Tables.Transfers.of_subset (h : t.Transfers B)
    (hm : ∀ m' ∈ t'.messages, ∀ l', m'.lease = some l' → ∃ m ∈ t.messages, ∃ l,
      m.lease = some l ∧ m'.holder l' = m.holder l ∧ l'.policy = l.policy)
    (hn : t'.notices ⊆ t.notices) : t'.Transfers B := by
  refine ⟨?_, fun n hmem => h.noticed n (hn hmem)⟩
  intro m' hm' l' hl' q hq
  obtain ⟨m, hmem, l, hl, hholder, hpolicy⟩ := hm m' hm' l' hl'
  rw [hholder]
  exact h.leased m hmem l hl q (hpolicy ▸ hq)

section

variable (hlic : ∀ m l, lic.leases m l → ∀ q ∈ l.policy.deadLetterQueue, B (m.holder l) q.queueId)
  (h : t.Transfers B)

include hlic h

/-- An effect keeps the kind, where the leases it may give are of it. -/
theorem Tables.Transfers.effect (hstep : Effect lic t t') : t'.Transfers B := by
  cases hstep with
  | admitted m _ hlease _ =>
    refine h.of_subset ?_ (List.Subset.refl _)
    intro m' hm' l' hl'
    rcases List.mem_append.mp hm' with hm' | hm'
    · exact ⟨m', hm', l', hl', rfl, rfl⟩
    · rw [List.mem_singleton.mp hm', hlease] at hl'
      cases hl'
  | turned p f hturn =>
    refine ⟨?_, h.noticed⟩
    intro m' hm' l' hl'
    rcases Table.mem_update.mp hm' with ⟨hm', -⟩ | ⟨m, hm, hp, rfl⟩
    · exact h.leased m' hm' l' hl'
    generalize hf : f m = m' at hl'
    have hstep := hturn m hm hp
    rw [hf] at hstep
    cases hstep with
    | leased l d _ _ _ hl =>
      obtain rfl : l = l' := Option.some.inj hl'
      exact hlic m l hl
    | unleased => cases hl'
    | renewed l expiresAt hl =>
      obtain rfl : { l with expiresAt } = l' := Option.some.inj hl'
      exact h.leased m hm l hl
  | refunded =>
    refine h.of_subset (fun m' hm' l' hl' => ?_) (List.Subset.refl _)
    rcases Table.mem_update.mp hm' with ⟨hm', -⟩ | ⟨m, -, -, rfl⟩
    · exact ⟨m', hm', l', hl', rfl, rfl⟩
    · cases hl'
  | deleted =>
    exact h.of_subset (fun m hm l hl => ⟨m, (Table.mem_delete.mp hm).1, l, hl, rfl, rfl⟩)
      (List.Subset.refl _)
  | transferred _ m l q _ _ hm _ _ hl _ hq =>
    refine ⟨?_, ?_⟩
    · intro m' hm' l' hl'
      rcases List.mem_append.mp hm' with hm' | hm'
      · exact h.leased m' (Table.mem_delete.mp hm').1 l' hl'
      · rw [List.mem_singleton.mp hm'] at hl'
        cases hl'
    · intro n hn
      rcases mem_upsertNotice hn with hn | rfl
      · exact h.noticed n hn
      · -- the notice is one of the lease of the message
        refine h.leased m hm l hl q ?_
        simpa [Message.deadLetterQueue, hl] using hq
  | unnoticed n =>
    refine h.of_subset (fun m hm l hl => ⟨m, hm, l, hl, rfl, rfl⟩) ?_
    exact fun x hx => (Table.mem_delete.mp hx).1
  | _ => exact h.of_subset (fun m hm l hl => ⟨m, hm, l, hl, rfl, rfl⟩) (List.Subset.refl _)

theorem Tables.Transfers.move (hstep : Move lic clock t t') : t'.Transfers B := by
  cases hstep with
  | ticked =>
    exact h.of_subset (fun m hm l hl => ⟨m, hm, l, hl, rfl, rfl⟩) (List.Subset.refl _)
  | effect _ hstep => exact h.effect hlic hstep
  | marked _ hstep =>
    cases hstep <;>
      exact h.of_subset (fun m hm l hl => ⟨m, hm, l, hl, rfl, rfl⟩) (List.Subset.refl _)

end

theorem Tables.Transfers.mono {B' : Identity → String → Prop} (h : t.Transfers B)
    (hB : ∀ identity target, B identity target → B' identity target) : t.Transfers B' :=
  ⟨fun m hm l hl q hq => hB _ _ (h.leased m hm l hl q hq), fun n hn => hB _ _ (h.noticed n hn)⟩

/-! ### Executions and the generations in custody -/

/-- An execution is one there was, or a reservation that may be made of the generation in
custody. -/
theorem reservation_of_effect (hstep : Effect lic t t') {e' : Execution}
    (he' : e' ∈ t'.executions) :
    (∃ e ∈ t.executions, e.toReservation = e'.toReservation) ∨
      (lic.reserves e'.toReservation ∧ t.inCustody e'.toIdentity [.active] = true) := by
  cases hstep with
  | reserved e _ _ _ hc hr =>
    rcases List.mem_append.mp he' with he' | he'
    · exact Or.inl ⟨e', he', rfl⟩
    · rw [List.mem_singleton.mp he']
      exact Or.inr ⟨hr, hc⟩
  | bound =>
    rcases Table.mem_update.mp he' with ⟨he', -⟩ | ⟨e, he, -, rfl⟩
    · exact Or.inl ⟨e', he', rfl⟩
    · exact Or.inl ⟨e, he, rfl⟩
  | executed p f hturn =>
    rcases Table.mem_update.mp he' with ⟨he', -⟩ | ⟨e, he, hp, rfl⟩
    · exact Or.inl ⟨e', he', rfl⟩
    · exact Or.inl ⟨e, he, (hturn e he hp).keeps.1.symm⟩
  | _ => exact Or.inl ⟨e', he', rfl⟩

theorem reservation_of_moves (hmoves : Moves lic clock t t') :
    ∀ e' ∈ t'.executions, (∃ e ∈ t.executions, e.toReservation = e'.toReservation) ∨
      lic.reserves e'.toReservation := by
  refine Moves.invariant (P := fun u => ∀ e' ∈ u.executions,
    (∃ e ∈ t.executions, e.toReservation = e'.toReservation) ∨ lic.reserves e'.toReservation)
    ?_ hmoves fun e' he' => Or.inl ⟨e', he', rfl⟩
  rintro u v hu (⟨_, -⟩ | ⟨_, hstep⟩ | ⟨_, hstep⟩) e' he'
  · exact hu e' he'
  · rcases reservation_of_effect hstep he' with ⟨e, he, heq⟩ | ⟨hr, -⟩
    · rw [← heq]
      exact hu e he
    · exact Or.inr hr
  · cases hstep <;> exact hu e' he'

theorem generation_of_mem (hkeys : (t.custody.map fun c => c.queueId).Nodup) {c : Custody}
    (hc : c ∈ t.custody) : t.generation c.queueId = c.generation := by
  have hfind : Table.find (fun c : Custody => c.queueId) t.custody c.queueId = some c :=
    Table.find_of_mem hkeys hc
  rw [Tables.generation, Tables.custodyOf]
  unfold Table.find at hfind
  rw [hfind]
  rfl

theorem generation_of_execution {s : Host} (h : queues.Reachable s) :
    ∀ e ∈ s.tables.executions, e.generation ≤ s.tables.generation e.queueId := by
  let P : Tables → Prop := fun t => Fenced t ∧ ∀ e ∈ t.executions,
    e.generation ≤ t.generation e.queueId
  refine (tables_invariant (P := P) ⟨⟨List.nodup_nil, by simp, by simp⟩, by simp⟩ ?_ ?_ h).1.2
  · rintro t t' ⟨hfenced, ht⟩ (⟨_, -⟩ | ⟨_, hstep⟩ | ⟨_, hstep⟩)
    · exact ⟨hfenced.of_subset rfl (fun m hm l hl => ⟨m, hm, l, hl, rfl⟩) (List.Subset.refl _), ht⟩
    · refine ⟨hfenced.effect hstep, fun e' he' => ?_⟩
      have hgeneration : t'.generation e'.queueId = t.generation e'.queueId := by
        simp only [Tables.generation, Tables.custodyOf, hstep.custody_eq]
      rw [hgeneration]
      rcases reservation_of_effect hstep he' with ⟨e, he, heq⟩ | ⟨-, hc⟩
      · have hle := ht e he
        rwa [heq] at hle
      · obtain ⟨c, hc, hid, -⟩ := serves_of_inCustody hc (by simp)
        have hg := generation_of_mem hfenced.keys hc
        rw [← hid, hg]
    · cases hstep <;> exact ⟨hfenced.of_subset rfl (fun m hm l hl => ⟨m, hm, l, hl, rfl⟩)
        (List.Subset.refl _), ht⟩
  · rintro t _ ⟨hfenced, ht⟩ hstep
    refine ⟨hfenced.succession hstep, ?_⟩
    intro e he
    have hsame := (fields_of_succession (Relation.ReflGen.single hstep)).2.2.2.1
    rw [hsame] at he
    rcases hstep.generation e.queueId with hg | hg
    · rw [hg]
      exact ht e he
    · rw [hg]
      exact Nat.le_succ_of_le (ht e he)

/-! ### What `run` does to custody rows -/

theorem moves_of_next {s s' : Host} {a : Action} (hs : queues.Reachable s)
    (hturns : a.turnsCustody = false) (hn : queues.next s a = some s') :
    Moves (a.licence s) (fun _ _ => True) s.tables s'.tables := by
  have hcases := (next_cases (Licence.le_refl _) (isChain_trivial _) (fun c i j r hplan => Or.inr
    (find_of_plan (registered_of_reachable hs) (recorded_of_reachable hs) hplan)) hn).1
  rcases hcases with hmoves | ⟨hturns', -⟩
  · exact hmoves
  · rw [hturns] at hturns'
    cases hturns'

/-- The fence of a call of `run`. -/
def Call.owned : Call → Bool
  | .attach _ _ _ owned _ | .beginRetiring _ _ owned | .replace _ _ owned => owned
  | _ => true

/-- The row is of a generation that was there, or of the next one of its queue, which the call
installs under its fence. -/
def Installed (c : Call) (read : ℕ → Tables) (t : Tables) (x : Custody) : Prop :=
  (∃ y ∈ t.custody, y.toConsumerGeneration = x.toConsumerGeneration) ∨
    (c.installs read = some x.toConsumerGeneration ∧ c.owned = true ∧
      t.generation x.queueId < x.generation)

theorem installed_of_update {p : Tables → Custody → Bool} {f : Custody → Custody}
    (h : updateCustody p f t = some (t', n))
    (hf : ∀ y ∈ t.custody, p t y = true → Installed c read t (f y)) :
    ∀ x ∈ t'.custody, Installed c read t x := by
  simp only [updateCustody, Option.some.injEq, Prod.mk.injEq] at h
  rw [← h.1]
  intro x hx
  rcases Table.mem_update.mp hx with ⟨hx, -⟩ | ⟨y, hy, hp, rfl⟩
  · exact Or.inl ⟨x, hx, rfl⟩
  · exact hf y hy hp

theorem installed_of_attach (hkeys : (t.custody.map fun c => c.queueId).Nodup)
    {queueId uid : String} {owned : Bool} {custodyRead : ℕ}
    (h : attachStatement queueId uid policy owned ((read custodyRead).custodyOf queueId) t =
      some (t', n)) :
    ∀ x ∈ t'.custody, Installed (.attach queueId uid policy owned custodyRead) read t x := by
  cases hrow : (read custodyRead).custodyOf queueId with
  | none =>
    simp only [attachStatement, hrow, insertCustody] at h
    split at h
    · next hp =>
      simp only [Bool.and_eq_true, Option.isNone_iff_eq_none] at hp
      rw [hp.1.2] at h
      simp only [Option.isSome_none, Bool.false_eq_true, if_false, Option.some.injEq,
        Prod.mk.injEq] at h
      rw [← h.1]
      intro x hx
      rcases Table.mem_insert.mp hx with hx | rfl
      · exact Or.inl ⟨x, hx, rfl⟩
      · refine Or.inr ⟨by simp [Call.installs, hrow], hp.1.1, ?_⟩
        simp [Tables.generation, hp.1.2]
    · cases h
      exact fun x hx => Or.inl ⟨x, hx, rfl⟩
  | some row =>
    simp only [attachStatement, hrow] at h
    refine installed_of_update h fun y hy hp => Or.inr ⟨by simp [Call.installs, hrow, Custody.replaced], ?_, ?_⟩
    · exact (Bool.and_eq_true_iff.mp hp).2
    · simp only [Bool.and_eq_true, decide_eq_true_eq] at hp
      have hg := generation_of_mem hkeys hy
      rw [hp.1.1.1.1] at hg
      show t.generation queueId < row.generation + 1
      rw [hg, hp.1.1.1.2.2.1]
      exact Nat.lt_succ_self _

theorem installed_of_replace (hkeys : (t.custody.map fun c => c.queueId).Nodup)
    {identity : Identity} {policy : Option RetryPolicy} {owned : Bool}
    (h : replaceStatement identity identity.consumerId policy owned t = some (t', n)) :
    ∀ x ∈ t'.custody, Installed (.replace identity policy owned) read t x := by
  refine installed_of_update h fun y hy hp => ?_
  simp only [Bool.and_eq_true, decide_eq_true_eq] at hp
  cases policy with
  | none => exact Or.inl ⟨y, hy, rfl⟩
  | some =>
    refine Or.inr ⟨rfl, hp.2, ?_⟩
    have hg := generation_of_mem hkeys hy
    obtain rfl : y.toIdentity = identity := hp.1.1.1.1
    show t.generation y.queueId < y.generation + 1
    rw [hg]
    exact Nat.lt_succ_self _

/-- **What a call of `run` leaves in custody**: the generations that were there, and one that it
installs under its fence. -/
theorem installed_of_run {h₀ h₁ : Host} {owns : Bool} (hreach : queues.Reachable h₀)
    (hruns : Consumers.runCalls o spec policy owns row c = true)
    (hn : queues.next h₀ (.call c clocks acknowledged) = some h₁) :
    ∀ x ∈ h₁.tables.custody, Installed c h₀.read h₀.tables x := by
  obtain ⟨sts, _, hsts, hcommit, -⟩ := next_call hn
  have hkeys := (fenced_of_reachable hreach).keys
  have hticked : (h₀.tables.ticked clocks).custody = h₀.tables.custody := by cases clocks <;> rfl
  have hgeneration : ∀ q, (h₀.tables.ticked clocks).generation q = h₀.tables.generation q := by
    intro q
    simp only [Tables.generation, Tables.custodyOf, hticked]
  -- the one statement runs after the clock has moved
  have hsingle : ∀ {st : Statement Tables}, sts = [st] →
      (∀ t' n, st (h₀.tables.ticked clocks) = some (t', n) →
        ∀ x ∈ t'.custody, Installed c h₀.read (h₀.tables.ticked clocks) x) →
      ∀ x ∈ h₁.tables.custody, Installed c h₀.read h₀.tables x := by
    intro st hst hall x hx
    rw [hst] at hcommit
    obtain ⟨n, hrun, -⟩ := Tables.commit_singleton hcommit
    have hx' := hall _ n hrun x hx
    simpa only [Installed, hticked, hgeneration] using hx'
  by_cases hturns : c.turnsCustody = true
  · cases c with
    | attach =>
      simp only [Call.statements] at hsts
      split at hsts
      · next hrow =>
        split at hsts
        · refine hsingle (Option.some.inj hsts).symm fun t' n hrun => ?_
          exact installed_of_attach (hticked ▸ hkeys) (hrow ▸ hrun)
        · cases hsts
      · next hrow =>
        split at hsts
        · refine hsingle (Option.some.inj hsts).symm fun t' n hrun => ?_
          exact installed_of_attach (hticked ▸ hkeys) (hrow ▸ hrun)
        · cases hsts
    | beginRetiring =>
      refine hsingle (Option.some.inj hsts).symm fun t' n hrun => ?_
      exact installed_of_update hrun fun y hy _ => Or.inl ⟨y, hy, rfl⟩
    | replace =>
      simp only [Call.statements] at hsts
      split at hsts
      · refine hsingle (Option.some.inj hsts).symm fun t' n hrun => ?_
        exact installed_of_replace (hticked ▸ hkeys) hrun
      · cases hsts
    | activateConsumer => cases hruns
    | beginRetirement => cases hruns
    | finishRetirement => cases hruns
    | _ => cases hturns
  · intro x hx
    have hmoves := moves_of_next hreach (by simpa [Action.turnsCustody] using hturns) hn
    rw [hmoves.custody_eq] at hx
    exact Or.inl ⟨x, hx, rfl⟩

/-! ### Aligned runs -/

/-- The generation is in custody, or was at some time. -/
def Host.Knows (s : Host) (g : ConsumerGeneration) : Prop :=
  ∃ t ∈ s.tables :: s.past, ∃ c ∈ t.custody, c.toConsumerGeneration = g

/-- The Operation behind each transfer of the generation has succeeded. -/
def BackedAll (db : Db) (g : ConsumerGeneration) : Prop :=
  ∀ q ∈ g.policy.deadLetterQueue, Backed db g.toIdentity q.queueId

/-- What aligned steps keep. -/
structure Resolved (s : Consumers) : Prop where
  store : V2.store.Reachable s.db
  host : queues.Reachable s.host
  /-- Behind a generation stands an Operation that succeeded, or one that is carried out. -/
  custody : ∀ g, s.host.Knows g → ∀ q ∈ g.policy.deadLetterQueue,
    Backed s.db g.toIdentity q.queueId ∨ Pending s.db g.toIdentity q.queueId
  /-- Executions are reserved once the Operation has succeeded. -/
  reserved : ∀ e ∈ s.host.tables.executions, ∀ g, s.host.Knows g →
    g.toIdentity = e.toIdentity → BackedAll s.db g
  transfers : s.host.tables.Transfers (Backed s.db)

/-- A generation that is known after a step was known before, or is in custody after it. -/
theorem Host.knows_of_next {s s' : Host} {a : Action} (hn : queues.next s a = some s')
    {g : ConsumerGeneration} (h : s'.Knows g) :
    s.Knows g ∨ ∃ c ∈ s'.tables.custody, c.toConsumerGeneration = g := by
  obtain ⟨t, ht, hc⟩ := h
  rcases List.mem_cons.mp ht with rfl | ht
  · exact Or.inr hc
  · rcases (shift_of_next hn).2 with ⟨hpast, -⟩ | hpast
    · exact Or.inl ⟨t, List.mem_cons_of_mem _ (hpast ▸ ht), hc⟩
    · rw [hpast] at ht
      rcases List.mem_append.mp ht with ht | ht
      · exact Or.inl ⟨t, List.mem_cons_of_mem _ ht, hc⟩
      · rw [List.mem_singleton.mp ht] at hc
        exact Or.inr hc

theorem Host.knows_of_read {s : Host} {i : ℕ} {c : Custody} (h : c ∈ (s.read i).custody) :
    s.Knows c.toConsumerGeneration := by
  refine ⟨s.read i, ?_, c, h, rfl⟩
  unfold Host.read
  rw [List.getD_eq_getElem?_getD]
  cases hi : s.past[i]? with
  | none => exact List.mem_cons_self
  | some t => exact List.mem_cons_of_mem _ (List.mem_of_getElem? hi)

/-- **A batch of the engine keeps what stands behind the generations.** -/
theorem Resolved.store_next {s s' : Consumers} {a : StoreAction} {finalRead : ℕ} (h : Resolved s)
    (hn : consumers.next s (.store a finalRead) = some s') : Resolved s' := by
  simp only [consumers, Consumers.next] at hn
  split at hn
  swap
  · cases hn
  next hguard =>
  obtain ⟨hwf, hpermits⟩ := Bool.and_eq_true_iff.mp hguard
  cases hn
  have hl := V2.lockstep_of_reachable h.store
  have hw : Write s.db (a.apply s.db) := V2.write_apply hl.busy_exists hwf
  have hmono : ∀ identity target, Backed s.db identity target →
      Backed (a.apply s.db) identity target := fun _ _ hb => hb.write hl hw
  refine ⟨h.store.next (a := a) (by simp [V2.store, hwf]), h.host, ?_, ?_, h.transfers.mono hmono⟩
  · intro g hg q hq
    rcases h.custody g hg q hq with hb | hp
    · exact Or.inl (hmono _ _ hb)
    · exact hp.apply hl hwf hpermits
  · exact fun e he g hg hid q hq => hmono _ _ (h.reserved e he g hg hid q hq)

theorem Resolved.leases {s : Consumers} (h : Resolved s) {a : Action}
    (hpermits : s.permitsQueue a = true) (m : Message) (l : Lease)
    (hl : (a.licence s.host).leases m l) :
    ∀ q ∈ l.policy.deadLetterQueue, Backed s.db (m.holder l) q.queueId := by
  cases a with
  | call c =>
    cases c with
    | claim =>
      obtain ⟨_, ⟨hid, c, hc, rfl⟩, hholder, hpolicy⟩ := hl
      simp only [Consumers.permitsQueue, Option.any_eq_true, List.any_eq_true] at hpermits
      obtain ⟨r, -, e, he, hof⟩ := hpermits
      have hsame : c.toIdentity = e.toIdentity := by
        simp only [Execution.isOf, decide_eq_true_eq] at hof
        rw [hof.2.2]
        exact hid
      have hknown := Host.knows_of_read (List.mem_of_find?_eq_some hc)
      intro q hq
      rw [hpolicy] at hq
      have hb := h.reserved e he _ hknown hsame q hq
      rw [show m.holder l = c.toIdentity from hholder]
      exact hb
    | _ => exact hl.elim
  | _ => exact hl.elim

theorem turnsCustody_of_permitsQueue {s : Consumers} {a : Action}
    (h : s.permitsQueue a = true) : a.turnsCustody = false := by
  cases a with
  | call c => cases c <;> first | rfl | cases h
  | _ => rfl

theorem Resolved.reserves {s : Consumers} (h : Resolved s) {a : Action}
    (hpermits : s.permitsQueue a = true) {r : Reservation}
    (hr : (a.licence s.host).reserves r) {g : ConsumerGeneration} (hg : s.host.Knows g)
    (hid : g.toIdentity = r.toIdentity) : BackedAll s.db g := by
  cases a with
  | call c =>
    cases c with
    | reserve =>
      obtain ⟨rfl, rfl⟩ := hr
      simp only [Consumers.permitsQueue, Bool.not_true, Bool.false_or, servesConsumer,
        List.any_eq_true, Bool.and_eq_true, decide_eq_true_eq] at hpermits
      obtain ⟨_, hconsumer, ⟨⟨huid, -, -, -, -, -, -, hidle, -⟩, -⟩, -⟩ := hpermits
      intro q hq
      rcases h.custody g hg q hq with hb | hp
      · exact hb
      · refine absurd hp (not_pending_of_idle (V2.lockstep_of_reachable h.store) hconsumer ?_ hidle)
        rw [hid]
        exact huid
    | _ => exact hr.elim
  | _ => exact hr.elim

/-- **A delivery keeps what stands behind the generations.** -/
theorem Resolved.queue_next {s s' : Consumers} {a : Action} (h : Resolved s)
    (hn : consumers.next s (.queue a) = some s') : Resolved s' := by
  simp only [consumers, Consumers.next] at hn
  split at hn
  swap
  · cases hn
  next hpermits =>
  obtain ⟨host, hnext, rfl⟩ := Option.map_eq_some_iff.mp hn
  have hmoves := moves_of_next h.host (turnsCustody_of_permitsQueue hpermits) hnext
  have hknows : ∀ g, host.Knows g → s.host.Knows g := by
    intro g hg
    rcases Host.knows_of_next hnext hg with hg | ⟨c, hc, rfl⟩
    · exact hg
    · rw [hmoves.custody_eq] at hc
      exact ⟨s.host.tables, List.mem_cons_self, c, hc, rfl⟩
  refine ⟨h.store, h.host.next hnext, fun g hg => h.custody g (hknows g hg), ?_, ?_⟩
  · intro e' he' g hg hid
    rcases reservation_of_moves hmoves e' he' with ⟨e, he, heq⟩ | hr
    · refine h.reserved e he g (hknows g hg) (hid.trans ?_)
      rw [heq]
    · exact h.reserves hpermits hr (hknows g hg) hid
  · exact Moves.invariant (fun _ _ ht hstep => ht.move (h.leases hpermits) hstep) hmoves h.transfers

/-! ### A generation that is installed -/

theorem queueIds_of_parse {input : Json} (h : parseQueueConsumerSpec input = some spec) :
    specQueueId input = some (v2QueueId spec.queue) ∧
      specDeadLetterQueueId input = spec.deadLetterQueue.map v2QueueId := by
  obtain ⟨hqueue, hdead⟩ := texts_of_parse h
  exact ⟨by rw [specQueueId, hqueue]; rfl, by rw [specDeadLetterQueueId, hdead]⟩

theorem pending_of_installs {db : Db} {now : Instant} {tables : Tables} {g : ConsumerGeneration}
    (ho : o ∈ db.operations) (hspec : parseQueueConsumerSpec o.acceptedSpec = some spec)
    (hfits : o.action = .delete ∨ spec.fits policy = true)
    (hruns : Consumers.runCalls o spec policy (ownsV2QueueClaim db o token now)
      (tables.custodyOf (v2QueueId spec.queue)) c = true) (hinstalls : c.installs read = some g)
    (howned : c.owned = true) (hgeneration : o.generation = g.generation) :
    ∀ q ∈ g.policy.deadLetterQueue, Pending db g.toIdentity q.queueId := by
  obtain ⟨hqueueId, hdeadId⟩ := queueIds_of_parse hspec
  -- what either call says of its Operation
  have hcall : ownsV2QueueClaim db o token now = true ∧ o.action ≠ .delete ∧
      g.queueId = v2QueueId spec.queue ∧ g.consumerId = uidText o.resourceUid ∧
      g.policy = policy := by
    cases c with
    | attach =>
      simp only [Consumers.runCalls, decide_eq_true_eq] at hruns
      obtain ⟨haction, rfl, rfl, rfl, rfl⟩ := hruns
      cases hinstalls
      exact ⟨howned, by rw [haction]; decide, rfl, rfl, rfl⟩
    | replace _ replacement =>
      simp only [Consumers.runCalls, Bool.and_eq_true, decide_eq_true_eq, Option.any_eq_true]
        at hruns
      obtain ⟨⟨-, rfl, hreplacement⟩, row, hrow, rfl, huid, -⟩ := hruns
      have hq : row.queueId = v2QueueId spec.queue := by
        simpa using List.find?_some hrow
      cases replacement with
      | none => cases hinstalls
      | some =>
        cases hinstalls
        split at hreplacement
        · next haction =>
          refine ⟨howned, by rw [haction]; decide, hq, huid, Option.some.inj hreplacement⟩
        · cases hreplacement
    | _ => cases hinstalls
  obtain ⟨howns, haction, hq, huid, rfl⟩ := hcall
  simp only [ownsV2QueueClaim, Bool.and_eq_true, decide_eq_true_eq, Option.any_eq_true] at howns
  obtain ⟨⟨⟨-, hstatus, hdispatch⟩, -⟩, r, hr, hform, hprincipal, -, hkey, -⟩ := howns
  obtain ⟨hrmem, hruid⟩ := Table.find_some hr
  have hfits' := hfits.resolve_left haction
  simp only [QueueConsumerSpec.fits, decide_eq_true_eq] at hfits'
  intro q hqmem
  refine ⟨r, hrmem, o, ho, namesTransfer_iff.mpr ?_, hstatus, hdispatch⟩
  refine ⟨by rw [hruid]; exact huid.symm, hform, hruid.symm, hgeneration, haction,
    hprincipal.symm, hkey.symm, ?_, ?_⟩
  · rw [hqueueId]
    exact congrArg some hq
  · rw [hdeadId, ← hfits'.2.2, Option.mem_def.mp hqmem]
    rfl

/-- A call of `run` gives no leases and reserves nothing. -/
theorem licence_of_run {owns : Bool} (h : Consumers.runCalls o spec policy owns row c = true) :
    c.licence read = Licence.none := by
  cases c with
  | claim => cases h
  | release => cases h
  | settle => cases h
  | reserve => cases h
  | _ => rfl

theorem behind_of_installs {s : Consumers} {rowRead : ℕ} (hl : Lockstep s.db)
    (hruns : s.runs id token policy rowRead (clocks.headD s.host.tables.now) c = true)
    (haligned : s.aligned (.run id token policy rowRead c clocks acknowledged) = true)
    {g : ConsumerGeneration} (hinstalls : c.installs s.host.read = some g) (howned : c.owned = true) :
    ∀ q ∈ g.policy.deadLetterQueue,
      Backed s.db g.toIdentity q.queueId ∨ Pending s.db g.toIdentity q.queueId := by
  simp only [Consumers.runs, Option.any_eq_true, Bool.and_eq_true, Bool.or_eq_true,
    decide_eq_true_eq] at hruns
  obtain ⟨o, ho, _, hspec, hfits, hcall⟩ := hruns
  simp only [Consumers.aligned, hinstalls, Option.all_some, Option.all_eq_true, Bool.or_eq_true,
    Option.any_eq_true, decide_eq_true_eq] at haligned
  intro q hq
  rcases haligned q hq with ⟨o', ho', hgeneration⟩ | hsource
  · obtain rfl : o' = o := Option.some.inj (ho'.symm.trans ho)
    exact Or.inr (pending_of_installs (Table.find_some ho).1 hspec hfits hcall hinstalls howned
      hgeneration q hq)
  · exact Or.inl ((isSome_noticeSource_iff hl).mp hsource)

/-- **A statement of `run` keeps what stands behind the generations**, where it is aligned. -/
theorem Resolved.run_next {s s' : Consumers} {rowRead : ℕ} (h : Resolved s)
    (haligned : s.aligned (.run id token policy rowRead c clocks acknowledged) = true)
    (hn : consumers.next s (.run id token policy rowRead c clocks acknowledged) = some s') :
    Resolved s' := by
  simp only [consumers, Consumers.next] at hn
  split at hn
  swap
  · cases hn
  next hruns =>
  obtain ⟨host, hnext, rfl⟩ := Option.map_eq_some_iff.mp hn
  obtain ⟨owns, spec, o, hcall⟩ : ∃ owns spec o, Consumers.runCalls o spec policy owns
      ((s.host.read rowRead).custodyOf (v2QueueId spec.queue)) c = true := by
    simp only [Consumers.runs, Option.any_eq_true, Bool.and_eq_true] at hruns
    obtain ⟨o, -, spec, -, -, hcall⟩ := hruns
    exact ⟨_, spec, o, hcall⟩
  have hl := V2.lockstep_of_reachable h.store
  have hinstalled := installed_of_run h.host hcall hnext
  have hlicence : (Action.call c clocks acknowledged).licence s.host = Licence.none :=
    licence_of_run hcall
  have hlic : (Action.call c clocks acknowledged).licence s.host ≤ Licence.none :=
    hlicence ▸ Licence.le_refl _
  obtain ⟨u, hmoves, hturn⟩ := (shift_of_licensed_next hlic (isChain_trivial _)
    (fun c i j r hplan => Or.inr (find_of_plan (registered_of_reachable h.host)
      (recorded_of_reachable h.host) hplan)) hnext).1
  obtain ⟨hmessages, hnotices, -, hexecutions, -⟩ := fields_of_succession hturn
  -- a generation that is new is installed, under the fence, and its number is new to the queue
  have hnew : ∀ g, host.Knows g → s.host.Knows g ∨ (c.installs s.host.read = some g ∧
      c.owned = true ∧ s.host.tables.generation g.queueId < g.generation) := by
    intro g hg
    rcases Host.knows_of_next hnext hg with hg | ⟨x, hx, rfl⟩
    · exact Or.inl hg
    · rcases hinstalled x hx with ⟨y, hy, hsame⟩ | hinstall
      · exact Or.inl ⟨s.host.tables, List.mem_cons_self, y, hy, hsame⟩
      · exact Or.inr hinstall
  refine ⟨h.store, h.host.next hnext, ?_, ?_, ?_⟩
  · intro g hg
    rcases hnew g hg with hg | ⟨hinstalls, howned, -⟩
    · exact h.custody g hg
    · exact behind_of_installs hl hruns haligned hinstalls howned
  · intro e' he' g hg hid
    rw [hexecutions] at he'
    rcases reservation_of_moves hmoves e' he' with ⟨e, he, heq⟩ | hr
    · have hid' : g.toIdentity = e.toIdentity := by rw [hid, heq]
      rcases hnew g hg with hg | ⟨-, -, hlt⟩
      · exact h.reserved e he g hg hid'
      · have hle := generation_of_execution h.host e he
        rw [← hid'] at hle
        exact absurd hle (Nat.not_le_of_lt hlt)
    · exact hr.elim
  · have hu : u.Transfers (Backed s.db) :=
      Moves.invariant (fun _ _ ht hstep => ht.move (fun m l (hl : Licence.none.leases m l) => hl.elim) hstep)
        hmoves h.transfers
    exact hu.of_subset (fun m hm l hl => ⟨m, hmessages ▸ hm, l, hl, rfl, rfl⟩)
      (hnotices ▸ List.Subset.refl _)

/-- The steps of an aligned run. -/
abbrev alignedStep (s : Consumers) (a : Consumers.Step) : Prop := s.aligned a = true

theorem resolved_of_reachVia {s : Consumers} (h : consumers.ReachVia alignedStep s) :
    Resolved s := by
  refine Machine.ReachVia.invariant (P := Resolved) ?_ ?_ h
  · refine ⟨Machine.PathVia.refl _, Machine.PathVia.refl _, ?_, by simp [consumers], ?_⟩
    · rintro g ⟨t, ht, c, hc, -⟩
      have hempty : t = {} := by simpa [consumers] using ht
      rw [hempty] at hc
      cases hc
    · exact ⟨by simp [consumers], by simp [consumers]⟩
  · intro s a s' hs ha hn
    cases a with
    | store => exact hs.store_next hn
    | queue a => exact hs.queue_next hn
    | run => exact hs.run_next ha hn

/-- **Every notice has its source** in every state of an aligned run: the scheduler's lookup finds
one Resource, and there is a succeeded create or update of it at the generation of the notice
whose accepted spec names the queue and the dead-letter queue. -/
theorem notices_resolvable {s : Consumers} (h : consumers.ReachVia alignedStep s) :
    ∀ n ∈ s.host.tables.notices, (noticeSource s.db n).isSome = true ∧
      ∃ r ∈ s.db.resources, ∃ o ∈ s.db.operations, uidText r.uid = n.source.consumerId ∧
        o.resourceUid = r.uid ∧ o.action ≠ .delete ∧ o.status = .succeeded ∧
        o.generation = n.source.generation ∧
        specQueueId o.acceptedSpec = some n.source.queueId ∧
        specDeadLetterQueueId o.acceptedSpec = some n.targetQueueId := by
  have hs := resolved_of_reachVia h
  intro n hn
  have hb := hs.transfers.noticed n hn
  refine ⟨(isSome_noticeSource_iff (V2.lockstep_of_reachable hs.store)).mpr hb, ?_⟩
  obtain ⟨r, hr, o, ho, hnames, hstatus, -⟩ := hb
  obtain ⟨huid, -, hres, hgeneration, haction, -, -, hqueue, htarget⟩ := namesTransfer_iff.mp hnames
  exact ⟨r, hr, o, ho, huid, hres, haction, hstatus, hgeneration, hqueue.symm, htarget.symm⟩

/-! ### A consumer that is created, updated and delivered to -/

/-- The spec of a consumer of queue `1` without retries. -/
def retrySpec (maxBatchSize : ℚ) (deadLetterQueue : String) : Json :=
  .obj [("queue", .obj [("resourceUid", .str "1")]), ("worker", .obj [("resourceUid", .str "2")]),
    ("maxBatchSize", .num maxBatchSize), ("maxBatchTimeoutSeconds", .num 0),
    ("maxConcurrency", .num 1), ("maxRetries", .num 0), ("retryDelaySeconds", .num 0),
    ("deadLetterQueue", .obj [("resourceUid", .str deadLetterQueue)])]

/-- The policies and records of the runs below. -/
def retryPolicy (deadLetterQueue : String) : RetryPolicy :=
  ⟨0, 0, some ⟨v2QueueId deadLetterQueue, 86400, 0⟩⟩

def consumerRecord (id : Uuid) (action : V2.Action) (generation : ℕ) (spec : Json) :
    V2.AcceptRecord where
  id := id
  resourceUid := 10
  principal := "principal"
  key := toString id
  fingerprint := "fingerprint"
  action := action
  generation := generation
  acceptedAt := 0
  retainUntil := 0
  backendId := "backend"
  targetKey := "target"
  spec := spec

/-- The claim of an Operation and its dispatch. -/
def dispatchSteps (id : Uuid) : List Consumers.Step :=
  [.store (.claim id 7 0 100000) 0, .store (.markDispatch id 7 0) 0]

/-- The end of an Operation, after the last read of `run`. -/
def completeStep (id : Uuid) (finalRead : ℕ) : Consumers.Step :=
  .store (.settle id 7
    { status := .succeeded
      effect := .complete
      now := 0
      retainUntil := 0
      observed := some (.obj [("consumerAttached", .bool true)])
      output := some (.obj []) }) finalRead

def createSteps : List Consumers.Step :=
  .store (.insertCreate (consumerRecord 1 .create 1 (retrySpec 1 "3")) queueConsumerFormUrl "space"
    "consumer" none (.obj []) none none false) 0 :: dispatchSteps 1 ++
  [.run 1 7 (retryPolicy "3") 0 (.attach (v2QueueId "1") "10" (retryPolicy "3") true 0) [] true,
    completeStep 1 1]

/-- An update that keeps the policy, and one to another dead-letter queue. -/
def updateSteps : List Consumers.Step :=
  .store (.insertChange (consumerRecord 2 .update 2 (retrySpec 2 "3")) none false none none false) 0
    :: dispatchSteps 2 ++ [completeStep 2 1] ++
  .store (.insertChange (consumerRecord 3 .update 3 (retrySpec 2 "4")) none false none none false) 0
    :: dispatchSteps 3 ++
  [.run 3 7 (retryPolicy "4") 1 (.beginRetiring ⟨v2QueueId "1", "10", 1⟩ 0 true) [] true,
    .run 3 7 (retryPolicy "4") 1
      (.replace ⟨v2QueueId "1", "10", 1⟩ (some (retryPolicy "4")) true) [] true,
    completeStep 3 3]

/-- A message is admitted, claimed, sent, and returned by its handler for a retry. -/
def deliverySteps (read generation : ℕ) (deadLetterQueue : String) : List Consumers.Step :=
  let identity : Identity := ⟨v2QueueId "1", "10", generation⟩
  [.queue (.call (.admitBatch ⟨v2QueueId "1", 86400, 0⟩ [{ messageId := "m", body := [1] }] 1000)
      [] true),
    .queue (.call (.reserve
      { toIdentity := identity
        batchId := "batch"
        reservationToken := "token"
        workerUid := "2"
        consumerSpecJson := "spec"
        servingSourceOperationId := "operation"
        selectedVersionsJson := "versions"
        principal := "principal"
        space := "space"
        targetKey := "target"
        maxConcurrency := 1 } true) [1500] true),
    .queue (.call (.claim
      { toIdentity := identity
        limit := 1
        leaseMillis := 1000
        reservation := some ⟨"batch", "token"⟩ } 2000 ⟨read, read, read, read⟩
      { lease := "lease" }) [2000] true),
    .queue (.call (.registerSettlementBatch "batch"
      [{ toIdentity := identity
         leaseToken := "lease"
         messageId := "m"
         body := [1]
         enqueuedAt := 1000
         visibleAt := 1000
         attempts := 1
         policy := retryPolicy deadLetterQueue }] (some "token")) [2001] true),
    .queue (.call (.authorizeV2QueueBatchSend
      { toIdentity := identity
        batchId := "batch"
        reservationToken := "token"
        workerUid := "2"
        servingSourceOperationId := "operation"
        selected := ⟨"version", 1, "incarnation"⟩ } true) [2002] true),
    .queue (.settle (.registered
      ⟨"batch", "m", identity, "lease", { outcome := .retry }, "settlement"⟩)
      (read + 3) (read + 3) 2003 "copy" [2003] true)]

theorem notices_resolvable_createSteps :
    ∃ s, consumers.ReachVia alignedStep s ∧ ∃ n ∈ s.host.tables.notices,
      (noticeSource s.db n).isSome = true := by
  obtain ⟨s, hs, hp⟩ := Machine.exists_reachVia_of_run (M := consumers) Consumers.aligned
    (createSteps ++ deliverySteps 2 1 "3") (fun s => s.host.tables.notices.any fun _ => true)
    (by decide +kernel)
  obtain ⟨n, hn, -⟩ := List.any_eq_true.mp hp
  exact ⟨s, hs, n, hn, (notices_resolvable hs n hn).1⟩

/-- **A notice without a source.**  The update that keeps the policy takes a number of the
Resource and none of the custody row; the notices of the policy that comes next have the number
of that update, which names the former dead-letter queue. -/
theorem unresolvable_notice :
    ∃ s, consumers.Reachable s ∧ ∃ n ∈ s.host.tables.notices, noticeSource s.db n = none := by
  obtain ⟨s, hs, hp⟩ := Machine.exists_reachable_of_run (M := consumers)
    (createSteps ++ updateSteps ++ deliverySteps 4 2 "4")
    (fun s => s.host.tables.notices.any fun n => (noticeSource s.db n).isNone) (by decide +kernel)
  obtain ⟨n, hn, hnone⟩ := List.any_eq_true.mp hp
  exact ⟨s, hs, n, hn, Option.isNone_iff_eq_none.mp hnone⟩

end Takoserver.Queue
