import Takoserver.V2.Store

/-!
# What each batch writes

The inversion lemmas of the store: for each statement and each batch, the rows it
leaves where it did not abort.  Every invariant of the v2 tables is proved from
`Progress` and `Write`, which say once what a batch can do, so that no invariant opens
the statements themselves.
-/

namespace Takoserver.V2

variable {db db' : Db} {id : Uuid} {r : ResourceRow} {record : AcceptRecord}
  {references : Option (List Reference)}

namespace Db

/-! ### What the triggers leave alone -/

section Triggers

variable (db) (old new : OperationRow)

@[simp] theorem referenceSuccessReplace_resources :
    (db.referenceSuccessReplace old new).resources = db.resources := by
  unfold referenceSuccessReplace; split <;> rfl

@[simp] theorem referenceSuccessReplace_operations :
    (db.referenceSuccessReplace old new).operations = db.operations := by
  unfold referenceSuccessReplace; split <;> rfl

@[simp] theorem referenceSuccessReplace_operationReferences :
    (db.referenceSuccessReplace old new).operationReferences = db.operationReferences := by
  unfold referenceSuccessReplace; split <;> rfl

@[simp] theorem referenceSuccessReplace_referenceSets :
    (db.referenceSuccessReplace old new).referenceSets = db.referenceSets := by
  unfold referenceSuccessReplace; split <;> rfl

@[simp] theorem referenceSuccessfulDelete_resources :
    (db.referenceSuccessfulDelete old new).resources = db.resources := by
  unfold referenceSuccessfulDelete; split <;> rfl

@[simp] theorem referenceSuccessfulDelete_operations :
    (db.referenceSuccessfulDelete old new).operations = db.operations := by
  unfold referenceSuccessfulDelete; split <;> rfl

@[simp] theorem referenceSuccessfulDelete_operationReferences :
    (db.referenceSuccessfulDelete old new).operationReferences = db.operationReferences := by
  unfold referenceSuccessfulDelete; split <;> rfl

@[simp] theorem referenceSuccessfulDelete_referenceSets :
    (db.referenceSuccessfulDelete old new).referenceSets = db.referenceSets := by
  unfold referenceSuccessfulDelete; split <;> rfl

@[simp] theorem clearTransfer_resources :
    (db.clearTransfer old new).resources = db.resources := by
  unfold clearTransfer; split <;> rfl

@[simp] theorem clearTransfer_operations :
    (db.clearTransfer old new).operations = db.operations := by
  unfold clearTransfer; split <;> rfl

@[simp] theorem clearTransfer_operationReferences :
    (db.clearTransfer old new).operationReferences = db.operationReferences := by
  unfold clearTransfer; split <;> rfl

@[simp] theorem clearTransfer_referenceSets :
    (db.clearTransfer old new).referenceSets = db.referenceSets := by
  unfold clearTransfer; split <;> rfl

@[simp] theorem clearTransfer_edges : (db.clearTransfer old new).edges = db.edges := by
  unfold clearTransfer; split <;> rfl

end Triggers

/-! ### What a statement on one row does -/

theorem updateResource_some {old new : ResourceRow}
    (h : db.updateResource old new = some db') :
    old.sameIdentity new = true ∧ new.check = true ∧
      db'.resources = Table.put ResourceRow.uid new db.resources ∧
      db'.operations = db.operations ∧ db'.edges = db.edges ∧
      db'.operationReferences = db.operationReferences ∧
      db'.referenceSets = db.referenceSets := by
  unfold updateResource at h
  split at h
  · next hc =>
    simp only [Bool.and_eq_true] at hc
    cases h
    exact ⟨hc.1, hc.2, rfl, rfl, rfl, rfl, rfl⟩
  · cases h

/-- The Operation ends. -/
def Ends (old new : OperationRow) : Prop := new.status.terminal = true ∧ old.status.terminal = false

/-- The rows a status update leaves: the Operation itself and, where it ends, its
Resource. -/
theorem updateOperation_rows {old new : OperationRow}
    (h : db.updateOperation old new = some db') :
    db'.operations = Table.put OperationRow.id new db.operations ∧
      db'.operationReferences = db.operationReferences ∧
      db'.referenceSets = db.referenceSets ∧
      ((¬ Ends old new ∧ db'.resources = db.resources) ∨
        (Ends old new ∧ ∃ r, db.resource new.resourceUid = some r ∧
          r.generation = new.generation ∧ r.busyOperation = some new.id ∧
          (terminalResource r new).check = true ∧
          db'.resources = Table.put ResourceRow.uid (terminalResource r new) db.resources)) := by
  unfold updateOperation at h
  split at h
  · next hc =>
    simp only [Bool.and_eq_true] at hc
    obtain ⟨-, hguard⟩ := hc
    rw [Option.map_eq_some_iff] at h
    obtain ⟨_, hp, rfl⟩ := h
    unfold terminalProject at hp
    simp only [clearTransfer_operations, referenceSuccessfulDelete_operations,
      referenceSuccessReplace_operations, clearTransfer_resources,
      referenceSuccessfulDelete_resources, referenceSuccessReplace_resources,
      clearTransfer_operationReferences, referenceSuccessfulDelete_operationReferences,
      referenceSuccessReplace_operationReferences, clearTransfer_referenceSets,
      referenceSuccessfulDelete_referenceSets, referenceSuccessReplace_referenceSets]
    by_cases hends : Ends old new
    · obtain ⟨hn, ho⟩ := hends
      simp only [terminalGuard, hn, ho, Bool.not_false, Bool.and_true, Bool.not_true,
        Bool.false_or] at hguard
      simp only [hn, ho, Bool.not_false, Bool.and_self, if_true] at hp
      simp only [resource] at hguard hp ⊢
      cases hr : Table.find ResourceRow.uid db.resources new.resourceUid with
      | none => rw [hr] at hguard; simp at hguard
      | some r =>
        rw [hr] at hguard hp
        simp only [Bool.and_eq_true, beq_iff_eq] at hguard
        obtain ⟨-, hcheck, hres, hops, -, hrefs, hsets⟩ := updateResource_some hp
        exact ⟨hops, hrefs, hsets, Or.inr ⟨⟨hn, ho⟩, r, rfl, hguard.1.1, hguard.1.2, hcheck, hres⟩⟩
    · have hif : (new.status.terminal && !old.status.terminal) = false := by
        rw [Bool.eq_false_iff]
        intro hb
        simp only [Bool.and_eq_true, Bool.not_eq_true'] at hb
        exact hends hb
      rw [hif] at hp
      simp only [Bool.false_eq_true, if_false, Option.some.injEq] at hp
      subst hp
      exact ⟨rfl, rfl, rfl, Or.inl ⟨hends, rfl⟩⟩
  · cases h

theorem terminalProject_some {old new : OperationRow}
    (h : db.terminalProject old new = some db') :
    db'.edges = db.edges ∧ db'.operationReferences = db.operationReferences ∧
      db'.referenceSets = db.referenceSets := by
  unfold terminalProject at h
  split at h
  · split at h
    · obtain ⟨-, -, -, -, hedges, hrefs, hsets⟩ := updateResource_some h
      exact ⟨hedges, hrefs, hsets⟩
    · rw [Option.some.injEq] at h
      subst h
      exact ⟨rfl, rfl, rfl⟩
  · rw [Option.some.injEq] at h
    subst h
    exact ⟨rfl, rfl, rfl⟩

/-- The edges a status update leaves: a success retires those of its Resource that the
Operation did not ask for, a successful delete all of them. -/
theorem updateOperation_edges {old new : OperationRow}
    (h : db.updateOperation old new = some db') (e : Edge) :
    e ∈ db'.edges ↔ e ∈ db.edges ∧ (new.status = .succeeded → old.status ≠ .succeeded →
      e.referrerUid = new.resourceUid → new.action ≠ .delete ∧
        (db.referenceSets.any (fun row => row.operationId == new.id && row.sealed) = true →
          db.wanted new.id e.targetUid = true)) := by
  unfold updateOperation at h
  split at h
  · rw [Option.map_eq_some_iff] at h
    obtain ⟨db₁, hp, rfl⟩ := h
    obtain ⟨hedges, hrefs, hsets⟩ := terminalProject_some hp
    have hwanted : ∀ target, db₁.wanted new.id target = db.wanted new.id target := by
      intro target
      unfold wanted
      rw [hrefs]
    simp only [clearTransfer_edges, referenceSuccessfulDelete, referenceSuccessReplace, hsets]
    by_cases hs : new.status = .succeeded <;> by_cases ho : old.status = .succeeded <;>
      by_cases ha : new.action = .delete <;>
      by_cases hsealed : db.referenceSets.any
        (fun row => row.operationId == new.id && row.sealed) = true <;>
      simp [hs, ho, ha, hsealed, hedges, hwanted, imp_iff_not_or]
  · cases h

/-- What a status update may assign. -/
theorem updateOperation_assigns {old new : OperationRow}
    (h : db.updateOperation old new = some db') :
    new.id = old.id ∧ new.resourceUid = old.resourceUid ∧ new.principal = old.principal ∧
      new.replayKey = old.replayKey ∧ new.requestFingerprint = old.requestFingerprint ∧
      new.action = old.action ∧ new.generation = old.generation ∧
      new.privateInputsPresent = old.privateInputsPresent ∧
      new.check = true ∧ old.status.transition new.status = true := by
  unfold updateOperation at h
  split at h
  · next hc =>
    simp only [Bool.and_eq_true, OperationRow.sameIdentity, beq_iff_eq] at hc
    obtain ⟨⟨⟨hid, hcheck⟩, htrans⟩, -⟩ := hc
    obtain ⟨⟨⟨⟨⟨⟨⟨⟨⟨⟨⟨⟨h1, h2⟩, h3⟩, h4⟩, h5⟩, h6⟩, h7⟩, -⟩, -⟩, -⟩, -⟩, -⟩, h13⟩ := hid
    exact ⟨h1, h2, h3, h4, h5, h6, h7, h13, hcheck, htrans⟩
  · cases h

theorem updateOperation_acceptedSpec {old new : OperationRow}
    (h : db.updateOperation old new = some db') : new.acceptedSpec = old.acceptedSpec := by
  unfold updateOperation at h
  split at h
  · next hc =>
    simp only [Bool.and_eq_true, OperationRow.sameIdentity, beq_iff_eq] at hc
    exact hc.1.1.1.1.2
  · cases h

end Db

theorem Status.not_terminal_of_transition {old new : Status} (h : old.transition new = true) :
    old.terminal = false := by
  cases old <;> first | rfl | (cases new <;> simp [Status.transition] at h)


/-! ### Statements with a condition -/

variable {condition : OperationRow → Bool} {set : OperationRow → OperationRow}

namespace Db

theorem updateWhere_some {changed : Bool}
    (h : db.updateWhere id condition set = some (db', changed)) :
    (changed = false ∧ db' = db) ∨
      (changed = true ∧ ∃ o ∈ db.operations, db.operation id = some o ∧ o.id = id ∧
        condition o = true ∧ db.updateOperation o (set o) = some db') := by
  unfold updateWhere at h
  split at h
  · simp only [Option.some.injEq, Prod.mk.injEq] at h
    exact Or.inl ⟨h.2.symm, h.1.symm⟩
  · next o ho =>
    rw [Option.filter_eq_some_iff] at ho
    obtain ⟨hfind, hc⟩ := ho
    obtain ⟨hmem, hid⟩ := Table.find_some hfind
    rw [Option.map_eq_some_iff] at h
    obtain ⟨_, hu, heq⟩ := h
    cases heq
    exact Or.inr ⟨rfl, o, hmem, hfind, hid, hc, hu⟩

/-! ### Reference sets -/

theorem openReferrer_some {o : OperationRow} (h : db.openReferrer id = some (o, r)) :
    db.operation id = some o ∧ db.resource o.resourceUid = some r := by
  unfold openReferrer at h
  split at h
  · cases h
  · next ho =>
    split at h
    · cases h
    · next hr =>
      split at h
      · cases h
        exact ⟨ho, hr⟩
      · cases h

theorem insertEdge_some {edge : Edge} (h : db.insertEdge edge = some db') :
    ∃ edges, db' = { db with edges := edges } ∧ ∀ e, e ∈ edges ↔ e ∈ db.edges ∨ e = edge := by
  unfold insertEdge at h
  split at h
  · split at h
    · simp only [Option.some.injEq] at h
      by_cases hm : edge ∈ db.edges
      · rw [if_pos hm] at h
        refine ⟨db.edges, h.symm, fun e => ⟨Or.inl, ?_⟩⟩
        rintro (he | rfl)
        · exact he
        · exact hm
      · rw [if_neg hm] at h
        exact ⟨db.edges ++ [edge], h.symm, fun e => by simp⟩
    · cases h
  · cases h

theorem insertOperationReference_some {reference : Reference}
    (h : db.insertOperationReference id reference = some db') :
    ∃ o target edges, db.operation id = some o ∧
      db.resource reference.resourceUid = some target ∧ target.deletedAt = none ∧
      target.busyOperation = none ∧
      (∀ e, e ∈ edges ↔ e ∈ db.edges ∨ e = ⟨reference.resourceUid, o.resourceUid⟩) ∧
      db' = { db with
        operationReferences := db.operationReferences ++ [⟨id, reference⟩]
        edges := edges } := by
  unfold insertOperationReference at h
  split at h
  · next o _ target hopen htarget =>
    split at h
    · next hc =>
      simp only [Bool.and_eq_true, targetAvailable, Option.isNone_iff_eq_none] at hc
      obtain ⟨⟨-, ⟨⟨⟨⟨⟨⟨-, hlive⟩, hfree⟩, -⟩, -⟩, -⟩, -⟩⟩, -⟩ := hc
      obtain ⟨edges, rfl, hedges⟩ := insertEdge_some h
      exact ⟨o, target, edges, (openReferrer_some hopen).1, htarget, hlive, hfree, hedges, rfl⟩
    · cases h
  · cases h

end Db

/-- What the reference statements of an acceptance leave: the sealed set, its rows
and an edge from `uid` for each of them. -/
structure ReferencesWritten (db db' : Db) (id uid : Uuid) (references : Option (List Reference)) :
    Prop where
  resources : db'.resources = db.resources
  operations : db'.operations = db.operations
  sets : db'.referenceSets = db.referenceSets ++ (references.map fun _ => ⟨id, true⟩).toList
  rows : db'.operationReferences =
    db.operationReferences ++ (references.getD []).map fun reference => ⟨id, reference⟩
  kept : ∀ e ∈ db.edges, e ∈ db'.edges
  reserved : ∀ reference ∈ references.getD [], ⟨reference.resourceUid, uid⟩ ∈ db'.edges
  /-- A new edge leads to a live target that is not busy. -/
  available : ∀ e ∈ db'.edges, e ∉ db.edges → e.referrerUid = uid ∧ ∃ target,
    db.resource e.targetUid = some target ∧ target.deletedAt = none ∧ target.busyOperation = none

namespace Db

/-- The references of one set, in order. -/
theorem foldlM_insertOperationReference (uid : Uuid) (references : List Reference) :
    ∀ {db db' : Db}, (∀ o, db.operation id = some o → o.resourceUid = uid) →
      references.foldlM (fun db reference => db.insertOperationReference id reference) db =
        some db' →
      (∃ edges, db' = { db with
        operationReferences := db.operationReferences ++ references.map (fun r => ⟨id, r⟩)
        edges := edges }) ∧
      (∀ e ∈ db.edges, e ∈ db'.edges) ∧
      (∀ reference ∈ references, ⟨reference.resourceUid, uid⟩ ∈ db'.edges) ∧
      (∀ e ∈ db'.edges, e ∉ db.edges → e.referrerUid = uid ∧ ∃ target,
        db.resource e.targetUid = some target ∧ target.deletedAt = none ∧
          target.busyOperation = none) := by
  induction references with
  | nil =>
    intro db db' _ h
    simp only [List.foldlM_nil, Option.pure_def, Option.some.injEq] at h
    subst h
    exact ⟨⟨db.edges, by simp⟩, fun _ he => he, by simp, fun e he hn => absurd he hn⟩
  | cons _ _ ih =>
    intro db db' huid h
    simp only [List.foldlM_cons, Option.bind_eq_bind, Option.bind_eq_some_iff] at h
    obtain ⟨_, h₁, h₂⟩ := h
    obtain ⟨o, target, edges, ho, htarget, hlive, hfree, hedges, rfl⟩ :=
      insertOperationReference_some h₁
    obtain ⟨⟨edges', rfl⟩, hkept, hreserved, havail⟩ := ih (by exact huid) h₂
    have hou := huid o ho
    refine ⟨⟨edges', by simp⟩, fun e he => hkept e ((hedges e).mpr (Or.inl he)), ?_, ?_⟩
    · intro r hr
      rcases List.mem_cons.mp hr with rfl | hr
      · exact hkept _ ((hedges _).mpr (Or.inr (by rw [hou])))
      · exact hreserved r hr
    · intro e he hn
      by_cases h₁ : e ∈ edges
      · rcases (hedges e).mp h₁ with h₁ | rfl
        · exact absurd h₁ hn
        · exact ⟨hou, target, htarget, hlive, hfree⟩
      · exact havail e he h₁

theorem insertReferenceSet_some (h : db.insertReferenceSet id = some db') :
    (∀ row ∈ db.referenceSets, row.operationId ≠ id) ∧
      db' = { db with referenceSets := db.referenceSets ++ [⟨id, false⟩] } := by
  unfold insertReferenceSet at h
  split at h
  · next hc =>
    simp only [Bool.and_eq_true, List.all_eq_true, bne_iff_ne, ne_eq] at hc
    simp only [Option.some.injEq] at h
    exact ⟨hc.2, h.symm⟩
  · cases h

theorem sealReferenceSet_some {sets : List ReferenceSetRow}
    (hsets : db.referenceSets = sets ++ [⟨id, false⟩]) (hfresh : ∀ row ∈ sets, row.operationId ≠ id)
    (h : db.sealReferenceSet id = some db') :
    db' = { db with referenceSets := sets ++ [⟨id, true⟩] } := by
  have hopen : db.referenceSets.any (fun row => row.operationId == id && !row.sealed) = true := by
    rw [hsets]
    simp
  have hmap : (db.referenceSets.map fun row =>
      if row.operationId = id then (⟨id, true⟩ : ReferenceSetRow) else row) =
      sets ++ [⟨id, true⟩] := by
    rw [hsets, List.map_append]
    have : sets.map (fun row => if row.operationId = id then (⟨id, true⟩ : ReferenceSetRow)
        else row) = sets := by
      conv_rhs => rw [← List.map_id sets]
      refine List.map_congr_left fun row hrow => ?_
      rw [if_neg (hfresh row hrow), id_eq]
    rw [this]
    simp
  unfold sealReferenceSet at h
  rw [if_pos hopen, hmap] at h
  split at h
  · exact (Option.some.inj h).symm
  · cases h

theorem referenceWrites_some {o : OperationRow} (ho : db.operation record.id = some o)
    (hq : o.status = .queued) (h : db.referenceWrites record references = some db') :
    ReferencesWritten db db' record.id o.resourceUid references := by
  cases references with
  | none =>
    simp only [referenceWrites, Option.some.injEq] at h
    subst h
    exact ⟨rfl, rfl, by simp, by simp, fun _ he => he, by simp, fun e he hn => absurd he hn⟩
  | some references =>
    simp only [referenceWrites, ho, hq, beq_self_eq_true, if_true, Option.bind_eq_bind,
      Option.bind_eq_some_iff] at h
    obtain ⟨_, h₁, _, h₂, h₃⟩ := h
    obtain ⟨hfresh, rfl⟩ := insertReferenceSet_some h₁
    obtain ⟨⟨_, rfl⟩, hkept, hreserved, havail⟩ :=
      foldlM_insertOperationReference o.resourceUid references
        (fun p hp => by rw [show p = o from Option.some.inj (hp.symm.trans ho)]) h₂
    have hdb' := sealReferenceSet_some rfl hfresh h₃
    subst hdb'
    exact ⟨rfl, rfl, rfl, rfl, hkept, hreserved, havail⟩

theorem referenceWrites_absent (h : db.operation record.id = none) :
    db.referenceWrites record references = some db := by
  cases references <;> simp [referenceWrites, h]

/-! ### Private inputs -/

theorem privateWrites_some (h : db.privateWrites record = some db') :
    ∃ rows, db' = { db with privateInputs := rows } := by
  unfold privateWrites at h
  split at h
  · exact ⟨db.privateInputs, (Option.some.inj h).symm⟩
  · split at h
    · exact ⟨db.privateInputs, (Option.some.inj h).symm⟩
    · split at h
      · split at h
        · exact ⟨_, (Option.some.inj h).symm⟩
        · cases h
      · exact ⟨db.privateInputs, (Option.some.inj h).symm⟩

theorem privateWrites_absent (h : db.operation record.id = none) :
    db.privateWrites record = some db := by
  unfold privateWrites
  split
  · rfl
  · rw [h]

theorem configuredPrivateWrites_some (h : db.configuredPrivateWrites record = some db') :
    ∃ rows, db' = { db with configuredPrivateInputs := rows } := by
  unfold configuredPrivateWrites at h
  split at h
  · exact ⟨db.configuredPrivateInputs, (Option.some.inj h).symm⟩
  · split at h
    · split at h
      · split at h
        · exact ⟨_, (Option.some.inj h).symm⟩
        · cases h
      · exact ⟨db.configuredPrivateInputs, (Option.some.inj h).symm⟩
    · exact ⟨db.configuredPrivateInputs, (Option.some.inj h).symm⟩

/-! ### Acceptance -/

theorem insertResource_some {row : ResourceRow}
    (h : db.insertResource row = some db') :
    row.check = true ∧ (∀ r ∈ db.resources, r.uid ≠ row.uid) ∧
      db' = { db with resources := db.resources ++ [row] } := by
  unfold insertResource at h
  split at h
  · next hc =>
    simp only [Bool.and_eq_true, List.all_eq_true, bne_iff_ne, ne_eq] at hc
    exact ⟨hc.1, fun r hr => (hc.2 r hr).1, (Option.some.inj h).symm⟩
  · cases h

theorem insertOperation_some {row : OperationRow}
    (h : db.insertOperation row = some db') :
    (∀ o ∈ db.operations, o.id ≠ row.id) ∧
      (∀ o ∈ db.operations, ¬ (o.principal = row.principal ∧ o.replayKey = row.replayKey)) ∧
      db' = { db with operations := db.operations ++ [row] } := by
  unfold insertOperation at h
  split at h
  · next hc =>
    simp only [Bool.and_eq_true, List.all_eq_true, bne_iff_ne, ne_eq, Bool.not_eq_true',
      Bool.and_eq_false_iff, beq_eq_false_iff_ne] at hc
    refine ⟨fun o ho => (hc.2 o ho).1.1, fun o ho hk => ?_, (Option.some.inj h).symm⟩
    rcases (hc.2 o ho).2 with hp | hk'
    · exact hp hk.1
    · exact hk' hk.2
  · cases h

end Db

/-- What an accepted batch leaves, given the Resources it leaves. -/
structure Accepted (db db' : Db) (record : AcceptRecord) (references : Option (List Reference))
    (rows' : List ResourceRow) : Prop where
  ids : ∀ o ∈ db.operations, o.id ≠ record.id
  /-- The replay key of the principal was not taken. -/
  keys : ∀ o ∈ db.operations, ¬ (o.principal = record.principal ∧ o.replayKey = record.key)
  resources : db'.resources = rows'
  operations : db'.operations = db.operations ++ [Db.acceptedOperation record]
  sets : db'.referenceSets =
    db.referenceSets ++ (references.map fun _ => ⟨record.id, true⟩).toList
  rows : db'.operationReferences =
    db.operationReferences ++ (references.getD []).map fun reference => ⟨record.id, reference⟩
  kept : ∀ e ∈ db.edges, e ∈ db'.edges
  reserved : ∀ reference ∈ references.getD [],
    ⟨reference.resourceUid, record.resourceUid⟩ ∈ db'.edges
  available : ∀ e ∈ db'.edges, e ∉ db.edges → e.referrerUid = record.resourceUid ∧
    ∃ target ∈ rows', target.uid = e.targetUid ∧ target.deletedAt = none ∧
      target.busyOperation = none

theorem Accepted.mem_operations {db db' : Db} {record : AcceptRecord}
    {references : Option (List Reference)} {rows : List ResourceRow} {o : OperationRow}
    (h : Accepted db db' record references rows) :
    o ∈ db'.operations ↔ o ∈ db.operations ∨ o = Db.acceptedOperation record := by
  rw [h.operations]
  exact Table.mem_insert

/-- An acceptance ends no deletion. -/
theorem Accepted.deletion {db db' : Db} {record : AcceptRecord}
    {references : Option (List Reference)} {rows : List ResourceRow}
    (h : Accepted db db' record references rows) (uid : Uuid) :
    (∃ o ∈ db'.operations, o.resourceUid = uid ∧ o.action = .delete ∧ o.status = .succeeded) ↔
      ∃ o ∈ db.operations, o.resourceUid = uid ∧ o.action = .delete ∧ o.status = .succeeded := by
  constructor
  · rintro ⟨o, ho, hrest⟩
    rcases h.mem_operations.mp ho with ho | rfl
    · exact ⟨o, ho, hrest⟩
    · cases hrest.2.2
  · rintro ⟨o, ho, hrest⟩
    exact ⟨o, h.mem_operations.mpr (Or.inl ho), hrest⟩

theorem Db.operation_append (row : OperationRow)
    (h : ∀ o ∈ db.operations, o.id ≠ row.id) :
    Table.find OperationRow.id (db.operations ++ [row]) row.id = some row := by
  unfold Table.find
  rw [List.find?_append]
  have : db.operations.find? (fun o => o.id = row.id) = none := Table.find_none.mpr h
  rw [this]
  simp

theorem Accepted.of_writes {db db₁ : Db} {resources : List ResourceRow}
    (h : db₁.referenceWrites record references = some db')
    (hids : ∀ o ∈ db.operations, o.id ≠ record.id)
    (hkeys : ∀ o ∈ db.operations, ¬ (o.principal = record.principal ∧ o.replayKey = record.key))
    (hres : db₁.resources = resources)
    (hops : db₁.operations = db.operations ++ [Db.acceptedOperation record])
    (hsets : db₁.referenceSets = db.referenceSets)
    (hrows : db₁.operationReferences = db.operationReferences) (hedges : db₁.edges = db.edges) :
    Accepted db db' record references resources := by
  have hfind : db₁.operation record.id = some (Db.acceptedOperation record) := by
    unfold Db.operation
    rw [hops]
    exact Db.operation_append (Db.acceptedOperation record) hids
  have hw := Db.referenceWrites_some hfind rfl h
  refine ⟨hids, hkeys, hw.resources.trans hres, hw.operations.trans hops, ?_, ?_, ?_,
    hw.reserved, ?_⟩
  · rw [hw.sets, hsets]
  · rw [hw.rows, hrows]
  · rw [← hedges]
    exact hw.kept
  · intro e he hn
    obtain ⟨href, target, htarget, hlive, hfree⟩ := hw.available e he (by rw [hedges]; exact hn)
    obtain ⟨hmem, huid⟩ := Table.find_some htarget
    exact ⟨href, target, by rw [← hres]; exact hmem, huid, hlive, hfree⟩

namespace Db

theorem updateResource_privateInputs {old new : ResourceRow}
    (h : db.updateResource old new = some db') : db'.privateInputs = db.privateInputs := by
  unfold updateResource at h
  split at h
  · rw [← Option.some.inj h]
  · cases h

theorem referenceWrites_privateInputs {o : OperationRow}
    (ho : db.operation record.id = some o) (h : db.referenceWrites record references = some db') :
    db'.privateInputs = db.privateInputs := by
  unfold referenceWrites at h
  cases references with
  | none => rw [← Option.some.inj h]
  | some references =>
    simp only [ho] at h
    split at h
    · simp only [Option.bind_eq_bind, Option.bind_eq_some_iff] at h
      obtain ⟨_, h₁, _, h₂, h₃⟩ := h
      obtain ⟨hfresh, rfl⟩ := insertReferenceSet_some h₁
      obtain ⟨⟨_, rfl⟩, -⟩ := foldlM_insertOperationReference o.resourceUid references
        (fun p hp => by rw [show p = o from Option.some.inj (hp.symm.trans ho)]) h₂
      have hdb' := sealReferenceSet_some rfl hfresh h₃
      rw [hdb']
    · rw [← Option.some.inj h]

/-- The rows after an acceptance: as before, or with the row of the new Operation. -/
def HeldFor (db db' : Db) (record : AcceptRecord) : Prop :=
  db'.privateInputs = db.privateInputs ∨
    ∃ inputs, record.privateInputs = some inputs ∧ db'.privateInputs = db.privateInputs ++
      [⟨record.id, inputs.names, inputs.comparisonKeyId, inputs.comparisonTag,
        some inputs.transfer⟩]

theorem privateWrites_held (h : db.privateWrites record = some db') :
    db.HeldFor db' record := by
  unfold privateWrites at h
  split at h
  · exact Or.inl (by rw [← Option.some.inj h])
  · next inputs hinputs =>
    split at h
    · exact Or.inl (by rw [← Option.some.inj h])
    · split at h
      · split at h
        · exact Or.inr ⟨inputs, hinputs, by rw [← Option.some.inj h]⟩
        · cases h
      · exact Or.inl (by rw [← Option.some.inj h])

theorem HeldFor.of_writes {db db₁ db₂ db₃ : Db} (h : db₁.HeldFor db₂ record)
    (hfirst : db₁.privateInputs = db.privateInputs) (hlast : db₃.privateInputs = db₂.privateInputs)
    (ho : db₃.operation record.id = some o) (hw : db₃.referenceWrites record references = some db') :
    db.HeldFor db' record := by
  unfold HeldFor at h ⊢
  rw [referenceWrites_privateInputs ho hw, hlast, ← hfirst]
  exact h

variable {admission : Option Admission} {referenceGuard : Option (Db → Bool)} {serialize : Bool}

/-- **A create is accepted as a whole or changes nothing.** -/
theorem insertCreate_cases {form space name : String} {initialOutput : Json}
    {vetoed : Bool} {answer : Acceptance}
    (h : db.insertCreate record form space name references initialOutput admission
      referenceGuard vetoed = some (db', answer)) :
    (answer ≠ .accepted ∧ db' = db) ∨
      (answer = .accepted ∧
        (createdResource record form space name initialOutput).check = true ∧
        (∀ r ∈ db.resources, r.uid ≠ record.resourceUid) ∧
        Accepted db db' record references
          (db.resources ++ [createdResource record form space name initialOutput]) ∧
        db.HeldFor db' record) := by
  unfold insertCreate at h
  simp only [Option.bind_eq_bind] at h
  split at h
  · simp only [Option.bind_eq_some_iff] at h
    obtain ⟨_, h₁, _, h₂, _, h₃, _, h₄, _, h₅, h₆⟩ := h
    obtain ⟨hcheck, huids, rfl⟩ := insertResource_some h₁
    obtain ⟨hids, hkeys, rfl⟩ := insertOperation_some h₂
    have hheld := privateWrites_held h₃
    obtain ⟨_, rfl⟩ := privateWrites_some h₃
    obtain ⟨_, rfl⟩ := configuredPrivateWrites_some h₄
    split at h₆
    · cases h₆
    · cases h₆
      exact Or.inr ⟨rfl, hcheck, huids, Accepted.of_writes h₅ hids hkeys rfl rfl rfl rfl rfl,
        hheld.of_writes rfl (by rfl)
          (by exact operation_append (acceptedOperation record) hids) h₅⟩
  · split at h
    · cases h
    have hcode : ∀ a : Admission, a.conflictCode ≠ .accepted := by
      intro a
      unfold Admission.conflictCode
      split <;> simp
    split at h <;> simp only [Option.some.injEq, Prod.mk.injEq] at h <;> obtain ⟨rfl, rfl⟩ := h
    · refine Or.inl ⟨?_, rfl⟩
      cases hg : withReferenceGuard admission referenceGuard with
      | none => simp
      | some a => simpa using hcode a
    · exact Or.inl ⟨by simp, rfl⟩

theorem changeRefusal_ne_accepted {guarded : Option Admission} :
    db.changeRefusal record serialize guarded referenceGuard ≠ .accepted := by
  unfold changeRefusal
  split
  · simp
  · split
    · cases guarded with
      | none => simp
      | some a =>
        simp only [Option.map_some, Option.getD_some, Admission.conflictCode]
        split <;> simp
    · rw [ne_eq, ite_eq_iff]
      rintro (⟨-, h⟩ | ⟨-, h⟩) <;> cases h

theorem insertChangeOperation_some (hr : db.resource record.resourceUid = some r)
    (hlast : r.lastOperation = record.id) (hbusy : r.busyOperation = some record.id)
    (hgen : r.generation = record.generation) (h : db.insertChangeOperation record true = some db') :
    (∀ o ∈ db.operations, o.id ≠ record.id) ∧
      (∀ o ∈ db.operations, ¬ (o.principal = record.principal ∧ o.replayKey = record.key)) ∧
      ∃ rows, db' = { db with
        operations := db.operations ++ [acceptedOperation record]
        operationConfiguredPrivateInputs := rows } := by
  unfold insertChangeOperation at h
  simp only [if_true, hr, hlast, hbusy, hgen, beq_self_eq_true, Bool.and_true] at h
  split at h
  · split at h
    · rw [Option.map_eq_some_iff] at h
      obtain ⟨_, h₁, rfl⟩ := h
      obtain ⟨hids, hkeys, rfl⟩ := insertOperation_some h₁
      exact ⟨hids, hkeys, _, rfl⟩
    · cases h
  · obtain ⟨hids, hkeys, rfl⟩ := insertOperation_some h
    exact ⟨hids, hkeys, db.operationConfiguredPrivateInputs, rfl⟩

/-- Where the Resource did not change, no Operation is inserted: a Resource is busy
only with an Operation that exists, and the new id does not. -/
theorem insertChangeOperation_refused (hfresh : db.operation record.id = none)
    (hbusy : ∀ r ∈ db.resources, ∀ id, r.busyOperation = some id → db.operation id ≠ none) :
    db.insertChangeOperation record false = some db := by
  unfold insertChangeOperation
  split
  · rfl
  · split
    · rfl
    · next r hr =>
      split
      · next hc =>
        simp only [Bool.and_eq_true, beq_iff_eq] at hc
        exact absurd hfresh (hbusy r (Table.find_some hr).1 _ hc.1.2)
      · rfl

/-- What the `WHERE` of an accepted change established. -/
theorem changeGuard_true (h : db.changeGuard record serialize admission r = true) :
    r.principal = record.principal ∧ r.deletedAt = none ∧
      record.generation = r.generation + 1 ∧ r.busyOperation = none ∧
      (record.action = .delete → db.hasReferences record.resourceUid = false) := by
  simp only [changeGuard, Bool.and_eq_true, beq_iff_eq, Option.isNone_iff_eq_none] at h
  obtain ⟨⟨⟨⟨⟨⟨⟨hp, hd⟩, hg⟩, hb⟩, href⟩, -⟩, -⟩, -⟩ := h
  refine ⟨hp, hd, hg.symm, hb, fun hdel => ?_⟩
  simpa [hdel] using href

/-- **A change is accepted as a whole or changes nothing.** -/
theorem insertChange_cases {vetoed : Bool} {answer : Acceptance}
    (hfresh : db.operation record.id = none)
    (hbusy : ∀ r ∈ db.resources, ∀ id, r.busyOperation = some id → db.operation id ≠ none)
    (h : db.insertChange record references serialize admission referenceGuard vetoed =
      some (db', answer)) :
    (answer ≠ .accepted ∧ db' = db) ∨
      (answer = .accepted ∧ ∃ r ∈ db.resources, r.uid = record.resourceUid ∧
        r.principal = record.principal ∧ r.deletedAt = none ∧
        record.generation = r.generation + 1 ∧ r.busyOperation = none ∧
        (record.action = .delete → db.hasReferences record.resourceUid = false) ∧
        (changedResource r record).check = true ∧
        Accepted db db' record references
          (Table.put ResourceRow.uid (changedResource r record) db.resources) ∧
        db.HeldFor db' record) := by
  unfold insertChange at h
  simp only [Option.bind_eq_bind] at h
  cases htarget : (db.resource record.resourceUid).filter (db.changeGuard record
      (record.action == .update && serialize) (withReferenceGuard admission referenceGuard)) with
  | none =>
    -- no row matched, so no later statement finds the new Operation
    rw [htarget] at h
    simp only [Option.isSome_none, insertChangeOperation_refused hfresh hbusy, Option.bind_some,
      privateWrites_absent hfresh, referenceWrites_absent hfresh, Bool.false_eq_true,
      if_false] at h
    split at h
    · cases h
    · cases h
      exact Or.inl ⟨changeRefusal_ne_accepted, rfl⟩
  | some r =>
    rw [htarget] at h
    simp only [Option.isSome_some, if_true, Option.bind_eq_some_iff] at h
    obtain ⟨db₁, h₁, _, h₂, _, h₃, _, h₄, h₅⟩ := h
    split at h₅
    · cases h₅
    cases h₅
    rw [Option.filter_eq_some_iff] at htarget
    obtain ⟨hfind, hguard⟩ := htarget
    obtain ⟨hmem, huid⟩ := Table.find_some hfind
    obtain ⟨hp, hlive, hgen, hfree, hdel⟩ := changeGuard_true hguard
    obtain ⟨-, hcheck, hres, hops, hedges, hrows, hsets⟩ := updateResource_some h₁
    have hr₁ : db₁.resource record.resourceUid = some (changedResource r record) := by
      unfold resource at hfind ⊢
      have huid' : (changedResource r record).uid = record.resourceUid := huid
      rw [hres, Table.find_put, if_pos huid', hfind]
      rfl
    obtain ⟨hids, hkeys, _, rfl⟩ := insertChangeOperation_some hr₁ rfl rfl rfl h₂
    have hheld := privateWrites_held h₃
    obtain ⟨_, rfl⟩ := privateWrites_some h₃
    have hfirst := updateResource_privateInputs h₁
    have hfound := operation_append (acceptedOperation record) hids
    rw [hops] at hids hkeys
    refine Or.inr ⟨rfl, r, hmem, huid, hp, hlive, hgen, hfree, hdel, hcheck, ?_, ?_⟩
    · exact Accepted.of_writes h₄ hids hkeys hres (by rw [← hops]) hsets hrows hedges
    · exact hheld.of_writes hfirst rfl (by exact hfound) h₄

end Db

/-! ### What a batch of the store can write -/

/-- The writes of the batches that accept nothing. -/
inductive Progress (db : Db) : Db → Prop
  /-- Nothing, or private inputs only. -/
  | inputs (rows : List PrivateInputRow) : Progress db { db with privateInputs := rows }
  /-- One status update, after private inputs. -/
  | status {db' : Db} (rows : List PrivateInputRow) (old new : OperationRow)
      (hold : old ∈ db.operations)
      (hupdate : Db.updateOperation { db with privateInputs := rows } old new = some db') :
      Progress db db'
  /-- A candidate put off. -/
  | defer (old : OperationRow) (nextMs : Instant) (hold : old ∈ db.operations)
      (hopen : old.status.terminal = false) :
      Progress db { db with
        operations := Table.put OperationRow.id { old with nextAttemptAtMs := nextMs }
          db.operations }

/-- What a statement of the store may write. -/
inductive Write (db : Db) : Db → Prop
  | progress {db' : Db} (h : Progress db db') : Write db db'
  /-- An accepted create. -/
  | create {db' : Db} (record : AcceptRecord) (form space name : String) (initialOutput : Json)
      (references : Option (List Reference)) (haction : record.action = .create)
      (hgeneration : record.generation = 1)
      (hcheck : (Db.createdResource record form space name initialOutput).check = true)
      (huid : ∀ r ∈ db.resources, r.uid ≠ record.resourceUid)
      (haccepted : Accepted db db' record references
        (db.resources ++ [Db.createdResource record form space name initialOutput])) :
      Write db db'
  /-- An accepted update or delete. -/
  | change {db' : Db} (record : AcceptRecord) (references : Option (List Reference))
      (r : ResourceRow) (haction : record.action ≠ .create)
      (hreferences : record.action = .delete → references = none) (hr : r ∈ db.resources)
      (huid : r.uid = record.resourceUid) (hprincipal : r.principal = record.principal)
      (hlive : r.deletedAt = none) (hgeneration : record.generation = r.generation + 1)
      (hfree : r.busyOperation = none)
      (hdelete : record.action = .delete → db.hasReferences record.resourceUid = false)
      (hcheck : (Db.changedResource r record).check = true)
      (haccepted : Accepted db db' record references
        (Table.put ResourceRow.uid (Db.changedResource r record) db.resources)) :
      Write db db'

theorem Progress.refl (db : Db) : Progress db db := Progress.inputs db.privateInputs

theorem Write.refl (db : Db) : Write db db := .progress (.refl db)

/-- A conditional status update that aborts, matches nothing or succeeds. -/
theorem progress_updateWhere (rows : List PrivateInputRow) {changed : Bool}
    (h : Db.updateWhere { db with privateInputs := rows } id condition set =
      some (db', changed)) : Progress db db' := by
  rcases Db.updateWhere_some h with ⟨-, rfl⟩ | ⟨-, o, ho, -, -, -, hu⟩
  · exact Progress.inputs rows
  · exact Progress.status rows o _ ho hu

theorem effect_of_results {α : Type*} {result : Option (Db × α)} {P : Db → Prop}
    (hdb : P db) (h : ∀ db' answer, result = some (db', answer) → P db') :
    P ((result.map Prod.fst).getD db) := by
  cases result with
  | none => exact hdb
  | some p => exact h p.1 p.2 rfl

/-- What a batch accepts. -/
def StoreAction.accepts : StoreAction → Option AcceptRecord
  | .insertCreate record .. | .insertChange record .. => some record
  | _ => none

variable {action : StoreAction}

/-- **An acceptance changes nothing or accepts**, where a Resource is busy only with an Operation
that exists. -/
theorem accepted_apply
    (hbusy : ∀ r ∈ db.resources, ∀ id, r.busyOperation = some id → db.operation id ≠ none)
    (hwf : action.wellFormed db = true) (hrecord : action.accepts = some record) :
    action.apply db = db ∨ ∃ references rows,
      Accepted db (action.apply db) record references rows ∧
        db.HeldFor (action.apply db) record := by
  cases action with
  | insertCreate =>
    cases hrecord
    refine effect_of_results (P := fun db' => db' = db ∨ ∃ references rows,
      Accepted db db' record references rows ∧ db.HeldFor db' record) (Or.inl rfl)
      fun db' answer hr => ?_
    rcases Db.insertCreate_cases hr with ⟨-, heq⟩ | ⟨-, -, -, hacc⟩
    · exact Or.inl heq
    · exact Or.inr ⟨_, _, hacc⟩
  | insertChange =>
    cases hrecord
    simp only [StoreAction.wellFormed, Bool.and_eq_true, Option.isNone_iff_eq_none] at hwf
    refine effect_of_results (P := fun db' => db' = db ∨ ∃ references rows,
      Accepted db db' record references rows ∧ db.HeldFor db' record) (Or.inl rfl)
      fun db' answer hr => ?_
    rcases Db.insertChange_cases hwf.1.1 hbusy hr with
      ⟨-, heq⟩ | ⟨-, _, -, -, -, -, -, -, -, -, hacc⟩
    · exact Or.inl heq
    · exact Or.inr ⟨_, _, hacc⟩
  | _ => cases hrecord

/-- The batches that accept an Operation. -/
def StoreAction.isAcceptance : StoreAction → Bool
  | .insertCreate .. | .insertChange .. => true
  | _ => false

/-- **A batch that accepts nothing makes progress on one Operation at most.** -/
theorem progress_apply (h : action.isAcceptance = false) :
    Progress db (action.apply db) := by
  cases action with
  | insertCreate => cases h
  | insertChange => cases h
  | defer _ _ nextMs =>
    simp only [StoreAction.apply, Db.defer]
    split
    · exact Progress.refl db
    · next o ho =>
      rw [Option.filter_eq_some_iff] at ho
      refine Progress.defer o nextMs (Table.find_some ho.1).1 ?_
      have hc := ho.2
      simp only [Bool.and_eq_true, Bool.or_eq_true, beq_iff_eq] at hc
      rcases hc.2 with (hs | hs) | hs <;> rw [hs] <;> rfl
  | claim =>
    exact effect_of_results (Progress.refl db) fun db' changed h =>
      progress_updateWhere db.privateInputs h
  | markDispatch =>
    exact effect_of_results (Progress.refl db) fun db' changed h =>
      progress_updateWhere db.privateInputs h
  | waitForInputs =>
    exact effect_of_results (Progress.refl db) fun db' changed h =>
      progress_updateWhere db.privateInputs h
  | failUnverifiable =>
    exact effect_of_results (Progress.refl db) fun db' changed h =>
      progress_updateWhere db.privateInputs h
  | replenish =>
    refine effect_of_results (Progress.refl db) fun db' changed h => ?_
    simp only [Db.replenish, Option.map_eq_some_iff] at h
    obtain ⟨⟨_, _⟩, h, heq⟩ := h
    cases heq
    split at h
    · exact progress_updateWhere _ h
    · exact progress_updateWhere db.privateInputs h
  | settle =>
    exact effect_of_results (Progress.refl db) fun db' changed h =>
      progress_updateWhere db.privateInputs h

/-- **Every batch of the store is one write**, where a Resource is busy only with an
Operation that exists. -/
theorem write_apply
    (hbusy : ∀ r ∈ db.resources, ∀ id, r.busyOperation = some id → db.operation id ≠ none)
    (hwf : action.wellFormed db = true) : Write db (action.apply db) := by
  by_cases hacc : action.isAcceptance = true
  · cases action with
    | insertCreate record form space name references initialOutput =>
      simp only [StoreAction.wellFormed, Bool.and_eq_true, Option.isNone_iff_eq_none,
        beq_iff_eq] at hwf
      obtain ⟨⟨-, haction⟩, hgen⟩ := hwf
      refine effect_of_results (Write.refl db) fun db' answer hr => ?_
      rcases Db.insertCreate_cases hr with ⟨-, rfl⟩ | ⟨-, hcheck, huid, hacc, -⟩
      · exact Write.refl db'
      · exact Write.create record form space name initialOutput references haction hgen hcheck
          huid hacc
    | insertChange record references =>
      simp only [StoreAction.wellFormed, Bool.and_eq_true, Option.isNone_iff_eq_none, bne_iff_ne,
        ne_eq, Bool.or_eq_true] at hwf
      obtain ⟨⟨hfresh, haction⟩, hdel⟩ := hwf
      refine effect_of_results (Write.refl db) fun db' answer hr => ?_
      rcases Db.insertChange_cases hfresh hbusy hr with
        ⟨-, rfl⟩ | ⟨-, r, hmem, huid, hp, hlive, hgen, hfree, href, hcheck, hacc, -⟩
      · exact Write.refl db'
      · refine Write.change record references r haction (fun hd => ?_) hmem huid hp hlive hgen
          hfree href hcheck hacc
        exact hdel.resolve_left fun hn => hn hd
    | _ => cases hacc
  · exact .progress (progress_apply (by simpa using hacc))

end Takoserver.V2
