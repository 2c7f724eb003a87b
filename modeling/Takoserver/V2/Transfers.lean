import Takoserver.V2.Dispatch

/-!
# The transfers a batch leaves

Which rows of `tf_v2_private_inputs` each batch of the store writes.  An acceptance adds the
row of its own Operation, a replenishment gives a waiting Operation a new transfer, and the
two triggers of migration 0081 erase one: when the dispatch fence is written, and when an
Operation starts to wait.  The comparison columns are written once.

`failUnverifiable` ends an Operation without either of the two, so a transfer that is still
there outlives it.
-/

namespace Takoserver.V2

/-- What an acceptance commits an Operation to: the comparison columns of its private inputs. -/
structure Commitment where
  operationId : Uuid
  names : String
  comparisonKeyId : String
  comparisonTag : String

/-- What the row commits to. -/
def PrivateInputRow.commitment (row : PrivateInputRow) : Commitment :=
  ⟨row.operationId, row.names, row.comparisonKeyId, row.comparisonTag⟩

/-- What the record commits to. -/
def AcceptRecord.commitment (record : AcceptRecord) : Option Commitment :=
  record.privateInputs.map fun inputs =>
    ⟨record.id, inputs.names, inputs.comparisonKeyId, inputs.comparisonTag⟩

/-- The commitment a batch may write. -/
def StoreAction.commitment : StoreAction → Option Commitment
  | .insertCreate record .. | .insertChange record .. => record.commitment
  | _ => none

/-- The Operation may have been sent, waits for new inputs, or has ended. -/
def OperationRow.spent (o : OperationRow) : Bool :=
  o.dispatchPossible || o.status == .waitingInput || o.status.terminal

variable {db' : Db} {id : Uuid} {old new : OperationRow} {record : AcceptRecord}
  {references : Option (List Reference)} {condition : OperationRow → Bool}
  {set : OperationRow → OperationRow} {changed : Bool} {action : StoreAction}

namespace Db

/-- A transfer is held for the Operation. -/
def holdsTransfer (db : Db) (id : Uuid) : Bool :=
  db.privateInputs.any fun row => row.operationId == id && row.transfer.isSome

/-- The row `failUnverifiable` matches. -/
def unverifiable (db : Db) (id token : Uuid) : Bool :=
  ((db.operation id).filter fun o => o.leaseToken == some token && o.status == .running &&
    !o.dispatchPossible).isSome

theorem holdsTransfer_of_rows {db : Db} (h : db'.privateInputs = db.privateInputs) :
    db'.holdsTransfer id = db.holdsTransfer id := by
  rw [holdsTransfer, holdsTransfer, h]

/-! ### What each statement does to the rows -/

/-- A status update leaves the rows its last trigger leaves. -/
theorem updateOperation_privateInputs {db : Db} (h : db.updateOperation old new = some db') :
    db'.privateInputs = (db.clearTransfer old new).privateInputs := by
  unfold updateOperation at h
  split at h
  · rw [Option.map_eq_some_iff] at h
    obtain ⟨db₁, hp, rfl⟩ := h
    have hrows : db₁.privateInputs = db.privateInputs := by
      unfold terminalProject at hp
      split at hp
      · split at hp
        · have hsame := updateResource_privateInputs hp
          exact hsame
        · rw [← Option.some.inj hp]
      · rw [← Option.some.inj hp]
    have hreplace : (db₁.referenceSuccessReplace old new).privateInputs = db₁.privateInputs := by
      unfold referenceSuccessReplace
      split <;> rfl
    have hdelete : ((db₁.referenceSuccessReplace old new).referenceSuccessfulDelete old
        new).privateInputs = db₁.privateInputs := by
      unfold referenceSuccessfulDelete
      split <;> exact hreplace
    unfold clearTransfer
    split <;> simp only [hdelete, hrows]
  · cases h

theorem holdsTransfer_clearTransfer {db : Db}
    (h : (db.clearTransfer old new).holdsTransfer id = true) :
    db.holdsTransfer id = true ∧ (id = new.id →
      ((!old.dispatchPossible && new.dispatchPossible) || new.status == .waitingInput) = false) := by
  unfold clearTransfer at h
  split at h
  · next =>
    simp only [holdsTransfer, List.any_map, List.any_eq_true, Function.comp_apply,
      Bool.and_eq_true, beq_iff_eq] at h ⊢
    obtain ⟨row, hrow, hid, hsome⟩ := h
    split at hsome
    · cases hsome
    · next hne =>
      rw [if_neg hne] at hid
      exact ⟨⟨row, hrow, hid, hsome⟩, fun heq => absurd (hid.trans heq) hne⟩
  · next hc => exact ⟨h, fun _ => Bool.eq_false_iff.mpr hc⟩

theorem commitment_clearTransfer (db : Db) (old new : OperationRow) :
    (db.clearTransfer old new).privateInputs.map PrivateInputRow.commitment =
      db.privateInputs.map PrivateInputRow.commitment := by
  unfold clearTransfer
  split
  · rw [List.map_map]
    refine List.map_congr_left fun row _ => ?_
    simp only [Function.comp_apply]
    split <;> rfl
  · rfl

end Db

/-! ### What a batch commits to -/

/-- The commitments a database keeps. -/
def Db.commitments (db : Db) : List Commitment := db.privateInputs.map PrivateInputRow.commitment

variable {db : Db}

theorem Db.commitments_updateWhere
    (h : db.updateWhere id condition set = some (db', changed)) :
    db'.commitments = db.commitments := by
  rcases Db.updateWhere_some h with ⟨-, rfl⟩ | ⟨-, o, -, -, -, -, hu⟩
  · rfl
  · rw [commitments, Db.updateOperation_privateInputs hu]
    exact Db.commitment_clearTransfer db o _

theorem Db.HeldFor.commitments (h : db.HeldFor db' record) {c : Commitment}
    (hc : c ∈ db'.commitments) :
    c ∈ db.commitments ∨ record.commitment = some c := by
  unfold Db.commitments at hc ⊢
  rcases h with h | ⟨_, hinputs, h⟩
  · exact Or.inl (h ▸ hc)
  · rw [h, List.map_append, List.mem_append, List.map_singleton, List.mem_singleton] at hc
    rcases hc with hc | rfl
    · exact Or.inl hc
    · exact Or.inr (by rw [AcceptRecord.commitment, hinputs]; rfl)

/-- **A batch keeps the comparison columns, and commits to no inputs but those it accepts.** -/
theorem commitment_apply (hl : Lockstep db) (hwf : action.wellFormed db = true)
    {c : Commitment} (hc : c ∈ (action.apply db).commitments) :
    c ∈ db.commitments ∨ action.commitment = some c := by
  have hkeep : ∀ {result : Option (Db × Bool)},
      (∀ db' changed, result = some (db', changed) → db'.commitments = db.commitments) →
      c ∈ ((result.map Prod.fst).getD db).commitments → c ∈ db.commitments := by
    intro result h hc
    have hsame := effect_of_results (P := fun db' => db'.commitments = db.commitments) rfl h
    exact hsame ▸ hc
  cases action with
  | insertCreate | insertChange =>
    rcases accepted_apply hl.busy_exists hwf rfl with heq | ⟨_, _, -, hheld⟩
    · exact Or.inl (heq ▸ hc)
    · exact hheld.commitments hc
  | defer id nowMs nextMs =>
    left
    have hsame : ((db.defer id nowMs nextMs).1).privateInputs = db.privateInputs := by
      unfold Db.defer
      split <;> rfl
    unfold Db.commitments at hc ⊢
    exact hsame ▸ hc
  | claim => exact Or.inl (hkeep (fun _ _ => Db.commitments_updateWhere) hc)
  | markDispatch => exact Or.inl (hkeep (fun _ _ => Db.commitments_updateWhere) hc)
  | waitForInputs =>
    exact Or.inl (hkeep (fun _ _ => Db.commitments_updateWhere) hc)
  | failUnverifiable =>
    exact Or.inl (hkeep (fun _ _ => Db.commitments_updateWhere) hc)
  | replenish =>
    refine Or.inl (hkeep (fun db' changed h => ?_) hc)
    simp only [Db.replenish, Option.map_eq_some_iff] at h
    obtain ⟨⟨_, _⟩, h, heq⟩ := h
    cases heq
    rw [Db.commitments_updateWhere h]
    split
    · -- the first statement assigns the transfer only
      unfold Db.commitments
      rw [List.map_map]
      refine List.map_congr_left fun row _ => ?_
      simp only [Function.comp_apply]
      split <;> rfl
    · rfl
  | settle => exact Or.inl (hkeep (fun _ _ => Db.commitments_updateWhere) hc)

/-! ### Spent Operations hold no transfer -/

/-- No Operation that may have been sent, waits or has ended holds a transfer. -/
def Erased (db : Db) : Prop :=
  ∀ o ∈ db.operations, o.spent = true → db.holdsTransfer o.id = false

/-- A status update leaves `Erased`, where the other Operations were and the Operation it
spends is erased by the triggers or holds nothing. -/
theorem erased_updateOperation
    (h : ∀ x ∈ db.operations, x.id ≠ old.id → x.spent = true → db.holdsTransfer x.id = false)
    (hu : db.updateOperation old new = some db')
    (hnew : new.spent = true → db.holdsTransfer old.id = true →
      ((!old.dispatchPossible && new.dispatchPossible) || new.status == .waitingInput) = true) :
    Erased db' := by
  have hid : new.id = old.id := (Db.updateOperation_assigns hu).1
  intro x hx hspent
  by_contra hheld
  rw [Bool.not_eq_false, Db.holdsTransfer_of_rows (Db.updateOperation_privateInputs hu)] at hheld
  obtain ⟨hbefore, hclear⟩ := Db.holdsTransfer_clearTransfer hheld
  rw [(Db.updateOperation_rows hu).1, Table.mem_put] at hx
  rcases hx with ⟨hx, hne⟩ | ⟨rfl, -⟩
  · rw [h x hx (hid ▸ hne) hspent] at hbefore
    cases hbefore
  · rw [hid] at hbefore
    rw [hnew hspent hbefore] at hclear
    cases hclear rfl

theorem Erased.updateWhere (he : Erased db)
    (h : db.updateWhere id condition set = some (db', changed))
    (hnew : ∀ o ∈ db.operations, condition o = true → (set o).spent = true → o.spent = false →
      ((!o.dispatchPossible && (set o).dispatchPossible) ||
        (set o).status == .waitingInput) = true) : Erased db' := by
  rcases Db.updateWhere_some h with ⟨-, rfl⟩ | ⟨-, o, ho, -, -, hc, hu⟩
  · exact he
  · refine erased_updateOperation (fun x hx _ => he x hx) hu fun hspent hheld => ?_
    refine hnew o ho hc hspent ?_
    by_contra hold
    rw [he o ho (by simpa using hold)] at hheld
    cases hheld

variable {rows' : List ResourceRow}

theorem Erased.accepted (he : Erased db) (hacc : Accepted db db' record references rows')
    (hheld : db.HeldFor db' record) :
    Erased db' := by
  intro x hx hspent
  rw [hacc.operations, List.mem_append, List.mem_singleton] at hx
  rcases hx with hx | rfl
  · have hbefore := he x hx hspent
    rcases hheld with hrows | ⟨_, -, hrows⟩
    · rw [Db.holdsTransfer_of_rows hrows, hbefore]
    · unfold Db.holdsTransfer at hbefore ⊢
      have hne : (record.id == x.id) = false := by
        rw [beq_eq_false_iff_ne]
        exact fun heq => hacc.ids x hx heq.symm
      rw [hrows, List.any_append, hbefore]
      simp [hne]
  · cases hspent

/-- A batch does not fail an Operation that still holds its transfer. -/
def StoreAction.erases (db : Db) : StoreAction → Bool
  | .failUnverifiable id token _ _ => !(db.unverifiable id token && db.holdsTransfer id)
  | _ => true

/-- A row update whose row is there and meets the condition changes it. -/
theorem Db.updateWhere_matched {o : OperationRow} (ho : db.operation id = some o)
    (hc : condition o = true) (h : db.updateWhere id condition set = some (db', changed)) :
    changed = true := by
  rw [Db.updateWhere, ho, Option.filter_some, if_pos hc] at h
  simp only [Option.map_eq_some_iff, Prod.mk.injEq] at h
  obtain ⟨-, -, -, rfl⟩ := h
  rfl

theorem erased_replenish {inputs : SealedPrivateInputs} {now : Instant} (he : Erased db)
    (h : db.replenish id inputs now = some (db', changed)) :
    Erased db' := by
  simp only [Db.replenish, Option.map_eq_some_iff] at h
  obtain ⟨⟨_, changed'⟩, h, heq⟩ := h
  cases heq
  split at h
  · next hwaiting =>
    obtain ⟨o, ho⟩ := Option.isSome_iff_exists.mp hwaiting
    rw [Option.filter_eq_some_iff] at ho
    obtain ⟨hfind, hawaits⟩ := ho
    have hid := (Table.find_some hfind).2
    have hothers : ∀ x, x ≠ id → Db.holdsTransfer { db with
        privateInputs := db.privateInputs.map fun row =>
          if row.operationId = id then { row with transfer := some inputs.transfer } else row } x =
        db.holdsTransfer x := by
      intro x hx
      simp only [Db.holdsTransfer, List.any_map]
      refine List.any_congr rfl fun row => ?_
      simp only [Function.comp_apply]
      split
      · next hrow => simp [hrow, hx.symm]
      · rfl
    rcases Db.updateWhere_some h with ⟨hchanged, rfl⟩ | ⟨-, p, -, hfind', -, -, hu⟩
    · intro x hx hspent
      by_cases hx' : x.id = id
      · -- the Operation waits, so the second statement can miss only for want of a row
        by_contra hheld
        rw [Bool.not_eq_false] at hheld
        simp only [Db.holdsTransfer, List.any_map, List.any_eq_true, Function.comp_apply,
          Bool.and_eq_true, beq_iff_eq] at hheld
        obtain ⟨row, hrow, hrowid, -⟩ := hheld
        have hrow' : row.operationId = id := by
          rw [← hx', ← hrowid]
          split <;> rfl
        have hmatched : changed' = true := by
          refine Db.updateWhere_matched (o := o) ?_ ?_ h
          · exact hfind
          · simp only [hawaits, List.any_map, Bool.true_and, List.any_eq_true,
              Function.comp_apply]
            exact ⟨row, hrow, by simp [hrow']⟩
        rw [hchanged] at hmatched
        cases hmatched
      · rw [hothers x.id hx']
        exact he x hx hspent
    · rw [show p = o from Option.some.inj (hfind'.symm.trans hfind)] at hu
      refine erased_updateOperation (fun x hx hne hspent => ?_) hu fun hspent => ?_
      · rw [hothers x.id (hid ▸ hne)]
        exact he x hx hspent
      · simp only [Db.awaitsInputs, Bool.and_eq_true, Bool.not_eq_true'] at hawaits
        simp [OperationRow.spent, hawaits.1.2, Status.terminal] at hspent
  · next hwaiting =>
    -- the second statement matches nothing either
    rcases Db.updateWhere_some h with ⟨-, rfl⟩ | ⟨-, o, -, hfind, -, hc, -⟩
    · exact he
    · rw [Bool.and_eq_true] at hc
      exact absurd (by rw [hfind, Option.filter_some, if_pos hc.1]; rfl) hwaiting

/-- **Every batch keeps `Erased`**, unless it fails an Operation that still holds its
transfer. -/
theorem erased_apply (hl : Lockstep db) (hd : DispatchStatus db) (he : Erased db)
    (hwf : action.wellFormed db = true) (hok : action.erases db = true) :
    Erased (action.apply db) := by
  cases action with
  | insertCreate | insertChange =>
    rcases accepted_apply hl.busy_exists hwf rfl with heq | ⟨_, _, hacc, hheld⟩
    · rw [heq]
      exact he
    · exact he.accepted hacc hheld
  | defer =>
    simp only [StoreAction.apply, Db.defer]
    split
    · exact he
    · next o ho =>
      rw [Option.filter_eq_some_iff] at ho
      have hmem := (Table.find_some ho.1).1
      intro x hx hspent
      rw [Table.mem_put] at hx
      rcases hx with ⟨hx, -⟩ | ⟨rfl, -⟩
      · exact he x hx hspent
      · exact he o hmem hspent
  | claim =>
    refine effect_of_results he fun db' changed h => he.updateWhere h fun o _ _ hspent hold => ?_
    cases hdisp : o.dispatchPossible with
    | true => simp [OperationRow.spent, hdisp] at hold
    | false => simp [OperationRow.spent, hdisp, Status.terminal] at hspent
  | markDispatch =>
    refine effect_of_results he fun db' changed h => he.updateWhere h fun o ho hc _ _ => ?_
    simp only [Bool.and_eq_true, beq_iff_eq] at hc
    have hs := hd o ho
    rw [OperationRow.dispatchStatus, hc.2] at hs
    simp [hs]
  | waitForInputs =>
    exact effect_of_results he fun db' changed h => he.updateWhere h fun o _ _ _ _ => by simp
  | failUnverifiable id token =>
    refine effect_of_results he fun db' changed h => ?_
    rcases Db.updateWhere_some h with ⟨-, rfl⟩ | ⟨-, o, -, hfind, hid, hc, hu⟩
    · exact he
    · refine erased_updateOperation (fun x hx _ => he x hx) hu fun _ hheld => ?_
      have hmatch : db.unverifiable id token = true := by
        unfold Db.unverifiable
        rw [hfind, Option.filter_some, if_pos hc]
        rfl
      rw [hid] at hheld
      simp [StoreAction.erases, hmatch, hheld] at hok
  | replenish => exact effect_of_results he fun db' changed h => erased_replenish he h
  | settle =>
    refine effect_of_results he fun db' changed h => he.updateWhere h fun o ho hc _ hold => ?_
    simp only [Bool.and_eq_true, beq_iff_eq] at hc
    have hs := hd o ho
    rw [OperationRow.dispatchStatus, hc.2] at hs
    have hdisp : o.dispatchPossible = true := hs
    simp [OperationRow.spent, hdisp] at hold

/-! ### The end of a wait -/

section Waiting

variable {db : Db} {o o' : OperationRow}

theorem waiting_updateWhere (hl : Lockstep db) (ho : o ∈ db.operations)
    (hwait : o.status = .waitingInput) (hc : ∀ p, condition p = true → p.status ≠ .waitingInput)
    (h : db.updateWhere id condition set = some (db', changed)) (ho' : o' ∈ db'.operations)
    (hid : o'.id = o.id) : o'.status = .waitingInput := by
  rcases Db.updateWhere_some h with ⟨-, rfl⟩ | ⟨-, p, hp, -, -, hcp, hu⟩
  · rw [Table.eq_of_key hl.ids ho' ho hid, hwait]
  · rw [(Db.updateOperation_rows hu).1, Table.mem_put] at ho'
    rcases ho' with ⟨ho', -⟩ | ⟨rfl, -⟩
    · rw [Table.eq_of_key hl.ids ho' ho hid, hwait]
    · have hpid := (Db.updateOperation_assigns hu).1
      rw [Table.eq_of_key hl.ids hp ho (hpid.symm.trans hid)] at hcp
      exact absurd hwait (hc o hcp)

theorem waiting_accepted (hl : Lockstep db) (ho : o ∈ db.operations)
    (hwait : o.status = .waitingInput) (hacc : Accepted db db' record references rows')
    (ho' : o' ∈ db'.operations) (hid : o'.id = o.id) : o'.status = .waitingInput := by
  rw [hacc.operations, List.mem_append, List.mem_singleton] at ho'
  rcases ho' with ho' | rfl
  · rw [Table.eq_of_key hl.ids ho' ho hid, hwait]
  · exact absurd hid.symm (hacc.ids o ho)

/-- **Only a replenishment ends the wait of an Operation**, and it puts it back in the queue. -/
theorem leaves_waiting (hl : Lockstep db) (hwf : action.wellFormed db = true)
    (ho : o ∈ db.operations) (hwait : o.status = .waitingInput)
    (ho' : o' ∈ (action.apply db).operations) (hid : o'.id = o.id)
    (hleft : o'.status ≠ .waitingInput) :
    o'.status = .queued ∧ ∃ inputs now, action = .replenish o.id inputs now := by
  have hsame : o' ∈ db.operations → o'.status = .waitingInput := by
    intro h
    rw [Table.eq_of_key hl.ids h ho hid, hwait]
  have hupdate : ∀ {id : Uuid} {condition : OperationRow → Bool}
      {set : OperationRow → OperationRow}, (∀ p, condition p = true → p.status ≠ .waitingInput) →
      o' ∈ (((db.updateWhere id condition set).map Prod.fst).getD db).operations →
      o'.status = .waitingInput := by
    intro id condition set hc
    refine effect_of_results (P := fun db' => o' ∈ db'.operations → _) hsame ?_
    intro db' changed h ho'
    exact waiting_updateWhere hl ho hwait hc h ho' hid
  have hrunning : ∀ {token : Uuid} {status : Status} (p : OperationRow), status ≠ .waitingInput →
      (p.leaseToken == some token && p.status == status) = true → p.status ≠ .waitingInput := by
    intro token status p hstatus hc
    rw [Bool.and_eq_true, beq_iff_eq, beq_iff_eq] at hc
    rw [hc.2]
    exact hstatus
  cases action with
  | insertCreate | insertChange =>
    exfalso
    rcases accepted_apply hl.busy_exists hwf rfl with heq | ⟨_, _, hacc, -⟩
    · exact hleft (hsame (heq ▸ ho'))
    · exact hleft (waiting_accepted hl ho hwait hacc ho' hid)
  | defer =>
    exfalso
    simp only [StoreAction.apply, Db.defer] at ho'
    split at ho'
    · exact hleft (hsame ho')
    · next p hp =>
      rw [Option.filter_eq_some_iff] at hp
      rw [Table.mem_put] at ho'
      rcases ho' with ⟨ho', -⟩ | ⟨rfl, -⟩
      · exact hleft (hsame ho')
      · have heq : p = o := Table.eq_of_key hl.ids (Table.find_some hp.1).1 ho hid
        exact hleft (by rw [← hwait, ← heq])
  | claim =>
    refine absurd (hupdate (fun p hc => ?_) ho') hleft
    intro hwaits
    simp [Db.claimable, hwaits] at hc
  | markDispatch =>
    exact absurd (hupdate (fun p hc => hrunning p (by simp) hc) ho') hleft
  | waitForInputs _ token =>
    refine absurd (hupdate (fun p hc => ?_) ho') hleft
    simp only [Bool.and_eq_true] at hc
    have hown : (p.leaseToken == some token && p.status == .running) = true := by
      rw [Bool.and_eq_true]
      exact hc.1.1.1
    exact hrunning p (by simp) hown
  | failUnverifiable =>
    refine absurd (hupdate (fun p hc => ?_) ho') hleft
    rw [Bool.and_eq_true] at hc
    exact hrunning p (by simp) hc.1
  | settle => exact absurd (hupdate (fun p hc => hrunning p (by simp) hc) ho') hleft
  | replenish id inputs now =>
    revert ho'
    refine effect_of_results (P := fun db' => o' ∈ db'.operations → _)
      (fun h => absurd (hsame h) hleft) ?_
    intro db' changed h ho'
    simp only [Db.replenish, Option.map_eq_some_iff] at h
    obtain ⟨⟨db₁, _⟩, h, heq⟩ := h
    cases heq
    -- whichever rows the first statement left, the Operations are those of `db`
    have hcases : db₁.operations = db.operations ∨ ∃ p ∈ db.operations, p.id = id ∧
        ∃ new : OperationRow, new.id = p.id ∧ new.status = .queued ∧
          db₁.operations = Table.put OperationRow.id new db.operations := by
      rcases Db.updateWhere_some h with ⟨-, rfl⟩ | ⟨-, p, hp, -, hpid, -, hu⟩
      · left
        split <;> rfl
      right
      have hops : ∀ rows : Bool, (if rows = true then { db with
          privateInputs := db.privateInputs.map fun row => if row.operationId = id then
            { row with transfer := some inputs.transfer } else row } else db).operations =
          db.operations := by
        intro rows
        split <;> rfl
      rw [hops] at hp
      have hrows := (Db.updateOperation_rows hu).1
      rw [hops] at hrows
      exact ⟨p, hp, hpid, _, (Db.updateOperation_assigns hu).1, rfl, hrows⟩
    rcases hcases with hops | ⟨p, -, hpid, _, hnid, hqueued, hops⟩
    · rw [hops] at ho'
      exact absurd (hsame ho') hleft
    · rw [hops, Table.mem_put] at ho'
      rcases ho' with ⟨ho', -⟩ | ⟨rfl, -⟩
      · exact absurd (hsame ho') hleft
      · refine ⟨hqueued, inputs, now, ?_⟩
        rw [← hid, hnid, hpid]

end Waiting

end Takoserver.V2
