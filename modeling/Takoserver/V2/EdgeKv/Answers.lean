import Takoserver.V2.EdgeKv.Ownership

/-!
# What the custody of an Edge KV namespace answers

What a call has read of a row, or written to it, still holds when it answers, and from then on; so
each answer says of the tables what `Ensured` makes of it, in every later state.
-/

namespace Takoserver.V2.EdgeKv

variable {s s' : Tables} {n : ℕ} {c : Call}

/-! ### What the calls return -/

/-- The contract of the statements: the rows stay owned, and grow. -/
def contract : Contract runs := .growing runs Owned Leads Leads.refl Leads.trans

/-- A row stands as it was read, or later. -/
def Stands (s : Tables) (r : CustodyRow) : Prop := ∃ r' ∈ s.custody, Later r r'

variable {r : CustodyRow} {e : Execution} {nowMs dbNow : Instant} {id : Uuid} {a : Answer}

theorem Stands.of_mem (h : r ∈ s.custody) : Stands s r := ⟨r, h, .refl r⟩

theorem Stands.leads (h : Stands s r) (hl : Leads s s') : Stands s' r := by
  obtain ⟨r', hr', hlater⟩ := h
  obtain ⟨r'', hr'', hlater'⟩ := hl.rows r' hr'
  exact ⟨r'', hr'', hlater.trans hlater'⟩

theorem returns_ask {P : c.Answer → Tables → Prop}
    (h : ∀ t w a t', Owned t → exec n w t c = (.ok a, t') → Owned t' → P a t') :
    contract.Returns n (ask c) P s := by
  refine Contract.returns_call fun t hrely hinv => ⟨trivial, fun w a t' hrun hinv' hleads => ?_⟩
  unfold runs at hrun
  split at hrun
  · cases hrun
  · have heq : exec n w t c = (.ok a, t') := by
      have hpair := Option.some.inj hrun
      rw [← hpair]
    exact h t w a t' hinv heq hinv'

/-- What a row that was read says of the tables. -/
theorem returns_row (hs : Owned s) (id : Uuid) : contract.Returns n (row id)
    (fun prior t => ∀ r, prior = some r → r ∈ t.custody ∧ r.operationId = id) s := by
  have hask : contract.Returns n (ask (.row id))
      (fun prior t => ∀ r, prior = some r → r ∈ t.custody ∧ r.operationId = id) s := by
    refine returns_ask fun t w a t' _ hexec _ r hr => ?_
    cases hexec
    exact Table.find_some hr
  refine hask.bind hs fun prior t ht _ hprior => ?_
  unfold custodyRow
  split
  · exact Contract.returns_pure hprior
  · exact Contract.returns_throw

/-- What an Operation has been granted for is in its row. -/
def Granted (s : Tables) (input : CreateIntent) : Prop :=
  ∃ r, r.sameIntent input = true ∧ r.action = .create ∧ Stands s r

/-- What the row of a grant copies of its claim. -/
structure Claims (e : Execution) (op : OperationRow) (resource : ResourceRow) : Prop where
  id : op.id = e.operationId
  uid : resource.uid = e.resourceUid
  action : op.action = e.action
  principal : op.principal = e.principal
  space : resource.space = e.space
  backendKey : op.backendKey = e.backendKey
  backendId : op.backendId = e.backendId
  targetKey : op.targetKey = e.targetKey
  generation : op.generation = e.generation
  spec : op.acceptedSpec = .obj []

theorem claims_of_claim {db : Db} {op : OperationRow} {resource : ResourceRow}
    (h : claim db e nowMs dbNow = some (op, resource)) :
    Claims e op resource := by
  unfold claim at h
  split at h
  · cases h
  next hop =>
  split at h
  · cases h
  next hresource =>
  split at h
  · next hclaim =>
    cases h
    have hid : op.id = e.operationId := (Table.find_some hop).2
    have huid : resource.uid = op.resourceUid := (Table.find_some hresource).2
    simp only [Bool.and_eq_true, beq_iff_eq] at hclaim
    constructor <;> first | exact hid | (rw [huid]; tauto) | tauto
  · cases h

theorem of_insert {new : CustodyRow} (h : s.insert n dbNow new = some (1, s')) :
    new ∈ s'.custody ∧ (n, new.operationId) ∈ s'.inserts := by
  unfold Tables.insert at h
  split at h
  · split at h
    · cases h
    · split at h
      · cases h
      · cases h
        exact ⟨List.mem_append_right _ (List.mem_singleton_self _),
          List.mem_append_right _ (List.mem_singleton_self _)⟩
  · cases h

theorem of_insertCreate {title closure : String}
    (h : s.insertCreate n dbNow e title closure nowMs = some (1, s')) (hspec : e.spec = .obj []) :
    (n, e.operationId) ∈ s'.inserts ∧ ∃ r ∈ s'.custody, r.same e = true ∧
      r.plannedTitle = title ∧ r.closureDigest = closure := by
  unfold Tables.insertCreate at h
  split at h
  · cases h
  · next hclaim =>
    have hc := claims_of_claim hclaim
    obtain ⟨hmem, hinsert⟩ := of_insert h
    refine ⟨hc.id ▸ hinsert, _, hmem, ?_, rfl, rfl⟩
    simp only [CustodyRow.same, Bool.and_eq_true, beq_iff_eq]
    exact ⟨⟨⟨⟨⟨⟨⟨⟨⟨hc.id, hc.uid⟩, hc.action⟩, hc.principal⟩, hc.space⟩, hc.backendKey⟩, hc.backendId⟩,
      hc.targetKey⟩, hc.generation⟩, hc.spec.trans hspec.symm⟩

/-- A statement that answers has committed. -/
theorem of_orThrow {changes : ℕ} {result : Option (ℕ × Tables)}
    (h : orThrow s result = (.ok changes, s')) : result = some (changes, s') := by
  cases result with
  | none => cases h
  | some r =>
    cases h
    rfl

theorem spec_of_captured (h : captured e = true) : e.spec = .obj [] := by
  simp only [captured, Bool.and_eq_true, beq_iff_eq] at h
  exact h.2

theorem returns_grantCreate (hs : Owned s) (input : CreateIntent) :
    contract.Returns n (grantCreate input) (fun grant t => grant ≠ .conflict → Granted t input ∧
      (grant = .granted → (n, input.execution.operationId) ∈ t.inserts)) s := by
  unfold grantCreate
  dsimp only
  split
  · exact Contract.returns_pure fun h => absurd rfl h
  next hvalid =>
  obtain ⟨hcaptured, haction⟩ : captured input.execution = true ∧
      input.execution.action = .create := by
    grind
  refine Contract.returns_growing.bind hs fun time t ht _ _ => ?_
  split
  · exact Contract.returns_pure fun h => absurd rfl h
  next nowMs =>
  have hinsert : contract.Returns n
      (ask (.insertCreate input.execution input.plannedTitle input.closureDigest nowMs))
      (fun changes t => changes = 1 → Granted t input ∧
        (n, input.execution.operationId) ∈ t.inserts) t := by
    refine returns_ask fun u w a u' _ hexec _ hone => ?_
    subst hone
    obtain ⟨hmem, r, hr, hsame, htitle, hclosure⟩ :=
      of_insertCreate (of_orThrow hexec) (spec_of_captured hcaptured)
    have hact : r.action = .create := by
      simp only [CustodyRow.same, Bool.and_eq_true, beq_iff_eq] at hsame
      exact hsame.1.1.1.1.1.1.1.2.trans haction
    exact ⟨⟨r, by simp [CustodyRow.sameIntent, hsame, htitle, hclosure], hact, .of_mem hr⟩, hmem⟩
  refine hinsert.bind ht fun changes u hu _ hgranted => ?_
  split
  · next hone =>
    refine Contract.returns_growing.bind hu fun live v _ hleads _ => ?_
    refine Contract.returns_pure fun _ => ?_
    obtain ⟨⟨r, hsame, hact, hstands⟩, hmem⟩ := hgranted hone
    exact ⟨⟨r, hsame, hact, hstands.leads hleads⟩, fun _ => hleads.inserts hmem⟩
  · refine Contract.returns_growing.bind hu fun live v hv _ _ => ?_
    split
    · exact Contract.returns_pure fun h => absurd rfl h
    refine (returns_row hv _).bind hv fun prior x _ _ hprior => ?_
    refine Contract.returns_pure fun hnot => ?_
    split at hnot
    · next hany =>
      obtain ⟨r, hr, hsame⟩ := (Option.any_eq_true _ _).mp hany
      rw [Bool.and_eq_true, beq_iff_eq] at hsame
      rw [if_pos hany]
      exact ⟨⟨r, hsame.1, hsame.2, .of_mem (hprior r hr).1⟩, nofun⟩
    · exact absurd rfl hnot

/-! #### Writes that are read back -/

theorem of_update {p : CustodyRow → Bool} {f : CustodyRow → CustodyRow}
    (h : s.update id p f = some (1, s')) :
    ∃ old ∈ s.custody, old.operationId = id ∧ p old = true ∧ f old ∈ s'.custody := by
  unfold Tables.update at h
  split at h
  · cases h
  next old hold =>
  obtain ⟨hmem, hid⟩ := Table.find_some hold
  split at h
  · next hp =>
    split at h
    · next hlet =>
      simp only [Bool.and_eq_true] at hlet
      have hkey := (later_of_monotonic hlet.1.1).operationId
      cases h
      exact ⟨old, hmem, hid, hp, Table.mem_put_self hmem hkey.symm⟩
    · cases h
  · cases h

theorem Owned.spec (hs : Owned s) (hr : r ∈ s.custody) :
    r.acceptedSpec = .obj [] := by
  have hcheck := hs.checks r hr
  simp only [CustodyRow.check, Bool.and_eq_true, beq_iff_eq] at hcheck
  tauto

/-- An old row of the action, and of an execution that the custody has let in, is the same. -/
theorem Owned.same_of_isOf {action : Action} (hs : Owned s) (hr : r ∈ s.custody)
    (hcaptured : captured e = true) (he : e.action = action) (hid : r.operationId = e.operationId)
    (haction : r.action = action) (h : r.isOf e = true) : r.same e = true := by
  have hspec := (hs.spec hr).trans (spec_of_captured hcaptured).symm
  simp only [CustodyRow.isOf, CustodyRow.same, Bool.and_eq_true, beq_iff_eq] at h ⊢
  rw [← he] at haction
  tauto

theorem returns_guarded {α : Type} {d : α} {invalid : Prop} [Decidable invalid]
    {standing : Program Bool} {p : Program α} {Q : α → Tables → Prop} (hs : Owned s)
    (hd : ∀ t, Q d t) (hp : ¬ invalid → ∀ t, Owned t → contract.Returns n p Q t) :
    contract.Returns n
      (do
        if invalid then return d
        if !(← standing) then return d
        p) Q s := by
  split
  · exact Contract.returns_pure (hd _)
  · next hvalid =>
    refine Contract.returns_growing.bind hs fun ok t ht _ _ => ?_
    split
    · exact Contract.returns_pure (hd _)
    · exact hp hvalid t ht

theorem returns_readBack {p : Program ℕ} {test : CustodyRow → Bool} (hs : Owned s)
    (hp : contract.Returns n p (fun changes t => changes = 1 → ∃ r ∈ t.custody, test r = true) s) :
    contract.Returns n
      (do
        let changes ← p
        if changes = 1 then return true
        let prior ← row id
        return prior.any test)
      (fun done t => done = true → ∃ r, test r = true ∧ Stands t r) s := by
  refine hp.bind hs fun changes t ht _ hchanges => ?_
  split
  · next hone =>
    refine Contract.returns_pure fun _ => ?_
    obtain ⟨r, hr, htest⟩ := hchanges hone
    exact ⟨r, htest, .of_mem hr⟩
  · refine (returns_row ht id).bind ht fun prior u _ _ hprior => ?_
    refine Contract.returns_pure fun hany => ?_
    obtain ⟨r, hr, htest⟩ := (Option.any_eq_true _ _).mp hany
    exact ⟨r, htest, .of_mem (hprior r hr).1⟩

/-- The row of a create that was acknowledged. -/
def CustodyRow.acknowledges (r : CustodyRow) (input : CreateIntent) (nativeId ack : String) : Bool :=
  r.sameIntent input && r.nativeId == some nativeId && r.acknowledgedReceipt == some ack

theorem returns_acknowledgeCreate (hs : Owned s) (input : CreateIntent) (nativeId ack : String) :
    contract.Returns n (acknowledgeCreate input nativeId ack) (fun done t => done = true →
      ∃ r : CustodyRow, r.acknowledges input nativeId ack = true ∧ Stands t r) s := by
  refine returns_guarded hs (fun _ => nofun) fun hvalid t ht => ?_
  obtain ⟨hcaptured, haction⟩ : captured input.execution = true ∧ input.execution.action = .create := by
    grind
  refine returns_readBack ht (returns_ask fun u w a u' hu hexec _ hone => ?_)
  subst hone
  obtain ⟨_, hold, hid, hp, hnew⟩ := of_update (of_orThrow hexec)
  simp only [Bool.and_eq_true, beq_iff_eq, Option.isNone_iff_eq_none] at hp
  obtain ⟨⟨⟨⟨⟨⟨hact, hof⟩, -⟩, htitle⟩, hclosure⟩, -⟩, -⟩ := hp
  have hsame := hu.same_of_isOf hold hcaptured haction hid hact hof
  refine ⟨_, hnew, ?_⟩
  simp only [CustodyRow.sameIntent, Bool.and_eq_true, beq_iff_eq]
  exact ⟨⟨⟨⟨hsame, htitle⟩, hclosure⟩, trivial⟩, trivial⟩

/-- The row has been confirmed with this proof. -/
def CustodyRow.confirms (r : CustodyRow) (input : CreateIntent) (nativeId proof : String) : Bool :=
  r.sameIntent input && r.nativeId == some nativeId && r.acknowledgedReceipt.isSome &&
    r.confirmedReceipt == some proof

theorem returns_confirmCreate (hs : Owned s) (input : CreateIntent) (nativeId proof : String) :
    contract.Returns n (confirmCreate input nativeId proof) (fun done t => done = true →
      ∃ r : CustodyRow, r.confirms input nativeId proof = true ∧ Stands t r) s := by
  refine returns_guarded hs (fun _ => nofun) fun hvalid t ht => ?_
  obtain ⟨hcaptured, haction⟩ : captured input.execution = true ∧ input.execution.action = .create := by
    grind
  refine Contract.returns_growing.bind ht fun time u hu _ _ => ?_
  refine returns_readBack hu (returns_ask fun v w a v' hv hexec _ hone => ?_)
  subst hone
  obtain ⟨_, hold, hid, hp, hnew⟩ := of_update (of_orThrow hexec)
  simp only [Bool.and_eq_true, beq_iff_eq, Option.isNone_iff_eq_none] at hp
  obtain ⟨⟨⟨⟨⟨⟨⟨hact, hof⟩, htitle⟩, hclosure⟩, hnative⟩, hack⟩, -⟩, -⟩ := hp
  have hsame := hv.same_of_isOf hold hcaptured haction hid hact hof
  refine ⟨_, hnew, ?_⟩
  simp only [CustodyRow.sameIntent, Bool.and_eq_true, beq_iff_eq]
  exact ⟨⟨⟨⟨⟨hsame, htitle⟩, hclosure⟩, hnative⟩, hack⟩,
    trivial⟩

theorem returns_acknowledgeDelete (hs : Owned s) (e : Execution) (ack : String) :
    contract.Returns n (acknowledgeDelete e ack) (fun done t => done = true →
      ∃ r : CustodyRow, (r.same e && r.acknowledgedReceipt == some ack) = true ∧ Stands t r) s := by
  refine returns_guarded hs (fun _ => nofun) fun hvalid t ht => ?_
  obtain ⟨hcaptured, haction⟩ : captured e = true ∧ e.action = .delete := by grind
  refine returns_readBack ht (returns_ask fun u w a u' hu hexec _ hone => ?_)
  subst hone
  obtain ⟨_, hold, hid, hp, hnew⟩ := of_update (of_orThrow hexec)
  simp only [Bool.and_eq_true, beq_iff_eq] at hp
  obtain ⟨⟨hact, hof⟩, -⟩ := hp
  have hsame := hu.same_of_isOf hold hcaptured haction hid hact hof
  refine ⟨_, hnew, ?_⟩
  simp only [Bool.and_eq_true, beq_iff_eq]
  exact ⟨hsame, trivial⟩

theorem returns_confirmAbsent (hs : Owned s) (e : Execution) (proof : String) :
    contract.Returns n (confirmAbsent e proof) (fun done t => done = true →
      ∃ r : CustodyRow, (r.same e && r.confirmedReceipt == some proof) = true ∧ Stands t r) s := by
  refine returns_guarded hs (fun _ => nofun) fun hvalid t ht => ?_
  obtain ⟨hcaptured, haction⟩ : captured e = true ∧ e.action = .delete := by grind
  refine Contract.returns_growing.bind ht fun time u hu _ _ => ?_
  refine returns_readBack hu (returns_ask fun v w a v' hv hexec _ hone => ?_)
  subst hone
  obtain ⟨_, hold, hid, hp, hnew⟩ := of_update (of_orThrow hexec)
  simp only [Bool.and_eq_true, beq_iff_eq] at hp
  obtain ⟨⟨⟨⟨hact, hof⟩, -⟩, -⟩, -⟩ := hp
  have hsame := hv.same_of_isOf hold hcaptured haction hid hact hof
  refine ⟨_, hnew, ?_⟩
  simp only [Bool.and_eq_true, beq_iff_eq]
  exact ⟨hsame, trivial⟩

/-! #### Deletes -/

/-- The delete of an execution names an identity: that of the confirmed create of its Resource. -/
def Deletes (s : Tables) (e : Execution) (identity : ConfirmedIdentity) : Prop :=
  ∃ c d, Source c d ∧ d.same e = true ∧ d.action = .delete ∧ confirmed c = some identity ∧
    Stands s c ∧ Stands s d

variable {identity expected : ConfirmedIdentity}

theorem Deletes.leads (h : Deletes s e identity) (hl : Leads s s') :
    Deletes s' e identity := by
  obtain ⟨c, d, hsource, hsame, haction, hconfirmed, hc, hd⟩ := h
  exact ⟨c, d, hsource, hsame, haction, hconfirmed, hc.leads hl, hd.leads hl⟩

/-- What the answer of `grantDelete` means. -/
def GrantsDelete (n : ℕ) (s : Tables) (e : Execution) : DeleteGrant → Prop
  | .granted identity => (n, e.operationId) ∈ s.inserts ∧ Deletes s e identity
  | .alreadyGranted identity => Deletes s e identity
  | .conflict => True

theorem of_insertDelete (h : s.insertDelete n dbNow e expected nowMs = some (1, s')) :
    (n, e.operationId) ∈ s'.inserts := by
  unfold Tables.insertDelete at h
  split at h
  · cases h
  · next hclaim =>
    dsimp only at h
    split at h
    · cases h
    · have hinsert := (of_insert h).2
      rwa [(claims_of_claim hclaim).id] at hinsert

theorem grantsDelete_of_deleteGrant {changes : ℕ} {prior source : CustodyRow}
    (hsource : Source source prior) (hsame : prior.same e = true) (haction : prior.action = .delete)
    (hchanges : changes = 1 → (n, e.operationId) ∈ s.inserts) (hprior : Stands s prior)
    (hstands : Stands s source) :
    GrantsDelete n s e (deleteGrant changes prior source expected) := by
  unfold deleteGrant
  split
  · trivial
  · next identity hidentity =>
    have hdeletes : Deletes s e identity :=
      ⟨source, prior, hsource, hsame, haction, hidentity, hstands, hprior⟩
    split
    · split
      · next hone => exact ⟨hchanges hone, hdeletes⟩
      · exact hdeletes
    · trivial

theorem returns_grantDelete (hs : Owned s) (e : Execution) (expected : ConfirmedIdentity) :
    contract.Returns n (grantDelete e expected) (fun grant t => GrantsDelete n t e grant) s := by
  unfold grantDelete
  split
  · exact Contract.returns_pure trivial
  refine Contract.returns_growing.bind hs fun time t ht _ _ => ?_
  split
  · exact Contract.returns_pure trivial
  next nowMs =>
  have hinsert : contract.Returns n (ask (.insertDelete e expected nowMs))
      (fun changes t => changes = 1 → (n, e.operationId) ∈ t.inserts) t := by
    refine returns_ask fun u w a u' _ hexec _ hone => ?_
    subst hone
    exact of_insertDelete (of_orThrow hexec)
  refine hinsert.bind ht fun changes u hu _ hchanges => ?_
  refine Contract.returns_growing.bind hu fun live v hv huv _ => ?_
  split
  · exact Contract.returns_pure trivial
  refine (returns_row hv _).bind hv fun prior x hx hvx hprior => ?_
  split
  · exact Contract.returns_pure trivial
  next prior =>
  obtain ⟨hmem, -⟩ := hprior prior rfl
  split
  · exact Contract.returns_pure trivial
  next hvalid =>
  obtain ⟨hsame, haction⟩ : prior.same e = true ∧ prior.action = .delete := by grind
  split
  · exact Contract.returns_pure trivial
  next hid =>
  refine (returns_row hx _).bind hx fun found y hy hxy hfound => ?_
  split
  · exact Contract.returns_pure trivial
  next source =>
  refine Contract.returns_pure ?_
  obtain ⟨hsource, hsourceId⟩ := hfound source rfl
  -- the create beside which the delete was let in is the row that was read
  obtain ⟨c, hc, hpair⟩ := hx.sources prior hmem haction
  obtain ⟨c', hc', hlater⟩ := hxy.rows c hc
  have heq : c' = source := by
    refine Table.eq_of_key hy.ids hc' hsource ?_
    rw [hlater.operationId, hsourceId]
    exact Option.some.inj (hpair.operationId.symm.trans hid)
  have hsourced : Source source prior := heq ▸ hpair.later hlater (.refl prior)
  refine grantsDelete_of_deleteGrant hsourced hsame haction ?_
    ((Stands.of_mem hmem).leads hxy) (.of_mem hsource)
  exact fun hone => hxy.inserts (hvx.inserts (huv.inserts (hchanges hone)))

/-- What was read of a confirmed create. -/
def Sources (s : Tables) (e : Execution) (identity : ConfirmedIdentity) : Prop :=
  ∃ r : CustodyRow, r.sourceOf e = true ∧ confirmed r = some identity ∧ Stands s r

/-- A call that reads the confirmed create of a Resource between two looks at its claim. -/
theorem returns_source {c : Program (Option CustodyRow)} (hs : Owned s) (hc : contract.Returns n c
      (fun found t => ∀ r, found = some r → r.sourceOf e = true ∧ r ∈ t.custody) s) :
    contract.Returns n
      (do
        match ← custodyRow (← c) with
        | none => return none
        | some prior =>
          if !(← current e) then return none
          return confirmed prior)
      (fun found t => ∀ identity, found = some identity → Sources t e identity) s := by
  refine hc.bind hs fun found t ht _ hfound => ?_
  have hrow : contract.Returns n (custodyRow found) (fun prior u => ∀ r, prior = some r →
      r.sourceOf e = true ∧ Stands u r) t := by
    unfold custodyRow
    split
    · exact Contract.returns_pure fun r hr => ⟨(hfound r hr).1, .of_mem (hfound r hr).2⟩
    · exact Contract.returns_throw
  refine hrow.bind ht fun prior u hu _ hprior => ?_
  split
  · exact Contract.returns_pure nofun
  · next r =>
    obtain ⟨hsource, hstands⟩ := hprior r rfl
    refine Contract.returns_growing.bind hu fun live v _ huv _ => ?_
    split
    · exact Contract.returns_pure nofun
    · exact Contract.returns_pure fun identity hid => ⟨r, hsource, hid, hstands.leads huv⟩

theorem returns_confirmedForUpdate (hs : Owned s) (e : Execution) :
    contract.Returns n (confirmedForUpdate e)
      (fun found t => ∀ identity, found = some identity → Sources t e identity) s := by
  refine returns_guarded hs (fun _ => nofun) fun _ t ht => ?_
  refine returns_source ht (returns_ask fun u w a u' _ hexec _ r hr => ?_)
  cases hexec
  exact ⟨List.find?_some (p := fun r : CustodyRow => r.sourceOf e) hr, List.mem_of_find?_eq_some hr⟩

theorem returns_prepareDelete (hs : Owned s) (e : Execution) :
    contract.Returns n (prepareDelete e)
      (fun found t => ∀ identity, found = some identity → Sources t e identity) s := by
  refine returns_guarded hs (fun _ => nofun) fun _ t ht => ?_
  refine returns_source ht (returns_ask fun u w a u' _ hexec _ r hr => ?_)
  cases hexec
  have hfound := List.find?_some hr
  rw [Bool.and_eq_true] at hfound
  exact ⟨hfound.1, List.mem_of_find?_eq_some hr⟩

/-! #### Inspections -/

/-- What the inspection of a create says of the tables. -/
def InspectsCreate (s : Tables) (input : CreateIntent) : CreateInspection → Prop
  | .confirmed nativeId proof => ∃ r : CustodyRow, r.sameIntent input = true ∧
      r.nativeId = some nativeId ∧ r.confirmedReceipt = some proof ∧ Stands s r
  | .acknowledged nativeId ack => ∃ r : CustodyRow, r.sameIntent input = true ∧
      r.nativeId = some nativeId ∧ r.acknowledgedReceipt = some ack ∧ Stands s r
  | .sent => ∃ r : CustodyRow, r.sameIntent input = true ∧ Stands s r
  | _ => True

theorem returns_inspectCreate (hs : Owned s) (input : CreateIntent) :
    contract.Returns n (inspectCreate input) (fun i t => InspectsCreate t input i) s := by
  refine returns_guarded hs (fun _ => trivial) fun _ t ht => ?_
  refine (returns_row ht _).bind ht fun prior u _ _ hprior => ?_
  split
  · exact Contract.returns_pure trivial
  next r =>
  have hstands : Stands u r := .of_mem (hprior r rfl).1
  split
  · exact Contract.returns_pure trivial
  next hsame =>
  rw [Bool.not_eq_true', Bool.not_eq_false] at hsame
  refine Contract.returns_pure ?_
  split
  · next hnative hproof =>
    exact ⟨r, hsame, (Option.filter_eq_some_iff.mp hnative).1,
      (Option.filter_eq_some_iff.mp hproof).1, hstands⟩
  · next hnative _ hack =>
    exact ⟨r, hsame, (Option.filter_eq_some_iff.mp hnative).1,
      (Option.filter_eq_some_iff.mp hack).1, hstands⟩
  · exact ⟨r, hsame, hstands⟩

/-- What the answer of `inspectDelete` means. -/
def InspectsDelete (s : Tables) (e : Execution) : DeleteInspection → Prop
  | .confirmedAbsent proof => ∃ r : CustodyRow, r.same e = true ∧ r.action = .delete ∧
      r.confirmedReceipt = some proof ∧ Stands s r
  | .sent => ∃ r : CustodyRow, r.same e = true ∧ r.action = .delete ∧ Stands s r
  | _ => True

theorem returns_inspectDelete (hs : Owned s) (e : Execution) :
    contract.Returns n (inspectDelete e) (fun i t => InspectsDelete t e i) s := by
  refine returns_guarded hs (fun _ => trivial) fun _ t ht => ?_
  refine (returns_row ht _).bind ht fun prior u _ _ hprior => ?_
  split
  · exact Contract.returns_pure trivial
  next r =>
  have hstands : Stands u r := .of_mem (hprior r rfl).1
  split
  · exact Contract.returns_pure trivial
  · next hvalid =>
    obtain ⟨hsame, haction⟩ : r.same e = true ∧ r.action = .delete := by grind
    refine Contract.returns_pure ?_
    split
    · next hproof =>
      exact ⟨r, hsame, haction, (Option.filter_eq_some_iff.mp hproof).1, hstands⟩
    · exact ⟨r, hsame, haction, hstands⟩

/-! ### Every interleaving -/

/-- What an answer of process `n` says of the tables. -/
def Ensured (n : ℕ) (s : Tables) : Answer → Prop
  | .createGrant input grant => grant ≠ .conflict → Granted s input ∧
      (grant = .granted → (n, input.execution.operationId) ∈ s.inserts)
  | .createInspection input i => InspectsCreate s input i
  | .acknowledged input nativeId ack done => done = true →
      ∃ r : CustodyRow, r.acknowledges input nativeId ack = true ∧ Stands s r
  | .confirmed input nativeId proof done => done = true →
      ∃ r : CustodyRow, r.confirms input nativeId proof = true ∧ Stands s r
  | .forUpdate e found | .prepared e found =>
      ∀ identity, found = some identity → Sources s e identity
  | .deleteGrant e grant => GrantsDelete n s e grant
  | .deleteInspection e i => InspectsDelete s e i
  | .deleteAcknowledged e ack done => done = true →
      ∃ r : CustodyRow, (r.same e && r.acknowledgedReceipt == some ack) = true ∧ Stands s r
  | .absent e proof done => done = true →
      ∃ r : CustodyRow, (r.same e && r.confirmedReceipt == some proof) = true ∧ Stands s r
  | .hosted => True

theorem Ensured.leads (h : Ensured n s a) (hl : Leads s s') : Ensured n s' a := by
  cases a <;> simp only [Ensured] at h ⊢
  case createGrant =>
    intro hnot
    obtain ⟨⟨r, hsame, haction, hstands⟩, hinsert⟩ := h hnot
    exact ⟨⟨r, hsame, haction, hstands.leads hl⟩, fun hgranted => hl.inserts (hinsert hgranted)⟩
  case createInspection i =>
    cases i with
    | confirmed =>
      obtain ⟨r, hsame, hnative, hproof, hstands⟩ := h
      exact ⟨r, hsame, hnative, hproof, hstands.leads hl⟩
    | acknowledged =>
      obtain ⟨r, hsame, hnative, hack, hstands⟩ := h
      exact ⟨r, hsame, hnative, hack, hstands.leads hl⟩
    | sent =>
      obtain ⟨r, hsame, hstands⟩ := h
      exact ⟨r, hsame, hstands.leads hl⟩
    | neverGranted | conflict => trivial
  case acknowledged | confirmed | deleteAcknowledged | absent =>
    intro hdone
    obtain ⟨r, hr, hstands⟩ := h hdone
    exact ⟨r, hr, hstands.leads hl⟩
  case forUpdate | prepared =>
    intro identity hid
    obtain ⟨r, hsource, hconfirmed, hstands⟩ := h identity hid
    exact ⟨r, hsource, hconfirmed, hstands.leads hl⟩
  case deleteGrant grant =>
    cases grant with
    | granted => exact ⟨hl.inserts h.1, h.2.leads hl⟩
    | alreadyGranted => exact Deletes.leads h hl
    | conflict => trivial
  case deleteInspection i =>
    cases i with
    | confirmedAbsent =>
      obtain ⟨r, hsame, haction, hproof, hstands⟩ := h
      exact ⟨r, hsame, haction, hproof, hstands.leads hl⟩
    | sent =>
      obtain ⟨r, hsame, haction, hstands⟩ := h
      exact ⟨r, hsame, haction, hstands.leads hl⟩
    | neverGranted | conflict => trivial

theorem returns_body (hs : Owned s) (request : Request) :
    contract.Returns n request.body (fun a t => Ensured n t a) s := by
  cases request with
  | grantCreate input =>
    exact (returns_grantCreate hs input).map hs fun _ _ _ _ h => h
  | inspectCreate input => exact (returns_inspectCreate hs input).map hs fun _ _ _ _ h => h
  | acknowledgeCreate input nativeId ack =>
    exact (returns_acknowledgeCreate hs input nativeId ack).map hs fun _ _ _ _ h => h
  | confirmCreate input nativeId proof =>
    exact (returns_confirmCreate hs input nativeId proof).map hs fun _ _ _ _ h => h
  | confirmedForUpdate e => exact (returns_confirmedForUpdate hs e).map hs fun _ _ _ _ h => h
  | prepareDelete e => exact (returns_prepareDelete hs e).map hs fun _ _ _ _ h => h
  | grantDelete e expected =>
    exact (returns_grantDelete hs e expected).map hs fun _ _ _ _ h => h
  | inspectDelete e => exact (returns_inspectDelete hs e).map hs fun _ _ _ _ h => h
  | acknowledgeDelete e ack =>
    exact (returns_acknowledgeDelete hs e ack).map hs fun _ _ _ _ h => h
  | confirmAbsent e proof => exact (returns_confirmAbsent hs e proof).map hs fun _ _ _ _ h => h
  | host db => exact Contract.returns_growing.bind hs fun _ _ _ _ _ => Contract.returns_pure trivial

theorem owned_init : Owned {} where
  ids := List.nodup_nil
  checks := nofun
  apart := nofun
  sources := nofun
  inserts := List.nodup_nil
  inserted := nofun

theorem upheld : contract.Upheld Request.body {} (fun _ _ => True)
    (fun n r s => ∀ a, r = .ok a → Ensured n s a) := by
  refine Contract.upheld_growing owned_init (fun request n s hs => returns_body hs request)
    (fun n a s s' hl h => h.leads hl) fun n c w s x s' hs hrun => ?_
  have heq : (exec n w s c).2 = s' := congrArg Prod.snd (Option.some.inj hrun)
  have hwritten := written_exec n w s c
  rw [heq] at hwritten
  exact ⟨hwritten.owned hs, hwritten.leads hs⟩

variable {S S' : Pool Tables (Program Answer)}

/-- What holds of the tables in every state. -/
theorem owned_of_reachable (h : custody.Reachable S) : Owned S.store := (upheld.holds h).inv

/-- **Every answer of every call is true**, when it is given and in every later state. -/
theorem ensured_of_reachable (h : custody.Reachable S) {n : ℕ}
    (ha : S.tasks[n]? = some (some (.pure a))) : Ensured n S.store a :=
  (upheld.holds h).result ha a rfl

/-! ### Ownership -/

/-- The Operation that an answer grants. -/
def Answer.grants : Answer → Option Uuid
  | .createGrant input .granted => some input.execution.operationId
  | .deleteGrant e (.granted _) => some e.operationId
  | _ => none

/-- An answer that grants is that of the process that has inserted the row. -/
theorem inserts_of_grants (h : Ensured n s a) (ha : a.grants = some id) :
    (n, id) ∈ s.inserts := by
  cases a <;> simp only [Answer.grants, reduceCtorEq] at ha
  case createGrant grant =>
    cases grant <;> simp only [Option.some.injEq, reduceCtorEq] at ha
    subst ha
    exact (h nofun).2 rfl
  case deleteGrant grant =>
    cases grant <;> simp only [Option.some.injEq, reduceCtorEq] at ha
    subst ha
    exact h.1

theorem confirmed_later {r' : CustodyRow} (h : Later r r') (hc : confirmed r = some identity) :
    confirmed r' = some identity := by
  unfold confirmed at hc ⊢
  split at hc
  · next nativeId proof haction hnative hproof =>
    obtain ⟨hn, hn'⟩ := Option.filter_eq_some_iff.mp hnative
    obtain ⟨hp, hp'⟩ := Option.filter_eq_some_iff.mp hproof
    have hnative' : r'.nativeId.filter (· ≠ "") = some nativeId :=
      Option.filter_eq_some_iff.mpr ⟨h.nativeId _ hn, hn'⟩
    have hproof' : r'.confirmedReceipt.filter (· ≠ "") = some proof :=
      Option.filter_eq_some_iff.mpr ⟨h.confirmed _ hp, hp'⟩
    have haction' : r'.action = .create := (h.same CustodyRow.action fun _ => rfl).trans haction
    rw [haction', hnative', hproof']
    cases hc
    rw [h.same CustodyRow.plannedTitle fun _ => rfl, h.same CustodyRow.closureDigest fun _ => rfl,
      h.operationId, h.same CustodyRow.generation fun _ => rfl]
  · cases hc

theorem resource_of_shared (hs : Owned s) {a b : CustodyRow} (ha : a ∈ s.custody)
    (hb : b ∈ s.custody) (htarget : a.targetKey = b.targetKey)
    (hshared : (∃ v, a.nativeId = some v ∧ b.nativeId = some v) ∨ a.plannedTitle = b.plannedTitle) :
    a.resourceUid = b.resourceUid := by
  -- the create of the row's Resource has the same native id and title
  have hcreate : ∀ r ∈ s.custody, ∃ c ∈ s.custody, c.action = .create ∧
      c.resourceUid = r.resourceUid ∧ c.targetKey = r.targetKey ∧ c.nativeId = r.nativeId ∧
      c.plannedTitle = r.plannedTitle := by
    intro r hr
    have hcheck := hs.checks r hr
    cases haction : r.action with
    | create => exact ⟨r, hr, haction, rfl, rfl, rfl, rfl⟩
    | update => simp [CustodyRow.check, haction] at hcheck
    | delete =>
      obtain ⟨c, hc, hsource⟩ := hs.sources r hr haction
      obtain ⟨v, hcv, hrv⟩ := hsource.nativeId
      exact ⟨c, hc, hsource.action, hsource.resourceUid, hsource.targetKey, hcv.trans hrv.symm,
        hsource.plannedTitle⟩
  obtain ⟨c, hc, hca, hcr, hct, hcn, hcp⟩ := hcreate a ha
  obtain ⟨c', hc', hca', hcr', hct', hcn', hcp'⟩ := hcreate b hb
  by_cases hid : c.operationId = c'.operationId
  · have heq := Table.eq_of_key hs.ids hc hc' hid
    rw [← hcr, ← hcr', heq]
  exfalso
  have hapart := hs.apart c hc c' hc' hid
  have hkeys : c.targetKey = c'.targetKey := by rw [hct, hct', htarget]
  have hcollides : c.collides c' = true := by
    simp only [CustodyRow.collides, hca, hca', hkeys, beq_self_eq_true, Bool.true_and,
      Bool.or_eq_true, Bool.and_eq_true, beq_iff_eq]
    refine Or.inr ?_
    rcases hshared with ⟨v, hav, hbv⟩ | htitle
    · exact Or.inl ⟨by rw [hcn, hav]; rfl, by rw [hcn, hcn', hav, hbv]⟩
    · exact Or.inr (by rw [hcp, hcp', htitle])
  rw [hapart] at hcollides
  cases hcollides

theorem free_of_new (h : Written n s s') {d : CustodyRow} (hd : d ∈ s'.custody)
    (haction : d.action = .delete) (hnew : ∀ r ∈ s.custody, r.operationId ≠ d.operationId) :
    referenced s.db d.resourceUid = false ∧ ∃ c ∈ s.custody, Source c d := by
  cases h with
  | same => exact absurd rfl (hnew d hd)
  | host db => exact absurd rfl (hnew d hd)
  | insert _ new hguard hcheck =>
    rcases List.mem_append.mp hd with hd | hd
    · exact absurd rfl (hnew d hd)
    · rw [List.mem_singleton.mp hd] at haction ⊢
      obtain ⟨hfree, c, hc, hsource⟩ := source_of_guard hguard haction
      have hsome : new.nativeId.isSome = true := by
        simp only [CustodyRow.check, haction, Bool.and_eq_true] at hcheck
        exact hcheck.2.2
      exact ⟨hfree, c, hc, hsource hsome⟩
  | update old _ hold hlater =>
    rcases Table.mem_put.mp hd with ⟨hd, -⟩ | ⟨rfl, -⟩
    · exact absurd rfl (hnew d hd)
    · exact absurd hlater.operationId.symm (hnew old (Table.find_some hold).1)

/-- **The custody deletes only what it created.** -/
theorem custody_owned (h : custody.Reachable S) :
    -- one create of a Resource, and one grant of an Operation
    (∀ a ∈ S.store.custody, ∀ b ∈ S.store.custody, a.action = .create → b.action = .create →
      a.resourceUid = b.resourceUid → a = b) ∧
    (∀ (m n : ℕ) (a b : Answer) (id : Uuid), S.tasks[m]? = some (some (.pure a)) →
      S.tasks[n]? = some (some (.pure b)) → a.grants = some id → b.grants = some id → m = n) ∧
    (∀ (m n : ℕ) (a b : CreateIntent), S.tasks[m]? = some (some (.pure (.createGrant a .granted))) →
      S.tasks[n]? = some (some (.pure (.createGrant b .granted))) →
      a.execution.resourceUid = b.execution.resourceUid → m = n) ∧
    -- columns are written once
    (∀ S', custody.Path S S' → ∀ r ∈ S.store.custody, ∃ r' ∈ S'.store.custody, Later r r') ∧
    -- native ids and titles of a target
    (∀ a ∈ S.store.custody, ∀ b ∈ S.store.custody, a.targetKey = b.targetKey →
      ((∃ v, a.nativeId = some v ∧ b.nativeId = some v) ∨ a.plannedTitle = b.plannedTitle) →
      a.resourceUid = b.resourceUid) ∧
    -- what a delete names
    (∀ d ∈ S.store.custody, d.action = .delete → ∃ c ∈ S.store.custody, Source c d) ∧
    (∀ (n : ℕ) (e : Execution) (grant : DeleteGrant) (identity : ConfirmedIdentity),
      S.tasks[n]? = some (some (.pure (.deleteGrant e grant))) →
      grant = .granted identity ∨ grant = .alreadyGranted identity →
      ∃ c ∈ S.store.custody, ∃ d ∈ S.store.custody, Source c d ∧ d.same e = true ∧
        d.action = .delete ∧ confirmed c = some identity) ∧
    -- and when
    (∀ a S', custody.next S a = some S' → ∀ d ∈ S'.store.custody, d.action = .delete →
      (∀ r ∈ S.store.custody, r.operationId ≠ d.operationId) →
      referenced S.store.db d.resourceUid = false ∧ ∃ c ∈ S.store.custody, Source c d) := by
  have hs := owned_of_reachable h
  have hcreates : ∀ a ∈ S.store.custody, ∀ b ∈ S.store.custody, a.action = .create →
      b.action = .create → a.resourceUid = b.resourceUid → a = b := by
    intro a ha b hb haction haction' hres
    by_contra hne
    have hid : a.operationId ≠ b.operationId := fun hid => hne (Table.eq_of_key hs.ids ha hb hid)
    have hapart := hs.apart a ha b hb hid
    simp [CustodyRow.collides, haction, haction', hres] at hapart
  have hgrants : ∀ (m n : ℕ) (a b : Answer) (id : Uuid), S.tasks[m]? = some (some (.pure a)) →
      S.tasks[n]? = some (some (.pure b)) → a.grants = some id → b.grants = some id → m = n := by
    intro m n a b id hm hn ha hb
    have hmi := inserts_of_grants (ensured_of_reachable h hm) ha
    have hni := inserts_of_grants (ensured_of_reachable h hn) hb
    exact congrArg Prod.fst (Table.eq_of_key hs.inserts hmi hni rfl)
  refine ⟨hcreates, hgrants, ?_, ?_, fun a ha b hb => resource_of_shared hs ha hb, hs.sources, ?_, ?_⟩
  · intro m n a b hm hn hres
    -- both rows are creates of one Resource, so of one Operation
    obtain ⟨r, hr, hraction, r', hr', hlater⟩ := (ensured_of_reachable h hm fun h => by cases h).1
    obtain ⟨q, hq, hqaction, q', hq', hlater'⟩ := (ensured_of_reachable h hn fun h => by cases h).1
    simp only [CustodyRow.sameIntent, CustodyRow.same, Bool.and_eq_true, beq_iff_eq] at hr hq
    have heq : r' = q' := by
      refine hcreates r' hr' q' hq' ?_ ?_ ?_
      · exact (hlater.same CustodyRow.action fun _ => rfl).trans hraction
      · exact (hlater'.same CustodyRow.action fun _ => rfl).trans hqaction
      · rw [hlater.same CustodyRow.resourceUid fun _ => rfl,
          hlater'.same CustodyRow.resourceUid fun _ => rfl, hr.1.1.1.1.1.1.1.1.1.1.2,
          hq.1.1.1.1.1.1.1.1.1.1.2, hres]
    refine hgrants m n _ _ a.execution.operationId hm hn rfl ?_
    have hids : a.execution.operationId = b.execution.operationId := by
      rw [← hr.1.1.1.1.1.1.1.1.1.1.1, ← hq.1.1.1.1.1.1.1.1.1.1.1, ← hlater.operationId, heq,
        hlater'.operationId]
    exact congrArg some hids.symm
  · intro S' hpath
    exact (upheld.leads h hpath).rows
  · intro n e grant identity hn hgrant
    have hensured : Deletes S.store e identity := by
      have := ensured_of_reachable h hn
      rcases hgrant with rfl | rfl
      · exact this.2
      · exact this
    obtain ⟨c, d, hsource, hsame, haction, hconfirmed, ⟨c', hc', hcl⟩, d', hd', hdl⟩ := hensured
    refine ⟨c', hc', d', hd', hsource.later hcl hdl, ?_, ?_, confirmed_later hcl hconfirmed⟩
    · rw [hdl.same (fun r => r.same e) fun _ => rfl]
      exact hsame
    · exact (hdl.same CustodyRow.action fun _ => rfl).trans haction
  · intro a S' hnext d hd haction hnew
    rcases pool_next_cases hnext with ⟨i, -, rfl⟩ | ⟨n, w, c, k, x, store, rfl, -, hrun, rfl⟩ |
      ⟨n, -, rfl⟩
    · exact absurd rfl (hnew d hd)
    · have heq : (exec n w S.store c).2 = store := congrArg Prod.snd (Option.some.inj hrun)
      have hwritten := written_exec n w S.store c
      rw [heq] at hwritten
      exact free_of_new hwritten hd haction hnew
    · exact absurd rfl (hnew d hd)

/-! ### A run -/

/-- An execution, for the runs below. -/
def someExecution (operationId : Uuid) (action : V2.Action) (generation : ℕ) : Execution where
  operationId := operationId
  leaseToken := 7
  backendKey := operationId
  backendId := "backend"
  targetKey := "target"
  resourceUid := 10
  principal := "principal"
  action := action
  generation := generation
  form := formUrl
  space := "space"
  name := "name"
  spec := .obj []
  previousObserved := .obj []
  previousOutput := .obj []
  privateInputs := none

/-- The tables of a Host in which the Operation of an execution is being carried out. -/
def someDb (e : Execution) (phase : Phase) : Db where
  resources := [{
    uid := e.resourceUid, principal := e.principal, formUrl := e.form, space := e.space
    name := e.name, backendId := e.backendId, targetKey := e.targetKey, activeName := some e.name
    generation := e.generation, phase, spec := .obj [], lastOperation := e.operationId
    busyOperation := some e.operationId }]
  operations := [{
    id := e.operationId, resourceUid := e.resourceUid, principal := e.principal, replayKey := "key"
    requestFingerprint := "", action := e.action, generation := e.generation
    status := .reconciling, effect := .unknown, createdAt := 0, updatedAt := 0, retainUntil := 0
    backendId := e.backendId, targetKey := e.targetKey, backendKey := e.backendKey
    acceptedSpec := .obj [], dispatchPossible := true, leaseToken := some e.leaseToken
    leaseUntilMs := some 60000 }]

def someIntent : CreateIntent :=
  ⟨someExecution 1 .create 1, "title",
    "sha256:0123456789abcdef0123456789abcdef0123456789abcdef0123456789abcdef"⟩

/-- A process runs to its end. -/
def runsTo (n steps : ℕ) : List (PoolAction Request Outside) :=
  List.replicate steps (.step n { time := some 0 })

/-- A namespace is created, acknowledged and confirmed, and then deleted. -/
def deleteActions : List (PoolAction Request Outside) :=
  [.start (.host (someDb (someExecution 1 .create 1) .pending))] ++ runsTo 0 1 ++
  [.start (.grantCreate someIntent)] ++ runsTo 1 4 ++
  [.start (.acknowledgeCreate someIntent "native" "receipt")] ++ runsTo 2 2 ++
  [.start (.confirmCreate someIntent "native" "proof")] ++ runsTo 3 4 ++
  [.start (.host (someDb (someExecution 2 .delete 2) .deleting))] ++ runsTo 4 1 ++
  [.start (.grantDelete (someExecution 2 .delete 2)
    ⟨"native", someIntent.plannedTitle, someIntent.closureDigest, 1, 1⟩)] ++ runsTo 5 6

theorem custody_owned_deleteActions :
    ∃ S, custody.Reachable S ∧ ∃ d ∈ S.store.custody, d.action = .delete ∧
      ∃ c ∈ S.store.custody, Source c d := by
  obtain ⟨S, hS, hp⟩ := Machine.exists_reachable_of_run (M := custody) deleteActions
    (fun S => S.store.custody.any fun d => decide (d.action = .delete)) (by decide +kernel)
  obtain ⟨d, hd, haction⟩ := List.any_eq_true.mp hp
  obtain ⟨-, -, -, -, -, hsources, -⟩ := custody_owned hS
  exact ⟨S, hS, d, hd, of_decide_eq_true haction, hsources d hd (of_decide_eq_true haction)⟩

/-- **What a call has answered is true then, and in every later state.** -/
theorem answers_stand (h : custody.Reachable S) {n : ℕ}
    (ha : S.tasks[n]? = some (some (.pure a))) :
    Ensured n S.store a ∧ ∀ S', custody.Path S S' → Ensured n S'.store a := by
  have hnow := ensured_of_reachable h ha
  exact ⟨hnow, fun S' hpath => hnow.leads (upheld.leads h hpath)⟩

/-- The first grant is answered. -/
def answered : Option (Option (Program Answer)) → Bool
  | some (some (.pure (.createGrant _ .granted))) => true
  | _ => false

theorem answers_stand_deleteActions :
    ∃ S input, custody.Reachable S ∧
      S.tasks[1]? = some (some (.pure (.createGrant input .granted))) ∧ Granted S.store input := by
  obtain ⟨S, hS, hp⟩ := Machine.exists_reachable_of_run (M := custody) deleteActions
    (fun S => answered S.tasks[1]?) (by decide +kernel)
  unfold answered at hp
  split at hp
  · next input ha => exact ⟨S, input, hS, ha, ((answers_stand hS ha).1 fun h => by cases h).1⟩
  · cases hp

end Takoserver.V2.EdgeKv
