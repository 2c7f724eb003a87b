import Takoserver.V1.LedgerCalls

/-!
# The identity of a Resource

A uid belongs to one declared address, for its attestation names it, and it has
execution evidence from the commit that created it.  A rendering writes what was
read, at any time before: so the tables remember every Resource row there ever
was, whatever is stored now.  Of the uids that were seen at one address, all but
one at most were deleted.

A create is the first evidence of its uid.  So a uid whose Resource is gone does
not come back but by a rendering that is not current.
-/

namespace Takoserver.V1

open Machine

/-- What the attestation of a Resource names: its address, its uid and its Form. -/
def Resource.identity (r : Resource) : Address × String × FormRef :=
  (r.address, r.uid, r.document.formRef)

/-- There is execution evidence of a uid. -/
def Tables.IsEvidenced (t : Tables) (tenantUid : String × String) : Prop :=
  ∃ e ∈ t.evidence, e.tenantUid = tenantUid

/-- There is execution evidence that the Resource of a uid was deleted. -/
def Tables.IsErased (t : Tables) (tenantUid : String × String) : Prop :=
  ∃ e ∈ t.evidence, e.tenantUid = tenantUid ∧ e.action = .delete

/-- Every Resource has its attestation, and evidence. -/
structure Recorded (t : Tables) : Prop where
  attested : ∀ r ∈ t.resources, ∃ a ∈ t.attestations, a.incarnation = r.identity
  evidenced : ∀ r ∈ t.resources, t.IsEvidenced r.tenantUid

/-- What the tables remember of every Resource that was seen. -/
structure Remembered (s : Store) : Prop where
  current : s.tables.resources ⊆ s.seen
  exact : ∀ r ∈ s.seen, r.IsExact
  incarnations : (s.tables.attestations.map Attestation.tenantUid).Nodup
  attested : ∀ r ∈ s.seen, ∃ a ∈ s.tables.attestations, a.incarnation = r.identity
  evidenced : ∀ r ∈ s.seen, s.tables.IsEvidenced r.tenantUid
  /-- Evidence refers to its attestation. -/
  recorded : ∀ e ∈ s.tables.evidence, ∃ a ∈ s.tables.attestations, a.tenantUid = e.tenantUid
  erased : ∀ a ∈ s.tables.attestations, s.tables.IsErased a.tenantUid → a.state ≠ .live
  /-- One uid at most was seen at an address and not deleted. -/
  one : ∀ r ∈ s.seen, ∀ r' ∈ s.seen, r'.address = r.address →
    s.tables.IsErased r.tenantUid ∨ s.tables.IsErased r'.tenantUid ∨ r'.uid = r.uid
  /-- And none where there is nothing. -/
  vacant : ∀ r ∈ s.seen, s.tables.resourceAt r.address = none → s.tables.IsErased r.tenantUid

variable {tenantId uid operationId : String} {tenantUid : String × String} {m : Mutation}
  {claimOwner : Owner} {fencesRevision creates : Bool} {current : Resource → Bool}

section Calls

variable {D : Digests} {timestamp : Instant} {call : Call} {t t' : Tables}

theorem tenantUid_of_incarnation {a : Attestation} {address : Address} {uid : String}
    {formRef : FormRef} (h : a.incarnation = (address, uid, formRef)) :
    a.tenantUid = (address.tenantId, uid) := by
  simp only [Attestation.incarnation, Prod.mk.injEq] at h
  rw [Attestation.tenantUid, h.1, h.2.1]

theorem address_of_identity {r r' : Resource} (h : r'.identity = r.identity) :
    r'.address = r.address :=
  congrArg Prod.fst h

theorem tenantUid_of_identity {r r' : Resource} (h : r'.identity = r.identity) :
    r'.tenantUid = r.tenantUid := by
  have huid : r'.uid = r.uid := congrArg (fun i => i.2.1) h
  rw [Resource.tenantUid, Resource.tenantUid, address_of_identity h, huid]

theorem Tables.hasUid_iff :
    t.hasUid tenantId uid = true ↔ ∃ r ∈ t.resources, r.tenantUid = (tenantId, uid) := by
  simp only [Tables.hasUid, List.any_eq_true, decide_eq_true_eq, Resource.tenantUid, Prod.mk.injEq]

/-- One Resource for a uid. -/
theorem Recorded.eq_of_tenantUid (ht : Recorded t)
    (hn : (t.attestations.map Attestation.tenantUid).Nodup)
    (haddresses : (t.resources.map Resource.address).Nodup) {r r' : Resource}
    (hr : r ∈ t.resources) (hr' : r' ∈ t.resources) (h : r.tenantUid = r'.tenantUid) : r = r' := by
  obtain ⟨a, ha, hidentity⟩ := ht.attested r hr
  obtain ⟨a', ha', hidentity'⟩ := ht.attested r' hr'
  have heq : a = a' := Table.eq_of_key hn ha ha' <|
    (tenantUid_of_incarnation hidentity).trans
      (h.trans (tenantUid_of_incarnation hidentity').symm)
  rw [heq, hidentity'] at hidentity
  exact Table.eq_of_key haddresses hr hr' (congrArg Prod.fst hidentity).symm

theorem IsEvidenced.mono {e : List Evidence} (h : t.IsEvidenced tenantUid)
    (he : t'.evidence = t.evidence ++ e) :
    t'.IsEvidenced tenantUid := by
  obtain ⟨x, hx, hkey⟩ := h
  refine ⟨x, ?_, hkey⟩
  rw [he]
  exact List.mem_append_left _ hx

theorem IsErased.mono {e : List Evidence} (h : t.IsErased tenantUid)
    (he : t'.evidence = t.evidence ++ e) : t'.IsErased tenantUid := by
  obtain ⟨x, hx, hkey⟩ := h
  refine ⟨x, ?_, hkey⟩
  rw [he]
  exact List.mem_append_left _ hx

/-! ### What a call does to an attestation -/

/-- The incarnation a call arms the deletion of. -/
def Call.arms (tenantUid : String × String) : Call → Bool
  | .prepareDeletion address resourceUid _ _ => (address.tenantId, resourceUid) = tenantUid
  | _ => false

/-- What becomes of an attestation: it is never live again, and it stays live but where its
deletion is armed, or where there is nothing at its address. -/
structure Attestation.Becomes (call : Call) (t : Tables) (a a' : Attestation) : Prop where
  incarnation : a'.incarnation = a.incarnation
  live : a'.state = .live → a.state = .live
  stays : a.state = .live →
    a'.state = .live ∨ call.arms a.tenantUid = true ∨ t.resourceAt a.address = none

theorem Attestation.Becomes.refl (call : Call) (t : Tables) (a : Attestation) :
    a.Becomes call t a :=
  ⟨rfl, id, Or.inl⟩

theorem attestation_of_release {tenantId resourceUid effectId : String} {elsewhere : Bool}
    (h : uncommittedResourceIncarnationRelease tenantId resourceUid effectId elsewhere t = some t')
    {a : Attestation} (ha : a ∈ t.attestations) (hevidenced : t.IsEvidenced a.tenantUid) :
    a ∈ t'.attestations := by
  unfold uncommittedResourceIncarnationRelease at h
  split at h
  swap
  · cases h
    exact ha
  split at h
  · cases h
  next hnone =>
  cases h
  refine Table.mem_delete.mpr ⟨ha, decide_eq_false fun hgone => hnone ?_⟩
  obtain ⟨e, he, hkey⟩ := hevidenced
  exact List.any_eq_true.mpr ⟨e, he, decide_eq_true (hkey.trans hgone.1)⟩

/-- **What a call does to the attestation of a Resource that was committed.**  It is not removed,
for its evidence refers to it. -/
theorem Call.attestation_next (hn : (t.attestations.map Attestation.tenantUid).Nodup)
    (h : call.apply D timestamp t = some t') {a : Attestation} (ha : a ∈ t.attestations)
    (hevidenced : t.IsEvidenced a.tenantUid) : ∃ a' ∈ t'.attestations, a.Becomes call t a' := by
  have hkeep : a ∈ t'.attestations → ∃ a' ∈ t'.attestations, a.Becomes call t a' :=
    fun hmem => ⟨a, hmem, .refl call t a⟩
  -- what both commits do: a pending attestation may close
  have hcommit : ∀ (m : Mutation) (operationId : String) (kind : OperationKind),
      t'.attestations =
        (m.closeTombstone operationId (m.concludeEffect operationId kind t)).attestations →
      ∃ a' ∈ t'.attestations, a.Becomes call t a' := by
    intro m operationId kind heq
    have hbase : (m.concludeEffect operationId kind t).attestations = t.attestations := by
      rw [concludeEffect_eq]
    rw [heq]
    unfold Mutation.closeTombstone
    split
    · rw [hbase]
      by_cases hp : a.tenantUid = (m.address.tenantId, m.resourceUid) ∧ a.state = .pending
      · refine ⟨{ a with state := .closed },
          Table.mem_update.mpr (Or.inr ⟨a, ha, decide_eq_true hp, rfl⟩), rfl,
          fun h => (by cases h), fun hlive => ?_⟩
        rw [hp.2] at hlive
        cases hlive
      · exact ⟨a, Table.mem_update.mpr (Or.inl ⟨ha, decide_eq_false hp⟩), .refl call t a⟩
    · exact ⟨a, by rw [hbase]; exact ha, .refl call t a⟩
  cases call with
  | reserveIncarnation =>
    cases h
    refine hkeep ?_
    unfold reserveResourceIncarnation
    split
    · exact ha
    · exact List.mem_append_left _ ha
  | recordEffect e =>
    cases h
    refine hkeep ?_
    unfold recordResourceEffect insertEffect
    split
    · split <;> exact ha
    · exact ha
  | prepareDeletion address resourceUid formRef =>
    have harm : t'.attestations = (armDeletion address resourceUid formRef t).attestations := by
      unfold Call.apply prepareResourceDeletion at h
      dsimp only at h
      repeat' split at h
      all_goals cases h
      rfl
    rw [harm]
    unfold armDeletion
    split
    · by_cases hp : a.resourceUid = resourceUid ∧ a.address = address ∧ a.formRef = formRef ∧
          a.state = .live
      · refine ⟨{ a with state := .pending },
          Table.mem_update.mpr (Or.inr ⟨a, ha, decide_eq_true hp, rfl⟩), rfl,
          fun h => (by cases h), fun _ => Or.inr (Or.inl ?_)⟩
        simp only [Call.arms, Attestation.tenantUid, hp.1, hp.2.1, decide_eq_true_eq]
      · exact ⟨a, Table.mem_update.mpr (Or.inl ⟨ha, decide_eq_false hp⟩), .refl _ t a⟩
    · exact ⟨a, List.mem_append_left _ ha, .refl _ t a⟩
  | releaseIncarnation => exact hkeep (attestation_of_release h ha hevidenced)
  | settlePrecondition =>
    obtain ⟨⟨_, u⟩, hu, rfl⟩ := Option.map_eq_some_iff.mp h
    exact hkeep (by rw [(precondition_frame hu).1.attestations]; exact ha)
  | commitDefinitiveFailure c =>
    obtain ⟨⟨_, u⟩, hu, rfl⟩ := Option.map_eq_some_iff.mp h
    obtain ⟨hwell, hinitial, v, hv, -, -, -, hattestations, -⟩ := definitiveFailure_stages hu
    rw [hattestations]
    by_cases hp : (decide (a.tenantUid = (c.saga.target.tenantId, c.saga.resourceUid) ∧
        a.state = .live) && c.compensation.isSome) = true
    · -- a compensation cancels a live attestation, and there is nothing at its address
      have hmem : { a with state := .cancelled } ∈ (c.conclude t).attestations :=
        Table.mem_update.mpr (Or.inr ⟨a, ha, hp, rfl⟩)
      simp only [Bool.and_eq_true, decide_eq_true_eq] at hp
      obtain ⟨-, hvacant, hattests⟩ := compensation_vacant hwell hinitial hp.2
      obtain ⟨b, hb, hkey, haddress⟩ := attests_iff.mp hattests
      have hab : a = b := Table.eq_of_key hn ha hb (hp.1.1.trans hkey.symm)
      split at hv
      · next hnone =>
        simp only [Bool.and_eq_true, Option.isNone_iff_eq_none] at hnone
        rw [hnone.2] at hp
        cases hp.2
      · cases hv
        refine ⟨_, hmem, rfl, fun h => (by cases h), fun _ => Or.inr (Or.inr ?_)⟩
        rw [hab, of_decide_eq_true haddress]
        exact hvacant
    have hmem : a ∈ (c.conclude t).attestations :=
      Table.mem_update.mpr (Or.inl ⟨ha, Bool.eq_false_iff.mpr hp⟩)
    split at hv
    · exact ⟨a, attestation_of_release hv hmem hevidenced, .refl _ t a⟩
    · cases hv
      exact ⟨a, hmem, .refl _ t a⟩
  | commitImmediate m operationId kind =>
    unfold Call.apply commitImmediateMutation at h
    dsimp only at h
    split at h
    · exact hcommit m operationId kind (commitStatements_eq h).2.2.2.2
    · cases h
  | commitDeferred operation m =>
    unfold Call.apply commitDeferredMutation at h
    dsimp only at h
    split at h
    · exact hcommit m operation.id operation.operation (commitStatements_eq h).2.2.2.2
    · cases h
  | _ => exact hkeep (by rw [(Call.apply_sameLedger rfl h).2]; exact ha)

section

variable {s : Store} (hs : Numbered s) (hresource : ResourceResult m s.tables t')
  (hresult : CommitResult D m operationId claimOwner fencesRevision creates current timestamp s.tables t')

include hs hresource hresult

/-- A write for a uid that has evidence has a Resource of it to write: a create is the first
evidence of its uid. -/
theorem exists_predecessor {d : Document} (hd : m.document = some d)
    (hevidenced : s.tables.IsEvidenced (m.row d).tenantUid) :
    ∃ r ∈ s.tables.resources, r.address = m.address ∧ r.tenantUid = (m.row d).tenantUid := by
  have huid := hresource.uid d hd
  have hkey : (m.row d).tenantUid = (m.address.tenantId, m.resourceUid) := by
    rw [← huid]
    rfl
  have hfence := hresult.evidenceFence
  simp only [Mutation.evidenceFence, Bool.and_eq_true] at hfence
  rcases Mutation.predecessorFence_iff hfence.2 with
    ⟨hdelete, hrevision, -⟩ | ⟨-, r, hr, hruid, -⟩
  · have hchanged : m.isUnchanged = false := by
      by_contra hunchanged
      have hidentified := hresource.identified
      simp [Mutation.isIdentified, hunchanged, hrevision, hd] at hidentified
    have hfirst := hresult.first hchanged (by simp [Mutation.action, hdelete, hrevision])
    have hsequence := hs.sequence (m.address.tenantId, m.resourceUid)
    rw [nextSequence_eq hsequence] at hfirst
    obtain ⟨e, he, hekey⟩ := hevidenced
    have hmem : e ∈ evidenceOf (m.address.tenantId, m.resourceUid) s.tables.evidence :=
      List.mem_filter.mpr ⟨he, decide_eq_true (hekey.trans hkey)⟩
    have hpos := List.length_pos_of_mem hmem
    omega
  · obtain ⟨hmem, haddress⟩ := (Tables.resourceAt_eq_some hs.addresses).mp hr
    refine ⟨r, hmem, haddress, ?_⟩
    rw [hkey, Resource.tenantUid, haddress, hruid]

theorem hasUid_false_of_commit (hevidenced : s.tables.IsEvidenced (tenantId, uid))
    (hgone : s.tables.hasUid tenantId uid = false) : t'.hasUid tenantId uid = false := by
  rw [Bool.eq_false_iff, Ne, Tables.hasUid_iff] at hgone ⊢
  rintro ⟨r, hr, hkey⟩
  rcases (hresource.mem r).mp hr with ⟨hold, -⟩ | ⟨d, hd, rfl⟩
  · exact hgone ⟨r, hold, hkey⟩
  · obtain ⟨r, hr, -, hkey'⟩ := exists_predecessor hs hresource hresult hd (hkey ▸ hevidenced)
    exact hgone ⟨r, hr, hkey'.trans hkey⟩

end

end Calls

section Runs

variable {D : Digests} {s u : Store} {timestamp : Instant} {call : Call}

/-- The Resource of a uid has an address and a Form that satisfy `P`, if it is there. -/
def Tables.Fixes (t : Tables) (tenantUid : String × String) (P : Address → FormRef → Prop) : Prop :=
  ∀ r ∈ t.resources, r.tenantUid = tenantUid → P r.address r.document.formRef

/-- **A uid that was committed and is gone stays gone**, while renderings are current. -/
theorem hasUid_false_of_next (hs : Numbered s) (hcurrent : call.isCurrent s.tables = true)
    (h : (store D).next s (timestamp, call) = some u) (hevidenced : s.tables.IsEvidenced (tenantId, uid))
    (hgone : s.tables.hasUid tenantId uid = false) : u.tables.hasUid tenantId uid = false := by
  obtain ⟨-, happly, -⟩ := store_next h
  cases hcall : call.mutation with
  | none =>
    obtain ⟨-, g, hg, hresources⟩ := Call.apply_rendering hcall hcurrent happly
    rw [Bool.eq_false_iff, Ne, Tables.hasUid_iff] at hgone ⊢
    rintro ⟨_, hr', hkey⟩
    rw [hresources] at hr'
    obtain ⟨r, hr, rfl⟩ := List.mem_map.mp hr'
    rw [Resource.tenantUid, hg.address r hr, hg.uid r hr] at hkey
    exact hgone ⟨r, hr, hkey⟩
  | some c =>
    obtain ⟨hresource, _, _, _, _, hresult⟩ := Call.apply_commit hs.addresses hcall happly
    exact hasUid_false_of_commit hs hresource hresult hevidenced hgone

theorem commit_formRef {t' : Tables} {d : Document}
    (haddresses : (s.tables.resources.map Resource.address).Nodup)
    (hresult : CommitResult D m operationId claimOwner fencesRevision creates current timestamp
      s.tables t') (hd : m.document = some d) {r : Resource} (hr : r ∈ s.tables.resources)
    (haddress : r.address = m.address) : r.document.formRef = d.formRef := by
  have hat := (Tables.resourceAt_eq_some haddresses).mpr ⟨hr, haddress⟩
  have hfence := hresult.evidenceFence
  simp only [Mutation.evidenceFence, Mutation.predecessorFence, hat, Bool.and_eq_true] at hfence
  replace hfence := hfence.2
  split at hfence
  · simp at hfence
  · simp only [Option.any_some, Bool.and_eq_true, List.any_eq_true, hd, Option.all_some,
      decide_eq_true_eq, Mutation.rowIsExact] at hfence
    obtain ⟨⟨-, a, -, ⟨hexact, -⟩, hform⟩, -⟩ := hfence
    rw [← hform]
    exact hexact.2.2.2.2.2.2.2.2.2

/-- **A uid that was committed keeps its address and its Form.** -/
theorem fixes_of_next (hs : Numbered s) (hcurrent : call.isCurrent s.tables = true)
    (h : (store D).next s (timestamp, call) = some u) {P : Address → FormRef → Prop}
    (hevidenced : s.tables.IsEvidenced tenantUid)
    (hfixes : s.tables.Fixes tenantUid P) :
    u.tables.Fixes tenantUid P := by
  obtain ⟨-, happly, -⟩ := store_next h
  cases hcall : call.mutation with
  | none =>
    obtain ⟨-, g, hg, hresources⟩ := Call.apply_rendering hcall hcurrent happly
    intro r' hr' hkey
    rw [hresources] at hr'
    obtain ⟨r, hr, rfl⟩ := List.mem_map.mp hr'
    rw [Resource.tenantUid, hg.address r hr, hg.uid r hr] at hkey
    rw [hg.address r hr, hg.formRef r hr]
    exact hfixes r hr hkey
  | some c =>
    obtain ⟨hresource, _, _, _, _, hresult⟩ := Call.apply_commit hs.addresses hcall happly
    intro r hr hkey
    rcases (hresource.mem r).mp hr with ⟨hold, -⟩ | ⟨d, hd, rfl⟩
    · exact hfixes r hold hkey
    · -- the row a commit writes has a predecessor of its uid and Form
      obtain ⟨r, hr, haddress, hkey'⟩ :=
        exists_predecessor hs hresource hresult hd (hkey ▸ hevidenced)
      have hold := hfixes r hr (hkey'.trans hkey)
      rw [haddress, commit_formRef hs.addresses hresult hd hr haddress] at hold
      exact hold

theorem isEvidenced_of_next (hs : Numbered s) (h : (store D).next s (timestamp, call) = some u)
    (hevidenced : s.tables.IsEvidenced tenantUid) :
    u.tables.IsEvidenced tenantUid := by
  obtain ⟨-, happly, -⟩ := store_next h
  rcases (Call.apply_evidence (s := s) (u := u) hs.addresses happly).2 with
    ⟨-, hsame⟩ | ⟨m, operationId, e, -, -, -, happend, -⟩
  · exact IsEvidenced.mono hevidenced (e := []) (by rw [hsame, List.append_nil])
  · exact IsEvidenced.mono hevidenced happend

/-! ### What is remembered -/

section

variable (hs : Remembered s)

include hs

/-- What is seen later is a Resource that was seen, or the one that a create has committed. -/
theorem Remembered.origin (hnumbered : Numbered s) (h : (store D).next s (timestamp, call) = some u)
    {r' : Resource} (hr' : r' ∈ u.seen) :
    (∃ r ∈ s.seen, r'.identity = r.identity ∧ (r.IsExact → r'.IsExact)) ∨
      ∃ m operationId d, call.mutation = some (m, operationId) ∧ m.document = some d ∧
        r' = m.row d ∧ s.tables.resourceAt m.address = none ∧ m.expectedRevision = none := by
  obtain ⟨-, happly, -⟩ := store_next h
  obtain ⟨hread, hseen⟩ := store_seen h
  have hold : r' ∈ s.seen → ∃ r ∈ s.seen, r'.identity = r.identity ∧ (r.IsExact → r'.IsExact) :=
    fun hmem => ⟨r', hmem, rfl, id⟩
  rw [hseen, List.mem_append] at hr'
  rcases hr' with hr' | hr'
  · exact Or.inl (hold hr')
  cases hcall : call.mutation with
  | none =>
    left
    obtain ⟨-, hsame | ⟨read, relations, revision, content, rfl, heq⟩⟩ :=
      Call.apply_resources hcall happly
    · rw [hsame] at hr'
      exact hold (hs.current hr')
    · rw [heq] at hr'
      rcases Table.mem_update.mp hr' with ⟨hmem, -⟩ | ⟨-, -, -, rfl⟩
      · exact hold (hs.current hmem)
      · -- the row that a rendering writes is the one that was read
        simp only [Call.isRead, Bool.and_eq_true, decide_eq_true_eq] at hread
        exact ⟨read, hread.1, rfl, fun he =>
          ⟨he.1, he.2.1, he.2.2.1, he.2.2.2.1, he.2.2.2.2.1, he.2.2.2.2.2.1, rfl⟩⟩
  | some c =>
    obtain ⟨m, operationId⟩ := c
    obtain ⟨hresource, _, _, _, _, hresult⟩ := Call.apply_commit hnumbered.addresses hcall happly
    rcases (hresource.mem r').mp hr' with ⟨hmem, -⟩ | ⟨d, hd, rfl⟩
    · exact Or.inl (hold (hs.current hmem))
    have hfence := hresult.evidenceFence
    simp only [Mutation.evidenceFence, Bool.and_eq_true] at hfence
    rcases Mutation.predecessorFence_iff hfence.2 with ⟨-, hrevision, hfree⟩ | ⟨-, r, hr, huid, -⟩
    · exact Or.inr ⟨m, operationId, d, rfl, hd, rfl, hfree, hrevision⟩
    · obtain ⟨hmem, haddress⟩ := (Tables.resourceAt_eq_some hnumbered.addresses).mp hr
      refine Or.inl ⟨r, hs.current hmem, ?_, fun _ => hresource.isExact hd⟩
      rw [Resource.identity, Resource.identity, haddress, huid, ← hresource.uid d hd,
        commit_formRef hnumbered.addresses hresult hd hmem haddress]
      rfl

/-- The attestation of a uid with evidence, in the next state. -/
theorem Remembered.attestation_next (happly : call.apply D timestamp s.tables = some u.tables)
    (hevidenced : s.tables.IsEvidenced tenantUid) :
    ∃ a ∈ s.tables.attestations, a.tenantUid = tenantUid ∧
      ∃ a' ∈ u.tables.attestations, a'.tenantUid = tenantUid ∧ a.Becomes call s.tables a' := by
  obtain ⟨e, he, hkey⟩ := hevidenced
  obtain ⟨a, ha, hakey⟩ := hs.recorded e he
  rw [hkey] at hakey
  obtain ⟨a', ha', hbecomes⟩ :=
    Call.attestation_next hs.incarnations happly ha ⟨e, he, hkey.trans hakey.symm⟩
  exact ⟨a, ha, hakey, a', ha', (tenantUid_of_incarnation hbecomes.incarnation).trans hakey, hbecomes⟩

/-- The attestation of a Resource that was seen, in the next state. -/
theorem Remembered.attested_next (happly : call.apply D timestamp s.tables = some u.tables)
    {r : Resource} (hr : r ∈ s.seen) :
    ∃ a ∈ u.tables.attestations, a.incarnation = r.identity := by
  obtain ⟨a, ha, hidentity⟩ := hs.attested r hr
  obtain ⟨a', ha', hbecomes⟩ := Call.attestation_next hs.incarnations happly ha
    ((tenantUid_of_incarnation hidentity).symm ▸ hs.evidenced r hr)
  exact ⟨a', ha', hbecomes.incarnation.trans hidentity⟩

/-- A call that commits nothing. -/
theorem Remembered.next_of_mutation_none (hnumbered : Numbered s) (hcall : call.mutation = none)
    (h : (store D).next s (timestamp, call) = some u) :
    Remembered u := by
  obtain ⟨-, happly, -⟩ := store_next h
  have hevidence := (Call.apply_resources hcall happly).1
  have hkeys := (Call.apply_attestations hcall hs.incarnations happly).keys
  have herased : ∀ {k}, u.tables.IsErased k ↔ s.tables.IsErased k := by
    intro k
    rw [Tables.IsErased, Tables.IsErased, hevidence]
  have horigin : ∀ r' ∈ u.seen, ∃ r ∈ s.seen, r'.identity = r.identity ∧
      (r.IsExact → r'.IsExact) := by
    intro r' hr'
    rcases hs.origin hnumbered h hr' with hold | ⟨m, _, _, hm, -⟩
    · exact hold
    · rw [hcall] at hm
      cases hm
  refine ⟨?_, fun r' hr' => ?_, hkeys, fun r' hr' => ?_, fun r' hr' => ?_, fun e he => ?_,
    fun a' ha' her => ?_, fun r' hr' q' hq' haddress => ?_, fun r' hr' hvacant => ?_⟩
  · rw [(store_seen h).2]
    exact List.subset_append_right _ _
  · obtain ⟨r, hr, -, hexact⟩ := horigin r' hr'
    exact hexact (hs.exact r hr)
  · obtain ⟨r, hr, hidentity, -⟩ := horigin r' hr'
    rw [hidentity]
    exact hs.attested_next happly hr
  · obtain ⟨r, hr, hidentity, -⟩ := horigin r' hr'
    rw [tenantUid_of_identity hidentity]
    exact IsEvidenced.mono (hs.evidenced r hr) (e := []) (by rw [hevidence, List.append_nil])
  · rw [hevidence] at he
    obtain ⟨_, -, -, a', ha', hkey, -⟩ := hs.attestation_next happly ⟨e, he, rfl⟩
    exact ⟨a', ha', hkey⟩
  · rw [herased] at her
    obtain ⟨e, he, hkey, -⟩ := id her
    obtain ⟨a, ha, hakey, b, hb, hbkey, hbecomes⟩ := hs.attestation_next happly ⟨e, he, hkey⟩
    rw [Table.eq_of_key hkeys ha' hb hbkey.symm]
    exact fun hlive => hs.erased a ha (hakey ▸ her) (hbecomes.live hlive)
  · obtain ⟨r, hr, hidentity, -⟩ := horigin r' hr'
    obtain ⟨q, hq, hidentity', -⟩ := horigin q' hq'
    rw [herased, herased, tenantUid_of_identity hidentity, tenantUid_of_identity hidentity']
    simp only [Resource.identity, Prod.mk.injEq] at hidentity hidentity'
    rw [hidentity.2.1, hidentity'.2.1]
    exact hs.one r hr q hq (by rw [← hidentity.1, ← hidentity'.1, haddress])
  · obtain ⟨r, hr, hidentity, -⟩ := horigin r' hr'
    rw [herased, tenantUid_of_identity hidentity]
    refine hs.vacant r hr ?_
    rw [Tables.resourceAt_eq_none] at hvacant ⊢
    intro x hx haddress
    have hmem : x.address ∈ u.tables.resources.map Resource.address := by
      rw [Call.apply_addresses hcall happly]
      exact List.mem_map_of_mem hx
    obtain ⟨y, hy, hxy⟩ := List.mem_map.mp hmem
    exact hvacant y hy (by rw [hxy, haddress]; exact (address_of_identity hidentity).symm)

/-- A call that commits. -/
theorem Remembered.next_of_commit (hnumbered : Numbered s)
    (hcall : call.mutation = some (m, operationId))
    (h : (store D).next s (timestamp, call) = some u) : Remembered u := by
  obtain ⟨-, happly, -⟩ := store_next h
  obtain ⟨hresource, claimOwner, fencesRevision, creates, current, hresult⟩ :=
    Call.apply_commit hnumbered.addresses hcall happly
  have hevidence := hresult.evidence
  have hkeys : (u.tables.attestations.map Attestation.tenantUid).Nodup := by
    rcases hresult.attestations with hsame | ⟨-, hframe⟩
    · rw [hsame]
      exact hs.incarnations
    · exact hs.incarnations.sublist hframe.keys
  have hkept : ∀ {k}, s.tables.IsErased k → u.tables.IsErased k := fun her =>
    IsErased.mono her hevidence
  -- what is seen was seen, or is the one row a create has written
  have horigin : ∀ r' ∈ u.seen, (∃ r ∈ s.seen, r'.identity = r.identity ∧
      (r.IsExact → r'.IsExact)) ∨ ∃ d, m.document = some d ∧ r' = m.row d ∧
        s.tables.resourceAt m.address = none ∧ m.expectedRevision = none := by
    intro r' hr'
    rcases hs.origin hnumbered h hr' with hold | ⟨_, _, d, hm, hd, heq, hvacant, hrevision⟩
    · exact Or.inl hold
    · rw [hcall] at hm
      cases hm
      exact Or.inr ⟨d, hd, heq, hvacant, hrevision⟩
  -- the Resource it deletes was seen
  have hdeleted : m.isDelete = true → ∃ r ∈ s.seen, r.address = m.address ∧ r.uid = m.resourceUid := by
    intro hdelete
    have hfence := hresult.evidenceFence
    simp only [Mutation.evidenceFence, Bool.and_eq_true] at hfence
    rcases Mutation.predecessorFence_iff hfence.2 with ⟨hnot, -⟩ | ⟨-, r, hr, huid, -⟩
    · rw [hdelete] at hnot
      cases hnot
    · obtain ⟨hmem, haddress⟩ := (Tables.resourceAt_eq_some hnumbered.addresses).mp hr
      exact ⟨r, hs.current hmem, haddress, huid⟩
  have hchanged : m.isDelete = true → m.isUnchanged = false := by
    intro hdelete
    simp only [Mutation.isDelete, Mutation.isUnchanged] at hdelete ⊢
    split at hdelete <;> simp_all
  obtain ⟨b, hb, hbkey, hbform⟩ : ∃ b ∈ s.tables.attestations,
      b.tenantUid = (m.address.tenantId, m.resourceUid) ∧ b.address = m.address ∧
        ∀ d, m.document = some d → b.formRef = d.formRef := by
    have hfence := hresult.evidenceFence
    simp only [Mutation.evidenceFence, Bool.and_eq_true] at hfence
    obtain ⟨b, hb, hbkey, hb'⟩ := attests_iff.mp hfence.1.1.1
    simp only [Bool.and_eq_true, decide_eq_true_eq] at hb'
    refine ⟨b, hb, hbkey, hb'.1, fun d hd => ?_⟩
    simpa [hd] using hb'.2
  refine ⟨?_, fun r' hr' => ?_, hkeys, fun r' hr' => ?_, fun r' hr' => ?_, fun e he => ?_,
    fun a' ha' her hlive => ?_, fun r' hr' q' hq' haddress => ?_, fun r' hr' hvacant => ?_⟩
  · rw [(store_seen h).2]
    exact List.subset_append_right _ _
  · rcases horigin r' hr' with ⟨r, hr, -, hexact⟩ | ⟨d, hd, rfl, -⟩
    · exact hexact (hs.exact r hr)
    · exact hresource.isExact hd
  · rcases horigin r' hr' with ⟨r, hr, hidentity, -⟩ | ⟨d, hd, rfl, -⟩
    · rw [hidentity]
      exact hs.attested_next happly hr
    · rcases hresult.attestations with hsame | ⟨hdelete, -⟩
      · refine ⟨b, by rw [hsame]; exact hb, ?_⟩
        have huid : b.resourceUid = d.uid :=
          (congrArg Prod.snd hbkey).trans (hresource.uid d hd).symm
        rw [Attestation.incarnation, hbform.1, huid, hbform.2 d hd]
        rfl
      · rw [← m.document_isNone, hd] at hdelete
        cases hdelete
  · rcases horigin r' hr' with ⟨r, hr, hidentity, -⟩ | ⟨d, hd, rfl, -, hrevision⟩
    · rw [tenantUid_of_identity hidentity]
      exact IsEvidenced.mono (hs.evidenced r hr) hevidence
    · have hunchanged : m.isUnchanged = false := by
        by_contra hunchanged
        have hidentified := hresource.identified
        simp [Mutation.isIdentified, hunchanged, hrevision, hd] at hidentified
      rw [hunchanged] at hevidence
      unfold Tables.IsEvidenced
      rw [hevidence]
      refine ⟨_, List.mem_append_right _ List.mem_cons_self, ?_⟩
      rw [Resource.tenantUid, Mutation.row, hresource.uid d hd]
      rfl
  · rw [hevidence, List.mem_append] at he
    rcases he with he | he
    · obtain ⟨_, -, -, a', ha', hkey, -⟩ := hs.attestation_next happly ⟨e, he, rfl⟩
      exact ⟨a', ha', hkey⟩
    have hekey : e.tenantUid = (m.address.tenantId, m.resourceUid) := by
      split at he
      · cases he
      · rw [List.mem_singleton] at he
        rw [he]
        rfl
    rcases hresult.attestations with hsame | ⟨hdelete, -⟩
    · exact ⟨b, by rw [hsame]; exact hb, hbkey.trans hekey.symm⟩
    · obtain ⟨r, hr, haddress, huid⟩ := hdeleted hdelete
      obtain ⟨a', ha', hidentity⟩ := hs.attested_next happly hr
      refine ⟨a', ha', ?_⟩
      rw [tenantUid_of_incarnation hidentity, hekey, haddress, huid]
  · -- an erased uid has no live attestation: the one that is deleted was pending
    obtain ⟨e, he, hkey, hdelete⟩ := her
    rw [hevidence, List.mem_append] at he
    rcases he with he | he
    · obtain ⟨a, ha, hakey, c, hc, hckey, hbecomes⟩ := hs.attestation_next happly ⟨e, he, hkey⟩
      rw [Table.eq_of_key hkeys ha' hc hckey.symm] at hlive
      exact hs.erased a ha (hakey ▸ ⟨e, he, hkey, hdelete⟩) (hbecomes.live hlive)
    split at he
    · cases he
    rw [List.mem_singleton] at he
    subst he
    have hisDelete : m.isDelete = true := by
      by_contra hnot
      rw [Bool.not_eq_true] at hnot
      simp only [Mutation.action, hnot] at hdelete
      cases hrevision : m.expectedRevision <;> simp [hrevision] at hdelete
    obtain ⟨r, hr, haddress, huid⟩ := hdeleted hisDelete
    have hrkey : r.tenantUid = a'.tenantUid := by
      rw [← hkey, Resource.tenantUid, haddress, huid]
      rfl
    obtain ⟨a, ha, hakey, c, hc, hckey, hbecomes⟩ :=
      hs.attestation_next happly (hrkey ▸ hs.evidenced r hr)
    rw [Table.eq_of_key hkeys ha' hc hckey.symm] at hlive
    obtain ⟨p, hp, hpkey, hpending⟩ := hresult.pending hisDelete
    have hap : a = p := Table.eq_of_key hs.incarnations ha hp (by rw [hakey, ← hkey, hpkey]; rfl)
    have hstate := hbecomes.live hlive
    rw [hap, hpending] at hstate
    cases hstate
  · rcases horigin r' hr' with ⟨r, hr, hidentity, -⟩ | ⟨d, hd, rfl, hvacant, -⟩ <;>
      rcases horigin q' hq' with ⟨q, hq, hidentity', -⟩ | ⟨d', hd', rfl, hvacant', -⟩
    · rw [tenantUid_of_identity hidentity, tenantUid_of_identity hidentity']
      simp only [Resource.identity, Prod.mk.injEq] at hidentity hidentity'
      rw [hidentity.2.1, hidentity'.2.1]
      exact (hs.one r hr q hq (by rw [← hidentity.1, ← hidentity'.1, haddress])).imp hkept
        (Or.imp_left hkept)
    · left
      rw [tenantUid_of_identity hidentity]
      refine hkept (hs.vacant r hr ?_)
      rw [← address_of_identity hidentity, ← haddress]
      exact hvacant'
    · right
      left
      rw [tenantUid_of_identity hidentity']
      refine hkept (hs.vacant q hq ?_)
      rw [← address_of_identity hidentity', haddress]
      exact hvacant
    · rw [hd] at hd'
      cases hd'
      exact Or.inr (Or.inr rfl)
  · by_cases haddress : r'.address = m.address
    · -- nothing is left where the Resource was: it was deleted
      rw [haddress, hresource.resourceAt, Option.map_eq_none_iff] at hvacant
      have hisDelete : m.isDelete = true := by
        rw [← m.document_isNone, hvacant]
        rfl
      rcases horigin r' hr' with ⟨r, hr, hidentity, -⟩ | ⟨d, hd, -⟩
      swap
      · rw [hvacant] at hd
        cases hd
      obtain ⟨p, hp, hpaddress, hpuid⟩ := hdeleted hisDelete
      rw [tenantUid_of_identity hidentity]
      have hraddress : r.address = m.address := (address_of_identity hidentity).symm.trans haddress
      rcases hs.one p hp r hr (hraddress.trans hpaddress.symm) with ⟨e, he, hkey, hdelete⟩ | her | huid
      · refine absurd hdelete (hresult.last (hchanged hisDelete) e he ?_)
        rw [hkey, Resource.tenantUid, hpaddress, hpuid]
      · exact hkept her
      · rw [hchanged hisDelete] at hevidence
        unfold Tables.IsErased
        rw [hevidence]
        refine ⟨_, List.mem_append_right _ List.mem_cons_self, ?_, ?_⟩
        · rw [Resource.tenantUid, hraddress, huid, hpuid]
          rfl
        · simp [Mutation.action, hisDelete]
    · rcases horigin r' hr' with ⟨r, hr, hidentity, -⟩ | ⟨d, -, rfl, -⟩
      swap
      · exact absurd rfl haddress
      rw [tenantUid_of_identity hidentity]
      refine hkept (hs.vacant r hr ?_)
      have hraddress := address_of_identity hidentity
      rw [Tables.resourceAt_eq_none] at hvacant ⊢
      intro x hx hxr
      refine hvacant x ((hresource.mem x).mpr (Or.inl ⟨hx, fun hxm => haddress ?_⟩)) ?_
      · rw [hraddress, ← hxr, hxm]
      · rw [hxr, hraddress]

end

/-- Every run remembers the uids that were committed. -/
theorem remembered_of_reachable (hs : (store D).Reachable s) : Remembered s := by
  refine Reachable.invariant (P := Remembered) ?_ ?_ hs
  · constructor <;> simp [store]
  rintro s ⟨_, call⟩ u hreach hinv h
  have hnumbered := numbered_of_reachable hreach
  cases hcall : call.mutation with
  | none => exact hinv.next_of_mutation_none hnumbered hcall h
  | some c => exact hinv.next_of_commit hnumbered hcall h

theorem Remembered.recordedTables (hs : Remembered s) : Recorded s.tables :=
  ⟨fun r hr => hs.attested r (hs.current hr), fun r hr => hs.evidenced r (hs.current hr)⟩

/-- What was seen has been seen ever since. -/
theorem seen_subset_of_path (h : (store D).Path s u) : s.seen ⊆ u.seen := by
  refine PathVia.invariant (P := fun t => s.seen ⊆ t.seen) ?_ h (List.Subset.refl _)
  rintro t ⟨_, _⟩ t' ht - hn
  rw [(store_seen hn).2]
  exact fun _ hr => List.mem_append_left _ (ht hr)

/-- **A uid names one Resource**: no two Resources share it, whatever has it later has the same
address and Form, and once its Resource is gone no Resource has it again while renderings are
current. -/
theorem uid_never_reused (hs : (store D).Reachable s) :
    (∀ r ∈ s.tables.resources, ∀ r' ∈ s.tables.resources, r.tenantUid = r'.tenantUid → r = r') ∧
    ∀ r ∈ s.tables.resources, ∀ u, (store D).Path s u →
      (∀ r' ∈ u.tables.resources, r'.tenantUid = r.tenantUid →
        r'.address = r.address ∧ r'.document.formRef = r.document.formRef) ∧
      (u.tables.hasUid r.address.tenantId r.uid = false →
        ∀ v, (store D).PathVia rendersCurrent u v →
          v.tables.hasUid r.address.tenantId r.uid = false) := by
  have hremembered := remembered_of_reachable hs
  refine ⟨fun r hr r' hr' h => hremembered.recordedTables.eq_of_tenantUid hremembered.incarnations
    (numbered_of_reachable hs).addresses hr hr' h, fun r hr u hpath => ?_⟩
  have hreach : (store D).Reachable u := PathVia.trans hs hpath
  have hlater := remembered_of_reachable hreach
  have hseen := seen_subset_of_path hpath (hremembered.current hr)
  refine ⟨fun r' hr' hkey => ?_, fun hgone v hpath' => ?_⟩
  · obtain ⟨a, ha, hidentity⟩ := hlater.attested r hseen
    obtain ⟨a', ha', hidentity'⟩ := hlater.attested r' (hlater.current hr')
    have heq : a' = a := Table.eq_of_key hlater.incarnations ha' ha <|
      (tenantUid_of_incarnation hidentity').trans
        (hkey.trans (tenantUid_of_incarnation hidentity).symm)
    rw [heq, hidentity] at hidentity'
    simp only [Resource.identity, Prod.mk.injEq] at hidentity'
    exact ⟨hidentity'.1.symm, hidentity'.2.2.symm⟩
  have hkept : (store D).Reachable v ∧ v.tables.IsEvidenced r.tenantUid ∧
      v.tables.hasUid r.address.tenantId r.uid = false := by
    refine PathVia.invariant (P := fun t => (store D).Reachable t ∧
      t.tables.IsEvidenced r.tenantUid ∧ t.tables.hasUid r.address.tenantId r.uid = false) ?_ hpath'
      ⟨hreach, hlater.evidenced r hseen, hgone⟩
    rintro t ⟨_, _⟩ t' ⟨ht, hevidenced, hgone⟩ hcurrent hn
    have hnumbered := numbered_of_reachable ht
    exact ⟨ht.next hn, isEvidenced_of_next hnumbered hn hevidenced,
      hasUid_false_of_next hnumbered hcurrent hn hevidenced hgone⟩
  exact hkept.2.2

theorem uid_never_reused_creationRun :
    ∃ s, (store plainDigests).Reachable s ∧ s.tables.resources.map Resource.uid = ["uid_1"] ∧
      ∀ r ∈ s.tables.resources, ∀ u, (store plainDigests).Path s u →
        ∀ r' ∈ u.tables.resources, r'.tenantUid = r.tenantUid → r'.address = r.address := by
  obtain ⟨s, hs, hp⟩ := exists_reachable_of_run (M := store plainDigests) creationRun
    (fun s => decide (s.tables.resources.map Resource.uid = ["uid_1"])) (by decide +kernel)
  have hkept := (uid_never_reused hs).2
  exact ⟨s, hs, of_decide_eq_true hp, fun r hr u hu r' hr' hkey =>
    ((hkept r hr u hu).1 r' hr' hkey).1⟩

end Runs

end Takoserver.V1
