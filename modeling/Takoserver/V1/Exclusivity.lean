import Takoserver.V1.Constraints
import Takoserver.V1.Identity

/-!
# Declared exclusivity

An apply derives one key for each of its unique declarations, reserves the keys
before the provider is asked, and commits them with the Resource.  A key has one
holder, so two Resources that depend on one key are the same.

The key of an `exclusive` reference is that of its first relation only, and the
keys of a retry are those of the relations it resolved, not of those that were
accepted.  A rendering of an earlier Resource stores relations whose keys were
released.  Where none of these makes a difference, the keys of every stored
Resource are committed for it.
-/

namespace Takoserver.V1

open Machine

/-! ### The keys a document depends on -/

theorem exists_of_mapM_eq_some {α β : Type} {f : α → Option β} {l : List α} {parts : List β}
    (h : l.mapM f = some parts) {a : α} (ha : a ∈ l) : ∃ part ∈ parts, f a = some part := by
  induction l generalizing parts with
  | nil => cases ha
  | cons b l ih =>
    rw [List.mapM_cons] at h
    obtain ⟨part, hpart, h⟩ := Option.bind_eq_some_iff.mp h
    obtain ⟨_, hrest, h⟩ := Option.bind_eq_some_iff.mp h
    cases h
    rcases List.mem_cons.mp ha with rfl | ha
    · exact ⟨part, List.mem_cons_self, hpart⟩
    · obtain ⟨part', hmem, heq⟩ := ih hrest ha
      exact ⟨part', List.mem_cons_of_mem _ hmem, heq⟩

variable {keys : List String} {k : String}

namespace Declaration

variable (K : KeyDigests) (p : Declaration)

/-- The targets a reference resolves to. -/
def targetsOf (reference : String) : List String :=
  (p.relations.filter fun r => decide (r.relation = reference)).map StoredRelation.targetUid

/-- The keys a document depends on: every target of an exclusive reference has one. -/
def dependsOn : Constraint → List String
  | .uniquePair left right =>
    (p.targetsOf left).flatMap fun l =>
      (p.targetsOf right).map fun r => K.uniquePair p.address.tenantId p.formRef l r
  | .claim property =>
    (pointerValue p.spec property).toList.map fun value =>
      K.claim p.address.tenantId p.formRef.apiVersion p.formRef.kind property (K.canonicalJson value)
  | .exclusive reference keyedBy =>
    (p.keyedValue keyedBy).toList.flatMap fun value =>
      (p.targetsOf reference).map (p.exclusiveKey K reference keyedBy value)
  | .acyclic _ | .others => []

/-- No exclusive reference resolves to two relations. -/
def isSingle (constraints : List Constraint) : Bool :=
  constraints.all fun c =>
    match c with
    | .exclusive reference _ => decide ((p.targetsOf reference).length ≤ 1)
    | _ => true

/-- Two declarations of one document that resolve to the same targets. -/
def agrees (p q : Declaration) : Bool :=
  decide (q.address = p.address ∧ q.formRef = p.formRef ∧ q.spec = p.spec ∧
    (q.relations.map fun r => (r.relation, r.targetUid)) =
      p.relations.map fun r => (r.relation, r.targetUid))

variable {K p}

theorem mem_targetsOf {relation : StoredRelation} (h : relation ∈ p.relations) :
    relation.targetUid ∈ p.targetsOf relation.relation :=
  List.mem_map_of_mem (List.mem_filter.mpr ⟨h, decide_eq_true rfl⟩)

/-- A pair that is required is the one target of each reference. -/
theorem requiredUidPair_eq {left right : String} {pair : String × String}
    (h : p.requiredUidPair left right = some pair) :
    p.targetsOf left = [pair.1] ∧ p.targetsOf right = [pair.2] := by
  have hone : ∀ {reference : String} {r : StoredRelation},
      oneRelation reference p.relations = some (some r) → p.targetsOf reference = [r.targetUid] := by
    intro reference r h
    unfold oneRelation at h
    unfold targetsOf
    split at h
    · cases h
    · next hfilter =>
      split at h
      · cases h
      · cases h
        rw [hfilter]
        rfl
    · cases h
  unfold requiredUidPair at h
  split at h
  · next hl hr =>
    cases h
    exact ⟨hone hl, hone hr⟩
  · cases h

theorem constraintClaims_exclusive {reference : String} {keyedBy : Option String}
    (h : p.constraintClaims K (.exclusive reference keyedBy) = some keys) {targetUid : String}
    {rest : List String} (htargets : p.targetsOf reference = targetUid :: rest) :
    ∃ value, p.keyedValue keyedBy = some value ∧
      keys = [p.exclusiveKey K reference keyedBy value targetUid] := by
  simp only [constraintClaims] at h
  unfold targetsOf at htargets
  split at h
  · next hnone =>
    have hempty : (p.relations.filter fun r => decide (r.relation = reference)) = [] :=
      List.filter_eq_nil_iff.mpr fun r hr => List.find?_eq_none.mp hnone r hr
    rw [hempty] at htargets
    cases htargets
  · next hfind =>
    obtain ⟨value, hvalue, rfl⟩ := Option.map_eq_some_iff.mp h
    refine ⟨value, hvalue, ?_⟩
    rw [← List.head?_filter] at hfind
    have hhead := congrArg List.head? htargets
    rw [List.head?_map, hfind, Option.map_some, List.head?_cons] at hhead
    rw [Option.some.inj hhead]

theorem dependsOn_subset {constraints : List Constraint} (hsingle : p.isSingle constraints = true)
    {c : Constraint} (hc : c ∈ constraints) (h : p.constraintClaims K c = some keys) :
    p.dependsOn K c ⊆ keys := by
  intro k hk
  cases c with
  | uniquePair =>
    obtain ⟨_, hpair, rfl⟩ := Option.map_eq_some_iff.mp h
    obtain ⟨hleft, hright⟩ := requiredUidPair_eq hpair
    simp only [dependsOn, hleft, hright] at hk
    simpa using hk
  | claim =>
    obtain ⟨_, hvalue, rfl⟩ := Option.map_eq_some_iff.mp h
    simp only [dependsOn, hvalue] at hk
    simpa using hk
  | exclusive reference =>
    obtain ⟨_, hvalue, hk⟩ := List.mem_flatMap.mp hk
    obtain ⟨_, htarget, rfl⟩ := List.mem_map.mp hk
    cases htargets : p.targetsOf reference with
    | nil =>
      rw [htargets] at htarget
      cases htarget
    | cons _ rest =>
      have hlength := of_decide_eq_true (List.all_eq_true.mp hsingle _ hc)
      rw [htargets] at htarget hlength
      have hrest : rest = [] := List.length_eq_zero_iff.mp (by simpa using hlength)
      rw [hrest, List.mem_singleton] at htarget
      obtain ⟨_, hvalue', rfl⟩ := constraintClaims_exclusive h htargets
      rw [hvalue', Option.toList_some, List.mem_singleton] at hvalue
      rw [hvalue, htarget]
      exact List.mem_singleton_self _
  | acyclic => cases hk
  | others => cases hk

theorem reservedKeys_spec {constraints : List Constraint}
    (h : p.reservedKeys K constraints = some keys) :
    keys.Nodup ∧ ∀ c ∈ constraints, ∃ keys', p.constraintClaims K c = some keys' ∧ keys' ⊆ keys := by
  obtain ⟨_, hdeclared, rfl⟩ := Option.map_eq_some_iff.mp h
  obtain ⟨parts, hparts, rfl⟩ := Option.map_eq_some_iff.mp hdeclared
  have hperm := List.perm_insertionSort (· ≤ ·) parts.flatten.dedup
  refine ⟨hperm.nodup_iff.mpr (List.nodup_dedup _), fun c hc => ?_⟩
  obtain ⟨part, hpart, hclaims⟩ := exists_of_mapM_eq_some hparts hc
  refine ⟨part, hclaims, fun k hk => ?_⟩
  rw [hperm.mem_iff, List.mem_dedup]
  exact List.mem_flatten_of_mem hpart hk

theorem targetsOf_eq (reference : String) :
    p.targetsOf reference = ((p.relations.map fun r => (r.relation, r.targetUid)).filter
      fun i => decide (i.1 = reference)).map Prod.snd := by
  rw [targetsOf, List.filter_map, List.map_map]
  rfl

theorem dependsOn_congr {q : Declaration} (h : p.agrees q = true) (c : Constraint) :
    q.dependsOn K c = p.dependsOn K c := by
  obtain ⟨haddress, hform, hspec, hrelations⟩ := of_decide_eq_true h
  have htargets : ∀ reference, q.targetsOf reference = p.targetsOf reference := by
    intro reference
    rw [targetsOf_eq, targetsOf_eq, hrelations]
  have hkeyed : ∀ keyedBy, q.keyedValue keyedBy = p.keyedValue keyedBy := by
    intro keyedBy
    unfold keyedValue
    rw [hspec]
  have hkey : ∀ reference keyedBy value,
      q.exclusiveKey K reference keyedBy value = p.exclusiveKey K reference keyedBy value := by
    intro reference keyedBy value
    funext targetUid
    unfold exclusiveKey
    rw [haddress, hform]
  cases c with
  | uniquePair => simp only [dependsOn, haddress, hform, htargets]
  | claim => simp only [dependsOn, haddress, hform, hspec]
  | exclusive => simp only [dependsOn, hkeyed, hkey, htargets]
  | acyclic => rfl
  | others => rfl

end Declaration

/-! ### The property -/

/-- A Resource has a committed claim of a key. -/
def Tables.Holds (t : Tables) (r : Resource) (k : String) : Prop :=
  ∃ c ∈ t.claims, c.key = .definition k ∧ c.heldBy r.address.tenantId r.uid ∧ c.isCommitted = true

/-- What is declared unique has one Resource, and every Resource has the claims of its keys. -/
structure Exclusive (forms : Forms) (K : KeyDigests) (t : Tables) : Prop where
  /-- The targets of an exclusive reference, in one space. -/
  targets : ∀ r ∈ t.resources, ∀ r' ∈ t.resources, r'.document.formRef = r.document.formRef →
    r'.address.tenantId = r.address.tenantId → r'.address.space = r.address.space →
    ∀ reference keyedBy, .exclusive reference keyedBy ∈ forms r.document.formRef →
    ∀ relation ∈ r.relations, ∀ relation' ∈ r'.relations, relation.relation = reference →
    relation'.relation = reference → relation'.targetUid = relation.targetUid →
    ∀ value value', r.declaration.keyedValue keyedBy = some value →
    r'.declaration.keyedValue keyedBy = some value' →
    K.canonicalJson value' = K.canonicalJson value → r' = r
  /-- The value of a claim, in one tenant. -/
  values : ∀ r ∈ t.resources, ∀ r' ∈ t.resources, r'.document.formRef = r.document.formRef →
    r'.address.tenantId = r.address.tenantId →
    ∀ property, .claim property ∈ forms r.document.formRef →
    ∀ value value', pointerValue r.document.spec property = some value →
    pointerValue r'.document.spec property = some value' →
    K.canonicalJson value' = K.canonicalJson value → r' = r
  /-- The ordered pair of two references, in one tenant. -/
  pairs : ∀ r ∈ t.resources, ∀ r' ∈ t.resources, r'.document.formRef = r.document.formRef →
    r'.address.tenantId = r.address.tenantId →
    ∀ left right, .uniquePair left right ∈ forms r.document.formRef →
    ∀ l ∈ r.relations, ∀ g ∈ r.relations, ∀ l' ∈ r'.relations, ∀ g' ∈ r'.relations,
    l.relation = left → g.relation = right → l'.relation = left → g'.relation = right →
    l'.targetUid = l.targetUid → g'.targetUid = g.targetUid → r' = r
  held : ∀ r ∈ t.resources, ∀ c ∈ forms r.document.formRef, ∀ k ∈ r.declaration.dependsOn K c,
    t.Holds r k

/-! ### The machine -/

/-- The store, with what the engine has resolved and read: the applies it has declared, and of
the operations it was asked again the uids that were committed, and those of them it found
gone. -/
structure Hosted where
  store : Store := {}
  declared : List Declaration := []
  replayed : List (String × String) := []
  retired : List (String × String) := []

/-- One move of an apply, or of another call. -/
inductive HostedAct where
  /-- An apply resolves its relations, and derives its keys from them. -/
  | declare (p : Declaration)
  | call (c : Call)
  /-- The operation of a replay key is read. -/
  | readReplay (o : Operation)
  /-- `replayRetired`: the Resource it committed is read by its uid, and is not there. -/
  | readGone (tenantId uid : String)

/-- The declaration whose keys a write commits is one of the same document. -/
def Mutation.isDeclaredBy (m : Mutation) (forms : Forms) (K : KeyDigests) (p : Declaration) : Bool :=
  match m.change with
  | .write d _ _ _ claimKeys =>
    decide (p.address = m.address ∧ p.formRef = d.formRef ∧ p.spec = d.spec ∧
      p.reservedKeys K (forms p.formRef) = some claimKeys)
  | _ => false

section Hosts

local instance lawfulTenantUid : LawfulBEq (String × String) := inferInstance

/-- The calls the engine makes: it commits the keys it has derived, and releases the committed
claims of a uid it found gone. -/
def Hosted.permits (forms : Forms) (K : KeyDigests) (s : Hosted) : Call → Bool
  | .commitImmediate m _ _ _ | .commitDeferred _ m _ _ _ =>
    match m.change with
    | .write .. => s.declared.any (m.isDeclaredBy forms K)
    | _ => true
  | .releaseCommittedClaims tenantId holderUid => decide ((tenantId, holderUid) ∈ s.retired)
  | _ => true

/-- All runs of the engine and its store. -/
def hosted (D : Digests) (forms : Forms) (K : KeyDigests) : Machine Hosted (Instant × HostedAct) where
  init := {}
  next s a :=
    match a.2 with
    | .declare p => some { s with declared := p :: s.declared }
    | .call c =>
      if s.permits forms K c then
        ((store D).next s.store (a.1, c)).map fun store => { s with store }
      else none
    | .readReplay o =>
      if o ∈ s.store.tables.operations then
        o.committedUid.map fun uid =>
          { s with replayed := (o.target.tenantId, uid) :: s.replayed }
      else none
    | .readGone tenantId uid =>
      if (tenantId, uid) ∈ s.replayed ∧ s.store.tables.hasUid tenantId uid = false then
        some { s with retired := (tenantId, uid) :: s.retired }
      else none

end Hosts

/-- The declaration of what a write commits. -/
def Mutation.declaration (m : Mutation) (d : Document) : Declaration :=
  { address := m.address, formRef := d.formRef, spec := d.spec, relations := m.relations }

/-- A write commits the targets that its keys were derived from. -/
def Hosted.isExact (forms : Forms) (K : KeyDigests) (s : Hosted) (m : Mutation) : Bool :=
  match m.change with
  | .write d _ _ _ _ =>
    s.declared.any fun p => m.isDeclaredBy forms K p && p.agrees (m.declaration d)
  | _ => true

/-- The condition of a step: an apply that is declared has no exclusive reference with two
relations, a write is exact, and a rendering is current. -/
def HostedAct.isExact (forms : Forms) (K : KeyDigests) (s : Hosted) : HostedAct → Bool
  | .declare p => p.isSingle (forms p.formRef)
  | .call (.commitImmediate m _ _ _) | .call (.commitDeferred _ m _ _ _) => s.isExact forms K m
  | .call c => c.isCurrent s.store.tables
  | _ => true

/-- What the engine asks of a step: an apply that is declared has passed
`validateDeclaredConstraints`. -/
def HostedAct.isValidated (forms : Forms) (K : KeyDigests) (s : Hosted) (timestamp : Instant) :
    HostedAct → Bool
  | .declare p => p.validateDeclaredConstraints K (forms p.formRef) timestamp s.store.tables
  | _ => true

/-! ### One holder of a key -/

section Held

variable {forms : Forms} {K : KeyDigests} {t t' : Tables}

/-- Two Resources that have a claim of one key are the same. -/
theorem Tables.Holds.eq {r r' : Resource} (ht : Recorded t) (hkeys : (t.claims.map Claim.key).Nodup)
    (hn : (t.attestations.map Attestation.tenantUid).Nodup)
    (haddresses : (t.resources.map Resource.address).Nodup) (hr : r ∈ t.resources)
    (hr' : r' ∈ t.resources) (h : t.Holds r k) (h' : t.Holds r' k) : r' = r := by
  obtain ⟨c, hc, hkey, hheld, -⟩ := h
  obtain ⟨c', hc', hkey', hheld', -⟩ := h'
  have heq : c' = c := Table.eq_of_key hkeys hc' hc (hkey'.trans hkey.symm)
  refine ht.eq_of_tenantUid hn haddresses hr' hr ?_
  rw [Resource.tenantUid, Resource.tenantUid, ← hheld.1, ← hheld.2, ← hheld'.1, ← hheld'.2, heq]

theorem exclusive_of_held (ht : Recorded t) (hkeys : (t.claims.map Claim.key).Nodup)
    (hn : (t.attestations.map Attestation.tenantUid).Nodup)
    (haddresses : (t.resources.map Resource.address).Nodup)
    (held : ∀ r ∈ t.resources, ∀ c ∈ forms r.document.formRef, ∀ k ∈ r.declaration.dependsOn K c,
      t.Holds r k) : Exclusive forms K t := by
  -- a key both depend on
  have hone : ∀ r ∈ t.resources, ∀ r' ∈ t.resources, r'.document.formRef = r.document.formRef →
      ∀ c ∈ forms r.document.formRef, ∀ k, k ∈ r.declaration.dependsOn K c →
      k ∈ r'.declaration.dependsOn K c → r' = r := by
    intro r hr r' hr' hform c hc k hk hk'
    exact Tables.Holds.eq ht hkeys hn haddresses hr hr' (held r hr c hc k hk)
      (held r' hr' c (hform ▸ hc) k hk')
  refine ⟨?_, ?_, ?_, held⟩
  · intro r hr r' hr' hform htenant hspace reference keyedBy hc relation hrel relation' hrel'
      href href' htarget value value' hvalue hvalue' hcanonical
    subst href
    refine hone r hr r' hr' hform _ hc
      (r.declaration.exclusiveKey K relation.relation keyedBy value relation.targetUid) ?_ ?_
    · simp only [Declaration.dependsOn, hvalue, Option.toList_some, List.flatMap_cons,
        List.flatMap_nil, List.append_nil]
      exact List.mem_map_of_mem (Declaration.mem_targetsOf (p := r.declaration) hrel)
    · simp only [Declaration.dependsOn, hvalue', Option.toList_some, List.flatMap_cons,
        List.flatMap_nil, List.append_nil]
      refine List.mem_map.mpr ⟨relation'.targetUid, ?_, ?_⟩
      · rw [← href']
        exact Declaration.mem_targetsOf (p := r'.declaration) hrel'
      · simp only [Declaration.exclusiveKey, Resource.declaration, hform, htenant, hspace, htarget,
          hcanonical]
  · intro r hr r' hr' hform htenant property hc value value' hvalue hvalue' hcanonical
    refine hone r hr r' hr' hform _ hc (K.claim r.address.tenantId r.document.formRef.apiVersion
      r.document.formRef.kind property (K.canonicalJson value)) ?_ ?_
    · simp [Declaration.dependsOn, Resource.declaration, hvalue]
    · simp [Declaration.dependsOn, Resource.declaration, hvalue', hform, htenant, hcanonical]
  · intro r hr r' hr' hform htenant left right hc l hl g hg l' hl' g' hg' hleft hright hleft'
      hright' hlt hgt
    subst hleft hright
    refine hone r hr r' hr' hform _ hc
      (K.uniquePair r.address.tenantId r.document.formRef l.targetUid g.targetUid) ?_ ?_
    · refine List.mem_flatMap.mpr ⟨l.targetUid, ?_, List.mem_map.mpr ⟨g.targetUid, ?_, rfl⟩⟩
      · exact Declaration.mem_targetsOf (p := r.declaration) hl
      · exact Declaration.mem_targetsOf (p := r.declaration) hg
    · refine List.mem_flatMap.mpr ⟨l'.targetUid, ?_, List.mem_map.mpr ⟨g'.targetUid, ?_, ?_⟩⟩
      · rw [← hleft']
        exact Declaration.mem_targetsOf (p := r'.declaration) hl'
      · rw [← hright']
        exact Declaration.mem_targetsOf (p := r'.declaration) hg'
      · simp only [Resource.declaration, hform, htenant, hlt, hgt]

theorem ownsClaims_mem {owner : Owner} {tenantId holderUid : String}
    (hkeys : (t.claims.map Claim.key).Nodup) (hn : keys.Nodup)
    (h : t.ownsClaims owner tenantId holderUid keys = true) (hk : k ∈ keys) :
    ∃ c ∈ t.claims, c.key = .definition k ∧ c.ownedFor owner tenantId holderUid = true := by
  let p := fun c : Claim =>
    c.ownedFor owner tenantId holderUid && decide (c.key ∈ keys.map ClaimKey.definition)
  have hempty : keys.isEmpty = false := by
    cases keys with
    | nil => cases hk
    | cons => rfl
  simp only [Tables.ownsClaims, hempty, Bool.false_or, decide_eq_true_eq,
    List.countP_eq_length_filter] at h
  have hsub : (t.claims.filter p).map Claim.key ⊆ keys.map ClaimKey.definition := by
    intro key hkey
    obtain ⟨c, hc, rfl⟩ := List.mem_map.mp hkey
    have hp := (List.mem_filter.mp hc).2
    simp only [p, Bool.and_eq_true, decide_eq_true_eq] at hp
    exact hp.2
  have hnodup : ((t.claims.filter p).map Claim.key).Nodup := hkeys.sublist (List.filter_sublist.map _)
  have hperm := (List.subperm_of_subset hnodup hsub).perm_of_length_le (by
    rw [List.length_map, List.length_map, h])
  obtain ⟨c, hc, hkey⟩ := List.mem_map.mp (hperm.mem_iff.mpr (List.mem_map_of_mem hk))
  obtain ⟨hmem, hp⟩ := List.mem_filter.mp hc
  simp only [p, Bool.and_eq_true] at hp
  exact ⟨c, hmem, hkey, hp.1⟩

end Held

/-! ### Calls -/

section Calls

variable {D : Digests} {forms : Forms} {K : KeyDigests} {timestamp : Instant} {call : Call}
  {t t' : Tables}

variable {m : Mutation}

theorem commitDeferred_address {operation : Operation} {leaseToken terminalJson : String}
    {elsewhere : Bool}
    (h : commitDeferredMutation D operation m leaseToken terminalJson elsewhere timestamp t =
      some t') : m.address = operation.target := by
  unfold commitDeferredMutation at h
  split at h
  · next hguard =>
    simp only [Bool.and_eq_true, decide_eq_true_eq] at hguard
    exact hguard.1.2.2.1
  · cases h

/-- Every key of every Resource is held. -/
def Held (forms : Forms) (K : KeyDigests) (t : Tables) : Prop :=
  ∀ r ∈ t.resources, ∀ c ∈ forms r.document.formRef, ∀ k ∈ r.declaration.dependsOn K c, t.Holds r k

/-- A claim of a Resource that is not released is kept. -/
theorem Tables.Holds.kept {released : Claim → Prop} {r : Resource} (h : t.Holds r k)
    (hw : KeepsCommitted released t.claims t'.claims)
    (hother : ∀ c : Claim, c.heldBy r.address.tenantId r.uid → ¬released c) : t'.Holds r k := by
  obtain ⟨c, hc, hkey, hheld, hcommitted⟩ := h
  obtain ⟨c', hc', hkept⟩ := hw c hc hcommitted (hother c hheld)
  exact ⟨c', hc', hkept.key.trans hkey,
    ⟨hkept.tenantId.trans hheld.1, hkept.holderUid.trans hheld.2⟩, hkept.committed⟩

/-- A call that commits nothing, and releases only what has no Resource, keeps every key. -/
theorem Held.next_of_mutation_none (hheld : Held forms K t) (hcall : call.mutation = none)
    (hcurrent : call.isCurrent t = true)
    (hw : ClaimWrite D call.releases t t')
    (hgone : ∀ tenantId uid, call = .releaseCommittedClaims tenantId uid →
      t.hasUid tenantId uid = false)
    (h : call.apply D timestamp t = some t') : Held forms K t' := by
  obtain ⟨-, g, hg, hresources⟩ := Call.apply_rendering hcall hcurrent h
  intro r' hr' c hc k hk
  rw [hresources] at hr'
  obtain ⟨r, hr, rfl⟩ := List.mem_map.mp hr'
  have hsame : (g r).declaration = r.declaration := by
    unfold Resource.declaration
    rw [hg.address r hr, hg.formRef r hr, hg.spec r hr, hg.relations r hr]
  rw [hsame] at hk
  rw [hg.formRef r hr] at hc
  have hold := (hheld r hr c hc k hk).kept hw.kept fun d hd hreleased => ?_
  · unfold Tables.Holds at hold ⊢
    rw [hg.address r hr, hg.uid r hr]
    exact hold
  cases call with
  | releaseCommittedClaims tenantId uid =>
    have hhas : t.hasUid tenantId uid = true := by
      refine Tables.hasUid_iff.mpr ⟨r, hr, ?_⟩
      rw [Resource.tenantUid, ← hd.1, ← hd.2, hreleased.1, hreleased.2]
    rw [hgone tenantId uid rfl] at hhas
    cases hhas
  | commitImmediate => cases hcall
  | commitDeferred => cases hcall
  | _ => exact hreleased

theorem writeClaims_holds {operationId : String} {claimOwner : Owner} {d : Document}
    {dependencies : DependencySet} {receiptJson : String} {operationMode : Mode}
    {claimKeys : List String}
    (hchange : m.change = .write d dependencies receiptJson operationMode claimKeys)
    (hkeys : (t.claims.map Claim.key).Nodup) (hn : claimKeys.Nodup)
    (howns : t.ownsClaims claimOwner m.address.tenantId m.resourceUid claimKeys = true)
    (h : t'.claims = m.writeClaims claimOwner operationId t.claims) (hk : k ∈ claimKeys) :
    ∃ c ∈ t'.claims, c.key = .definition k ∧ c.heldBy m.address.tenantId m.resourceUid ∧
      c.isCommitted = true := by
  obtain ⟨c, hc, hkey, howned⟩ := ownsClaims_mem hkeys hn howns hk
  have hempty : claimKeys.isEmpty = false := by
    cases claimKeys with
    | nil => cases hk
    | cons => rfl
  have hmem : c.key ∈ claimKeys.map ClaimKey.definition := by
    rw [hkey]
    exact List.mem_map_of_mem hk
  have hdep : c.isDependency = false := by
    unfold Claim.isDependency
    rw [hkey]
  refine ⟨{ c with expiresAt := none }, ?_, hkey, (of_decide_eq_true howned).2, rfl⟩
  simp only [h, Mutation.writeClaims, hchange, dependencyCommitStatements, claimCommitStatements,
    hempty, Bool.false_eq_true, if_false]
  have hdep' : ({ c with expiresAt := none } : Claim).isDependency = false := hdep
  rw [Table.mem_delete, Table.mem_update, Table.mem_delete, Table.mem_update]
  refine ⟨Or.inl ⟨⟨Or.inr ⟨c, hc, ?_, rfl⟩, ?_⟩, ?_⟩, ?_⟩
  · rw [howned, Bool.true_and]
    exact decide_eq_true hmem
  · rw [decide_eq_false (not_not.mpr hmem), Bool.and_false]
  · rw [hdep', Bool.and_false]
  · rw [hdep', Bool.and_false, Bool.false_and]

theorem Held.next_of_commit (hheld : Held forms K t) (ht : Recorded t) {operationId : String}
    {claimOwner : Owner} {fencesRevision creates : Bool} {current : Resource → Bool}
    (hkeys : (t.claims.map Claim.key).Nodup) (hn : (t.attestations.map Attestation.tenantUid).Nodup)
    (haddresses : (t.resources.map Resource.address).Nodup) (hresource : ResourceResult m t t')
    (hresult : CommitResult D m operationId claimOwner fencesRevision creates current timestamp t t')
    (hdeclared : ∀ d dependencies receiptJson operationMode claimKeys,
      m.change = .write d dependencies receiptJson operationMode claimKeys →
      ∃ p : Declaration, p.isSingle (forms p.formRef) = true ∧
        p.reservedKeys K (forms p.formRef) = some claimKeys ∧ p.agrees (m.declaration d) = true) :
    Held forms K t' := by
  have hw := commit_write (D := D) hkeys hresult.claims
  have hfence := hresult.evidenceFence
  simp only [Mutation.evidenceFence, Bool.and_eq_true, Tables.attests, List.any_eq_true,
    decide_eq_true_eq] at hfence
  obtain ⟨⟨⟨⟨b, hb, hbkey, hbaddress, -⟩, -⟩, -⟩, hpredecessor⟩ := hfence
  intro r hr c hc k hk
  rcases (hresource.mem r).mp hr with ⟨hold, hne⟩ | ⟨d, hd, rfl⟩
  · refine (hheld r hold c hc k hk).kept hw.kept fun e he hreleased => hne ?_
    -- a uid has one address
    obtain ⟨a, ha, hidentity⟩ := ht.attested r hold
    have heq : a = b := by
      refine Table.eq_of_key hn ha hb ?_
      rw [tenantUid_of_incarnation hidentity, Attestation.tenantUid, hbkey.1, hbkey.2, ← he.1,
        ← he.2, hreleased.1, hreleased.2]
    rw [heq] at hidentity
    exact (congrArg Prod.fst hidentity).symm.trans hbaddress
  · have huid := hresource.uid d hd
    cases hchange : m.change with
    | write d' _ _ _ claimKeys =>
      have hd' : d' = d := by
        rw [Mutation.document, hchange] at hd
        exact Option.some.inj hd
      subst hd'
      obtain ⟨p, hsingle, hreserved, hagrees⟩ := hdeclared _ _ _ _ _ hchange
      obtain ⟨hnodup, hall⟩ := Declaration.reservedKeys_spec hreserved
      have hform : (m.row d').document.formRef = p.formRef := (of_decide_eq_true hagrees).2.1
      rw [hform] at hc
      obtain ⟨_, hclaims, hsub⟩ := hall c hc
      rw [show (m.row d').declaration = m.declaration d' from rfl,
        Declaration.dependsOn_congr hagrees] at hk
      have hk' := hsub (Declaration.dependsOn_subset hsingle hc hclaims hk)
      have howns := hresult.ownsClaims
      rw [Mutation.claimKeys, hchange] at howns
      obtain ⟨e, he, hkey, hheldBy, hcommitted⟩ :=
        writeClaims_holds hchange hkeys hnodup howns hresult.claims hk'
      refine ⟨e, he, hkey, ?_, hcommitted⟩
      rw [← huid] at hheldBy
      exact hheldBy
    | unchanged =>
      -- the row that is there has the same keys, and its claims are left alone
      have hunchanged : m.isUnchanged = true := by simp [Mutation.isUnchanged, hchange]
      have hclaims : t'.claims = t.claims := by
        rw [hresult.claims, Mutation.writeClaims, hchange]
      rcases Mutation.predecessorFence_iff hpredecessor with
        ⟨-, hrevision, -⟩ | ⟨-, r, hr, hruid, -, hsame⟩
      · have hidentified := hresource.identified
        simp [Mutation.isIdentified, hunchanged, hrevision, hd] at hidentified
      obtain ⟨hmem, haddress⟩ := (Tables.resourceAt_eq_some haddresses).mp hr
      obtain ⟨hdocument, hrelations⟩ := hsame hunchanged
      rw [hd] at hdocument
      have hdocument := Option.some.inj hdocument
      have hdeclaration : (m.row d).declaration = r.declaration := by
        rw [Resource.declaration, Resource.declaration, hdocument, hrelations, haddress]
        rfl
      rw [hdeclaration] at hk
      have hheld' := hheld r hmem c (hdocument ▸ hc) k hk
      unfold Tables.Holds at hheld' ⊢
      rw [hclaims]
      rw [haddress, hruid, ← huid] at hheld'
      exact hheld'
    | delete =>
      rw [Mutation.document, hchange] at hd
      cases hd

end Calls

/-! ### Runs -/

/-- The invariant of the engine and its store. -/
structure HostedHolds (D : Digests) (forms : Forms) (K : KeyDigests) (s : Hosted) : Prop where
  current : (store D).ReachVia rendersCurrent s.store
  claimKeys : (s.store.tables.claims.map Claim.key).Nodup
  single : ∀ p ∈ s.declared, p.isSingle (forms p.formRef) = true
  held : Held forms K s.store.tables
  committed : ∀ o ∈ s.store.tables.operations, ∀ uid, o.committedUid = some uid →
    s.store.tables.IsEvidenced (o.target.tenantId, uid)
  replayed : ∀ i ∈ s.replayed, s.store.tables.IsEvidenced i
  retired : ∀ i ∈ s.retired, s.store.tables.IsEvidenced i ∧ s.store.tables.hasUid i.1 i.2 = false

section Runs

variable {D : Digests} {forms : Forms} {K : KeyDigests} {s u : Hosted} {timestamp : Instant}

section

variable (hs : HostedHolds D forms K s)

include hs

/-- The uid that an operation has committed has evidence. -/
theorem HostedHolds.committed_next {call : Call} {v : Store}
    (h : (store D).next s.store (timestamp, call) = some v) :
    ∀ o ∈ v.tables.operations, ∀ uid, o.committedUid = some uid →
      v.tables.IsEvidenced (o.target.tenantId, uid) := by
  have hnumbered := numbered_of_reachable hs.current.reachable
  obtain ⟨-, happly, -⟩ := store_next h
  have hw := Call.apply_operations hnumbered.addresses happly
  intro o' ho' uid huid
  rcases hw.rows.origin (Operation.Step.refl call) ho' with ⟨o, ho, hstep⟩ | ⟨⟨_, rfl⟩, -⟩
  · have htarget : o'.target = o.target := by
      show o'.identity.target = o.identity.target
      rw [hstep.identity]
    rw [htarget]
    rcases hstep.committed uid huid with hold |
      ⟨_, m, _, _, _, d, rfl, htenant, hd, rfl⟩
    · exact isEvidenced_of_next hnumbered h (hs.committed o ho uid hold)
    · -- the Resource it writes has evidence
      obtain ⟨-, hresource, -⟩ := commitDeferred_result hnumbered.addresses happly
      have hrecorded := (remembered_of_reachable (hs.current.reachable.next h)).recordedTables
      have hmem := (hresource.mem _).mpr (Or.inr ⟨d, hd, rfl⟩)
      rw [htenant, ← commitDeferred_address happly]
      exact hrecorded.evidenced _ hmem
  · cases huid

theorem HostedHolds.next_call {call : Call} (hpermits : s.permits forms K call = true)
    (hexact : (HostedAct.call call).isExact forms K s = true) {v : Store}
    (h : (store D).next s.store (timestamp, call) = some v) :
    HostedHolds D forms K { s with store := v } := by
  have hnumbered := numbered_of_reachable hs.current.reachable
  have hremembered := remembered_of_reachable hs.current.reachable
  have hrecorded := hremembered.recordedTables
  obtain ⟨-, happly, -⟩ := store_next h
  have hcurrent : call.isCurrent s.store.tables = true := by
    cases call <;> first | rfl | exact hexact
  have hw := Call.apply_claims (D := D) hs.claimKeys hnumbered.addresses happly
  refine ⟨hs.current.next (a := (timestamp, call)) hcurrent h, hw.keys, hs.single, ?_, hs.committed_next h,
    fun i hi => isEvidenced_of_next hnumbered h (hs.replayed i hi), fun i hi => ?_⟩
  · -- the declaration a write commits
    have hdeclared : ∀ m : Mutation, s.isExact forms K m = true →
        ∀ d dependencies receiptJson operationMode claimKeys,
          m.change = .write d dependencies receiptJson operationMode claimKeys →
          ∃ p : Declaration, p.isSingle (forms p.formRef) = true ∧
            p.reservedKeys K (forms p.formRef) = some claimKeys ∧
            p.agrees (m.declaration d) = true := by
      intro m hexact d dependencies receiptJson operationMode claimKeys hchange
      simp only [Hosted.isExact, hchange, List.any_eq_true, Bool.and_eq_true] at hexact
      obtain ⟨p, hp, hby, hagrees⟩ := hexact
      simp only [Mutation.isDeclaredBy, hchange, decide_eq_true_eq] at hby
      exact ⟨p, hs.single p hp, hby.2.2.2, hagrees⟩
    cases hcall : call.mutation with
    | none =>
      refine hs.held.next_of_mutation_none hcall hcurrent hw ?_ happly
      rintro _ _ rfl
      exact (hs.retired _ (of_decide_eq_true hpermits)).2
    | some c =>
      cases call with
      | commitImmediate m =>
        obtain ⟨hresource, -, hresult⟩ := commitImmediate_result hnumbered.addresses happly
        exact hs.held.next_of_commit hrecorded hs.claimKeys hremembered.incarnations
          hnumbered.addresses hresource hresult (hdeclared m hexact)
      | commitDeferred _ m =>
        obtain ⟨-, hresource, -, hresult⟩ := commitDeferred_result hnumbered.addresses happly
        exact hs.held.next_of_commit hrecorded hs.claimKeys hremembered.incarnations
          hnumbered.addresses hresource hresult (hdeclared m hexact)
      | _ => cases hcall
  · obtain ⟨hevidenced, hgone⟩ := hs.retired i hi
    exact ⟨isEvidenced_of_next hnumbered h hevidenced,
      hasUid_false_of_next hnumbered hcurrent h hevidenced hgone⟩

theorem HostedHolds.next {act : HostedAct} (hexact : act.isExact forms K s = true)
    (h : (hosted D forms K).next s (timestamp, act) = some u) : HostedHolds D forms K u := by
  cases act with
  | declare p =>
    cases h
    refine ⟨hs.current, hs.claimKeys, ?_, hs.held, hs.committed, hs.replayed, hs.retired⟩
    intro q hq
    rcases List.mem_cons.mp hq with rfl | hq
    · exact hexact
    · exact hs.single q hq
  | call c =>
    simp only [hosted] at h
    split at h
    · next hpermits =>
      obtain ⟨v, hv, rfl⟩ := Option.map_eq_some_iff.mp h
      exact hs.next_call hpermits hexact hv
    · cases h
  | readReplay o =>
    simp only [hosted] at h
    split at h
    · next ho =>
      obtain ⟨uid, huid, rfl⟩ := Option.map_eq_some_iff.mp h
      refine ⟨hs.current, hs.claimKeys, hs.single, hs.held, hs.committed, ?_, hs.retired⟩
      intro i hi
      rcases List.mem_cons.mp hi with rfl | hi
      · exact hs.committed o ho uid huid
      · exact hs.replayed i hi
    · cases h
  | readGone =>
    simp only [hosted] at h
    split at h
    · next hgone =>
      cases h
      refine ⟨hs.current, hs.claimKeys, hs.single, hs.held, hs.committed, hs.replayed, ?_⟩
      intro i hi
      rcases List.mem_cons.mp hi with rfl | hi
      · exact ⟨hs.replayed _ hgone.1, hgone.2⟩
      · exact hs.retired i hi
    · cases h

end

end Runs

/-- **Declared exclusivity.**  In every run in which no apply has two relations of one exclusive
reference, no write commits other targets than those its keys were derived from, and every
rendering is current, no two Resources have in common what is declared unique, and each has the
claims of its keys. -/
theorem declared_exclusivity (D : Digests) (forms : Forms) (K : KeyDigests) {s : Hosted}
    (hs : (hosted D forms K).ReachVia (fun s a => a.2.isExact forms K s = true) s) :
    Exclusive forms K s.store.tables := by
  have hinv : HostedHolds D forms K s := by
    refine ReachVia.invariant ?_ ?_ hs
    · exact ⟨PathVia.refl _, by simp [hosted], by simp [hosted], by simp [hosted, Held],
        by simp [hosted], by simp [hosted], by simp [hosted]⟩
    · rintro s ⟨_, _⟩ u hinv hexact h
      exact hinv.next hexact h
  have hremembered := remembered_of_reachable hinv.current.reachable
  exact exclusive_of_held hremembered.recordedTables hinv.claimKeys hremembered.incarnations
    (numbered_of_reachable hinv.current.reachable).addresses hinv.held

/-! ### Two runs -/

section Runs

/-- Keys that are their own text. -/
def plainKeys : KeyDigests where
  canonicalJson value := match value with
    | .str text => text
    | _ => ""
  exclusive tenantId space apiVersion kind reference targetUid keyedBy keyedValue :=
    "exclusive_" ++ ":".intercalate
      [tenantId, space, apiVersion, kind, reference, targetUid, keyedBy.getD "", keyedValue]
  claim tenantId apiVersion kind property value :=
    "claim_" ++ ":".intercalate [tenantId, apiVersion, kind, property, value]
  uniquePair tenantId formRef left right :=
    "unique_pair_" ++ ":".intercalate [tenantId, formRef.apiVersion, formRef.kind, left, right]

/-- A reader has the exclusive use of its buckets. -/
def readerForms : Forms := fun formRef =>
  if formRef = readerForm then [.exclusive "/buckets/*" none] else []

/-- A bucket and its reader, for the runs below. -/
def bucketNamed (name uid : String) : Resource :=
  { bucket with
    address := { bucketAddress with name }, uid,
    document := { bucket.document with name, uid } }

def readerNamed (name uid : String) : Resource :=
  { reader with
    address := { readerAddress with name }, uid,
    document := { reader.document with name, uid } }

/-- A reference of a reader to a bucket. -/
def bucketRelation (index : String) (b : Resource) : StoredRelation :=
  { pointer := "/buckets/" ++ index, relation := "/buckets/*", targetApiVersion := "v1",
    targetKind := "Bucket", targetName := b.address.name, targetUid := b.uid,
    targetRevision := some "1", targetFormRef := bucketForm }

def bucketTarget (b : Resource) : Target :=
  { space := "s", apiVersion := "v1", kind := "Bucket", name := b.address.name, uid := b.uid,
    revision := "1", formRef := bucketForm }

/-- Nothing is referred to. -/
theorem collectTargets_nil : collectTargets "s" [] = some [] := rfl

/-- The dependency set of a Resource that refers to nothing. -/
def noDependencies (operationId holderUid : String) : DependencySet :=
  { tenantId := "t", space := "s", holderUid, operationId, manifest := operationId,
    dataKeys := [operationId], fences := [], relations := [], collected := collectTargets_nil }

/-- The steps of an immediate create: it declares its document, and makes its calls. -/
def createSteps (r : Resource) (s : DependencySet) (claimKeys : List String) :
    List (Instant × HostedAct) :=
  (1, .declare { r.declaration with relations := s.relations }) ::
    (createCalls r s s.operationId claimKeys).map fun call => (1, .call call)

/-- A reader of the first bucket. -/
def firstDependencies : DependencySet :=
  { noDependencies "op_3" "uid_3" with
    relations := [bucketRelation "0" (bucketNamed "a" "uid_1")]
    fences := [bucketTarget (bucketNamed "a" "uid_1")]
    collected := rfl }

/-- A reader of the second bucket, and of the first. -/
def secondDependencies : DependencySet :=
  { noDependencies "op_4" "uid_4" with
    relations := [bucketRelation "0" (bucketNamed "b" "uid_2"),
      bucketRelation "1" (bucketNamed "a" "uid_1")]
    fences := [bucketTarget (bucketNamed "b" "uid_2"), bucketTarget (bucketNamed "a" "uid_1")]
    collected := rfl }

def readerKey (targetUid : String) : String :=
  plainKeys.exclusive "t" "s" "v1" "Reader" "/buckets/*" targetUid none ""

def firstReaderRun : List (Instant × HostedAct) :=
  createSteps (bucketNamed "a" "uid_1") (noDependencies "op_1" "uid_1") [] ++
    createSteps (bucketNamed "b" "uid_2") (noDependencies "op_2" "uid_2") [] ++
    createSteps (readerNamed "x" "uid_3") firstDependencies [readerKey "uid_1"]

/-- The reader has the claim of its bucket. -/
theorem declared_exclusivity_firstReaderRun :
    ∃ s, (hosted plainDigests readerForms plainKeys).ReachVia
        (fun s a => a.2.isExact readerForms plainKeys s = true) s ∧
      s.store.tables.resources.map Resource.uid = ["uid_1", "uid_2", "uid_3"] ∧
      Exclusive readerForms plainKeys s.store.tables := by
  obtain ⟨s, hs, hp⟩ := exists_reachVia_of_run (M := hosted plainDigests readerForms plainKeys)
    (fun s a => a.2.isExact readerForms plainKeys s) firstReaderRun
    (fun s => decide (s.store.tables.resources.map Resource.uid = ["uid_1", "uid_2", "uid_3"]))
    (by decide +kernel)
  exact ⟨s, hs, of_decide_eq_true hp,
    declared_exclusivity plainDigests readerForms plainKeys hs⟩

/-- A second reader of the first bucket, whose first reference is to the second. -/
def secondReaderRun : List (Instant × HostedAct) :=
  firstReaderRun ++
    createSteps (readerNamed "y" "uid_4") secondDependencies [readerKey "uid_2"]

/-- The second target of an exclusive reference is neither checked nor reserved: two readers have
one bucket. -/
theorem second_target_is_shared :
    ¬∀ (D : Digests) (forms : Forms) (K : KeyDigests) (s : Hosted),
      (∀ tenantId, Function.Injective (D.target tenantId)) →
      (hosted D forms K).ReachVia (fun s a => a.2.isValidated forms K s a.1 = true) s →
      Exclusive forms K s.store.tables := by
  intro h
  obtain ⟨s, hs, hp⟩ := exists_reachVia_of_run (M := hosted plainDigests readerForms plainKeys)
    (fun s a => a.2.isValidated readerForms plainKeys s a.1) secondReaderRun
    (fun s => s.store.tables.resources.any fun r => s.store.tables.resources.any fun r' =>
      decide (r.document.formRef = readerForm ∧ r'.document.formRef = readerForm ∧
        r'.address.tenantId = r.address.tenantId ∧ r'.address.space = r.address.space ∧ r' ≠ r) &&
        r.relations.any fun relation => r'.relations.any fun relation' =>
          decide (relation.relation = "/buckets/*" ∧ relation'.relation = "/buckets/*" ∧
            relation'.targetUid = relation.targetUid)) (by decide +kernel)
  simp only [List.any_eq_true, Bool.and_eq_true, decide_eq_true_eq] at hp
  obtain ⟨r, hr, r', hr', ⟨hform, hform', htenant, hspace, hne⟩, relation, hrel, relation', hrel',
    href, href', htarget⟩ := hp
  have hexclusive := h plainDigests readerForms plainKeys s plainDigests_target_injective hs
  refine hne (hexclusive.targets r hr r' hr' (hform'.trans hform.symm) htenant hspace "/buckets/*"
    none ?_ relation hrel relation' hrel' href href' htarget .null .null rfl rfl rfl)
  rw [hform]
  exact List.mem_singleton_self _

end Runs

end Takoserver.V1
