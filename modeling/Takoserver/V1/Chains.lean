import Takoserver.Lib.Acyclic
import Takoserver.V1.Exclusivity

/-!
# Declared chains

A Form may declare that following one of its references never comes back.
`validateAcyclicConstraint` follows the stored references from the target of an
apply, one read after another, and refuses to see a uid twice.  Nothing is
reserved for what it has read, and only the first target is fenced by its
revision, up to the dispatch: two applies that read before either has committed
close a cycle from both sides.
-/

namespace Takoserver.V1

open Machine Relation

/-- Where a relation points. -/
def StoredRelation.target (relation : StoredRelation) (tenantId space : String) : Address :=
  { tenantId, space, apiVersion := relation.targetApiVersion, kind := relation.targetKind,
    name := relation.targetName }

/-- The target and the uid it is pinned to. -/
def StoredRelation.pin (relation : StoredRelation) : Address × String :=
  (relation.target "" "", relation.targetUid)

/-- One step of a reference: both ends are stored, of the Form, and the pinned uid is the one
that is there. -/
def Tables.Follows (t : Tables) (formRef : FormRef) (reference : String) (a b : Address) : Prop :=
  ∃ r ∈ t.resources, r.address = a ∧ r.document.formRef = formRef ∧
    ∃ relation ∈ r.relations, relation.relation = reference ∧
      relation.target a.tenantId a.space = b ∧
      ∃ r' ∈ t.resources, r'.address = b ∧ r'.uid = relation.targetUid ∧
        r'.document.formRef = formRef

/-! ### Walks -/

/-- What was read of one Resource of a chain: its next reference. -/
structure Link where
  address : Address
  uid : String
  next : Option StoredRelation

/-- Where a walk is. -/
inductive Cursor where
  /-- The source is to be read. -/
  | source (edge : StoredRelation)
  /-- The target of a reference is to be read. -/
  | target (edge : StoredRelation)
  /-- The relations of a target that was read are. -/
  | relations (edge : StoredRelation)
  /-- The end: no reference, or one to a Resource of another Form. -/
  | done (last : Option StoredRelation)

/-- `validateAcyclicConstraint`, of one apply. -/
structure Walk where
  declaration : Declaration
  reference : String
  /-- The uid of the incumbent the apply has read. -/
  current : Option String
  /-- The uid of the source, when the walk has read it. -/
  source : Option String := none
  seen : List String := []
  chain : List Link := []
  cursor : Cursor

/-- The longest chain that is followed. -/
def maximumConstraintTraversal : ℕ := 256

namespace Walk

/-- The walk begins: the apply has read its incumbent, and resolved its relations. -/
def start (p : Declaration) (reference : String) (t : Tables) : Option Walk :=
  (oneRelation reference p.relations).map fun edge =>
    { declaration := p, reference, current := (t.resourceAt p.address).map Resource.uid,
      cursor := match edge with
        | none => .done none
        | some edge => .source edge }

/-- One read of the walk. -/
def read (t : Tables) (w : Walk) : Option Walk :=
  let address := fun edge : StoredRelation =>
    edge.target w.declaration.address.tenantId w.declaration.address.space
  match w.cursor with
  | .source edge =>
    let source := (t.resourceAt w.declaration.address).bind fun r =>
      if r.document.formRef = w.declaration.formRef then some r.uid else none
    some { w with source, seen := source.toList, cursor := .target edge }
  | .target edge =>
    if w.chain.length < maximumConstraintTraversal ∧ edge.targetUid ∉ w.seen then
      (t.resourceAt (address edge)).bind fun r =>
        if r.uid = edge.targetUid ∧ r.document.formRef = edge.targetFormRef then
          some { w with
            seen := edge.targetUid :: w.seen
            cursor := if r.document.formRef = w.declaration.formRef then .relations edge
              else .done (some edge) }
        else none
    else none
  | .relations edge =>
    let relations := ((t.resourceAt (address edge)).map Resource.relations).getD []
    (oneRelation w.reference relations).map fun next =>
      { w with
        chain := w.chain ++ [{ address := address edge, uid := edge.targetUid, next }]
        cursor := match next with
          | none => .done none
          | some edge => .target edge }
  | .done _ => none

/-- The walk has ended without a refusal. -/
def isDone (w : Walk) : Bool :=
  match w.cursor with
  | .done _ => true
  | _ => false

/-- What the walk has read of its chain is still stored. -/
def isCurrent (t : Tables) (w : Walk) : Bool :=
  w.chain.all fun l =>
    (t.resourceAt l.address).any fun r =>
      decide (r.uid = l.uid ∧ oneRelation w.reference r.relations = some l.next)

end Walk

/-! ### The machine -/

/-- The store, and the walks of the applies. -/
structure Chained where
  store : Store := {}
  walks : List Walk := []

/-- One move: of a walk or of another call. -/
inductive ChainedAct where
  | start (p : Declaration) (reference : String)
  | read (n : ℕ)
  | call (c : Call)

/-- The walk was made for the write: of its document, and of its incumbent. -/
def Walk.isFor (m : Mutation) (d : Document) (reference : String) (w : Walk) : Bool :=
  w.isDone && decide (w.declaration.address = m.address ∧ w.declaration.formRef = d.formRef ∧
    w.reference = reference ∧ (m.expectedRevision.isSome → w.current = some m.resourceUid))

/-- The engine commits a write when the walk of every declared chain has ended. -/
def Chained.permits (forms : Forms) (s : Chained) : Call → Bool
  | .commitImmediate m _ _ _ | .commitDeferred _ m _ _ _ =>
    match m.change with
    | .write d _ _ _ _ =>
      (forms d.formRef).all fun c =>
        match c with
        | .acyclic reference => s.walks.any (Walk.isFor m d reference)
        | _ => true
    | _ => true
  | _ => true

/-- All runs of the store and any number of walks. -/
def chained (D : Digests) (forms : Forms) : Machine Chained (Instant × ChainedAct) where
  init := {}
  next s a :=
    match a.2 with
    | .start p reference =>
      (Walk.start p reference s.store.tables).map fun w => { s with walks := s.walks ++ [w] }
    | .read n =>
      (s.walks[n]?.bind (Walk.read s.store.tables)).map fun w =>
        { s with walks := s.walks.set n w }
    | .call c =>
      if s.permits forms c then
        ((store D).next s.store (a.1, c)).map fun store => { s with store }
      else none

/-- An update that sets the reference commits the target its walk began with, and the chain the
walk has read is still stored. -/
def Chained.isFresh (forms : Forms) (s : Chained) (m : Mutation) : Bool :=
  match m.change with
  | .write d dependencies _ _ _ =>
    m.expectedRevision.isNone ||
      (forms d.formRef).all fun c =>
        match c with
        | .acyclic reference =>
          s.walks.any fun w =>
            Walk.isFor m d reference w &&
              decide ((oneRelation reference dependencies.relations).map
                  (Option.map StoredRelation.pin) =
                (oneRelation reference w.declaration.relations).map
                  (Option.map StoredRelation.pin)) &&
              w.isCurrent s.store.tables
        | _ => true
  | _ => true

/-- The condition of a step: a commit is fresh, and a rendering current. -/
def ChainedAct.isFresh (forms : Forms) (s : Chained) : ChainedAct → Bool
  | .call (.commitImmediate m _ _ _) | .call (.commitDeferred _ m _ _ _) => s.isFresh forms m
  | .call c => c.isCurrent s.store.tables
  | _ => true

/-! ### What a walk knows -/

/-- The reference the walk stands on. -/
def Cursor.edge : Cursor → Option StoredRelation
  | .source edge | .target edge | .relations edge => some edge
  | .done last => last

/-- A chain of links, from a reference to the one after the last of them. -/
def Linked (tenantId space : String) : Option StoredRelation → List Link → Option StoredRelation → Prop
  | edge, [], last => edge = last
  | some edge, l :: chain, last =>
    l.address = edge.target tenantId space ∧ Linked tenantId space l.next chain last
  | none, _ :: _, _ => False

variable {relation edge : StoredRelation} {t : Tables} {a b : Address}

section Links

variable {tenantId space : String}

theorem Linked.concat {l : Link} {e : StoredRelation} (hl : l.address = e.target tenantId space) :
    ∀ {chain : List Link} {edge : Option StoredRelation},
      Linked tenantId space edge chain (some e) → Linked tenantId space edge (chain ++ [l]) l.next := by
  intro chain
  induction chain with
  | nil =>
    intro edge h
    cases h
    exact ⟨hl, rfl⟩
  | cons _ _ ih =>
    intro edge h
    cases edge with
    | none => cases h
    | some => exact ⟨h.1, ih h.2⟩

/-- Every reference of a chain leads to one of its links, or is the last. -/
theorem Linked.next : ∀ {chain : List Link} {edge last : Option StoredRelation},
    Linked tenantId space edge chain last → ∀ e, (edge = some e ∨ ∃ l ∈ chain, l.next = some e) →
      (∃ l ∈ chain, l.address = e.target tenantId space) ∨ last = some e := by
  intro chain
  induction chain with
  | nil =>
    rintro _ _ h e (he | ⟨l, hl, -⟩)
    · cases h
      exact Or.inr he
    · cases hl
  | cons l chain ih =>
    intro edge last h e he
    cases edge with
    | none => cases h
    | some =>
      -- the first reference leads to the first link, and the others are of the rest
      have hrest : l.next = some e ∨ (∃ l' ∈ chain, l'.next = some e) →
          (∃ l' ∈ l :: chain, l'.address = e.target tenantId space) ∨ last = some e := by
        intro hnext
        refine (ih h.2 e hnext).imp_left ?_
        rintro ⟨l', hl', haddress⟩
        exact ⟨l', List.mem_cons_of_mem _ hl', haddress⟩
      rcases he with he | ⟨l', hl', hnext⟩
      · cases he
        exact Or.inl ⟨l, List.mem_cons_self, h.1⟩
      · rcases List.mem_cons.mp hl' with rfl | hl'
        · exact hrest (Or.inl hnext)
        · exact hrest (Or.inr ⟨l', hl', hnext⟩)

theorem Linked.place : ∀ {chain : List Link} {edge last : Option StoredRelation},
    Linked tenantId space edge chain last →
      ∀ l ∈ chain, l.address.tenantId = tenantId ∧ l.address.space = space := by
  intro chain
  induction chain with
  | nil =>
    intro edge last _ l hl
    cases hl
  | cons _ _ ih =>
    intro edge last h l hl
    cases edge with
    | none => cases h
    | some =>
      rcases List.mem_cons.mp hl with rfl | hl
      · rw [h.1]
        exact ⟨rfl, rfl⟩
      · exact ih h.2 l hl

theorem oneRelation_eq {reference : String} {relations : List StoredRelation}
    {one : Option StoredRelation} (h : oneRelation reference relations = some one)
    (hmem : relation ∈ relations) (href : relation.relation = reference) : one = some relation := by
  have hfilter : relation ∈ relations.filter fun r => decide (r.relation = reference) :=
    List.mem_filter.mpr ⟨hmem, decide_eq_true href⟩
  unfold oneRelation at h
  split at h
  · next hnil =>
    rw [hnil] at hfilter
    cases hfilter
  · next hone =>
    rw [hone, List.mem_singleton] at hfilter
    split at h
    · cases h
    · rw [hfilter]
      exact (Option.some.inj h).symm
  · cases h

end Links

/-- What a walk knows, of the tables as they are now. -/
structure WalkHolds (t : Tables) (w : Walk) : Prop where
  /-- The incumbent was committed at the address. -/
  current : ∀ uid, w.current = some uid →
    t.IsEvidenced (w.declaration.address.tenantId, uid) ∧
      t.Fixes (w.declaration.address.tenantId, uid) fun a _ => a = w.declaration.address
  /-- It is the source, unless it is gone, or of another Form. -/
  source : (∀ edge, w.cursor ≠ .source edge) →
    oneRelation w.reference w.declaration.relations ≠ some none → ∀ uid, w.current = some uid →
    w.source = some uid ∨
      t.Fixes (w.declaration.address.tenantId, uid) fun _ f => f ≠ w.declaration.formRef
  seen : (∀ edge, w.cursor ≠ .source edge) → ∀ uid, w.source = some uid → uid ∈ w.seen
  relations : ∀ edge, w.cursor = .relations edge → w.source ≠ some edge.targetUid
  chain : ∀ l ∈ w.chain, w.source ≠ some l.uid
  fresh : ∀ edge, w.cursor = .source edge → w.chain = []
  linked : ∃ edge, oneRelation w.reference w.declaration.relations = some edge ∧
    Linked w.declaration.address.tenantId w.declaration.address.space edge w.chain w.cursor.edge
  /-- A reference that ends the chain is to a Resource of another Form. -/
  foreign : ∀ edge, w.cursor = .done (some edge) →
    t.IsEvidenced (w.declaration.address.tenantId, edge.targetUid) ∧
      t.Fixes (w.declaration.address.tenantId, edge.targetUid) fun _ f => f ≠ w.declaration.formRef

section Walks

variable {D : Digests} {timestamp : Instant} {s u : Store} {w w' : Walk}

section

variable (ht : Recorded t) (hn : (t.attestations.map Attestation.tenantUid).Nodup)
  (haddresses : (t.resources.map Resource.address).Nodup)

include ht hn haddresses

/-- Two Resources of one uid are one. -/
theorem fixes_of_mem {P : Address → FormRef → Prop} {r : Resource} (hr : r ∈ t.resources)
    (h : P r.address r.document.formRef) :
    t.Fixes r.tenantUid P := by
  intro r' hr' hkey
  rw [ht.eq_of_tenantUid hn haddresses hr' hr hkey]
  exact h

theorem WalkHolds.start {p : Declaration} {reference : String}
    (h : Walk.start p reference t = some w) : WalkHolds t w := by
  obtain ⟨edge, hedge, rfl⟩ := Option.map_eq_some_iff.mp h
  refine ⟨?_, ?_, ?_, ?_, by simp, by simp, ⟨edge, hedge, ?_⟩, ?_⟩
  · intro uid huid
    obtain ⟨r, hr, rfl⟩ := Option.map_eq_some_iff.mp huid
    obtain ⟨hmem, haddress⟩ := (Tables.resourceAt_eq_some haddresses).mp hr
    have hkey : r.tenantUid = (p.address.tenantId, r.uid) := by rw [Resource.tenantUid, haddress]
    rw [← hkey]
    exact ⟨ht.evidenced r hmem, fixes_of_mem ht hn haddresses hmem haddress⟩
  · intro hcursor hsome uid huid
    cases edge with
    | none => exact absurd hedge hsome
    | some edge => exact absurd rfl (hcursor edge)
  · intro _ uid huid
    cases huid
  · intro e he
    simp
  · cases edge <;> rfl
  · intro e he
    cases edge with
    | none => cases he
    | some => cases he

end

theorem WalkHolds.readSource (haddresses : (t.resources.map Resource.address).Nodup)
    (hw : WalkHolds t w) (hcursor : w.cursor = .source edge) (h : w.read t = some w') :
    WalkHolds t w' := by
  simp only [Walk.read, hcursor] at h
  cases h
  have hchain := hw.fresh edge hcursor
  refine ⟨hw.current, ?_, ?_, by simp, ?_, by simp, ?_, by simp⟩
  · intro _ _ uid huid
    obtain ⟨-, hplace⟩ := hw.current uid huid
    -- the incumbent, if it is there, is at the address
    have hat : ∀ r ∈ t.resources, r.tenantUid = (w.declaration.address.tenantId, uid) →
        t.resourceAt w.declaration.address = some r := fun r hr hkey =>
      (Tables.resourceAt_eq_some haddresses).mpr ⟨hr, hplace r hr hkey⟩
    by_cases hsource : ((t.resourceAt w.declaration.address).bind fun r =>
        if r.document.formRef = w.declaration.formRef then some r.uid else none) = some uid
    · exact Or.inl hsource
    · refine Or.inr fun r hr hkey hform => hsource ?_
      rw [hat r hr hkey, Option.bind_some, if_pos hform]
      have huid' := congrArg Prod.snd hkey
      exact congrArg some huid'
  · intro _ uid huid
    dsimp only at huid ⊢
    rw [huid]
    exact List.mem_singleton_self _
  · intro l hl
    rw [show w.chain = [] from hchain] at hl
    cases hl
  · obtain ⟨first, hfirst, hlinked⟩ := hw.linked
    rw [hcursor] at hlinked
    exact ⟨first, hfirst, hlinked⟩

theorem WalkHolds.readTarget (ht : Recorded t)
    (hn : (t.attestations.map Attestation.tenantUid).Nodup)
    (haddresses : (t.resources.map Resource.address).Nodup) (hw : WalkHolds t w)
    (hcursor : w.cursor = .target edge) (h : w.read t = some w') :
    WalkHolds t w' := by
  have hpast : ∀ e, w.cursor ≠ .source e := by
    intro e he
    rw [hcursor] at he
    cases he
  simp only [Walk.read, hcursor] at h
  split at h
  swap
  · cases h
  next hguard =>
  obtain ⟨r, hr, h⟩ := Option.bind_eq_some_iff.mp h
  split at h
  swap
  · cases h
  next hpinned =>
  cases h
  obtain ⟨hmem, haddress⟩ := (Tables.resourceAt_eq_some haddresses).mp hr
  have hkey : r.tenantUid = (w.declaration.address.tenantId, edge.targetUid) := by
    rw [Resource.tenantUid, haddress, hpinned.1]
    rfl
  obtain ⟨first, hfirst, hlinked⟩ := hw.linked
  rw [hcursor] at hlinked
  refine ⟨hw.current, fun _ => hw.source hpast, ?_, ?_, hw.chain, ?_, ⟨first, hfirst, ?_⟩, ?_⟩
  · intro _ uid huid
    exact List.mem_cons_of_mem _ (hw.seen hpast uid huid)
  · intro e he hsource
    split at he
    · cases he
      exact hguard.2 (hw.seen hpast _ hsource)
    · cases he
  · intro e he
    split at he <;> cases he
  · split <;> exact hlinked
  · intro e he
    split at he
    · cases he
    · next hform =>
      cases he
      rw [← hkey]
      exact ⟨ht.evidenced r hmem, fixes_of_mem ht hn haddresses hmem hform⟩

theorem WalkHolds.readRelations (hw : WalkHolds t w) (hcursor : w.cursor = .relations edge)
    (h : w.read t = some w') : WalkHolds t w' := by
  have hpast : ∀ e, w.cursor ≠ .source e := by
    intro e he
    rw [hcursor] at he
    cases he
  simp only [Walk.read, hcursor] at h
  obtain ⟨next, -, rfl⟩ := Option.map_eq_some_iff.mp h
  obtain ⟨first, hfirst, hlinked⟩ := hw.linked
  rw [hcursor] at hlinked
  refine ⟨hw.current, fun _ => hw.source hpast, fun _ => hw.seen hpast, ?_, ?_, ?_,
    ⟨first, hfirst, ?_⟩, ?_⟩
  · intro e he
    cases next <;> cases he
  · intro l hl
    rcases Table.mem_insert.mp hl with hl | rfl
    · exact hw.chain l hl
    · exact hw.relations edge hcursor
  · intro e he
    cases next <;> cases he
  · let address := edge.target w.declaration.address.tenantId w.declaration.address.space
    have hconcat := hlinked.concat (l := { address, uid := edge.targetUid, next }) rfl
    cases next <;> exact hconcat
  · intro e he
    cases next <;> cases he

theorem WalkHolds.read (ht : Recorded t) (hn : (t.attestations.map Attestation.tenantUid).Nodup)
    (haddresses : (t.resources.map Resource.address).Nodup) (hw : WalkHolds t w)
    (h : w.read t = some w') : WalkHolds t w' := by
  cases hcursor : w.cursor with
  | source => exact hw.readSource haddresses hcursor h
  | target => exact hw.readTarget ht hn haddresses hcursor h
  | relations => exact hw.readRelations hcursor h
  | done =>
    simp only [Walk.read, hcursor] at h
    cases h

theorem WalkHolds.next (hs : Numbered s) {call : Call} (hcurrent : call.isCurrent s.tables = true)
    (h : (store D).next s (timestamp, call) = some u) (hw : WalkHolds s.tables w) :
    WalkHolds u.tables w where
  current := by
    intro uid huid
    obtain ⟨hevidenced, hplace⟩ := hw.current uid huid
    exact ⟨isEvidenced_of_next hs h hevidenced, fixes_of_next hs hcurrent h hevidenced hplace⟩
  source := by
    intro hcursor hsome uid huid
    exact (hw.source hcursor hsome uid huid).imp_right
      (fixes_of_next hs hcurrent h (hw.current uid huid).1)
  seen := hw.seen
  relations := hw.relations
  chain := hw.chain
  fresh := hw.fresh
  linked := hw.linked
  foreign := by
    intro edge hedge
    obtain ⟨hevidenced, hform⟩ := hw.foreign edge hedge
    exact ⟨isEvidenced_of_next hs h hevidenced, fixes_of_next hs hcurrent h hevidenced hform⟩

end Walks

/-! ### Commits -/

section Commits

variable {D : Digests} {timestamp : Instant} {s u : Store} {m : Mutation} {operationId : String}
  {claimOwner : Owner} {fencesRevision creates : Bool} {current : Resource → Bool}
  {formRef : FormRef} {reference : String}

variable {d : Document}

section

variable (hD : u.Separates D) (hseen : u.seen = s.seen ++ u.tables.resources)
  (hs : (store D).ReachVia rendersCurrent s) (hresource : ResourceResult m s.tables u.tables)
  (hresult : CommitResult D m operationId claimOwner fencesRevision creates current timestamp s.tables u.tables)

include hD hseen hs hresource hresult

omit hD hseen in
/-- A relation that is stored, or written by a commit, to the uid of the commit: there is a
Resource of it to write. -/
theorem exists_predecessor_of_isLive (hd : m.document = some d)
    (hlive : s.tables.IsLive m.address.tenantId d.uid) :
    ∃ r ∈ s.tables.resources, r.address = m.address ∧ r.tenantUid = (m.row d).tenantUid := by
  obtain ⟨r, hr, hkey⟩ := hlive.resource
  have hevidenced := (remembered_of_reachable hs.reachable).recordedTables.evidenced r hr
  rw [hkey] at hevidenced
  exact exists_predecessor (numbered_of_reachable hs.reachable) hresource hresult hd hevidenced

theorem exists_old_target {r r' : Resource} (hr : r ∈ s.tables.resources)
    (hrel : relation ∈ r.relations) (hr' : r' ∈ u.tables.resources)
    (hra' : r'.address = relation.target r.address.tenantId r.address.space)
    (huid : r'.uid = relation.targetUid) :
    ∃ r₀ ∈ s.tables.resources, r₀.address = r'.address ∧ r₀.uid = r'.uid ∧
      r₀.document.formRef = r'.document.formRef := by
  have hholds := targetsHold_of_reachVia hs (hD.mono (hseen ▸ List.subset_append_left _ _))
  rcases (hresource.mem r').mp hr' with ⟨hold', -⟩ | ⟨d, hd, rfl⟩
  · exact ⟨r', hold', rfl, rfl, rfl⟩
  -- the target is the Resource that is written
  have hlive := hholds.relations r hr relation hrel
  have htenant := congrArg Address.tenantId hra'
  rw [← show m.address.tenantId = r.address.tenantId from htenant,
    ← show d.uid = relation.targetUid from huid] at hlive
  obtain ⟨r₀, hr₀, haddress, hkey⟩ :=
    exists_predecessor_of_isLive hs hresource hresult hd hlive
  exact ⟨r₀, hr₀, haddress, congrArg Prod.snd hkey,
    commit_formRef hholds.addresses hresult hd hr₀ haddress⟩

theorem follows_of_commit (ha : a ≠ m.address) (h : u.tables.Follows formRef reference a b) :
    s.tables.Follows formRef reference a b := by
  obtain ⟨r, hr, rfl, hform, relation, hrel, href, htarget, _, hr', rfl, huid, hform'⟩ := h
  have hold : r ∈ s.tables.resources := by
    rcases (hresource.mem r).mp hr with ⟨hold, -⟩ | ⟨d, -, rfl⟩
    · exact hold
    · exact absurd rfl ha
  obtain ⟨r₀, hr₀, haddress₀, huid₀, hform₀⟩ :=
    exists_old_target hD hseen hs hresource hresult hold hrel hr' htarget.symm huid
  exact ⟨r, hold, rfl, hform, relation, hrel, href, htarget, r₀, hr₀, haddress₀,
    huid₀.trans huid, hform₀.trans hform'⟩

theorem follows_of_unchanged (hunchanged : m.isUnchanged = true)
    (h : u.tables.Follows formRef reference a b) : s.tables.Follows formRef reference a b := by
  by_cases ha : a = m.address
  swap
  · exact follows_of_commit hD hseen hs hresource hresult ha h
  subst ha
  have haddresses := (numbered_of_reachable hs.reachable).addresses
  obtain ⟨r, hr, hra, hform, relation, hrel, href, htarget, _, hr', rfl, huid, hform'⟩ := h
  obtain ⟨d, hd, rfl⟩ : ∃ d, m.document = some d ∧ r = m.row d := by
    rcases (hresource.mem r).mp hr with ⟨-, hne⟩ | hnew
    · exact absurd hra hne
    · exact hnew
  have hfence := hresult.evidenceFence
  simp only [Mutation.evidenceFence, Bool.and_eq_true] at hfence
  rcases Mutation.predecessorFence_iff hfence.2 with ⟨-, hrevision, -⟩ | ⟨-, q, hq, -, -, hsame⟩
  · have hidentified := hresource.identified
    simp [Mutation.isIdentified, hunchanged, hrevision, hd] at hidentified
  obtain ⟨hmem, haddress⟩ := (Tables.resourceAt_eq_some haddresses).mp hq
  obtain ⟨hdocument, hrelations⟩ := hsame hunchanged
  rw [hd] at hdocument
  have hrel' : relation ∈ q.relations := by
    rw [hrelations]
    exact hrel
  obtain ⟨r₀, hr₀, haddress₀, huid₀, hform₀⟩ := exists_old_target hD hseen hs hresource hresult hmem hrel'
    hr' (by rw [haddress]; exact htarget.symm) huid
  refine ⟨q, hmem, haddress, ?_, relation, hrel', href, htarget, r₀, hr₀, haddress₀,
    huid₀.trans huid, hform₀.trans hform'⟩
  rw [Option.some.inj hdocument]
  exact hform

theorem not_follows_of_create (hdelete : m.isDelete = false) (hcreate : m.expectedRevision = none)
    (a : Address) : ¬u.tables.Follows formRef reference a m.address := by
  have hholds := targetsHold_of_reachVia hs (hD.mono (hseen ▸ List.subset_append_left _ _))
  rintro ⟨r, hr, hra, -, relation, hrel, -, htarget, r', hr', hra', huid, -⟩
  have hfence := hresult.evidenceFence
  simp only [Mutation.evidenceFence, Bool.and_eq_true] at hfence
  have hnone : s.tables.resourceAt m.address = none := by
    rcases Mutation.predecessorFence_iff hfence.2 with ⟨-, -, hnone⟩ | ⟨hcase, -⟩
    · exact hnone
    · rcases hcase with hdel | hsome
      · rw [hdelete] at hdel
        cases hdel
      · exact absurd hcreate hsome
  obtain ⟨d, hd, rfl⟩ : ∃ d, m.document = some d ∧ r' = m.row d := by
    rcases (hresource.mem r').mp hr' with ⟨-, hne⟩ | hnew
    · exact absurd hra' hne
    · exact hnew
  have htenant : r.address.tenantId = m.address.tenantId := by
    have hsame := congrArg Address.tenantId htarget
    rw [hra]
    exact hsame
  -- its target was live before the create
  have hlive : s.tables.IsLive m.address.tenantId relation.targetUid := by
    rcases (hresource.mem r).mp hr with ⟨hold, -⟩ | ⟨_, -, rfl⟩
    · rw [← htenant]
      exact hholds.relations r hold relation hrel
    · exact hholds.commit_relations (hD.injOn_of_commit hholds.current hseen hresource)
        hresource.identified hresult relation hrel
  rw [← show d.uid = relation.targetUid from huid] at hlive
  obtain ⟨r₀, hr₀, haddress, -⟩ := exists_predecessor_of_isLive hs hresource hresult hd hlive
  exact Tables.resourceAt_eq_none.mp hnone r₀ hr₀ haddress

end

theorem WalkHolds.not_reaches (hs : (store D).Reachable s)
    (hresource : ResourceResult m s.tables u.tables) {w : Walk} (hw : WalkHolds u.tables w)
    (hsource : w.source = some m.resourceUid) (hfor : w.isFor m d reference = true)
    (hcurrent : w.isCurrent s.tables = true)
    (hedge : oneRelation reference w.declaration.relations = some (some edge)) {r' : Resource}
    (hr' : r' ∈ u.tables.resources)
    (haddress' : r'.address = edge.target m.address.tenantId m.address.space)
    (huid' : r'.uid = edge.targetUid) (hform' : r'.document.formRef = d.formRef) :
    ¬ReflTransGen (u.tables.Follows d.formRef reference) r'.address m.address := by
  simp only [Walk.isFor, Bool.and_eq_true, decide_eq_true_eq] at hfor
  obtain ⟨hdone, haddress, hform, rfl, -⟩ := hfor
  obtain ⟨_, hfirst, hlinked⟩ := hw.linked
  rw [hedge] at hfirst
  cases hfirst
  rw [haddress] at hlinked
  -- what is read of a link is what is stored after the commit, too
  have haddresses := (numbered_of_reachable hs).addresses
  have hlink : ∀ l ∈ w.chain, l.address ≠ m.address ∧ ∀ r ∈ u.tables.resources,
      r.address = l.address → oneRelation w.reference r.relations = some l.next := by
    intro l hl
    obtain ⟨r₀, hr₀, hread⟩ := (Option.any_eq_true _ _).mp (List.all_eq_true.mp hcurrent l hl)
    obtain ⟨hmem, hat⟩ := (Tables.resourceAt_eq_some haddresses).mp hr₀
    obtain ⟨huid, hnext⟩ := of_decide_eq_true hread
    have hne : l.address ≠ m.address := by
      intro heq
      refine hw.chain l hl ?_
      rw [hsource, ← huid, hresource.predecessor r₀ hmem (hat.trans heq)]
    refine ⟨hne, fun r hr hra => ?_⟩
    rcases (hresource.mem r).mp hr with ⟨hold, -⟩ | ⟨_, -, rfl⟩
    · rw [Table.eq_of_key haddresses hold hmem (hra.trans hat.symm)]
      exact hnext
    · exact absurd hra.symm hne
  -- a reference of the chain to a Resource of the Form leads to a link
  have hclosed : ∀ e, (some edge = some e ∨ ∃ l ∈ w.chain, l.next = some e) →
      ∀ r ∈ u.tables.resources, r.address = e.target m.address.tenantId m.address.space →
      r.uid = e.targetUid → r.document.formRef = d.formRef → ∃ l ∈ w.chain, l.address = r.address := by
    intro e he r hr hra huid hrform
    rcases hlinked.next e he with ⟨l, hl, hladdress⟩ | hlast
    · exact ⟨l, hl, hladdress.trans hra.symm⟩
    have hcursor : w.cursor = .done (some e) := by
      cases hc : w.cursor with
      | done last =>
        rw [hc] at hlast
        rw [show last = some e from hlast]
      | source => simp [Walk.isDone, hc] at hdone
      | target => simp [Walk.isDone, hc] at hdone
      | relations => simp [Walk.isDone, hc] at hdone
    refine absurd (hrform.trans hform.symm) ((hw.foreign e hcursor).2 r hr ?_)
    rw [Resource.tenantUid, hra, huid, haddress]
    rfl
  intro hpath
  have hend : ∃ l ∈ w.chain, l.address = m.address := by
    refine hpath.mem_of_closed (S := fun a => ∃ l ∈ w.chain, l.address = a) ?_
      (hclosed edge (Or.inl rfl) r' hr' haddress' huid' hform')
    rintro a b ⟨l, hl, rfl⟩ ⟨r, hr, hra, -, relation, hrel, href, htarget, r₂, hr₂, hra₂, huid₂, hf₂⟩
    have hnext := oneRelation_eq ((hlink l hl).2 r hr hra) hrel href
    obtain ⟨htenant, hspace⟩ := hlinked.place l hl
    rw [htenant, hspace] at htarget
    obtain ⟨l', hl', hla'⟩ := hclosed relation (Or.inr ⟨l, hl, hnext⟩) r₂ hr₂
      (hra₂.trans htarget.symm) huid₂ hf₂
    exact ⟨l', hl', hla'.trans hra₂⟩
  obtain ⟨l, hl, hla⟩ := hend
  exact (hlink l hl).1 hla

theorem StoredRelation.target_of_pin {e : StoredRelation} (h : e.pin = relation.pin)
    (tenantId space : String) :
    e.target tenantId space = relation.target tenantId space ∧ e.targetUid = relation.targetUid := by
  simp only [StoredRelation.pin, StoredRelation.target, Prod.mk.injEq, Address.mk.injEq, true_and] at h
  refine ⟨?_, h.2⟩
  rw [StoredRelation.target, StoredRelation.target, h.1.1, h.1.2.1, h.1.2.2]

theorem update_not_reaches (hs : (store D).Reachable s) {forms : Forms} {walks : List Walk}
    (hwalks : ∀ w ∈ walks, WalkHolds u.tables w) (hresource : ResourceResult m s.tables u.tables)
    (hfresh : Chained.isFresh forms { store := s, walks } m = true) {dependencies : DependencySet}
    {receiptJson : String} {operationMode : Mode} {claimKeys : List String}
    (hchange : m.change = .write d dependencies receiptJson operationMode claimKeys)
    (hexpected : m.expectedRevision ≠ none) (hdeclared : .acyclic reference ∈ forms d.formRef)
    (hub : u.tables.Follows d.formRef reference m.address b) :
    ¬ReflTransGen (u.tables.Follows d.formRef reference) b m.address := by
  obtain ⟨r, hr, hra, -, relation, hrel, href, htarget, _, hr', rfl, huid', hform'⟩ := hub
  have hd : m.document = some d := by rw [Mutation.document, hchange]
  obtain rfl : r = m.row d := by
    rcases (hresource.mem r).mp hr with ⟨-, hne⟩ | ⟨_, hd', hrow⟩
    · exact absurd hra hne
    · rw [hd] at hd'
      cases hd'
      exact hrow
  -- the walk of the write
  simp only [Chained.isFresh, hchange, Option.isNone_eq_false_iff.mpr
    (Option.isSome_iff_ne_none.mpr hexpected), Bool.false_or, List.all_eq_true] at hfresh
  obtain ⟨w, hw, hwalk⟩ := List.any_eq_true.mp (hfresh _ hdeclared)
  simp only [Bool.and_eq_true, decide_eq_true_eq] at hwalk
  obtain ⟨⟨hfor, hpins⟩, hcurrent⟩ := hwalk
  have hholds := hwalks w hw
  have hfor' := hfor
  simp only [Walk.isFor, Bool.and_eq_true, decide_eq_true_eq] at hfor'
  obtain ⟨hdone, haddress, hform, rfl, hincumbent⟩ := hfor'
  -- it began with the reference that is written
  obtain ⟨_, hfirst, -⟩ := hholds.linked
  rw [hfirst, Option.map_some] at hpins
  obtain ⟨_, hone, hpin⟩ := Option.map_eq_some_iff.mp hpins
  have hrel' : relation ∈ dependencies.relations := by
    have hrelations : m.relations = dependencies.relations := by rw [Mutation.relations, hchange]
    rw [← hrelations]
    exact hrel
  rw [oneRelation_eq hone hrel' href, Option.map_some] at hpin
  obtain ⟨_, rfl, hedge⟩ := Option.map_eq_some_iff.mp hpin.symm
  obtain ⟨htarget', htargetUid⟩ :=
    StoredRelation.target_of_pin hedge m.address.tenantId m.address.space
  -- and its source is the Resource that is written
  have hpast : ∀ e, w.cursor ≠ .source e := by
    intro e he
    rw [Walk.isDone, he] at hdone
    cases hdone
  have hsource : w.source = some m.resourceUid := by
    have hcurrentUid := hincumbent (Option.isSome_iff_ne_none.mpr hexpected)
    rcases hholds.source hpast (by rw [hfirst]; simp) _ hcurrentUid with hsource | hdiffers
    · exact hsource
    · refine absurd hform.symm (hdiffers (m.row d) hr ?_)
      rw [haddress, ← hresource.uid d hd]
      rfl
  exact hholds.not_reaches hs hresource hsource hfor hcurrent hfirst hr'
    (htarget.symm.trans htarget'.symm) (huid'.trans htargetUid.symm) hform'

theorem acyclic_of_commit (hD : u.Separates D) (hseen : u.seen = s.seen ++ u.tables.resources)
    (hs : (store D).ReachVia rendersCurrent s) {forms : Forms} {walks : List Walk}
    (hwalks : ∀ w ∈ walks, WalkHolds u.tables w) (hresource : ResourceResult m s.tables u.tables)
    (hresult : CommitResult D m operationId claimOwner fencesRevision creates current timestamp
      s.tables u.tables)
    (hfresh : Chained.isFresh forms { store := s, walks } m = true)
    (hdeclared : .acyclic reference ∈ forms formRef)
    (hacyclic : Acyclic (s.tables.Follows formRef reference)) :
    Acyclic (u.tables.Follows formRef reference) := by
  have hother : ∀ a b, a ≠ m.address → u.tables.Follows formRef reference a b →
      s.tables.Follows formRef reference a b := fun a b ha hab =>
    follows_of_commit hD hseen hs hresource hresult ha hab
  cases hchange : m.change with
  | write d =>
    refine hacyclic.redirect hother fun b hub hreach => ?_
    by_cases hexpected : m.expectedRevision = none
    · -- nothing refers to what is created
      have hdelete : m.isDelete = false := by simp [Mutation.isDelete, hchange]
      have hnone : ∀ a, ¬u.tables.Follows formRef reference a m.address :=
        not_follows_of_create hD hseen hs hresource hresult hdelete hexpected
      rcases ReflTransGen.cases_tail hreach with rfl | ⟨c, -, hc⟩
      · exact hnone _ hub
      · exact hnone _ hc
    · have hform : d.formRef = formRef := by
        obtain ⟨r, hr, hra, hform, -⟩ := hub
        rcases (hresource.mem r).mp hr with ⟨-, hne⟩ | ⟨_, hd', rfl⟩
        · exact absurd hra hne
        · rw [Mutation.document, hchange] at hd'
          cases hd'
          exact hform
      subst hform
      exact update_not_reaches hs.reachable hwalks hresource hfresh hchange hexpected hdeclared hub hreach
  | unchanged =>
    have hunchanged : m.isUnchanged = true := by simp [Mutation.isUnchanged, hchange]
    exact hacyclic.mono fun a b hab => follows_of_unchanged hD hseen hs hresource hresult hunchanged hab
  | delete =>
    refine hacyclic.redirect hother ?_
    rintro b ⟨r, hr, hra, -⟩
    rcases (hresource.mem r).mp hr with ⟨-, hne⟩ | ⟨d, hd, -⟩
    · exact absurd hra hne
    · rw [Mutation.document, hchange] at hd
      cases hd

end Commits

/-! ### Runs -/

/-- The invariant of the store and its walks. -/
structure ChainedHolds (D : Digests) (forms : Forms) (s : Chained) : Prop where
  current : (store D).ReachVia rendersCurrent s.store
  walks : ∀ w ∈ s.walks, WalkHolds s.store.tables w
  acyclic : ∀ formRef reference, .acyclic reference ∈ forms formRef →
    Acyclic (s.store.tables.Follows formRef reference)

section Runs

variable {D : Digests} {forms : Forms} {s u : Chained} {timestamp : Instant}

/-- A rendering that is current changes no reference. -/
theorem follows_of_rendering {t' : Tables} {g : Resource → Resource}
    (hg : Resource.Rendering t.resources g)
    (h : t'.resources = t.resources.map g) {formRef : FormRef} {reference : String}
    (hab : t'.Follows formRef reference a b) : t.Follows formRef reference a b := by
  obtain ⟨r, hr, hra, hform, relation, hrel, href, htarget, _, hr', hra', huid, hform'⟩ := hab
  rw [h] at hr hr'
  obtain ⟨q, hq, rfl⟩ := List.mem_map.mp hr
  obtain ⟨q', hq', rfl⟩ := List.mem_map.mp hr'
  rw [hg.address q hq] at hra
  rw [hg.address q' hq'] at hra'
  rw [hg.formRef q hq] at hform
  rw [hg.formRef q' hq'] at hform'
  rw [hg.relations q hq] at hrel
  rw [hg.uid q' hq'] at huid
  exact ⟨q, hq, hra, hform, relation, hrel, href, htarget, q', hq', hra', huid, hform'⟩

theorem ChainedHolds.next_call {v : Store} (hD : v.Separates D) (hs : ChainedHolds D forms s)
    {call : Call} (hfresh : (ChainedAct.call call).isFresh forms s = true)
    (h : (store D).next s.store (timestamp, call) = some v) :
    ChainedHolds D forms { s with store := v } := by
  have hnumbered := numbered_of_reachable hs.current.reachable
  have hcurrent : call.isCurrent s.store.tables = true := by
    cases call <;> first | rfl | exact hfresh
  have hwalks : ∀ w ∈ s.walks, WalkHolds v.tables w := fun w hw =>
    (hs.walks w hw).next hnumbered hcurrent h
  obtain ⟨-, happly, -⟩ := store_next h
  refine ⟨hs.current.next (a := (timestamp, call)) hcurrent h, hwalks, fun formRef reference hdeclared => ?_⟩
  have hacyclic := hs.acyclic formRef reference hdeclared
  cases hcall : call.mutation with
  | none =>
    obtain ⟨-, g, hg, hresources⟩ := Call.apply_rendering hcall hcurrent happly
    exact hacyclic.mono fun a b hab => follows_of_rendering hg hresources hab
  | some c =>
    cases call with
    | commitImmediate =>
      obtain ⟨hresource, -, hresult⟩ := commitImmediate_result hnumbered.addresses happly
      exact acyclic_of_commit hD (store_seen h).2 hs.current hwalks hresource hresult hfresh hdeclared hacyclic
    | commitDeferred =>
      obtain ⟨-, hresource, -, hresult⟩ := commitDeferred_result hnumbered.addresses happly
      exact acyclic_of_commit hD (store_seen h).2 hs.current hwalks hresource hresult hfresh hdeclared hacyclic
    | _ => cases hcall

theorem seen_subset_of_chained {act : ChainedAct}
    (h : (chained D forms).next s (timestamp, act) = some u) : s.store.seen ⊆ u.store.seen := by
  cases act with
  | start =>
    obtain ⟨_, -, rfl⟩ := Option.map_eq_some_iff.mp h
    exact List.Subset.refl _
  | read =>
    obtain ⟨_, -, rfl⟩ := Option.map_eq_some_iff.mp h
    exact List.Subset.refl _
  | call =>
    simp only [chained] at h
    split at h
    · obtain ⟨v, hv, rfl⟩ := Option.map_eq_some_iff.mp h
      rw [(store_seen hv).2]
      exact List.subset_append_left _ _
    · cases h

theorem ChainedHolds.next (hD : u.store.Separates D) (hs : ChainedHolds D forms s)
    {act : ChainedAct} (hfresh : act.isFresh forms s = true)
    (h : (chained D forms).next s (timestamp, act) = some u) : ChainedHolds D forms u := by
  have hholds := targetsHold_of_reachVia hs.current (hD.mono (seen_subset_of_chained h))
  have hrecorded := (remembered_of_reachable hs.current.reachable).recordedTables
  cases act with
  | start =>
    obtain ⟨w, hw, rfl⟩ := Option.map_eq_some_iff.mp h
    refine ⟨hs.current, fun w' hw' => ?_, hs.acyclic⟩
    rcases List.mem_append.mp hw' with hw' | hw'
    · exact hs.walks w' hw'
    · rw [List.mem_singleton.mp hw']
      exact .start hrecorded hholds.incarnations hholds.addresses hw
  | read n =>
    obtain ⟨_, hw', rfl⟩ := Option.map_eq_some_iff.mp h
    obtain ⟨w, hw, hread⟩ := Option.bind_eq_some_iff.mp hw'
    refine ⟨hs.current, fun w'' hw'' => ?_, hs.acyclic⟩
    rcases List.mem_or_eq_of_mem_set hw'' with hw'' | rfl
    · exact hs.walks w'' hw''
    · exact (hs.walks w (List.mem_of_getElem? hw)).read hrecorded hholds.incarnations
        hholds.addresses hread
  | call c =>
    simp only [chained] at h
    split at h
    · obtain ⟨v, hv, rfl⟩ := Option.map_eq_some_iff.mp h
      exact hs.next_call hD hfresh hv
    · cases h

end Runs

/-- **Declared acyclicity.**  In every run in which each update that sets the reference commits the
target its walk began with, and finds the chain the walk has read still stored, and every rendering
is current, following the reference from a Resource through Resources of its Form never comes
back. -/
theorem declared_acyclicity (D : Digests) (forms : Forms) {s : Chained}
    (hs : (chained D forms).ReachVia (fun s a => a.2.isFresh forms s = true) s)
    (hD : s.store.Separates D) {formRef : FormRef} {reference : String}
    (hdeclared : .acyclic reference ∈ forms formRef) :
    Acyclic (s.store.tables.Follows formRef reference) := by
  have hinv : ChainedHolds D forms s := by
    refine ReachVia.invariant (P := fun s => s.store.Separates D → ChainedHolds D forms s) ?_ ?_ hs hD
    · refine fun _ => ⟨PathVia.refl _, by simp [chained], fun formRef reference _ a ha => ?_⟩
      obtain ⟨b, hab, -⟩ := Relation.TransGen.head'_iff.mp ha
      obtain ⟨r, hr, -⟩ := hab
      cases hr
    · rintro s ⟨_, _⟩ u hinv hfresh h hD
      exact (hinv (hD.mono (seen_subset_of_chained h))).next hD hfresh h
  exact hinv.acyclic formRef reference hdeclared

/-! ### Two runs -/

section Examples

/-- The reference of a node must not come back. -/
def nodeForms : Forms := fun formRef =>
  if formRef.kind = "Node" then [.acyclic "/next"] else []

/-- The Form of the runs below. -/
def nodeForm : FormRef := { bucketForm with kind := "Node" }

/-- A node that refers to nothing. -/
def node (name uid : String) : Resource :=
  { address := { bucketAddress with kind := "Node", name }, uid, generation := "1", revision := "1",
    document := { apiVersion := "v1", kind := "Node", space := "s", name, uid, generation := "1",
                  revision := "1", formRef := nodeForm, content := "" },
    relations := [], packageDigest := none, implementationDigest := none }

/-- The reference `/next` to a Resource. -/
def nextRelation (r : Resource) : StoredRelation :=
  { pointer := "/next", relation := "/next", targetApiVersion := "v1", targetKind := "Node",
    targetName := r.address.name, targetUid := r.uid, targetRevision := some "1",
    targetFormRef := nodeForm }

/-- The dependency set of a node that is to refer to another. -/
def nextDependencies (operationId : String) (r next : Resource) : DependencySet :=
  { noDependencies operationId r.uid with
    relations := [nextRelation next]
    fences := [{ space := "s", apiVersion := "v1", kind := "Node", name := next.address.name,
                 uid := next.uid, revision := "1", formRef := nodeForm }]
    collected := rfl }

/-- The saga of an update. -/
def updateRef (operationId : String) (r : Resource) : SagaRef :=
  { tenantId := "t", operationId, resourceUid := r.uid }

/-- An update up to its receipt, but for its validation. -/
def updateCalls (operationId : String) (r next : Resource) : List Call :=
  let ref := updateRef operationId r
  let s := nextDependencies operationId r next
  [.acceptSaga { operationId, operationKind := .apply, replayKey := operationId, fingerprint := "f",
                 resourceUid := r.uid, target := r.address,
                 accepted := some { uid := r.uid, generation := "1", revision := "1" },
                 authorityHeadDigest := none } false,
   .reserveIncarnation r.address r.uid nodeForm,
   .acquireSaga ref { token := operationId, leaseUntil := 1000 } .initial,
   .reserveDependencies s operationId 1000,
   .bindApply ref "f" operationId .initial "selection",
   .markDispatch ref operationId .initial (some (s, .lease operationId)),
   .recordEffect { tenantId := "t", resourceUid := r.uid, effectId := operationId,
                   effectKind := .apply, phase := .dispatched, operationMode := .initial },
   .recordReceipt ref operationId none none "receipt"]

/-- The commit of an update that stores `next`. -/
def updateCommit (operationId : String) (r next : Resource) : Call :=
  .commitImmediate
    { address := r.address, resourceUid := r.uid, expectedRevision := some "1",
      packageDigest := none, implementationDigest := none, replayKey := operationId,
      fingerprint := "f", status := 200,
      change := .write { r.document with generation := "2", revision := "2" }
        (nextDependencies operationId r next) "receipt" .initial [] } operationId .apply true

/-- A walk that reads its source, its target and the relations of the target. -/
def walkSteps (n : ℕ) (operationId : String) (r next : Resource) : List ChainedAct :=
  .start { r.declaration with relations := (nextDependencies operationId r next).relations } "/next" ::
    [.read n, .read n, .read n]

/-- A create of a node, which refers to nothing. -/
def nodeSteps (operationId : String) (r : Resource) : List ChainedAct :=
  .start r.declaration "/next" ::
    (createCalls r (noDependencies operationId r.uid) operationId []).map ChainedAct.call

/-- The two ends of the cycle. -/
def nodeA : Resource := node "a" "uid_1"

def nodeB : Resource := node "b" "uid_2"

/-- Two nodes, and an update of the first that refers to the second. -/
def nextRun : List (Instant × ChainedAct) :=
  (nodeSteps "op_1" nodeA ++ nodeSteps "op_2" nodeB ++ walkSteps 2 "op_3" nodeA nodeB ++
    (updateCalls "op_3" nodeA nodeB).map ChainedAct.call ++
    [ChainedAct.call (updateCommit "op_3" nodeA nodeB)]).map fun act => (1, act)

/-- The reference is stored, and no chain comes back. -/
theorem declared_acyclicity_nextRun :
    ∃ s, (chained plainDigests nodeForms).ReachVia (fun s a => a.2.isFresh nodeForms s = true) s ∧
      (s.store.tables.resources.map fun r => r.relations.map StoredRelation.targetUid) =
        [["uid_2"], []] ∧
      Acyclic (s.store.tables.Follows nodeForm "/next") := by
  obtain ⟨s, hs, hp⟩ := exists_reachVia_of_run (M := chained plainDigests nodeForms)
    (fun s a => a.2.isFresh nodeForms s) nextRun
    (fun s => decide ((s.store.tables.resources.map fun r =>
      r.relations.map StoredRelation.targetUid) = [["uid_2"], []])) (by decide +kernel)
  exact ⟨s, hs, of_decide_eq_true hp, declared_acyclicity plainDigests nodeForms hs
    (fun _ => (plainDigests_target_injective _).injOn) (List.mem_singleton_self _)⟩

/-- Two updates that have both read their chain, and dispatched, before either commits. -/
def cycleRun : List (Instant × ChainedAct) :=
  (nodeSteps "op_1" nodeA ++ nodeSteps "op_2" nodeB ++ walkSteps 2 "op_3" nodeA nodeB ++
    walkSteps 3 "op_4" nodeB nodeA ++ (updateCalls "op_3" nodeA nodeB).map ChainedAct.call ++
    (updateCalls "op_4" nodeB nodeA).map ChainedAct.call ++
    [ChainedAct.call (updateCommit "op_3" nodeA nodeB),
      ChainedAct.call (updateCommit "op_4" nodeB nodeA)]).map
      fun act => (1, act)

/-- Two updates close a cycle from both sides. -/
theorem cycle_is_closed :
    ¬∀ (D : Digests) (forms : Forms) (s : Chained) (formRef : FormRef) (reference : String),
      (∀ tenantId, Function.Injective (D.target tenantId)) → (chained D forms).Reachable s →
      .acyclic reference ∈ forms formRef → Acyclic (s.store.tables.Follows formRef reference) := by
  intro h
  let follows := fun (s : Chained) (a b : Resource) =>
    s.store.tables.resources.any fun r => decide (r.address = a.address ∧ r.document.formRef = nodeForm) &&
      r.relations.any fun relation =>
        decide (relation.relation = "/next" ∧
          relation.target a.address.tenantId a.address.space = b.address) &&
          s.store.tables.resources.any fun r' =>
            decide (r'.address = b.address ∧ r'.uid = relation.targetUid ∧
              r'.document.formRef = nodeForm)
  have hfollows : ∀ s a b, follows s a b = true →
      s.store.tables.Follows nodeForm "/next" a.address b.address := by
    intro s a b hab
    simp only [follows, List.any_eq_true, Bool.and_eq_true, decide_eq_true_eq] at hab
    obtain ⟨r, hr, ⟨hra, hform⟩, relation, hrel, ⟨href, htarget⟩, r', hr', hra', huid, hform'⟩ := hab
    exact ⟨r, hr, hra, hform, relation, hrel, href, htarget, r', hr', hra', huid, hform'⟩
  obtain ⟨s, hs, hp⟩ := exists_reachable_of_run (M := chained plainDigests nodeForms) cycleRun
    (fun s => follows s nodeA nodeB && follows s nodeB nodeA) (by decide +kernel)
  simp only [Bool.and_eq_true] at hp
  have hacyclic := h plainDigests nodeForms s nodeForm "/next" plainDigests_target_injective hs
    (List.mem_singleton_self _)
  exact hacyclic nodeA.address
    (.tail (.single (hfollows s nodeA nodeB hp.1)) (hfollows s nodeB nodeA hp.2))

end Examples

end Takoserver.V1
