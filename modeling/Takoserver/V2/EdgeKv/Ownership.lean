import Takoserver.V2.EdgeKv.Custody

/-!
# What the custody of an Edge KV namespace owns

The rows of the table are never removed, and their columns are written once.  One create stands for
a Resource, no two Resources of a target share a native id or a planned title, and a delete is let
in only beside the confirmed create of its Resource.
-/

namespace Takoserver.V2.EdgeKv

variable {s s' : Tables} {n : ℕ}

/-! ### Rows -/

/-- The columns of a row that no update assigns. -/
def CustodyRow.fixed (r : CustodyRow) : CustodyRow :=
  { r with nativeId := none, acknowledgedReceipt := none, confirmedReceipt := none }

/-- A row as it may be later. -/
structure Later (old new : CustodyRow) : Prop where
  fixed : new.fixed = old.fixed
  nativeId : ∀ v, old.nativeId = some v → new.nativeId = some v
  acknowledged : ∀ v, old.acknowledgedReceipt = some v → new.acknowledgedReceipt = some v
  confirmed : ∀ v, old.confirmedReceipt = some v → new.confirmedReceipt = some v

namespace Later

variable {r r' r'' : CustodyRow}

theorem refl (r : CustodyRow) : Later r r := ⟨rfl, fun _ h => h, fun _ h => h, fun _ h => h⟩

theorem trans (h : Later r r') (h' : Later r' r'') : Later r r'' :=
  ⟨h'.fixed.trans h.fixed, fun v hv => h'.nativeId v (h.nativeId v hv),
    fun v hv => h'.acknowledged v (h.acknowledged v hv),
    fun v hv => h'.confirmed v (h.confirmed v hv)⟩

/-- What no update assigns is the same later. -/
theorem same {α : Type} (h : Later r r') (f : CustodyRow → α) (hf : ∀ x, f x.fixed = f x) :
    f r' = f r := by
  rw [← hf r', h.fixed, hf r]

theorem operationId (h : Later r r') : r'.operationId = r.operationId :=
  h.same CustodyRow.operationId fun _ => rfl

end Later

theorem later_of_monotonic {old new : CustodyRow} (h : old.monotonic new = true) :
    Later old new := by
  obtain ⟨_, _, _, _, _, _, _, _, _, _, _, _, _, _, _, _, _, _⟩ := old
  obtain ⟨_, _, _, _, _, _, _, _, _, _, _, _, _, _, _, _, _, _⟩ := new
  simp only [CustodyRow.monotonic, Bool.and_eq_true, Bool.or_eq_true, beq_iff_eq,
    Option.isNone_iff_eq_none] at h
  obtain ⟨⟨⟨⟨⟨⟨⟨⟨⟨⟨⟨⟨⟨⟨⟨⟨⟨rfl, rfl⟩, rfl⟩, rfl⟩, rfl⟩, rfl⟩, rfl⟩, rfl⟩, rfl⟩, rfl⟩, rfl⟩, rfl⟩, rfl⟩,
    hnative⟩, rfl⟩, rfl⟩, hack⟩, hproof⟩ := h
  refine ⟨rfl, fun v hv => ?_, fun v hv => ?_, fun v hv => ?_⟩
  · rcases hnative with hnone | heq
    · exact absurd (hnone.symm.trans hv) (by nofun)
    · exact heq.trans hv
  · rcases hack with hnone | heq
    · exact absurd (hnone.symm.trans hv) (by nofun)
    · exact heq.trans hv
  · rcases hproof with hnone | heq
    · exact absurd (hnone.symm.trans hv) (by nofun)
    · exact heq.trans hv

/-- Every row is there later. -/
structure Leads (s s' : Tables) : Prop where
  rows : ∀ r ∈ s.custody, ∃ r' ∈ s'.custody, Later r r'
  inserts : s.inserts ⊆ s'.inserts

theorem Leads.refl (s : Tables) : Leads s s :=
  ⟨fun r hr => ⟨r, hr, .refl r⟩, List.Subset.refl _⟩

theorem Leads.trans {t : Tables} (h : Leads s s') (h' : Leads s' t) : Leads s t := by
  refine ⟨fun r hr => ?_, List.Subset.trans h.inserts h'.inserts⟩
  obtain ⟨r', hr', hlater⟩ := h.rows r hr
  obtain ⟨r'', hr'', hlater'⟩ := h'.rows r' hr'
  exact ⟨r'', hr'', hlater.trans hlater'⟩

/-! ### Statements -/

/-- What a statement of process `n` does to the tables. -/
inductive Written (n : ℕ) (s : Tables) : Tables → Prop
  | same : Written n s s
  | host (db : Db) : Written n s { s with db }
  | insert (dbNow : Instant) (new : CustodyRow) (hguard : s.insertGuard dbNow new = true)
      (hcheck : new.check = true) (hnew : ∀ r ∈ s.custody, r.operationId ≠ new.operationId)
      (hapart : ∀ r ∈ s.custody, r.collides new = false) :
      Written n s { s with
        custody := s.custody ++ [new]
        inserts := s.inserts ++ [(n, new.operationId)] }
  | update (old new : CustodyRow) (hold : s.row old.operationId = some old)
      (hlater : Later old new) (hcheck : new.check = true)
      (hapart : ∀ r ∈ s.custody, r.operationId ≠ old.operationId → r.collides new = false) :
      Written n s { s with custody := Table.put CustodyRow.operationId new s.custody }

theorem written_of_insert {dbNow : Instant} {new : CustodyRow} {changes : ℕ}
    (h : s.insert n dbNow new = some (changes, s')) : Written n s s' := by
  unfold Tables.insert at h
  split at h
  · next hlet =>
    rw [Bool.and_eq_true] at hlet
    split at h
    · cases h
      exact .same
    · next hnew =>
      split at h
      · cases h
      · next hapart =>
        cases h
        refine .insert dbNow new hlet.1 hlet.2 (fun r hr heq => ?_) (fun r hr => ?_)
        · exact hnew (List.any_eq_true.mpr ⟨r, hr, beq_iff_eq.mpr heq⟩)
        · exact Bool.eq_false_iff.mpr fun hc => hapart (List.any_eq_true.mpr ⟨r, hr, hc⟩)
  · cases h

theorem written_of_update {id : Uuid} {p : CustodyRow → Bool} {f : CustodyRow → CustodyRow}
    {changes : ℕ} (h : s.update id p f = some (changes, s')) : Written n s s' := by
  unfold Tables.update at h
  split at h
  · cases h
    exact .same
  next old hold =>
  have hid : old.operationId = id := (Table.find_some hold).2
  split at h
  · split at h
    · next hlet =>
      simp only [Bool.and_eq_true, List.all_eq_true, Bool.or_eq_true, beq_iff_eq,
        Bool.not_eq_true'] at hlet
      obtain ⟨⟨hmono, hcheck⟩, hapart⟩ := hlet
      cases h
      refine .update old (f old) (by rw [hid]; exact hold) (later_of_monotonic hmono) hcheck
        fun r hr hne => ?_
      exact (hapart r hr).resolve_left (hid ▸ hne)
    · cases h
  · cases h
    exact .same

theorem written_of_orThrow {changes : Option (ℕ × Tables)}
    (h : ∀ k t, changes = some (k, t) → Written n s t) : Written n s (orThrow s changes).2 := by
  cases changes with
  | none => exact .same
  | some result => exact h result.1 result.2 rfl

/-- Every statement is one of the four. -/
theorem written_exec (n : ℕ) (w : Outside) (s : Tables) (c : Call) :
    Written n s (exec n w s c).2 := by
  cases c with
  | insertCreate =>
    refine written_of_orThrow fun k t ht => ?_
    unfold Tables.insertCreate at ht
    split at ht
    · cases ht
      exact .same
    · exact written_of_insert ht
  | insertDelete =>
    refine written_of_orThrow fun k t ht => ?_
    unfold Tables.insertDelete at ht
    split at ht
    · cases ht
      exact .same
    · dsimp only at ht
      split at ht
      · cases ht
        exact .same
      · exact written_of_insert ht
  | acknowledgeCreate => exact written_of_orThrow fun k t => written_of_update
  | confirmCreate =>
    exact written_of_orThrow fun k t => written_of_update
  | acknowledgeDelete => exact written_of_orThrow fun k t => written_of_update
  | confirmAbsent => exact written_of_orThrow fun k t => written_of_update
  | host db => exact .host db
  | _ => exact .same

/-! ### The tables -/

/-- The confirmed create that a delete names. -/
structure Source (c d : CustodyRow) : Prop where
  operationId : d.sourceOperationId = some c.operationId
  resourceUid : c.resourceUid = d.resourceUid
  action : c.action = .create
  targetKey : c.targetKey = d.targetKey
  generation : c.generation < d.generation
  nativeId : ∃ v, c.nativeId = some v ∧ d.nativeId = some v
  plannedTitle : c.plannedTitle = d.plannedTitle
  closureDigest : c.closureDigest = d.closureDigest
  confirmed : c.confirmedReceipt.isSome = true

/-- The pair is the same later. -/
theorem Source.later {c c' d d' : CustodyRow} (h : Source c d) (hc : Later c c')
    (hd : Later d d') : Source c' d' := by
  obtain ⟨v, hcv, hdv⟩ := h.nativeId
  obtain ⟨proof, hproof⟩ := Option.isSome_iff_exists.mp h.confirmed
  constructor
  · rw [hd.same CustodyRow.sourceOperationId fun _ => rfl, hc.operationId]
    exact h.operationId
  · rw [hc.same CustodyRow.resourceUid fun _ => rfl, hd.same CustodyRow.resourceUid fun _ => rfl]
    exact h.resourceUid
  · rw [hc.same CustodyRow.action fun _ => rfl]
    exact h.action
  · rw [hc.same CustodyRow.targetKey fun _ => rfl, hd.same CustodyRow.targetKey fun _ => rfl]
    exact h.targetKey
  · rw [hc.same CustodyRow.generation fun _ => rfl, hd.same CustodyRow.generation fun _ => rfl]
    exact h.generation
  · exact ⟨v, hc.nativeId v hcv, hd.nativeId v hdv⟩
  · rw [hc.same CustodyRow.plannedTitle fun _ => rfl, hd.same CustodyRow.plannedTitle fun _ => rfl]
    exact h.plannedTitle
  · rw [hc.same CustodyRow.closureDigest fun _ => rfl,
      hd.same CustodyRow.closureDigest fun _ => rfl]
    exact h.closureDigest
  · rw [hc.confirmed proof hproof]
    rfl

/-- What holds of the tables in every state. -/
structure Owned (s : Tables) : Prop where
  ids : (s.custody.map CustodyRow.operationId).Nodup
  checks : ∀ r ∈ s.custody, r.check = true
  apart : ∀ a ∈ s.custody, ∀ b ∈ s.custody, a.operationId ≠ b.operationId → a.collides b = false
  sources : ∀ d ∈ s.custody, d.action = .delete → ∃ c ∈ s.custody, Source c d
  inserts : (s.inserts.map Prod.snd).Nodup
  inserted : ∀ p ∈ s.inserts, ∃ r ∈ s.custody, r.operationId = p.2

theorem collides_comm (a b : CustodyRow) : a.collides b = b.collides a := by
  have key : ∀ a b : CustodyRow, a.collides b = true → b.collides a = true := by
    intro a b h
    simp only [CustodyRow.collides, Bool.and_eq_true, Bool.or_eq_true, beq_iff_eq] at h ⊢
    obtain ⟨⟨ha, hb⟩, hres | ⟨htarget, ⟨hsome, hnative⟩ | htitle⟩⟩ := h
    · exact ⟨⟨hb, ha⟩, Or.inl hres.symm⟩
    · exact ⟨⟨hb, ha⟩, Or.inr ⟨htarget.symm, Or.inl ⟨hnative ▸ hsome, hnative.symm⟩⟩⟩
    · exact ⟨⟨hb, ha⟩, Or.inr ⟨htarget.symm, Or.inr htitle.symm⟩⟩
  exact Bool.eq_iff_iff.mpr ⟨key a b, key b a⟩

/-- What the guard of the insert says of a delete. -/
theorem source_of_guard {dbNow : Instant} {new : CustodyRow}
    (h : s.insertGuard dbNow new = true) (hd : new.action = .delete) :
    referenced s.db new.resourceUid = false ∧
      ∃ c ∈ s.custody, (new.nativeId.isSome = true → Source c new) := by
  obtain ⟨op, -, h⟩ := (Option.any_eq_true _ _).mp h
  obtain ⟨resource, hresource, h⟩ := (Option.any_eq_true _ _).mp h
  have huid : resource.uid = op.resourceUid := (Table.find_some hresource).2
  simp only [hd, Bool.and_eq_true, beq_iff_eq] at h
  have hres : op.resourceUid = new.resourceUid := by tauto
  have hdelete : (!referenced s.db resource.uid && s.hasSource new) = true := by
    have hor : (V2.Action.delete == V2.Action.create ||
        !referenced s.db resource.uid && s.hasSource new) = true := by tauto
    exact hor
  rw [Bool.and_eq_true, Bool.not_eq_true'] at hdelete
  obtain ⟨hfree, hsource⟩ := hdelete
  refine ⟨?_, ?_⟩
  · rw [← hres, ← huid]
    exact hfree
  · obtain ⟨c, hc, hsrc⟩ := List.any_eq_true.mp hsource
    simp only [Bool.and_eq_true, beq_iff_eq, decide_eq_true_eq] at hsrc
    obtain ⟨⟨⟨⟨⟨⟨⟨⟨⟨⟨⟨hid, hcres⟩, haction⟩, -⟩, -⟩, -⟩, htarget⟩, hgen⟩, htitle⟩, hclosure⟩, hnative⟩,
      hproof⟩ := hsrc
    refine ⟨c, hc, fun hsome => ⟨hid.symm, hcres, haction, htarget, hgen, ?_, htitle, hclosure,
      hproof⟩⟩
    obtain ⟨v, hv⟩ := Option.isSome_iff_exists.mp hsome
    exact ⟨v, hnative.trans hv, hv⟩

namespace Written

/-- Rows are never removed, and their columns are written once. -/
theorem leads (h : Written n s s') (hs : Owned s) : Leads s s' := by
  cases h with
  | same => exact .refl s
  | host db => exact ⟨fun r hr => ⟨r, hr, .refl r⟩, List.Subset.refl _⟩
  | insert =>
    exact ⟨fun r hr => ⟨r, List.mem_append_left _ hr, .refl r⟩, List.subset_append_left _ _⟩
  | update old new hold hlater =>
    refine ⟨fun r hr => ?_, List.Subset.refl _⟩
    by_cases heq : r.operationId = new.operationId
    · have hmem := (Table.find_some hold).1
      have hro : r = old := Table.eq_of_key hs.ids hr hmem (heq.trans hlater.operationId)
      exact ⟨new, Table.mem_put_self hr heq, hro ▸ hlater⟩
    · exact ⟨r, Table.mem_put_of_ne hr heq, .refl r⟩

/-- Every statement keeps what holds of the rows. -/
theorem owned (h : Written n s s') (hs : Owned s) : Owned s' := by
  have hleads := h.leads hs
  cases h with
  | same => exact hs
  | host db => exact { hs with }
  | insert _ new hguard hcheck hnew hapart =>
    constructor
    · exact Table.nodup_insert hs.ids hnew
    · intro r hr
      rcases Table.mem_insert.mp hr with hr | rfl
      · exact hs.checks r hr
      · exact hcheck
    · intro a ha b hb hne
      rcases List.mem_append.mp ha with ha | ha <;> rcases List.mem_append.mp hb with hb | hb
      · exact hs.apart a ha b hb hne
      · rw [List.mem_singleton.mp hb]
        exact hapart a ha
      · rw [List.mem_singleton.mp ha, collides_comm]
        exact hapart b hb
      · exact absurd (by rw [List.mem_singleton.mp ha, List.mem_singleton.mp hb]) hne
    · intro d hd haction
      rcases List.mem_append.mp hd with hd | hd
      · obtain ⟨c, hc, hsource⟩ := hs.sources d hd haction
        exact ⟨c, List.mem_append_left _ hc, hsource⟩
      · rw [List.mem_singleton.mp hd] at haction ⊢
        obtain ⟨-, c, hc, hsource⟩ := source_of_guard hguard haction
        have hsome : new.nativeId.isSome = true := by
          simp only [CustodyRow.check, haction, Bool.and_eq_true] at hcheck
          exact hcheck.2.2
        exact ⟨c, List.mem_append_left _ hc, hsource hsome⟩
    · refine Table.nodup_insert hs.inserts fun p hp heq => ?_
      obtain ⟨r, hr, hid⟩ := hs.inserted p hp
      exact hnew r hr (hid.trans heq)
    · intro p hp
      rcases Table.mem_insert.mp hp with hp | rfl
      · obtain ⟨r, hr, hid⟩ := hs.inserted p hp
        exact ⟨r, List.mem_append_left _ hr, hid⟩
      · exact ⟨new, List.mem_append_right _ (List.mem_singleton_self _), rfl⟩
  | update old new hold hlater hcheck hapart =>
    have hmem := (Table.find_some hold).1
    have hid := hlater.operationId
    -- a row after the update is an old one, or the new one
    have hrows : ∀ r ∈ Table.put CustodyRow.operationId new s.custody,
        (r ∈ s.custody ∧ r.operationId ≠ old.operationId) ∨ r = new := by
      intro r hr
      rcases Table.mem_put.mp hr with ⟨hr, hne⟩ | ⟨rfl, -⟩
      · exact Or.inl ⟨hr, hid ▸ hne⟩
      · exact Or.inr rfl
    constructor
    · rw [Table.map_key_put]
      exact hs.ids
    · intro r hr
      rcases hrows r hr with ⟨hr, -⟩ | rfl
      · exact hs.checks r hr
      · exact hcheck
    · intro a ha b hb hne
      rcases hrows a ha with ⟨hao, hane⟩ | hanew <;> rcases hrows b hb with ⟨hbo, hbne⟩ | hbnew
      · exact hs.apart a hao b hbo hne
      · rw [hbnew]
        exact hapart a hao hane
      · rw [hanew, collides_comm]
        exact hapart b hbo hbne
      · exact absurd (by rw [hanew, hbnew]) hne
    · intro d hd haction
      have hold' : ∃ d₀ ∈ s.custody, d₀.action = .delete ∧ Later d₀ d := by
        rcases hrows d hd with ⟨hd, -⟩ | rfl
        · exact ⟨d, hd, haction, .refl d⟩
        · exact ⟨old, hmem, (hlater.same CustodyRow.action fun _ => rfl) ▸ haction, hlater⟩
      obtain ⟨d₀, hd₀, haction₀, hd'⟩ := hold'
      obtain ⟨c, hc, hsource⟩ := hs.sources d₀ hd₀ haction₀
      obtain ⟨c', hc', hcl⟩ := hleads.rows c hc
      exact ⟨c', hc', hsource.later hcl hd'⟩
    · exact hs.inserts
    · intro p hp
      obtain ⟨r, hr, hrid⟩ := hs.inserted p hp
      obtain ⟨r', hr', hrl⟩ := hleads.rows r hr
      exact ⟨r', hr', hrl.operationId.trans hrid⟩

end Written

end Takoserver.V2.EdgeKv
