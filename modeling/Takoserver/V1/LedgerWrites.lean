import Takoserver.V1.Frames
import Takoserver.V1.Ledger

/-!
# The ledger, write by write

What holds of the event rows by themselves, and of the columns that list them,
with one lemma for each kind of write: an event is recorded, a call inserts the
row alone, lists it alone, an incarnation is opened, is armed or ends, is
released.
-/

namespace Takoserver.V1

variable {e : Effect}

theorem Effect.tenantUid_of_attempt {e' : Effect} (h : e.attempt = e'.attempt) :
    e.tenantUid = e'.tenantUid := by
  simp only [Effect.attempt, Prod.mk.injEq] at h
  rw [Effect.tenantUid, Effect.tenantUid, h.1, h.2.1]

theorem Effect.key_eq_iff {e' : Effect} :
    e.key = e'.key ↔ e.attempt = e'.attempt ∧ e.phase = e'.phase := by
  simp only [Effect.key, Effect.attempt, Prod.mk.injEq]
  tauto

section Events

variable {k : String × String} {l l' : List Effect} {e : Effect}

theorem mem_eventsOf : e ∈ eventsOf k l ↔ e ∈ l ∧ e.tenantUid = k := by
  simp [eventsOf]

@[simp] theorem eventsOf_append : eventsOf k (l ++ l') = eventsOf k l ++ eventsOf k l' := by
  simp [eventsOf]

theorem eventsOf_singleton : eventsOf k [e] = if e.tenantUid = k then [e] else [] := by
  by_cases h : e.tenantUid = k <;> simp [eventsOf, h]

theorem eventsOf_eq_nil : eventsOf k l = [] ↔ ∀ e ∈ l, e.tenantUid ≠ k := by
  simp [eventsOf, List.filter_eq_nil_iff]

end Events

/-! ### The rows -/

structure EventsHold (effects : List Effect) : Prop where
  keys : (effects.map Effect.key).Nodup
  /-- No attempt has both succeeded and been cancelled. -/
  concluded : ∀ e ∈ effects, ∀ e' ∈ effects, e.attempt = e'.attempt → e.phase = .succeeded →
    e'.phase ≠ .cancelled
  planned : ∀ e ∈ effects, e.phase = .dispatched →
    ∃ e' ∈ effects, e'.attempt = e.attempt ∧ e'.phase = .planned
  ordered : effects.Pairwise fun e e' =>
    e.attempt = e'.attempt → e.phase = .dispatched → e'.phase ≠ .planned

/-- The earlier phases of an attempt permit an event, and it is not recorded yet. -/
structure IsPermitted (e : Effect) (effects : List Effect) : Prop where
  fresh : ∀ e' ∈ effects, e'.key ≠ e.key
  dispatched : e.phase = .dispatched → ∃ e' ∈ effects, e'.attempt = e.attempt ∧ e'.phase = .planned
  concluded : e.isTerminal = true → ∀ e' ∈ effects, e'.attempt = e.attempt → e'.isTerminal = false

theorem EventsHold.nil : EventsHold [] :=
  ⟨List.nodup_nil, by simp, by simp, List.Pairwise.nil⟩

theorem EventsHold.append {effects : List Effect} (h : EventsHold effects)
    (he : IsPermitted e effects) : EventsHold (effects ++ [e]) where
  keys := Table.nodup_insert h.keys he.fresh
  concluded := by
    -- the new event is one side of the pair, or none
    have hterminal : ∀ e' ∈ effects, e'.attempt = e.attempt →
        e.isTerminal = true → e'.phase ≠ .succeeded ∧ e'.phase ≠ .cancelled := by
      intro e' he' hattempt hterm
      have hnot := he.concluded hterm e' he' hattempt
      simp only [Effect.isTerminal, decide_eq_false_iff_not, not_or] at hnot
      exact hnot
    intro e₁ h₁ e₂ h₂ hattempt hsucceeded hcancelled
    simp only [List.mem_append, List.mem_singleton] at h₁ h₂
    rcases h₁ with h₁ | rfl <;> rcases h₂ with h₂ | rfl
    · exact h.concluded e₁ h₁ e₂ h₂ hattempt hsucceeded hcancelled
    · exact (hterminal e₁ h₁ hattempt (by simp [Effect.isTerminal, hcancelled])).1 hsucceeded
    · exact (hterminal e₂ h₂ hattempt.symm (by simp [Effect.isTerminal, hsucceeded])).2 hcancelled
    · rw [hsucceeded] at hcancelled
      cases hcancelled
  planned := by
    intro e' he' hphase
    have hkeep : (∃ p ∈ effects, p.attempt = e'.attempt ∧ p.phase = .planned) →
        ∃ p ∈ effects ++ [e], p.attempt = e'.attempt ∧ p.phase = .planned := by
      rintro ⟨p, hp, hrest⟩
      exact ⟨p, List.mem_append_left _ hp, hrest⟩
    rcases List.mem_append.mp he' with he' | he'
    · exact hkeep (h.planned e' he' hphase)
    · rw [List.mem_singleton] at he'
      subst he'
      exact hkeep (he.dispatched hphase)
  ordered := by
    rw [List.pairwise_append]
    refine ⟨h.ordered, List.pairwise_singleton _ _, ?_⟩
    intro e' he' e'' he'' hattempt hdispatched hplanned
    rw [List.mem_singleton] at he''
    subst he''
    -- a dispatch has its plan already, so this one is not fresh
    obtain ⟨p, hp, hpattempt, hpphase⟩ := h.planned e' he' hdispatched
    exact he.fresh p hp (Effect.key_eq_iff.mpr
      ⟨hpattempt.trans hattempt, hpphase.trans hplanned.symm⟩)

/-- The rows of whole attempts may go. -/
theorem EventsHold.delete {effects : List Effect} {p : Effect → Bool} (h : EventsHold effects)
    (hp : ∀ e e', e.attempt = e'.attempt → p e = p e') : EventsHold (Table.delete p effects) where
  keys := Table.nodup_delete h.keys
  concluded := fun e he e' he' => h.concluded e (Table.mem_delete.mp he).1 e' (Table.mem_delete.mp he').1
  planned := by
    intro e he hphase
    obtain ⟨he, hkept⟩ := Table.mem_delete.mp he
    obtain ⟨e', he', hattempt, hplanned⟩ := h.planned e he hphase
    exact ⟨e', Table.mem_delete.mpr ⟨he', (hp e' e hattempt).trans hkept⟩, hattempt, hplanned⟩
  ordered := h.ordered.sublist List.filter_sublist

/-! ### The columns -/

/-- Every open attestation lists the rows of its incarnation, in their order, and its fence
counts them.  A row that a call has inserted and not listed yet is the last. -/
structure Listed (unprojected effects : List Effect) (attestations : List Attestation)
    (ps : List Projection) : Prop where
  incarnations : (attestations.map Attestation.tenantUid).Nodup
  columns : ps.map Projection.tenantUid = attestations.map Attestation.tenantUid
  attested : ∀ e ∈ effects, ∃ a ∈ attestations, a.tenantUid = e.tenantUid
  written : ∀ e ∈ unprojected, ∃ a ∈ attestations, a.tenantUid = e.tenantUid ∧ a.isOpen = true
  single : ∀ k, (eventsOf k unprojected).length ≤ 1
  listed : ∀ a ∈ attestations, a.isOpen = true → ∀ p ∈ ps, p.tenantUid = a.tenantUid →
    p.effects ++ eventsOf a.tenantUid unprojected = eventsOf a.tenantUid effects ∧
      p.closureFence = p.effects.length + 1

namespace Listed

variable {unprojected effects : List Effect} {attestations : List Attestation}
  {ps : List Projection}

theorem nil : Listed [] [] [] [] :=
  ⟨List.nodup_nil, rfl, by simp, by simp, by simp [eventsOf], by simp⟩

/-- The columns of an attestation. -/
theorem exists_projection (h : Listed unprojected effects attestations ps) {a : Attestation}
    (ha : a ∈ attestations) : ∃ p ∈ ps, p.tenantUid = a.tenantUid := by
  have hm : a.tenantUid ∈ ps.map Projection.tenantUid := by
    rw [h.columns]
    exact List.mem_map_of_mem ha
  exact List.mem_map.mp hm

variable {k : String × String}

theorem eventsOf_concat_ne {l : List Effect}
    (h : e.tenantUid ≠ k) : eventsOf k (l ++ [e]) = eventsOf k l := by
  rw [eventsOf_append, eventsOf_singleton, if_neg h, List.append_nil]

theorem eventsOf_concat_self (e : Effect) (l : List Effect) :
    eventsOf e.tenantUid (l ++ [e]) = eventsOf e.tenantUid l ++ [e] := by
  rw [eventsOf_append, eventsOf_singleton, if_pos rfl]

theorem map_record (e : Effect) (ps : List Projection) :
    (Table.update (fun p => decide (p.tenantUid = e.tenantUid)) (Projection.record e) ps).map
      Projection.tenantUid = ps.map Projection.tenantUid :=
  Table.map_update (by intro p; rfl) _

/-- What the `UPDATE` of one event leaves of the columns. -/
theorem mem_record {p : Projection}
    (hp : p ∈ Table.update (fun p => decide (p.tenantUid = e.tenantUid)) (Projection.record e) ps) :
    (p ∈ ps ∧ p.tenantUid ≠ e.tenantUid) ∨
      ∃ q ∈ ps, q.tenantUid = e.tenantUid ∧ p = q.record e := by
  rcases Table.mem_update.mp hp with ⟨hp, hne⟩ | ⟨q, hq, hkey, rfl⟩
  · exact Or.inl ⟨hp, of_decide_eq_false hne⟩
  · exact Or.inr ⟨q, hq, of_decide_eq_true hkey, rfl⟩

/-- A batch records an event: its row and its place in the list. -/
theorem record (h : Listed unprojected effects attestations ps)
    (hopen : ∃ a ∈ attestations, a.tenantUid = e.tenantUid)
    (hquiet : eventsOf e.tenantUid unprojected = []) :
    Listed unprojected (effects ++ [e]) attestations
      (Table.update (fun p => decide (p.tenantUid = e.tenantUid)) (Projection.record e) ps) where
  incarnations := h.incarnations
  columns := (map_record e ps).trans h.columns
  attested := by
    intro e' he'
    rcases List.mem_append.mp he' with he' | he'
    · exact h.attested e' he'
    · rw [List.mem_singleton] at he'
      rw [he']
      exact hopen
  written := h.written
  single := h.single
  listed := by
    intro a ha haopen p hp hkey
    rcases mem_record hp with ⟨hp, hne⟩ | ⟨q, hq, hqkey, rfl⟩
    · rw [eventsOf_concat_ne fun heq => hne (hkey.trans heq.symm)]
      exact h.listed a ha haopen p hp hkey
    · have hake : a.tenantUid = e.tenantUid := hkey.symm.trans hqkey
      obtain ⟨hlist, hfence⟩ := h.listed a ha haopen q hq (hqkey.trans hake.symm)
      rw [hake, hquiet, List.append_nil] at hlist ⊢
      rw [eventsOf_concat_self, ← hlist]
      exact ⟨rfl, by simp [Projection.record, hfence]⟩

/-- A call inserts its row, and has not listed it. -/
theorem insert (h : Listed unprojected effects attestations ps)
    {before after : List Effect} (hsplit : unprojected = before ++ after)
    (hopen : ∃ a ∈ attestations, a.tenantUid = e.tenantUid ∧ a.isOpen = true)
    (hquiet : eventsOf e.tenantUid unprojected = []) :
    Listed (before ++ [e] ++ after) (effects ++ [e]) attestations ps := by
  subst hsplit
  rw [eventsOf_append, List.append_eq_nil_iff] at hquiet
  have hof : ∀ k, e.tenantUid ≠ k → eventsOf k (before ++ [e] ++ after) =
      eventsOf k (before ++ after) := by
    intro k hk
    rw [eventsOf_append, eventsOf_concat_ne hk, eventsOf_append]
  have hself : eventsOf e.tenantUid (before ++ [e] ++ after) = [e] := by
    rw [eventsOf_append, eventsOf_concat_self, hquiet.1, hquiet.2]
    rfl
  refine ⟨h.incarnations, h.columns, ?_, ?_, fun k => ?_, ?_⟩
  · intro e' he'
    rcases List.mem_append.mp he' with he' | he'
    · exact h.attested e' he'
    · rw [List.mem_singleton] at he'
      obtain ⟨a, ha, hkey, -⟩ := hopen
      exact ⟨a, ha, he' ▸ hkey⟩
  · intro e' he'
    simp only [List.mem_append, List.mem_singleton] at he'
    rcases he' with (he' | rfl) | he'
    · exact h.written e' (List.mem_append_left _ he')
    · exact hopen
    · exact h.written e' (List.mem_append_right _ he')
  · by_cases hk : e.tenantUid = k
    · rw [← hk, hself]
      simp
    · rw [hof k hk]
      exact h.single k
  · intro a ha haopen p hp hkey
    obtain ⟨hlist, hfence⟩ := h.listed a ha haopen p hp hkey
    refine ⟨?_, hfence⟩
    by_cases hk : e.tenantUid = a.tenantUid
    · rw [← hk, hself, eventsOf_concat_self]
      rw [← hk, eventsOf_append, hquiet.1, hquiet.2, List.append_nil, List.append_nil] at hlist
      rw [hlist]
    · rw [hof _ hk, eventsOf_concat_ne hk]
      exact hlist

/-- A call lists the row it has inserted. -/
theorem list {before after : List Effect}
    (h : Listed (before ++ [e] ++ after) effects attestations ps) :
    Listed (before ++ after) effects attestations
      (Table.update (fun p => decide (p.tenantUid = e.tenantUid)) (Projection.record e) ps) := by
  have hof : ∀ k, e.tenantUid ≠ k → eventsOf k (before ++ [e] ++ after) =
      eventsOf k (before ++ after) := by
    intro k hk
    rw [eventsOf_append, eventsOf_concat_ne hk, eventsOf_append]
  -- no other call is about to list a row of this incarnation
  have hsingle := h.single e.tenantUid
  rw [eventsOf_append, eventsOf_concat_self] at hsingle
  simp only [List.length_append, List.length_singleton] at hsingle
  have hbefore : eventsOf e.tenantUid before = [] := List.length_eq_zero_iff.mp (by omega)
  have hafter : eventsOf e.tenantUid after = [] := List.length_eq_zero_iff.mp (by omega)
  refine ⟨h.incarnations, (map_record e ps).trans h.columns, h.attested, ?_, fun k => ?_, ?_⟩
  · intro e' he'
    refine h.written e' ?_
    simp only [List.mem_append] at he' ⊢
    tauto
  · by_cases hk : e.tenantUid = k
    · rw [← hk, eventsOf_append, hbefore, hafter]
      simp
    · rw [← hof k hk]
      exact h.single k
  · intro a ha haopen p hp hkey
    rcases mem_record hp with ⟨hp, hne⟩ | ⟨q, hq, hqkey, rfl⟩
    · rw [← hof _ fun heq => hne (hkey.trans heq.symm)]
      exact h.listed a ha haopen p hp hkey
    · have hake : a.tenantUid = e.tenantUid := hkey.symm.trans hqkey
      obtain ⟨hlist, hfence⟩ := h.listed a ha haopen q hq (hqkey.trans hake.symm)
      rw [hake, eventsOf_append, eventsOf_concat_self, hbefore, hafter] at hlist
      rw [hake, eventsOf_append, hbefore, hafter, ← hlist]
      simp [Projection.record, hfence]

section

variable (h : Listed unprojected effects attestations ps)

include h

theorem opened {a : Attestation} (hnew : ∀ b ∈ attestations, b.tenantUid ≠ a.tenantUid) :
    Listed unprojected effects (attestations ++ [a]) (ps ++ [Projection.opened a.tenantUid]) := by
  have hkey : (Projection.opened a.tenantUid).tenantUid = a.tenantUid := rfl
  have hold : ∀ p ∈ ps, p.tenantUid ≠ a.tenantUid := by
    intro p hp heq
    have hm : p.tenantUid ∈ attestations.map Attestation.tenantUid := by
      rw [← h.columns]
      exact List.mem_map_of_mem hp
    obtain ⟨b, hb, hbkey⟩ := List.mem_map.mp hm
    exact hnew b hb (hbkey.trans heq)
  -- there are no rows yet
  have hrows : eventsOf a.tenantUid effects = [] := by
    rw [eventsOf_eq_nil]
    intro e he heq
    obtain ⟨b, hb, hbkey⟩ := h.attested e he
    exact hnew b hb (hbkey.trans heq)
  have hquiet : eventsOf a.tenantUid unprojected = [] := by
    rw [eventsOf_eq_nil]
    intro e he heq
    obtain ⟨b, hb, hbkey, -⟩ := h.written e he
    exact hnew b hb (hbkey.trans heq)
  refine ⟨Table.nodup_insert h.incarnations hnew, ?_, ?_, ?_, h.single, ?_⟩
  · rw [List.map_append, List.map_append, h.columns]
    simp [hkey]
  · intro e he
    obtain ⟨b, hb, hbkey⟩ := h.attested e he
    exact ⟨b, List.mem_append_left _ hb, hbkey⟩
  · intro e he
    obtain ⟨b, hb, hrest⟩ := h.written e he
    exact ⟨b, List.mem_append_left _ hb, hrest⟩
  · intro b hb hbopen p hp hpkey
    simp only [List.mem_append, List.mem_singleton] at hb hp
    rcases hb with hb | rfl <;> rcases hp with hp | rfl
    · exact h.listed b hb hbopen p hp hpkey
    · exact absurd (hpkey.symm.trans hkey) (hnew b hb)
    · exact absurd hpkey (hold p hp)
    · rw [hrows, hquiet]
      exact ⟨rfl, rfl⟩

theorem arm {p : Attestation → Bool} {f : Attestation → Attestation}
    (hkey : ∀ a, (f a).tenantUid = a.tenantUid)
    (hf : ∀ a, p a = true → (f a).isOpen = true → a.isOpen = true)
    (hopen : ∀ e ∈ unprojected, ∀ a, a.tenantUid = e.tenantUid → p a = true → a.isOpen = true →
      (f a).isOpen = true)
    :
    Listed unprojected effects (Table.update p f attestations) ps := by
  have hmem : ∀ a ∈ attestations, ∃ b ∈ Table.update p f attestations,
      b.tenantUid = a.tenantUid ∧ b = if p a then f a else a := by
    intro a ha
    refine ⟨_, Table.mem_update_of_mem ha, ?_, rfl⟩
    split
    · exact hkey a
    · rfl
  have hkeys : (Table.update p f attestations).map Attestation.tenantUid =
      attestations.map Attestation.tenantUid := Table.map_update hkey _
  refine ⟨by rw [hkeys]; exact h.incarnations, by rw [hkeys]; exact h.columns, ?_, ?_, h.single, ?_⟩
  · intro e he
    obtain ⟨a, ha, hakey⟩ := h.attested e he
    obtain ⟨b, hb, hbkey, -⟩ := hmem a ha
    exact ⟨b, hb, hbkey.trans hakey⟩
  · intro e he
    obtain ⟨a, ha, hakey, haopen⟩ := h.written e he
    obtain ⟨b, hb, hbkey, hbeq⟩ := hmem a ha
    refine ⟨b, hb, hbkey.trans hakey, ?_⟩
    rw [hbeq]
    split
    · next hpa => exact hopen e he a hakey hpa haopen
    · exact haopen
  · intro b hb hbopen q hq hqkey
    rcases Table.mem_update.mp hb with ⟨hb, -⟩ | ⟨a, ha, hpa, rfl⟩
    · exact h.listed b hb hbopen q hq hqkey
    · rw [hkey a] at hqkey ⊢
      exact h.listed a ha (hf a hpa hbopen) q hq hqkey

theorem bump {f : Projection → Projection}
    (hkey : ∀ p, (f p).tenantUid = p.tenantUid)
    (hclosed : ∀ a ∈ attestations, a.tenantUid = k → a.isOpen = false) :
    Listed unprojected effects attestations
      (Table.update (fun p => decide (p.tenantUid = k)) f ps) := by
  refine ⟨h.incarnations, by rw [Table.map_update hkey, h.columns], h.attested, h.written,
    h.single, ?_⟩
  intro a ha haopen p hp hpkey
  rcases Table.mem_update.mp hp with ⟨hp, -⟩ | ⟨q, -, hq, rfl⟩
  · exact h.listed a ha haopen p hp hpkey
  · have hak : a.tenantUid = k := by
      rw [← hpkey, hkey q]
      exact of_decide_eq_true hq
    rw [hclosed a ha hak] at haopen
    cases haopen

/-- An incarnation is released, with all its rows. -/
theorem release {p : Effect → Bool} {q : Attestation → Bool}
    (hp : ∀ e ∈ effects, p e = decide (e.tenantUid = k))
    (hq : ∀ a ∈ attestations, q a = decide (a.tenantUid = k)) (hquiet : eventsOf k unprojected = [])
    :
    Listed unprojected (Table.delete p effects) (Table.delete q attestations)
      (Table.delete (fun r => decide (r.tenantUid = k)) ps) := by
  have hattest : ∀ a, a ∈ Table.delete q attestations ↔ a ∈ attestations ∧ a.tenantUid ≠ k := by
    intro a
    rw [Table.mem_delete]
    refine and_congr_right fun ha => ?_
    rw [hq a ha, decide_eq_false_iff_not]
  have hrows : ∀ k', k' ≠ k → eventsOf k' (Table.delete p effects) = eventsOf k' effects := by
    intro k' hk'
    unfold eventsOf Table.delete
    rw [List.filter_filter]
    refine List.filter_congr fun e he => ?_
    rw [hp e he]
    by_cases hek : e.tenantUid = k'
    · simp [hek, hk']
    · simp [hek]
  -- both tables lose the rows of this key, in step
  have hfilter : ∀ {β : Type} (g : β → String × String) (l : List β) (r : β → Bool),
      (∀ b ∈ l, r b = decide (g b = k)) →
        (Table.delete r l).map g = (l.map g).filter fun x => decide (x ≠ k) := by
    intro β g l r hr
    rw [List.filter_map]
    refine congrArg _ (List.filter_congr fun b hb => ?_)
    rw [hr b hb]
    simp
  refine ⟨Table.nodup_delete h.incarnations, ?_, ?_, ?_, h.single, ?_⟩
  · rw [hfilter _ _ _ fun _ _ => rfl, hfilter _ _ _ hq, h.columns]
  · intro e he
    obtain ⟨he, hkept⟩ := Table.mem_delete.mp he
    rw [hp e he, decide_eq_false_iff_not] at hkept
    obtain ⟨a, ha, hakey⟩ := h.attested e he
    exact ⟨a, (hattest a).mpr ⟨ha, fun heq => hkept (hakey.symm.trans heq)⟩, hakey⟩
  · intro e he
    obtain ⟨a, ha, hakey, haopen⟩ := h.written e he
    refine ⟨a, (hattest a).mpr ⟨ha, fun heq => ?_⟩, hakey, haopen⟩
    exact eventsOf_eq_nil.mp hquiet e he (hakey.symm.trans heq)
  · intro a ha haopen r hr hrkey
    obtain ⟨ha, hne⟩ := (hattest a).mp ha
    rw [hrows _ hne]
    exact h.listed a ha haopen r (Table.mem_delete.mp hr).1 hrkey

end

end Listed

end Takoserver.V1
