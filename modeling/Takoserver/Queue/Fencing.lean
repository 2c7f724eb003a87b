import Takoserver.Queue.Conservation

/-!
# Leases and generations

A lease belongs to the generation of the queue's custody row, while that is active or retiring;
a generation ends only when it holds no lease and owes no transfer notice.
-/

namespace Takoserver.Queue

/-! ### The generation in custody -/

/-- The generation a lease of a message is of. -/
def Message.holder (m : Message) (l : Lease) : Identity := ⟨m.queueId, l.consumerId, l.generation⟩

/-- The generation is in custody: active or retiring. -/
def Tables.Serves (t : Tables) (identity : Identity) : Prop :=
  ∃ c ∈ t.custody, c.toIdentity = identity ∧ c.state ≠ .tombstone

/-- What every statement keeps of leases and notices. -/
structure Fenced (t : Tables) : Prop where
  keys : (t.custody.map fun c => c.queueId).Nodup
  leased : ∀ m ∈ t.messages, ∀ l, m.lease = some l → t.Serves (m.holder l)
  noticed : ∀ n ∈ t.notices, t.Serves n.source

variable {lic : Licence} {t t' : Tables} {identity : Identity}

theorem serves_of_inCustody {states : List CustodyState} (h : t.inCustody identity states = true)
    (hstates : .tombstone ∉ states) : t.Serves identity := by
  simp only [Tables.inCustody, List.any_eq_true, decide_eq_true_eq] at h
  obtain ⟨c, hc, hid, hstate⟩ := h
  refine ⟨c, hc, hid, ?_⟩
  intro htomb
  rw [htomb] at hstate
  exact hstates hstate

theorem heldBy_iff {m : Message} :
    m.heldBy identity = true ↔ ∃ l, m.lease = some l ∧ m.holder l = identity := by
  obtain ⟨q, c, g⟩ := identity
  cases hl : m.lease with
  | none => simp [Message.heldBy, hl]
  | some l => simp [Message.heldBy, Message.holder, hl]

/-- Tables with the same custody rows, and no new leases or notices. -/
theorem Fenced.of_subset (h : Fenced t) (hc : t'.custody = t.custody)
    (hm : ∀ m' ∈ t'.messages, ∀ l', m'.lease = some l' →
      ∃ m ∈ t.messages, ∃ l, m.lease = some l ∧ m'.holder l' = m.holder l)
    (hn : t'.notices ⊆ t.notices) : Fenced t' := by
  refine ⟨by rw [hc]; exact h.keys, ?_, ?_⟩
  · intro m' hm' l' hl'
    obtain ⟨m, hmem, l, hl, hholder⟩ := hm m' hm' l' hl'
    rw [hholder, Tables.Serves, hc]
    exact h.leased m hmem l hl
  · intro n hmem
    rw [Tables.Serves, hc]
    exact h.noticed n (hn hmem)

theorem Fenced.turned (h : Fenced t) {p : Message → Bool} {f : Message → Message}
    (hturn : ∀ m ∈ t.messages, p m = true → Turn lic t m (f m)) :
    Fenced { t with messages := Table.update p f t.messages } := by
  refine ⟨h.keys, ?_, h.noticed⟩
  intro m' hm' l' hl'
  rcases Table.mem_update.mp hm' with ⟨hm', -⟩ | ⟨m, hm, hp, rfl⟩
  · exact h.leased m' hm' l' hl'
  generalize hf : f m = m' at hl'
  have hstep := hturn m hm hp
  rw [hf] at hstep
  cases hstep with
  | leased l d _ _ hc =>
    obtain rfl : l = l' := Option.some.inj hl'
    exact serves_of_inCustody hc (by simp)
  | unleased => cases hl'
  | renewed l expiresAt hl =>
    obtain rfl : { l with expiresAt } = l' := Option.some.inj hl'
    exact h.leased m hm l hl

theorem mem_upsertNotice {n x : Notice} (h : x ∈ (t.upsertNotice n).notices) :
    x ∈ t.notices ∨ x = n := by
  simp only [Tables.upsertNotice] at h
  split at h
  · rcases Table.mem_put.mp h with ⟨h, -⟩ | ⟨h, -⟩
    · exact Or.inl h
    · exact Or.inr h
  · rcases List.mem_append.mp h with h | h
    · exact Or.inl h
    · exact Or.inr (List.mem_singleton.mp h)

theorem Fenced.effect (h : Fenced t) (hstep : Effect lic t t') : Fenced t' := by
  cases hstep with
  | admitted m _ hlease _ =>
    refine h.of_subset rfl ?_ (List.Subset.refl _)
    intro m' hm' l' hl'
    rcases List.mem_append.mp hm' with hm' | hm'
    · exact ⟨m', hm', l', hl', rfl⟩
    · rw [List.mem_singleton.mp hm', hlease] at hl'
      cases hl'
  | turned p f hturn => exact h.turned hturn
  | refunded =>
    refine h.of_subset rfl (fun m' hm' l' hl' => ?_) (List.Subset.refl _)
    rcases Table.mem_update.mp hm' with ⟨hm', -⟩ | ⟨m, -, -, rfl⟩
    · exact ⟨m', hm', l', hl', rfl⟩
    · cases hl'
  | deleted =>
    exact h.of_subset rfl (fun m hm l hl => ⟨m, (Table.mem_delete.mp hm).1, l, hl, rfl⟩)
      (List.Subset.refl _)
  | transferred _ _ _ _ _ _ _ _ _ _ _ _ _ hc =>
    refine ⟨h.keys, ?_, ?_⟩
    · intro m' hm' l' hl'
      rcases List.mem_append.mp hm' with hm' | hm'
      · exact h.leased m' (Table.mem_delete.mp hm').1 l' hl'
      · rw [List.mem_singleton.mp hm'] at hl'
        cases hl'
    · intro n hn
      rcases mem_upsertNotice hn with hn | rfl
      · exact h.noticed n hn
      · exact serves_of_inCustody hc (by simp)
  | unnoticed n =>
    refine h.of_subset rfl (fun m hm l hl => ⟨m, hm, l, hl, rfl⟩) ?_
    exact fun x hx => (Table.mem_delete.mp hx).1
  | _ => exact h.of_subset rfl (fun m hm l hl => ⟨m, hm, l, hl, rfl⟩) (List.Subset.refl _)

theorem Custody.Turn.keeps {c c' : Custody} (h : c.Turn t c') :
    c'.queueId = c.queueId ∧ (c'.generation = c.generation ∨ c'.generation = c.generation + 1) := by
  cases h with
  | retiring => exact ⟨rfl, Or.inl rfl⟩
  | replaced _ _ hqueue hgeneration => exact ⟨hqueue, Or.inr hgeneration⟩
  | tombstone => exact ⟨rfl, Or.inl rfl⟩

theorem Custody.Turn.serves {c c' : Custody} (h : c.Turn t c') (hstate : c.state ≠ .tombstone)
    (hneeded : t.drained c.toIdentity = false) :
    c'.toIdentity = c.toIdentity ∧ c'.state ≠ .tombstone := by
  cases h with
  | retiring => exact ⟨rfl, by simp⟩
  | replaced _ h =>
    rcases h with htomb | ⟨-, hdrained⟩
    · exact absurd htomb hstate
    · rw [hneeded] at hdrained
      cases hdrained
  | tombstone _ hdrained =>
    rw [hneeded] at hdrained
    cases hdrained

theorem Fenced.succession (h : Fenced t) (hstep : Succession t t') : Fenced t' := by
  cases hstep with
  | begun value hnone =>
    have hserves : ∀ {identity}, t.Serves identity → Tables.Serves { t with
        custody := t.custody ++
          [{ toConsumerGeneration := value, state := .active, retirementStartedAt := none }] }
        identity := by
      rintro _ ⟨c, hc, hid, hstate⟩
      exact ⟨c, List.mem_append_left _ hc, hid, hstate⟩
    refine ⟨?_, fun m hm l hl => hserves (h.leased m hm l hl), fun n hn => hserves (h.noticed n hn)⟩
    refine Table.nodup_insert h.keys fun c hc heq => ?_
    have hno := List.find?_eq_none.mp hnone c hc
    exact hno (decide_eq_true heq)
  | turned p f hturn =>
    have hserves : ∀ {identity}, t.Serves identity → t.drained identity = false →
        Tables.Serves { t with custody := Table.update p f t.custody } identity := by
      rintro _ ⟨c, hc, rfl, hstate⟩ hneeded
      refine ⟨_, Table.mem_update_of_mem hc, ?_⟩
      by_cases hp : p c = true
      · rw [if_pos hp]
        exact (hturn c hc hp).serves hstate hneeded
      · rw [if_neg hp]
        exact ⟨rfl, hstate⟩
    refine ⟨?_, ?_, ?_⟩
    · rw [Table.map_update_of_mem fun c hc hp => (hturn c hc hp).keeps.1]
      exact h.keys
    · intro m hm l hl
      refine hserves (h.leased m hm l hl) ?_
      have hany : (t.messages.any fun x => x.heldBy (m.holder l)) = true :=
        List.any_eq_true.mpr ⟨m, hm, heldBy_iff.mpr ⟨l, hl, rfl⟩⟩
      simp [Tables.drained, hany]
    · intro n hn
      refine hserves (h.noticed n hn) ?_
      have hany : (t.notices.any fun x => decide (x.source = n.source)) = true :=
        List.any_eq_true.mpr ⟨n, hn, by simp⟩
      simp [Tables.drained, hany]

/-- The tables of every reachable state are fenced. -/
theorem fenced_of_reachable {s : Host} (h : queues.Reachable s) : Fenced s.tables := by
  refine (tables_invariant (P := Fenced) ⟨List.nodup_nil, by simp, by simp⟩ ?_ ?_ h).1
  · rintro t _ ht (⟨_, -⟩ | ⟨_, hstep⟩ | ⟨_, hstep⟩)
    · exact ht.of_subset rfl (fun m hm l hl => ⟨m, hm, l, hl, rfl⟩) (List.Subset.refl _)
    · exact ht.effect hstep
    · cases hstep <;>
        exact ht.of_subset rfl (fun m hm l hl => ⟨m, hm, l, hl, rfl⟩) (List.Subset.refl _)
  · exact fun t t' ht hstep => ht.succession hstep

/-! ### The succession of generations -/

/-- The generation of a queue's custody row; zero where there is none. -/
def Tables.generation (t : Tables) (queueId : String) : ℕ :=
  ((t.custodyOf queueId).map fun c => c.generation).getD 0

theorem Effect.custody_eq (h : Effect lic t t') : t'.custody = t.custody := by cases h <;> rfl

theorem Moves.custody_eq {clock : Instant → Instant → Prop} (h : Moves lic clock t t') :
    t'.custody = t.custody := by
  refine Moves.invariant (P := fun u => u.custody = t.custody) ?_ h rfl
  rintro u v hu (⟨_, -⟩ | ⟨_, hstep⟩ | ⟨_, hstep⟩)
  · exact hu
  · exact hstep.custody_eq.trans hu
  · cases hstep <;> exact hu

theorem Succession.generation (h : Succession t t') (queueId : String) :
    t'.generation queueId = t.generation queueId ∨
      t'.generation queueId = t.generation queueId + 1 := by
  cases h with
  | begun value _ _ hgeneration =>
    simp only [Tables.generation, Tables.custodyOf, List.find?_append]
    cases hfind : t.custody.find? fun c => decide (c.queueId = queueId) with
    | some c => exact Or.inl rfl
    | none =>
      by_cases hq : value.queueId = queueId
      · right
        simp [hq, hgeneration]
      · left
        simp [hq]
  | turned p f hturn =>
    have hfind : (Table.update p f t.custody).find? (fun c => decide (c.queueId = queueId)) =
        (t.custody.find? fun c => decide (c.queueId = queueId)).map
          fun c => if p c then f c else c :=
      Table.find_update fun c hc hp => (hturn c hc hp).keeps.1
    simp only [Tables.generation, Tables.custodyOf, hfind]
    cases hc : t.custody.find? fun c => decide (c.queueId = queueId) with
    | none => exact Or.inl rfl
    | some c =>
      by_cases hp : p c = true
      · simpa [hp] using (hturn c (List.mem_of_find?_eq_some hc) hp).keeps.2
      · simp [hp]

/-- A step of the machine keeps each queue's generation, or goes to the next. -/
theorem generation_of_next {s s' : Host} {a : Action} (h : queues.next s a = some s')
    (queueId : String) :
    s'.tables.generation queueId = s.tables.generation queueId ∨
      s'.tables.generation queueId = s.tables.generation queueId + 1 := by
  obtain ⟨⟨u, hmoves, hturn⟩, -⟩ := shift_of_next h
  have hu : u.generation queueId = s.tables.generation queueId := by
    rw [Tables.generation, Tables.generation, Tables.custodyOf, Tables.custodyOf, hmoves.custody_eq]
  rcases hturn with _ | hstep
  · exact Or.inl hu
  · rw [← hu]
    exact hstep.generation queueId

end Takoserver.Queue
