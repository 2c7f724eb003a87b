import Takoserver.Transport.Journal

/-!
# The journal dispatches in order

The markers a journal holds are the numbers from `nextDispatch` up to `nextMarker`, the
payloads it holds are under sequences from `nextDispatch` on, and what it dispatched are
the sequences before `nextDispatch`, with that one while its observer runs.  Each of the
elementary changes keeps this, so each call and each ending does, whatever calls the
observer makes meanwhile.
-/

namespace Takoserver.Transport

variable {j j' : Journal} {op : Op} {d : Bool}

/-! ### Sound journals -/

/-- What a journal that has not failed holds, against its history. -/
structure Open (j : Journal) : Prop where
  first : 1 ≤ j.nextDispatch
  next : j.nextDispatch ≤ j.nextMarker
  markers : j.markers = List.range' j.nextDispatch (j.nextMarker - j.nextDispatch)
  keys : (j.payloads.map Prod.fst).Nodup
  ahead : ∀ x ∈ j.payloads, j.nextDispatch ≤ x.1
  marked : ∀ n, Event.marker n ∈ j.log ↔ 1 ≤ n ∧ n < j.nextMarker
  held : ∀ n p, (n, p) ∈ j.payloads → Event.payload n p ∈ j.log
  accepted : ∀ n p, Event.payload n p ∈ j.log →
    (n, p) ∈ j.payloads ∨ (n < j.nextDispatch ∧ (n, p) ∈ j.dispatched)
  count : j.dispatched.map Prod.fst =
    List.range' 1 (if j.dispatching then j.nextDispatch else j.nextDispatch - 1)
  current : j.dispatching = true → j.nextDispatch ∈ j.markers ∧
    ∃ p, (j.nextDispatch, p) ∈ j.payloads ∧ (j.nextDispatch, p) ∈ j.dispatched
  closed : j.sealed = true → j.markers = [] ∧ j.payloads = [] ∧ j.dispatching = false

/-- The order of a journal's history and its bound. -/
structure Sound (j : Journal) : Prop where
  inOrder : ∃ n, j.dispatched.map Prod.fst = List.range' 1 n
  paired : ∀ pre n p post, j.log = pre ++ Event.dispatch n p :: post →
    Event.marker n ∈ pre ∧ Event.payload n p ∈ pre
  unique : ∀ n p p', Event.payload n p ∈ j.log → Event.payload n p' ∈ j.log → p' = p
  bound : j.pendingUnpairedEntries ≤ maxPendingEntries
  cleared : ∀ e, j.failure = some e → j.markers = [] ∧ j.payloads = []
  code : ∀ e, j.failure = some e → e.code ≠ .sealed
  sealedCode : ∀ e, j.sealedError = some e → e.code = .sealed
  opened : j.failure = none → Open j

theorem sound_init : Sound {} := by
  refine ⟨⟨0, rfl⟩, ?_, ?_, by decide, ?_, ?_, ?_, fun _ => ?_⟩
  · intro pre n p post h
    exact absurd h (by simp)
  · intro n p p' h
    cases h
  · intro e h
    cases h
  · intro e h
    cases h
  · intro e h
    cases h
  refine ⟨le_refl _, le_refl _, rfl, List.nodup_nil, by simp, ?_, by simp, by simp, rfl, by simp,
    by simp⟩
  intro n
  constructor
  · intro h
    cases h
  · rintro ⟨_, h₂⟩
    have h₃ : n < 1 := h₂
    omega

/-! ### Events and pairs -/

/-- An event that is not a dispatch leaves the pairs before it as they are. -/
theorem paired_append {log : List Event} {e : Event} (he : ∀ n p, e ≠ .dispatch n p)
    (h : ∀ pre n p post, log = pre ++ Event.dispatch n p :: post →
      Event.marker n ∈ pre ∧ Event.payload n p ∈ pre) :
    ∀ pre n p post, log ++ [e] = pre ++ Event.dispatch n p :: post →
      Event.marker n ∈ pre ∧ Event.payload n p ∈ pre := by
  intro pre n p post heq
  rcases List.eq_nil_or_concat post with rfl | ⟨post', _, rfl⟩
  · have hlast := (List.append_inj' heq rfl).2
    exact absurd (List.cons.inj hlast).1 (he n p)
  · rw [List.concat_eq_append, ← List.cons_append, ← List.append_assoc] at heq
    exact h pre n p post' (List.append_inj' heq rfl).1

variable {n : ℕ} {e : JournalError} {p : Payload} {r : Journal × Outcome}

theorem hasPayload_iff : j.hasPayload n = true ↔ ∃ p, (n, p) ∈ j.payloads := by
  unfold Journal.hasPayload
  simp only [List.any_eq_true, decide_eq_true_eq, Prod.exists]
  constructor
  · rintro ⟨m, p, hmem, rfl⟩
    exact ⟨p, hmem⟩
  · rintro ⟨p, hmem⟩
    exact ⟨n, p, hmem, rfl⟩

/-! ### Elementary changes -/

theorem Sound.failed (h : Sound j) {code : Code} (hc : code ≠ .sealed) : Sound (j.failed code) := by
  refine ⟨h.inOrder, h.paired, h.unique, ?_, fun e _ => ⟨rfl, rfl⟩, ?_, h.sealedCode, ?_⟩
  · exact Nat.zero_le _
  · intro e he
    rw [← Option.some.inj he]
    exact hc
  · intro hnone
    cases hnone

theorem Sound.refused (h : Sound j) (he : e.code = .sealed) (errors : ℕ) :
    Sound { j with sealedError := some e, errors := errors } := by
  refine ⟨h.inOrder, h.paired, h.unique, h.bound, h.cleared, h.code, ?_, fun hnone => ?_⟩
  · intro e' he'
    rw [← Option.some.inj he']
    exact he
  · exact { h.opened hnone with }

theorem Sound.addMarker (h : Sound j) (hf : j.failure = none) (hs : j.sealed = false)
    (hcap : j.hasPayload j.nextMarker = false → j.pendingUnpairedEntries < maxPendingEntries) :
    Sound (j.addMarker j.nextMarker) := by
  have ho := h.opened hf
  have hnew : j.nextMarker ∉ j.markers := by
    rw [ho.markers, List.mem_range'_1]
    have := ho.next
    omega
  have hmarkers : (j.addMarker j.nextMarker).markers = j.markers ++ [j.nextMarker] := by
    unfold Journal.addMarker
    simp [hnew]
  have hdispatched : (j.addMarker j.nextMarker).dispatched = j.dispatched := by
    unfold Journal.dispatched Journal.addMarker
    simp
  -- a marker adds no payload to the log
  have hpayload : ∀ n p, Event.payload n p ∈ (j.addMarker j.nextMarker).log ↔
      Event.payload n p ∈ j.log := by
    intro n p
    simp [Journal.addMarker]
  refine ⟨?_, paired_append (by simp) h.paired, ?_, ?_, ?_, h.code, h.sealedCode, fun _ => ?_⟩
  · rw [hdispatched]
    exact h.inOrder
  · intro n p p' hp hp'
    exact h.unique n p p' ((hpayload n p).mp hp) ((hpayload n p').mp hp')
  · -- the marker is unpaired itself, or pairs a payload that was
    have hle : (j.addMarker j.nextMarker).pendingUnpairedEntries ≤
        j.pendingUnpairedEntries + if j.hasPayload j.nextMarker then 0 else 1 := by
      have hhas : ∀ n, (j.addMarker j.nextMarker).hasPayload n = j.hasPayload n := fun n => rfl
      have hpayloads : (j.addMarker j.nextMarker).payloads = j.payloads := rfl
      unfold Journal.pendingUnpairedEntries
      rw [hmarkers, hpayloads]
      simp only [hhas, List.filter_append, List.length_append]
      have hsub : (j.payloads.filter fun x => decide (x.1 ∉ j.markers ++ [j.nextMarker])).length ≤
          (j.payloads.filter fun x => decide (x.1 ∉ j.markers)).length := by
        refine List.Sublist.length_le (List.monotone_filter_right _ fun x hx => ?_)
        simp only [decide_eq_true_eq, List.mem_append, not_or] at hx ⊢
        exact hx.1
      have hone : ([j.nextMarker].filter fun n => !j.hasPayload n).length =
          if j.hasPayload j.nextMarker then 0 else 1 := by
        cases hp : j.hasPayload j.nextMarker <;> simp [hp]
      rw [hone]
      omega
    cases hp : j.hasPayload j.nextMarker with
    | true =>
      rw [hp, if_pos rfl] at hle
      exact hle.trans h.bound
    | false =>
      rw [hp, if_neg (by simp)] at hle
      have := hcap hp
      omega
  · intro e he
    rw [show (j.addMarker j.nextMarker).failure = j.failure from rfl, hf] at he
    cases he
  · refine ⟨ho.first, ?_, ?_, ho.keys, ho.ahead, ?_, ?_, ?_, ?_, ?_, ?_⟩
    · exact Nat.le_succ_of_le ho.next
    · rw [hmarkers, ho.markers]
      show _ = List.range' j.nextDispatch (j.nextMarker + 1 - j.nextDispatch)
      have hsucc : j.nextMarker + 1 - j.nextDispatch = j.nextMarker - j.nextDispatch + 1 :=
        Nat.succ_sub ho.next
      rw [hsucc, List.range'_1_concat]
      congr 2
      have := ho.next
      omega
    · intro n
      have hmem : Event.marker n ∈ (j.addMarker j.nextMarker).log ↔
          Event.marker n ∈ j.log ∨ n = j.nextMarker := by
        simp [Journal.addMarker]
      rw [hmem, ho.marked]
      show _ ↔ 1 ≤ n ∧ n < j.nextMarker + 1
      have := ho.first
      have := ho.next
      omega
    · intro n p hmem
      exact (hpayload n p).mpr (ho.held n p hmem)
    · intro n p hmem
      rw [hdispatched]
      exact ho.accepted n p ((hpayload n p).mp hmem)
    · rw [hdispatched]
      exact ho.count
    · intro hd
      obtain ⟨hm, hp⟩ := ho.current hd
      rw [hdispatched, hmarkers]
      exact ⟨List.mem_append_left _ hm, hp⟩
    · intro hsealed
      have hsealed' : j.sealed = true := hsealed
      rw [hs] at hsealed'
      cases hsealed'

theorem Sound.addPayload (h : Sound j) (hf : j.failure = none) (hs : j.sealed = false)
    (hn : j.nextDispatch ≤ n) (hfree : j.hasPayload n = false)
    (hcap : n ∉ j.markers → j.pendingUnpairedEntries < maxPendingEntries) :
    Sound (j.addPayload n p) := by
  have ho := h.opened hf
  have hnone : ∀ q, (n, q) ∉ j.payloads := by
    intro q hq
    have := hasPayload_iff.mpr ⟨q, hq⟩
    rw [hfree] at this
    cases this
  -- a payload heard is stored or dispatched, and this one is neither
  have hunheard : ∀ q, Event.payload n q ∉ j.log := by
    intro q hq
    rcases ho.accepted n q hq with hmem | ⟨_, -⟩
    · exact hnone q hmem
    · omega
  have hdispatched : (j.addPayload n p).dispatched = j.dispatched := by
    unfold Journal.dispatched Journal.addPayload
    simp
  have hlog : ∀ m q, Event.payload m q ∈ (j.addPayload n p).log ↔
      Event.payload m q ∈ j.log ∨ m = n ∧ q = p := by
    intro m q
    simp [Journal.addPayload]
  refine ⟨?_, paired_append (by simp) h.paired, ?_, ?_, ?_, h.code, h.sealedCode, fun _ => ?_⟩
  · rw [hdispatched]
    exact h.inOrder
  · intro m q q' hq hq'
    rcases (hlog m q).mp hq with hold | ⟨rfl, rfl⟩
    · rcases (hlog m q').mp hq' with hold' | ⟨rfl, -⟩
      · exact h.unique m q q' hold hold'
      · exact absurd hold (hunheard q)
    · rcases (hlog m q').mp hq' with hq'' | ⟨-, rfl⟩
      · exact absurd hq'' (hunheard q')
      · rfl
  · -- the payload is unpaired itself, or pairs a marker that was
    have hle : (j.addPayload n p).pendingUnpairedEntries ≤
        j.pendingUnpairedEntries + if n ∈ j.markers then 0 else 1 := by
      have hsub : (j.markers.filter fun s => !(j.addPayload n p).hasPayload s).length ≤
          (j.markers.filter fun s => !j.hasPayload s).length := by
        refine List.Sublist.length_le (List.monotone_filter_right _ fun s hs' => ?_)
        rw [Bool.not_eq_true'] at hs' ⊢
        rw [← Bool.not_eq_true, hasPayload_iff] at hs' ⊢
        rintro ⟨q, hq⟩
        exact hs' ⟨q, List.mem_append_left _ hq⟩
      have hone : ([(n, p)].filter fun x => decide (x.1 ∉ j.markers)).length =
          if n ∈ j.markers then 0 else 1 := by
        by_cases hm : n ∈ j.markers <;> simp [hm]
      have hsum : (j.addPayload n p).pendingUnpairedEntries =
          (j.markers.filter fun s => !(j.addPayload n p).hasPayload s).length +
            ((j.payloads.filter fun x => decide (x.1 ∉ j.markers)).length +
              ([(n, p)].filter fun x => decide (x.1 ∉ j.markers)).length) := by
        rw [← List.length_append, ← List.filter_append]
        rfl
      rw [hsum, hone]
      unfold Journal.pendingUnpairedEntries
      omega
    by_cases hm : n ∈ j.markers
    · rw [if_pos hm] at hle
      exact hle.trans h.bound
    · rw [if_neg hm] at hle
      have := hcap hm
      omega
  · intro e he
    rw [show (j.addPayload n p).failure = j.failure from rfl, hf] at he
    cases he
  · refine ⟨ho.first, ho.next, ho.markers, ?_, ?_, ?_, ?_, ?_, ?_, ?_, ?_⟩
    · show ((j.payloads ++ [(n, p)]).map Prod.fst).Nodup
      rw [List.map_append, List.nodup_append]
      refine ⟨ho.keys, List.pairwise_singleton _ n, ?_⟩
      rintro m hm _ hm' rfl
      obtain ⟨x, hx, rfl⟩ := List.mem_map.mp hm
      obtain rfl : x.1 = n := List.mem_singleton.mp hm'
      exact hnone x.2 hx
    · intro x hx
      rcases List.mem_append.mp hx with hx | hx
      · exact ho.ahead x hx
      · rw [List.mem_singleton.mp hx]
        exact hn
    · intro m
      refine Iff.trans ?_ (ho.marked m)
      simp [Journal.addPayload]
    · intro m q hmem
      rcases List.mem_append.mp hmem with hmem | hmem
      · exact (hlog m q).mpr (Or.inl (ho.held m q hmem))
      · exact (hlog m q).mpr (Or.inr (Prod.mk.inj (List.mem_singleton.mp hmem)))
    · intro m q hmem
      rw [hdispatched]
      rcases (hlog m q).mp hmem with hmem | ⟨rfl, rfl⟩
      · rcases ho.accepted m q hmem with hmem | hmem
        · exact Or.inl (List.mem_append_left _ hmem)
        · exact Or.inr hmem
      · exact Or.inl (List.mem_append_right _ (List.mem_singleton.mpr rfl))
    · rw [hdispatched]
      exact ho.count
    · intro hd
      obtain ⟨hm, q, hq, hdis⟩ := ho.current hd
      rw [hdispatched]
      exact ⟨hm, q, List.mem_append_left _ hq, hdis⟩
    · intro hsealed
      have hsealed' : j.sealed = true := hsealed
      rw [hs] at hsealed'
      cases hsealed'

theorem ready_some (h : j.ready = some p) :
    j.nextDispatch ∈ j.markers ∧ (j.nextDispatch, p) ∈ j.payloads := by
  unfold Journal.ready at h
  split at h
  · next hm =>
    obtain ⟨x, hx, rfl⟩ := Option.map_eq_some_iff.mp h
    have hk := List.find?_some hx
    rw [decide_eq_true_eq] at hk
    exact ⟨hm, hk ▸ List.mem_of_find?_eq_some hx⟩
  · cases h

theorem Sound.begin (h : Sound j) (hf : j.failure = none) (hs : j.sealed = false)
    (hd : j.dispatching = false) (hready : j.ready = some p) : Sound (j.begin p) := by
  have ho := h.opened hf
  obtain ⟨hm, hp⟩ := ready_some hready
  have hdispatched : (j.begin p).dispatched = j.dispatched ++ [(j.nextDispatch, p)] := by
    unfold Journal.dispatched Journal.begin
    simp
  have hcount : (j.begin p).dispatched.map Prod.fst = List.range' 1 j.nextDispatch := by
    rw [hdispatched, List.map_append, ho.count, hd, if_neg (by simp)]
    have hfirst := ho.first
    obtain ⟨k, hk⟩ : ∃ k, j.nextDispatch = k + 1 := ⟨j.nextDispatch - 1, by omega⟩
    rw [hk, Nat.add_sub_cancel, List.range'_1_concat, Nat.add_comm 1 k]
    rfl
  have hmarked : Event.marker j.nextDispatch ∈ j.log := by
    rw [ho.marked]
    rw [ho.markers, List.mem_range'_1] at hm
    have := ho.first
    omega
  refine ⟨⟨_, hcount⟩, ?_, ?_, h.bound, ?_, h.code, h.sealedCode, fun _ => ?_⟩
  · -- the observer is invoked once both halves are in the history
    intro pre n q post heq
    rcases List.eq_nil_or_concat post with rfl | ⟨post', _, rfl⟩
    · obtain ⟨rfl, hlast⟩ := List.append_inj' heq rfl
      obtain ⟨rfl, rfl⟩ := Event.dispatch.inj (List.cons.inj hlast).1
      exact ⟨hmarked, ho.held _ _ hp⟩
    · rw [List.concat_eq_append, ← List.cons_append, ← List.append_assoc] at heq
      exact h.paired pre n q post' (List.append_inj' heq rfl).1
  · intro n q q' hq hq'
    refine h.unique n q q' ?_ ?_
    · simpa [Journal.begin] using hq
    · simpa [Journal.begin] using hq'
  · intro e he
    rw [show (j.begin p).failure = j.failure from rfl, hf] at he
    cases he
  · refine ⟨ho.first, ho.next, ho.markers, ho.keys, ho.ahead, ?_, ?_, ?_, hcount, fun _ => ?_, ?_⟩
    · intro n
      refine Iff.trans ?_ (ho.marked n)
      simp [Journal.begin]
    · intro n q hmem
      exact List.mem_append_left _ (ho.held n q hmem)
    · intro n q hmem
      have hmem' : Event.payload n q ∈ j.log := by simpa [Journal.begin] using hmem
      rw [hdispatched]
      rcases ho.accepted n q hmem' with hin | ⟨hlt, hin⟩
      · exact Or.inl hin
      · exact Or.inr ⟨hlt, List.mem_append_left _ hin⟩
    · rw [hdispatched]
      exact ⟨hm, p, hp, List.mem_append_right _ (List.mem_singleton.mpr rfl)⟩
    · intro hsealed
      have hsealed' : j.sealed = true := hsealed
      rw [hs] at hsealed'
      cases hsealed'

theorem pendingUnpaired_retire (n : ℕ) :
    (j.retire n).pendingUnpairedEntries ≤ j.pendingUnpairedEntries := by
  have hm : ((j.retire n).markers.filter fun s => !(j.retire n).hasPayload s).length ≤
      (j.markers.filter fun s => !j.hasPayload s).length := by
    show ((j.markers.filter fun s => decide (s ≠ n)).filter _).length ≤ _
    rw [List.filter_filter]
    refine List.Sublist.length_le (List.monotone_filter_right _ fun s hs => ?_)
    rw [Bool.and_eq_true, decide_eq_true_eq] at hs
    have hs₁ := hs.1
    rw [Bool.not_eq_true', ← Bool.not_eq_true, hasPayload_iff] at hs₁ ⊢
    rintro ⟨q, hq⟩
    exact hs₁ ⟨q, List.mem_filter.mpr ⟨hq, decide_eq_true hs.2⟩⟩
  have hp : ((j.retire n).payloads.filter fun x => decide (x.1 ∉ (j.retire n).markers)).length ≤
      (j.payloads.filter fun x => decide (x.1 ∉ j.markers)).length := by
    show ((j.payloads.filter fun x => decide (x.1 ≠ n)).filter _).length ≤ _
    rw [List.filter_filter]
    refine List.Sublist.length_le (List.monotone_filter_right _ fun x hx => ?_)
    simp only [Bool.and_eq_true, decide_eq_true_eq] at hx ⊢
    exact fun hmem => hx.1 (List.mem_filter.mpr ⟨hmem, decide_eq_true hx.2⟩)
  exact Nat.add_le_add hm hp

theorem Sound.retire (h : Sound j) (hf : j.failure = none) (hd : j.dispatching = true) :
    Sound (j.retire j.nextDispatch) := by
  have ho := h.opened hf
  obtain ⟨hm, p, hp, hdis⟩ := ho.current hd
  have hcount : (j.retire j.nextDispatch).dispatched.map Prod.fst =
      List.range' 1 j.nextDispatch := by
    show j.dispatched.map Prod.fst = _
    rw [ho.count, hd, if_pos rfl]
  -- the marker of the dispatched sequence has been read
  have hnext : j.nextDispatch + 1 ≤ j.nextMarker := by
    rw [ho.markers, List.mem_range'_1] at hm
    omega
  refine ⟨⟨_, hcount⟩, h.paired, h.unique, (pendingUnpaired_retire _).trans h.bound, ?_, h.code,
    h.sealedCode, fun _ => ?_⟩
  · intro e he
    rw [show (j.retire j.nextDispatch).failure = j.failure from rfl, hf] at he
    cases he
  refine ⟨Nat.le_succ_of_le ho.first, hnext, ?_, ?_, ?_, ho.marked, ?_, ?_, hcount, ?_, ?_⟩
  · show (j.markers.filter fun s => decide (s ≠ j.nextDispatch)) =
      List.range' (j.nextDispatch + 1) (j.nextMarker - (j.nextDispatch + 1))
    obtain ⟨k, hk⟩ : ∃ k, j.nextMarker - j.nextDispatch = k + 1 :=
      ⟨j.nextMarker - j.nextDispatch - 1, by omega⟩
    have hk' : j.nextMarker - (j.nextDispatch + 1) = k := by omega
    rw [ho.markers, hk, hk', List.range'_succ, List.filter_cons, if_neg (by simp)]
    refine List.filter_eq_self.mpr fun s hs => ?_
    rw [List.mem_range'_1] at hs
    rw [decide_eq_true_eq]
    omega
  · exact ho.keys.sublist (List.filter_sublist.map _)
  · intro x hx
    obtain ⟨hmem, hne⟩ := List.mem_filter.mp hx
    rw [decide_eq_true_eq] at hne
    have := ho.ahead x hmem
    show j.nextDispatch + 1 ≤ x.1
    omega
  · intro n q hmem
    exact ho.held n q (List.mem_filter.mp hmem).1
  · -- the payload of the retired pair is the one dispatched
    intro n q hmem
    rcases ho.accepted n q hmem with hin | ⟨hlt, hin⟩
    · by_cases hn : n = j.nextDispatch
      · subst hn
        have heq : (j.nextDispatch, q) = (j.nextDispatch, p) :=
          List.inj_on_of_nodup_map ho.keys hin hp rfl
        rw [heq]
        exact Or.inr ⟨Nat.lt_succ_self _, hdis⟩
      · exact Or.inl (List.mem_filter.mpr ⟨hin, decide_eq_true hn⟩)
    · exact Or.inr ⟨Nat.lt_succ_of_lt hlt, hin⟩
  · intro hd'
    cases hd'
  · intro hsealed
    have hsealed' : j.sealed = true := hsealed
    have := (ho.closed hsealed').2.2
    rw [hd] at this
    cases this

theorem empty_of_unpaired (ho : Open j) (hready : j.ready = none)
    (hzero : j.pendingUnpairedEntries = 0) : j.markers = [] ∧ j.payloads = [] := by
  unfold Journal.pendingUnpairedEntries at hzero
  have hmarkers : j.markers = [] := by
    by_contra hne
    -- the first marker is that of the next sequence, which has no payload
    have hm : j.nextDispatch ∈ j.markers := by
      obtain ⟨s, hs⟩ := List.exists_mem_of_ne_nil _ hne
      rw [ho.markers, List.mem_range'_1] at hs ⊢
      omega
    have hnone : j.hasPayload j.nextDispatch = false := by
      unfold Journal.ready at hready
      rw [if_pos hm, Option.map_eq_none_iff, List.find?_eq_none] at hready
      rw [← Bool.not_eq_true, hasPayload_iff]
      rintro ⟨p, hp⟩
      exact hready _ hp (decide_eq_true rfl)
    have hmem : j.nextDispatch ∈ j.markers.filter fun s => !j.hasPayload s :=
      List.mem_filter.mpr ⟨hm, by rw [hnone]; rfl⟩
    have := List.length_pos_of_mem hmem
    omega
  refine ⟨hmarkers, ?_⟩
  rw [hmarkers] at hzero
  simpa using hzero

theorem Sound.seal (h : Sound j) (hf : j.failure = none) (hd : j.dispatching = false)
    (hempty : j.markers = [] ∧ j.payloads = []) : Sound { j with sealed := true } :=
  ⟨h.inOrder, h.paired, h.unique, h.bound, h.cleared, h.code, h.sealedCode, fun _ =>
    { h.opened hf with closed := fun _ => ⟨hempty.1, hempty.2, hd⟩ }⟩

theorem Sound.release (h : Sound j) (hf : j.failure = some e) :
    Sound { j with dispatching := false } :=
  ⟨h.inOrder, h.paired, h.unique, h.bound, h.cleared, h.code, h.sealedCode, fun hnone => by
    have hnone' : j.failure = none := hnone
    rw [hf] at hnone'
    cases hnone'⟩

/-! ### One call -/

/-- What a call may do, up to its end or its observer, from a journal whose latch is `d` but for
the call. -/
structure Step (op : Op) (d : Bool) (j : Journal) (r : Journal × Outcome) : Prop where
  sound : Sound r.1
  failure : ∀ e, j.failure = some e → r.1.failure = some e
  sealedError : ∀ e, j.sealedError = some e → r.1.sealedError = some e
  threw : ∀ e, r.2 = .threw e → r.1.failure = some e ∨ r.1.sealedError = some e
  ends : (∀ n, r.2 ≠ .observing n) → r.1.dispatching = d
  observing : ∀ n, r.2 = .observing n →
    d = false ∧ r.1.dispatching = true ∧ r.1.failure = none ∧ n = r.1.nextDispatch
  sealing : op = .close → r.2 = .returned → r.1.failure = none ∧ r.1.sealed = true

/-- A step of a journal that differs only by what it took in. -/
theorem Step.of_eq (h : Step op d j' r) (hf : j'.failure = j.failure)
    (hs : j'.sealedError = j.sealedError) : Step op d j r :=
  ⟨h.sound, fun e he => h.failure e (hf.trans he), fun e he => h.sealedError e (hs.trans he),
    h.threw, h.ends, h.observing, h.sealing⟩

theorem step_failed (h : Sound j) (hf : j.failure = some e) :
    Step op j.dispatching j (j, .threw e) :=
  ⟨h, fun e' he => he, fun e' he => he, fun e' he => Or.inl (by
    rw [hf, Outcome.threw.inj he]), fun _ => rfl, fun n hn => (by cases hn),
    fun _ hr => (by cases hr)⟩

theorem step_fail (h : Sound j) (hf : j.failure = none) {code : Code} (hc : code ≠ .sealed) :
    Step op j.dispatching j (j.fail code) := by
  have heq : j.fail code = (j.failed code, .threw ⟨code, j.errors⟩) := by
    unfold Journal.fail
    rw [hf]
  rw [heq]
  refine ⟨h.failed hc, fun e he => ?_, fun e he => he, fun e he => Or.inl ?_, fun _ => rfl,
    fun n hn => (by cases hn), fun _ hr => (by cases hr)⟩
  · rw [hf] at he
    cases he
  · rw [← Outcome.threw.inj he]
    rfl

theorem step_rejectSealed (h : Sound j) : Step op j.dispatching j j.rejectSealed := by
  unfold Journal.rejectSealed
  cases hs : j.sealedError with
  | some e =>
    refine ⟨h, fun e' he => he, fun e' he => he, fun e' he => Or.inr ?_, fun _ => rfl,
      fun n hn => (by cases hn), fun _ hr => (by cases hr)⟩
    rw [← Outcome.threw.inj he]
    exact hs
  | none =>
    refine ⟨h.refused rfl _, fun e' he => he, fun e' he => ?_, fun e' he => Or.inr ?_,
      fun _ => rfl, fun n hn => (by cases hn), fun _ hr => (by cases hr)⟩
    · rw [hs] at he
      cases he
    · rw [← Outcome.threw.inj he]

/-- A call once its `drain` has returned, where a journal that is to be sealed is at rest. -/
theorem step_drained (h : Sound j) (hf : j.failure = none)
    (hclose : op = .close → j.dispatching = false ∧ j.ready = none) :
    Step op j.dispatching j (j.drained op) := by
  cases op with
  | recordMarker n | recordPayload n v =>
    exact ⟨h, fun e he => he, fun e he => he, fun e he => (by cases he), fun _ => rfl,
      fun n hn => (by cases hn), fun hop => (by cases hop)⟩
  | close =>
    obtain ⟨hd, hready⟩ := hclose rfl
    have heq : j.drained .close = if j.pendingUnpairedEntries ≠ 0 then j.fail .unpairedFrame
        else ({ j with sealed := true }, .returned) := by
      simp only [Journal.drained]
      split
      · next he =>
        rw [hf] at he
        cases he
      · rfl
    rw [heq]
    split
    · exact step_fail h hf (by simp)
    · next hzero =>
      have hempty := empty_of_unpaired (h.opened hf) hready (not_not.mp hzero)
      exact ⟨h.seal hf hd hempty, fun e he => he, fun e he => he, fun e he => (by cases he),
        fun _ => rfl, fun n hn => (by cases hn), fun _ _ => ⟨hf, rfl⟩⟩

theorem step_drain (h : Sound j) (hf : j.failure = none)
    (hclose : op = .close → j.dispatching = false ∧ j.sealed = false) :
    Step op j.dispatching j (j.drain op) := by
  unfold Journal.drain
  split
  · next hbusy =>
    refine step_drained h hf fun hop => ?_
    obtain ⟨hd, hs⟩ := hclose hop
    rw [hd, hf, hs] at hbusy
    cases hbusy
  · next hidle =>
    simp only [Bool.or_eq_true, not_or, Bool.not_eq_true] at hidle
    split
    · next hready =>
      have hb := h.begin hf hidle.2 hidle.1.1 hready
      exact ⟨hb, fun e he => he, fun e he => he, fun e he => (by cases he),
        fun hne => absurd rfl (hne _), fun n hn => ⟨hidle.1.1, rfl, hf, (Outcome.observing.inj hn).symm⟩,
        fun _ hr => (by cases hr)⟩
    · next hready => exact step_drained h hf fun _ => ⟨hidle.1.1, hready⟩

theorem validSequence_some {n : Number} {sequence : ℕ} (h : j.validSequence n = some sequence) :
    j.nextDispatch ≤ sequence := by
  cases n with
  | integer n =>
    unfold Journal.validSequence at h
    simp only at h
    split at h
    · next =>
      cases h
      omega
    · cases h
  | other => cases h

theorem call_of_failed (hf : j.failure = some e) (op : Op) :
    j.call op = (j, .threw e) := by
  cases op <;> simp only [Journal.call, Journal.accepting, hf]

/-- **One call**, up to its end or its observer. -/
theorem step_call (h : Sound j) (op : Op) : Step op j.dispatching j (j.call op) := by
  cases hf : j.failure with
  | some e =>
    rw [call_of_failed hf]
    exact step_failed h hf
  | none =>
    cases op with
    | recordMarker n =>
      simp only [Journal.call, Journal.accepting, hf]
      split
      · exact step_rejectSealed h
      next hs =>
      rw [Bool.not_eq_true] at hs
      split
      · exact step_fail h hf (by simp)
      next =>
      split
      · exact step_fail h hf (by simp)
      next heq =>
      obtain rfl := not_not.mp heq
      split
      · exact step_fail h hf (by simp)
      · next hroom =>
        have hadd := h.addMarker hf hs fun hp => by
          rw [hp, Bool.not_false, Bool.true_and, decide_eq_true_eq] at hroom
          exact Nat.lt_of_not_le hroom
        exact (step_drain hadd hf (by simp)).of_eq rfl rfl
    | recordPayload =>
      simp only [Journal.call, Journal.accepting, hf]
      split
      · exact step_rejectSealed h
      next hs =>
      rw [Bool.not_eq_true] at hs
      split
      · exact step_fail h hf (by simp)
      next hn =>
      split
      · exact step_fail h hf (by simp)
      next hfree =>
      rw [Bool.not_eq_true] at hfree
      split
      · exact step_fail h hf (by simp)
      · next p _ =>
        split
        · exact step_fail h hf (by simp)
        · next hroom =>
          have hadd := h.addPayload (p := p) hf hs (validSequence_some hn) hfree fun hm => by
            exact Nat.lt_of_not_le fun hle => hroom ⟨hm, hle⟩
          exact (step_drain hadd hf (by simp)).of_eq rfl rfl
    | close =>
      simp only [Journal.call, hf]
      split
      · exact step_rejectSealed h
      next hd =>
      rw [Bool.not_eq_true] at hd
      split
      · next hs =>
        exact ⟨h, fun e he => he, fun e he => he, fun e he => (by cases he), fun _ => rfl,
          fun n hn => (by cases hn), fun _ _ => ⟨hf, hs⟩⟩
      · next hs =>
        rw [Bool.not_eq_true] at hs
        exact step_drain h hf fun _ => ⟨hd, hs⟩

/-- **An ending** of the observer, and the call up to its end or its next observer. -/
theorem step_observed (h : Sound j) (hd : j.dispatching = true)
    (hn : j.failure = none → n = j.nextDispatch) (op : Op) (ending : Ending) :
    Step op false j (j.observed op n ending) := by
  cases hf : j.failure with
  | some e =>
    have hreleased : Step op _ _ _ := step_failed (h.release hf) (e := e) hf
    have heq : j.observed op n ending = ({ j with dispatching := false }, .threw e) := by
      cases ending <;> simp only [Journal.observed, Journal.fail, hf]
    rw [heq]
    exact hreleased.of_eq rfl rfl
  | none =>
    have ho := h.opened hf
    obtain rfl := hn hf
    cases ending with
    | undefined =>
      simp only [Journal.observed, hf]
      have hs : j.sealed = false := by
        cases hs : j.sealed with
        | false => rfl
        | true =>
          have := (ho.closed hs).2.2
          rw [hd] at this
          cases this
      exact (step_drain (h.retire hf hd) hf fun _ => ⟨rfl, hs⟩).of_eq rfl rfl
    | value | threw =>
      -- nothing the failure keeps depends on the latch
      have hfailed : Sound (j.failed .dispatchFailed) := h.failed (by simp)
      have heq : j.observed op j.nextDispatch .threw =
          ({ j.failed .dispatchFailed with dispatching := false },
            .threw ⟨.dispatchFailed, j.errors⟩) := by
        simp only [Journal.observed, Journal.fail, hf]
        rfl
      have hsound : Sound { j.failed .dispatchFailed with dispatching := false } :=
        hfailed.release rfl
      show Step op false j (j.observed op j.nextDispatch .threw)
      rw [heq]
      refine ⟨hsound, fun e he => ?_, fun e he => he, fun e he => Or.inl ?_, fun _ => rfl,
        fun m hm => (by cases hm), fun _ hr => (by cases hr)⟩
      · rw [hf] at he
        cases he
      · rw [← Outcome.threw.inj he]
        rfl

/-! ### Runs -/

/-- At most one observer runs, that of the next sequence; an error that was thrown is the
failure, or the refusal of a sealed journal. -/
structure System.Sound (s : System) : Prop where
  journal : Transport.Sound s.journal
  running : s.running = [] ∧ s.journal.dispatching = false ∨
    ∃ a, s.running = [a] ∧ s.journal.dispatching = true ∧
      (s.journal.failure = none → a.sequence = s.journal.nextDispatch)
  threw : ∀ x ∈ s.answers, ∀ e, x.2 = .threw e →
    s.journal.failure = some e ∨ s.journal.sealedError = some e

variable {s s' : System}

/-- A step of the stack's innermost call. -/
theorem System.Sound.after (h : s.Sound) {running : List Activation} (hr : Step op d s.journal r)
    (hrunning : running = [] ∧ d = false ∨
      ∃ a, running = [a] ∧ d = true ∧
        (r.1.failure = none → a.sequence = r.1.nextDispatch)) :
    (s.after op running r).Sound := by
  have hthrew : ∀ x ∈ s.answers, ∀ e, x.2 = .threw e →
      r.1.failure = some e ∨ r.1.sealedError = some e := by
    intro x hx e he
    rcases h.threw x hx e he with hf | hs
    · exact Or.inl (hr.failure e hf)
    · exact Or.inr (hr.sealedError e hs)
  unfold System.after
  split
  · next ho =>
    refine ⟨hr.sound, ?_, fun x hx e he => ?_⟩
    · rw [← hr.ends (by rw [ho]; simp)] at hrunning
      exact hrunning
    · rcases List.mem_append.mp hx with hx | hx
      · exact hthrew x hx e he
      · rw [List.mem_singleton.mp hx] at he
        cases he
  · next e ho =>
    refine ⟨hr.sound, ?_, fun x hx e' he => ?_⟩
    · rw [← hr.ends (by rw [ho]; simp)] at hrunning
      exact hrunning
    · rcases List.mem_append.mp hx with hx | hx
      · exact hthrew x hx e' he
      · rw [List.mem_singleton.mp hx] at he
        rw [← Result.threw.inj he]
        exact hr.threw e ho
  · next n ho =>
    obtain ⟨hd, hdispatching, -, hn⟩ := hr.observing n ho
    refine ⟨hr.sound, Or.inr ?_, hthrew⟩
    rcases hrunning with ⟨rfl, -⟩ | ⟨a, -, hd', -⟩
    · exact ⟨⟨op, n⟩, rfl, hdispatching, fun _ => hn⟩
    · rw [hd] at hd'
      cases hd'

theorem nextDispatch_call (hd : j.dispatching = true) (op : Op) :
    (j.call op).1.nextDispatch = j.nextDispatch := by
  have hfail : ∀ code, (j.fail code).1.nextDispatch = j.nextDispatch := by
    intro code
    unfold Journal.fail
    split <;> rfl
  have hreject : j.rejectSealed.1.nextDispatch = j.nextDispatch := by
    unfold Journal.rejectSealed
    split <;> rfl
  have hdrain : ∀ (k : Journal) op, k.dispatching = true → op ≠ .close →
      (k.drain op).1.nextDispatch = k.nextDispatch := by
    intro k op hk hop
    unfold Journal.drain
    rw [hk, Bool.true_or, Bool.true_or, if_pos rfl]
    cases op with
    | close => exact absurd rfl hop
    | recordMarker n | recordPayload n v => rfl
  cases op with
  | recordMarker n =>
    simp only [Journal.call, Journal.accepting]
    repeat' split
    all_goals first
      | exact hfail _
      | exact hreject
      | exact hdrain (j.addMarker _) _ hd (by simp)
      | rfl
  | recordPayload =>
    simp only [Journal.call, Journal.accepting]
    repeat' split
    all_goals first
      | exact hfail _
      | exact hreject
      | exact hdrain (j.addPayload _ _) _ hd (by simp)
      | rfl
  | close =>
    simp only [Journal.call, hd, if_true]
    split
    · rfl
    · exact hreject

theorem System.Sound.next {a : Action} (h : s.Sound) (hn : journals.next s a = some s') :
    s'.Sound := by
  cases a with
  | call op =>
    cases hn
    refine h.after (step_call h.journal op) ?_
    rcases h.running with hr | ⟨a, hr, hd, ha⟩
    · exact Or.inl hr
    · refine Or.inr ⟨a, hr, hd, fun hf => ?_⟩
      rw [nextDispatch_call hd op]
      refine ha ?_
      cases hf' : s.journal.failure with
      | none => rfl
      | some e =>
        rw [call_of_failed hf', hf'] at hf
        cases hf
  | observed ending =>
    simp only [journals] at hn
    split at hn
    · cases hn
    · next hstack =>
      cases hn
      rcases h.running with ⟨hnil, -⟩ | ⟨a', hr, hd, ha⟩
      · rw [hnil] at hstack
        cases hstack
      · rw [hr] at hstack
        obtain ⟨rfl, rfl⟩ := List.cons.inj hstack
        exact h.after (step_observed h.journal hd ha a'.op ending) (Or.inl ⟨rfl, rfl⟩)

theorem sound_of_reachable (h : journals.Reachable s) : s.Sound :=
  Machine.Reachable.invariant ⟨sound_init, Or.inl ⟨rfl, rfl⟩, fun x hx => (by cases hx)⟩
    (fun _ _ _ _ hs hn => hs.next hn) h

theorem next_of_failed {a : Action} (hf : s.journal.failure = some e)
    (hn : journals.next s a = some s') :
    s'.journal.failure = some e ∧ s'.journal.log = s.journal.log ∧
      ∃ op, s'.answers = s.answers ++ [(op, .threw e)] := by
  cases a with
  | call op =>
    cases hn
    rw [call_of_failed hf]
    exact ⟨hf, rfl, op, rfl⟩
  | observed ending =>
    simp only [journals] at hn
    split at hn
    · cases hn
    · next a _ _ =>
      cases hn
      have heq : s.journal.observed a.op a.sequence ending =
          ({ s.journal with dispatching := false }, .threw e) := by
        cases ending <;> simp only [Journal.observed, Journal.fail, hf]
      rw [heq]
      exact ⟨hf, rfl, a.op, rfl⟩

theorem Open.all_dispatched (ho : Open j) (hs : j.sealed = true) :
    (∀ n, Event.marker n ∈ j.log → ∃ p, (n, p) ∈ j.dispatched) ∧
      ∀ n p, Event.payload n p ∈ j.log → (n, p) ∈ j.dispatched := by
  obtain ⟨hmarkers, hpayloads, hd⟩ := ho.closed hs
  refine ⟨fun n hn => ?_, fun n p hp => ?_⟩
  · have hnext : j.nextMarker = j.nextDispatch := by
      have hlen := congrArg List.length ho.markers
      rw [hmarkers, List.length_range', List.length_nil] at hlen
      have := ho.next
      omega
    rw [ho.marked, hnext] at hn
    have hmem : n ∈ j.dispatched.map Prod.fst := by
      rw [ho.count, hd, if_neg (by simp), List.mem_range'_1]
      omega
    obtain ⟨x, hx, rfl⟩ := List.mem_map.mp hmem
    exact ⟨x.2, hx⟩
  · rcases ho.accepted n p hp with hmem | ⟨-, hmem⟩
    · rw [hpayloads] at hmem
      cases hmem
    · exact hmem

/-- **The transport journal pairs and orders exactly.**  In every run of calls and endings the
observer is invoked with 1, 2, 3, … in order, each once, after its marker and its payload
were accepted, and with the one payload accepted under it; never more than
`maxPendingEntries` entries are unpaired; every error thrown is the failure or the refusal of
a sealed journal; from the failure on every answer is that failure, no observer is invoked and
no frame is kept; and where `seal` returns all that was accepted has been dispatched. -/
theorem transport_journal (h : journals.Reachable s) :
    (∃ n, s.journal.dispatched.map Prod.fst = List.range' 1 n) ∧
      (∀ pre n p post, s.journal.log = pre ++ Event.dispatch n p :: post →
        Event.marker n ∈ pre ∧ Event.payload n p ∈ pre ∧
          ∀ p', Event.payload n p' ∈ s.journal.log → p' = p) ∧
      s.journal.pendingUnpairedEntries ≤ maxPendingEntries ∧
      (∀ x ∈ s.answers, ∀ e, x.2 = .threw e →
        s.journal.failure = some e ∧ e.code ≠ .sealed ∨
          s.journal.sealedError = some e ∧ e.code = .sealed) ∧
      (∀ e, s.journal.failure = some e → ∀ s', journals.Path s s' →
        s'.journal.failure = some e ∧ s'.journal.markers = [] ∧ s'.journal.payloads = [] ∧
          s'.journal.dispatched = s.journal.dispatched ∧
          ∃ later, s'.answers = s.answers ++ later ∧ ∀ x ∈ later, x.2 = .threw e) ∧
      ∀ a s' , journals.next s a = some s' → s'.answers = s.answers ++ [(.close, .returned)] →
        (∀ n, Event.marker n ∈ s'.journal.log → ∃ p, (n, p) ∈ s'.journal.dispatched) ∧
          ∀ n p, Event.payload n p ∈ s'.journal.log → (n, p) ∈ s'.journal.dispatched := by
  have hs := sound_of_reachable h
  have hj := hs.journal
  refine ⟨hj.inOrder, fun pre n p post heq => ?_, hj.bound, fun x hx e he => ?_,
    fun e hf s' hpath => ?_, fun a s' hn hanswer => ?_⟩
  · obtain ⟨hm, hp⟩ := hj.paired pre n p post heq
    refine ⟨hm, hp, fun p' hp' => hj.unique n p p' ?_ hp'⟩
    rw [heq]
    exact List.mem_append_left _ hp
  · rcases hs.threw x hx e he with hf | hf
    · exact Or.inl ⟨hf, hj.code e hf⟩
    · exact Or.inr ⟨hf, hj.sealedCode e hf⟩
  · -- a failure ends the log: every later answer throws it again
    have key : s'.journal.failure = some e ∧ s'.journal.log = s.journal.log ∧
        ∃ later, s'.answers = s.answers ++ later ∧ ∀ x ∈ later, x.2 = Result.threw e := by
      refine Machine.Path.invariant (P := fun u : System => u.journal.failure = some e ∧
        u.journal.log = s.journal.log ∧
          ∃ later, u.answers = s.answers ++ later ∧ ∀ x ∈ later, x.2 = Result.threw e)
        (fun u a u' _ hu hn => ?_) h hpath ⟨hf, rfl, [], by simp, by simp⟩
      obtain ⟨huf, hlog, later, hanswers, hlater⟩ := hu
      obtain ⟨huf', hlog', op, hnew⟩ := next_of_failed huf hn
      refine ⟨huf', hlog'.trans hlog, later ++ [(op, .threw e)], ?_, fun x hx => ?_⟩
      · rw [hnew, hanswers, List.append_assoc]
      · rcases List.mem_append.mp hx with hx | hx
        · exact hlater x hx
        · rw [List.mem_singleton.mp hx]
    have hj' := (sound_of_reachable (h.path hpath)).journal
    refine ⟨key.1, (hj'.cleared e key.1).1, (hj'.cleared e key.1).2, ?_, key.2.2⟩
    unfold Journal.dispatched
    rw [key.2.1]
  · -- the step is one of a call or an ending whose outcome is a return
    have hreturn : ∀ op running d r, Step op d s.journal r → s' = s.after op running r →
        s'.journal.failure = none ∧ s'.journal.sealed = true := by
      intro op running d r hr heq
      subst heq
      cases ho : r.2 with
      | returned =>
        have hafter : s.after op running r = { s with
            journal := r.1
            running := running
            answers := s.answers ++ [(op, .returned)] } := by
          unfold System.after
          rw [ho]
        rw [hafter] at hanswer ⊢
        have hop := (Prod.mk.inj (List.cons.inj (List.append_cancel_left hanswer)).1).1
        exact hr.sealing hop ho
      | threw e =>
        have hafter : (s.after op running r).answers = s.answers ++ [(op, .threw e)] := by
          unfold System.after
          rw [ho]
        rw [hafter] at hanswer
        have := (Prod.mk.inj (List.cons.inj (List.append_cancel_left hanswer)).1).2
        cases this
      | observing n =>
        have hafter : (s.after op running r).answers = s.answers := by
          unfold System.after
          rw [ho]
        rw [hafter] at hanswer
        have := congrArg List.length hanswer
        simp at this
    have hdone : s'.journal.failure = none ∧ s'.journal.sealed = true := by
      cases a with
      | call op => exact hreturn op _ _ _ (step_call hj op) (Option.some.inj hn).symm
      | observed ending =>
        simp only [journals] at hn
        split at hn
        · cases hn
        · next hstack =>
          rcases hs.running with ⟨hnil, -⟩ | ⟨a', hr, hd, ha⟩
          · rw [hnil] at hstack
            cases hstack
          · rw [hr] at hstack
            obtain ⟨rfl, rfl⟩ := List.cons.inj hstack
            exact hreturn _ _ _ _ (step_observed hj hd ha a'.op ending) (Option.some.inj hn).symm
    exact ((hs.next hn).journal.opened hdone.1).all_dispatched hdone.2

/-! ### A run with calls of the observer -/

/-- The second pair arrives from inside the first observer; then the journal is sealed. -/
def reentrantRun : List Action :=
  [.call (.recordPayload (.integer 1) (.text [97])), .call (.recordMarker (.integer 1)),
    .call (.recordMarker (.integer 2)), .call (.recordPayload (.integer 2) (.text [98])),
    .call .close, .observed .undefined, .observed .undefined, .call .close]

theorem transport_journal_reentrantRun : ∃ s, journals.Reachable s ∧
    s.journal.dispatched = [(1, [97]), (2, [98])] ∧ s.journal.sealed = true ∧
      s.journal.pendingUnpairedEntries ≤ maxPendingEntries := by
  obtain ⟨s, hr, hp⟩ := Machine.exists_reachable_of_run (M := journals) reentrantRun
    (fun s => s.journal.dispatched = [(1, [97]), (2, [98])] ∧ s.journal.sealed = true)
    (by decide +kernel)
  have hp' : s.journal.dispatched = [(1, [97]), (2, [98])] ∧ s.journal.sealed = true := by
    simpa using hp
  exact ⟨s, hr, hp'.1, hp'.2, (transport_journal hr).2.2.1⟩

end Takoserver.Transport
