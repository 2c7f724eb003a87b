import Takoserver.RuntimeInputs.Generations

/-!
# What the calls rely on

A statement that acts on a row that was read earlier is planned against that row: `Needs` is what
its call knows of the row, and of the clock, when the statement runs.
-/

namespace Takoserver.RuntimeInputs

variable {κ χ : Type} {P : Primitives κ χ} {s s' : Tables χ} {n : ℕ} {K : Tables χ → Prop}

/-! ### Plans -/

/-- What stands of the generation of a row that was read is that row, or a later one. -/
def Seen (s : Tables χ) (row : Row χ) : Prop :=
  (∃ e ∈ s.sealings, row.leaseGeneration = some e.1) ∧
    ∀ r ∈ s.rows, r.leaseGeneration = row.leaseGeneration → Later row r

theorem Seen.leads {row : Row χ} (h : Seen s row) (hl : Leads s s') : Seen s' row := by
  obtain ⟨⟨e, he, hgen⟩, hlater⟩ := h
  refine ⟨⟨e, hl.sealings he, hgen⟩, fun r' hr' heq => ?_⟩
  rcases hl.rows r' hr' with ⟨r, hr, hrr'⟩ | hnew
  · exact (hlater r hr (hrr'.generation.symm.trans heq)).trans hrr'
  · exact absurd (heq.trans hgen) (hnew e he)

theorem Ledger.seen (hs : Ledger P s) {r : Row χ} (hr : r ∈ s.rows) : Seen s r := by
  refine ⟨(hs.known r hr).generation, fun r' hr' heq => ?_⟩
  rw [hs.eq_of_generation hr hr' heq]
  exact .refl r

/-- What a statement of process `n` is planned against. -/
def Needs (P : Primitives κ χ) (n : ℕ) (c : Call χ) (s : Tables χ) : Prop :=
  match c with
  | .insert input scope row => ∃ (client : Client κ) (p : Preparation) (g : Nonce) (t : Instant)
      (id : String), normalizePreparation P input client.canonicalPublicOrigin scope = .ok p ∧
        row = preparedRow P client p id g t ∧ Owns n g s
  | .discardSpent row => ¬row.live
  | .discardReplaceable row => Seen s row ∧ ∃ t ≤ s.now, replaceablePreparation row t = true
  | .expireExact row now => row.expired now = true ∧ now ≤ s.now
  | .expireDue now _ => now ≤ s.now
  | _ => True

/-- A statement that is planned against nothing. -/
def Call.plain : Call χ → Prop
  | .insert .. | .discardSpent .. | .discardReplaceable .. | .expireExact .. | .expireDue .. => False
  | _ => True

variable {c : Call χ} {w : Outside} {x : Except Failure c.Answer} {α : Type}

theorem needs_of_plain (h : c.plain) : Needs P n c s := by
  cases c <;> first | exact trivial | exact h.elim

/-- The tables go on, and what process `n` owns stays its own. -/
structure Relies (n : ℕ) (s s' : Tables χ) : Prop where
  leads : Leads s s'
  owns : ∀ g, Owns n g s → Owns n g s'

theorem Needs.relies (h : Needs P n c s) (hr : Relies n s s') : Needs P n c s' := by
  cases c with
  | insert =>
    obtain ⟨client, p, g, t, id, hnormalized, hrow, howns⟩ := h
    exact ⟨client, p, g, t, id, hnormalized, hrow, hr.owns g howns⟩
  | discardReplaceable =>
    obtain ⟨hseen, t, ht, hreplaceable⟩ := h
    exact ⟨hseen.leads hr.leads, t, ht.trans hr.leads.now, hreplaceable⟩
  | expireExact row now => exact ⟨h.1, h.2.trans hr.leads.now⟩
  | expireDue now => exact Nat.le_trans h hr.leads.now
  | _ => exact h

/-! ### Statements -/

/-- What a call leaves that is never without an answer. -/
theorem snd_of_some {β : Type} {a : β × Tables χ} {b : β} (h : some a = some (b, s')) : a.2 = s' :=
  congrArg Prod.snd (Option.some.inj h)

theorem written_same (s : Tables χ) : Written P n s s := .host s.host

theorem written_of_update {q : Row χ → Bool} {f : Row χ → Row χ}
    (h : ∀ r ∈ s.rows, q r = true → Closes r (f r)) : Written P n s (s.update q f).2 := by
  unfold Tables.update
  split
  · exact .close q f h
  · exact written_same s

/-- What a call leaves of the tables. -/
theorem written_exec (hs : Ledger P s) (hneeds : Needs P n c s) (h : exec n w s c = some (x, s')) :
    Written P n s s' := by
  cases c
  case randomBytes =>
    simp only [exec] at h
    split at h
    · next hfresh =>
      cases h
      exact .draw w.nonce hfresh.2
    · cases h
  case insert input scope _ =>
    obtain ⟨client, p, g, t, id, hnormalized, rfl, howns⟩ := hneeds
    simp only [exec, Option.some.injEq] at h
    unfold Tables.insert at h
    split at h
    · next hlet =>
      cases h
      simp only [Bool.and_eq_true, List.all_eq_true, decide_eq_true_eq] at hlet
      exact .insert input scope client p g t id hnormalized howns fun r hr => (hlet.2 r hr).1
    · cases h
      exact written_same s
  case claim update =>
    simp only [exec, Option.some.injEq] at h
    unfold Tables.claim at h
    dsimp only at h
    split at h
    · next hupdate =>
      cases h
      unfold Tables.update at hupdate
      split at hupdate
      · cases hupdate
        split
        · next hzero =>
          refine .close _ _ fun r hr hq => ?_
          exact absurd hq (List.countP_eq_zero.mp hzero r hr)
        next hsome =>
        obtain ⟨r, hr, hq⟩ := List.countP_pos_iff.mp (Nat.pos_of_ne_zero hsome)
        refine .claim _ _ update.generation update.input.handoff (fun r hr hq => ?_) ⟨r, hr, hq⟩
        rw [decide_eq_true_eq] at hq
        obtain ⟨-, hprepared, -, -, -, hgen, -, -, hspace, -, -⟩ := hq
        exact {
          fixed := rfl, fence := rfl, prepared := hprepared, claimed := rfl, generation := hgen
          sealNonce := rfl, sealedPayload := rfl, space := hspace
          bound := ⟨rfl, rfl, rfl, rfl, rfl, rfl⟩ }
      · cases hupdate
    · next hupdate =>
      cases h
      unfold Tables.update at hupdate
      split at hupdate
      · cases hupdate
      · cases hupdate
        exact written_same s
  all_goals obtain rfl := snd_of_some h
  case ensureGeneration row _ =>
    refine written_of_update fun r hr hq => ?_
    -- every row has a generation, so the statement finds none
    obtain ⟨e, -, hgen⟩ := (hs.known r hr).generation
    rw [decide_eq_true_eq] at hq
    rw [hq.2.2.2.2.2] at hgen
    cases hgen
  case abort now => exact written_of_update fun r _ _ => closes_revoke r now
  case dispatch => exact written_of_update fun r _ _ => closes_close nofun nofun
  case consume now => exact written_of_update fun r _ _ => closes_consume r _ now
  case abandon now =>
    exact written_of_update fun r _ _ => closes_revoke r now
  case noEffect => exact written_of_update fun r _ _ => closes_revoke r _
  case revoke now =>
    exact written_of_update fun r _ _ => closes_revoke r now
  case expireDue => exact written_of_update fun r _ _ => closes_close nofun nofun
  case expireExact => exact written_of_update fun r _ _ => closes_close nofun nofun
  case markIndeterminate => exact written_of_update fun r _ _ => closes_close nofun nofun
  case reclaim => exact .delete _
  case discardSpent => exact .delete _
  case discardReplaceable => exact .delete _
  case host host => exact .host host
  all_goals exact written_same s

/-- The tables when the clock has gone on. -/
def Tables.after (s : Tables χ) (elapsed : ℕ) : Tables χ := { s with now := s.now + elapsed }

theorem relies_after (s : Tables χ) (elapsed n : ℕ) : Relies n s (s.after elapsed) where
  leads := { Leads.refl s with now := Nat.le_add_right _ _ }
  owns _ h := h

theorem Ledger.after (hs : Ledger P s) (elapsed : ℕ) : Ledger P (s.after elapsed) :=
  { hs with known := fun r hr => (hs.known r hr).logs (fun _ h => h) fun _ h => h }

/-- Everything a call does in a circumstance. -/
theorem runs_cases (h : runs n c w s = some (x, s')) :
    (∃ y, exec n w (s.after w.elapsed) c = some (y, s') ∧ (x = y ∨ x = .error .other)) ∨
      x = .error .other ∧ s' = s.after w.elapsed := by
  unfold runs at h
  split at h
  · exact Or.inl ⟨x, h, Or.inl rfl⟩
  · obtain ⟨result, hexec, heq⟩ := Option.map_eq_some_iff.mp h
    cases heq
    exact Or.inl ⟨result.1, hexec, Or.inr rfl⟩
  · cases h
    exact Or.inr ⟨rfl, rfl⟩

theorem written_runs (hs : Ledger P s) (hneeds : Needs P n c s) (h : runs n c w s = some (x, s')) :
    Written P n (s.after w.elapsed) s' := by
  rcases runs_cases h with ⟨y, hexec, -⟩ | ⟨-, rfl⟩
  · exact written_exec (hs.after _) (hneeds.relies (relies_after s _ n)) hexec
  · exact written_same _

theorem Written.relies {m : ℕ} (h : Written P n s s') (hs : Ledger P s) (hmn : m ≠ n) :
    Relies m s s' := by
  refine ⟨h.leads, fun g howns => ?_⟩
  cases h with
  | draw => exact ⟨List.mem_append_left _ howns.1, howns.2⟩
  | insert _ _ _ _ g' _ _ _ howns' =>
    refine ⟨howns.1, fun hmem => ?_⟩
    rw [List.map_append, List.mem_append] at hmem
    rcases hmem with hmem | hmem
    · exact howns.2 hmem
    · -- the two generations were drawn by two processes
      have hg : g = g' := List.mem_singleton.mp hmem
      subst hg
      have := Table.eq_of_key hs.drawn howns.1 howns'.1 rfl
      exact hmn (congrArg Prod.fst this)
  | _ => exact howns

/-! ### The contract -/

/-- The contract of the calls, over tables of which `K` holds. -/
def contract (P : Primitives κ χ) (K : Tables χ → Prop) : Contract (σ := Tables χ) runs where
  inv s := Ledger P s ∧ K s
  leads := Leads
  rely n _ := Relies n
  pre := Needs P
  leads_refl := Leads.refl
  leads_trans := Leads.trans
  rely_refl _ _ s := ⟨Leads.refl s, fun _ h => h⟩
  rely_trans h h' := ⟨h.leads.trans h'.leads, fun g hg => h'.owns g (h.owns g hg)⟩
  leads_of_rely h := h.leads

/-- The tables go on with `K`. -/
def Goes (K : Tables χ → Prop) : Prop := ∀ s s', Leads s s' → K s → K s'

/-- A row stood in tables of which `K` holds. -/
def Was (P : Primitives κ χ) (K : Tables χ → Prop) (s : Tables χ) (r : Row χ) : Prop :=
  ∃ t, Ledger P t ∧ K t ∧ r ∈ t.rows ∧ Leads t s

namespace Was

variable {r : Row χ}

theorem leads (h : Was P K s r) (hl : Leads s s') : Was P K s' r := by
  obtain ⟨t, ht, hK, hr, hts⟩ := h
  exact ⟨t, ht, hK, hr, hts.trans hl⟩

theorem seen (h : Was P K s r) : Seen s r := by
  obtain ⟨t, ht, -, hr, hts⟩ := h
  exact (ht.seen hr).leads hts

theorem known (h : Was P K s r) : Known P s r := by
  obtain ⟨t, ht, -, hr, hts⟩ := h
  exact (ht.known r hr).logs hts.sealings hts.handoffs

end Was

theorem returns_ask (hK : Goes K) {Q : c.Answer → Tables χ → Prop} (hneeds : Needs P n c s)
    (h : ∀ t w a t', Ledger P t → K t → exec n w t c = some (.ok a, t') → Ledger P t' → K t' →
      Leads s t → Leads t t' → Q a t') : (contract P K).Returns n (ask c) Q s := by
  refine Contract.returns_call fun t hrely hinv => ⟨hneeds.relies hrely, ?_⟩
  intro w a t' hrun hinv' hleads
  rcases runs_cases hrun with ⟨y, hexec, hy⟩ | ⟨hx, -⟩
  · have hya : y = .ok a := by
      rcases hy with hy | hy
      · exact hy.symm
      · cases hy
    rw [hya] at hexec
    have hafter := (relies_after t w.elapsed n).leads
    have hwritten := written_exec (hinv.1.after _)
      ((hneeds.relies hrely).relies (relies_after t w.elapsed n)) hexec
    exact h (t.after w.elapsed) w a t' (hinv.1.after _) (hK _ _ hafter hinv.2) hexec hinv'.1
      hinv'.2 (hrely.leads.trans hafter) hwritten.leads
  · cases hx

theorem returns_attempt {Q : c.Answer → Tables χ → Prop} (hs : Ledger P s) (hK : K s)
    (h : (contract P K).Returns n (ask c) Q s) :
    (contract P K).Returns n (attempt c) (fun o t => ∀ a, o = some a → Q a t) s := by
  refine Contract.Returns.tryCatch (h.map ⟨hs, hK⟩ fun a t _ _ ha b hb => ?_) ⟨hs, hK⟩
    fun e t _ _ => Contract.returns_pure nofun
  cases hb
  exact ha

theorem only_lift (x : Except Failure α) {q : Call χ → Prop} :
    (lift x : Program χ α).Only q :=
  Async.only_ofExcept x

theorem returns_lift {β : Type} {x : Except Failure β} {f : β → Program χ α}
    {Q : α → Tables χ → Prop} (h : ∀ b, x = .ok b → (contract P K).Returns n (f b) Q s) :
    (contract P K).Returns n (lift x >>= f) Q s :=
  Contract.returns_ofExcept_bind h

theorem only_attempt {q : Call χ → Prop} (h : q c) : (attempt c).Only q :=
  Async.only_tryCatch (Async.only_bind (Async.only_call h) fun _ => Async.only_pure _)
    fun _ => Async.only_pure _

/-- Of a program that plans nothing, nothing need be known. -/
theorem returns_plain {p : Program χ α} (h : p.Only Call.plain) :
    (contract P K).Returns n p (fun _ _ => True) s :=
  Contract.returns_only h fun _ _ hc => needs_of_plain hc

theorem returns_time (hK : Goes K) :
    (contract P K).Returns n (ask .time) (fun now t => now ≤ t.now) s := by
  refine returns_ask hK trivial fun t w a t' _ _ hexec _ _ _ _ => ?_
  cases hexec
  exact Nat.le_refl _

theorem returns_readRow (hK : Goes K) (organizationId operationKey : String) :
    (contract P K).Returns n (ask (.readRow organizationId operationKey))
      (fun found t => ∀ r, found = some r → Was P K t r) s := by
  refine returns_ask hK trivial fun t w a t' ht hKt hexec _ _ _ _ r hr => ?_
  cases hexec
  exact ⟨t, ht, hKt, List.mem_of_find?_eq_some hr, .refl t⟩

theorem returns_readByPreparationId (hK : Goes K) (organizationId preparationId : String) :
    (contract P K).Returns n (ask (.readByPreparationId organizationId preparationId))
      (fun found t => ∀ r, found = some r → Was P K t r) s := by
  refine returns_ask hK trivial fun t w a t' ht hKt hexec _ _ _ _ r hr => ?_
  cases hexec
  exact ⟨t, ht, hKt, List.mem_of_find?_eq_some hr, .refl t⟩

theorem returns_randomBytes (hK : Goes K) :
    (contract P K).Returns n (ask .randomBytes) (fun g t => Owns n g t) s := by
  refine returns_ask hK trivial fun t w a t' ht _ hexec _ _ _ _ => ?_
  simp only [exec] at hexec
  split at hexec
  · next hfresh =>
    cases hexec
    refine ⟨List.mem_append_right _ (List.mem_singleton_self _), fun hmem => ?_⟩
    obtain ⟨e, he, heq⟩ := List.mem_map.mp hmem
    exact hfresh.2 (heq ▸ ht.logged e he)
  · cases hexec

/-! ### Statements that act on a row that was read -/

theorem returns_expireExact (hK : Goes K) (hs : Ledger P s) (hKs : K s) {r : Row χ}
    {now : Instant} (hexpired : r.expired now = true) (hnow : now ≤ s.now) :
    (contract P K).Returns n (expireExact r now) (fun _ _ => True) s := by
  unfold expireExact
  split
  · exact Contract.returns_pure trivial
  · split
    · exact Contract.returns_pure trivial
    · have hask : (contract P K).Returns n (ask (.expireExact r now)) (fun _ _ => True) s :=
        returns_ask hK ⟨hexpired, hnow⟩ fun _ _ _ _ _ _ _ _ _ _ _ => trivial
      exact (returns_attempt hs hKs hask).bind ⟨hs, hKs⟩ fun _ _ _ _ _ =>
        Contract.returns_pure trivial

theorem only_markClaimIndeterminate (r : Row χ) (now : Instant) :
    (markClaimIndeterminate r now).Only Call.plain :=
  Async.only_bind (only_attempt trivial) fun _ => Async.only_pure _

theorem only_assertLeaseFence (fence : Option SqlPredicate) :
    (assertLeaseFence fence : Program χ Unit).Only Call.plain := by
  cases fence with
  | none => exact Async.only_pure _
  | some =>
    rw [assertLeaseFence]
    apply Async.only_bind
    · exact only_lift _
    intro _
    apply Async.only_bind
    · exact only_attempt trivial
    intro authorized
    split
    · exact Async.only_throw _
    · split
      · exact Async.only_pure _
      · exact Async.only_throw _

theorem returns_ensureLiveGeneration (hK : Goes K) (hs : Ledger P s) (hKs : K s)
    {found : Option (Row χ)} (hfound : ∀ r, found = some r → Was P K s r) :
    (contract P K).Returns n (ensureLiveGeneration found)
      (fun out t => ∀ r, out = some r → Was P K t r) s := by
  unfold ensureLiveGeneration
  split
  · refine Contract.returns_pure fun r hr => ?_
    cases hr
  next r =>
  split
  · exact Contract.returns_pure hfound
  split
  · exact Contract.returns_throw
  next nonce _ =>
  split
  · exact Contract.returns_pure hfound
  refine Contract.returns_guard fun _ => ?_
  -- the statement itself is planned against nothing
  have hask : (contract P K).Returns n (attempt (.ensureGeneration r nonce))
      (fun _ _ => True) s := returns_plain (only_attempt trivial)
  refine hask.bind ⟨hs, hKs⟩ fun changes t ht _ _ => ?_
  split
  · exact Contract.returns_throw
  · refine (returns_readRow hK _ _).bind ht fun observed u _ _ hobserved => ?_
    split
    · exact Contract.returns_throw
    · next =>
      split
      · exact Contract.returns_pure hobserved
      · exact Contract.returns_throw

end Takoserver.RuntimeInputs
