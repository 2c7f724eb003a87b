import Takoserver.RuntimeInputs.Calls

/-!
# The generations of a preparation

A row is inserted under a generation of its own, the nonce that its values were sealed with.  It is
claimed at most once, its fence goes on with every change, and once it is neither prepared nor
claimed it is so for good.  The logs of the insertions and of the claims only grow, so what is known
of a row that was read stays known.
-/

namespace Takoserver.RuntimeInputs

variable {κ χ : Type} {P : Primitives κ χ} {s s' : Tables χ} {n : ℕ}

/-! ### Rows -/

/-- Prepared or claimed. -/
def Row.live (r : Row χ) : Prop := r.state = .prepared ∨ r.state = .claimed

instance (r : Row χ) : Decidable r.live := by
  unfold Row.live
  infer_instance

/-- The columns that no update assigns once the generation is known. -/
def Row.fixed (r : Row χ) :=
  (r.organizationId, r.operationKey, r.preparationId, r.applyCommitment, r.canonicalPublicOrigin,
    r.bindingNames, r.leaseGeneration)

/-- A row as it may be later. -/
structure Later (old new : Row χ) : Prop where
  fixed : new.fixed = old.fixed
  le : old.fence ≤ new.fence
  same : new.fence = old.fence → new = old
  live : new.live → old.live

namespace Later

variable {r r' r'' : Row χ}

theorem refl (r : Row χ) : Later r r := ⟨rfl, Nat.le_refl _, fun _ => rfl, id⟩

theorem trans (h : Later r r') (h' : Later r' r'') : Later r r'' := by
  refine ⟨h'.fixed.trans h.fixed, h.le.trans h'.le, fun heq => ?_, fun hlive => h.live (h'.live hlive)⟩
  have hle := h.le
  have hle' := h'.le
  have hsame : r'.fence = r.fence := by omega
  have hsame' : r''.fence = r'.fence := by omega
  rw [h'.same hsame', h.same hsame]

theorem generation (h : Later r r') : r'.leaseGeneration = r.leaseGeneration :=
  congrArg (fun c => c.2.2.2.2.2.2) h.fixed

end Later

theorem key_of_fixed {r r' : Row χ} (h : r'.fixed = r.fixed) : r'.key = r.key :=
  congrArg (fun c => (c.1, c.2.1)) h

/-- What the tables become. -/
structure Leads (s s' : Tables χ) : Prop where
  now : s.now ≤ s'.now
  drawn : s.drawn ⊆ s'.drawn
  sealings : s.sealings ⊆ s'.sealings
  handoffs : s.handoffs ⊆ s'.handoffs
  rows : ∀ r' ∈ s'.rows, (∃ r ∈ s.rows, Later r r') ∨
    ∀ e ∈ s.sealings, r'.leaseGeneration ≠ some e.1

namespace Leads

variable {t : Tables χ}

theorem refl (s : Tables χ) : Leads s s where
  now := Nat.le_refl _
  drawn := List.Subset.refl _
  sealings := List.Subset.refl _
  handoffs := List.Subset.refl _
  rows r hr := Or.inl ⟨r, hr, .refl r⟩

theorem trans (h : Leads s s') (h' : Leads s' t) : Leads s t := by
  refine ⟨h.now.trans h'.now, List.Subset.trans h.drawn h'.drawn,
    List.Subset.trans h.sealings h'.sealings, List.Subset.trans h.handoffs h'.handoffs,
    fun r'' hr'' => ?_⟩
  rcases h'.rows r'' hr'' with ⟨r', hr', hlater'⟩ | hnew
  · rcases h.rows r' hr' with ⟨r, hr, hlater⟩ | hnew
    · exact Or.inl ⟨r, hr, hlater.trans hlater'⟩
    · refine Or.inr fun e he => ?_
      rw [hlater'.generation]
      exact hnew e he
  · exact Or.inr fun e he => hnew e (h.sealings he)

end Leads

/-! ### What is known of a row -/

/-- The row is the one that a preparation was sealed in. -/
structure SealedAs (P : Primitives κ χ) (r : Row χ) (g : Nonce) (p : Preparation) : Prop where
  organizationId : r.organizationId = p.organizationId
  operationKey : r.operationKey = p.operationKey
  applyCommitment : r.applyCommitment = p.applyCommitment
  bindingNames : r.bindingNames = p.bindingNames
  leaseGeneration : r.leaseGeneration = some g
  material : r.live → r.sealNonce = some g ∧ ∃ key aad,
    r.sealedPayload = some (P.encrypt key g aad (sealedPayload p))
  prepared : r.state = .prepared → r.space = p.authorizedSpace
  space : ∀ space, p.authorizedSpace = some space → r.space = some space

/-- What the logs say of a row. -/
structure KnownAs (P : Primitives κ χ) (s : Tables χ) (r : Row χ) (g : Nonce)
    (input : PreparationInput) (scope : Option String) (origin : String) (p : Preparation) :
    Prop where
  logged : (g, input, scope) ∈ s.sealings
  normalized : normalizePreparation P input origin scope = .ok p
  sealed : SealedAs P r g p
  claimed : r.state = .claimed → ∃ handoff, (g, handoff) ∈ s.handoffs ∧ r.boundTo handoff

/-- What holds of a row in every state. -/
def Known (P : Primitives κ χ) (s : Tables χ) (r : Row χ) : Prop :=
  ∃ g input scope origin p, KnownAs P s r g input scope origin p

theorem Known.logs {r : Row χ} (h : Known P s r) (hsealings : s.sealings ⊆ s'.sealings)
    (hhandoffs : s.handoffs ⊆ s'.handoffs) : Known P s' r := by
  obtain ⟨g, input, scope, origin, p, hlogged, hnormalized, hsealed, hclaimed⟩ := h
  refine ⟨g, input, scope, origin, p, hsealings hlogged, hnormalized, hsealed, fun hstate => ?_⟩
  obtain ⟨handoff, hmem, hbound⟩ := hclaimed hstate
  exact ⟨handoff, hhandoffs hmem, hbound⟩

theorem Known.generation {r : Row χ} (h : Known P s r) :
    ∃ e ∈ s.sealings, r.leaseGeneration = some e.1 := by
  obtain ⟨g, _, _, _, p, hlogged, -, hsealed, -⟩ := h
  exact ⟨_, hlogged, hsealed.leaseGeneration⟩

/-- What holds of the tables in every state. -/
structure Ledger (P : Primitives κ χ) (s : Tables χ) : Prop where
  keys : (s.rows.map Row.key).Nodup
  drawn : (s.drawn.map Prod.snd).Nodup
  sealings : (s.sealings.map Prod.fst).Nodup
  handoffs : (s.handoffs.map Prod.fst).Nodup
  logged : ∀ e ∈ s.sealings, e.1 ∈ s.drawn.map Prod.snd
  handed : ∀ h ∈ s.handoffs, h.1 ∈ s.sealings.map Prod.fst
  known : ∀ r ∈ s.rows, Known P s r
  erased : ∀ r ∈ s.rows, r.sealedPayload.isSome = true → r.live
  unclaimed : ∀ r ∈ s.rows, r.state = .prepared → ∀ h ∈ s.handoffs, r.leaseGeneration ≠ some h.1

/-- Two rows of one generation are the same. -/
theorem Ledger.eq_of_generation (hs : Ledger P s) {r r' : Row χ} (hr : r ∈ s.rows)
    (hr' : r' ∈ s.rows) (h : r'.leaseGeneration = r.leaseGeneration) : r' = r := by
  obtain ⟨g, input, scope, _, p, hlogged, hnormalized, hsealed, -⟩ := hs.known r hr
  obtain ⟨g', input', scope', _, _, hlogged', hnormalized', hsealed', -⟩ := hs.known r' hr'
  have hg : g' = g := by
    have := hsealed'.leaseGeneration.symm.trans (h.trans hsealed.leaseGeneration)
    exact Option.some.inj this
  have hentry := Table.eq_of_key hs.sealings hlogged hlogged' hg.symm
  obtain ⟨rfl, rfl, rfl⟩ : g = g' ∧ input = input' ∧ scope = scope' := by
    simpa only [Prod.mk.injEq] using hentry
  obtain ⟨horg, hkey, -⟩ := normalizePreparation_ok hnormalized
  obtain ⟨horg', hkey', -⟩ := normalizePreparation_ok hnormalized'
  refine Table.eq_of_key hs.keys hr' hr ?_
  unfold Row.key
  rw [hsealed.organizationId, hsealed.operationKey, hsealed'.organizationId, hsealed'.operationKey,
    horg, hkey, horg', hkey']

/-! ### Statements -/

/-- A row and the closed row that an update makes of it. -/
structure Closes (r r' : Row χ) : Prop where
  fixed : r'.fixed = r.fixed
  fence : r'.fence = r.fence + 1
  dead : ¬r'.live
  erased : r'.sealedPayload = none
  space : r'.space = r.space

theorem closes_close {r : Row χ} {state : State} {now : Instant} (h : state ≠ .prepared)
    (h' : state ≠ .claimed) : Closes r (r.close state now) :=
  ⟨rfl, rfl, fun hlive => hlive.elim h h', rfl, rfl⟩

theorem closes_revoke (r : Row χ) (now : Instant) : Closes r (r.revoke now) :=
  ⟨rfl, rfl, fun hlive => hlive.elim nofun nofun, rfl, rfl⟩

theorem closes_consume (r : Row χ) (digest : String) (now : Instant) :
    Closes r (r.consume digest now) :=
  ⟨rfl, rfl, fun hlive => hlive.elim nofun nofun, rfl, rfl⟩

/-- A prepared row and the claimed row that `claim` makes of it. -/
structure Claims (r r' : Row χ) (g : Nonce) (handoff : Handoff) : Prop where
  fixed : r'.fixed = r.fixed
  fence : r'.fence = r.fence + 1
  prepared : r.state = .prepared
  claimed : r'.state = .claimed
  generation : r.leaseGeneration = some g
  sealNonce : r'.sealNonce = r.sealNonce
  sealedPayload : r'.sealedPayload = r.sealedPayload
  space : r.space = none ∨ r.space = some handoff.target.space
  bound : r'.boundTo handoff

theorem later_of_closes {r r' : Row χ} (h : Closes r r') : Later r r' := by
  refine ⟨h.fixed, ?_, fun heq => ?_, fun hlive => absurd hlive h.dead⟩
  · rw [h.fence]
    omega
  · rw [h.fence] at heq
    omega

theorem later_of_claims {r r' : Row χ} {g : Nonce} {handoff : Handoff}
    (h : Claims r r' g handoff) : Later r r' := by
  refine ⟨h.fixed, ?_, fun heq => ?_, fun _ => Or.inl h.prepared⟩
  · rw [h.fence]
    omega
  · rw [h.fence] at heq
    omega

/-- Process `n` has drawn the generation, and no row was inserted under it. -/
def Owns (n : ℕ) (g : Nonce) (s : Tables χ) : Prop :=
  (n, g) ∈ s.drawn ∧ g ∉ s.sealings.map Prod.fst

/-- What a statement of process `n` does to the tables. -/
inductive Written (P : Primitives κ χ) (n : ℕ) (s : Tables χ) : Tables χ → Prop
  | host (host : Host) : Written P n s { s with host }
  | draw (g : Nonce) (h : g ∉ s.drawn.map Prod.snd) :
      Written P n s { s with drawn := s.drawn ++ [(n, g)] }
  | insert (input : PreparationInput) (scope : Option String) (client : Client κ)
      (p : Preparation) (g : Nonce) (t : Instant) (id : String)
      (hnormalized : normalizePreparation P input client.canonicalPublicOrigin scope = .ok p)
      (howns : Owns n g s)
      (hapart : ∀ r ∈ s.rows, r.key ≠ (preparedRow P client p id g t).key) :
      Written P n s { s with
        rows := s.rows ++ [preparedRow P client p id g t]
        sealings := s.sealings ++ [(g, input, scope)] }
  | close (q : Row χ → Bool) (f : Row χ → Row χ)
      (h : ∀ r ∈ s.rows, q r = true → Closes r (f r)) :
      Written P n s { s with rows := Table.update q f s.rows }
  | claim (q : Row χ → Bool) (f : Row χ → Row χ) (g : Nonce) (handoff : Handoff)
      (h : ∀ r ∈ s.rows, q r = true → Claims r (f r) g handoff)
      (hsome : ∃ r ∈ s.rows, q r = true) :
      Written P n s { s with
        rows := Table.update q f s.rows
        handoffs := s.handoffs ++ [(g, handoff)] }
  | delete (q : Row χ → Bool) : Written P n s { s with rows := Table.delete q s.rows }

namespace Written

/-- Every row after an update is an old one, or what the update made of one. -/
theorem origin_of_update {q : Row χ → Bool} {f : Row χ → Row χ} {r' : Row χ}
    (h : r' ∈ Table.update q f s.rows) :
    r' ∈ s.rows ∨ ∃ r ∈ s.rows, q r = true ∧ r' = f r := by
  rcases Table.mem_update.mp h with ⟨hr, -⟩ | ⟨r, hr, hq, heq⟩
  · exact Or.inl hr
  · exact Or.inr ⟨r, hr, hq, heq⟩

/-- Every statement keeps what is known. -/
theorem leads (h : Written P n s s') : Leads s s' := by
  cases h with
  | host => exact { Leads.refl s with }
  | draw => exact { Leads.refl s with drawn := List.subset_append_left _ _ }
  | insert _ _ _ _ g _ _ _ howns =>
    refine { Leads.refl s with
      sealings := List.subset_append_left _ _
      rows := fun r' hr' => ?_ }
    rcases List.mem_append.mp hr' with hr | hr
    · exact Or.inl ⟨r', hr, .refl r'⟩
    · rw [List.mem_singleton.mp hr]
      refine Or.inr fun e he heq => howns.2 ?_
      have hge : g = e.1 := Option.some.inj heq
      rw [hge]
      exact List.mem_map_of_mem he
  | close q f h =>
    refine { Leads.refl s with rows := fun r' hr' => ?_ }
    rcases origin_of_update hr' with hr | ⟨r, hr, hq, rfl⟩
    · exact Or.inl ⟨r', hr, .refl r'⟩
    · exact Or.inl ⟨r, hr, later_of_closes (h r hr hq)⟩
  | claim _ _ _ _ h =>
    refine { Leads.refl s with
      handoffs := List.subset_append_left _ _
      rows := fun r' hr' => ?_ }
    rcases origin_of_update hr' with hr | ⟨r, hr, hq, rfl⟩
    · exact Or.inl ⟨r', hr, .refl r'⟩
    · exact Or.inl ⟨r, hr, later_of_claims (h r hr hq)⟩
  | delete q =>
    exact { Leads.refl s with
      rows := fun r' hr' => Or.inl ⟨r', (Table.mem_delete.mp hr').1, .refl r'⟩ }

theorem keys_of_update {q : Row χ → Bool} {f : Row χ → Row χ}
    (h : ∀ r ∈ s.rows, q r = true → (f r).fixed = r.fixed) :
    (Table.update q f s.rows).map Row.key = s.rows.map Row.key :=
  Table.map_update_of_mem fun r hr hq => key_of_fixed (h r hr hq)

theorem known_of_closes {r r' : Row χ} (h : Closes r r') (hr : Known P s r) : Known P s r' := by
  obtain ⟨g, input, scope, origin, p, hlogged, hnormalized, hsealed, -⟩ := hr
  refine ⟨g, input, scope, origin, p, hlogged, hnormalized, ?_,
    fun hstate => absurd (Or.inr hstate) h.dead⟩
  constructor
  · exact (congrArg (fun c => c.1) h.fixed).trans hsealed.organizationId
  · exact (congrArg (fun c => c.2.1) h.fixed).trans hsealed.operationKey
  · exact (congrArg (fun c => c.2.2.2.1) h.fixed).trans hsealed.applyCommitment
  · exact (congrArg (fun c => c.2.2.2.2.2.1) h.fixed).trans hsealed.bindingNames
  · exact (congrArg (fun c => c.2.2.2.2.2.2) h.fixed).trans hsealed.leaseGeneration
  · exact fun hlive => absurd hlive h.dead
  · exact fun hstate => absurd (Or.inl hstate) h.dead
  · intro space hspace
    rw [h.space]
    exact hsealed.space space hspace

theorem known_of_claims {r r' : Row χ} {g : Nonce} {handoff : Handoff}
    (h : Claims r r' g handoff) (hr : Known P s r) (hmem : (g, handoff) ∈ s.handoffs) :
    Known P s r' := by
  obtain ⟨g', input, scope, origin, p, hlogged, hnormalized, hsealed, -⟩ := hr
  have hg : g' = g := Option.some.inj (hsealed.leaseGeneration.symm.trans h.generation)
  subst hg
  refine ⟨g', input, scope, origin, p, hlogged, hnormalized, ?_, fun _ => ⟨handoff, hmem, h.bound⟩⟩
  constructor
  · exact (congrArg (fun c => c.1) h.fixed).trans hsealed.organizationId
  · exact (congrArg (fun c => c.2.1) h.fixed).trans hsealed.operationKey
  · exact (congrArg (fun c => c.2.2.2.1) h.fixed).trans hsealed.applyCommitment
  · exact (congrArg (fun c => c.2.2.2.2.2.1) h.fixed).trans hsealed.bindingNames
  · exact (congrArg (fun c => c.2.2.2.2.2.2) h.fixed).trans hsealed.leaseGeneration
  · intro _
    rw [h.sealNonce, h.sealedPayload]
    exact hsealed.material (Or.inl h.prepared)
  · intro hstate
    rw [h.claimed] at hstate
    cases hstate
  · intro space hspace
    have hrow := hsealed.space space hspace
    -- the scope of the preparation is the Space of the target
    rcases h.space with hnone | hsome
    · rw [hrow] at hnone
      cases hnone
    · rw [h.bound.2.2.1, ← hsome, hrow]

/-- The row that `prepare` inserts is known. -/
theorem known_preparedRow {input : PreparationInput} {scope : Option String} {client : Client κ}
    {p : Preparation} {g : Nonce} {t : Instant} {id : String}
    (hnormalized : normalizePreparation P input client.canonicalPublicOrigin scope = .ok p)
    (hlogged : (g, input, scope) ∈ s.sealings) : Known P s (preparedRow P client p id g t) := by
  refine ⟨g, input, scope, client.canonicalPublicOrigin, p, hlogged, hnormalized, ?_, nofun⟩
  exact {
    organizationId := rfl, operationKey := rfl, applyCommitment := rfl, bindingNames := rfl
    leaseGeneration := rfl
    material := fun _ => ⟨rfl, _, _, rfl⟩
    prepared := fun _ => rfl
    space := fun _ h => h }

/-- Every statement keeps what holds of the tables. -/
theorem ledger (h : Written P n s s') (hs : Ledger P s) : Ledger P s' := by
  cases h with
  | host => exact { hs with known := fun r hr => (hs.known r hr).logs (fun _ h => h) fun _ h => h }
  | draw g h =>
    have hfresh : ∀ e ∈ s.drawn, e.2 ≠ g := by
      intro e he heq
      exact h (heq ▸ List.mem_map_of_mem he)
    exact { hs with
      drawn := Table.nodup_insert hs.drawn hfresh
      logged := fun e he => by
        rw [List.map_append]
        exact List.mem_append_left _ (hs.logged e he)
      known := fun r hr => (hs.known r hr).logs (fun _ h => h) fun _ h => h }
  -- the nonce is fresh: no sealing and no handoff names it
  | insert _ _ _ _ g _ _ hnormalized howns hapart =>
    have hfresh : ∀ e ∈ s.sealings, e.1 ≠ g := by
      intro e he heq
      exact howns.2 (heq ▸ List.mem_map_of_mem he)
    constructor
    · exact Table.nodup_insert hs.keys hapart
    · exact hs.drawn
    · exact Table.nodup_insert hs.sealings hfresh
    · exact hs.handoffs
    · intro e he
      rcases Table.mem_insert.mp he with he | rfl
      · exact hs.logged e he
      · exact List.mem_map_of_mem howns.1
    · intro h hh
      rw [List.map_append]
      exact List.mem_append_left _ (hs.handed h hh)
    · intro r hr
      rcases Table.mem_insert.mp hr with hr | rfl
      · exact (hs.known r hr).logs (List.subset_append_left _ _) fun _ h => h
      · exact known_preparedRow hnormalized (List.mem_append_right _ (List.mem_singleton_self _))
    · intro r hr hsome
      rcases Table.mem_insert.mp hr with hr | rfl
      · exact hs.erased r hr hsome
      · exact Or.inl rfl
    · intro r hr hstate h hh
      rcases Table.mem_insert.mp hr with hr | rfl
      · exact hs.unclaimed r hr hstate h hh
      · intro heq
        have hgh : g = h.1 := Option.some.inj heq
        exact howns.2 (hgh ▸ hs.handed h hh)
  | close q f h =>
    constructor
    · rw [keys_of_update fun r hr hq => (h r hr hq).fixed]
      exact hs.keys
    · exact hs.drawn
    · exact hs.sealings
    · exact hs.handoffs
    · exact hs.logged
    · exact hs.handed
    · intro r' hr'
      rcases origin_of_update hr' with hr | ⟨r, hr, hq, rfl⟩
      · exact (hs.known r' hr).logs (fun _ h => h) fun _ h => h
      · exact known_of_closes (h r hr hq) ((hs.known r hr).logs (fun _ h => h) fun _ h => h)
    · intro r' hr' hsome
      rcases origin_of_update hr' with hr | ⟨r, hr, hq, rfl⟩
      · exact hs.erased r' hr hsome
      · rw [(h r hr hq).erased] at hsome
        cases hsome
    · intro r' hr' hstate
      rcases origin_of_update hr' with hr | ⟨r, hr, hq, rfl⟩
      · exact hs.unclaimed r' hr hstate
      · exact absurd (Or.inl hstate) (h r hr hq).dead
  | claim _ _ g _ h hsome =>
    obtain ⟨r₀, hr₀, hq₀⟩ := hsome
    have hclaims₀ := h r₀ hr₀ hq₀
    constructor
    · rw [keys_of_update fun r hr hq => (h r hr hq).fixed]
      exact hs.keys
    · exact hs.drawn
    · exact hs.sealings
    · refine Table.nodup_insert hs.handoffs fun e he heq => ?_
      exact hs.unclaimed r₀ hr₀ hclaims₀.prepared e he (hclaims₀.generation.trans (heq ▸ rfl))
    · exact hs.logged
    · intro e he
      rcases Table.mem_insert.mp he with he | rfl
      · exact hs.handed e he
      · obtain ⟨e₀, he₀, hgen⟩ := (hs.known r₀ hr₀).generation
        have hg : g = e₀.1 := Option.some.inj (hclaims₀.generation.symm.trans hgen)
        rw [hg]
        exact List.mem_map_of_mem he₀
    · intro r' hr'
      rcases origin_of_update hr' with hr | ⟨r, hr, hq, rfl⟩
      · exact (hs.known r' hr).logs (fun _ h => h) (List.subset_append_left _ _)
      · exact known_of_claims (h r hr hq)
          ((hs.known r hr).logs (fun _ h => h) (List.subset_append_left _ _))
          (List.mem_append_right _ (List.mem_singleton_self _))
    · intro r' hr' hpayload
      rcases origin_of_update hr' with hr | ⟨r, hr, hq, rfl⟩
      · exact hs.erased r' hr hpayload
      · exact Or.inr (h r hr hq).claimed
    · intro r' hr' hstate e he
      rcases origin_of_update hr' with hr | ⟨r, hr, hq, rfl⟩
      · rcases Table.mem_insert.mp he with he | rfl
        · exact hs.unclaimed r' hr hstate e he
        · -- the row of this generation was claimed, so it is not the prepared one
          intro heq
          have hsame := hs.eq_of_generation hr₀ hr (heq.trans hclaims₀.generation.symm)
          rcases Table.mem_update.mp hr' with ⟨-, hq⟩ | ⟨r, hr, hq, hfr⟩
          · rw [hsame, hq₀] at hq
            cases hq
          · rw [hfr, (h r hr hq).claimed] at hstate
            cases hstate
      · rw [(h r hr hq).claimed] at hstate
        cases hstate
  | delete q =>
    exact { hs with
      keys := Table.nodup_delete hs.keys
      known := fun r hr =>
        (hs.known r (Table.mem_delete.mp hr).1).logs (fun _ h => h) fun _ h => h
      erased := fun r hr => hs.erased r (Table.mem_delete.mp hr).1
      unclaimed := fun r hr => hs.unclaimed r (Table.mem_delete.mp hr).1 }

end Written

end Takoserver.RuntimeInputs
