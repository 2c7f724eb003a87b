import Takoserver.RuntimeInputs.Contract

/-!
# What the calls answer

Every call keeps the contract of its statements: what it plans against is what it read.  What `claim`
returns was opened from a claimed row that stood in the table while the call ran.
-/

namespace Takoserver.RuntimeInputs

variable {κ χ : Type} {P : Primitives κ χ} {s s' : Tables χ} {n : ℕ} {K : Tables χ → Prop}

/-! ### Preparing -/

theorem returns_spentOnAbsent (hs : Ledger P s) (hKs : K s) (r : Row χ) :
    (contract P K).Returns n (spentOnAbsentIncarnation r) (fun gone _ => gone = true → ¬r.live) s := by
  unfold spentOnAbsentIncarnation
  split
  · exact Contract.returns_pure nofun
  next hstate =>
  have hdead : ¬r.live := by
    rintro (h | h) <;> exact hstate (by rw [h]; exact ⟨nofun, nofun⟩)
  split
  · exact Contract.returns_pure nofun
  · next resourceUid _ =>
    have hask : (contract P K).Returns n (attempt (.spentOnAbsent r.organizationId resourceUid))
        (fun _ _ => True) s := returns_plain (only_attempt trivial)
    refine hask.bind ⟨hs, hKs⟩ fun gone t _ _ _ => ?_
    split
    · exact Contract.returns_throw
    · exact Contract.returns_pure fun _ => hdead

variable {r : Row χ} {now : Instant} {input : RecoveryInput} {executing : String}

section

variable (hK : Goes K) (hs : Ledger P s) (hKs : K s)

include hK hs hKs

theorem returns_discardSpent (hr : ¬r.live) :
    (contract P K).Returns n (discardSpent r) (fun _ _ => True) s := by
  have hask : (contract P K).Returns n (ask (.discardSpent r)) (fun _ _ => True) s :=
    returns_ask hK hr fun _ _ _ _ _ _ _ _ _ _ _ => trivial
  refine (returns_attempt hs hKs hask).bind ⟨hs, hKs⟩ fun removed t _ _ _ => ?_
  split
  · exact Contract.returns_throw
  · split
    · exact Contract.returns_throw
    · exact Contract.returns_pure trivial

theorem returns_discardReplaceable (hr : Was P K s r) (hnow : now ≤ s.now)
    (hreplaceable : replaceablePreparation r now = true) :
    (contract P K).Returns n (discardReplaceable r) (fun _ _ => True) s := by
  have hask : (contract P K).Returns n (ask (.discardReplaceable r)) (fun _ _ => True) s :=
    returns_ask hK ⟨hr.seen, now, hnow, hreplaceable⟩ fun _ _ _ _ _ _ _ _ _ _ _ => trivial
  refine hask.bind ⟨hs, hKs⟩ fun removed t _ _ _ => ?_
  split
  · exact Contract.returns_throw
  · exact Contract.returns_pure trivial

theorem returns_makeRoom (hr : Was P K s r) (hnow : now ≤ s.now) :
    (contract P K).Returns n (makeRoom r now) (fun _ _ => True) s := by
  refine (returns_spentOnAbsent hs hKs r).bind ⟨hs, hKs⟩ fun gone t ht hleads hgone => ?_
  split
  · next hspent => exact returns_discardSpent hK ht.1 ht.2 (hgone hspent)
  · split
    · exact Contract.returns_throw
    · next hreplaceable =>
      exact returns_discardReplaceable hK ht.1 ht.2 (hr.leads hleads) (hnow.trans hleads.now)
        (not_not.mp hreplaceable)

theorem returns_insertSealed {client : Client κ} {input : PreparationInput} {scope : Option String}
    {p : Preparation} (hp : normalizePreparation P input client.canonicalPublicOrigin scope = .ok p)
    (now : Instant) :
    (contract P K).Returns n (insertSealed P client input scope p now) (fun _ _ => True) s := by
  refine (returns_randomBytes hK).bind ⟨hs, hKs⟩ fun nonce t ht _ howns => ?_
  have hask : (contract P K).Returns n
      (ask (.insert input scope (preparedRow P client p
        (derivePreparationId P p.organizationId p.operationKey) nonce now)))
      (fun _ _ => True) t :=
    returns_ask hK ⟨client, p, nonce, now, _, hp, rfl, howns⟩
      fun _ _ _ _ _ _ _ _ _ _ _ => trivial
  refine (returns_attempt ht.1 ht.2 hask).bind ht fun inserted u hu _ _ => ?_
  split
  · exact Contract.returns_ofExcept fun _ _ => trivial
  · refine (returns_readRow hK _ _).bind hu fun raced v _ _ _ => ?_
    split
    · exact Contract.returns_throw
    · refine Contract.returns_guard fun _ => ?_
      split
      · exact Contract.returns_ofExcept fun _ _ => trivial
      · exact Contract.returns_throw

theorem returns_prepare (client : Client κ) (input : PreparationInput) (scope : Option String) :
    (contract P K).Returns n (prepare P client input scope) (fun _ _ => True) s := by
  refine returns_lift fun p hp => ?_
  refine (returns_time hK).bind ⟨hs, hKs⟩ fun now t ht _ hnow => ?_
  refine (returns_readRow hK _ _).bind ht fun found u hu hleads hfound => ?_
  split
  · exact returns_insertSealed hK hu.1 hu.2 hp now
  · next existing =>
    have hwas := hfound existing rfl
    have hnow' := hnow.trans hleads.now
    refine Contract.returns_guard fun _ => ?_
    split
    · exact Contract.returns_ofExcept fun _ _ => trivial
    · refine (returns_makeRoom hK hu.1 hu.2 hwas hnow').bind hu fun _ v hv _ _ => ?_
      exact returns_insertSealed hK hv.1 hv.2 hp now

theorem returns_read (organizationId operationKey : String) (scope : Option String) :
    (contract P K).Returns n (read organizationId operationKey scope) (fun _ _ => True) s := by
  refine returns_lift fun _ _ => returns_lift fun _ _ => returns_lift fun authorizedSpace _ => ?_
  refine (returns_readRow hK _ _).bind ⟨hs, hKs⟩ fun found t ht _ _ => ?_
  cases found with
  | none => exact Contract.returns_pure trivial
  | some r =>
    dsimp only
    split
    · exact Contract.returns_pure trivial
    refine (returns_time hK).bind ht fun now u hu _ hnow => ?_
    split
    · next hexpired =>
      refine (returns_expireExact hK hu.1 hu.2 hexpired hnow).bind hu fun _ _ _ _ _ => ?_
      exact Contract.returns_pure trivial
    · split
      · exact Contract.returns_pure trivial
      · refine (returns_spentOnAbsent hu.1 hu.2 r).bind hu fun gone v _ _ _ => ?_
        split
        · exact Contract.returns_pure trivial
        · exact returns_lift fun _ _ => Contract.returns_pure trivial

end

/-! ### Claiming -/

/-- What a claim that was returned has checked of its row. -/
structure Delivers (P : Primitives κ χ) (r : Row χ) (input : ClaimInput) (claim : Claim) : Prop where
  opened : ∃ client, decryptClaim P client r = .ok claim
  organizationId : r.organizationId = input.organizationId
  operationKey : r.operationKey = input.operationKey
  bindingNames : validatedBindingNames input.bindingNames = .ok r.bindingNames
  commitment : runtimeInputPublicApplyCommitment P input.publicApply = .ok r.applyCommitment
  bound : r.boundTo input.handoff

/-- What `normalizeClaimInput` answers. -/
theorem normalizeClaimInput_ok {out : RecoveryInput} (h : normalizeClaimInput input = .ok out) :
    ∃ names, validatedBindingNames input.bindingNames = .ok names ∧
      out = { input with bindingNames := names } := by
  obtain ⟨-, -, h⟩ := bind_ok h
  obtain ⟨-, -, h⟩ := bind_ok h
  obtain ⟨-, -, h⟩ := bind_ok h
  obtain ⟨-, -, h⟩ := bind_ok h
  obtain ⟨-, h⟩ := guard_ok h
  obtain ⟨-, -, h⟩ := bind_ok h
  obtain ⟨-, -, h⟩ := bind_ok h
  obtain ⟨-, -, h⟩ := bind_ok h
  obtain ⟨names, hnames, h⟩ := bind_ok h
  cases h
  exact ⟨names, hnames, rfl⟩

theorem assertNames_ok (h : assertNames r input = .ok ()) :
    r.organizationId = input.organizationId ∧ r.operationKey = input.operationKey ∧
      r.bindingNames = input.bindingNames := by
  unfold assertNames at h
  split at h
  · cases h
  · next hsame =>
    simp only [ne_eq, not_or, not_not] at hsame
    exact hsame

theorem assertExecutingApply_ok (h : assertExecutingApply r executing = .ok ()) :
    r.applyCommitment = executing := by
  unfold assertExecutingApply at h
  split at h
  · cases h
  · next hsame => exact not_not.mp hsame

theorem assertClaimedTarget_ok (h : assertClaimedTarget r input = .ok ()) :
    r.boundTo input.handoff := by
  unfold assertClaimedTarget at h
  split at h
  · cases h
  · next hsame =>
    simp only [ne_eq, not_or, not_not] at hsame
    exact hsame.2

/-- The checks that `claim` makes of the row whose values it returns. -/
theorem delivers_of_checks {input : ClaimInput} {normalized : RecoveryInput} {claim : Claim}
    {client : Client κ} (hnormalized : normalizeClaimInput input.toRecoveryInput = .ok normalized)
    (hexecuting : executingApplyCommitment P input.publicApply = .ok executing)
    (hnames : assertNames r normalized = .ok ())
    (happly : assertExecutingApply r executing = .ok ())
    (htarget : assertClaimedTarget r normalized = .ok ())
    (hopened : decryptClaim P client r = .ok claim) : Delivers P r input claim := by
  obtain ⟨_, hvalid, rfl⟩ := normalizeClaimInput_ok hnormalized
  obtain ⟨horg, hkey, hsame⟩ := assertNames_ok hnames
  refine ⟨⟨client, hopened⟩, horg, hkey, ?_, ?_, assertClaimedTarget_ok htarget⟩
  · rw [hsame]
    exact hvalid
  · rw [assertExecutingApply_ok happly]
    exact executing_ok hexecuting

theorem returns_openHeld (hs : Ledger P s) (hKs : K s) (client : Client κ)
    (r : Row χ) (fence : Option SqlPredicate) (now : Instant) :
    (contract P K).Returns n (openHeld P client r fence now)
      (fun claim _ => decryptClaim P client r = .ok claim) s := by
  have hopen : (contract P K).Returns n (openClaim P client r now)
      (fun claim _ => decryptClaim P client r = .ok claim) s := by
    refine Contract.Returns.tryCatch (Contract.returns_ofExcept fun _ h => h) ⟨hs, hKs⟩
      fun e t ht _ => ?_
    have hmark : (contract P K).Returns n (markClaimIndeterminate r now) (fun _ _ => True) t :=
      returns_plain (only_markClaimIndeterminate r now)
    exact hmark.bind ht fun _ _ _ _ _ => Contract.returns_throw
  refine hopen.bind ⟨hs, hKs⟩ fun opened t ht _ hopened => ?_
  have hfence : (contract P K).Returns n (assertLeaseFence fence) (fun _ _ => True) t :=
    returns_plain (only_assertLeaseFence fence)
  exact hfence.bind ht fun _ _ _ _ _ => Contract.returns_pure hopened

/-- What `claim` ensures. -/
def Delivered (P : Primitives κ χ) (K : Tables χ → Prop) (input : ClaimInput) (claim : Claim)
    (s : Tables χ) : Prop :=
  ∃ r : Row χ, Was P K s r ∧ r.state = .claimed ∧ Delivers P r input claim

theorem Delivered.leads {input : ClaimInput} {claim : Claim} (h : Delivered P K input claim s)
    (hl : Leads s s') : Delivered P K input claim s' := by
  obtain ⟨r, hwas, hstate, hdelivers⟩ := h
  exact ⟨r, hwas.leads hl, hstate, hdelivers⟩

theorem returns_claimPrepared (hK : Goes K) (hs : Ledger P s) (hKs : K s) (client : Client κ)
    {input : ClaimInput} {candidate : Row χ} {normalized : RecoveryInput} {generation : Nonce}
    (hnow : now ≤ s.now) (hnormalized : normalizeClaimInput input.toRecoveryInput = .ok normalized)
    (hexecuting : executingApplyCommitment P input.publicApply = .ok executing) :
    (contract P K).Returns n
      (claimPrepared P client candidate normalized generation executing input.claimFence now)
      (fun claim t => Delivered P K input claim t) s := by
  refine returns_lift fun _ _ => ?_
  have hask : (contract P K).Returns n (attempt (.claim {
      input := normalized, fence := candidate.fence, sealNonce := candidate.sealNonce, generation
      executing, claimFence := input.claimFence
      claimExpiresAt := min candidate.expiresAt (now + claimTtlMilliseconds), now }))
      (fun _ _ => True) s := returns_plain (only_attempt trivial)
  refine hask.bind ⟨hs, hKs⟩ fun _ t ht hleads _ => ?_
  refine (returns_readRow hK _ _).bind ht fun found u hu hleads' hfound => ?_
  split
  · exact Contract.returns_throw
  next r =>
  have hwas := hfound r rfl
  have hnow' := hnow.trans (hleads.now.trans hleads'.now)
  refine returns_lift fun _ hnames => returns_lift fun _ happly => ?_
  refine Contract.returns_guard fun _ => Contract.returns_guard fun hstate => ?_
  refine returns_lift fun _ htarget => ?_
  have hfence : (contract P K).Returns n (assertLeaseFence input.claimFence) (fun _ _ => True) u :=
    returns_plain (only_assertLeaseFence _)
  refine hfence.bind hu fun _ v hv hleads'' _ => ?_
  split
  · next hexpired =>
    refine (returns_expireExact hK hv.1 hv.2 hexpired (hnow'.trans hleads''.now)).bind hv
      fun _ _ _ _ _ => Contract.returns_throw
  · refine (returns_openHeld hv.1 hv.2 client r _ now).mono hv fun claim x _ hto hopened => ?_
    exact ⟨r, hwas.leads (hleads''.trans hto), not_not.mp hstate,
      delivers_of_checks hnormalized hexecuting hnames happly htarget hopened⟩

theorem returns_claim (hK : Goes K) (hs : Ledger P s) (hKs : K s) (client : Client κ)
    (input : ClaimInput) :
    (contract P K).Returns n (claim P client input)
      (fun claim t => Delivered P K input claim t) s := by
  unfold claim
  refine Contract.returns_guard fun _ => returns_lift fun normalized hnormalized => ?_
  refine returns_lift fun executing hexecuting => ?_
  refine (returns_time hK).bind ⟨hs, hKs⟩ fun now t ht _ hnow => ?_
  refine (returns_readRow hK _ _).bind ht fun found u hu hleads hfound => ?_
  refine (returns_ensureLiveGeneration hK hu.1 hu.2 hfound).bind hu fun out v hv hleads' hout => ?_
  have hnow' := hnow.trans (hleads.now.trans hleads'.now)
  split
  · exact Contract.returns_throw
  next candidate =>
  have hwas := hout candidate rfl
  refine returns_lift fun _ hnames => returns_lift fun _ happly => returns_lift fun _ _ => ?_
  refine returns_lift fun _ _ => Contract.returns_guard fun _ => ?_
  dsimp only
  split
  · next hexpired =>
    exact (returns_expireExact hK hv.1 hv.2 hexpired hnow').bind hv
      fun _ _ _ _ _ => Contract.returns_throw
  refine Contract.returns_guard fun _ => returns_lift fun generation _ => ?_
  split
  · next hstate =>
    refine returns_lift fun _ htarget => ?_
    have hfence : (contract P K).Returns n (assertLeaseFence input.claimFence)
        (fun _ _ => True) v := returns_plain (only_assertLeaseFence _)
    refine hfence.bind hv fun _ x hx hleads'' _ => ?_
    refine (returns_openHeld hx.1 hx.2 client candidate _ now).mono hx
      fun claim y _ hto hopened => ?_
    exact ⟨candidate, hwas.leads (hleads''.trans hto), hstate,
      delivers_of_checks hnormalized hexecuting hnames happly htarget hopened⟩
  · exact returns_claimPrepared hK hv.1 hv.2 client hnow' hnormalized hexecuting
  · exact Contract.returns_throw

/-! ### The other calls -/

theorem returns_dispatch (hK : Goes K) (hs : Ledger P s) (hKs : K s) (input : ClaimIdentity)
    (fence : Option SqlPredicate) :
    (contract P K).Returns n (dispatch input fence) (fun _ _ => True) s := by
  refine returns_lift fun _ _ => ?_
  refine (returns_time hK).bind ⟨hs, hKs⟩ fun now t ht _ hnow => ?_
  refine returns_lift fun _ _ => ?_
  have hask : (contract P K).Returns n (attempt (.dispatch input fence now)) (fun _ _ => True) t :=
    returns_plain (only_attempt trivial)
  refine hask.bind ht fun changes u hu hleads _ => ?_
  split
  · exact Contract.returns_pure trivial
  refine (returns_readByPreparationId hK _ _).bind hu fun found v hv hleads' _ => ?_
  have hnow' := hnow.trans (hleads.now.trans hleads'.now)
  cases found with
  | none => exact Contract.returns_throw
  | some r =>
    dsimp only
    split
    · exact Contract.returns_pure trivial
    · split
      · next hexpired =>
        exact (returns_expireExact hK hv.1 hv.2 hexpired.2 hnow').bind hv
          fun _ _ _ _ _ => Contract.returns_throw
      · exact Contract.returns_throw

theorem returns_expireDue (hK : Goes K) (hs : Ledger P s) (hKs : K s) (limit : ℕ) :
    (contract P K).Returns n (expireDue limit) (fun _ _ => True) s := by
  unfold expireDue
  refine Contract.returns_guard fun _ => ?_
  refine (returns_time hK).bind ⟨hs, hKs⟩ fun now t ht _ hnow => ?_
  have hask : (contract P K).Returns n (ask (.expireDue now limit)) (fun _ _ => True) t :=
    returns_ask hK hnow fun _ _ _ _ _ _ _ _ _ _ _ => trivial
  refine hask.bind ht fun changes u hu _ _ => ?_
  have hreclaim : (contract P K).Returns n (ask (.reclaim now limit)) (fun _ _ => True) u :=
    returns_ask hK trivial fun _ _ _ _ _ _ _ _ _ _ _ => trivial
  exact hreclaim.bind hu fun _ _ _ _ _ => Contract.returns_pure trivial

/-- A statement that is planned against nothing is one such call. -/
theorem only_ask {c : Call χ} (h : c.plain) : (ask c).Only Call.plain := Async.only_call h

theorem only_ensureLiveGeneration (found : Option (Row χ)) :
    (ensureLiveGeneration found).Only Call.plain := by
  unfold ensureLiveGeneration
  split
  · trivial
  refine Async.only_ite trivial ?_
  split
  · trivial
  refine Async.only_ite trivial (Async.only_guard ?_)
  apply Async.only_bind
  · exact only_attempt trivial
  intro changes
  split
  · trivial
  · apply Async.only_bind
    · exact only_ask trivial
    intro observed
    split
    · trivial
    · exact Async.only_ite trivial trivial

theorem only_pinPrepared (input : ClaimInput) :
    (pinPrepared P input : Program χ Nonce).Only Call.plain := by
  refine Async.only_bind (only_lift _) fun normalized => Async.only_bind (only_lift _) fun _ => ?_
  refine Async.only_bind (only_ask trivial) fun found => ?_
  refine Async.only_bind (only_ensureLiveGeneration found) fun r => ?_
  split
  · trivial
  · refine Async.only_bind (only_lift _) fun _ => Async.only_bind (only_lift _) fun _ => ?_
    refine Async.only_bind (only_lift _) fun _ => Async.only_bind (only_ask trivial) fun now => ?_
    exact Async.only_guard (only_lift _)

theorem only_noEffectRevocation (input : RecoveryInput) (generation : Nonce) :
    (noEffectRevocation input generation : Program χ NoEffect).Only Call.plain := by
  refine Async.only_bind (only_lift _) fun normalized => Async.only_bind (only_lift _) fun _ => ?_
  refine Async.only_bind (only_ask trivial) fun found => ?_
  refine Async.only_bind (only_ensureLiveGeneration found) fun r => ?_
  split
  · trivial
  · refine Async.only_bind (only_lift _) fun _ => Async.only_bind (only_lift _) fun _ => ?_
    refine Async.only_guard (Async.only_ite ?_ ?_)
    · exact Async.only_bind (only_lift _) fun _ => Async.only_bind (only_ask trivial) fun now => trivial
    · exact Async.only_bind (only_ask trivial) fun now => trivial

theorem only_abort (input : ClaimIdentity) : (abort input : Program χ Unit).Only Call.plain := by
  refine Async.only_bind (only_lift _) fun _ => Async.only_bind (only_ask trivial) fun now => ?_
  refine Async.only_bind (only_attempt trivial) fun changes => Async.only_ite trivial ?_
  refine Async.only_bind (only_ask trivial) fun found => ?_
  split
  · trivial
  · exact Async.only_ite trivial trivial

theorem only_consume (input : Consumption) : (consume input : Program χ Unit).Only Call.plain := by
  refine Async.only_bind (only_lift _) fun _ => Async.only_guard ?_
  refine Async.only_bind (only_ask trivial) fun now => ?_
  refine Async.only_bind (only_attempt trivial) fun changes => Async.only_ite trivial ?_
  refine Async.only_bind (only_ask trivial) fun found => ?_
  split
  · trivial
  · exact Async.only_ite trivial trivial

theorem only_readRecoveryRow (input : RecoveryInput) :
    (readRecoveryRow input : Program χ (Row χ)).Only Call.plain := by
  refine Async.only_bind (only_lift _) fun _ => Async.only_bind (only_ask trivial) fun found => ?_
  split
  · trivial
  · exact Async.only_bind (only_lift _) fun _ => Async.only_guard trivial

theorem only_consumeRecovered (input : RecoveryInput) (receiptDigest : String) :
    (consumeRecovered input receiptDigest : Program χ Unit).Only Call.plain := by
  refine Async.only_bind (only_lift _) fun _ => Async.only_guard ?_
  refine Async.only_bind (only_readRecoveryRow _) fun r => Async.only_ite ?_ ?_
  · exact Async.only_ite trivial trivial
  · exact Async.only_bind (only_lift _) fun _ => only_consume _

theorem only_abandon (input : RecoveryInput) :
    (abandon input : Program χ Unit).Only Call.plain := by
  refine Async.only_bind (only_lift _) fun normalized => Async.only_bind (only_lift _) fun _ => ?_
  refine Async.only_bind (only_ask trivial) fun found => ?_
  split
  · trivial
  · refine Async.only_bind (only_lift _) fun _ => Async.only_guard (Async.only_ite ?_ ?_)
    · exact Async.only_ite trivial trivial
    · refine Async.only_guard (Async.only_bind (only_ask trivial) fun now => ?_)
      refine Async.only_bind (only_ask trivial) fun changes => Async.only_ite trivial ?_
      refine Async.only_bind (only_ask trivial) fun observed => ?_
      split
      · trivial
      · exact Async.only_ite trivial trivial

theorem only_revoke (organizationId operationKey : String) :
    (revoke organizationId operationKey : Program χ Unit).Only Call.plain := by
  refine Async.only_bind (only_lift _) fun _ => Async.only_bind (only_lift _) fun _ => ?_
  refine Async.only_bind (only_ask trivial) fun now => ?_
  refine Async.only_bind (only_ask trivial) fun changes => Async.only_ite trivial ?_
  refine Async.only_bind (only_ask trivial) fun found => ?_
  split
  · trivial
  · exact Async.only_ite trivial trivial

/-! ### Every interleaving -/

/-- What an answer says of the tables. -/
def Ensured (P : Primitives κ χ) (K : Tables χ → Prop) : Answer → Tables χ → Prop
  | .claimed input claim, s => Delivered P K input claim s
  | _, _ => True

/-- A call whose answer says nothing. -/
theorem returns_answer {α : Type} {p : Program χ α} {f : α → Answer} (hs : Ledger P s) (hKs : K s)
    (hf : ∀ a t, Ensured P K (f a) t) (h : (contract P K).Returns n p (fun _ _ => True) s) :
    (contract P K).Returns n (do return f (← p)) (Ensured P K) s :=
  h.bind ⟨hs, hKs⟩ fun a t _ _ _ => Contract.returns_pure (hf a t)

theorem returns_body (hK : Goes K) (hs : Ledger P s) (hKs : K s) (request : Request κ) :
    (contract P K).Returns n (request.body P) (Ensured P K) s := by
  cases request with
  | prepare client input scope =>
    exact returns_answer hs hKs (fun _ _ => trivial) (returns_prepare hK hs hKs client input scope)
  | read _ _ scope =>
    exact returns_answer hs hKs (fun _ _ => trivial) (returns_read hK hs hKs _ _ scope)
  | pinPrepared input =>
    exact returns_answer hs hKs (fun _ _ => trivial) (returns_plain (only_pinPrepared input))
  | noEffect input generation =>
    have hplan : (contract P K).Returns n (noEffectRevocation input generation)
        (fun _ _ => True) s := returns_plain (only_noEffectRevocation input generation)
    refine hplan.bind ⟨hs, hKs⟩ fun statement t ht _ _ => ?_
    exact returns_answer ht.1 ht.2 (fun _ _ => trivial) (returns_plain (only_ask trivial))
  | claim client input =>
    exact (returns_claim hK hs hKs client input).bind ⟨hs, hKs⟩
      fun claim t _ _ hclaim => Contract.returns_pure hclaim
  | abort input =>
    exact returns_answer hs hKs (fun _ _ => trivial) (returns_plain (only_abort input))
  | dispatch input fence =>
    exact returns_answer hs hKs (fun _ _ => trivial) (returns_dispatch hK hs hKs input fence)
  | consume input =>
    exact returns_answer hs hKs (fun _ _ => trivial) (returns_plain (only_consume input))
  | recover =>
    refine returns_answer hs hKs (fun _ _ => trivial) (returns_plain ?_)
    exact Async.only_bind (only_lift _) fun _ =>
      Async.only_bind (only_readRecoveryRow _) fun _ => only_lift _
  | consumeRecovered input receiptDigest =>
    exact returns_answer hs hKs (fun _ _ => trivial)
      (returns_plain (only_consumeRecovered input receiptDigest))
  | abandon input =>
    exact returns_answer hs hKs (fun _ _ => trivial) (returns_plain (only_abandon input))
  | revoke =>
    exact returns_answer hs hKs (fun _ _ => trivial) (returns_plain (only_revoke _ _))
  | expireDue limit =>
    exact returns_answer hs hKs (fun _ _ => trivial) (returns_expireDue hK hs hKs limit)
  | host =>
    exact returns_answer hs hKs (fun _ _ => trivial) (returns_plain (only_ask trivial))

theorem ledger_init : Ledger P ({} : Tables χ) where
  keys := List.nodup_nil
  drawn := List.nodup_nil
  sealings := List.nodup_nil
  handoffs := List.nodup_nil
  logged _ h := absurd h List.not_mem_nil
  handed _ h := absurd h List.not_mem_nil
  known _ h := absurd h List.not_mem_nil
  erased _ h := absurd h List.not_mem_nil
  unclaimed _ h := absurd h List.not_mem_nil

/-- **Every call keeps the contract, in every interleaving.** -/
theorem upheld (hK : Goes K) {init : Tables χ} (hinit : Ledger P init) (hKinit : K init) :
    (contract P K).Upheld (Request.body P) init (fun _ _ => True)
      (fun _ r s => ∀ a, r = .ok a → Ensured P K a s) where
  init := ⟨hinit, hKinit⟩
  body request n s hs := returns_body hK hs.1 hs.2 request
  ended n r s s' hleads hr a ha := by
    have hensured := hr a ha
    cases a with
    | claimed => exact Delivered.leads hensured hleads
    | _ => trivial
  step S n w c x s' _ hc hinv hpre hrun := by
    have hwritten := written_runs hinv.1 (hpre n c hc) hrun
    have hafter := relies_after S.store w.elapsed
    have hleads := (hafter n).leads.trans hwritten.leads
    refine ⟨⟨hwritten.ledger (hinv.1.after _), hK _ _ hleads hinv.2⟩, hleads, ?_⟩
    intro m d hmn _
    have hrest := hwritten.relies (hinv.1.after _) hmn
    exact ⟨hleads, fun g hg => hrest.owns g ((hafter m).owns g hg)⟩

end Takoserver.RuntimeInputs
