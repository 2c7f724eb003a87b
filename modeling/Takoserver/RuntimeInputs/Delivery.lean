import Takoserver.RuntimeInputs.Retries

/-!
# Where the values of a preparation go

A claim returns what opens in the row that it checked, and that is what one preparation sealed, for
the apply whose commitment the row carries.  A generation is claimed for one handoff, and from its
dispatch on no claim finds it.
-/

namespace Takoserver.RuntimeInputs

variable {κ χ : Type} {P : Primitives κ χ} {s s' : Tables χ} {K : Tables χ → Prop}
  {S S' : Pool (Tables χ) (Program χ Answer)}

/-! ### What opens -/

variable {g : Nonce} {r : Row χ} {claim : Claim}

theorem validatedGeneration_ok {value : Option Nonce} (h : validatedGeneration value = .ok g) :
    value = some g := by
  cases value with
  | none => cases h
  | some v =>
    unfold validatedGeneration at h
    dsimp only at h
    split at h
    · cases h
      rfl
    · cases h

/-- What `decryptClaim` returns was opened, and read back for its row. -/
theorem decryptClaim_ok {client : Client κ} (h : decryptClaim P client r = .ok claim) :
    r.leaseGeneration = some claim.leaseGeneration ∧ ∃ payload key nonce aad plaintext,
      r.sealedPayload = some payload ∧ P.decrypt key nonce aad payload = some plaintext ∧
      parseSealedPayload r.applyCommitment r.canonicalPublicOrigin r.bindingNames plaintext =
        .ok claim.bindings := by
  unfold decryptClaim at h
  split at h
  · next payload nonce _ _ _ hpayload _ _ _ _ =>
    obtain ⟨-, h⟩ := guard_ok h
    split at h
    · cases h
    next key _ =>
    obtain ⟨aad, -, h⟩ := bind_ok h
    split at h
    · cases h
    · next plaintext hplaintext =>
      obtain ⟨g, hg, h⟩ := bind_ok h
      obtain ⟨_, hbindings, h⟩ := bind_ok h
      cases h
      exact ⟨validatedGeneration_ok hg, payload, key, nonce, aad, plaintext, hpayload,
        hplaintext, hbindings⟩
  · cases h

theorem boundTo_inj {a b : Handoff} (ha : r.boundTo a) (hb : r.boundTo b) : a = b := by
  obtain ⟨host, resource, space, worker, uid, bundle⟩ := ha
  obtain ⟨host', resource', space', worker', uid', bundle'⟩ := hb
  obtain ⟨_, _, _, _, _, _⟩ := a
  obtain ⟨_, _, _, _, _, _⟩ := b
  rw [host] at host'
  rw [resource] at resource'
  rw [space] at space'
  rw [worker] at worker'
  rw [uid] at uid'
  rw [bundle] at bundle'
  simp only [Option.some.injEq] at host' resource' space' worker' uid' bundle'
  simp only [host', resource', space', worker', uid', bundle']

theorem perm_of_validatedBindings {given out : List (String × String)} {names : List String}
    (h : validatedBindings (given.map fun b => (b.1, .str b.2)) = .ok (out, names)) :
    out.Perm given := by
  obtain ⟨hsorted, hmaps, hnodup, -, hitems⟩ := validatedBindings_ok h
  have hfst : (given.map fun b => (b.1, Json.str b.2)).map Prod.fst = given.map Prod.fst := by
    rw [List.map_map]
    rfl
  have hlength : out.length = given.length := by
    have hlen := (List.perm_insertionSort (· ≤ ·) (given.map Prod.fst)).length_eq
    rw [hfst] at hsorted
    rw [← List.length_map (f := Prod.fst), hmaps, hsorted]
    exact hlen.trans (List.length_map _)
  have hsubset : out ⊆ given := by
    intro b hb
    obtain ⟨hlookup, -⟩ := hitems b hb
    obtain ⟨l, _, hl, -⟩ := List.lookup_eq_some_iff.mp hlookup
    have hmem : (b.1, Json.str b.2) ∈ given.map fun b => (b.1, Json.str b.2) := by
      rw [hl]
      simp
    obtain ⟨b', hb', heq⟩ := List.mem_map.mp hmem
    simp only [Prod.mk.injEq, Json.str.injEq] at heq
    obtain rfl : b' = b := Prod.ext heq.1 heq.2
    exact hb'
  have hnodup' : out.Nodup := by
    rw [← hmaps] at hnodup
    exact hnodup.of_map
  exact (List.subperm_of_subset hnodup' hsubset).perm_of_length_le (Nat.le_of_eq hlength.symm)

/-! ### What a claim returns -/

/-- The values of one preparation, as a claim returns them. -/
structure Delivery (s : Tables χ) (input : ClaimInput) (claim : Claim) : Prop where
  preparation : ∃ preparation scope, (claim.leaseGeneration, preparation, scope) ∈ s.sealings ∧
    preparation.organizationId = input.organizationId ∧
    preparation.operationKey = input.operationKey ∧
    preparation.publicApply = input.publicApply ∧
    (∀ space, scope = some space → space = input.target.space) ∧
    claim.bindings.Perm preparation.bindings
  bindingNames : validatedBindingNames input.bindingNames = .ok (claim.bindings.map Prod.fst)
  handoff : (claim.leaseGeneration, input.handoff) ∈ s.handoffs

theorem delivery_of_delivered (hsha : Function.Injective P.sha256) (haead : P.Unforgeable)
    {input : ClaimInput} (h : Delivered P K input claim s) :
    Delivery s input claim := by
  obtain ⟨r, hwas, hstate, hdelivers⟩ := h
  obtain ⟨g, preparation, scope, _, p, hlogged, hnormalized, hsealed, hclaimed⟩ := hwas.known
  obtain ⟨_, hopened⟩ := hdelivers.opened
  obtain ⟨hgen, _, _, _, _, _, hpayload, hdecrypt, hparse⟩ :=
    decryptClaim_ok hopened
  obtain ⟨horg, hkey, hscope, hcommitment, hbindings⟩ := normalizePreparation_ok hnormalized
  -- the row is of the generation that the claim returns
  have hg : g = claim.leaseGeneration :=
    Option.some.inj (hsealed.leaseGeneration.symm.trans hgen)
  subst hg
  -- what opens is what was sealed
  obtain ⟨-, _, _, hsealedPayload⟩ := hsealed.material (Or.inr hstate)
  rw [hpayload, Option.some.injEq] at hsealedPayload
  subst hsealedPayload
  obtain ⟨-, -, -, rfl⟩ := haead _ _ _ _ _ _ _ _ hdecrypt
  have hagain := validatedBindings_again hbindings
  obtain ⟨hout, hnames, -⟩ := parse_sealedPayload hagain hparse
  have hmaps : p.bindings.map Prod.fst = p.bindingNames := (validatedBindings_ok hagain).2.1
  obtain ⟨_, hmem, hbound⟩ := hclaimed hstate
  obtain rfl := boundTo_inj hdelivers.bound hbound
  refine ⟨⟨preparation, scope, hlogged, ?_, ?_, ?_, ?_, ?_⟩, ?_, hmem⟩
  · rw [← horg, ← hsealed.organizationId, hdelivers.organizationId]
  · rw [← hkey, ← hsealed.operationKey, hdelivers.operationKey]
  · refine publicApply_of_commitment hsha hcommitment ?_
    rw [← hsealed.applyCommitment]
    exact hdelivers.commitment
  · intro space hspace
    have hrow := hsealed.space space (hscope.trans hspace)
    have htarget := hdelivers.bound.2.2.1
    rw [hrow, Option.some.injEq] at htarget
    exact htarget
  · rw [hout]
    exact perm_of_validatedBindings hbindings
  · rw [hout, hmaps, ← hnames]
    exact hdelivers.bindingNames

/-! ### After a dispatch -/

/-- The generation has been sealed, and no row of it is prepared or claimed. -/
def Spent (g : Nonce) (s : Tables χ) : Prop :=
  (∃ e ∈ s.sealings, e.1 = g) ∧ ∀ r ∈ s.rows, r.leaseGeneration = some g → ¬r.live

/-- A generation that is spent is spent for good. -/
theorem goes_spent (g : Nonce) : Goes (Spent g : Tables χ → Prop) := by
  rintro s _ hleads ⟨⟨e, he, rfl⟩, hdead⟩
  refine ⟨⟨e, hleads.sealings he, rfl⟩, fun r' hr' hgen hlive => ?_⟩
  rcases hleads.rows r' hr' with ⟨r, hr, hlater⟩ | hnew
  · exact hdead r hr (hlater.generation.symm.trans hgen) (hlater.live hlive)
  · exact hnew e he hgen

theorem spent_of_dispatched (hs : Ledger P s) (hr : r ∈ s.rows) (hstate : r.state = .dispatched)
    (hgen : r.leaseGeneration = some g) : Spent g s := by
  obtain ⟨e, he, hge⟩ := (hs.known r hr).generation
  refine ⟨⟨e, he, Option.some.inj (hge.symm.trans hgen)⟩, fun r' hr' hgen' hlive => ?_⟩
  rw [hs.eq_of_generation hr hr' (hgen'.trans hgen.symm)] at hlive
  rcases hlive with hlive | hlive <;>
  · rw [hstate] at hlive
    cases hlive

theorem ne_of_spent (h : (preparations P).Reachable S) (hspent : Spent g S.store)
    (hpath : (preparations P).Path S S') {n : ℕ} (hn : S.tasks.length ≤ n) {input : ClaimInput}
    (htask : S'.tasks[n]? = some (some (.pure (.claimed input claim)))) :
    claim.leaseGeneration ≠ g := by
  have hholds := holds_of_reachable h
  let Q : ℕ → Except Failure Answer → Tables χ → Prop := fun m r s =>
    S.tasks.length ≤ m → ∀ a, r = .ok a → Ensured P (Spent g) a s
  have hupheld : (contract P (Spent g)).Upheld (Request.body P) S.store (fun _ _ => True) Q := by
    have hbase := upheld (goes_spent g) hholds.inv.1 hspent (κ := κ)
    exact {
      init := hbase.init
      body := fun i m t ht => Contract.wp_mono (hbase.body i m t ht) ht fun _ _ _ _ hr _ => hr
      ended := fun m r t t' hleads hr hm => hbase.ended m r t t' hleads (hr hm)
      step := hbase.step }
  -- of the calls that were made before, nothing is asked
  have hS : (contract P (Spent g)).Holds Q S := by
    refine ⟨⟨hholds.inv.1, hspent⟩, fun m p hp => ?_⟩
    have hwp : (contract P (Spent g)).wp m p _ S.store :=
      Contract.wp_strengthen (C := contract P fun _ => True)
        (fun t ht => ⟨ht.1, trivial⟩) (fun _ _ h => h) (fun _ _ _ _ h => h) (fun _ _ _ h => h)
        (hholds.tasks m p hp)
    refine Contract.wp_mono hwp ⟨hholds.inv.1, hspent⟩ fun _ _ _ _ _ hm => ?_
    have hlt := (List.getElem?_eq_some_iff.mp hp).1
    omega
  have hdelivered : Delivered P (Spent g) input claim S'.store :=
    (hupheld.holds_path hS hpath).result htask hn _ rfl
  obtain ⟨r, ⟨t, -, ht, hr, -⟩, hstate, hdelivers⟩ := hdelivered
  obtain ⟨_, hopened⟩ := hdelivers.opened
  intro heq
  exact ht.2 r hr ((decryptClaim_ok hopened).1.trans (congrArg some heq)) (Or.inr hstate)

/-! ### Consuming -/

theorem mem_of_consume {n : ℕ} {w : Outside} {input : Consumption} {now : Instant}
    {x : Except Failure ℕ} (h : runs n (.consume input now) w s = some (x, s')) (hr : r ∈ s.rows)
    (hgen : r.leaseGeneration ≠ some input.leaseGeneration) : r ∈ s'.rows := by
  rcases runs_cases h with ⟨y, hexec, -⟩ | ⟨-, rfl⟩
  · obtain rfl := snd_of_some hexec
    unfold Tables.update
    split
    · refine Table.mem_update.mpr (Or.inl ⟨hr, decide_eq_false ?_⟩)
      exact fun hall => hgen hall.2.2.2.2.1
    · exact hr
  · exact hr

/-- **The values of a preparation reach only the apply that it committed to.** -/
theorem delivered_of_reachable (hsha : Function.Injective P.sha256) (haead : P.Unforgeable)
    (h : (preparations P).Reachable S) :
    -- a claim returns the values of one preparation, for its own key, names, apply and Space
    (∀ (n : ℕ) (input : ClaimInput) (claim : Claim),
      S.tasks[n]? = some (some (.pure (.claimed input claim))) →
      ∃ preparation scope, (claim.leaseGeneration, preparation, scope) ∈ S.store.sealings ∧
        preparation.organizationId = input.organizationId ∧
        preparation.operationKey = input.operationKey ∧
        preparation.publicApply = input.publicApply ∧
        (∀ space, scope = some space → space = input.target.space) ∧
        claim.bindings.Perm preparation.bindings ∧
        validatedBindingNames input.bindingNames = .ok (claim.bindings.map Prod.fst)) ∧
    (S.store.sealings.map Prod.fst).Nodup ∧
    -- all claims of one generation name one Host operation, Resource and target
    (∀ (m n : ℕ) (input input' : ClaimInput) (claim claim' : Claim),
      S.tasks[m]? = some (some (.pure (.claimed input claim))) →
      S.tasks[n]? = some (some (.pure (.claimed input' claim'))) →
      claim.leaseGeneration = claim'.leaseGeneration → input.handoff = input'.handoff) ∧
    -- sealed values are stored in prepared and claimed rows only
    (∀ r ∈ S.store.rows, r.sealedPayload.isSome = true → r.state = .prepared ∨ r.state = .claimed) ∧
    -- after a dispatch, no later claim returns the values
    (∀ r ∈ S.store.rows, ∀ g, r.state = .dispatched → r.leaseGeneration = some g →
      ∀ S', (preparations P).Path S S' → ∀ n, S.tasks.length ≤ n →
        ∀ (input : ClaimInput) (claim : Claim),
          S'.tasks[n]? = some (some (.pure (.claimed input claim))) → claim.leaseGeneration ≠ g) ∧
    -- a consumption changes no row of another generation
    ∀ (n : ℕ) (input : Consumption) (now : Instant) (w : Outside) (S' : Pool _ _),
      S.awaited? n = some (.consume input now) → (preparations P).next S (.step n w) = some S' →
      ∀ r ∈ S.store.rows, r.leaseGeneration ≠ some input.leaseGeneration → r ∈ S'.store.rows := by
  have hholds := holds_of_reachable h
  have hdelivery : ∀ (n : ℕ) (input : ClaimInput) (claim : Claim),
      S.tasks[n]? = some (some (.pure (.claimed input claim))) →
        Delivery S.store input claim := by
    intro n input claim htask
    have hensured : Ensured P (fun _ => True) (.claimed input claim) S.store :=
      hholds.result htask _ rfl
    exact delivery_of_delivered hsha haead hensured
  refine ⟨?_, hholds.inv.1.sealings, ?_, hholds.inv.1.erased, ?_, ?_⟩
  · intro n input claim htask
    have hd := hdelivery n input claim htask
    obtain ⟨preparation, scope, hlogged, horg, hkey, happly, hspace, hvalues⟩ := hd.preparation
    exact ⟨preparation, scope, hlogged, horg, hkey, happly, hspace, hvalues, hd.bindingNames⟩
  · intro m n input input' claim claim' hm hn hgen
    have hd := (hdelivery m input claim hm).handoff
    have hd' := (hdelivery n input' claim' hn).handoff
    exact congrArg Prod.snd (Table.eq_of_key hholds.inv.1.handoffs hd hd' hgen)
  · intro r hr g hstate hgen S' hpath n hn input claim htask
    exact ne_of_spent h (spent_of_dispatched hholds.inv.1 hr hstate hgen) hpath hn htask
  · intro n input now w S' hc hn r hr hgen
    rcases pool_next_cases hn with ⟨i, heq, -⟩ | ⟨n', _, c, k, x, _, heq, htask, hrun, rfl⟩ |
      ⟨n', heq, -⟩
    · cases heq
    · cases heq
      have hc' : S.awaited? n = some c := by simp [Pool.awaited?, htask, Async.awaited?]
      obtain rfl : c = .consume input now := Option.some.inj (hc'.symm.trans hc)
      exact mem_of_consume hrun hr hgen
    · cases heq

/-! ### A run -/

def someClaim : ClaimInput where
  organizationId := "org"
  operationKey := "operation"
  claimOwner := "host-operation"
  resourceUid := "version-uid"
  target := ⟨"space", "worker", "worker-uid", "bundle"⟩
  bindingNames := ["TOKEN"]
  publicApply := someApply

/-- The Worker is live, the values are prepared, and the apply that they were prepared for claims
them. -/
def claimActions : List (PoolAction (Request ℕ) Outside) :=
  [.start (.host { attestations := [⟨"org", "worker-uid", .live⟩] })] ++ proceeds 0 1 "" ++
  [.start (.prepare someClient someInput none)] ++ proceeds 1 4 "aaaaaaaaaaaaaaaa" ++
  [.start (.claim someClient someClaim)] ++ proceeds 2 4 ""

/-- A claim has been answered. -/
def isClaimed {χ : Type} : Option (Option (Program χ Answer)) → Bool
  | some (some (.pure (.claimed _ _))) => true
  | _ => false

theorem delivered_of_reachable_claimActions :
    ∃ (S : Pool (Tables _) (Program _ Answer)) (n : ℕ) (input : ClaimInput) (claim : Claim),
      (preparations somePrimitives).Reachable S ∧
      S.tasks[n]? = some (some (.pure (.claimed input claim))) ∧
      ∃ preparation scope, (claim.leaseGeneration, preparation, scope) ∈ S.store.sealings ∧
        preparation.publicApply = input.publicApply ∧
        claim.bindings.Perm preparation.bindings := by
  obtain ⟨S, hS, hp⟩ := Machine.exists_reachable_of_run (M := preparations somePrimitives)
    claimActions
    (fun S => isClaimed S.tasks[2]?) (by decide +kernel)
  unfold isClaimed at hp
  split at hp
  · next input claim htask =>
    obtain ⟨hvalues, -⟩ := delivered_of_reachable someSha256_injective somePrimitives_unforgeable hS
    obtain ⟨preparation, scope, hlogged, -, -, happly, -, hbindings, -⟩ := hvalues 2 input claim htask
    exact ⟨S, 2, input, claim, hS, htask, preparation, scope, hlogged, happly, hbindings⟩
  · cases hp

end Takoserver.RuntimeInputs
