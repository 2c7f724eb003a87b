import Takoserver.Lib.Machine

/-!
# Asynchronous programs and their interleavings

An asynchronous program computes up to its next awaited call, and goes on with
what the call answers or throws.  Any number of them run at once, each in a
process of its own, against one store that changes only by the calls; a process
may stop while it awaits one.

What such a program does is stated against a contract: what the store satisfies
whenever a call runs, what a call needs, and what the others may do meanwhile.
-/

/-- A program that awaits calls `c : κ`, each of which answers a `ρ c` or throws. -/
inductive Async (κ : Type) (ρ : κ → Type) (ε : Type) (α : Type) : Type
  | pure (a : α)
  | throw (e : ε)
  | await (c : κ) (k : Except ε (ρ c) → Async κ ρ ε α)

namespace Async

variable {κ : Type} {ρ : κ → Type} {ε α β : Type}

/-- One program after another. -/
protected def bind : Async κ ρ ε α → (α → Async κ ρ ε β) → Async κ ρ ε β
  | .pure a, f => f a
  | .throw e, _ => .throw e
  | .await c k, f => .await c fun x => (k x).bind f

/-- What is thrown goes to the handler. -/
protected def tryCatch : Async κ ρ ε α → (ε → Async κ ρ ε α) → Async κ ρ ε α
  | .pure a, _ => .pure a
  | .throw e, handler => handler e
  | .await c k, handler => .await c fun x => (k x).tryCatch handler

instance : Monad (Async κ ρ ε) where
  pure := Async.pure
  bind := Async.bind

instance : MonadExceptOf ε (Async κ ρ ε) where
  throw := Async.throw
  tryCatch := Async.tryCatch

/-- Go on with what a call answered or threw. -/
def ofExcept : Except ε α → Async κ ρ ε α
  | .ok a => .pure a
  | .error e => .throw e

/-- A single call. -/
def call (c : κ) : Async κ ρ ε (ρ c) := .await c ofExcept

/-- The call a program awaits. -/
def awaited? : Async κ ρ ε α → Option κ
  | .await c _ => some c
  | _ => none

/-- Every call that the program may await is one of `q`. -/
def Only (q : κ → Prop) : Async κ ρ ε α → Prop
  | .pure _ => True
  | .throw _ => True
  | .await c k => q c ∧ ∀ x, (k x).Only q

section Only

variable {q : κ → Prop}

theorem only_pure (a : α) : (pure a : Async κ ρ ε α).Only q := trivial

theorem only_throw (e : ε) : (throw e : Async κ ρ ε α).Only q := trivial

theorem only_ofExcept (x : Except ε α) : (ofExcept x : Async κ ρ ε α).Only q := by
  cases x <;> trivial

theorem only_call {c : κ} (h : q c) : (call c : Async κ ρ ε (ρ c)).Only q :=
  ⟨h, fun x => only_ofExcept x⟩

theorem only_bind {p : Async κ ρ ε α} {f : α → Async κ ρ ε β} (hp : p.Only q)
    (hf : ∀ a, (f a).Only q) : (p >>= f).Only q := by
  induction p with
  | pure a => exact hf a
  | throw e => trivial
  | await c k ih => exact ⟨hp.1, fun x => ih x (hp.2 x)⟩

theorem only_tryCatch {p : Async κ ρ ε α} {handler : ε → Async κ ρ ε α} (hp : p.Only q)
    (hh : ∀ e, (handler e).Only q) : (tryCatch p handler).Only q := by
  induction p with
  | pure a => trivial
  | throw e => exact hh e
  | await c k ih => exact ⟨hp.1, fun x => ih x (hp.2 x)⟩

theorem only_ite {c : Prop} [Decidable c] {p r : Async κ ρ ε α} (hp : p.Only q)
    (hr : r.Only q) : (if c then p else r).Only q := by
  split
  · exact hp
  · exact hr

theorem only_guard {c : Prop} [Decidable c] {e : ε} {f : Unit → Async κ ρ ε α}
    (h : (f ()).Only q) : (if c then throw e >>= f else f ()).Only q :=
  only_ite trivial h

end Only

end Async

/-! ### Interleavings -/

/-- A store, and the processes; a process that stopped has no program left. -/
structure Pool (σ τ : Type) where
  store : σ
  tasks : List (Option τ) := []

/-- A program starts, makes its next call, or crashes. -/
inductive PoolAction (ι ω : Type)
  /-- A program starts, in a process of its own. -/
  | start (i : ι)
  /-- The call a process awaits runs. -/
  | step (n : ℕ) (w : ω)
  /-- A process stops while it awaits a call. -/
  | crash (n : ℕ)

section Pools

variable {κ : Type} {ρ : κ → Type} {ε α σ ω ι : Type}

/-- What a call of process `n` answers or throws in a circumstance, and the store it leaves;
`none` where the circumstance does not fit the store. -/
abbrev Runs (κ : Type) (ρ : κ → Type) (ε σ ω : Type) : Type :=
  ℕ → (c : κ) → ω → σ → Option (Except ε (ρ c) × σ)

/-- The call a process awaits. -/
def Pool.awaited? (s : Pool σ (Async κ ρ ε α)) (n : ℕ) : Option κ :=
  s.tasks[n]?.join.bind Async.awaited?

/-- The machine of all interleavings of any number of programs. -/
def pool (run : Runs κ ρ ε σ ω) (body : ι → Async κ ρ ε α) (init : σ) :
    Machine (Pool σ (Async κ ρ ε α)) (PoolAction ι ω) where
  init := { store := init }
  next s
    | .start i => some { s with tasks := s.tasks ++ [some (body i)] }
    | .step n w =>
      match s.tasks[n]? with
      | some (some (.await c k)) =>
        (run n c w s.store).map fun result =>
          { store := result.2, tasks := s.tasks.set n (some (k result.1)) }
      | _ => none
    | .crash n =>
      match s.tasks[n]? with
      | some (some (.await ..)) => some { s with tasks := s.tasks.set n none }
      | _ => none

variable {run : Runs κ ρ ε σ ω} {body : ι → Async κ ρ ε α} {init : σ}

theorem Pool.awaited?_eq_some {s : Pool σ (Async κ ρ ε α)} {n : ℕ} {c : κ}
    (h : s.awaited? n = some c) : ∃ k, s.tasks[n]? = some (some (.await c k)) := by
  unfold Pool.awaited? at h
  cases htask : s.tasks[n]? with
  | none => simp [htask] at h
  | some task =>
    cases task with
    | none => simp [htask] at h
    | some p =>
      cases p with
      | pure a => simp [htask, Async.awaited?] at h
      | throw e => simp [htask, Async.awaited?] at h
      | await c' k =>
        simp only [htask, Option.join_some, Option.bind_some, Async.awaited?,
          Option.some.injEq] at h
        subst h
        exact ⟨k, rfl⟩

/-- Everything a step of the pool does. -/
theorem pool_next_cases {s s' : Pool σ (Async κ ρ ε α)} {a : PoolAction ι ω}
    (h : (pool run body init).next s a = some s') :
    (∃ i, a = .start i ∧ s' = { s with tasks := s.tasks ++ [some (body i)] }) ∨
    (∃ n w c k x store, a = .step n w ∧ s.tasks[n]? = some (some (.await c k)) ∧
      run n c w s.store = some (x, store) ∧
      s' = { store, tasks := s.tasks.set n (some (k x)) }) ∨
    (∃ n, a = .crash n ∧ s' = { s with tasks := s.tasks.set n none }) := by
  cases a with
  | start i =>
    simp only [pool, Option.some.injEq] at h
    exact Or.inl ⟨i, rfl, h.symm⟩
  | step n w =>
    simp only [pool] at h
    split at h
    · next c k htask =>
      rw [Option.map_eq_some_iff] at h
      obtain ⟨⟨x, store⟩, hrun, rfl⟩ := h
      exact Or.inr (Or.inl ⟨n, w, c, k, x, store, rfl, htask, hrun, rfl⟩)
    · cases h
  | crash n =>
    simp only [pool] at h
    split at h
    · exact Or.inr (Or.inr ⟨n, rfl, (Option.some.inj h).symm⟩)
    · cases h

end Pools

/-! ### Contracts -/

/-- What the programs of a pool may rely on, and what they must keep. -/
structure Contract {κ : Type} {ρ : κ → Type} {ε σ ω : Type} (run : Runs κ ρ ε σ ω) where
  /-- What the store satisfies whenever a call runs. -/
  inv : σ → Prop
  /-- What becomes of the store, by any steps of anyone. -/
  leads : σ → σ → Prop
  /-- What becomes of it while process `n` awaits a call. -/
  rely : ℕ → κ → σ → σ → Prop
  /-- What a call of process `n` needs. -/
  pre : ℕ → κ → σ → Prop
  leads_refl : ∀ s, leads s s
  leads_trans : ∀ {s t u}, leads s t → leads t u → leads s u
  rely_refl : ∀ n c s, rely n c s s
  rely_trans : ∀ {n c s t u}, rely n c s t → rely n c t u → rely n c s u
  leads_of_rely : ∀ {n c s t}, rely n c s t → leads s t

namespace Contract

variable {κ : Type} {ρ : κ → Type} {ε σ ω ι α β : Type} {run : Runs κ ρ ε σ ω}
  (C : Contract run) (n : ℕ)

/-- From `s` on, the program ends with `Q`, and each of its calls runs where it may. -/
def wp : Async κ ρ ε α → (Except ε α → σ → Prop) → σ → Prop
  | .pure a, Q, s => Q (.ok a) s
  | .throw e, Q, s => Q (.error e) s
  | .await c k, Q, s => ∀ s', C.rely n c s s' → C.inv s' → C.pre n c s' ∧
      ∀ w x s'', run n c w s' = some (x, s'') → C.inv s'' → C.leads s' s'' → wp (k x) Q s''

variable {C n} {p : Async κ ρ ε α} {s s' : σ} {Q Q' : Except ε α → σ → Prop}

/-- A sequence is proved part by part. -/
theorem wp_bind {f : α → Async κ ρ ε β} {Q : Except ε β → σ → Prop} :
    C.wp n (p >>= f) Q s ↔ C.wp n p (fun
      | .ok a, s' => C.wp n (f a) Q s'
      | .error e, s' => Q (.error e) s') s := by
  induction p generalizing s with
  | pure a => exact Iff.rfl
  | throw e => exact Iff.rfl
  | await c k ih =>
    refine forall_congr' fun s' => forall_congr' fun _ => forall_congr' fun _ => ?_
    refine and_congr_right fun _ => forall_congr' fun w => forall_congr' fun x => ?_
    exact forall_congr' fun s'' => forall_congr' fun _ => forall_congr' fun _ =>
      forall_congr' fun _ => ih x

theorem wp_tryCatch {handler : ε → Async κ ρ ε α} :
    C.wp n (tryCatch p handler) Q s ↔ C.wp n p (fun
      | .ok a, s' => Q (.ok a) s'
      | .error e, s' => C.wp n (handler e) Q s') s := by
  induction p generalizing s with
  | pure a => exact Iff.rfl
  | throw e => exact Iff.rfl
  | await c k ih =>
    refine forall_congr' fun s' => forall_congr' fun _ => forall_congr' fun _ => ?_
    refine and_congr_right fun _ => forall_congr' fun w => forall_congr' fun x => ?_
    exact forall_congr' fun s'' => forall_congr' fun _ => forall_congr' fun _ =>
      forall_congr' fun _ => ih x

/-- What a program ends with may be weakened by all that is known of the store then. -/
theorem wp_mono (h : C.wp n p Q s) (hs : C.inv s)
    (hQ : ∀ r s', C.inv s' → C.leads s s' → Q r s' → Q' r s') : C.wp n p Q' s := by
  induction p generalizing s with
  | pure a => exact hQ _ s hs (C.leads_refl s) h
  | throw e => exact hQ _ s hs (C.leads_refl s) h
  | await c k ih =>
    intro s' hrely hinv
    obtain ⟨hpre, hrest⟩ := h s' hrely hinv
    refine ⟨hpre, fun w x s'' hrun hinv' hleads => ?_⟩
    have hto : C.leads s s'' := C.leads_trans (C.leads_of_rely hrely) hleads
    exact ih x (hrest w x s'' hrun hinv' hleads) hinv' fun r t ht hst =>
      hQ r t ht (C.leads_trans hto hst)

theorem wp_call {c : κ} {Q : Except ε (ρ c) → σ → Prop}
    (h : ∀ s', C.rely n c s s' → C.inv s' → C.pre n c s' ∧
      ∀ w x s'', run n c w s' = some (x, s'') → C.inv s'' → C.leads s' s'' → Q x s'') :
    C.wp n (.call c) Q s := by
  intro s' hrely hinv
  obtain ⟨hpre, hrest⟩ := h s' hrely hinv
  refine ⟨hpre, fun w x s'' hrun hinv' hleads => ?_⟩
  have := hrest w x s'' hrun hinv' hleads
  cases x with
  | ok a => exact this
  | error e => exact this

theorem wp_rely {c : κ} {k : Except ε (ρ c) → Async κ ρ ε α} (h : C.wp n (.await c k) Q s)
    (hrely : C.rely n c s s') : C.wp n (.await c k) Q s' :=
  fun t ht hinv => h t (C.rely_trans hrely ht) hinv

/-! ### What a program that returns has ensured -/

variable (C n) in
/-- Where the program returns, it has ensured `P`. -/
def Returns (p : Async κ ρ ε α) (P : α → σ → Prop) (s : σ) : Prop :=
  C.wp n p (fun r s' => ∀ a, r = .ok a → P a s') s

variable {P P' : α → σ → Prop}

theorem returns_pure {a : α} (h : P a s) : C.Returns n (pure a) P s := by
  intro b hb
  cases hb
  exact h

theorem returns_throw {e : ε} : C.Returns n (throw e) P s := by
  intro b hb
  cases hb

theorem Returns.mono (h : C.Returns n p P s) (hs : C.inv s)
    (hP : ∀ a s', C.inv s' → C.leads s s' → P a s' → P' a s') : C.Returns n p P' s :=
  wp_mono h hs fun _ s' hinv hleads hr a ha => hP a s' hinv hleads (hr a ha)

theorem Returns.bind {f : α → Async κ ρ ε β} {R : β → σ → Prop} (h : C.Returns n p P s)
    (hs : C.inv s)
    (hf : ∀ a s', C.inv s' → C.leads s s' → P a s' → C.Returns n (f a) R s') :
    C.Returns n (p >>= f) R s := by
  refine wp_bind.mpr (wp_mono h hs fun r s' hinv hleads hr => ?_)
  cases r with
  | ok a => exact hf a s' hinv hleads (hr a rfl)
  | error e =>
    intro b hb
    cases hb

theorem Returns.tryCatch {handler : ε → Async κ ρ ε α} (h : C.Returns n p P s) (hs : C.inv s)
    (hhandler : ∀ e s', C.inv s' → C.leads s s' → C.Returns n (handler e) P s') :
    C.Returns n (tryCatch p handler) P s := by
  refine wp_tryCatch.mpr (wp_mono h hs fun r s' hinv hleads hr => ?_)
  cases r with
  | ok a =>
    intro b hb
    cases hb
    exact hr a rfl
  | error e => exact hhandler e s' hinv hleads

theorem returns_call {c : κ} {P : ρ c → σ → Prop}
    (h : ∀ s', C.rely n c s s' → C.inv s' → C.pre n c s' ∧
      ∀ w a s'', run n c w s' = some (.ok a, s'') → C.inv s'' → C.leads s' s'' → P a s'') :
    C.Returns n (.call c) P s := by
  refine wp_call fun s' hrely hinv => ?_
  obtain ⟨hpre, hrest⟩ := h s' hrely hinv
  refine ⟨hpre, fun w x s'' hrun hinv' hleads a ha => ?_⟩
  subst ha
  exact hrest w a s'' hrun hinv' hleads

theorem Returns.map {f : α → β} {R : β → σ → Prop} (h : C.Returns n p P s) (hs : C.inv s)
    (hf : ∀ a s', C.inv s' → C.leads s s' → P a s' → R (f a) s') : C.Returns n (f <$> p) R s :=
  h.bind hs fun a s' hinv hleads ha => returns_pure (hf a s' hinv hleads ha)

theorem returns_ofExcept {x : Except ε α} (h : ∀ a, x = .ok a → P a s) :
    C.Returns n (.ofExcept x) P s := by
  cases x with
  | ok a => exact returns_pure (h a rfl)
  | error e => exact returns_throw

/-- A check that passes goes on with what it answers, and nothing has happened meanwhile. -/
theorem returns_ofExcept_bind {x : Except ε β} {f : β → Async κ ρ ε α}
    (h : ∀ b, x = .ok b → C.Returns n (f b) P s) : C.Returns n (.ofExcept x >>= f) P s := by
  cases x with
  | ok b => exact h b rfl
  | error e => exact returns_throw

theorem returns_guard {q : Prop} [Decidable q] {e : ε} {f : Unit → Async κ ρ ε α}
    (h : ¬q → C.Returns n (f ()) P s) :
    C.Returns n (if q then throw e >>= f else f ()) P s := by
  split
  · exact returns_throw
  · next hq => exact h hq

theorem returns_only {q : κ → Prop} (hp : p.Only q) (hq : ∀ c s, q c → C.pre n c s) :
    C.Returns n p (fun _ _ => True) s := by
  induction p generalizing s with
  | pure a => exact fun _ _ => trivial
  | throw e => exact fun _ _ => trivial
  | await c k ih =>
    exact fun s' _ _ => ⟨hq c s' hp.1, fun w x s'' _ _ _ => ih x (hp.2 x)⟩

/-! ### Stores that only grow -/

section Growing

variable {inv : σ → Prop} {leads : σ → σ → Prop} {refl : ∀ s, leads s s}
  {trans : ∀ {s t u}, leads s t → leads t u → leads s u}

/-- The contract of a store whose invariant every call keeps, and that everyone may lead on. -/
def growing (run : Runs κ ρ ε σ ω) (inv : σ → Prop) (leads : σ → σ → Prop)
    (refl : ∀ s, leads s s) (trans : ∀ {s t u}, leads s t → leads t u → leads s u) :
    Contract run where
  inv := inv
  leads := leads
  rely _ _ := leads
  pre _ _ _ := True
  leads_refl := refl
  leads_trans := trans
  rely_refl _ _ := refl
  rely_trans := trans
  leads_of_rely h := h

/-- Of what it returns nothing need be known. -/
theorem returns_growing : (growing run inv leads refl trans).Returns n p (fun _ _ => True) s := by
  induction p generalizing s with
  | pure a => exact fun _ _ => trivial
  | throw e => exact fun _ _ => trivial
  | await c k ih => exact fun s' _ _ => ⟨trivial, fun w x s'' _ _ _ => ih x⟩

end Growing

/-! ### Contracts of stronger invariants -/

theorem wp_strengthen {C' : Contract run} (hinv : ∀ s, C'.inv s → C.inv s)
    (hleads : ∀ s t, C'.leads s t → C.leads s t)
    (hrely : ∀ n c s t, C'.rely n c s t → C.rely n c s t)
    (hpre : ∀ n c s, C.pre n c s → C'.pre n c s) (h : C.wp n p Q s) : C'.wp n p Q s := by
  induction p generalizing s with
  | pure a => exact h
  | throw e => exact h
  | await c k ih =>
    intro s' hs' hinv'
    obtain ⟨hneeds, hrest⟩ := h s' (hrely n c s s' hs') (hinv s' hinv')
    exact ⟨hpre n c s' hneeds, fun w x s'' hrun hinv'' hto =>
      ih x (hrest w x s'' hrun (hinv s'' hinv'') (hleads s' s'' hto))⟩

/-! ### Every interleaving -/

/-- The permitted steps of a pool keep a contract, and its programs meet it. -/
structure Upheld (C : Contract run) (body : ι → Async κ ρ ε α) (init : σ)
    (ok : Pool σ (Async κ ρ ε α) → PoolAction ι ω → Prop) (Q : ℕ → Except ε α → σ → Prop) :
    Prop where
  init : C.inv init
  body : ∀ i n s, C.inv s → C.wp n (body i) (Q n) s
  ended : ∀ n r s s', C.leads s s' → Q n r s → Q n r s'
  step : ∀ S n w c x s', ok S (.step n w) → S.awaited? n = some c → C.inv S.store →
    (∀ m d, S.awaited? m = some d → C.pre m d S.store) → run n c w S.store = some (x, s') →
    C.inv s' ∧ C.leads S.store s' ∧
      ∀ m d, m ≠ n → S.awaited? m = some d → C.rely m d S.store s'

/-- What holds of a pool between any two of its steps. -/
structure Holds (C : Contract run) (Q : ℕ → Except ε α → σ → Prop)
    (S : Pool σ (Async κ ρ ε α)) : Prop where
  inv : C.inv S.store
  tasks : ∀ (n : ℕ) (p : Async κ ρ ε α), S.tasks[n]? = some (some p) → C.wp n p (Q n) S.store

variable {R : ℕ → Except ε α → σ → Prop}

theorem Holds.pre {S : Pool σ (Async κ ρ ε α)} (h : C.Holds R S) {m : ℕ} {d : κ}
    (hm : S.awaited? m = some d) : C.pre m d S.store := by
  obtain ⟨k, htask⟩ := Pool.awaited?_eq_some hm
  exact (h.tasks m _ htask S.store (C.rely_refl m d S.store) h.inv).1

/-- What a program ended with still holds. -/
theorem Holds.result {S : Pool σ (Async κ ρ ε α)} (h : C.Holds R S) {m : ℕ} {a : α}
    (hm : S.tasks[m]? = some (some (.pure a))) : R m (.ok a) S.store :=
  h.tasks m _ hm

namespace Upheld

variable {body : ι → Async κ ρ ε α} {init : σ}
  {ok : Pool σ (Async κ ρ ε α) → PoolAction ι ω → Prop} {S S' : Pool σ (Async κ ρ ε α)}
  {a : PoolAction ι ω}

section

variable (h : C.Upheld body init ok R)

include h

theorem leads_next (hS : C.Holds R S) (hok : ok S a)
    (hnext : (pool run body init).next S a = some S') : C.leads S.store S'.store := by
  rcases pool_next_cases hnext with ⟨i, -, rfl⟩ | ⟨n, w, c, k, x, store, rfl, htask, hrun, rfl⟩ |
    ⟨n, -, rfl⟩
  · exact C.leads_refl _
  · have hc : S.awaited? n = some c := by simp [Pool.awaited?, htask, Async.awaited?]
    exact (h.step S n w c x store hok hc hS.inv (fun _ _ => hS.pre) hrun).2.1
  · exact C.leads_refl _

theorem holds_next (hS : C.Holds R S) (hok : ok S a)
    (hnext : (pool run body init).next S a = some S') : C.Holds R S' := by
  rcases pool_next_cases hnext with ⟨i, -, rfl⟩ | ⟨n, w, c, k, x, store, rfl, htask, hrun, rfl⟩ |
    ⟨n, -, rfl⟩
  · refine ⟨hS.inv, fun m p hp => ?_⟩
    rw [List.getElem?_append] at hp
    split at hp
    · exact hS.tasks m p hp
    · have hbody := h.body i m S.store hS.inv
      rw [List.getElem?_singleton] at hp
      split at hp
      · cases hp
        exact hbody
      · cases hp
  · have hc : S.awaited? n = some c := by simp [Pool.awaited?, htask, Async.awaited?]
    obtain ⟨hinv, hleads, hothers⟩ :=
      h.step S n w c x store hok hc hS.inv (fun _ _ => hS.pre) hrun
    refine ⟨hinv, fun m p hp => ?_⟩
    by_cases hmn : n = m
    · subst hmn
      rw [List.getElem?_set_self (List.getElem?_eq_some_iff.mp htask).1] at hp
      cases hp
      exact (hS.tasks n _ htask S.store (C.rely_refl n c S.store) hS.inv).2 w x store hrun hinv
        hleads
    · rw [List.getElem?_set_ne hmn] at hp
      cases p with
      | pure b => exact h.ended m _ _ _ hleads (hS.tasks m _ hp)
      | throw e => exact h.ended m _ _ _ hleads (hS.tasks m _ hp)
      | await d k' =>
        have hd : S.awaited? m = some d := by simp [Pool.awaited?, hp, Async.awaited?]
        exact wp_rely (hS.tasks m _ hp) (hothers m d (Ne.symm hmn) hd)
  · refine ⟨hS.inv, fun m p hp => ?_⟩
    by_cases hmn : n = m
    · subst hmn
      rw [List.getElem?_set] at hp
      simp only [if_true] at hp
      split at hp <;> cases hp
    · rw [List.getElem?_set_ne hmn] at hp
      exact hS.tasks m p hp

/-- **The rule for interleavings.** -/
theorem holds (hS : (pool run body init).ReachVia ok S) :
    C.Holds R S := by
  refine Machine.ReachVia.invariant (P := C.Holds R) ?_ ?_ hS
  · refine ⟨h.init, fun n p hp => ?_⟩
    simp [pool] at hp
  · intro s a s' hs hok hnext
    exact h.holds_next hs hok hnext

theorem holds_path (hS : C.Holds R S) (hpath : (pool run body init).PathVia ok S S')
    : C.Holds R S' :=
  Machine.PathVia.invariant (fun _ _ _ hs hok hnext => h.holds_next hs hok hnext) hpath hS

theorem leads (hS : (pool run body init).ReachVia ok S)
    (hpath : (pool run body init).PathVia ok S S') : C.leads S.store S'.store := by
  have key : C.Holds R S' ∧ C.leads S.store S'.store := by
    refine Machine.PathVia.invariant (P := fun T => C.Holds R T ∧ C.leads S.store T.store) ?_ hpath
      ⟨h.holds hS, C.leads_refl _⟩
    rintro s a _ ⟨hs, hto⟩ hok hnext
    exact ⟨h.holds_next hs hok hnext, C.leads_trans hto (h.leads_next hs hok hnext)⟩
  exact key.2

end

end Upheld

/-- Programs over a store that only grows: what each of them returns holds from then on. -/
theorem upheld_growing {body : ι → Async κ ρ ε α} {init : σ} {inv : σ → Prop}
    {leads : σ → σ → Prop} {refl : ∀ s, leads s s}
    {trans : ∀ {s t u}, leads s t → leads t u → leads s u} {P : ℕ → α → σ → Prop}
    (hinit : inv init)
    (hbody : ∀ i n s, inv s → (growing run inv leads refl trans).Returns n (body i) (P n) s)
    (hended : ∀ n a s s', leads s s' → P n a s → P n a s')
    (hstep : ∀ n c w s x s', inv s → run n c w s = some (x, s') → inv s' ∧ leads s s') :
    (growing run inv leads refl trans).Upheld body init (fun _ _ => True)
      (fun n r s => ∀ a, r = .ok a → P n a s) where
  init := hinit
  body := hbody
  ended n r s s' hleads h a ha := hended n a s s' hleads (h a ha)
  step S n w c x s' _ _ hinv _ hrun := by
    obtain ⟨hinv', hleads⟩ := hstep n c w S.store x s' hinv hrun
    exact ⟨hinv', hleads, fun _ _ _ _ => hleads⟩

end Contract
