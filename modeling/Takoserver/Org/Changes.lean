import Takoserver.Org.Kept

/-!
# What a call has changed

A client goes on with the call it was given.  A call that has changed the tables has
run one of its batches, so what every batch of the call leaves, and the growth of the
tables keeps, is there still.
-/

namespace Takoserver.Org

open Wallet (Instant)

/-! ### The call a client makes -/

/-- A call that has begun is the one the client was given. -/
theorem made_start {now : Instant} {call call' : Call} (h : (call.start now).made = some call') :
    call' = call := by
  have hstarts := call.starts now
  generalize call.start now = client at hstarts h
  cases hstarts with
  | wallet =>
    have hcaller : ∀ w : Wallet.Call, caller w.start = some w := by
      intro w
      unfold Wallet.Call.start
      cases w <;> simp only <;> split <;> rfl
    simp only [Client.made, hcaller, Option.map_some, Option.some.injEq] at h
    exact h.symm
  | _ => exact (Option.some.inj h).symm

/-! ### Runs -/

/-- What holds of a call when it begins, and is kept by its own steps and by the growth of the
tables, holds of every client. -/
theorem client_invariant {Q : Tables → Client → Prop} (hidle : ∀ t, Q t .idle)
    (hstart : ∀ t now call, Q t (Call.start now call))
    (hmono : ∀ client t t', Tables.Grows t t' → Q t client → Q t' client)
    (hstep : ∀ client t c, Kept t → Client.Fit client → t.Grows (client.step t c).2 → Q t client →
      Q (client.step t c).2 (client.step t c).1)
    {s : System} (h : orgs.Reachable s) : ∀ i, Q s.db (s.client i) := by
  refine Machine.Reachable.invariant (P := fun s : System => ∀ i, Q s.db (s.client i))
    (fun i => hidle _) (fun s a s' hr hs hn i => ?_) h
  have hkept := kept_of_reachable hr
  have hg := (hkept.next hn).2
  cases turn_of_next hn i with
  | call _ _ hclient => exact hclient ▸ hstart _ _ _
  | step c hclient hdb =>
    rw [hclient, hdb]
    exact hstep _ _ _ hkept.db (hkept.fit i) (hdb ▸ hg) (hs i)
  | crash hclient => exact hclient ▸ hidle _
  | rest hclient => exact hclient ▸ hmono _ _ _ hg (hs i)

/-! ### What a call has changed -/

/-- What every write of a call leaves, and the growth of the tables keeps, holds once the call
has changed anything. -/
theorem changed_of_reachable {P : Call → Tables → Prop} {Q : Tables → Client → Prop}
    (hQ : ∀ s, orgs.Reachable s → ∀ i, Q s.db (s.client i))
    (hmono : ∀ call t t', t.Grows t' → P call t → P call t')
    (hwrites : ∀ client call c t t', Client.made client = some call → Client.Fit client →
      Client.Knows t client → Q t client → Kept t → Writes c t client t' → t.Grows t' → P call t')
    {s : System} (h : orgs.Reachable s) :
    ∀ i call, (s.client i).made = some call → s.changes i ≠ 0 → P call s.db := by
  refine Machine.Reachable.invariant (P := fun s : System => ∀ i call,
    (s.client i).made = some call → s.changes i ≠ 0 → P call s.db)
    (fun i call hm => by cases hm) (fun s a s' hr hs hn => ?_) h
  have hkept := kept_of_reachable hr
  have hg := (hkept.next hn).2
  intro i call hmade hchanges
  cases turn_of_next hn i with
  | call _ _ _ _ hzero => exact absurd hzero hchanges
  | step c hclient hdb _ hcount =>
    rw [hclient, made_step (hkept.fit i)] at hmade
    rw [hcount] at hchanges
    split at hchanges
    · exact hmono _ _ _ hg (hs i call hmade hchanges)
    · next hne =>
      rcases writes_of_step (s.client i) s.db c with heq | hw
      · exact absurd (hdb.trans heq) hne
      · rw [← hdb] at hw
        exact hwrites _ _ _ _ _ hmade (hkept.fit i) (hkept.knows i) (hQ s hr i) hkept.db hw hg
  | crash hclient =>
    rw [hclient] at hmade
    cases hmade
  | rest hclient _ hcount =>
    rw [hclient] at hmade
    rw [hcount] at hchanges
    exact hmono _ _ _ hg (hs i call hmade hchanges)

end Takoserver.Org
