import Takoserver.Org.Changes

/-!
# How calls on holds are answered

`close` plans from a row it read before its batch, and where the batch failed the call
is answered from the row another call left.  What each such call knows of its row while
it goes on makes its answer the row of its own reference and signature; and a call made
when the row was closed already is answered with that row.
-/

namespace Takoserver.Org

open Wallet (Instant)

variable {t t' : Tables} {c : Circumstance}

/-! ### Rows and answers -/

/-- The row is one a call of `call` closes. -/
def Call.About (call : Call) (row : Hold) : Prop :=
  match call with
  | .hold x => row.key = (x.org, x.reference) ∧ row.fingerprint = some x.signature
  | .capture x => row.key = (x.org, x.reference)
  | .readHold org ref | .release org ref => row.key = (org, ref)
  | _ => True

/-- The row is one `call` may be answered with. -/
def Call.Answer (call : Call) (row : Hold) : Prop :=
  call.About row ∧
    match call with
    | .capture x => row.state ≠ .live ∧ row.captureFingerprint = some x.signature
    | .release _ _ => row.state ≠ .live
    | _ => True

variable {call : Call} {r row : Hold} {rest : List Hold} {refuses : Bool} {x : Closing}
  {client : Client} {s : System}

theorem Call.About.evolve {h : Hold} (ha : call.About h) (he : h.Evolves r) :
    call.About r := by
  have hkey := he.key
  have hf := he.fingerprint
  cases call with
  | hold x => exact ⟨hkey.trans ha.1, hf.trans ha.2⟩
  | capture x => exact hkey.trans ha
  | readHold org ref | release org ref => exact hkey.trans ha
  | _ => exact trivial

/-- What a call that closes holds knows of the rows it closes. -/
structure Call.Settling (call : Call) (t : Tables) (rest : List Hold) (refuses : Bool)
    (x : Closing) : Prop where
  live : x.row.state = .live
  known : t.KnowsHold x.row
  about : call.About x.row
  others : ∀ h ∈ rest, h.state = .live ∧ t.KnowsHold h
  /-- Only a sweep closes several. -/
  alone : (∃ limit org, call = .expireDue limit org) ∨ rest = []
  capture : ∀ y, call = .capture y →
    (x.captureFingerprint = some y.signature ∧ refuses = false) ∨
      (x.captureFingerprint = none ∧ refuses = true ∧ x.state = .expired)
  other : (∀ y, call ≠ .capture y) → x.captureFingerprint = none ∧ refuses = false

/-- What a call on holds knows of its rows. -/
def Client.Settles (t : Tables) : Client → Prop
  | .closing call rest refuses x stage =>
      call.Settling t rest refuses x ∧
        match stage with
        | .readBack => ∃ r ∈ t.holds, x.row.ClosesTo r ∧ r.captureFingerprint = x.captureFingerprint
        | _ => True
  | .holding x _ .readBack => ∃ r ∈ t.holds, (Call.hold x).About r
  | .finished call (.hold row) => call.Answer row ∧ t.KnowsHold row
  | _ => True

theorem Call.Settling.mono (h : call.Settling t rest refuses x) (hg : t.Grows t') :
    call.Settling t' rest refuses x :=
  ⟨h.live, h.known.mono hg, h.about, fun r hr => ⟨(h.others r hr).1, (h.others r hr).2.mono hg⟩,
    h.alone, h.capture, h.other⟩

/-- A closed row is there still. -/
theorem Tables.Grows.mem_of_closed (hg : t.Grows t') (hr : r ∈ t.holds) (hclosed : r.state ≠ .live) :
    r ∈ t'.holds := by
  obtain ⟨_, hr', he⟩ := hg.holds r hr
  rwa [he.eq_of_closed hclosed] at hr'

theorem Client.Settles.mono (h : client.Settles t) (hg : t.Grows t') :
    client.Settles t' := by
  cases client with
  | closing _ _ _ _ stage =>
    refine ⟨h.1.mono hg, ?_⟩
    cases stage with
    | readBack =>
      obtain ⟨r, hr, hc, hf⟩ := h.2
      exact ⟨r, hg.mem_of_closed hr hc.closed, hc, hf⟩
    | _ => exact trivial
  | holding _ _ stage =>
    cases stage with
    | readBack =>
      obtain ⟨r, hr, ha⟩ := h
      obtain ⟨r', hr', he⟩ := hg.holds r hr
      exact ⟨r', hr', ha.evolve he⟩
    | _ => exact trivial
  | finished call reply =>
    cases reply with
    | hold => exact ⟨h.1, h.2.mono hg⟩
    | _ => exact trivial
  | _ => exact trivial

/-! ### One statement -/

theorem settles_throws (call : Call) (code : ErrorCode) : (call.throws code).Settles t := trivial

theorem settling_of_live (hlive : x.row.state = .live) (hmem : x.row ∈ t.holds)
    (habout : call.About x.row)
    (hcapture : ∀ y, call = .capture y → x.captureFingerprint = some y.signature)
    (hother : (∀ y, call ≠ .capture y) → x.captureFingerprint = none) :
    (Client.closing call [] false x .opened).Settles t :=
  ⟨⟨hlive, ⟨_, hmem, .refl _⟩, habout, by simp, Or.inr rfl,
    fun y hy => Or.inl ⟨hcapture y hy, rfl⟩, fun hne => ⟨hother hne, rfl⟩⟩, trivial⟩

theorem settles_current (hmem : row ∈ t.holds) (habout : call.About row)
    (hne : ∀ y, call ≠ .capture y) (hanswer : call.Answer row) (now : Instant) :
    (current call now row).Settles t := by
  unfold current
  split
  · next hlive =>
    exact settling_of_live (x := .expiry row) hlive.1 hmem habout
      (fun y hy => absurd hy (hne y)) fun _ => rfl
  · exact ⟨hanswer, row, hmem, .refl row⟩

theorem Call.Settling.closed (h : call.Settling t rest refuses x) (hmem : row ∈ t.holds)
    (hanswer : refuses = false → call.Answer row) : (call.closed refuses row rest).Settles t := by
  rcases call.closed_cases refuses row rest with ⟨next, _, rfl, heq⟩ | ⟨-, heq⟩ | ⟨hr, heq | heq⟩
  · rw [heq]
    obtain ⟨limit, org, rfl⟩ | hnil := h.alone
    · have hnext := h.others next List.mem_cons_self
      exact ⟨⟨hnext.1, hnext.2, trivial, fun r hr => h.others r (List.mem_cons_of_mem _ hr),
        Or.inl ⟨limit, org, rfl⟩, fun y hy => (by cases hy), fun _ => ⟨rfl, rfl⟩⟩, trivial⟩
    · cases hnil
  · rw [heq]
    exact settles_throws call _
  · rw [heq]
    exact trivial
  · rw [heq]
    exact ⟨hanswer hr, row, hmem, .refl row⟩

theorem Call.Settling.answer (h : call.Settling t rest refuses x) (he : x.row.Evolves row)
    (hclosed : row.state ≠ .live)
    (hf : ∀ f, x.captureFingerprint = some f → row.captureFingerprint = some f)
    (hr : refuses = false) : call.Answer row := by
  refine ⟨h.about.evolve he, ?_⟩
  cases call with
  | capture y =>
    rcases h.capture y rfl with ⟨hsig, -⟩ | ⟨-, hrefuses, -⟩
    · exact ⟨hclosed, hf _ hsig⟩
    · rw [hr] at hrefuses
      cases hrefuses
  | release => exact hclosed
  | _ => exact trivial

theorem Closing.settles_step (hk : Kept t) {stage : CloseStage x.captured} (hv : x.Valid)
    (h : (Client.closing call rest refuses x stage).Settles t)
    (hg : t.Grows (x.step call rest refuses t c stage).2) :
    (x.step call rest refuses t c stage).1.Settles (x.step call rest refuses t c stage).2 := by
  obtain ⟨hs, hstage⟩ := h
  -- the row under the key is the one read, as it is by now
  have hrow : ∀ {row : Hold}, t.held x.row.org x.row.ref = some row →
      row ∈ t.holds ∧ x.row.Evolves row := by
    intro row hrow
    obtain ⟨hmem, hkey⟩ := hk.holds.held_iff.mp hrow
    obtain ⟨r, hr, he⟩ := hs.known
    obtain rfl := Table.eq_of_key hk.holds.rows.keys hmem hr (hkey.trans he.key.symm)
    exact ⟨hmem, he⟩
  cases stage with
  | opened => exact ⟨hs, trivial⟩
  | allocations =>
    simp only [Closing.step]
    split
    · exact ⟨hs, trivial⟩
    · exact settles_throws call _
  | committing instant selection =>
    cases hb : x.batch instant selection.picks c t with
    | none =>
      simp only [Closing.step, hb]
      exact ⟨hs, trivial⟩
    | some t' =>
      simp only [Closing.step, hb] at hg ⊢
      refine ⟨hs.mono hg, ?_⟩
      split
      · next heq =>
        -- the row it closed is the one it read
        obtain ⟨⟨r, hr, hkey, hlive, htime⟩, -, -, -, rfl, -⟩ :=
          Closing.batch_cases hb hk.holds.allocation_keys
        obtain ⟨_, hr', he⟩ := hs.known
        obtain rfl := Table.eq_of_key hk.holds.rows.keys hr hr' (hkey.trans he.key.symm)
        have hsame : r = x.row := by
          rcases he with heq | hc
          · exact heq
          · exact absurd hlive hc.closed
        refine ⟨x.closed instant r, ?_, ?_, rfl⟩
        · have hmem := Table.mem_update_of_mem
            (p := fun r => decide (r.key = x.row.key ∧ r.state = .live) && x.inTime instant r)
            (f := x.closed instant) hr
          rwa [if_pos (by simp [hkey, hlive, htime])] at hmem
        · rw [← hsame]
          exact Closing.closesTo_closed hv hlive
      · exact trivial
  | readBack =>
    obtain ⟨r, hr, hc, hf⟩ := hstage
    simp only [Closing.step]
    split
    · next hheld =>
      obtain ⟨hmem, he⟩ := hrow hheld
      obtain rfl := Table.eq_of_key hk.holds.rows.keys hmem hr (he.key.trans hc.key.symm)
      exact hs.closed hmem fun href =>
        hs.answer he hc.closed (fun f hx => hf.trans hx) href
    · exact settles_throws call _
  | closedBy =>
    simp only [Closing.step]
    unfold Call.closedBy
    split
    · exact settles_throws call _
    next row hheld =>
    obtain ⟨hmem, he⟩ := hrow hheld
    split
    · next hclosed =>
      split
      · next hnone =>
        exact hs.closed hmem fun href =>
          hs.answer he hclosed (fun f hx => by rw [hnone] at hx; cases hx) href
      next hsome =>
      split
      · exact settles_throws call _
      · split
        · exact settles_throws call _
        · next hsame =>
          refine hs.closed hmem fun href => hs.answer he hclosed (fun f' hx => ?_) href
          rw [hsome] at hx
          rw [← hx]
          exact not_not.mp hsame
    · next hlive =>
      split
      · next hpast =>
        -- past the deadline the hold is closed as expired
        refine ⟨⟨not_not.mp hlive, ⟨row, hmem, .refl row⟩, hs.about.evolve he, hs.others, hs.alone,
          fun y hy => ?_, fun hne => ⟨rfl, ?_⟩⟩, trivial⟩
        · rcases hs.capture y hy with ⟨hsig, -⟩ | ⟨-, -, hexp⟩
          · exact Or.inr ⟨rfl, by rw [hsig]; rfl, rfl⟩
          · exact absurd hexp hpast.1
        · rw [(hs.other hne).1]
          rfl
      · exact settles_throws call _

theorem settles_replay (hk : Kept t) {x : HoldInput} (hheld : t.held x.org x.reference = some row)
    (now : Instant) : (x.replay now row).Settles t := by
  obtain ⟨hmem, hkey⟩ := hk.holds.held_iff.mp hheld
  unfold HoldInput.replay
  split
  · exact settles_throws _ _
  · next hf =>
    have habout : (Call.hold x).About row := ⟨hkey, not_not.mp hf⟩
    exact settles_current hmem habout (fun y => by simp) ⟨habout, trivial⟩ now

theorem HoldInput.settles_step (hk : Kept t) {x : HoldInput} {attempted : Bool}
    {stage : HoldStage x.amountMicros} (h : (Client.holding x attempted stage).Settles t) :
    (x.step attempted t c stage).1.Settles (x.step attempted t c stage).2 := by
  cases stage with
  | committing plan =>
    cases hb : x.batch plan c t with
    | none =>
      simp only [HoldInput.step, hb]
      exact trivial
    | some t' =>
      simp only [HoldInput.step, hb]
      split
      · exact trivial
      · obtain ⟨-, -, -, -, m, rfl, -, -⟩ := HoldInput.batch_cases hb
        exact ⟨_, List.mem_append_right _ (List.mem_singleton_self _), rfl, rfl⟩
  | readBack =>
    obtain ⟨r, hr, ha⟩ := h
    simp only [HoldInput.step]
    split
    · next hheld =>
      obtain ⟨hmem, hkey⟩ := hk.holds.held_iff.mp hheld
      obtain rfl := Table.eq_of_key hk.holds.rows.keys hmem hr (hkey.trans ha.1.symm)
      exact settles_current hmem ha (fun y => by simp) ⟨ha, trivial⟩ _
    · exact settles_throws _ _
  | looking | replaying insufficient =>
    simp only [HoldInput.step]
    split
    · next hheld => exact settles_replay hk hheld _
    · split <;> exact trivial
  | _ =>
    simp only [HoldInput.step]
    repeat' split
    all_goals exact trivial

theorem CaptureInput.settles_answer (hk : Kept t) {x : CaptureInput} :
    (x.answer (t.held x.org x.reference)).Settles t := by
  unfold CaptureInput.answer
  split
  · exact settles_throws _ _
  next row hheld =>
  obtain ⟨hmem, hkey⟩ := hk.holds.held_iff.mp hheld
  split
  · exact settles_throws _ _
  split
  · next hclosed =>
    split
    · exact settles_throws _ _
    · next hf => exact ⟨⟨hkey, hclosed.2, not_not.mp hf⟩, row, hmem, .refl row⟩
  · split
    · exact settles_throws _ _
    · next hlive =>
      split
      · exact settles_throws _ _
      · exact settling_of_live (x := x.closing row) (not_not.mp hlive) hmem hkey
          (fun y hy => by cases hy; rfl) fun hne => absurd rfl (hne x)

theorem settles_releasing (hk : Kept t) {org ref : String} (hheld : t.held org ref = some row) :
    (releasing org ref row).Settles t := by
  obtain ⟨hmem, hkey⟩ := hk.holds.held_iff.mp hheld
  unfold releasing
  split
  · next hlive =>
    exact settling_of_live (x := ⟨row, .released, 0, none, none⟩) hlive hmem hkey
      (fun y hy => by cases hy) fun _ => rfl
  · next hclosed => exact ⟨⟨hkey, hclosed⟩, row, hmem, .refl row⟩

theorem mem_due {limit : ℕ} {org : Option String} {cutoff : Instant} {h : Hold}
    (hh : h ∈ t.due limit org cutoff) : h ∈ t.holds ∧ h.state = .live := by
  have hmem := List.mem_of_mem_take hh
  rw [List.mem_insertionSort] at hmem
  obtain ⟨hin, hp⟩ := List.mem_filter.mp hmem
  rw [decide_eq_true_eq] at hp
  exact ⟨hin, hp.1⟩

theorem settles_of_made (hfit : client.Fit) (hmade : client.made = some call)
    (hcloses : call.closes = false) (hanswers : ∀ row, call.answers (.hold row) = false) :
    client.Settles t := by
  cases client with
  | holding => cases hmade; cases hcloses
  | closing => cases hmade; exact absurd hfit.2 (by simp [hcloses])
  | finished _ reply =>
    cases hmade
    cases reply with
    | hold row => exact absurd (hanswers row) (by simp [show call.answers (.hold row) = true from hfit])
    | _ => trivial
  | _ => trivial

theorem Client.Settles.step (hk : Kept t) (hfit : client.Fit) (h : client.Settles t)
    (hg : t.Grows (client.step t c).2) :
    (client.step t c).1.Settles (client.step t c).2 := by
  cases client with
  | idle => exact trivial
  | finished => exact h
  | holding => exact HoldInput.settles_step hk h
  | closing => exact Closing.settles_step hk hfit.1 h hg
  | capturing x =>
    simp only [Client.step]
    split
    · exact settles_throws _ _
    · exact CaptureInput.settles_answer hk
  | readingHold org ref =>
    simp only [Client.step]
    unfold readHold
    split
    · exact settles_throws _ _
    split
    · next row hheld =>
      obtain ⟨hmem, hkey⟩ := hk.holds.held_iff.mp hheld
      have habout : (Call.readHold org ref).About row := hkey
      exact settles_current hmem habout (fun y => by simp) ⟨habout, trivial⟩ _
    · exact settles_throws _ _
  | releasing _ _ stage =>
    cases stage with
    | inserting =>
      simp only [Client.step, releaseStep]
      split
      · split <;> exact trivial
      · exact trivial
    | looking | winner | readBack =>
      simp only [Client.step, releaseStep]
      repeat' split
      all_goals first
        | exact trivial
        | next hheld => exact settles_releasing hk hheld
  | sweeping limit org =>
    simp only [Client.step]
    unfold sweep
    split
    · exact trivial
    · next row rest hdue =>
      have hmem : ∀ h ∈ row :: rest, h.state = .live ∧ t.KnowsHold h := by
        intro h hh
        rw [← hdue] at hh
        exact ⟨(mem_due hh).2, h, (mem_due hh).1, .refl h⟩
      have hrow := hmem row List.mem_cons_self
      exact ⟨⟨hrow.1, hrow.2, trivial, fun h hh => hmem h (List.mem_cons_of_mem _ hh),
        Or.inl ⟨limit, org, rfl⟩, fun y hy => (by cases hy), fun _ => ⟨rfl, rfl⟩⟩, trivial⟩
  | metering | granting | grantingOnDemand | refunding | freezing | unfreezing =>
    exact settles_of_made (hfit.step t c) (made_step hfit t c) rfl fun _ => rfl
  | wallet w => exact trivial

theorem settles_start (now : Instant) (call : Call) : (call.start now).Settles t := by
  have hstarts := call.starts now
  generalize call.start now = client at hstarts ⊢
  cases hstarts <;> exact trivial

/-! ### Runs -/

/-- What calls know of their rows, in every state a run reaches. -/
theorem settles_of_reachable (h : orgs.Reachable s) (i : ℕ) :
    (s.client i).Settles s.db :=
  client_invariant (Q := fun t client => client.Settles t) (fun _ => trivial)
    (fun _ now call => settles_start now call) (fun _ _ _ hg hs => hs.mono hg)
    (fun _ _ _ hk hfit hg hs => hs.step hk hfit hg) h i

/-- A hold that changed anything left or closed a row of its own signature. -/
theorem hold_changed (h : orgs.Reachable s) {i : ℕ} {x : HoldInput}
    (hmade : (s.client i).made = some (.hold x)) (hchanges : s.changes i ≠ 0) :
    ∃ r ∈ s.db.holds, (Call.hold x).About r := by
  refine changed_of_reachable
    (P := fun call t => ∀ x, call = .hold x → ∃ r ∈ t.holds, (Call.hold x).About r)
    (Q := fun t client => client.Settles t) (fun s hr i => settles_of_reachable hr i)
    ?_ ?_ h i _ hmade hchanges x rfl
  · rintro _ t _ hg hp x rfl
    obtain ⟨r, hr, ha⟩ := hp x rfl
    obtain ⟨r', hr', he⟩ := hg.holds r hr
    exact ⟨r', hr', ha.evolve he⟩
  · rintro client _ c t _ hmade - - hsettles - hw hg x rfl
    cases hw with
    | @hold _ _ _ _ h =>
      cases hmade
      obtain ⟨-, -, -, -, m, rfl, -, -⟩ := HoldInput.batch_cases h
      exact ⟨_, List.mem_append_right _ (List.mem_singleton_self _), rfl, rfl⟩
    | close h =>
      cases Option.some.inj hmade
      obtain ⟨r, hr, he⟩ := hsettles.1.known.mono hg
      exact ⟨r, hr, hsettles.1.about.evolve he⟩
    | release | record | pay | grant | grantOnDemand | refund => cases hmade
    | observe ho => cases client <;> simp_all [Client.observes, Client.made]
    | @wallet w => cases hw : caller w <;> simp [Client.made, hw] at hmade

/-- A capture that changed anything closed its row, with its own signature or as expired. -/
theorem capture_changed (h : orgs.Reachable s) {i : ℕ} {x : CaptureInput}
    (hmade : (s.client i).made = some (.capture x)) (hchanges : s.changes i ≠ 0) :
    ∃ r ∈ s.db.holds, r.key = (x.org, x.reference) ∧ r.state ≠ .live ∧
      ∀ f, r.captureFingerprint = some f → f = x.signature := by
  refine changed_of_reachable
    (P := fun call t => ∀ x, call = .capture x → ∃ r ∈ t.holds, r.key = (x.org, x.reference) ∧
      r.state ≠ .live ∧ ∀ f, r.captureFingerprint = some f → f = x.signature)
    (Q := fun t client => client.Settles t) (fun s hr i => settles_of_reachable hr i)
    ?_ ?_ h i _ hmade hchanges x rfl
  · rintro _ t _ hg hp x rfl
    obtain ⟨r, hr, hkey, hclosed, hf⟩ := hp x rfl
    exact ⟨r, hg.mem_of_closed hr hclosed, hkey, hclosed, hf⟩
  rintro client _ c t _ hmade hfit - hsettles hk hw - x rfl
  cases hw with
  | @close _ _ _ y instant _ _ h =>
    cases Option.some.inj hmade
    have hs := hsettles.1
    obtain ⟨⟨r, hr, hkey, hlive, htime⟩, -, -, -, rfl, -⟩ :=
      Closing.batch_cases h hk.holds.allocation_keys
    have hmem := Table.mem_update_of_mem
      (p := fun r => decide (r.key = y.row.key ∧ r.state = .live) && y.inTime instant r)
      (f := y.closed instant) hr
    rw [if_pos (by simp [hkey, hlive, htime])] at hmem
    refine ⟨y.closed instant r, hmem, ?_, hfit.1.closes, fun f hf => ?_⟩
    · exact hkey.trans hs.about
    · have hf' : y.captureFingerprint = some f := hf
      rcases hs.capture x rfl with ⟨hsig, -⟩ | ⟨hnone, -⟩
      · rw [hsig] at hf'
        exact (Option.some.inj hf').symm
      · rw [hnone] at hf'
        cases hf'
  | hold | release | record | pay | grant | grantOnDemand | refund => cases hmade
  | observe ho => cases client <;> simp_all [Client.observes, Client.made]
  | @wallet w => cases hw : caller w <;> simp [Client.made, hw] at hmade

/-! ### Calls made again -/

/-- How a call stands that began with the tables `t₀`, where those had a row under its
reference: it has not read it yet, was refused before it did, or has its answer. -/
structure Client.Repeats (t₀ : Tables) (client : Client) : Prop where
  hold_same : ∀ x, client.made = some (.hold x) → ∀ r ∈ t₀.holds, (Call.hold x).About r →
    r.state ≠ .live → client = .holding x false .looking ∨ client = .finished (.hold x) (.hold r)
  hold_other : ∀ x, client.made = some (.hold x) → ∀ r ∈ t₀.holds,
    r.key = (x.org, x.reference) → r.fingerprint ≠ some x.signature →
    client = .holding x false .looking ∨ ∃ code, client = .finished (.hold x) (.thrown code)
  capture_same : ∀ x, client.made = some (.capture x) → ∀ r ∈ t₀.holds,
    r.key = (x.org, x.reference) → r.captureFingerprint = some x.signature →
    client = .capturing x ∨ client = .finished (.capture x) (.hold r) ∨
      client = (Call.capture x).throws .refused
  capture_other : ∀ x, client.made = some (.capture x) → ∀ r ∈ t₀.holds,
    r.key = (x.org, x.reference) → ∀ f, r.captureFingerprint = some f → f ≠ x.signature →
    client = .capturing x ∨ ∃ code, client = .finished (.capture x) (.thrown code)

/-- A hold whose row is there passes its checks. -/
theorem HoldInput.check_of_row (hk : Kept t) {x : HoldInput} (hr : r ∈ t.holds)
    (ha : (Call.hold x).About r) : x.check = none := by
  obtain ⟨hamount, -, href, hspend, hfp⟩ := (hk.holds.sound hr).admitted _ ha.2
  have hkey := (Hold.key_eq.mp ha.1).2
  have hsame : x.amountMicros = r.amountMicros := hamount
  unfold HoldInput.check
  have hfp' : validFingerprint x.measurementFingerprint = true := hfp
  rw [← hkey, hsame, href, hspend, hfp']
  rfl

theorem Hold.Sound.of_signature (hs : r.Sound) {f : CaptureSignature}
    (hf : r.captureFingerprint = some f) : r.state ≠ .live ∧ f.amountMicros ≤ r.amountMicros := by
  obtain ⟨-, _, hstate⟩ := hs.settled _ hf
  have hclosed : r.state ≠ .live := by
    intro hlive
    rcases hstate with h | h <;> rw [hlive] at h <;> cases h
  have htotal := hs.total hclosed
  exact ⟨hclosed, by omega⟩

theorem CaptureInput.check_of_row (hk : Kept t) {x : CaptureInput} (hr : r ∈ t.holds)
    (hkey : r.key = (x.org, x.reference)) (hf : r.captureFingerprint = some x.signature) :
    x.check = none := by
  have hs := hk.holds.sound hr
  obtain ⟨hvalid, -, -⟩ := hs.settled _ hf
  have href : validReference x.reference = true := by
    cases hfp : r.fingerprint with
    | none =>
      obtain ⟨_, heq⟩ := hs.tombstone hfp
      rw [heq] at hf
      cases hf
    | some f =>
      obtain ⟨-, -, href, -⟩ := hs.admitted _ hfp
      rwa [(Hold.key_eq.mp hkey).2] at href
  have hamount : spendableMicros x.amountMicros = true := hvalid.amount
  have hfp : validFingerprint x.measurementFingerprint = true := hvalid.fingerprint
  have hactual : decimalInteger x.actualMicros = true := hvalid.actual
  unfold CaptureInput.check
  simp [href, hamount, hfp, hactual]

theorem repeats_idle (t₀ : Tables) : Client.idle.Repeats t₀ := by
  constructor <;>
  · intro x hmade
    cases hmade

theorem repeats_start (hk : Kept t) (now : Instant) (call : Call) : (call.start now).Repeats t := by
  constructor
  · intro x hmade r hr ha _
    obtain rfl := made_start hmade
    simp only [Call.start, HoldInput.check_of_row hk hr ha]
    exact Or.inl rfl
  · intro x hmade r _ _ _
    obtain rfl := made_start hmade
    simp only [Call.start]
    cases x.check with
    | none => exact Or.inl rfl
    | some code => exact Or.inr ⟨code, rfl⟩
  · intro x hmade r hr hkey hf
    obtain rfl := made_start hmade
    simp only [Call.start, CaptureInput.check_of_row hk hr hkey hf]
    exact Or.inl rfl
  · intro x hmade r _ _ _ _ _
    obtain rfl := made_start hmade
    simp only [Call.start]
    cases x.check with
    | none => exact Or.inl rfl
    | some code => exact Or.inr ⟨code, rfl⟩

theorem Client.Repeats.step {t₀ : Tables} (hk₀ : Kept t₀) (hk : Kept t) (hg : t₀.Grows t)
    (hfit : client.Fit) (h : client.Repeats t₀) (c : Circumstance) :
    (client.step t c).1.Repeats t₀ := by
  -- the row there was is the row there is, closed or not
  have hheld : ∀ {r : Hold} {org ref : String}, r ∈ t₀.holds → r.key = (org, ref) →
      ∃ r', t.held org ref = some r' ∧ r.Evolves r' := by
    intro r org ref hr hkey
    obtain ⟨r', hr', he⟩ := hg.holds r hr
    exact ⟨r', hk.holds.held_iff.mpr ⟨hr', he.key.trans hkey⟩, he⟩
  constructor
  · intro x hmade r hr ha hclosed
    rw [made_step hfit] at hmade
    rcases h.hold_same x hmade r hr ha hclosed with rfl | rfl
    · obtain ⟨_, hr', he⟩ := hheld hr ha.1
      obtain rfl := he.eq_of_closed hclosed
      refine Or.inr ?_
      simp only [Client.step, HoldInput.step, hr', HoldInput.replay, ha.2, current]
      simp [hclosed]
    · exact Or.inr rfl
  · intro x hmade r hr hkey hne
    rw [made_step hfit] at hmade
    rcases h.hold_other x hmade r hr hkey hne with rfl | ⟨code, rfl⟩
    · obtain ⟨r', hr', he⟩ := hheld hr hkey
      refine Or.inr ⟨.referenceConflict, ?_⟩
      have hne' : r'.fingerprint ≠ some x.signature := by rwa [he.fingerprint]
      simp only [Client.step, HoldInput.step, hr', HoldInput.replay, if_pos hne']
      rfl
    · exact Or.inr ⟨code, rfl⟩
  · intro x hmade r hr hkey hf
    rw [made_step hfit] at hmade
    rcases h.capture_same x hmade r hr hkey hf with rfl | rfl | rfl
    · obtain ⟨r', hr', he⟩ := hheld hr hkey
      obtain ⟨hclosed, hle⟩ := (hk₀.holds.sound hr).of_signature hf
      obtain rfl := he.eq_of_closed hclosed
      have hle' : ¬r'.amountMicros < x.amountMicros := Nat.not_lt_of_le hle
      refine Or.inr ?_
      simp only [Client.step]
      split
      · exact Or.inr rfl
      · simp only [hr', CaptureInput.answer, if_neg hle', hf]
        simp [hclosed]
    · exact Or.inr (Or.inl rfl)
    · exact Or.inr (Or.inr rfl)
  · intro x hmade r hr hkey f hf hne
    rw [made_step hfit] at hmade
    rcases h.capture_other x hmade r hr hkey f hf hne with rfl | ⟨code, rfl⟩
    · obtain ⟨_, hr', he⟩ := hheld hr hkey
      obtain ⟨hclosed, -⟩ := (hk₀.holds.sound hr).of_signature hf
      obtain rfl := he.eq_of_closed hclosed
      refine Or.inr ?_
      simp only [Client.step, hr', CaptureInput.answer, hf]
      split
      · exact ⟨_, rfl⟩
      split
      · exact ⟨_, rfl⟩
      · exact ⟨.referenceConflict, by simp [hclosed, hne, Call.throws]⟩
    · exact Or.inr ⟨code, rfl⟩

/-- What a call is answered that began when its reference had a row. -/
theorem repeats_of_reachable (h : orgs.Reachable s) (i : ℕ) :
    Kept (s.started i) ∧ (s.started i).Grows s.db ∧ (s.client i).Repeats (s.started i) := by
  refine Machine.Reachable.invariant (P := fun s : System => ∀ i, Kept (s.started i) ∧
    (s.started i).Grows s.db ∧ (s.client i).Repeats (s.started i)) (fun i => ⟨kept_init,
      .of_eq rfl rfl fun y hy => hy, repeats_idle _⟩) (fun s a s' hr hs hn i => ?_) h i
  have hkept := kept_of_reachable hr
  have hg := (hkept.next hn).2
  have hgrows : (s.started i).Grows s'.db := (hs i).2.1.trans hg
  cases turn_of_next hn i with
  | call _ _ hclient hstarted =>
    rw [hclient, hstarted]
    exact ⟨hkept.db, hg, repeats_start hkept.db _ _⟩
  | step c hclient _ hstarted =>
    rw [hclient, hstarted]
    exact ⟨(hs i).1, hgrows, (hs i).2.2.step (hs i).1 hkept.db (hs i).2.1 (hkept.fit i) _⟩
  | crash hclient hstarted =>
    rw [hclient, hstarted]
    exact ⟨(hs i).1, hgrows, repeats_idle _⟩
  | rest hclient hstarted =>
    rw [hclient, hstarted]
    exact ⟨(hs i).1, hgrows, (hs i).2.2⟩

end Takoserver.Org
