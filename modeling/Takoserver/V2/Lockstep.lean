import Takoserver.V2.Writes

/-!
# Resources and Operations in lockstep

An accepted Operation and its Resource are written in one batch, and the batch
that ends an Operation projects its outcome on the Resource.  `Lockstep` says what
that maintains: the Operation a Resource is busy with is its only unfinished one,
its generation counts the Operations accepted for it, and it is deleted exactly
when a delete succeeded.

Three writes can break it, with a step lemma each: `Lockstep.updateOperation` for
every statement on an accepted Operation, `Lockstep.create` and `Lockstep.change` for
the acceptance of a new one.
-/

namespace Takoserver.V2

/-- What ties the Resources to the Operations accepted for them. -/
structure Lockstep (db : Db) : Prop where
  uids : (db.resources.map ResourceRow.uid).Nodup
  ids : (db.operations.map OperationRow.id).Nodup
  /-- An Operation belongs to a Resource, at a generation it has reached. -/
  owned : ∀ o ∈ db.operations, ∃ r ∈ db.resources, r.uid = o.resourceUid ∧
    o.generation ≤ r.generation
  /-- The Resource of an unfinished Operation is busy with it. -/
  pending : ∀ o ∈ db.operations, o.status.terminal = false → ∃ r ∈ db.resources,
    r.uid = o.resourceUid ∧ r.busyOperation = some o.id ∧ r.generation = o.generation ∧
      r.deletedAt = none
  /-- A Resource is busy only with an unfinished Operation of its own. -/
  busy : ∀ r ∈ db.resources, ∀ id, r.busyOperation = some id → ∃ o ∈ db.operations,
    o.id = id ∧ o.resourceUid = r.uid ∧ o.status.terminal = false
  /-- The generation counts the accepted Operations. -/
  accepted : ∀ r ∈ db.resources,
    db.operations.countP (fun o => o.resourceUid = r.uid) = r.generation
  /-- Each accepted Operation has a generation of its own. -/
  generations : ∀ o ∈ db.operations, ∀ p ∈ db.operations, o.resourceUid = p.resourceUid →
    o.generation = p.generation → o.id = p.id
  checked : ∀ r ∈ db.resources, r.check = true
  /-- A Resource is deleted exactly when a delete of it succeeded. -/
  deleted : ∀ r ∈ db.resources, r.deletedAt.isSome = true ↔ ∃ o ∈ db.operations,
    o.resourceUid = r.uid ∧ o.action = .delete ∧ o.status = .succeeded

variable {r : ResourceRow} {o : OperationRow}

theorem ResourceRow.check_observed (h : r.check = true) :
    r.observedGeneration ≤ r.generation := by
  simp only [ResourceRow.check, Bool.and_eq_true, decide_eq_true_eq] at h
  exact h.1.1.2

/-! ### The step lemma for an accepted Operation -/

section UpdateOperation

variable {db db' : Db} {old new : OperationRow}

/-- A row after a status update is the row it was before, with its identity. -/
theorem exists_mem_of_mem_put {x : OperationRow} (hold : old ∈ db.operations)
    (hu : db.updateOperation old new = some db') (hx : x ∈ db'.operations) :
    ∃ y ∈ db.operations, y.id = x.id ∧ y.resourceUid = x.resourceUid ∧ y.action = x.action ∧
      y.generation = x.generation ∧ (x.id ≠ old.id → y = x) := by
  obtain ⟨hid, hruid, -, -, -, hact, hgen, -⟩ := Db.updateOperation_assigns hu
  rw [(Db.updateOperation_rows hu).1, Table.mem_put] at hx
  rcases hx with ⟨hx, -⟩ | ⟨rfl, -⟩
  · exact ⟨x, hx, rfl, rfl, rfl, rfl, fun _ => rfl⟩
  · exact ⟨old, hold, hid.symm, hruid.symm, hact.symm, hgen.symm, fun h => absurd hid h⟩

theorem mem_of_ne_updateOperation {x : OperationRow}
    (hu : db.updateOperation old new = some db') (hx : x ∈ db.operations) (h : x.id ≠ old.id) :
    x ∈ db'.operations := by
  rw [(Db.updateOperation_rows hu).1]
  exact Table.mem_put_of_ne hx (by rw [(Db.updateOperation_assigns hu).1]; exact h)

theorem mem_updateOperation_self (hold : old ∈ db.operations)
    (hu : db.updateOperation old new = some db') : new ∈ db'.operations := by
  rw [(Db.updateOperation_rows hu).1]
  exact Table.mem_put_self hold (Db.updateOperation_assigns hu).1.symm

section

variable (h : Lockstep db) (hold : old ∈ db.operations) (hu : db.updateOperation old new = some db')

include h hold hu

theorem countP_updateOperation (uid : Uuid) :
    db'.operations.countP (fun o => o.resourceUid = uid) =
      db.operations.countP (fun o => o.resourceUid = uid) := by
  obtain ⟨hid, hruid, -⟩ := Db.updateOperation_assigns hu
  rw [(Db.updateOperation_rows hu).1]
  refine Table.countP_put fun x hx hk => ?_
  have : x = old := Table.eq_of_key h.ids hx hold (hk.trans hid)
  rw [this, hruid]

/-- The Resource of the Operation stays busy with it until it ends, and only a delete that
succeeded deletes it. -/
theorem Lockstep.project {r' : ResourceRow} (hopen : old.status.terminal = false)
    (huids : (db'.resources.map ResourceRow.uid).Nodup) (hr : r ∈ db.resources)
    (hruid : r.uid = old.resourceUid) (hr' : r' ∈ db'.resources) (huid : r'.uid = r.uid)
    (hrcases : ∀ s ∈ db'.resources, (s ∈ db.resources ∧ s.uid ≠ r.uid) ∨ s = r')
    (hkept : ∀ s ∈ db.resources, s.uid ≠ r.uid → s ∈ db'.resources)
    (hgen : r'.generation = r.generation) (hcheck : r'.check = true)
    (hbusy : ∀ id, r'.busyOperation = some id ↔ id = old.id ∧ new.status.terminal = false)
    (hdeleted : r'.deletedAt.isSome = true ↔ new.status = .succeeded ∧ new.action = .delete) :
    Lockstep db' := by
  obtain ⟨hnid, hnruid, -, -, -, -, hngen, -⟩ := Db.updateOperation_assigns hu
  have hrow := (Db.updateOperation_rows hu).1
  have hnew := mem_updateOperation_self hold hu
  -- the Resource is the one of an unfinished Operation
  obtain ⟨t, ht, htu, htb, htg, htd⟩ := h.pending old hold hopen
  obtain rfl : t = r := Table.eq_of_key h.uids ht hr (htu.trans hruid.symm)
  have hother : ∀ o ∈ db.operations, o.resourceUid ≠ t.uid → o ∈ db'.operations := by
    intro o ho hne
    refine mem_of_ne_updateOperation hu ho fun hk => hne ?_
    rw [Table.eq_of_key h.ids ho hold hk, hruid]
  refine ⟨huids, ?_, ?_, ?_, ?_, ?_, ?_, ?_, ?_⟩
  · rw [hrow, Table.map_key_put]; exact h.ids
  · intro x hx
    obtain ⟨y, hy, -, hyr, -, hyg, -⟩ := exists_mem_of_mem_put hold hu hx
    obtain ⟨s, hs, hsu, hsg⟩ := h.owned y hy
    rw [← hyr, ← hyg]
    by_cases hk : s.uid = t.uid
    · rw [Table.eq_of_key h.uids hs ht hk] at hsu hsg
      exact ⟨r', hr', huid.trans hsu, hgen ▸ hsg⟩
    · exact ⟨s, hkept s hs hk, hsu, hsg⟩
  · intro x hx hxt
    rw [hrow, Table.mem_put] at hx
    rcases hx with ⟨hx, hxk⟩ | ⟨rfl, -⟩
    · obtain ⟨s, hs, hsu, hsb, hsg, hsd⟩ := h.pending x hx hxt
      refine ⟨s, hkept s hs fun hk => ?_, hsu, hsb, hsg, hsd⟩
      rw [Table.eq_of_key h.uids hs ht hk, htb] at hsb
      exact hxk ((Option.some.inj hsb).symm.trans hnid.symm)
    · refine ⟨r', hr', by rw [huid, hnruid, hruid], (hbusy _).mpr ⟨hnid, hxt⟩, ?_, ?_⟩
      · rw [hgen, hngen, htg]
      · refine Option.not_isSome_iff_eq_none.mp fun hd => ?_
        rw [(hdeleted.mp hd).1] at hxt
        cases hxt
  · intro s hs id hb
    rcases hrcases s hs with ⟨hs, hk⟩ | rfl
    · obtain ⟨o, ho, hoid, hor, hot⟩ := h.busy s hs id hb
      exact ⟨o, hother o ho (hor ▸ hk), hoid, hor, hot⟩
    · obtain ⟨hid, hterminal⟩ := (hbusy id).mp hb
      exact ⟨new, hnew, hnid.trans hid.symm, by rw [hnruid, huid, hruid], hterminal⟩
  · intro s hs
    rw [countP_updateOperation h hold hu]
    rcases hrcases s hs with ⟨hs, -⟩ | rfl
    · exact h.accepted s hs
    · rw [huid, hgen]
      exact h.accepted t ht
  · intro x hx y hy hxy hg
    obtain ⟨x₀, hx₀, hxi, hxr, -, hxg, -⟩ := exists_mem_of_mem_put hold hu hx
    obtain ⟨y₀, hy₀, hyi, hyr, -, hyg, -⟩ := exists_mem_of_mem_put hold hu hy
    rw [← hxi, ← hyi]
    exact h.generations x₀ hx₀ y₀ hy₀ (by rw [hxr, hyr, hxy]) (by rw [hxg, hyg, hg])
  · intro s hs
    rcases hrcases s hs with ⟨hs, -⟩ | rfl
    · exact h.checked s hs
    · exact hcheck
  · intro s hs
    rcases hrcases s hs with ⟨hs, hk⟩ | rfl
    · rw [h.deleted s hs]
      constructor
      · rintro ⟨o, ho, hor, hdone⟩
        exact ⟨o, hother o ho (hor ▸ hk), hor, hdone⟩
      · rintro ⟨o, ho, hor, hdone⟩
        rw [hrow, Table.mem_put] at ho
        rcases ho with ⟨ho, -⟩ | ⟨rfl, -⟩
        · exact ⟨o, ho, hor, hdone⟩
        · exact absurd (by rw [← hor, hnruid, hruid]) hk
    · rw [hdeleted, huid]
      constructor
      · rintro ⟨hstatus, haction⟩
        exact ⟨new, hnew, by rw [hnruid, hruid], haction, hstatus⟩
      · rintro ⟨o, ho, hor, haction, hstatus⟩
        rw [hrow, Table.mem_put] at ho
        rcases ho with ⟨ho, -⟩ | ⟨rfl, -⟩
        · have hgone := (h.deleted t ht).mpr ⟨o, ho, hor, haction, hstatus⟩
          rw [htd] at hgone
          cases hgone
        · exact ⟨hstatus, haction⟩

theorem Lockstep.updateOperation_open (hends : ¬ Db.Ends old new)
    (hres : db'.resources = db.resources) : Lockstep db' := by
  obtain ⟨-, -, -, -, -, -, -, -, -, htrans⟩ := Db.updateOperation_assigns hu
  have hopen : old.status.terminal = false := Status.not_terminal_of_transition htrans
  have hnew : new.status.terminal = false := by
    by_contra hn
    exact hends ⟨by simpa using hn, hopen⟩
  obtain ⟨r, hr, hruid, hbusy, -, hlive⟩ := h.pending old hold hopen
  refine h.project hold hu hopen (hres ▸ h.uids) hr hruid (hres ▸ hr) rfl ?_
    (fun s hs _ => hres ▸ hs) rfl (h.checked r hr) ?_ ?_
  · intro s hs
    rw [hres] at hs
    by_cases hk : s.uid = r.uid
    · exact Or.inr (Table.eq_of_key h.uids hs hr hk)
    · exact Or.inl ⟨hs, hk⟩
  · intro id
    rw [hbusy, hnew]
    exact ⟨fun heq => ⟨(Option.some.inj heq).symm, rfl⟩, fun heq => congrArg some heq.1.symm⟩
  · rw [hlive]
    refine ⟨fun hd => (by cases hd), fun hdone => ?_⟩
    rw [hdone.1] at hnew
    cases hnew

theorem Lockstep.updateOperation_ends (hends : Db.Ends old new)
    (hr : db.resource new.resourceUid = some r) (hcheck : (Db.terminalResource r new).check = true)
    (hres : db'.resources = Table.put ResourceRow.uid (Db.terminalResource r new) db.resources) :
    Lockstep db' := by
  obtain ⟨-, hruid, -⟩ := Db.updateOperation_assigns hu
  obtain ⟨hrmem, hruid'⟩ := Table.find_some hr
  obtain ⟨t, ht, htu, -, -, htd⟩ := h.pending old hold hends.2
  obtain rfl : t = r := Table.eq_of_key h.uids ht hrmem (by rw [htu, hruid', hruid])
  have hput : Db.terminalResource t new ∈ db'.resources := by
    rw [hres]
    exact Table.mem_put_self hrmem rfl
  refine h.project hold hu hends.2 ?_ hrmem htu hput rfl ?_ ?_ rfl hcheck ?_ ?_
  · rw [hres, Table.map_key_put]
    exact h.uids
  · intro s hs
    rw [hres, Table.mem_put] at hs
    rcases hs with hs | ⟨rfl, -⟩
    · exact Or.inl hs
    · exact Or.inr rfl
  · intro s hs hk
    rw [hres]
    exact Table.mem_put_of_ne hs hk
  · simp [Db.terminalResource, hends.1]
  · simp [Db.terminalResource, htd]

/-- **Every statement on an accepted Operation keeps the lockstep.** -/
theorem Lockstep.updateOperation : Lockstep db' := by
  obtain ⟨-, -, -, ⟨hends, hres⟩ | ⟨hends, r, hr, -, -, hc, hres⟩⟩ := Db.updateOperation_rows hu
  · exact h.updateOperation_open hold hu hends hres
  · exact h.updateOperation_ends hold hu hends hr hc hres

end

end UpdateOperation

/-! ### The step lemma for the other columns -/

/-- The columns of an Operation the lockstep reads. -/
def OperationRow.columns (o : OperationRow) : Uuid × Uuid × ℕ × Status × Action :=
  (o.id, o.resourceUid, o.generation, o.status, o.action)

theorem exists_columns {rows rows' : List OperationRow}
    (hc : rows'.map OperationRow.columns = rows.map OperationRow.columns) {x : OperationRow}
    (hx : x ∈ rows') : ∃ y ∈ rows, y.id = x.id ∧ y.resourceUid = x.resourceUid ∧
      y.generation = x.generation ∧ y.status = x.status ∧ y.action = x.action := by
  simpa only [OperationRow.columns, Prod.mk.injEq] using Table.exists_of_map_eq hc hx

variable {db : Db}

variable {db' : Db}

/-- Only the Resources and these columns matter. -/
theorem Lockstep.of_columns (h : Lockstep db) (hr : db'.resources = db.resources)
    (hc : db'.operations.map OperationRow.columns = db.operations.map OperationRow.columns) :
    Lockstep db' := by
  have hback := fun x => exists_columns hc (x := x)
  have hforth := fun y => exists_columns hc.symm (x := y)
  refine ⟨?_, ?_, ?_, ?_, ?_, ?_, ?_, ?_, ?_⟩
  · rw [hr]; exact h.uids
  · have := congrArg (List.map Prod.fst) hc
    rw [List.map_map, List.map_map] at this
    exact this ▸ h.ids
  · intro x hx
    obtain ⟨y, hy, -, hyr, hyg, -⟩ := hback x hx
    rw [hr, ← hyr, ← hyg]
    exact h.owned y hy
  · intro x hx hxt
    obtain ⟨y, hy, hyi, hyr, hyg, hys, -⟩ := hback x hx
    rw [hr, ← hyr, ← hyg, ← hyi]
    exact h.pending y hy (by rw [hys]; exact hxt)
  · intro r hr' id hb
    rw [hr] at hr'
    obtain ⟨y, hy, hyi, hyr, hyt⟩ := h.busy r hr' id hb
    obtain ⟨x, hx, hxi, hxr, -, hxs, -⟩ := hforth y hy
    exact ⟨x, hx, hxi.trans hyi, hxr.trans hyr, by rw [hxs]; exact hyt⟩
  · intro r hr'
    rw [hr] at hr'
    rw [← h.accepted r hr']
    have := congrArg (List.countP fun c => decide (c.2.1 = r.uid)) hc
    rwa [List.countP_map, List.countP_map] at this
  · intro x hx x' hx' hxx hg
    obtain ⟨y, hy, hyi, hyr, hyg, -⟩ := hback x hx
    obtain ⟨y', hy', hyi', hyr', hyg', -⟩ := hback x' hx'
    rw [← hyi, ← hyi']
    exact h.generations y hy y' hy' (by rw [hyr, hyr', hxx]) (by rw [hyg, hyg', hg])
  · intro r hr'
    rw [hr] at hr'
    exact h.checked r hr'
  · intro r hr'
    rw [hr] at hr'
    rw [h.deleted r hr']
    constructor
    · rintro ⟨y, hy, hyr, hya, hys⟩
      obtain ⟨x, hx, -, hxr, -, hxs, hxa⟩ := hforth y hy
      exact ⟨x, hx, hxr.trans hyr, hxa.trans hya, hxs.trans hys⟩
    · rintro ⟨x, hx, hxr, hxa, hxs⟩
      obtain ⟨y, hy, -, hyr, -, hys, hya⟩ := hback x hx
      exact ⟨y, hy, hyr.trans hxr, hya.trans hxa, hys.trans hxs⟩

/-! ### The step lemmas for an acceptance -/

section Accept

variable {db db' : Db} {record : AcceptRecord} {references : Option (List Reference)}

theorem Lockstep.accept {rows : List ResourceRow} (h : Lockstep db)
    (hacc : Accepted db db' record references rows) (huids : (rows.map ResourceRow.uid).Nodup)
    (hrmem : r ∈ rows)
    (hrcases : ∀ s ∈ rows, (s ∈ db.resources ∧ s.uid ≠ record.resourceUid) ∨ s = r)
    (hkept : ∀ s ∈ db.resources, s.uid ≠ record.resourceUid → s ∈ rows)
    (huid : r.uid = record.resourceUid) (hgen : r.generation = record.generation)
    (hbusy : r.busyOperation = some record.id) (hlive : r.deletedAt = none)
    (hcheck : r.check = true)
    (hbelow : ∀ o ∈ db.operations, o.resourceUid = record.resourceUid →
      o.status.terminal = true ∧ o.generation < record.generation ∧
        ¬ (o.action = .delete ∧ o.status = .succeeded))
    (hcount : db.operations.countP (fun o => o.resourceUid = record.resourceUid) + 1 =
      record.generation) : Lockstep db' := by
  have hres := hacc.resources
  have hops := hacc.operations
  -- one operation is new, and only its resource changes
  have hocases : ∀ o ∈ db'.operations, o ∈ db.operations ∨ o = Db.acceptedOperation record :=
    fun o => hacc.mem_operations.mp
  rw [← hres] at huids hrmem hrcases hkept
  refine ⟨huids, ?_, ?_, ?_, ?_, ?_, ?_, ?_, ?_⟩
  · rw [hops]
    exact Table.nodup_insert h.ids hacc.ids
  · intro o ho
    rcases hocases o ho with ho | rfl
    · by_cases hk : o.resourceUid = record.resourceUid
      · have hlt := (hbelow o ho hk).2.1
        exact ⟨r, hrmem, huid.trans hk.symm, by omega⟩
      · obtain ⟨s, hs, hsu, hsg⟩ := h.owned o ho
        exact ⟨s, hkept s hs (hsu ▸ hk), hsu, hsg⟩
    · exact ⟨r, hrmem, huid, hgen.ge⟩
  · intro o ho hot
    rcases hocases o ho with ho | rfl
    · obtain ⟨s, hs, hsu, hsb, hsg, hsd⟩ := h.pending o ho hot
      refine ⟨s, hkept s hs fun hk => ?_, hsu, hsb, hsg, hsd⟩
      rw [(hbelow o ho (hsu.symm.trans hk)).1] at hot
      cases hot
    · exact ⟨r, hrmem, huid, hbusy, hgen, hlive⟩
  · intro s hs id hb
    rcases hrcases s hs with ⟨hs, -⟩ | rfl
    · obtain ⟨o, ho, hrest⟩ := h.busy s hs id hb
      exact ⟨o, hacc.mem_operations.mpr (Or.inl ho), hrest⟩
    · rw [hbusy] at hb
      exact ⟨_, hacc.mem_operations.mpr (Or.inr rfl), Option.some.inj hb, huid.symm, rfl⟩
  · intro s hs
    rw [hops, List.countP_append]
    rcases hrcases s hs with ⟨hs, hk⟩ | rfl
    · rw [h.accepted s hs]
      simp [Db.acceptedOperation, hk.symm]
    · rw [hgen, ← hcount]
      simp [Db.acceptedOperation, huid]
  · intro o ho p hp hop hg
    rcases hocases o ho with ho | rfl <;> rcases hocases p hp with hp | rfl
    · exact h.generations o ho p hp hop hg
    · exact absurd hg (hbelow o ho hop).2.1.ne
    · exact absurd hg.symm (hbelow p hp hop.symm).2.1.ne
    · rfl
  · intro s hs
    rcases hrcases s hs with ⟨hs, -⟩ | rfl
    · exact h.checked s hs
    · exact hcheck
  · intro s hs
    rw [hacc.deletion]
    rcases hrcases s hs with ⟨hs, -⟩ | rfl
    · exact h.deleted s hs
    · rw [hlive]
      refine ⟨fun hd => by simp at hd, ?_⟩
      rintro ⟨o, ho, hor, hdone⟩
      exact absurd hdone (hbelow o ho (hor.trans huid)).2.2

/-- An accepted create: a new Resource, busy with its first Operation. -/
theorem Lockstep.create (h : Lockstep db)
    (hacc : Accepted db db' record references (db.resources ++ [r]))
    (huid : r.uid = record.resourceUid) (hnew : ∀ s ∈ db.resources, s.uid ≠ record.resourceUid)
    (hgen : record.generation = 1) (hrgen : r.generation = 1)
    (hbusy : r.busyOperation = some record.id) (hlive : r.deletedAt = none)
    (hcheck : r.check = true) : Lockstep db' := by
  -- no accepted Operation belongs to the new uid
  have hnone : ∀ o ∈ db.operations, o.resourceUid ≠ record.resourceUid := by
    intro o ho hk
    obtain ⟨s, hs, hsu, -⟩ := h.owned o ho
    exact hnew s hs (hsu.trans hk)
  refine h.accept hacc ?_ (by simp) ?_ (fun s hs _ => List.mem_append_left _ hs) huid
    (hrgen.trans hgen.symm) hbusy hlive hcheck (fun o ho hk => absurd hk (hnone o ho)) ?_
  · exact Table.nodup_insert h.uids fun s hs => by rw [huid]; exact hnew s hs
  · intro s hs
    rcases List.mem_append.mp hs with hs | hs
    · exact Or.inl ⟨hs, hnew s hs⟩
    · exact Or.inr (List.mem_singleton.mp hs)
  · rw [hgen, List.countP_eq_zero.mpr fun o ho => by simpa using hnone o ho]

/-- An accepted change: the next generation of a Resource that was not busy. -/
theorem Lockstep.change (h : Lockstep db) (hacc : Accepted db db' record references
      (Table.put ResourceRow.uid (Db.changedResource r record) db.resources))
    (hr : r ∈ db.resources) (huid : r.uid = record.resourceUid) (hlive : r.deletedAt = none)
    (hgen : record.generation = r.generation + 1) (hfree : r.busyOperation = none)
    (hcheck : (Db.changedResource r record).check = true) : Lockstep db' := by
  have huid' : (Db.changedResource r record).uid = record.resourceUid := huid
  refine h.accept hacc ?_ (Table.mem_put_self hr rfl) ?_ ?_ huid rfl rfl hlive hcheck ?_ ?_
  · rw [Table.map_key_put]
    exact h.uids
  · intro s hs
    rcases Table.mem_put.mp hs with ⟨hs, hk⟩ | ⟨rfl, -⟩
    · exact Or.inl ⟨hs, huid' ▸ hk⟩
    · exact Or.inr rfl
  · exact fun s hs hk => Table.mem_put_of_ne hs (by rwa [huid'])
  · intro o ho hor
    refine ⟨?_, ?_, fun hdone => ?_⟩
    · -- an idle Resource has no unfinished Operation
      by_contra hot
      obtain ⟨s, hs, hsu, hsb, -⟩ := h.pending o ho (by simpa using hot)
      rw [Table.eq_of_key h.uids hs hr (by rw [hsu, hor, huid]), hfree] at hsb
      cases hsb
    · obtain ⟨s, hs, hsu, hsg⟩ := h.owned o ho
      rw [Table.eq_of_key h.uids hs hr (by rw [hsu, hor, huid])] at hsg
      omega
    · have hgone := (h.deleted r hr).mpr ⟨o, ho, hor.trans huid.symm, hdone⟩
      rw [hlive] at hgone
      cases hgone
  · rw [hgen, ← h.accepted r hr, huid]

end Accept

/-! ### The store -/

theorem Lockstep.progress (h : Lockstep db) (hp : Progress db db') :
    Lockstep db' := by
  cases hp with
  | inputs => exact h.of_columns rfl rfl
  | status rows _ _ hold hupdate =>
    have h' : Lockstep { db with privateInputs := rows } := h.of_columns rfl rfl
    exact h'.updateOperation hold hupdate
  | defer _ _ hold =>
    refine h.of_columns rfl (Table.map_put _ fun x hx hk => ?_)
    rw [Table.eq_of_key h.ids hx hold hk]
    rfl

/-- **One write keeps the lockstep.** -/
theorem Lockstep.write (h : Lockstep db) (hw : Write db db') : Lockstep db' := by
  cases hw with
  | progress hp => exact h.progress hp
  | create _ _ _ _ _ _ _ hgeneration hcheck huid hacc =>
    exact h.create hacc rfl huid hgeneration rfl rfl rfl hcheck
  | change record references r haction hreferences hr huid hprincipal hlive hgeneration hfree
      hdelete hcheck hacc =>
    exact h.change hacc hr huid hlive hgeneration hfree hcheck

theorem lockstep_init : Lockstep store.init := by
  constructor <;> simp [store]

theorem Lockstep.busy_exists (h : Lockstep db) :
    ∀ r ∈ db.resources, ∀ id, r.busyOperation = some id → db.operation id ≠ none := by
  intro r hr id hb
  obtain ⟨o, ho, rfl, -⟩ := h.busy r hr id hb
  unfold Db.operation
  rw [Table.find_of_mem h.ids ho]
  simp

theorem Lockstep.write_next {action : StoreAction} (h : Lockstep db)
    (hn : store.next db action = some db') : Write db db' := by
  simp only [store] at hn
  split at hn
  · next hwf =>
    rw [Option.some.injEq] at hn
    rw [← hn]
    exact write_apply h.busy_exists hwf
  · cases hn

/-- **The lockstep holds of every state of the store.** -/
theorem lockstep_of_reachable (h : store.Reachable db) : Lockstep db := by
  refine Machine.Reachable.invariant lockstep_init ?_ h
  intro db action db' _ hdb hn
  exact hdb.write (hdb.write_next hn)

theorem Lockstep.terminal_mem_write (h : Lockstep db) (hw : Write db db')
    (ho : o ∈ db.operations) (ht : o.status.terminal = true) :
    o ∈ db'.operations := by
  have haccepted : ∀ {record references rows'}, Accepted db db' record references rows' →
      o ∈ db'.operations := by
    intro record references rows' hacc
    rw [hacc.operations]
    exact List.mem_append_left _ ho
  cases hw with
  | progress hp =>
    cases hp with
    | inputs => exact ho
    | status _ _ _ hold hupdate =>
      obtain ⟨-, -, -, -, -, -, -, -, -, htrans⟩ := Db.updateOperation_assigns hupdate
      have hopen := Status.not_terminal_of_transition htrans
      refine mem_of_ne_updateOperation hupdate ho fun hk => ?_
      rw [Table.eq_of_key h.ids ho hold hk, hopen] at ht
      cases ht
    | defer _ _ hold hopen =>
      refine Table.mem_put_of_ne ho fun hk => ?_
      rw [Table.eq_of_key h.ids ho hold hk, hopen] at ht
      cases ht
  | create _ _ _ _ _ _ _ _ _ _ hacc =>
    exact haccepted hacc
  | change record references r haction hreferences hr huid hprincipal hlive hgeneration hfree
      hdelete hcheck hacc =>
    exact haccepted hacc

/-- An Operation that ended stays as it ended, along every run. -/
theorem terminal_operation_of_path (hdb : store.Reachable db) (hp : store.Path db db')
    (ho : o ∈ db.operations) (ht : o.status.terminal = true) : db'.operation o.id = some o := by
  have hmem : o ∈ db'.operations := by
    refine Machine.Path.invariant (P := fun db => o ∈ db.operations) ?_ hdb hp ho
    intro db action db' hdb ho hn
    have h := lockstep_of_reachable hdb
    exact h.terminal_mem_write (h.write_next hn) ho ht
  exact Table.find_of_mem (lockstep_of_reachable (hdb.path hp)).ids hmem

/-- A settlement changes something, or tells its caller so, only under the current lease. -/
theorem settle_holder {id token : Uuid} {input : Db.Settlement}
    (h : (StoreAction.settle id token input).apply db ≠ db ∨
      (db.settle id token input).map Prod.snd = some true) :
    ∃ o, db.operation id = some o ∧ o.leaseToken = some token := by
  cases hs : db.settle id token input with
  | none => simp [StoreAction.apply, hs] at h
  | some result =>
    obtain ⟨_, _⟩ := result
    rcases Db.updateWhere_some hs with ⟨rfl, rfl⟩ | ⟨-, o, -, ho, -, hcond, -⟩
    · simp [StoreAction.apply, hs] at h
    · simp only [Bool.and_eq_true, beq_iff_eq] at hcond
      exact ⟨o, ho, hcond.1⟩

theorem Lockstep.unfinished_unique (h : Lockstep db) {p : OperationRow}
    (ho : o ∈ db.operations) (hp : p ∈ db.operations) (hop : o.resourceUid = p.resourceUid)
    (hot : o.status.terminal = false) (hpt : p.status.terminal = false) : o = p := by
  obtain ⟨r, hr, hru, hrb, -⟩ := h.pending o ho hot
  obtain ⟨s, hs, hsu, hsb, -⟩ := h.pending p hp hpt
  have hrs : r = s := Table.eq_of_key h.uids hr hs (by rw [hru, hsu, hop])
  rw [hrs, hsb] at hrb
  exact Table.eq_of_key h.ids ho hp (Option.some.inj hrb).symm

/-- **Resources and Operations in lockstep.**  In every state of the store a Resource
is busy with its only unfinished Operation or with none, its generation counts the
Operations accepted for it, no two of them share a generation, it has not observed
more than its generation, and it is deleted exactly when a delete of it succeeded;
an Operation that ended never changes again; and only the current lease settles. -/
theorem resource_operation_lockstep {db : Db} (hdb : store.Reachable db) :
    (∀ r ∈ db.resources,
      (r.busyOperation = none ∨ ∃ o ∈ db.operations, r.busyOperation = some o.id ∧
        o.resourceUid = r.uid ∧ o.status.terminal = false ∧ ∀ p ∈ db.operations,
          p.resourceUid = r.uid → p.status.terminal = false → p = o) ∧
      (∀ o ∈ db.operations, ∀ p ∈ db.operations, o.resourceUid = r.uid →
        p.resourceUid = r.uid → o.status.terminal = false → p.status.terminal = false → o = p) ∧
      r.generation = db.operations.countP (fun o => o.resourceUid = r.uid) ∧
      (∀ o ∈ db.operations, ∀ p ∈ db.operations, o.resourceUid = r.uid →
        p.resourceUid = r.uid → o.generation = p.generation → o = p) ∧
      r.observedGeneration ≤ r.generation ∧
      (r.deletedAt.isSome = true ↔ ∃ o ∈ db.operations,
        o.resourceUid = r.uid ∧ o.action = .delete ∧ o.status = .succeeded)) ∧
    (∀ o ∈ db.operations, o.status.terminal = true → ∀ db', store.Path db db' →
      db'.operation o.id = some o) ∧
    (∀ id token input, (StoreAction.settle id token input).apply db ≠ db ∨
      (db.settle id token input).map Prod.snd = some true →
        ∃ o, db.operation id = some o ∧ o.leaseToken = some token) := by
  have h := lockstep_of_reachable hdb
  refine ⟨fun r hr => ⟨?_, ?_, ?_, ?_, ?_, ?_⟩, ?_, ?_⟩
  · cases hb : r.busyOperation with
    | none => exact Or.inl rfl
    | some id =>
      obtain ⟨o, ho, rfl, hor, hot⟩ := h.busy r hr id hb
      refine Or.inr ⟨o, ho, rfl, hor, hot, fun p hp hpr hpt => ?_⟩
      exact h.unfinished_unique hp ho (hpr.trans hor.symm) hpt hot
  · intro o ho p hp hor hpr hot hpt
    exact h.unfinished_unique ho hp (hor.trans hpr.symm) hot hpt
  · exact (h.accepted r hr).symm
  · intro o ho p hp hor hpr hg
    exact Table.eq_of_key h.ids ho hp (h.generations o ho p hp (hor.trans hpr.symm) hg)
  · exact ResourceRow.check_observed (h.checked r hr)
  · exact h.deleted r hr
  · intro o ho ht db' hp
    exact terminal_operation_of_path hdb hp ho ht
  · intro id token input hs
    exact settle_holder hs

/-- The acceptance record of a small request. -/
def requestRecord (id uid : Uuid) (key : String) (action : Action) (generation : ℕ) :
    AcceptRecord where
  id := id
  resourceUid := uid
  principal := "principal"
  key := key
  fingerprint := "fingerprint"
  action := action
  generation := generation
  acceptedAt := 0
  retainUntil := 0
  backendId := "backend"
  targetKey := "target"
  spec := .obj []

/-- A Resource created, and its deletion accepted. -/
def deletionRun : List StoreAction :=
  [.insertCreate (requestRecord 1 10 "create" .create 1) "form" "space" "name" (some []) (.obj [])
      none none false,
    .claim 1 5 0 100,
    .markDispatch 1 5 0,
    .settle 1 5 { status := .succeeded, effect := .complete, now := 1, retainUntil := 1 },
    .insertChange (requestRecord 2 10 "delete" .delete 2) none false none none false]

theorem resource_operation_lockstep_deletion :
    ∃ db, store.Reachable db ∧ ∃ r ∈ db.resources, r.generation = 2 ∧
      r.generation = db.operations.countP (fun o => o.resourceUid = r.uid) := by
  obtain ⟨db, hdb, hany⟩ := Machine.exists_reachable_of_run (M := store) deletionRun
    (fun db => db.resources.any fun r => r.generation == 2) (by decide)
  simp only [List.any_eq_true, beq_iff_eq] at hany
  obtain ⟨r, hr, hg⟩ := hany
  exact ⟨db, hdb, r, hr, hg, ((resource_operation_lockstep hdb).1 r hr).2.2.1⟩

end Takoserver.V2
