import Takoserver.V2.Lockstep

/-!
# References between Resources

An acceptance reserves an edge from its Resource to each target it refers to, a
confirmed success retires the edges the Operation did not ask for, and a delete is
accepted only where no live Resource has an edge to its target.  The two sides
meet in the acceptance batch: an edge leads to a target that is not busy, and a
delete makes its target busy before it does anything else.
-/

namespace Takoserver.V2

/-- `o` is the newest succeeded Operation of its Resource. -/
def LastSucceeded (db : Db) (o : OperationRow) : Prop :=
  o.status = .succeeded ∧ ∀ p ∈ db.operations, p.resourceUid = o.resourceUid →
    p.status = .succeeded → p.generation ≤ o.generation

/-- What ties the edges to the Operations that reserved them. -/
structure Referential (db : Db) : Prop where
  /-- An edge starts at a Resource. -/
  referrers : ∀ e ∈ db.edges, ∃ r ∈ db.resources, r.uid = e.referrerUid
  /-- A reference belongs to an accepted Operation. -/
  rows : ∀ row ∈ db.operationReferences, ∃ o ∈ db.operations, o.id = row.operationId
  /-- Every delete of a target a live Resource has an edge to failed. -/
  safe : ∀ e ∈ db.edges, ∀ r ∈ db.resources, r.uid = e.referrerUid → r.deletedAt = none →
    ∀ o ∈ db.operations, o.resourceUid = e.targetUid → o.action = .delete → o.status = .failed
  /-- The edges of a live Resource cover its unfinished Operation and the last one
  that succeeded. -/
  covered : ∀ r ∈ db.resources, r.deletedAt = none → ∀ o ∈ db.operations,
    o.resourceUid = r.uid → (o.status.terminal = false ∨ LastSucceeded db o) →
    ∀ row ∈ db.operationReferences, row.operationId = o.id →
      ⟨row.reference.resourceUid, r.uid⟩ ∈ db.edges

/-! ### A status update -/

section UpdateOperation

variable {db db' : Db} {old new : OperationRow}

section

variable (hu : db.updateOperation old new = some db')

include hu

/-- A Resource that is live after a status update was live before it. -/
theorem live_before_updateOperation {r : ResourceRow} (hr : r ∈ db'.resources)
    (hlive : r.deletedAt = none) :
    ∃ s ∈ db.resources, s.uid = r.uid ∧ s.deletedAt = none := by
  obtain ⟨-, -, -, ⟨-, hres⟩ | ⟨-, s, hs, -, -, -, hres⟩⟩ := Db.updateOperation_rows hu
  · rw [hres] at hr
    exact ⟨r, hr, rfl, hlive⟩
  · rw [hres, Table.mem_put] at hr
    rcases hr with ⟨hr, -⟩ | ⟨rfl, -⟩
    · exact ⟨r, hr, rfl, hlive⟩
    · refine ⟨s, (Table.find_some hs).1, rfl, ?_⟩
      simp only [Db.terminalResource] at hlive
      split at hlive
      · cases hlive
      · exact hlive

theorem exists_resource_updateOperation {s : ResourceRow} (hs : s ∈ db.resources)
    : ∃ r ∈ db'.resources, r.uid = s.uid := by
  have huids : db'.resources.map ResourceRow.uid = db.resources.map ResourceRow.uid := by
    obtain ⟨-, -, -, ⟨-, hres⟩ | ⟨-, r, -, -, -, -, hres⟩⟩ := Db.updateOperation_rows hu
    · rw [hres]
    · rw [hres, Table.map_key_put]
  have hm : s.uid ∈ db'.resources.map ResourceRow.uid := by
    rw [huids]
    exact List.mem_map_of_mem hs
  exact List.mem_map.mp hm

/-- An edge that a status update retires belongs to the Resource of the Operation
that succeeded with it. -/
theorem mem_edges_updateOperation {e : Edge} (he : e ∈ db.edges)
    (h : new.status ≠ .succeeded ∨ e.referrerUid ≠ new.resourceUid) :
    e ∈ db'.edges := by
  rw [Db.updateOperation_edges hu]
  refine ⟨he, fun hs _ hr => ?_⟩
  rcases h with h | h
  · exact absurd hs h
  · exact absurd hr h

end

/-- The Resource of an Operation that succeeds is at its generation, so no other
Operation of it is as new. -/
theorem eq_new_of_lastSucceeded (hl : Lockstep db) (hl' : Lockstep db')
    (hold : old ∈ db.operations) (hu : db.updateOperation old new = some db')
    (hs : new.status = .succeeded) {o : OperationRow} (ho : o ∈ db'.operations)
    (hor : o.resourceUid = new.resourceUid) (hlast : LastSucceeded db' o) : o = new := by
  have hnew := mem_updateOperation_self hold hu
  have hge : new.generation ≤ o.generation := hlast.2 new hnew hor.symm hs
  have hends : Db.Ends old new := by
    obtain ⟨-, -, -, -, -, -, -, -, -, htrans⟩ := Db.updateOperation_assigns hu
    exact ⟨by rw [hs]; rfl, Status.not_terminal_of_transition htrans⟩
  obtain ⟨-, -, -, ⟨hno, -⟩ | ⟨-, r, hr, _, -⟩⟩ := Db.updateOperation_rows hu
  · exact absurd hends hno
  have hle : o.generation ≤ new.generation := by
    obtain ⟨y, hy, -, hyr, -, _, -⟩ := exists_mem_of_mem_put hold hu ho
    obtain ⟨s, hs', hsu, hsg⟩ := hl.owned y hy
    obtain ⟨hrmem, hruid⟩ := Table.find_some hr
    have hsr : s = r := Table.eq_of_key hl.uids hs' hrmem (by rw [hsu, hyr, hor, hruid])
    rw [hsr] at hsg
    omega
  exact Table.eq_of_key hl'.ids ho hnew (hl'.generations o ho new hnew hor (by omega))

theorem lastSucceeded_before (hu : db.updateOperation old new = some db') {o : OperationRow}
    (hl : Lockstep db) (hold : old ∈ db.operations) (hlast : LastSucceeded db' o) :
    LastSucceeded db o := by
  refine ⟨hlast.1, fun p hp hpr hps => hlast.2 p ?_ hpr hps⟩
  refine mem_of_ne_updateOperation hu hp fun hk => ?_
  obtain ⟨-, -, -, -, -, -, -, -, -, htrans⟩ := Db.updateOperation_assigns hu
  have hopen := Status.not_terminal_of_transition htrans
  rw [← Table.eq_of_key hl.ids hp hold hk, hps] at hopen
  cases hopen

theorem Referential.updateOperation (h : Referential db) (hl : Lockstep db)
    (hold : old ∈ db.operations) (hu : db.updateOperation old new = some db') :
    Referential db' := by
  have hl' : Lockstep db' := hl.updateOperation hold hu
  obtain ⟨hid, hruid, -, -, -, hact, -, -, -, htrans⟩ := Db.updateOperation_assigns hu
  have hopen := Status.not_terminal_of_transition htrans
  obtain ⟨hops, hrefs, -⟩ := Db.updateOperation_rows hu
  have hedges := Db.updateOperation_edges hu
  refine ⟨?_, ?_, ?_, ?_⟩
  · intro e he
    obtain ⟨s, hs, hsu⟩ := h.referrers e ((hedges e).mp he).1
    obtain ⟨r, hr, hru⟩ := exists_resource_updateOperation hu hs
    exact ⟨r, hr, hru.trans hsu⟩
  · intro row hrow
    rw [hrefs] at hrow
    obtain ⟨o, ho, hoid⟩ := h.rows row hrow
    by_cases hk : o.id = old.id
    · exact ⟨new, mem_updateOperation_self hold hu, by rw [hid, ← hk, hoid]⟩
    · exact ⟨o, mem_of_ne_updateOperation hu ho hk, hoid⟩
  · intro e he r hr hru hlive o ho hor hoa
    have he' := ((hedges e).mp he).1
    obtain ⟨s, hs, hsu, hslive⟩ := live_before_updateOperation hu hr hlive
    rw [hops, Table.mem_put] at ho
    rcases ho with ⟨ho, -⟩ | ⟨rfl, -⟩
    · exact h.safe e he' s hs (hsu.trans hru) hslive o ho hor hoa
    · -- the updated row was unfinished, and a target of an edge has no unfinished delete
      have := h.safe e he' s hs (hsu.trans hru) hslive old hold (hruid ▸ hor) (hact ▸ hoa)
      rw [this] at hopen
      cases hopen
  · intro r hr hlive o ho hor hwhich row hrow hrowid
    rw [hrefs] at hrow
    obtain ⟨s, hs, hsu, hslive⟩ := live_before_updateOperation hu hr hlive
    by_cases hk : o = new
    · -- the updated Operation was unfinished, so its references were reserved
      subst hk
      have he := h.covered s hs hslive old hold (by rw [← hruid, hor, hsu]) (Or.inl hopen) row
        hrow (by rw [hrowid, hid])
      rw [hsu] at he
      refine (hedges _).mpr ⟨he, fun hsucc _ _ => ⟨fun hdel => ?_, fun _ => ?_⟩⟩
      · -- a successful delete leaves no live Resource
        have hgone := (hl'.deleted r hr).mpr ⟨o, ho, hor, hdel, hsucc⟩
        rw [hlive] at hgone
        cases hgone
      · simp only [Db.wanted, List.any_eq_true, Bool.and_eq_true, beq_iff_eq]
        exact ⟨row, hrow, hrowid, rfl⟩
    · have hoid : o.id ≠ new.id := fun hk' =>
        hk (Table.eq_of_key hl'.ids ho (mem_updateOperation_self hold hu) hk')
      have homem : o ∈ db.operations := by
        rw [hops, Table.mem_put] at ho
        rcases ho with ⟨ho, -⟩ | ⟨rfl, -⟩
        · exact ho
        · exact absurd rfl hk
      have hwhich' : o.status.terminal = false ∨ LastSucceeded db o :=
        hwhich.imp_right fun hlast => lastSucceeded_before hu hl hold hlast
      have he := h.covered s hs hslive o homem (hor.trans hsu.symm) hwhich' row hrow hrowid
      rw [hsu] at he
      refine mem_edges_updateOperation hu he ?_
      by_contra hboth
      rw [not_or, not_not, not_not] at hboth
      obtain ⟨hsucc, hsame⟩ := hboth
      -- of the Resource that settled, only the updated Operation can be meant
      rcases hwhich with hun | hlast
      · exact hoid (by
          rw [hl.unfinished_unique homem hold (by rw [hor, ← hruid]; exact hsame) hun hopen, hid])
      · exact hk (eq_new_of_lastSucceeded hl hl' hold hu hsucc ho (hor.trans hsame) hlast)

end UpdateOperation

/-! ### An acceptance -/

theorem Lockstep.failed_delete_of_free {db : Db} (h : Lockstep db) {target : ResourceRow}
    (ht : target ∈ db.resources) (hlive : target.deletedAt = none)
    (hfree : target.busyOperation = none) {o : OperationRow} (ho : o ∈ db.operations)
    (hor : o.resourceUid = target.uid) (hoa : o.action = .delete) : o.status = .failed := by
  have hterm : o.status.terminal = true := by
    by_contra hot
    obtain ⟨s, hs, hsu, hsb, -⟩ := h.pending o ho (by simpa using hot)
    rw [Table.eq_of_key h.uids hs ht (hsu.trans hor), hfree] at hsb
    cases hsb
  have hnot : o.status ≠ .succeeded := by
    intro hos
    have hgone := (h.deleted target ht).mpr ⟨o, ho, hor, hoa, hos⟩
    rw [hlive] at hgone
    cases hgone
  revert hterm hnot
  cases o.status <;> simp [Status.terminal]

/-- A live Resource with an edge to a target is what `hasReferences` looks for. -/
theorem Lockstep.hasReferences_of_edge {db : Db} (h : Lockstep db) {e : Edge} (he : e ∈ db.edges)
    {r : ResourceRow} (hr : r ∈ db.resources) (hru : r.uid = e.referrerUid)
    (hlive : r.deletedAt = none) : db.hasReferences e.targetUid = true := by
  have hfind : db.resource e.referrerUid = some r := by
    rw [← hru]
    exact Table.find_of_mem h.uids hr
  simp only [Db.hasReferences, List.any_eq_true]
  exact ⟨e, he, by simp [hfind, hlive]⟩

section Accept

variable {db db' : Db} {record : AcceptRecord} {references : Option (List Reference)}
  {rows' : List ResourceRow}

/-- **An acceptance keeps the references safe**: what is new leads to free targets, and
an accepted delete found no live referrer. -/
theorem Referential.accept (h : Referential db) (hl : Lockstep db) (hl' : Lockstep db')
    (hacc : Accepted db db' record references rows')
    (hback : ∀ r ∈ rows', r.deletedAt = none →
      (∃ s ∈ db.resources, s.uid = r.uid ∧ s.deletedAt = none) ∨
        ∀ s ∈ db.resources, s.uid ≠ r.uid)
    (hforth : ∀ s ∈ db.resources, ∃ r ∈ rows', r.uid = s.uid)
    (hself : ∃ r ∈ rows', r.uid = record.resourceUid)
    (hdelete : record.action = .delete → db.hasReferences record.resourceUid = false) :
    Referential db' := by
  -- the new rows are those of this acceptance
  have hocases : ∀ o ∈ db'.operations, o ∈ db.operations ∨ o = Db.acceptedOperation record := by
    intro o ho
    rw [hacc.operations] at ho
    simpa using ho
  have hrowcases : ∀ row ∈ db'.operationReferences, row ∈ db.operationReferences ∨
      row.operationId = record.id ∧ row.reference ∈ references.getD [] := by
    intro row hrow
    rw [hacc.rows, List.mem_append, List.mem_map] at hrow
    rcases hrow with hrow | ⟨_, hmem, rfl⟩
    · exact Or.inl hrow
    · exact Or.inr ⟨rfl, hmem⟩
  refine ⟨?_, ?_, ?_, ?_⟩
  · intro e he
    rw [hacc.resources]
    by_cases hold : e ∈ db.edges
    · obtain ⟨s, hs, hsu⟩ := h.referrers e hold
      obtain ⟨r, hr, hru⟩ := hforth s hs
      exact ⟨r, hr, hru.trans hsu⟩
    · obtain ⟨href, -⟩ := hacc.available e he hold
      obtain ⟨r, hr, hru⟩ := hself
      exact ⟨r, hr, hru.trans href.symm⟩
  · intro row hrow
    rw [hacc.operations]
    rcases hrowcases row hrow with hrow | ⟨hid, -⟩
    · obtain ⟨o, ho, hoid⟩ := h.rows row hrow
      exact ⟨o, List.mem_append_left _ ho, hoid⟩
    · exact ⟨Db.acceptedOperation record, by simp, hid.symm⟩
  · intro e he r hr hru hlive o ho hor hoa
    by_cases hold : e ∈ db.edges
    · obtain ⟨s, hs, hsu, hslive⟩ | hnew := hback r (hacc.resources ▸ hr) hlive
      · rcases hocases o ho with ho | rfl
        · exact h.safe e hold s hs (hsu.trans hru) hslive o ho hor hoa
        · have hnone := hdelete hoa
          have hsome := hl.hasReferences_of_edge hold hs (hsu.trans hru) hslive
          rw [← hor] at hsome
          rw [show record.resourceUid = (Db.acceptedOperation record).resourceUid from rfl,
            hsome] at hnone
          cases hnone
      · obtain ⟨s, hs, hsu⟩ := h.referrers e hold
        exact absurd (hsu.trans hru.symm) (hnew s hs)
    · obtain ⟨-, _, ht, htu, htlive, htfree⟩ := hacc.available e he hold
      rw [← hacc.resources] at ht
      exact hl'.failed_delete_of_free ht htlive htfree ho (hor.trans htu.symm) hoa
  · intro r hr hlive o ho hor hwhich row hrow hrowid
    rcases hocases o ho with ho | rfl
    · have hrow' : row ∈ db.operationReferences := by
        rcases hrowcases row hrow with hrow | ⟨hid, -⟩
        · exact hrow
        · exact absurd (hrowid.symm.trans hid) (hacc.ids o ho)
      obtain ⟨s, hs, hsu, hslive⟩ | hnew := hback r (hacc.resources ▸ hr) hlive
      · have hwhich' : o.status.terminal = false ∨ LastSucceeded db o := by
          refine hwhich.imp_right fun hlast => ⟨hlast.1, fun p hp hpr hps => ?_⟩
          exact hlast.2 p (by rw [hacc.operations]; exact List.mem_append_left _ hp) hpr hps
        have he := h.covered s hs hslive o ho (hor.trans hsu.symm) hwhich' row hrow' hrowid
        rw [hsu] at he
        exact hacc.kept _ he
      · obtain ⟨s, hs, hsu, -⟩ := hl.owned o ho
        exact absurd (hsu.trans hor) (hnew s hs)
    · rcases hrowcases row hrow with hrow | ⟨-, hmem⟩
      · obtain ⟨p, hp, hpid⟩ := h.rows row hrow
        exact absurd (hpid.trans hrowid) (hacc.ids p hp)
      · rw [← hor]
        exact hacc.reserved _ hmem

end Accept

/-! ### The store -/

theorem Referential.of_columns {db db' : Db} (h : Referential db)
    (hr : db'.resources = db.resources)
    (hc : db'.operations.map OperationRow.columns = db.operations.map OperationRow.columns)
    (hrefs : db'.operationReferences = db.operationReferences) (hedges : db'.edges = db.edges) :
    Referential db' := by
  have hback := fun x => exists_columns hc (x := x)
  have hforth := fun y => exists_columns hc.symm (x := y)
  refine ⟨?_, ?_, ?_, ?_⟩
  · rw [hr, hedges]; exact h.referrers
  · intro row hrow
    rw [hrefs] at hrow
    obtain ⟨y, hy, hyid⟩ := h.rows row hrow
    obtain ⟨x, hx, hxid, -⟩ := hforth y hy
    exact ⟨x, hx, hxid.trans hyid⟩
  · intro e he r hr' hru hlive o ho hor hoa
    rw [hedges] at he
    rw [hr] at hr'
    obtain ⟨y, hy, -, hyr, -, hys, hya⟩ := hback o ho
    rw [← hys]
    exact h.safe e he r hr' hru hlive y hy (hyr.trans hor) (hya.trans hoa)
  · intro r hr' hlive o ho hor hwhich row hrow hrowid
    rw [hr] at hr'
    rw [hrefs] at hrow
    rw [hedges]
    obtain ⟨y, hy, hyid, hyr, hyg, hys, -⟩ := hback o ho
    refine h.covered r hr' hlive y hy (hyr.trans hor) ?_ row hrow (hrowid.trans hyid.symm)
    rcases hwhich with hun | ⟨hsucc, hmax⟩
    · exact Or.inl (by rw [hys]; exact hun)
    · refine Or.inr ⟨hys.trans hsucc, fun p hp hpr hps => ?_⟩
      obtain ⟨x, hx, -, hxr, hxg, hxs, -⟩ := hforth p hp
      rw [← hxg, hyg]
      exact hmax x hx (hxr.trans (hpr.trans hyr)) (hxs.trans hps)

theorem Referential.progress {db db' : Db} (h : Referential db) (hl : Lockstep db)
    (hp : Progress db db') : Referential db' := by
  cases hp with
  | inputs => exact h.of_columns rfl rfl rfl rfl
  | status rows _ _ hold hupdate =>
    have h₁ : Referential { db with privateInputs := rows } := h.of_columns rfl rfl rfl rfl
    have hl₁ : Lockstep { db with privateInputs := rows } := hl.of_columns rfl rfl
    exact h₁.updateOperation hl₁ hold hupdate
  | defer _ _ hold =>
    refine h.of_columns rfl (Table.map_put _ fun x hx hk => ?_) rfl rfl
    rw [Table.eq_of_key hl.ids hx hold hk]
    rfl

/-- **One write keeps the references safe.** -/
theorem Referential.write {db db' : Db} (h : Referential db) (hl : Lockstep db)
    (hw : Write db db') : Referential db' := by
  have hl' := hl.write hw
  cases hw with
  | progress hp => exact h.progress hl hp
  | create _ _ _ _ _ _ haction _ _ huid hacc =>
    refine h.accept hl hl' hacc ?_ ?_ ?_ ?_
    · intro r hr hlive
      rcases List.mem_append.mp hr with hr | hr
      · exact Or.inl ⟨r, hr, rfl, hlive⟩
      · rw [List.mem_singleton] at hr
        rw [hr]
        exact Or.inr huid
    · exact fun s hs => ⟨s, List.mem_append_left _ hs, rfl⟩
    · exact ⟨_, List.mem_append_right _ (List.mem_singleton_self _), rfl⟩
    · intro hd
      rw [haction] at hd
      cases hd
  | change record references r haction hreferences hr huid hprincipal hlive hgeneration hfree
      hdelete hcheck hacc =>
    have hput : Db.changedResource r record ∈
        Table.put ResourceRow.uid (Db.changedResource r record) db.resources :=
      Table.mem_put_self hr rfl
    refine h.accept hl hl' hacc ?_ ?_ ⟨_, hput, huid⟩ hdelete
    · intro s hs hslive
      rw [Table.mem_put] at hs
      rcases hs with ⟨hs, -⟩ | ⟨rfl, -⟩
      · exact Or.inl ⟨s, hs, rfl, hslive⟩
      · exact Or.inl ⟨r, hr, rfl, hlive⟩
    · intro s hs
      by_cases hk : s.uid = r.uid
      · exact ⟨_, hput, hk.symm⟩
      · exact ⟨s, Table.mem_put_of_ne hs hk, rfl⟩

/-- **References are safe in every state of the store.** -/
theorem referential_of_reachable {db : Db} (h : store.Reachable db) : Referential db := by
  refine Machine.Reachable.invariant (by constructor <;> simp [store]) ?_ h
  intro db action db' hr hdb hn
  have hl := lockstep_of_reachable hr
  exact hdb.write hl (hl.write_next hn)

/-- **Referential safety.**  In every state of the store, an edge of a live Resource
leads to one that is not deleted and whose accepted deletes all failed, and the edges
of a live Resource cover the references of its last succeeded Operation and of every
Operation of it that has not ended. -/
theorem referential_safety {db : Db} (hdb : store.Reachable db) :
    (∀ e ∈ db.edges, ∀ r ∈ db.resources, r.uid = e.referrerUid → r.deletedAt = none →
      (∀ target ∈ db.resources, target.uid = e.targetUid → target.deletedAt = none) ∧
      (∀ o ∈ db.operations, o.resourceUid = e.targetUid → o.action = .delete →
        o.status = .failed)) ∧
    (∀ r ∈ db.resources, r.deletedAt = none → ∀ o ∈ db.operations, o.resourceUid = r.uid →
      (LastSucceeded db o ∨ o.status.terminal = false) →
      ∀ row ∈ db.operationReferences, row.operationId = o.id →
        ⟨row.reference.resourceUid, r.uid⟩ ∈ db.edges) := by
  have hl := lockstep_of_reachable hdb
  have h := referential_of_reachable hdb
  refine ⟨fun e he r hr hru hlive => ⟨fun target ht htu => ?_, ?_⟩, ?_⟩
  · by_contra hgone
    obtain ⟨o, ho, hor, hoa, hos⟩ :=
      (hl.deleted target ht).mp (Option.isSome_iff_ne_none.mpr hgone)
    have hfailed := h.safe e he r hr hru hlive o ho (hor.trans htu) hoa
    rw [hfailed] at hos
    cases hos
  · exact h.safe e he r hr hru hlive
  · intro r hr hlive o ho hor hwhich
    exact h.covered r hr hlive o ho hor hwhich.symm

/-- A Resource created, a second one created that refers to it, and a deletion of the
first one refused. -/
def referenceRun : List StoreAction :=
  deletionRun.take 4 ++
    [.insertCreate (requestRecord 2 20 "refer" .create 1) "form" "space" "referrer"
      (some [⟨10, "form", .observed, none⟩]) (.obj []) none none false,
    .insertChange (requestRecord 3 10 "delete" .delete 2) none false none none false]

theorem referential_safety_referenceRun :
    ∃ db, store.Reachable db ∧ (⟨10, 20⟩ : Edge) ∈ db.edges ∧
      ∀ target ∈ db.resources, target.uid = 10 → target.deletedAt = none := by
  obtain ⟨db, hdb, hp⟩ := Machine.exists_reachable_of_run (M := store) referenceRun
    (fun db => decide ((⟨10, 20⟩ : Edge) ∈ db.edges) &&
      db.resources.any fun r => r.uid == 20 && r.deletedAt.isNone) (by decide)
  simp only [Bool.and_eq_true, decide_eq_true_eq, List.any_eq_true, beq_iff_eq,
    Option.isNone_iff_eq_none] at hp
  obtain ⟨he, r, hr, hru, hlive⟩ := hp
  exact ⟨db, hdb, he, ((referential_safety hdb).1 _ he r hr hru hlive).1⟩

end Takoserver.V2
