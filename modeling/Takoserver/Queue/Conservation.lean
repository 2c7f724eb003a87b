import Takoserver.Queue.Moves

/-!
# No message is lost or doubled

Every message that was admitted is one live row, in its own queue or in a dead-letter queue it
was carried to, until its lease is acknowledged, its retention is over, or its attempts are
used up with no dead-letter queue to carry it to.

The count behind it: the rows of an admitted message, and its deletions for one of these
reasons, are together always one.
-/

namespace Takoserver.Queue

/-- Where transfers have carried the message admitted as `o`: from a queue in which its attempts
were used up to the dead-letter queue of the policy it was leased under. -/
inductive Tables.Carried (t : Tables) (o : ℕ) : String → Prop
  | admitted (a : Admitted) (h : t.admitted[o]? = some a) : Carried t o a.queueId
  | deadLetter (m copy : Message) (target : QueueTarget) (h : (m, copy) ∈ t.copied)
      (horigin : m.origin = o) (hfrom : Carried t o m.queueId) (hexhausted : m.exhausted = true)
      (htarget : m.deadLetterQueue = some target) : Carried t o target.queueId

def Tables.rowsOf (t : Tables) (o : ℕ) : List Message :=
  t.messages.filter fun m => decide (m.origin = o)

/-- A deletion of the message admitted as `o` for a reason that justifies it. -/
def Tables.Removed (t : Tables) (o : ℕ) : Prop :=
  ∃ m why, (m, why) ∈ t.deleted ∧ m.origin = o ∧ why.justifies m = true

/-- How often a message was removed. -/
def Tables.removals (t : Tables) (o : ℕ) : ℕ :=
  t.deleted.countP fun d => d.2.justifies d.1 && decide (d.1.origin = o)

/-- How many rows a message has. -/
def Tables.copies (t : Tables) (o : ℕ) : ℕ := t.messages.countP fun m => decide (m.origin = o)

/-- What every statement keeps. -/
structure Conserved (t : Tables) : Prop where
  keys : (t.messages.map Message.key).Nodup
  balance : ∀ o, t.copies o + t.removals o = if o < t.admitted.length then 1 else 0
  placed : ∀ m ∈ t.messages, (∃ a, t.admitted[m.origin]? = some a ∧ a.body = m.body) ∧
    t.Carried m.origin m.queueId

variable {lic : Licence} {t t' : Tables} {o : ℕ} {q : String}

/-- More admissions and more copies carry a message no less far. -/
theorem Tables.Carried.mono
    (hadmitted : ∀ (o : ℕ) (a : Admitted), t.admitted[o]? = some a → t'.admitted[o]? = some a)
    (hcopied : t.copied ⊆ t'.copied) (h : t.Carried o q) : t'.Carried o q := by
  induction h with
  | admitted a h => exact Carried.admitted a (hadmitted _ a h)
  | deadLetter m copy target h horigin _ hexhausted htarget ih =>
    exact Carried.deadLetter m copy target (hcopied h) horigin ih hexhausted htarget

theorem getElem?_append_of_eq_some {α : Type*} {l l' : List α} {i : ℕ} {a : α}
    (h : l[i]? = some a) : (l ++ l')[i]? = some a := by
  have hi : i < l.length := by
    by_contra hno
    rw [List.getElem?_eq_none (by omega)] at h
    cases h
  rw [List.getElem?_append_left hi]
  exact h

theorem Conserved.congr (h : Conserved t) (hm : t'.messages = t.messages)
    (ha : t'.admitted = t.admitted) (hc : t'.copied = t.copied) (hd : t'.deleted = t.deleted) :
    Conserved t' := by
  refine ⟨by rw [hm]; exact h.keys, ?_, ?_⟩
  · intro o
    have hb := h.balance o
    simp only [Tables.copies, Tables.removals] at hb ⊢
    rw [hm, ha, hd]
    exact hb
  · intro m hmem
    rw [hm] at hmem
    obtain ⟨hbody, hcarried⟩ := h.placed m hmem
    refine ⟨by rw [ha]; exact hbody, hcarried.mono (fun o a => ?_) (by rw [hc]; exact List.Subset.refl _)⟩
    rw [ha]
    exact id

theorem Turn.keeps {m m' : Message} (h : Turn lic t m m') :
    m'.key = m.key ∧ m'.body = m.body ∧ m'.origin = m.origin := by
  cases h <;> exact ⟨rfl, rfl, rfl⟩

theorem Conserved.admitted (h : Conserved t) {m : Message}
    (hkey : t.message m.queueId m.messageId = none) (horigin : m.origin = t.admitted.length) :
    Conserved { t with
      messages := t.messages ++ [m]
      admitted := t.admitted ++ [⟨m.queueId, m.body⟩] } := by
  have hlast : (t.admitted ++ [⟨m.queueId, m.body⟩])[m.origin]? = some ⟨m.queueId, m.body⟩ := by
    rw [horigin, List.getElem?_append_right le_rfl]
    simp
  refine ⟨Table.nodup_insert h.keys (Table.find_none.mp hkey), ?_, ?_⟩
  · intro o
    have hb := h.balance o
    simp only [Tables.copies, Tables.removals, List.countP_append, List.countP_singleton,
      decide_eq_true_eq, List.length_append, List.length_singleton] at hb ⊢
    split at hb <;> split <;> split <;> omega
  · intro x hx
    rcases List.mem_append.mp hx with hx | hx
    · obtain ⟨⟨a, ha, hbody⟩, hcarried⟩ := h.placed x hx
      exact ⟨⟨a, getElem?_append_of_eq_some ha, hbody⟩,
        hcarried.mono (fun o a => getElem?_append_of_eq_some) (List.Subset.refl _)⟩
    · rw [List.mem_singleton] at hx
      subst hx
      exact ⟨⟨_, hlast, rfl⟩, Tables.Carried.admitted ⟨x.queueId, x.body⟩ hlast⟩

variable {p : Message → Bool}

theorem Conserved.updated (h : Conserved t) {f : Message → Message}
    (hkeeps : ∀ m ∈ t.messages, p m = true →
      (f m).key = m.key ∧ (f m).body = m.body ∧ (f m).origin = m.origin) :
    Conserved { t with messages := Table.update p f t.messages } := by
  refine ⟨?_, ?_, ?_⟩
  · rw [Table.map_update_of_mem fun m hm hp => (hkeeps m hm hp).1]
    exact h.keys
  · intro o
    have hcount : (Table.update p f t.messages).countP (fun m => decide (m.origin = o)) =
        t.copies o :=
      Table.countP_update fun m hm hp => by rw [(hkeeps m hm hp).2.2]
    have hb := h.balance o
    simp only [Tables.copies, Tables.removals] at hb hcount ⊢
    omega
  · intro x hx
    have hkeep : ∃ m ∈ t.messages, x.key = m.key ∧ x.body = m.body ∧ x.origin = m.origin := by
      rcases Table.mem_update.mp hx with ⟨hx, -⟩ | ⟨m, hm, hp, rfl⟩
      · exact ⟨x, hx, rfl, rfl, rfl⟩
      · exact ⟨m, hm, hkeeps m hm hp⟩
    obtain ⟨m, hm, hkey, hbody, horigin⟩ := hkeep
    have hqueue : x.queueId = m.queueId := congrArg Prod.fst hkey
    obtain ⟨hadmitted, hcarried⟩ := h.placed m hm
    rw [hbody, horigin, hqueue]
    exact ⟨hadmitted, Tables.Carried.mono (t := t) (fun _ _ => id) (List.Subset.refl _) hcarried⟩

theorem Conserved.deleted (h : Conserved t) {why : Reason}
    (hwhy : ∀ m ∈ t.messages, p m = true → why.justifies m = true) :
    Conserved { t with
      messages := Table.delete p t.messages
      deleted := t.deleted ++ (t.messages.filter p).map fun m => (m, why) } := by
  refine ⟨Table.nodup_delete h.keys, ?_, ?_⟩
  · intro o
    have hb := h.balance o
    have hsplit := Table.countP_delete_add (p := p) (fun m : Message => decide (m.origin = o))
      t.messages
    -- each row deleted is counted as a removal of its message
    have hlog : ((t.messages.filter p).map fun m => (m, why)).countP
        (fun d => d.2.justifies d.1 && decide (d.1.origin = o)) =
        (t.messages.filter p).countP fun m => decide (m.origin = o) := by
      rw [List.countP_map]
      refine List.countP_congr fun m hm => ?_
      have hm := List.mem_filter.mp hm
      simp [hwhy m hm.1 hm.2]
    simp only [Tables.copies, Tables.removals, List.countP_append, hlog] at hb ⊢
    omega
  · intro m hm
    obtain ⟨hadmitted, hcarried⟩ := h.placed m (Table.mem_delete.mp hm).1
    exact ⟨hadmitted, Tables.Carried.mono (t := t) (fun _ _ => id) (List.Subset.refl _) hcarried⟩

theorem Conserved.transferred (h : Conserved t) {m : Message}
    {target : QueueTarget} {deadLetterId : String} {millis : Instant} {n : Notice}
    (hm : m ∈ t.messages) (hp : p m = true) (hkey : ∀ x ∈ t.messages, p x = true → x.key = m.key)
    (hexhausted : m.exhausted = true) (htarget : m.deadLetterQueue = some target)
    (hfree : t.message target.queueId deadLetterId = none) :
    Conserved { t.upsertNotice n with
      messages := Table.delete p t.messages ++ [m.deadLetter target deadLetterId millis]
      copied := t.copied ++ [(m, m.deadLetter target deadLetterId millis)]
      deleted := t.deleted ++ (t.messages.filter p).map fun m => (m, .exhaustion) } := by
  have hone : t.messages.filter p = [m] := Table.filter_eq_singleton h.keys hm hp hkey
  refine ⟨?_, ?_, ?_⟩
  · refine Table.nodup_insert (Table.nodup_delete h.keys) fun x hx => ?_
    exact Table.find_none.mp hfree x (Table.mem_delete.mp hx).1
  · intro o
    have hb := h.balance o
    have hsplit := Table.countP_delete_add (p := p) (fun m : Message => decide (m.origin = o))
      t.messages
    have hlast : Reason.exhaustion.justifies m = false := by
      simp [Reason.justifies, htarget]
    -- the copy is counted for the row removed, and its removal is none of the message
    have hcopies : (Table.delete p t.messages ++ [m.deadLetter target deadLetterId millis]).countP
        (fun m => decide (m.origin = o)) = t.copies o := by
      rw [List.countP_append, Tables.copies, ← hsplit, hone]
      rfl
    have hremovals : (t.deleted ++ (t.messages.filter p).map fun m => (m, Reason.exhaustion)).countP
        (fun d => d.2.justifies d.1 && decide (d.1.origin = o)) = t.removals o := by
      rw [List.countP_append, Tables.removals, hone]
      simp [hlast]
    rw [← hcopies, ← hremovals] at hb
    exact hb
  · intro x hx
    have hmono : ∀ {o q}, t.Carried o q → Tables.Carried { t.upsertNotice n with
        messages := Table.delete p t.messages ++ [m.deadLetter target deadLetterId millis]
        copied := t.copied ++ [(m, m.deadLetter target deadLetterId millis)]
        deleted := t.deleted ++ (t.messages.filter p).map fun m => (m, .exhaustion) } o q :=
      fun h => Tables.Carried.mono (t := t) (fun _ _ => id) (List.subset_append_left _ _) h
    rcases List.mem_append.mp hx with hx | hx
    · obtain ⟨hadmitted, hcarried⟩ := h.placed x (Table.mem_delete.mp hx).1
      exact ⟨hadmitted, hmono hcarried⟩
    · rw [List.mem_singleton] at hx
      subst hx
      obtain ⟨hadmitted, hcarried⟩ := h.placed m hm
      refine ⟨hadmitted, ?_⟩
      refine Tables.Carried.deadLetter m (m.deadLetter target deadLetterId millis) target ?_ rfl
        (hmono hcarried) hexhausted htarget
      exact List.mem_append_right _ (List.mem_singleton_self _)

theorem Conserved.effect (h : Conserved t) (hstep : Effect lic t t') : Conserved t' := by
  cases hstep with
  | admitted m hkey _ horigin => exact h.admitted hkey horigin
  | turned p f hturn => exact h.updated fun m hm hp => (hturn m hm hp).keeps
  | refunded p v _ =>
    have hupdated := h.updated (p := p) (f := Message.refunded v) fun m _ _ => ⟨rfl, rfl, rfl⟩
    exact hupdated.congr rfl rfl rfl rfl
  | deleted why p hwhy => exact h.deleted fun m hm hp => (hwhy m hm hp).1
  | transferred _ _ _ _ _ _ hm hp hkey _ hexhausted htarget hfree =>
    exact h.transferred hm hp hkey hexhausted htarget hfree
  | _ => exact h.congr rfl rfl rfl rfl

theorem conserved_of_reachable {s : Host} (h : queues.Reachable s) : Conserved s.tables := by
  refine (tables_invariant (P := Conserved) ⟨List.nodup_nil, fun o => rfl, by simp⟩ ?_ ?_ h).1
  · rintro t _ ht (⟨_, -⟩ | ⟨_, hstep⟩ | ⟨_, hstep⟩)
    · exact ht.congr rfl rfl rfl rfl
    · exact ht.effect hstep
    · cases hstep <;> exact ht.congr rfl rfl rfl rfl
  · intro t t' ht hstep
    cases hstep <;> exact ht.congr rfl rfl rfl rfl

theorem removals_pos_iff : 0 < t.removals o ↔ t.Removed o := by
  unfold Tables.removals Tables.Removed
  rw [List.countP_pos_iff]
  constructor
  · rintro ⟨⟨m, why⟩, hmem, hd⟩
    simp only [Bool.and_eq_true, decide_eq_true_eq] at hd
    exact ⟨m, why, hmem, hd.2, hd.1⟩
  · rintro ⟨m, why, hmem, horigin, hwhy⟩
    exact ⟨(m, why), hmem, by simp [horigin, hwhy]⟩

/-- **A message is neither lost nor doubled.**  In every reachable state each admitted message
either was removed, by an acknowledgement of its lease, by the end of its retention or by
exhaustion without a dead-letter queue, and has no row left; or it was not, and has exactly one
row, with its body, in its queue or in a dead-letter queue that exhausted attempts carried it
to. -/
theorem message_conserved {s : Host} (h : queues.Reachable s) (o : ℕ) (a : Admitted)
    (ha : s.tables.admitted[o]? = some a) :
    (s.tables.Removed o ∧ s.tables.rowsOf o = []) ∨
      (¬ s.tables.Removed o ∧ ∃ m, s.tables.rowsOf o = [m] ∧ m.body = a.body ∧
        s.tables.Carried o m.queueId) := by
  have hc := conserved_of_reachable h
  have ho : o < s.tables.admitted.length := by
    by_contra hno
    rw [List.getElem?_eq_none (by omega)] at ha
    cases ha
  have hb := hc.balance o
  rw [if_pos ho] at hb
  have hlength : (s.tables.rowsOf o).length = s.tables.copies o := by
    rw [Tables.rowsOf, Tables.copies, List.countP_eq_length_filter]
  by_cases hr : s.tables.Removed o
  · refine Or.inl ⟨hr, List.length_eq_zero_iff.mp ?_⟩
    have hpos := removals_pos_iff.mpr hr
    omega
  refine Or.inr ⟨hr, ?_⟩
  have hzero : ¬ 0 < s.tables.removals o := fun hpos => hr (removals_pos_iff.mp hpos)
  obtain ⟨m, hm⟩ := List.length_eq_one_iff.mp (show (s.tables.rowsOf o).length = 1 by omega)
  have hrow : m ∈ s.tables.rowsOf o := by
    rw [hm]
    exact List.mem_singleton_self m
  obtain ⟨hmem, horigin⟩ := List.mem_filter.mp hrow
  have horigin : m.origin = o := of_decide_eq_true horigin
  subst horigin
  obtain ⟨⟨_, ha', hbody⟩, hcarried⟩ := hc.placed m hmem
  rw [ha, Option.some.injEq] at ha'
  subst ha'
  exact ⟨m, hm, hbody.symm, hcarried⟩

/-! ### A transfer -/

/-- A consumer without retries that has a dead-letter queue. -/
def transferConsumer : ConsumerGeneration where
  queueId := "jobs"
  consumerId := "worker"
  generation := 1
  policy := ⟨0, 0, some ⟨"failed", 86400, 0⟩⟩

/-- A message is admitted, claimed, and returned for a retry. -/
def transferRun : List Action :=
  [.call (.activateConsumer transferConsumer 0) [] true,
   .call (.admitBatch ⟨"jobs", 86400, 0⟩ [{ messageId := "m", body := [1] }] 1000) [] true,
   .call (.claim { toIdentity := transferConsumer.toIdentity, limit := 1, leaseMillis := 1000 } 2000
    ⟨2, 2, 2, 2⟩ { lease := "lease" }) [] true,
   .call (.settle
    { toIdentity := transferConsumer.toIdentity
      leaseToken := "lease"
      messageId := "m"
      body := [1]
      enqueuedAt := 1000
      visibleAt := 1000
      attempts := 1
      policy := transferConsumer.policy } { outcome := .retry } 3000 "copy") [] true]

theorem message_conserved_transferRun :
    ∃ s, queues.Reachable s ∧ s.tables.copied ≠ [] ∧
      s.tables.admitted[0]? = some ⟨"jobs", [1]⟩ ∧
      ((s.tables.Removed 0 ∧ s.tables.rowsOf 0 = []) ∨
        (¬ s.tables.Removed 0 ∧ ∃ m, s.tables.rowsOf 0 = [m] ∧ m.body = [1] ∧
          s.tables.Carried 0 m.queueId)) := by
  obtain ⟨s, hs, hp⟩ := Machine.exists_reachable_of_run (M := queues) transferRun
    (fun s => decide (s.tables.copied ≠ [] ∧
      s.tables.admitted[0]? = (some ⟨"jobs", [1]⟩ : Option Admitted)))
    (by decide +kernel)
  obtain ⟨hcopied, hadmitted⟩ := of_decide_eq_true hp
  exact ⟨s, hs, hcopied, hadmitted, message_conserved hs 0 ⟨"jobs", [1]⟩ hadmitted⟩

end Takoserver.Queue
