import Takoserver.Lib.Framing

/-!
# The frames of an object body

`decodeSelfhostObjectBodyFrames` of `src/selfhost-object-store.ts`: a body that comes in chunks of
any sizes is a series of records, each after its length, and a marker at its very end.
-/

namespace Takoserver.ObjectStore

open Framing

/-- `OBJECT_FRAME_HEADER_BYTES`. -/
def headerBytes : ℕ := 4

/-- The reader of the source stream: what is unread of the chunk at hand, and what comes. -/
structure Reader where
  buffered : List UInt8
  chunks : List (List UInt8)

/-- The bytes that are still to be read. -/
def Reader.unread (r : Reader) : List UInt8 := r.buffered ++ r.chunks.flatten

/-- `take`: at most `maximum` bytes of one chunk, or none at the end of the stream. -/
def takeFrom (maximum : ℕ) (buffered : List UInt8) :
    List (List UInt8) → Option (List UInt8 × Reader)
  | [] =>
    if buffered = [] then none else some (buffered.take maximum, ⟨buffered.drop maximum, []⟩)
  | next :: chunks =>
    if buffered = [] then takeFrom maximum next chunks
    else some (buffered.take maximum, ⟨buffered.drop maximum, next :: chunks⟩)

/-- `take` of the reader. -/
def Reader.take (maximum : ℕ) (r : Reader) : Option (List UInt8 × Reader) :=
  takeFrom maximum r.buffered r.chunks

/-- The loop that fills the header, which is `missing` bytes short: each turn takes one or more. -/
def fill : ℕ → ℕ → Reader → Option (List UInt8 × Reader)
  | _, 0, r => some ([], r)
  | 0, _ + 1, _ => none
  | fuel + 1, missing + 1, r =>
    (r.take (missing + 1)).bind fun (bytes, r) =>
      (fill fuel (missing + 1 - bytes.length) r).map fun (header, r) => (bytes ++ header, r)

/-- `DataView.getUint32` of the header, with the reader after it. -/
def Reader.size (r : Reader) : Option (ℕ × Reader) :=
  (fill headerBytes headerBytes r).map fun (header, r) => (readBigEndian header, r)

/-- The reader, and what is left of the frame. -/
structure Decoder where
  reader : Reader
  remaining : ℕ

/-- What one `pull` does to the stream. -/
inductive Pull where
  | enqueue (bytes : List UInt8) (d : Decoder)
  | close
  | error

/-- The second half of `pull`: bytes of the record. -/
def payload (remaining : ℕ) (r : Reader) : Pull :=
  match r.take remaining with
  | none => .error
  | some (bytes, r) => .enqueue bytes ⟨r, remaining - bytes.length⟩

/-- `pull`. -/
def Decoder.pull (d : Decoder) : Pull :=
  if d.remaining = 0 then
    match d.reader.size with
    | none => .error
    | some (size, r) =>
      if size = 0xffffffff then if (r.take 1).isSome then .error else .close
      else if size = 0 ∨ 65536 < size then .error
      else payload size r
  else payload d.remaining d.reader

/-- How a stream ends. -/
inductive Ending where
  | closed
  | errored

/-! ### What is taken -/

variable {r : Reader} {d d' : Decoder} {maximum : ℕ}

/-- Some of what is unread is taken, and none only where there is none. -/
theorem take_cases (hmax : 0 < maximum) (r : Reader) : (r.take maximum = none ∧ r.unread = []) ∨
    ∃ bytes r', r.take maximum = some (bytes, r') ∧ bytes ≠ [] ∧ bytes.length ≤ maximum ∧
      r.unread = bytes ++ r'.unread := by
  have hpart (buffered : List UInt8) (chunks : List (List UInt8)) (hne : buffered ≠ []) :
      buffered.take maximum ≠ [] ∧ (buffered.take maximum).length ≤ maximum ∧
        Reader.unread ⟨buffered, chunks⟩ =
          buffered.take maximum ++ Reader.unread ⟨buffered.drop maximum, chunks⟩ := by
    refine ⟨?_, List.length_take_le .., ?_⟩
    · rw [Ne, List.take_eq_nil_iff, not_or]
      exact ⟨Nat.ne_of_gt hmax, hne⟩
    · rw [Reader.unread, Reader.unread, ← List.append_assoc, List.take_append_drop]
  obtain ⟨buffered, chunks⟩ := r
  induction chunks generalizing buffered with
  | nil =>
    by_cases hnil : buffered = []
    · exact Or.inl ⟨if_pos hnil, by simp [Reader.unread, hnil]⟩
    · exact Or.inr ⟨_, _, if_neg hnil, hpart buffered [] hnil⟩
  | cons next chunks ih =>
    by_cases hnil : buffered = []
    · have htake : Reader.take maximum ⟨buffered, next :: chunks⟩ =
          Reader.take maximum ⟨next, chunks⟩ := if_pos hnil
      have hunread : Reader.unread ⟨buffered, next :: chunks⟩ = Reader.unread ⟨next, chunks⟩ := by
        simp [Reader.unread, hnil]
      rw [htake, hunread]
      exact ih next
    · exact Or.inr ⟨_, _, if_neg hnil, hpart buffered (next :: chunks) hnil⟩

theorem isSome_take (hmax : 0 < maximum) : (r.take maximum).isSome = true ↔ r.unread ≠ [] := by
  rcases take_cases hmax r with ⟨hnone, hnil⟩ | ⟨_, _, hsome, hne, -, hunread⟩
  · simp [hnone, hnil]
  · simp [hsome, hunread, hne]

theorem fill_cases {fuel missing : ℕ} (hfuel : missing ≤ fuel) (r : Reader) :
    (fill fuel missing r = none ∧ r.unread.length < missing) ∨
      ∃ header r', fill fuel missing r = some (header, r') ∧ header.length = missing ∧
        r.unread = header ++ r'.unread := by
  induction fuel generalizing missing r with
  | zero =>
    obtain rfl := Nat.le_zero.mp hfuel
    exact Or.inr ⟨[], r, rfl, rfl, rfl⟩
  | succ fuel ih =>
    cases missing with
    | zero => exact Or.inr ⟨[], r, rfl, rfl, rfl⟩
    | succ missing =>
      rcases take_cases (Nat.succ_pos missing) r with ⟨hnone, hnil⟩ |
        ⟨bytes, r', hsome, hne, _, hunread⟩
      · refine Or.inl ⟨by rw [fill, hnone, Option.bind_none], ?_⟩
        rw [hnil]
        exact Nat.succ_pos missing
      have hpos := List.length_pos_iff.mpr hne
      rw [fill, hsome, Option.bind_some, hunread, List.length_append]
      have hfuel' : missing + 1 - bytes.length ≤ fuel := by omega
      rcases ih hfuel' r' with ⟨hnone, _⟩ |
        ⟨header, r'', hsome', _, hunread'⟩
      · exact Or.inl ⟨by simp only [hnone, Option.map_none], by omega⟩
      · refine Or.inr ⟨bytes ++ header, r'', by simp only [hsome', Option.map_some], ?_, ?_⟩
        · rw [List.length_append]
          omega
        · rw [hunread', List.append_assoc]

theorem size_cases (r : Reader) : (r.size = none ∧ r.unread.length < headerBytes) ∨
    ∃ header r', r.size = some (readBigEndian header, r') ∧ header.length = headerBytes ∧
      r.unread = header ++ r'.unread := by
  rcases fill_cases (Nat.le_refl headerBytes) r with ⟨hnone, hlt⟩ | ⟨header, r', hsome, h⟩
  · exact Or.inl ⟨by rw [Reader.size, hnone, Option.map_none], hlt⟩
  · exact Or.inr ⟨header, r', by rw [Reader.size, hsome, Option.map_some], h⟩

theorem unread_of_payload {remaining : ℕ} {bytes : List UInt8} (hpos : 0 < remaining)
    (h : payload remaining r = .enqueue bytes d) :
    d.reader.unread.length < r.unread.length := by
  unfold payload at h
  rcases take_cases hpos r with ⟨hnone, -⟩ | ⟨_, _, hsome, hne, -, hunread⟩
  · simp only [hnone] at h
    cases h
  · simp only [hsome] at h
    cases h
    rw [hunread, List.length_append]
    exact Nat.lt_add_of_pos_left (List.length_pos_iff.mpr hne)

/-- A `pull` that enqueues has read something. -/
theorem unread_of_pull {bytes : List UInt8} (h : d.pull = .enqueue bytes d') :
    d'.reader.unread.length < d.reader.unread.length := by
  unfold Decoder.pull at h
  split at h
  · rcases size_cases d.reader with ⟨hnone, -⟩ | ⟨_, _, hsome, -, hunread⟩
    · simp only [hnone] at h
      cases h
    simp only [hsome] at h
    split at h
    · split at h <;> cases h
    · split at h
      · cases h
      · next =>
        have hlt := unread_of_payload (by omega) h
        rw [hunread, List.length_append]
        omega
  · exact unread_of_payload (by omega) h

/-! ### What is delivered -/

/-- What the stream delivers until it is closed or ends in an error. -/
def Decoder.deliver (d : Decoder) : List UInt8 × Ending :=
  match _h : d.pull with
  | .enqueue bytes d' =>
      let rest := d'.deliver
      (bytes ++ rest.1, rest.2)
  | .close => ([], .closed)
  | .error => ([], .errored)
termination_by d.reader.unread.length
decreasing_by exact unread_of_pull _h

theorem deliver_eq (d : Decoder) : d.deliver =
    match d.pull with
    | .enqueue bytes d' => (bytes ++ d'.deliver.1, d'.deliver.2)
    | .close => ([], .closed)
    | .error => ([], .errored) := by
  rw [Decoder.deliver]
  split <;> simp_all

/-- `decodeSelfhostObjectBodyFrames` of a stream with the chunks, read to its end. -/
def decode (chunks : List (List UInt8)) : List UInt8 × Ending :=
  Decoder.deliver ⟨⟨[], chunks⟩, 0⟩

/-! ### The format -/

/-- The header of the last frame. -/
def marker : List UInt8 := List.replicate headerBytes 0xff

/-- Records of the lengths that there are. -/
def Recorded (records : List (List UInt8)) : Prop :=
  ∀ record ∈ records, 1 ≤ record.length ∧ record.length ≤ 65536

/-- The records, each after its length, and the marker. -/
def wire (records : List (List UInt8)) : List UInt8 :=
  frame (bigEndian headerBytes) records ++ marker

/-- What is unread of a body: the rest of a record, more of them, and the marker. -/
def Completes (remaining : ℕ) (unread body : List UInt8) : Prop :=
  ∃ head records, head.length = remaining ∧ Recorded records ∧ unread = head ++ wire records ∧
    body = head ++ records.flatten

theorem wire_nil : wire [] = marker := rfl

theorem wire_cons (record : List UInt8) (records : List (List UInt8)) :
    wire (record :: records) = bigEndian headerBytes record.length ++ (record ++ wire records) := by
  simp [wire, frame]

/-- The length of a record is read back from its header. -/
theorem read_header {n : ℕ} (h : n ≤ 65536) : readBigEndian (bigEndian headerBytes n) = n :=
  readBigEndian_bigEndian (Nat.lt_of_le_of_lt h (by decide))

theorem marker_ne {n : ℕ} (h : n ≤ 65536) : marker ≠ bigEndian headerBytes n := by
  intro heq
  have hread := read_header h
  rw [← heq, show readBigEndian marker = 0xffffffff from rfl] at hread
  omega

/-- **No body is the beginning of another.** -/
theorem wire_append {records records' : List (List UInt8)} {rest : List UInt8}
    (h : Recorded records) (h' : Recorded records') (heq : wire records ++ rest = wire records') :
    rest = [] := by
  have hmarker : marker.length = headerBytes := rfl
  induction records generalizing records' with
  | nil =>
    cases records' with
    | nil => simpa [wire_nil] using heq
    | cons record' records' =>
      rw [wire_cons] at heq
      have hheads := (List.append_inj heq (hmarker.trans (length_bigEndian _ _).symm)).1
      exact absurd hheads (marker_ne (h' record' List.mem_cons_self).2)
  | cons record records ih =>
    have hle := (h record List.mem_cons_self).2
    rw [wire_cons, List.append_assoc, List.append_assoc] at heq
    cases records' with
    | nil =>
      rw [wire_nil] at heq
      have hheads := (List.append_inj heq ((length_bigEndian _ _).trans hmarker.symm)).1
      exact absurd hheads.symm (marker_ne hle)
    | cons record' records' =>
      rw [wire_cons] at heq
      obtain ⟨hheads, heq⟩ := List.append_inj heq
        ((length_bigEndian _ _).trans (length_bigEndian _ _).symm)
      have hlength : record.length = record'.length := by
        rw [← read_header hle, hheads, read_header (h' record' List.mem_cons_self).2]
      exact ih (fun x hx => h x (List.mem_cons_of_mem _ hx))
        (fun x hx => h' x (List.mem_cons_of_mem _ hx)) (List.append_inj heq hlength).2

theorem completes_append {remaining : ℕ} {bytes unread body : List UInt8}
    (hle : bytes.length ≤ remaining) : Completes remaining (bytes ++ unread) body ↔
      ∃ body', body = bytes ++ body' ∧ Completes (remaining - bytes.length) unread body' := by
  constructor
  · rintro ⟨head, records, hlength, hrecords, hunread, rfl⟩
    obtain ⟨rest, rfl⟩ : bytes <+: head := List.prefix_of_prefix_length_le
      ⟨unread, hunread⟩ ⟨wire records, rfl⟩ (hlength ▸ hle)
    rw [List.append_assoc, List.append_cancel_left_eq] at hunread
    rw [List.length_append] at hlength
    exact ⟨rest ++ records.flatten, List.append_assoc .., rest, records, by omega, hrecords,
      hunread, rfl⟩
  · rintro ⟨_, rfl, head, records, _, hrecords, rfl, rfl⟩
    refine ⟨bytes ++ head, records, ?_, hrecords, (List.append_assoc ..).symm,
      (List.append_assoc ..).symm⟩
    rw [List.length_append]
    omega

theorem completes_header {header unread body : List UInt8} (hlength : header.length = headerBytes) :
    Completes 0 (header ++ unread) body ↔
      readBigEndian header = 0xffffffff ∧ unread = [] ∧ body = [] ∨
      1 ≤ readBigEndian header ∧ readBigEndian header ≤ 65536 ∧
        Completes (readBigEndian header) unread body := by
  constructor
  · rintro ⟨_, records, hhead, hrecords, hunread, rfl⟩
    obtain rfl := List.length_eq_zero_iff.mp hhead
    cases records with
    | nil =>
      have hunread' : header ++ unread = marker ++ [] := by
        simpa [wire_nil] using hunread
      obtain ⟨rfl, hnil⟩ := List.append_inj hunread' (hlength.trans rfl)
      exact Or.inl ⟨rfl, hnil, rfl⟩
    | cons record records =>
      rw [List.nil_append, wire_cons] at hunread
      obtain ⟨rfl, hrest⟩ := List.append_inj hunread (hlength.trans (length_bigEndian _ _).symm)
      obtain ⟨hpos, hle⟩ := hrecords record List.mem_cons_self
      rw [read_header hle]
      exact Or.inr ⟨hpos, hle, record, records, rfl,
        fun x hx => hrecords x (List.mem_cons_of_mem _ hx), hrest, rfl⟩
  · have hheader := bigEndian_readBigEndian header
    rw [hlength] at hheader
    rintro (⟨hsize, rfl, rfl⟩ | ⟨hpos, hle, record, records, hrecord, hrecords, rfl, rfl⟩)
    · rw [← hheader, hsize]
      exact ⟨[], [], rfl, nofun, rfl, rfl⟩
    · refine ⟨[], record :: records, rfl, List.forall_mem_cons.mpr ⟨?_, hrecords⟩, ?_, rfl⟩
      · rw [hrecord]
        exact ⟨hpos, hle⟩
      · rw [List.nil_append, wire_cons, hrecord, hheader]

theorem not_completes_short {unread body : List UInt8} (h : unread.length < headerBytes) :
    ¬ Completes 0 unread body := by
  rintro ⟨_, _, -, -, rfl, -⟩
  rw [wire, List.length_append, List.length_append, marker, List.length_replicate] at h
  omega

/-- **From any state the decoder delivers what completes the body.** -/
theorem Decoder.deliver_closed_iff (d : Decoder) (body : List UInt8) :
    d.deliver = (body, .closed) ↔ Completes d.remaining d.reader.unread body := by
  induction hn : d.reader.unread.length using Nat.strongRecOn generalizing d body with
  | _ n ih =>
  subst hn
  -- the bytes of a record that are there are delivered, and then what follows them
  have hrecord {remaining : ℕ} {r : Reader} (hpos : 0 < remaining)
      (hle : r.unread.length ≤ d.reader.unread.length) (hpull : d.pull = payload remaining r) :
      d.deliver = (body, .closed) ↔ Completes remaining r.unread body := by
    rw [deliver_eq, hpull, payload]
    rcases take_cases hpos r with ⟨hnone, hnil⟩ | ⟨bytes, r', hsome, hne, hmax, hunread⟩
    · rw [hnone, hnil]
      refine iff_of_false (by simp) ?_
      rintro ⟨_, _, rfl, -, hunread, -⟩
      rw [(List.append_eq_nil_iff.mp hunread.symm).1] at hpos
      cases hpos
    · rw [hunread, List.length_append] at hle
      have hlt := List.length_pos_iff.mpr hne
      have hrest (body' : List UInt8) :=
        ih r'.unread.length (by omega) ⟨r', remaining - bytes.length⟩ body' rfl
      simp only [hsome, hunread, completes_append hmax, ← hrest, Prod.ext_iff]
      constructor
      · rintro ⟨rfl, hclosed⟩
        exact ⟨_, rfl, rfl, hclosed⟩
      · rintro ⟨_, rfl, rfl, hclosed⟩
        exact ⟨rfl, hclosed⟩
  by_cases hremaining : d.remaining = 0
  · rcases size_cases d.reader with ⟨hnone, hlt⟩ | ⟨header, r', hsome, hlength, hunread⟩
    · have hpull : d.pull = .error := by rw [Decoder.pull, if_pos hremaining, hnone]
      rw [deliver_eq, hpull, hremaining]
      exact iff_of_false (by simp) (not_completes_short hlt)
    have hpull : d.pull = if readBigEndian header = 0xffffffff then
        if (r'.take 1).isSome then .error else .close
        else if readBigEndian header = 0 ∨ 65536 < readBigEndian header then .error
        else payload (readBigEndian header) r' := by
      rw [Decoder.pull, if_pos hremaining, hsome]
    rw [hremaining, hunread, completes_header hlength]
    simp only [isSome_take Nat.one_pos] at hpull
    split_ifs at hpull with hmarker hmore hsize
    · rw [deliver_eq, hpull]
      refine iff_of_false (by simp) ?_
      rintro (⟨-, hnil, -⟩ | ⟨-, _, -⟩)
      · exact hmore hnil
      · omega
    · rw [deliver_eq, hpull]
      simp [hmarker, not_not.mp hmore, eq_comm]
    · rw [deliver_eq, hpull]
      refine iff_of_false (by simp) ?_
      rintro (⟨heq, -⟩ | ⟨hpos, hle, -⟩) <;> omega
    · have hpos : 0 < readBigEndian header := by omega
      rw [hrecord hpos (by rw [hunread, List.length_append]; omega) hpull]
      simp only [hmarker, false_and, false_or]
      exact ⟨fun h => ⟨hpos, by omega, h⟩, fun h => h.2.2⟩
  · exact hrecord (Nat.pos_of_ne_zero hremaining) (Nat.le_refl _) (if_neg hremaining)

/-- **A body is delivered just where it is whole records and the marker**, whatever its chunks;
any other ends in an error, and so does each beginning of one that is delivered. -/
theorem decode_iff (chunks : List (List UInt8)) :
    (∀ body, decode chunks = (body, .closed) ↔
      ∃ records, Recorded records ∧ chunks.flatten = wire records ∧ body = records.flatten) ∧
    ((¬∃ records, Recorded records ∧ chunks.flatten = wire records) →
      (decode chunks).2 = .errored) ∧
    ∀ records rest, Recorded records → rest ≠ [] → chunks.flatten ++ rest = wire records →
      (decode chunks).2 = .errored := by
  have hclosed (body : List UInt8) : decode chunks = (body, .closed) ↔
      ∃ records, Recorded records ∧ chunks.flatten = wire records ∧ body = records.flatten := by
    rw [decode, Decoder.deliver_closed_iff]
    constructor
    · rintro ⟨_, records, hhead, hrecords, hunread, rfl⟩
      obtain rfl := List.length_eq_zero_iff.mp hhead
      exact ⟨records, hrecords, hunread, rfl⟩
    · rintro ⟨records, hrecords, hunread, rfl⟩
      exact ⟨[], records, rfl, hrecords, hunread, rfl⟩
  have herrored (hnot : ¬∃ records, Recorded records ∧ chunks.flatten = wire records) :
      (decode chunks).2 = .errored := by
    cases hending : (decode chunks).2 with
    | errored => rfl
    | closed =>
      obtain ⟨records, hrecords, hunread, -⟩ := (hclosed _).mp (Prod.ext rfl hending)
      exact absurd ⟨records, hrecords, hunread⟩ hnot
  refine ⟨hclosed, herrored, fun records rest hrecords hne hunread => herrored ?_⟩
  rintro ⟨_, hrecords', hunread'⟩
  exact hne (wire_append hrecords' hrecords (hunread' ▸ hunread))

end Takoserver.ObjectStore
