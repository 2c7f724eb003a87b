import Takoserver.Lib.Blocks

/-!
# The content checksum of a Zstandard frame

The registry codec sums the expanded bytes of a frame piece by piece, with arithmetic on unbounded
integers masked to 64 bits; the buffer for a short stripe is filled, flushed and used again.
-/

namespace Takoserver.Registry

/-! ### The streaming checksum -/

/-- Products are taken on 64 bits. -/
def MASK : ℕ := (1 <<< 64) - 1
/-- The five primes. -/
def P1 : ℕ := 11400714785074694791
def P2 : ℕ := 14029467366897019727
def P3 : ℕ := 1609587929392839161
def P4 : ℕ := 9650029242287828579
def P5 : ℕ := 2870177450012600261

/-- Rotation to the left. -/
def rot (v n : ℕ) : ℕ := (v <<< n ||| v >>> (64 - n)) &&& MASK

/-- A little-endian word. -/
def u64 (b : List UInt8) (at' : ℕ) : ℕ :=
  (List.range 8).foldr (fun i n => n <<< 8 ||| (b.getD (at' + i) 0).toNat) 0

/-- A little-endian half word. -/
def u32 (b : List UInt8) : ℕ :=
  ((b.getD 0 0).toNat + (b.getD 1 0).toNat * 256 + (b.getD 2 0).toNat * 65536 +
    (b.getD 3 0).toNat * 16777216) % 2 ^ 32

/-- One lane of a stripe. -/
def round (a b : ℕ) : ℕ := rot ((a + b * P2) &&& MASK) 31 * P1 &&& MASK

/-- The total stays exact: the codec passes no more than its bound on expanded bytes. -/
structure Xxh64 where
  v : List ℕ := [(P1 + P2) &&& MASK, P2, 0, (-(P1 : ℤ) % 2 ^ 64).toNat]
  tail : List UInt8 := List.replicate 32 0
  used : ℕ := 0
  total : ℕ := 0

/-- `buffer.set(bytes, at)`. -/
def set (buffer bytes : List UInt8) (at' : ℕ) : List UInt8 :=
  buffer.take at' ++ bytes ++ buffer.drop (at' + bytes.length)

namespace Xxh64

/-- Eight bytes to each lane. -/
def stripe (v : List ℕ) (bytes : List UInt8) : List ℕ := v.mapIdx fun n a => round a (u64 bytes (n * 8))

/-- Sums the whole stripes; what is short of a stripe goes into the tail. -/
def absorb (x : Xxh64) (bytes : List UInt8) : Xxh64 :=
  let (v, rest) := blocks 32 stripe x.v bytes
  if rest = [] then { x with v } else { x with v, tail := set x.tail rest 0, used := rest.length }

/-- A tail in use is filled first, and flushed when full. -/
def update (x : Xxh64) (bytes : List UInt8) : Xxh64 :=
  let x := { x with total := x.total + bytes.length }
  if x.used = 0 then x.absorb bytes else
    let n := min (32 - x.used) bytes.length
    let tail := set x.tail (bytes.take n) x.used
    if x.used + n = 32 then
      { x with v := stripe x.v tail, tail, used := 0 : Xxh64 }.absorb (bytes.drop n)
    else { x with tail, used := x.used + n : Xxh64 }.absorb (bytes.drop n)

/-- The end of `digest`. -/
def avalanche (h : ℕ) : ℕ :=
  let h := (h ^^^ h >>> 33) * P2 &&& MASK
  let h := (h ^^^ h >>> 29) * P3 &&& MASK
  (h ^^^ h >>> 32) &&& MASK

/-- What `digest` does with each sum, with eight bytes, with four and with one. -/
def merge (h v : ℕ) : ℕ := ((h ^^^ round 0 v) * P1 + P4) &&& MASK
/-- The tail, eight bytes at a time, then four, then one. -/
def eight (h : ℕ) (b : List UInt8) : ℕ := (rot (h ^^^ round 0 (u64 b 0)) 27 * P1 + P4) &&& MASK
def four (h : ℕ) (b : List UInt8) : ℕ := (rot (h ^^^ (u32 b * P1 &&& MASK)) 23 * P2 + P3) &&& MASK
def one (h : ℕ) (b : UInt8) : ℕ := rot (h ^^^ (b.toNat * P5 &&& MASK)) 11 * P1 &&& MASK

/-- The lanes merged; a short input has none. -/
def start (v : List ℕ) (total : ℕ) : ℕ :=
  if 32 ≤ total then
    v.foldl merge ((rot (v.getD 0 0) 1 + rot (v.getD 1 0) 7 + rot (v.getD 2 0) 12 +
      rot (v.getD 3 0) 18) &&& MASK)
  else P5

/-- The sum of all bytes so far. -/
def digest (x : Xxh64) : ℕ :=
  let h := (start x.v x.total + x.total) &&& MASK
  let (h, rest) := blocks 8 eight h (x.tail.take x.used)
  let (h, rest) := if 4 ≤ rest.length then (four h rest, rest.drop 4) else (h, rest)
  avalanche (rest.foldl one h)

end Xxh64

/-! ### The checksum of a whole sequence -/

/-- The words of the checksum. -/
abbrev Word := BitVec 64

namespace Word

/-- The primes in hexadecimal. -/
def prime1 : Word := 0x9E3779B185EBCA87
def prime2 : Word := 0xC2B2AE3D27D4EB4F
def prime3 : Word := 0x165667B19E3779F9
def prime4 : Word := 0x85EBCA77C2B2AE63
def prime5 : Word := 0x27D4EB2F165667C5

/-- The value of bytes, the least first. -/
def ofBytes (bytes : List UInt8) : Word := bytes.foldr (fun b n => n * 256 + b.toNat) 0

/-- One lane of a stripe. -/
def round (acc lane : Word) : Word := (acc + lane * prime2).rotateLeft 31 * prime1

/-- A lane merged into the hash. -/
def mergeRound (acc lane : Word) : Word := (acc ^^^ round 0 lane) * prime1 + prime4

/-- Eight bytes of the tail. -/
def eight (h : Word) (b : List UInt8) : Word :=
  (h ^^^ round 0 (ofBytes b)).rotateLeft 27 * prime1 + prime4

/-- Four bytes of the tail. -/
def four (h : Word) (b : List UInt8) : Word :=
  (h ^^^ ofBytes b * prime1).rotateLeft 23 * prime2 + prime3

/-- The last bytes of the tail. -/
def one (h : Word) (b : UInt8) : Word := (h ^^^ ofBytes [b] * prime5).rotateLeft 11 * prime1

/-- Each accumulator takes its lane of eight bytes. -/
def stripe (acc : List Word) (bytes : List UInt8) : List Word :=
  acc.mapIdx fun n a => round a (ofBytes ((bytes.drop (n * 8)).take 8))

/-- The lanes merged; a short input has none. -/
def start (acc : List Word) (length : ℕ) : Word :=
  if 32 ≤ length then
    acc.foldl mergeRound ((acc.getD 0 0).rotateLeft 1 + (acc.getD 1 0).rotateLeft 7 +
      (acc.getD 2 0).rotateLeft 12 + (acc.getD 3 0).rotateLeft 18)
  else prime5

/-- The final mixing. -/
def avalanche (h : Word) : Word :=
  let h := (h ^^^ h >>> 33) * prime2
  let h := (h ^^^ h >>> 29) * prime3
  h ^^^ h >>> 32

end Word

open Word in
/-- XXH64 with seed zero. -/
def xxh64 (bytes : List UInt8) : Word :=
  let (acc, rest) := blocks 32 stripe [prime1 + prime2, prime2, 0, -prime1] bytes
  let (h, rest) := blocks 8 eight (start acc bytes.length + bytes.length) rest
  let (h, rest) := if 4 ≤ rest.length then (four h (rest.take 4), rest.drop 4) else (h, rest)
  avalanche (rest.foldl one h)

/-! ### Arithmetic under the mask -/

theorem and_MASK (n : ℕ) : n &&& MASK = n % 2 ^ 64 := Nat.and_two_pow_sub_one_eq_mod n 64

theorem toNat_rotateLeft (x : Word) {n : ℕ} (h : n < 64) : (x.rotateLeft n).toNat = rot x.toNat n := by
  have hlow : x.toNat >>> (64 - n) < 2 ^ 64 := (Nat.shiftRight_le _ _).trans_lt x.isLt
  rw [BitVec.toNat_rotateLeft, Nat.mod_eq_of_lt h, rot, and_MASK, Nat.or_mod_two_pow,
    Nat.mod_eq_of_lt hlow]

theorem shiftLeft_or (n : ℕ) (b : UInt8) : n <<< 8 ||| b.toNat = n * 256 + b.toNat := by
  rw [← Nat.shiftLeft_add_eq_or_of_lt b.toNat_lt, Nat.shiftLeft_eq]

/-- No more than eight bytes fit a word, and bytes past the end count for nothing. -/
theorem toNat_ofBytes {k : ℕ} (hk : k ≤ 8) (l : List UInt8) :
    (Word.ofBytes (l.take k)).toNat =
        (List.range k).foldr (fun i n => n * 256 + (l.getD i 0).toNat) 0 ∧
      (Word.ofBytes (l.take k)).toNat < 256 ^ k := by
  induction k generalizing l with
  | zero => exact ⟨rfl, Nat.one_pos⟩
  | succ k ih =>
    rw [List.range_succ_eq_map, List.foldr_cons, List.foldr_map]
    cases l with
    | nil =>
      have hval := (ih (by omega) []).1
      simp only [List.take_nil, List.getD_nil] at hval ⊢
      rw [← hval]
      exact ⟨rfl, Nat.pow_pos (by decide)⟩
    | cons b t =>
      obtain ⟨hval, hlt⟩ := ih (by omega) t
      have hb : b.toNat < 256 := b.toNat_lt
      have hpow : 256 ^ (k + 1) ≤ 2 ^ 64 := (Nat.pow_le_pow_right (by decide) hk).trans (by decide)
      have hstep : (Word.ofBytes (b :: t.take k)).toNat =
          (Word.ofBytes (t.take k)).toNat * 256 + b.toNat := by
        show (Word.ofBytes (t.take k) * 256 + (b.toNat : Word)).toNat = _
        rw [BitVec.toNat_add, BitVec.toNat_mul]
        simp
        omega
      rw [List.take_succ_cons, hstep]
      simp only [List.getD_cons_succ, List.getD_cons_zero, ← hval]
      refine ⟨trivial, ?_⟩
      rw [pow_succ]
      omega

theorem u64_eq (b : List UInt8) (n : ℕ) : u64 b n = (Word.ofBytes ((b.drop n).take 8)).toNat := by
  rw [(toNat_ofBytes le_rfl _).1, u64]
  simp only [shiftLeft_or, List.getD_eq_getElem?_getD, List.getElem?_drop]

theorem u32_eq (b : List UInt8) : u32 b = (Word.ofBytes (b.take 4)).toNat := by
  obtain ⟨hval, hlt⟩ := toNat_ofBytes (by decide : 4 ≤ 8) b
  rw [hval] at hlt ⊢
  simp only [List.range, List.range.loop, List.foldr_cons, List.foldr_nil] at hlt ⊢
  rw [u32]
  omega

theorem toNat_primes : Word.prime1.toNat = P1 ∧ Word.prime2.toNat = P2 ∧ Word.prime3.toNat = P3 ∧
    Word.prime4.toNat = P4 ∧ Word.prime5.toNat = P5 := by
  decide

theorem toNat_round (a b : Word) : (Word.round a b).toNat = round a.toNat b.toNat := by
  rw [Word.round, round, BitVec.toNat_mul, toNat_rotateLeft _ (by decide), BitVec.toNat_add,
    BitVec.toNat_mul, toNat_primes.1, toNat_primes.2.1]
  rw [and_MASK, and_MASK, Nat.add_mod_mod]

theorem map_stripe (v : List Word) (bytes : List UInt8) :
    (Word.stripe v bytes).map BitVec.toNat = Xxh64.stripe (v.map BitVec.toNat) bytes := by
  apply List.ext_getElem?
  intro n
  simp only [Word.stripe, Xxh64.stripe, List.getElem?_map, List.getElem?_mapIdx, Option.map_map,
    Function.comp_def, toNat_round, u64_eq]

/-! ### The state after any updates -/

namespace Xxh64

variable {x : Xxh64} {bytes : List UInt8}

/-- What the checksum holds after the bytes: the sums of the whole stripes, and the rest. -/
structure After (x : Xxh64) (bytes : List UInt8) : Prop where
  sums : blocks 32 stripe ({} : Xxh64).v bytes = (x.v, x.tail.take x.used)
  length : x.tail.length = 32
  used : x.used < 32
  total : x.total = bytes.length

theorem length_set {buffer l : List UInt8} {n : ℕ} (h : n + l.length ≤ buffer.length) :
    (set buffer l n).length = buffer.length := by
  simp only [set, List.length_append, List.length_take, List.length_drop]
  omega

theorem take_set {buffer : List UInt8} (l : List UInt8) {n : ℕ} (h : n ≤ buffer.length) :
    (set buffer l n).take (n + l.length) = buffer.take n ++ l :=
  List.take_left' (by rw [List.length_append, List.length_take_of_le h])

theorem absorb_nil : x.absorb [] = x := by
  rw [absorb, blocks_of_length_lt (by decide)]
  rfl

/-- An unused tail takes what is short of a stripe. -/
theorem After.absorb {all : List UInt8} (hused : x.used = 0) (hlength : x.tail.length = 32)
    (htotal : x.total = all.length)
    (hall : blocks 32 stripe ({} : Xxh64).v all = blocks 32 stripe x.v bytes) :
    (x.absorb bytes).After all := by
  have hrest := length_blocks_lt (f := stripe) (b := x.v) (l := bytes) (by decide : 0 < 32)
  rw [Xxh64.absorb]
  cases hblocks : blocks 32 stripe x.v bytes with
  | mk v rest =>
    rw [hblocks] at hall hrest
    dsimp only at hrest ⊢
    split_ifs with h
    · exact ⟨by rw [hall, hused, List.take_zero, h], hlength, by rw [hused]; decide, htotal⟩
    · refine ⟨?_, by rw [length_set (by omega), hlength], hrest, htotal⟩
      have htake := take_set rest (Nat.zero_le x.tail.length)
      rw [hall, ← Nat.zero_add rest.length, htake]
      rfl

theorem After.update (h : x.After bytes) (more : List UInt8) : (x.update more).After (bytes ++ more) := by
  have hused := h.used
  have hlength := h.length
  have htotal : x.total + more.length = (bytes ++ more).length := by
    rw [h.total, List.length_append]
  have hall : blocks 32 stripe ({} : Xxh64).v (bytes ++ more) =
      blocks 32 stripe x.v (x.tail.take x.used ++ more) := by
    rw [blocks_append, h.sums]
  rw [Xxh64.update]
  dsimp only
  have hn : (more.take (min (32 - x.used) more.length)).length = min (32 - x.used) more.length := by
    rw [List.length_take, min_assoc, min_self]
  generalize hm : min (32 - x.used) more.length = n at hn ⊢
  have hfill : (set x.tail (more.take n) x.used).length = 32 := by
    rw [length_set (by omega), hlength]
  have htake : (set x.tail (more.take n) x.used).take (x.used + n) = x.tail.take x.used ++ more.take n := by
    have := take_set (more.take n) (hlength ▸ hused.le)
    rwa [hn] at this
  split_ifs with hzero hfull
  · refine .absorb hzero hlength htotal ?_
    rw [hall, hzero, List.take_zero, List.nil_append]
  · -- the full tail is the next stripe
    refine .absorb rfl hfill htotal ?_
    rw [hfull, List.take_of_length_le hfill.le] at htake
    rw [hall, ← List.take_append_drop n more, ← List.append_assoc, ← htake,
      blocks_append_of_length_eq (by decide) hfill, List.take_append_drop]
  · -- the bytes end before the tail is full
    have hmore : more.length ≤ n := by omega
    rw [List.drop_of_length_le hmore, absorb_nil]
    have htail : x.tail.take x.used ++ more =
        (set x.tail (more.take n) x.used).take (x.used + n) := by
      rw [htake, List.take_of_length_le hmore]
    refine ⟨?_, hfill, by show x.used + n < 32; omega, htotal⟩
    rw [hall, htail]
    refine blocks_of_length_lt ?_
    rw [List.length_take]
    omega

/-! ### The digest -/

theorem toNat_avalanche (h : Word) : (Word.avalanche h).toNat = avalanche h.toNat := by
  have hlast (w : Word) : (w ^^^ w >>> 32).toNat % 2 ^ 64 = (w ^^^ w >>> 32).toNat :=
    Nat.mod_eq_of_lt (BitVec.isLt _)
  rw [Word.avalanche, avalanche]
  rw [← hlast, and_MASK, and_MASK, and_MASK, BitVec.toNat_xor, BitVec.toNat_ushiftRight,
    BitVec.toNat_mul, BitVec.toNat_xor, BitVec.toNat_ushiftRight, BitVec.toNat_mul,
    BitVec.toNat_xor, BitVec.toNat_ushiftRight, toNat_primes.2.1, toNat_primes.2.2.1]

theorem toNat_merge (h v : Word) : (Word.mergeRound h v).toNat = merge h.toNat v.toNat := by
  rw [Word.mergeRound, merge, and_MASK, BitVec.toNat_add, BitVec.toNat_mul, BitVec.toNat_xor,
    toNat_round, toNat_primes.1, toNat_primes.2.2.2.1, Nat.mod_add_mod]
  rfl

theorem toNat_start (acc : List Word) (length : ℕ) :
    start (acc.map BitVec.toNat) length = (Word.start acc length).toNat := by
  have hlane (n : ℕ) : (acc.map BitVec.toNat).getD n 0 = (acc.getD n 0).toNat :=
    List.getD_map acc 0 BitVec.toNat
  rw [start, Word.start]
  split_ifs
  · rw [hlane, hlane, hlane, hlane, List.foldl_map, and_MASK, ← toNat_rotateLeft _ (by decide),
      ← toNat_rotateLeft _ (by decide), ← toNat_rotateLeft _ (by decide),
      ← toNat_rotateLeft _ (by decide), ← Nat.mod_add_mod, ← Nat.mod_add_mod (_ + _),
      ← BitVec.toNat_add, ← BitVec.toNat_add, ← BitVec.toNat_add]
    exact List.foldl_hom BitVec.toNat fun w v => (toNat_merge w v).symm
  · exact toNat_primes.2.2.2.2.symm

theorem toNat_eight (h : Word) {b : List UInt8} (hb : b.length = 8) :
    (Word.eight h b).toNat = eight h.toNat b := by
  rw [Word.eight, eight, and_MASK, BitVec.toNat_add, BitVec.toNat_mul,
    toNat_rotateLeft _ (by decide), BitVec.toNat_xor, toNat_round, toNat_primes.1,
    toNat_primes.2.2.2.1, Nat.mod_add_mod, u64_eq, List.drop_zero, List.take_of_length_le hb.le]
  rfl

theorem toNat_four (h : Word) (b : List UInt8) : (Word.four h (b.take 4)).toNat = four h.toNat b := by
  rw [Word.four, four, and_MASK, and_MASK, BitVec.toNat_add, BitVec.toNat_mul,
    toNat_rotateLeft _ (by decide), BitVec.toNat_xor, BitVec.toNat_mul, toNat_primes.1,
    toNat_primes.2.1, toNat_primes.2.2.1, Nat.mod_add_mod, u32_eq]

theorem toNat_one (h : Word) (b : UInt8) : (Word.one h b).toNat = one h.toNat b := by
  have hb : (Word.ofBytes [b]).toNat = b.toNat := by
    simp [Word.ofBytes]
  rw [Word.one, one, and_MASK, and_MASK, BitVec.toNat_mul, toNat_rotateLeft _ (by decide),
    BitVec.toNat_xor, BitVec.toNat_mul, toNat_primes.1, toNat_primes.2.2.2.2, hb]

theorem After.digest (h : x.After bytes) : x.digest = (xxh64 bytes).toNat := by
  have hinit : ({} : Xxh64).v =
      [Word.prime1 + Word.prime2, Word.prime2, 0, -Word.prime1].map BitVec.toNat := by
    decide
  have hsums := h.sums
  rw [hinit, blocks_map (List.map BitVec.toNat) fun v block _ => map_stripe v block] at hsums
  rw [xxh64, Xxh64.digest]
  cases hblocks : blocks 32 Word.stripe
      [Word.prime1 + Word.prime2, Word.prime2, 0, -Word.prime1] bytes with
  | mk acc rest =>
    rw [hblocks] at hsums
    obtain ⟨hv, hrest⟩ := Prod.mk.inj hsums
    rw [← hv, ← hrest, h.total]
    dsimp only
    have htotal : (start (acc.map BitVec.toNat) bytes.length + bytes.length) &&& MASK =
        (Word.start acc bytes.length + (bytes.length : Word)).toNat := by
      rw [toNat_start, and_MASK, BitVec.toNat_add]
      simp
    rw [htotal, blocks_map BitVec.toNat fun c block hb => toNat_eight c hb]
    cases blocks 8 Word.eight (Word.start acc bytes.length + bytes.length) rest with
    | mk h left =>
      dsimp only
      rw [toNat_avalanche]
      split_ifs
      · rw [← toNat_four, List.foldl_hom BitVec.toNat fun w b => (toNat_one w b).symm]
      · rw [List.foldl_hom BitVec.toNat fun w b => (toNat_one w b).symm]

/-- However the bytes are split into updates, the digest is that of the whole. -/
theorem digest_updates (chunks : List (List UInt8)) :
    (chunks.foldl update {}).digest = (xxh64 chunks.flatten).toNat := by
  have hafter (x : Xxh64) (bytes : List UInt8) (h : x.After bytes) :
      (chunks.foldl update x).After (bytes ++ chunks.flatten) := by
    induction chunks generalizing x bytes with
    | nil => simpa using h
    | cons chunk chunks ih =>
      rw [List.foldl_cons, List.flatten_cons, ← List.append_assoc]
      exact ih _ _ (h.update chunk)
  exact (hafter {} [] ⟨blocks_of_length_lt (by decide), rfl, by decide, rfl⟩).digest

end Xxh64

end Takoserver.Registry
