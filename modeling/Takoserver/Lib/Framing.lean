import Mathlib

/-!
# Length-prefixed framing

A sequence of fields is written as one sequence of symbols, each field after its length.  With
headers of one width, that are apart for the lengths that occur, two sequences of fields have one
framing only where they are the same.
-/

namespace Framing

variable {α : Type*} {head : ℕ → List α} {width bound : ℕ}

/-- The fields, each after its header. -/
def frame (head : ℕ → List α) (fields : List (List α)) : List α :=
  fields.flatMap fun field => head field.length ++ field

/-- Fields of lengths that the header can carry. -/
def Fits (bound : ℕ) (fields : List (List α)) : Prop := ∀ field ∈ fields, field.length < bound

/-- **What is framed is determined by its framing.** -/
theorem frame_inj (hpos : 0 < width) (hwidth : ∀ n, (head n).length = width)
    (hhead : ∀ m n, m < bound → n < bound → head m = head n → m = n) {l l' : List (List α)}
    (hl : Fits bound l) (hl' : Fits bound l') (h : frame head l = frame head l') : l = l' := by
  have hnil : ∀ (field : List α) (rest : List (List α)), frame head (field :: rest) ≠ [] := by
    intro field rest hnil
    have hlen := congrArg List.length hnil
    simp only [frame, List.flatMap_cons, List.length_append, hwidth, List.length_nil] at hlen
    omega
  induction l generalizing l' with
  | nil =>
    cases l' with
    | nil => rfl
    | cons field' rest' => exact absurd h.symm (hnil field' rest')
  | cons field rest ih =>
    cases l' with
    | nil => exact absurd h (hnil field rest)
    | cons field' =>
      simp only [frame, List.flatMap_cons, List.append_assoc] at h
      -- the headers are as long as each other, so they are the same, and so are the lengths
      obtain ⟨hheads, h⟩ := List.append_inj h ((hwidth _).trans (hwidth _).symm)
      have hlength : field.length = field'.length :=
        hhead _ _ (hl field List.mem_cons_self) (hl' field' List.mem_cons_self) hheads
      obtain ⟨hfield, hrest⟩ := List.append_inj h hlength
      rw [hfield, ih (fun f hf => hl f (List.mem_cons_of_mem _ hf))
        (fun f hf => hl' f (List.mem_cons_of_mem _ hf)) hrest]

/-! ### Big-endian numbers -/

/-- The last `k` bytes of a number, the most significant one first. -/
def bigEndian : ℕ → ℕ → List UInt8
  | 0, _ => []
  | k + 1, n => bigEndian k (n / 256) ++ [UInt8.ofNat n]

theorem length_bigEndian (k n : ℕ) : (bigEndian k n).length = k := by
  induction k generalizing n with
  | zero => rfl
  | succ k ih => rw [bigEndian, List.length_append, ih, List.length_singleton]

/-- A header of a fixed number of bytes determines its number. -/
theorem bigEndian_inj {k m n : ℕ} (hm : m < 256 ^ k) (hn : n < 256 ^ k)
    (h : bigEndian k m = bigEndian k n) : m = n := by
  induction k generalizing m n with
  | zero =>
    rw [Nat.pow_zero] at hm hn
    omega
  | succ k ih =>
    rw [Nat.pow_succ] at hm hn
    rw [bigEndian, bigEndian] at h
    obtain ⟨hhigh, hlow⟩ := List.append_inj h (by rw [length_bigEndian, length_bigEndian])
    have hdiv : m / 256 = n / 256 :=
      ih (Nat.div_lt_of_lt_mul (by omega)) (Nat.div_lt_of_lt_mul (by omega)) hhigh
    have hbyte : UInt8.ofNat m = UInt8.ofNat n := List.singleton_inj.mp hlow
    have hmod : m % 256 = n % 256 := by
      have := congrArg UInt8.toNat hbyte
      simpa only [UInt8.toNat_ofNat'] using this
    omega

/-- The number that bytes stand for, the most significant one first. -/
def readBigEndian (bytes : List UInt8) : ℕ := bytes.foldl (fun n b => n * 256 + b.toNat) 0

theorem readBigEndian_append (bytes : List UInt8) (b : UInt8) :
    readBigEndian (bytes ++ [b]) = readBigEndian bytes * 256 + b.toNat := by
  simp [readBigEndian]

/-- A header is read back. -/
theorem readBigEndian_bigEndian {k n : ℕ} (h : n < 256 ^ k) :
    readBigEndian (bigEndian k n) = n := by
  induction k generalizing n with
  | zero =>
    rw [Nat.pow_zero] at h
    simp [bigEndian, readBigEndian]
    omega
  | succ k ih =>
    rw [Nat.pow_succ] at h
    rw [bigEndian, readBigEndian_append, ih (Nat.div_lt_of_lt_mul (by omega)),
      UInt8.toNat_ofNat']
    omega

/-- What is read is written back. -/
theorem bigEndian_readBigEndian (bytes : List UInt8) :
    bigEndian bytes.length (readBigEndian bytes) = bytes := by
  induction bytes using List.reverseRecOn with
  | nil => rfl
  | append_singleton bytes b ih =>
    have hb := b.toNat_lt
    have hdiv : (readBigEndian bytes * 256 + b.toNat) / 256 = readBigEndian bytes := by omega
    have hmod : UInt8.ofNat (readBigEndian bytes * 256 + b.toNat) = b := by
      rw [← UInt8.toNat_inj, UInt8.toNat_ofNat']
      omega
    rw [List.length_append, List.length_singleton, bigEndian, readBigEndian_append, hdiv, hmod, ih]

end Framing
