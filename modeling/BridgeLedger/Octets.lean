/-! Byte strings, byte strings of a fixed width, and big-endian numbers.
The two directions of the number codec are inverse on numbers that fit and on strings of the right width. -/
namespace BridgeLedger

abbrev Octets := List UInt8

structure Block (width : Nat) where
  octets : Octets
  length_octets : octets.length = width
deriving DecidableEq

namespace Block

def ofOctets? (width : Nat) (bytes : Octets) : Option (Block width) :=
  if h : bytes.length = width then some ⟨bytes, h⟩ else none

def zero (width : Nat) : Block width := ⟨List.replicate width 0, List.length_replicate⟩

theorem ext {width : Nat} {a b : Block width} (h : a.octets = b.octets) : a = b := by
  cases a; cases b; cases h; rfl

theorem ofOctets?_octets {width : Nat} (a : Block width) : ofOctets? width a.octets = some a := by
  simp [ofOctets?, a.length_octets]

theorem ofOctets?_eq_some {width : Nat} {bytes : Octets} {a : Block width} :
    ofOctets? width bytes = some a ↔ a.octets = bytes := by
  constructor
  · intro h
    unfold ofOctets? at h
    split at h
    · exact (Option.some.inj h) ▸ rfl
    · cases h
  · rintro rfl
    exact ofOctets?_octets a

end Block

/-- The `width` low-order base-256 digits of `n`, most significant first. -/
def bigEndian : (width : Nat) → (n : Nat) → Octets
  | 0, _ => []
  | width + 1, n => bigEndian width (n / 256) ++ [UInt8.ofNat n]

def ofBigEndian (bytes : Octets) : Nat := bytes.foldl (fun n b => n * 256 + b.toNat) 0

def capacity : (width : Nat) → Nat
  | 0 => 1
  | width + 1 => capacity width * 256

theorem capacity_pos (width : Nat) : 0 < capacity width := by
  induction width with
  | zero => exact Nat.one_pos
  | succ w ih => exact Nat.mul_pos ih (by decide)

@[simp] theorem length_bigEndian (width n : Nat) : (bigEndian width n).length = width := by
  induction width generalizing n with
  | zero => rfl
  | succ w ih => simp [bigEndian, ih]

theorem ofBigEndian_concat (bytes : Octets) (b : UInt8) :
    ofBigEndian (bytes ++ [b]) = ofBigEndian bytes * 256 + b.toNat := by
  simp [ofBigEndian]

theorem ofBigEndian_bigEndian (width n : Nat) : ofBigEndian (bigEndian width n) = n % capacity width := by
  induction width generalizing n with
  | zero => simp [bigEndian, ofBigEndian, capacity, Nat.mod_one]
  | succ w ih =>
    rw [bigEndian, ofBigEndian_concat, ih, capacity, Nat.mul_comm (capacity w), Nat.mod_mul]
    simp
    omega

theorem bigEndian_ofBigEndian (bytes : Octets) : bigEndian bytes.length (ofBigEndian bytes) = bytes := by
  suffices h : ∀ r : Octets, bigEndian r.reverse.length (ofBigEndian r.reverse) = r.reverse by
    simpa using h bytes.reverse
  intro r
  induction r with
  | nil => rfl
  | cons b r ih =>
    have hb : b.toNat < 256 := b.toNat_lt
    have hd : (ofBigEndian r.reverse * 256 + b.toNat) / 256 = ofBigEndian r.reverse := by omega
    rw [List.reverse_cons, ofBigEndian_concat, List.length_append, List.length_singleton, bigEndian, hd, ih]
    congr 2
    apply UInt8.toNat_inj.1
    simp

theorem ofBigEndian_lt (bytes : Octets) : ofBigEndian bytes < capacity bytes.length := by
  have h := ofBigEndian_bigEndian bytes.length (ofBigEndian bytes)
  rw [bigEndian_ofBigEndian] at h
  rw [h]
  exact Nat.mod_lt _ (capacity_pos _)

end BridgeLedger
