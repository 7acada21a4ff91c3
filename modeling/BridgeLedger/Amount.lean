import BridgeLedger.Wire.Reader

/-! Amounts of an asset: 64-bit numbers whose sums and differences may fail but never wrap. -/
namespace BridgeLedger.Amount

def add? (a b : UInt64) : Option UInt64 := if a.toNat + b.toNat < UInt64.size then some (a + b) else none

def sub? (a b : UInt64) : Option UInt64 := if b ≤ a then some (a - b) else none

def addSaturating (a b : UInt64) : UInt64 := (add? a b).getD (UInt64.ofNat (UInt64.size - 1))

def encode (amount : UInt64) : Octets := Wire.ofUInt64 amount

def decode (bytes : Octets) : Except WireError UInt64 := Reader.readAll (Reader.uint64 false) bytes

theorem toNat_of_add?_eq_some {a b c : UInt64} (h : add? a b = some c) : c.toNat = a.toNat + b.toNat := by
  unfold add? at h
  split at h
  · rename_i hlt
    rw [← Option.some.inj h, UInt64.toNat_add, Nat.mod_eq_of_lt hlt]
  · cases h

theorem add?_eq_none_iff {a b : UInt64} : add? a b = none ↔ UInt64.size ≤ a.toNat + b.toNat := by
  unfold add?
  split <;> simp_all

theorem toNat_addSaturating (a b : UInt64) : (addSaturating a b).toNat = min (a.toNat + b.toNat) (UInt64.size - 1) := by
  unfold addSaturating
  cases h : add? a b with
  | none =>
    have hlarge : UInt64.size ≤ a.toNat + b.toNat := add?_eq_none_iff.1 h
    rw [Nat.min_eq_right (Nat.le_trans (by decide) hlarge)]
    rfl
  | some c =>
    have hsum := toNat_of_add?_eq_some h
    have hfits : c.toNat < UInt64.size := c.toNat_lt
    rw [Option.getD_some, hsum, Nat.min_eq_left (by omega)]

theorem toNat_of_sub?_eq_some {a b c : UInt64} (h : sub? a b = some c) : c.toNat + b.toNat = a.toNat := by
  unfold sub? at h
  split at h
  · rename_i hle
    rw [← Option.some.inj h, UInt64.toNat_sub_of_le _ _ hle]
    exact Nat.sub_add_cancel (UInt64.le_iff_toNat_le.1 hle)
  · cases h

theorem sub?_eq_none_iff {a b : UInt64} : sub? a b = none ↔ a.toNat < b.toNat := by
  unfold sub?
  split
  · rename_i h
    simpa using UInt64.le_iff_toNat_le.1 h
  · rename_i h
    simpa using Nat.lt_of_not_le fun hn => h (UInt64.le_iff_toNat_le.2 hn)

end BridgeLedger.Amount
