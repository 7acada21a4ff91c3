import BridgeLedger.StateKey
import Mathlib.Data.Option.Basic

/-! Which bytes the readers of balance and loan keys accept. They look at the length and at the first byte only, so a key
with any number of chunks at its end is read like the key of the record, and the readers accept the keys of records alone
exactly as long as the number of chunks is right. -/
namespace BridgeLedger

/-- Every two bytes are the digits of a number. -/
theorem Wire.exists_ofUInt16 {bytes : Octets} (h : bytes.length = 2) : ∃ n, Wire.ofUInt16 n = bytes := by
  have hfits := ofBigEndian_lt bytes
  rw [h] at hfits
  refine ⟨UInt16.ofNat (ofBigEndian bytes), ?_⟩
  rw [Wire.ofUInt16, UInt16.toNat_ofNat', Nat.mod_eq_of_lt (show ofBigEndian bytes < 2 ^ 16 from hfits), ← h,
    bigEndian_ofBigEndian]

namespace StateKey

/-- The layout of balance and loan keys: a byte for the kind of record, two names and a number of chunks. -/
def cellKey (kind : UInt8) (first second : Block 32) (chunks : UInt16) : Octets :=
  kind :: (first.octets ++ second.octets ++ Wire.ofUInt16 chunks)

variable {kind : UInt8} {first second : Block 32} {key : Octets}

theorem octets_balance (o : Address) (a : Identifier) :
    (balance o a).octets = cellKey 0 o.block a.block balanceChunks := rfl

theorem octets_loan (a d : Identifier) : (loan a d).octets = cellKey 3 a.block d.block loanChunks := rfl

theorem drop_cellKey (kind : UInt8) (first second : Block 32) (chunks : UInt16) :
    (cellKey kind first second chunks).drop 65 = Wire.ofUInt16 chunks := by
  have hnames : (first.octets ++ second.octets).length = 64 := by
    rw [List.length_append, first.length_octets, second.length_octets]
  rw [cellKey, List.drop_succ_cons, ← hnames, List.drop_left]

theorem take_cellKey (kind : UInt8) (first second : Block 32) (chunks : UInt16) :
    ((cellKey kind first second chunks).drop 1).take 32 = first.octets ∧
    ((cellKey kind first second chunks).drop 33).take 32 = second.octets := by
  rw [cellKey, List.drop_succ_cons, List.drop_succ_cons, List.drop_zero, List.append_assoc]
  constructor
  · exact List.take_left' first.length_octets
  · rw [List.drop_left' first.length_octets, List.take_left' second.length_octets]

/-- The names and the number of chunks that stand in any bytes of the right length. -/
theorem exists_cellKey (hlength : key.length = cellKeyLength) (hkind : key.head? = some kind) :
    ∃ first second chunks, key = cellKey kind first second chunks := by
  obtain ⟨rest, rfl⟩ := List.head?_eq_some_iff.1 hkind
  have hrest : rest.length = 66 := Nat.succ.inj hlength
  have htail : (rest.drop 64).length = 2 := by rw [List.length_drop, hrest]
  obtain ⟨chunks, hchunks⟩ := Wire.exists_ofUInt16 htail
  refine ⟨⟨rest.take 32, by simp [hrest]⟩, ⟨(rest.drop 32).take 32, by simp [hrest]⟩, chunks, ?_⟩
  rw [cellKey, hchunks, ← List.take_add, List.take_append_drop]

/-- Two names stand in some bytes of the right length if the bytes are their key with some number of chunks. -/
theorem exists_chunks_iff :
    (∃ chunks, key = cellKey kind first second chunks) ↔
      (key.length = cellKeyLength ∧ key.head? = some kind) ∧
        first.octets = (key.drop 1).take 32 ∧ second.octets = (key.drop 33).take 32 := by
  constructor
  · rintro ⟨chunks, rfl⟩
    obtain ⟨hfirst, hsecond⟩ := take_cellKey kind first second chunks
    refine ⟨⟨?_, rfl⟩, hfirst.symm, hsecond.symm⟩
    simp [cellKey, cellKeyLength, Wire.ofUInt16, first.length_octets, second.length_octets]
  · rintro ⟨⟨hlength, hkind⟩, hfirst, hsecond⟩
    obtain ⟨x, y, chunks, rfl⟩ := exists_cellKey hlength hkind
    obtain ⟨hx, hy⟩ := take_cellKey kind x y chunks
    rw [Block.ext (hfirst.trans hx), Block.ext (hsecond.trans hy)]
    exact ⟨chunks, rfl⟩

/-- A reader that accepts any number of chunks is right about some bytes exactly if they have another length or kind, or
the right number of chunks. -/
theorem names_exact_iff (kind : UInt8) (count : UInt16) (key : Octets) :
    (∀ first second, (∃ chunks, key = cellKey kind first second chunks) ↔ key = cellKey kind first second count) ↔
      (key.length = cellKeyLength ∧ key.head? = some kind → key.drop 65 = Wire.ofUInt16 count) := by
  constructor
  · rintro hexact ⟨hlength, hkind⟩
    obtain ⟨first, second, chunks, hkey⟩ := exists_cellKey hlength hkind
    rw [(hexact first second).1 ⟨chunks, hkey⟩, drop_cellKey]
  · intro hcount first second
    constructor
    · intro hread
      obtain ⟨hshape, -⟩ := exists_chunks_iff.1 hread
      obtain ⟨chunks, rfl⟩ := hread
      have hchunks := hcount hshape
      rw [drop_cellKey] at hchunks
      rw [cellKey, cellKey, hchunks]
    · exact fun hkey => ⟨count, hkey⟩

theorem looksLikeBalance_iff : looksLikeBalance key = true ↔ key.length = cellKeyLength ∧ key.head? = some 0 := by
  simp [looksLikeBalance]

theorem looksLikeLoan_iff : looksLikeLoan key = true ↔ key.length = cellKeyLength ∧ key.head? = some 3 := by
  simp [looksLikeLoan]

theorem balanceParts?_eq_some_iff {o : Address} {a : Identifier} :
    balanceParts? key = some (o, a) ↔ ∃ chunks, key = cellKey 0 o.block a.block chunks := by
  rw [exists_chunks_iff, ← looksLikeBalance_iff]
  simp [balanceParts?, Option.guard_eq_some', Option.bind_eq_some_iff, Address.ofOctets?_eq_some,
    Identifier.ofOctets?_eq_some, Address.octets, Identifier.octets]

theorem loanParts?_eq_some_iff {a d : Identifier} :
    loanParts? key = some (a, d) ↔ ∃ chunks, key = cellKey 3 a.block d.block chunks := by
  rw [exists_chunks_iff, ← looksLikeLoan_iff]
  simp [loanParts?, Option.guard_eq_some', Option.bind_eq_some_iff, Identifier.ofOctets?_eq_some, Identifier.octets]

theorem balanceParts?_eq_none (h : looksLikeBalance key = false) : balanceParts? key = none := by
  rw [balanceParts?, h]
  rfl

theorem loanParts?_eq_none (h : looksLikeLoan key = false) : loanParts? key = none := by
  rw [loanParts?, h]
  rfl

/-- The readers accept the layouts of balance and loan keys with whatever number of chunks, and nothing else. So the names
that they find are those of the record with that very key, for all names, exactly if bytes that look like such a key end
with its number of chunks. -/
theorem read_with_any_chunks (key : Octets) :
    (∀ o a, balanceParts? key = some (o, a) ↔ ∃ chunks, key = cellKey 0 o.block a.block chunks) ∧
    (∀ a d, loanParts? key = some (a, d) ↔ ∃ chunks, key = cellKey 3 a.block d.block chunks) ∧
    ((∀ o a, balanceParts? key = some (o, a) ↔ key = (balance o a).octets) ↔
      (looksLikeBalance key = true → key.drop 65 = Wire.ofUInt16 balanceChunks)) ∧
    ((∀ a d, loanParts? key = some (a, d) ↔ key = (loan a d).octets) ↔
      (looksLikeLoan key = true → key.drop 65 = Wire.ofUInt16 loanChunks)) := by
  refine ⟨fun o a => balanceParts?_eq_some_iff, fun a d => loanParts?_eq_some_iff, ?_, ?_⟩
  · rw [looksLikeBalance_iff, ← names_exact_iff]
    simp only [balanceParts?_eq_some_iff, octets_balance]
    exact ⟨fun h first second => h ⟨first⟩ ⟨second⟩, fun h o a => h o.block a.block⟩
  · rw [looksLikeLoan_iff, ← names_exact_iff]
    simp only [loanParts?_eq_some_iff, octets_loan]
    exact ⟨fun h first second => h ⟨first⟩ ⟨second⟩, fun h a d => h a.block d.block⟩

namespace TwoChunks

def owner : Address := ⟨⟨List.replicate 32 1, rfl⟩⟩

def asset : Identifier := ⟨⟨List.replicate 32 2, rfl⟩⟩

def destination : Identifier := ⟨⟨List.replicate 32 4, rfl⟩⟩

/-- Keys for two chunks, which no record has, are read as those of a balance and of a loan. -/
theorem read_as_records :
    balanceParts? (cellKey 0 owner.block asset.block 2) = some (owner, asset) ∧
    cellKey 0 owner.block asset.block 2 ≠ (balance owner asset).octets ∧
    loanParts? (cellKey 3 asset.block destination.block 2) = some (asset, destination) ∧
    cellKey 3 asset.block destination.block 2 ≠ (loan asset destination).octets := by
  decide

end TwoChunks
end StateKey
end BridgeLedger
