import BridgeLedger.Bridge.Message
import BridgeLedger.Bridge.Transfer
import BridgeLedger.Proofs.FieldRoundTrip
import BridgeLedger.Record.Asset
import BridgeLedger.Record.Nft
import BridgeLedger.Record.Transaction

/-! Amounts, records, messages and transfers are read back from their bytes. -/
namespace BridgeLedger

theorem exists_ok_of_bind {ε α β : Type} {x : Except ε α} {f : α → Except ε β} {b : β}
    (h : (x >>= f) = .ok b) : ∃ a, x = .ok a ∧ f a = .ok b := by
  cases x with
  | error e => cases h
  | ok a => exact ⟨a, rfl, h⟩

theorem Wire.length_of_ofPrefixed {bytes written : Octets} (h : ofPrefixed bytes = .ok written) :
    bytes.length ≤ maxPrefixed := by
  unfold ofPrefixed at h
  split at h
  · assumption
  · cases h

theorem Wire.ofPrefixed_isOk {bytes : Octets} (h : bytes.length ≤ maxPrefixed) :
    ∃ written, ofPrefixed bytes = .ok written := ⟨_, if_pos h⟩

@[simp] theorem Amount.decode_encode (v : UInt64) : decode (encode v) = .ok v :=
  (Reads.uint64 false nofun).readAll

namespace AssetRecord

theorem reads {r : AssetRecord} {bytes : Octets} (h : r.encode = .ok bytes) : Reads read bytes r := by
  obtain ⟨symbol, hs, h⟩ := exists_ok_of_bind h
  obtain ⟨metadata, hm, h⟩ := exists_ok_of_bind h
  have hread : Reads read (symbol ++ ([r.decimals] ++ (metadata ++ (Wire.ofUInt64 r.supply ++
      (Wire.ofUInt64 r.maxSupply ++ (r.owner.octets ++ (Wire.ofBool r.bridged ++ []))))))) r := by
    refine (Reads.prefixed false hs (Wire.length_of_ofPrefixed hs) nofun).bind ?_
    refine (Reads.uint8 r.decimals).bind ?_
    refine (Reads.prefixed false hm (Wire.length_of_ofPrefixed hm) nofun).bind ?_
    refine (Reads.uint64 false nofun).bind ?_
    refine (Reads.uint64 false nofun).bind ?_
    refine (Reads.address r.owner).bind ?_
    exact (Reads.bool r.bridged).bind Reads.pure
  refine hread.cast ?_
  rw [← Except.ok.inj h]
  simp

theorem decode_encode {r : AssetRecord} {bytes : Octets} (h : r.encode = .ok bytes) : decode bytes = .ok r :=
  (reads h).readAll

theorem encode_isOk {r : AssetRecord} (hs : r.symbol.length ≤ Wire.maxPrefixed)
    (hm : r.metadata.length ≤ Wire.maxPrefixed) : ∃ bytes, r.encode = .ok bytes := by
  obtain ⟨symbol, hs⟩ := Wire.ofPrefixed_isOk hs
  obtain ⟨metadata, hm⟩ := Wire.ofPrefixed_isOk hm
  simp only [encode, hs, hm]
  exact ⟨_, rfl⟩

end AssetRecord

theorem NftRecord.reads {r : NftRecord} {bytes : Octets} (h : r.encode = .ok bytes) : Reads read bytes r := by
  obtain ⟨metadata, hm, h⟩ := exists_ok_of_bind h
  obtain ⟨url, hu, h⟩ := exists_ok_of_bind h
  have hread : Reads read (metadata ++ (r.owner.octets ++ (url ++ []))) r := by
    refine (Reads.prefixed false hm (Wire.length_of_ofPrefixed hm) nofun).bind ?_
    refine (Reads.address r.owner).bind ?_
    exact (Reads.prefixed false hu (Wire.length_of_ofPrefixed hu) nofun).bind Reads.pure
  refine hread.cast ?_
  rw [← Except.ok.inj h]
  simp

theorem NftRecord.decode_encode {r : NftRecord} {bytes : Octets} (h : r.encode = .ok bytes) : decode bytes = .ok r :=
  (reads h).readAll

theorem Reads.resources (r : Resources) : Reads Resources.read r.octets r := by
  have hread : Reads Resources.read (Wire.ofUInt64 r.bandwidth ++ (Wire.ofUInt64 r.compute ++ (Wire.ofUInt64 r.reads ++
      (Wire.ofUInt64 r.allocations ++ (Wire.ofUInt64 r.writes ++ []))))) r := by
    refine (Reads.uint64 false nofun).bind ?_
    refine (Reads.uint64 false nofun).bind ?_
    refine (Reads.uint64 false nofun).bind ?_
    refine (Reads.uint64 false nofun).bind ?_
    exact (Reads.uint64 false nofun).bind Reads.pure
  exact hread.cast rfl

theorem TransactionRecord.reads (r : TransactionRecord) : Reads read r.encode r := by
  have hread : Reads read (Wire.ofInt64 r.timestamp ++ (Wire.ofBool r.success ++ (r.resources.octets ++
      (Wire.ofUInt64 r.fee ++ [])))) r := by
    refine (Reads.int64 r.timestamp).bind ?_
    refine (Reads.bool r.success).bind ?_
    refine (Reads.resources r.resources).bind ?_
    exact (Reads.uint64 false nofun).bind Reads.pure
  refine hread.cast ?_
  simp [encode]

theorem TransactionRecord.decode_encode (r : TransactionRecord) : decode r.encode = .ok r := r.reads.readAll

namespace Bridge

theorem Message.decode_encode {m : Message} {bytes : Octets} (h : m.encode = .ok bytes) (hs : m.source ≠ .empty) :
    decode bytes = .ok m := by
  unfold encode at h
  split at h
  · rename_i hl
    have hn : (UInt32.ofNat m.payload.length).toNat = m.payload.length := by
      rw [UInt32.toNat_ofNat', Nat.mod_eq_of_lt (Nat.lt_of_le_of_lt hl (by decide))]
    have hlen := (Reads.uint32 (UInt32.ofNat m.payload.length)).map UInt32.toNat
    rw [hn] at hlen
    have hread : Reads read (Wire.ofUInt32 m.network ++ (m.source.octets ++
        (Wire.ofUInt32 (UInt32.ofNat m.payload.length) ++ (m.payload ++ [])))) m := by
      refine (Reads.uint32 m.network).bind ?_
      refine (Reads.identifier true fun _ => hs).bind ?_
      refine hlen.bind ?_
      refine Reads.after_require (by simpa using hl) ?_
      exact (Reads.take m.payload).bind Reads.pure
    refine (hread.cast ?_).readAll
    rw [← Except.ok.inj h]
    simp
  · cases h

namespace Transfer

theorem decode_encode {t : Transfer} {bytes : Octets} (h : t.encode = .ok bytes)
    (hsymbol : t.symbol ≠ [] ∧ t.symbol.length ≤ Limits.maxSymbol) (hvalue : t.value ≠ 0)
    (htransaction : t.transaction ≠ .empty) (hdestination : t.destination ≠ .empty)
    (hswap : t.terms.swap.valid t.value = true) : decode bytes = .ok t := by
  obtain ⟨symbol, hs, h⟩ := exists_ok_of_bind h
  have hread : Reads read (t.recipient.octets ++ (symbol ++ ([t.decimals] ++ (t.asset.octets ++
      (Wire.ofUInt64 t.value ++ (Wire.ofBool t.returning ++ (t.terms.octets ++ (t.transaction.octets ++
        (t.destination.octets ++ []))))))))) t := by
    refine (Reads.address t.recipient).bind ?_
    refine (Reads.prefixed true hs hsymbol.2 fun _ => hsymbol.1).bind ?_
    refine (Reads.uint8 t.decimals).bind ?_
    refine (Reads.identifier false nofun).bind ?_
    refine (Reads.uint64 true fun _ => hvalue).bind ?_
    refine (Reads.bool t.returning).bind ?_
    refine t.terms.reads.bind ?_
    refine (Reads.identifier true fun _ => htransaction).bind ?_
    exact (Reads.identifier true fun _ => hdestination).bind Reads.pure
  have hall : Reader.readAll read bytes = .ok t := by
    refine (hread.cast ?_).readAll
    rw [← Except.ok.inj h]
    simp
  rw [decode, hall]
  exact if_pos hswap

end Transfer
end Bridge
end BridgeLedger
