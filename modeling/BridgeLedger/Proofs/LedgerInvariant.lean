import BridgeLedger.Proofs.Holdings

/-! What may be stored in a ledger: keys of records only, amounts that are not zero, and asset records within the
limits. Every ledger operation keeps a store of this form. -/
namespace BridgeLedger

structure AssetRecord.Proper (r : AssetRecord) : Prop where
  capped : r.supply ≤ r.maxSupply
  limited : r.maxSupply ≤ Limits.maxSupply
  symbol : r.symbol ≠ [] ∧ r.symbol.length ≤ Limits.maxSymbol
  metadata : r.metadata.length ≤ Limits.maxMetadata

theorem AssetRecord.Proper.with_supply {r : AssetRecord} (h : r.Proper) {supply : UInt64}
    (hcap : supply ≤ r.maxSupply) : AssetRecord.Proper { r with supply } :=
  ⟨hcap, h.limited, h.symbol, h.metadata⟩

def StateKey.Admits : StateKey → Octets → Prop
  | .balance .., bytes => ∃ v, Amount.decode bytes = .ok v ∧ v ≠ 0
  | .loan .., bytes => ∃ v, Amount.decode bytes = .ok v ∧ v ≠ 0
  | .asset _, bytes => ∃ r, AssetRecord.decode bytes = .ok r ∧ r.Proper
  | .nft _, bytes => ∃ r, NftRecord.decode bytes = .ok r
  | .incoming .., _ => True
  | .outgoing _, _ => True

namespace Store

/-- Every key is that of a record, and what is stored may be stored for it. -/
def WellFormed (s : Store) : Prop :=
  ∀ key bytes, s.find? key = some bytes → ∃ k : StateKey, key = k.octets ∧ k.Admits bytes

namespace WellFormed

variable {s s' : Store} {k : StateKey} {n : Nat}

theorem empty : WellFormed .empty := fun _ _ h => nomatch h

/-- What is stored for a record may be stored for it. -/
theorem admits (h : s.WellFormed) {bytes : Octets} (hk : s.stored k = some bytes) : k.Admits bytes := by
  obtain ⟨j, hj, hadmits⟩ := h _ _ hk
  exact StateKey.octets_injective hj ▸ hadmits

theorem readable (h : s.WellFormed) (hk : k.counted.isSome) : Cell.Readable (s.stored k) := by
  intro bytes hbytes
  have hadmits := h.admits hbytes
  cases k <;> first | exact hadmits | cases hk

theorem decodes_asset (h : s.WellFormed) (a : Identifier) : Decodes AssetRecord.decode (s.stored (.asset a)) := by
  intro bytes hbytes
  obtain ⟨r, hr, -⟩ := h.admits hbytes
  exact ⟨r, hr⟩

theorem proper (h : s.WellFormed) {a : Identifier} {r : AssetRecord} (hr : s.asset? a = some r) : r.Proper := by
  obtain ⟨bytes, hbytes, hdecode⟩ := decoded_eq_some.1 hr
  obtain ⟨r', hr', hproper⟩ := h.admits hbytes
  cases hr'.symm.trans hdecode
  exact hproper

/-- No supply exceeds the largest one. -/
theorem supply_le (h : s.WellFormed) (a : Identifier) : s.supply a ≤ Limits.maxSupply.toNat := by
  cases hr : s.asset? a with
  | none =>
    rw [supply, hr]
    exact Nat.zero_le _
  | some r =>
    have hproper := h.proper hr
    rw [supply_of_asset? hr]
    exact Nat.le_trans (UInt64.le_iff_toNat_le.1 hproper.capped) (UInt64.le_iff_toNat_le.1 hproper.limited)

theorem replace (h : s.WellFormed) {v : Option Octets} (hv : ∀ bytes ∈ v, k.Admits bytes) :
    (s.replace k v).WellFormed := by
  intro key bytes hfind
  cases v with
  | none =>
    rw [Store.replace, KeyMap.find?_erase] at hfind
    split at hfind
    · cases hfind
    · exact h _ _ hfind
  | some written =>
    rw [Store.replace, KeyMap.find?_insert] at hfind
    split at hfind
    · rename_i hkey
      cases hfind
      exact ⟨k, hkey, hv _ rfl⟩
    · exact h _ _ hfind

private theorem replace_amount (h : s.WellFormed) (v : UInt64) (hk : k.counted.isSome) :
    (s.replace k (Cell.ofAmount v)).WellFormed := by
  refine h.replace fun bytes hbytes => ?_
  have hread := Cell.readable_ofAmount v bytes hbytes
  cases k <;> first | exact hread | cases hk

theorem credited (h : s.WellFormed) (hc : Credited s s' k n) (hk : k.counted.isSome) : s'.WellFormed := by
  obtain ⟨v, rfl, -⟩ := hc
  exact h.replace_amount v hk

theorem debited (h : s.WellFormed) (hd : Debited s s' k n) (hk : k.counted.isSome) : s'.WellFormed := by
  obtain ⟨v, rfl, -⟩ := hd
  exact h.replace_amount v hk

theorem registered (h : s.WellFormed) {a : Identifier} {r : AssetRecord} (hr : Registered s s' a r)
    (hproper : r.Proper) : s'.WellFormed := by
  obtain ⟨bytes, hbytes, rfl⟩ := hr
  refine h.replace fun written hw => ?_
  cases hw
  exact ⟨r, AssetRecord.decode_encode hbytes, hproper⟩

theorem lowered (h : s.WellFormed) {a : Identifier} {r : AssetRecord} {supply : UInt64}
    (hl : Lowered s s' a r supply) (hproper : r.Proper) (hcap : supply ≤ r.maxSupply) : s'.WellFormed := by
  unfold Lowered at hl
  split at hl
  · exact hl ▸ h.replace fun _ hb => absurd hb (Option.not_mem_none _)
  · exact h.registered hl (hproper.with_supply hcap)

theorem stableOnBalances : StableOnBalances WellFormed where
  credited hc h := h.credited hc rfl
  debited hd h := h.debited hd rfl

end WellFormed

/-- A record within the limits can be written. -/
theorem exists_registered (s : Store) (a : Identifier) {r : AssetRecord} (h : r.Proper) :
    ∃ s', Registered s s' a r := by
  have hsymbol : r.symbol.length ≤ Wire.maxPrefixed := Nat.le_trans h.symbol.2 (by decide)
  have hmetadata : r.metadata.length ≤ Wire.maxPrefixed := Nat.le_trans h.metadata (by decide)
  obtain ⟨bytes, hbytes⟩ := AssetRecord.encode_isOk hsymbol hmetadata
  exact ⟨_, bytes, hbytes, rfl⟩

end Store
end BridgeLedger
