import BridgeLedger.Action
import BridgeLedger.Proofs.BridgeWireFormat
import BridgeLedger.Proofs.RecordWireFormat

/-! How long what is read and written can be. A transfer with a short symbol has few bytes, and bytes are a transfer
only if they are its written form: both fit into a message. -/
namespace BridgeLedger

/-- A field takes eight bytes, or thirty-two if it is an identifier, or none. -/
private theorem Wire.Field.length_octets (f : Field) : f.octets.length ≤ if f.kind = .identifier then 32 else 8 := by
  unfold octets
  split
  · cases f <;> simp [kind, ofUInt64, ofInt64, length_bigEndian]
  · exact Nat.zero_le _

namespace Bridge

def Transfer.maxLength : Nat := 213

theorem Terms.length_octets (t : Terms) : t.octets.length ≤ 65 := by
  have hreward : (Wire.Field.uint64 t.reward).octets.length ≤ 8 := Wire.Field.length_octets _
  have hamountIn : (Wire.Field.uint64 t.swap.amountIn).octets.length ≤ 8 := Wire.Field.length_octets _
  have hassetOut : (Wire.Field.identifier t.swap.assetOut).octets.length ≤ 32 := Wire.Field.length_octets _
  have hamountOut : (Wire.Field.uint64 t.swap.amountOut).octets.length ≤ 8 := Wire.Field.length_octets _
  have hexpiry : (Wire.Field.int64 t.swap.expiry).octets.length ≤ 8 := Wire.Field.length_octets _
  simp only [octets, Wire.OptionalSection.octets, toSection, List.flatMap_cons, List.flatMap_nil, List.length_cons,
    List.length_append, List.length_nil]
  omega

theorem Transfer.encode_isOk {t : Transfer} (h : t.symbol.length ≤ Limits.maxSymbol) :
    ∃ bytes, t.encode = .ok bytes ∧ bytes.length ≤ maxLength := by
  have hsymbol : Wire.ofPrefixed t.symbol = .ok (Wire.ofUInt16 (UInt16.ofNat t.symbol.length) ++ t.symbol) :=
    if_pos (Nat.le_trans h (by decide))
  have hterms := t.terms.length_octets
  refine ⟨_, by rw [encode, hsymbol]; rfl, ?_⟩
  simp only [List.length_append, Address.length_octets, Identifier.length_octets, Wire.ofUInt16, Wire.ofUInt64,
    Wire.ofBool, length_bigEndian, List.length_singleton]
  simp only [Limits.maxSymbol, maxLength] at h ⊢
  omega

/-- Bytes that are a transfer are its written form, and its symbol is within the limit. -/
theorem Transfer.length_of_decode {t : Transfer} {bytes : Octets} (h : decode bytes = .ok t) :
    bytes.length ≤ maxLength := by
  obtain ⟨hbytes, hacceptable⟩ := decode_iff.1 h
  obtain ⟨written, hwritten, hlength⟩ := encode_isOk hacceptable.symbol.2
  cases hbytes.symm.trans hwritten
  exact hlength

theorem Message.encode_isOk {m : Message} (h : m.payload.length ≤ Transfer.maxLength) :
    ∃ bytes, m.encode = .ok bytes := ⟨_, if_pos (Nat.le_trans h (by decide))⟩

/-- A message with a transfer in it has an identifier. -/
theorem Message.identifier_isOk {m : Message} {t : Transfer} (h : Transfer.decode m.payload = .ok t) :
    ∃ id, m.identifier = .ok id := by
  obtain ⟨bytes, hbytes⟩ := encode_isOk (m := m) (Transfer.length_of_decode h)
  exact ⟨_, by rw [identifier, hbytes]; rfl⟩

end Bridge

theorem NftRecord.encode_isOk {r : NftRecord} (hmetadata : r.metadata.length ≤ Wire.maxPrefixed)
    (hurl : r.url.length ≤ Wire.maxPrefixed) : ∃ bytes, r.encode = .ok bytes := by
  obtain ⟨metadata, hm⟩ := Wire.ofPrefixed_isOk hmetadata
  obtain ⟨url, hu⟩ := Wire.ofPrefixed_isOk hurl
  simp only [encode, hm, hu]
  exact ⟨_, rfl⟩

theorem NftRecord.lengths_of_decode {r : NftRecord} {bytes : Octets} (h : decode bytes = .ok r) :
    r.metadata.length ≤ Wire.maxPrefixed ∧ r.url.length ≤ Wire.maxPrefixed := by
  obtain ⟨metadata, hmetadata, hwritten⟩ := exists_ok_of_bind ((exact.accepted bytes r).1 h)
  obtain ⟨url, hurl, -⟩ := exists_ok_of_bind hwritten
  exact ⟨Wire.length_of_ofPrefixed hmetadata, Wire.length_of_ofPrefixed hurl⟩

theorem AssetRecord.lengths_of_decode {r : AssetRecord} {bytes : Octets} (h : decode bytes = .ok r) :
    r.symbol.length ≤ Wire.maxPrefixed ∧ r.metadata.length ≤ Wire.maxPrefixed := by
  obtain ⟨symbol, hsymbol, hwritten⟩ := exists_ok_of_bind ((exact.accepted bytes r).1 h)
  obtain ⟨metadata, hmetadata, -⟩ := exists_ok_of_bind hwritten
  exact ⟨Wire.length_of_ofPrefixed hsymbol, Wire.length_of_ofPrefixed hmetadata⟩

theorem Wire.length_ofPrefixed {bytes written : Octets} (h : ofPrefixed bytes = .ok written) :
    written.length ≤ 2 + maxPrefixed := by
  have hlength := length_of_ofPrefixed h
  unfold ofPrefixed at h
  rw [if_pos hlength] at h
  cases h
  rw [List.length_append, ofUInt16, length_bigEndian]
  omega

namespace Action

variable {α : Type}

/-- Only the length of a byte string can be in the way of writing. -/
private def OnlyTooLarge (x : Except WireError α) : Prop := ∀ e, x = .error e → e = .tooLarge

private theorem OnlyTooLarge.ok (v : α) : OnlyTooLarge (.ok v) := nofun

private theorem OnlyTooLarge.prefixed_bind {bytes : Octets} {f : Octets → Except WireError α}
    (hf : ∀ written, OnlyTooLarge (f written)) : OnlyTooLarge (Wire.ofPrefixed bytes >>= f) := by
  intro e h
  unfold Wire.ofPrefixed at h
  split at h
  · exact hf _ e h
  · cases h
    rfl

private theorem encodeBody_error (action : Action) : OnlyTooLarge action.encodeBody := by
  cases action with
  | payment a => exact .prefixed_bind fun _ => .ok _
  | mint a => exact .ok _
  | createAsset a => exact .prefixed_bind fun _ => .prefixed_bind fun _ => .ok _
  | createNft a => exact .prefixed_bind fun _ => .prefixed_bind fun _ => .ok _
  | readNft a => exact .ok _
  | importAsset a => exact .ok _
  | exportAsset a => exact .ok _
  | transferNft a => exact .prefixed_bind fun _ => .ok _

/-- An action that cannot be written is too large. -/
theorem encode_error {action : Action} {e : WireError} (h : action.encode = .error e) : e = .tooLarge := by
  unfold encode at h
  cases hbody : action.encodeBody with
  | error e' =>
    rw [hbody] at h
    cases h
    exact encodeBody_error action _ hbody
  | ok body =>
    rw [hbody] at h
    cases h

/-- The most bytes of an action: two texts of the longest kind, and what else an action holds. -/
def maxLength : Nat := 2 * (2 + Wire.maxPrefixed) + 256

private def NoLonger (n : Nat) (x : Except WireError Octets) : Prop := ∀ bytes, x = .ok bytes → bytes.length ≤ n

private theorem NoLonger.ok {n : Nat} {bytes : Octets} (h : bytes.length ≤ n) : NoLonger n (.ok bytes) := by
  intro written hwritten
  cases hwritten
  exact h

private theorem NoLonger.prefixed_bind {n : Nat} {bytes : Octets} {f : Octets → Except WireError Octets}
    (hf : ∀ written : Octets, written.length ≤ 2 + Wire.maxPrefixed → NoLonger n (f written)) :
    NoLonger n (Wire.ofPrefixed bytes >>= f) := by
  intro body h
  obtain ⟨written, hwritten, h⟩ := exists_ok_of_bind h
  exact hf written (Wire.length_ofPrefixed hwritten) body h

private theorem encodeBody_noLonger (action : Action) : NoLonger (maxLength - 1) action.encodeBody := by
  unfold maxLength
  cases action with
  | payment a => exact .prefixed_bind fun memo hmemo => .ok (by simp [Wire.ofUInt64]; omega)
  | mint a => exact .ok (by simp [Mint.encode, Wire.ofUInt64])
  | createAsset a =>
    exact .prefixed_bind fun symbol hsymbol => .prefixed_bind fun metadata hmetadata =>
      .ok (by simp [Wire.ofUInt64]; omega)
  | createNft a =>
    exact .prefixed_bind fun metadata hmetadata => .prefixed_bind fun url hurl => .ok (by simp; omega)
  | readNft a => exact .ok (by simp [ReadNft.encode])
  | importAsset a => exact .ok (by simp [Import.encode, Wire.ofBool])
  | exportAsset a =>
    have hterms := a.terms.length_octets
    exact .ok (by simp [Export.encode, Wire.ofUInt64, Wire.ofBool]; omega)
  | transferNft a => exact .prefixed_bind fun memo hmemo => .ok (by simp; omega)

theorem length_of_encode {action : Action} {bytes : Octets} (h : action.encode = .ok bytes) :
    bytes.length ≤ maxLength := by
  obtain ⟨body, hbody, h⟩ := exists_ok_of_bind h
  cases h
  exact Nat.succ_le_succ (encodeBody_noLonger action body hbody)

end Action
end BridgeLedger
