import BridgeLedger.Proofs.ExactFields
import BridgeLedger.Proofs.RecordRoundTrip

/-! The wire format of the bridge. Bytes are accepted as a message or a transfer exactly if they are its written form
and it keeps the rules of the format, so what is accepted has one written form and two of them never share it. -/
namespace BridgeLedger

def Collide (x y : Octets) : Prop := x ≠ y ∧ Identifier.digest x = Identifier.digest y

namespace Bridge

structure Transfer.Acceptable (t : Transfer) : Prop where
  symbol : t.symbol ≠ [] ∧ t.symbol.length ≤ Limits.maxSymbol
  value : t.value ≠ 0
  transaction : t.transaction ≠ .empty
  destination : t.destination ≠ .empty
  swap : t.terms.swap.valid t.value = true

open Takes

theorem Transfer.decode_iff {bytes : Octets} {t : Transfer} :
    decode bytes = .ok t ↔ t.encode = .ok bytes ∧ t.Acceptable := by
  constructor
  · intro h
    obtain ⟨t', hread, hvalid⟩ := exists_ok_of_bind h
    split at hvalid
    · rename_i hswap
      cases hvalid
      have htakes := readAll_iff.1 hread
      simp only [read, bind_iff, address_iff, prefixed_iff, uint8_iff, identifier_iff, uint64_iff, bool_iff, terms_iff,
        pure_iff] at htakes
      obtain ⟨recipient, _, rfl, symbol, _, ⟨hlength, hsymbol, written, hwritten, rfl⟩, decimals, _, rfl, asset, _,
        ⟨-, rfl⟩, value, _, ⟨hvalue, rfl⟩, returning, _, rfl, terms, _, rfl, transaction, _, ⟨htransaction, rfl⟩,
        destination, _, ⟨hdestination, rfl⟩, rfl, rfl⟩ := htakes
      refine ⟨?_, ⟨hsymbol trivial, hlength⟩, hvalue trivial, htransaction trivial, hdestination trivial, hswap⟩
      rw [encode, hwritten]
      simp [bind, Except.bind, pure, Except.pure]
    · cases hvalid
  · rintro ⟨hbytes, ht⟩
    exact decode_encode hbytes ht.symbol ht.value ht.transaction ht.destination ht.swap

theorem Message.decode_iff {bytes : Octets} {m : Message} :
    decode bytes = .ok m ↔ m.encode = .ok bytes ∧ m.source ≠ .empty := by
  constructor
  · intro h
    have htakes := readAll_iff.1 h
    simp only [read, bind_iff, uint32_iff, identifier_iff, map_iff, require_iff, take_iff, pure_iff,
      decide_eq_true_eq] at htakes
    obtain ⟨network, _, rfl, source, _, ⟨hsource, rfl⟩, _, _, ⟨announced, rfl, rfl⟩, _, _, ⟨hfits, rfl⟩, payload, _,
      ⟨hlength, rfl⟩, rfl, rfl⟩ := htakes
    refine ⟨?_, hsource trivial⟩
    rw [encode, if_pos (hlength ▸ hfits), hlength, UInt32.ofNat_toNat]
    simp
  · rintro ⟨hbytes, hsource⟩
    exact decode_encode hbytes hsource

/-- The identifier of a message that was accepted is the digest of the bytes that it was read from. -/
theorem Message.identifier_of_decode {bytes : Octets} {m : Message} (h : decode bytes = .ok m) :
    m.identifier = .ok (Identifier.digest (label ++ bytes)) := by
  rw [identifier, (decode_iff.1 h).1]
  rfl

/-- Bytes are a transfer exactly if they are its written form, its symbol is within the limit, it carries value, its
transaction and its destination have names, and the terms of its swap fit. They are a message exactly if they are its
written form and its source has a name. So accepted messages that differ are written differently, and one identifier of
two of them is a collision of the digest. -/
theorem accepted_iff_written :
    (∀ (bytes : Octets) (t : Transfer), Transfer.decode bytes = .ok t ↔ t.encode = .ok bytes ∧ t.Acceptable) ∧
    (∀ (bytes : Octets) (m : Message), Message.decode bytes = .ok m ↔ m.encode = .ok bytes ∧ m.source ≠ .empty) ∧
    ∀ (bytes bytes' : Octets) (m m' : Message), Message.decode bytes = .ok m → Message.decode bytes' = .ok m' →
      m ≠ m' → m.encode ≠ m'.encode ∧ ∃ id id', m.identifier = .ok id ∧ m'.identifier = .ok id' ∧
        (id = id' → Collide (Message.label ++ bytes) (Message.label ++ bytes')) := by
  refine ⟨fun _ _ => Transfer.decode_iff, fun _ _ => Message.decode_iff, fun bytes bytes' m m' h h' hne => ?_⟩
  have hbytes : bytes ≠ bytes' := by
    rintro rfl
    exact hne (Except.ok.inj (h.symm.trans h'))
  refine ⟨?_, _, _, Message.identifier_of_decode h, Message.identifier_of_decode h', fun hid => ⟨?_, hid⟩⟩
  · rw [(Message.decode_iff.1 h).1, (Message.decode_iff.1 h').1]
    exact fun heq => hbytes (Except.ok.inj heq)
  · exact fun heq => hbytes (List.append_cancel_left heq)

/-- Two messages that differ in a byte of their payloads are both accepted, and have one identifier only if the digest
collides. -/
theorem payloads_told_apart : ∃ bytes bytes' id id', Message.decode bytes = .ok ⟨1, .digest [], [0]⟩ ∧
    Message.decode bytes' = .ok ⟨1, .digest [], [1]⟩ ∧ Message.identifier ⟨1, .digest [], [0]⟩ = .ok id ∧
      Message.identifier ⟨1, .digest [], [1]⟩ = .ok id' ∧
      (id = id' → Collide (Message.label ++ bytes) (Message.label ++ bytes')) := by
  obtain ⟨-, haccepted, hapart⟩ := accepted_iff_written
  have h := (haccepted _ ⟨1, .digest [], [0]⟩).2 ⟨rfl, by decide +kernel⟩
  have h' := (haccepted _ ⟨1, .digest [], [1]⟩).2 ⟨rfl, by decide +kernel⟩
  obtain ⟨-, id, id', hid, hid', hcollide⟩ :=
    hapart _ _ _ _ h h' fun heq => absurd (congrArg Message.payload heq) (by decide)
  exact ⟨_, _, id, id', h, h', hid, hid', hcollide⟩

end Bridge
end BridgeLedger
