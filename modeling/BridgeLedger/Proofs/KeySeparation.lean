import BridgeLedger.Proofs.ReadableKeys

/-! Keys of different records differ, none is the beginning of another one, and the parts of a balance or loan key can
be read back from it and from no key of another kind. -/
namespace BridgeLedger

namespace StateKey

private theorem pair_inj {a b c d e f : Octets} (ha : a.length = d.length) (hb : b.length = e.length)
    (h : a ++ b ++ c = d ++ e ++ f) : a = d ∧ b = e := by
  rw [List.append_assoc, List.append_assoc] at h
  obtain ⟨h1, h2⟩ := List.append_inj h ha
  exact ⟨h1, (List.append_inj h2 hb).1⟩

/-- Two records share a key only if they are the same record. -/
theorem octets_injective {j k : StateKey} (h : j.octets = k.octets) : j = k := by
  cases j with
  | balance o a => cases k with
    | balance o' a' =>
      obtain ⟨h1, h2⟩ := pair_inj (by simp) (by simp) (List.cons.inj h).2
      rw [Address.octets_injective h1, Identifier.octets_injective h2]
    | _ => cases h
  | asset a => cases k with
    | asset a' => rw [Identifier.octets_injective (List.append_inj (List.cons.inj h).2 (by simp)).1]
    | _ => cases h
  | nft n => cases k with
    | nft n' => rw [Identifier.octets_injective (List.append_inj (List.cons.inj h).2 (by simp)).1]
    | _ => cases h
  | loan a d => cases k with
    | loan a' d' =>
      obtain ⟨h1, h2⟩ := pair_inj (by simp) (by simp) (List.cons.inj h).2
      rw [Identifier.octets_injective h1, Identifier.octets_injective h2]
    | _ => cases h
  | incoming s m => cases k with
    | incoming s' m' =>
      obtain ⟨h1, h2⟩ := List.append_inj (List.cons.inj h).2 (by simp)
      rw [Identifier.octets_injective h1, Identifier.octets_injective h2]
    | _ => cases h
  | outgoing t => cases k with
    | outgoing t' => rw [Identifier.octets_injective (List.cons.inj h).2]
    | _ => cases h

@[simp] theorem octets_inj {j k : StateKey} : j.octets = k.octets ↔ j = k :=
  ⟨octets_injective, congrArg octets⟩

/-- The first byte of a key says how long it is. -/
theorem length_eq_of_head? {j k : StateKey} (h : j.octets.head? = k.octets.head?) :
    j.octets.length = k.octets.length := by
  cases j <;> cases k <;> cases h <;> simp [octets, Wire.ofUInt16]

/-- No key is the beginning of the key of another record. -/
theorem eq_of_begins {j k : StateKey} (h : j.octets <+: k.octets) : j = k := by
  have hhead : j.octets.head? = k.octets.head? := by
    obtain ⟨rest, hrest⟩ := h
    rw [← hrest]
    cases j <;> rfl
  exact octets_injective (h.eq_of_length (length_eq_of_head? hhead))

theorem looksLikeBalance_octets (k : StateKey) :
    looksLikeBalance k.octets = match k with | .balance .. => true | _ => false := by
  cases k <;> simp [looksLikeBalance, octets, cellKeyLength, Wire.ofUInt16]

theorem looksLikeLoan_octets (k : StateKey) :
    looksLikeLoan k.octets = match k with | .loan .. => true | _ => false := by
  cases k <;> simp [looksLikeLoan, octets, cellKeyLength, Wire.ofUInt16]

/-- The parts of a balance key, and nothing from a key of another kind. -/
theorem balanceParts?_octets (k : StateKey) :
    balanceParts? k.octets = match k with | .balance o a => some (o, a) | _ => none := by
  cases k with
  | balance o a => exact balanceParts?_eq_some_iff.2 ⟨balanceChunks, rfl⟩
  | _ => exact balanceParts?_eq_none (looksLikeBalance_octets _)

/-- The parts of a loan key, and nothing from a key of another kind. -/
theorem loanParts?_octets (k : StateKey) :
    loanParts? k.octets = match k with | .loan a d => some (a, d) | _ => none := by
  cases k with
  | loan a d => exact loanParts?_eq_some_iff.2 ⟨loanChunks, rfl⟩
  | _ => exact loanParts?_eq_none (looksLikeLoan_octets _)

/-- Two records share a key, or one key begins the other, only if they are the same record of the same kind. The readers
of balance and loan keys find the parts of every key of their own kind and nothing in a key of another kind. -/
theorem collision_free :
    (∀ j k : StateKey, j.octets = k.octets ↔ j = k) ∧ (∀ j k : StateKey, j.octets <+: k.octets ↔ j = k) ∧
    (∀ k : StateKey, balanceParts? k.octets = match k with | .balance o a => some (o, a) | _ => none) ∧
    ∀ k : StateKey, loanParts? k.octets = match k with | .loan a d => some (a, d) | _ => none := by
  refine ⟨fun j k => octets_inj, fun j k => ⟨eq_of_begins, ?_⟩, balanceParts?_octets, loanParts?_octets⟩
  rintro rfl
  exact List.prefix_refl _

end StateKey

theorem transactionKey_injective {x y : Identifier} (h : transactionKey x = transactionKey y) : x = y :=
  Identifier.octets_injective (List.cons.inj h).2

end BridgeLedger
