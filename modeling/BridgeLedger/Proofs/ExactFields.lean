import BridgeLedger.Proofs.FieldRoundTrip

/-! Readers take nothing but what writers put. One law for each reader says from which inputs it takes a value: those
that start with the written form of the value, within the bounds that the reader sets. -/
namespace BridgeLedger

variable {α β : Type}

/-- From this input the reader takes the value and leaves the rest. -/
def Takes (r : Reader α) (input : Octets) (v : α) (rest : Octets) : Prop := r input = .ok v rest

theorem Reads.takes {r : Reader α} {bytes : Octets} {v : α} (h : Reads r bytes v) (rest : Octets) :
    Takes r (bytes ++ rest) v rest := h rest

namespace Takes

open Reader

variable {r : Reader α} {input rest bytes : Octets} {n : Nat} {w : β}

@[simp] theorem pure_iff {v w : α} : Takes (pure v) input w rest ↔ v = w ∧ input = rest := by
  constructor
  · intro h
    cases h
    exact ⟨rfl, rfl⟩
  · rintro ⟨rfl, rfl⟩
    rfl

@[simp] theorem not_throw {e : WireError} {v : α} : ¬Takes (throw e) input v rest := nofun

@[simp] theorem bind_iff {f : α → Reader β} :
    Takes (r >>= f) input w rest ↔ ∃ v mid, Takes r input v mid ∧ Takes (f v) mid w rest := by
  change EStateM.bind r f input = _ ↔ _
  unfold EStateM.bind
  constructor
  · intro h
    split at h
    · rename_i v mid hr
      exact ⟨v, mid, hr, h⟩
    · cases h
  · rintro ⟨v, mid, hr, hf⟩
    rw [hr]
    exact hf

@[simp] theorem map_iff {f : α → β} : Takes (f <$> r) input w rest ↔ ∃ v, Takes r input v rest ∧ f v = w := by
  rw [map_eq_pure_bind, bind_iff]
  simp

@[simp] theorem require_iff {condition : Bool} {e : WireError} {u : Unit} :
    Takes (require condition e) input u rest ↔ condition = true ∧ input = rest := by
  cases condition with
  | true => exact pure_iff.trans (and_congr_left' (by simp))
  | false => simp [require]

@[simp] theorem finish_iff {u : Unit} : Takes finish input u rest ↔ input = [] ∧ input = rest := by
  unfold Takes finish
  split <;> simp_all

/-- A reader reads some bytes as a whole when it takes the value and leaves nothing. -/
theorem readAll_iff {v : α} : readAll r bytes = .ok v ↔ Takes r bytes v [] := by
  constructor
  · intro h
    unfold readAll at h
    split at h
    · rename_i hread
      obtain ⟨_, mid, hr, hread⟩ := bind_iff.1 hread
      obtain ⟨_, _, hfinish, hread⟩ := bind_iff.1 hread
      obtain ⟨rfl, rfl⟩ := finish_iff.1 hfinish
      cases hread
      cases h
      exact hr
    · cases h
  · intro h
    have hread : (do let v ← r; finish; return v : Reader α) bytes = .ok v [] :=
      bind_iff.2 ⟨v, [], h, bind_iff.2 ⟨(), [], finish_iff.2 ⟨rfl, rfl⟩, pure_iff.2 ⟨rfl, rfl⟩⟩⟩
    rw [readAll, hread]

theorem take_iff : Takes (take n) input bytes rest ↔ bytes.length = n ∧ input = bytes ++ rest := by
  constructor
  · intro h
    unfold Takes Reader.take at h
    split at h
    · rename_i hn
      cases h
      exact ⟨List.length_take_of_le hn, (List.take_append_drop n input).symm⟩
    · cases h
  · rintro ⟨rfl, rfl⟩
    exact (Reads.take bytes).takes rest

theorem block_iff {b : Block n} : Takes (block n) input b rest ↔ input = b.octets ++ rest := by
  constructor
  · intro h
    unfold Takes Reader.block at h
    split at h
    · cases h
      exact (List.take_append_drop n input).symm
    · cases h
  · rintro rfl
    exact (Reads.block b).takes rest

theorem number_iff {v : Nat} :
    Takes (number n) input v rest ↔ v < capacity n ∧ input = bigEndian n v ++ rest := by
  constructor
  · intro h
    obtain ⟨bytes, htake, rfl⟩ := map_iff.1 h
    obtain ⟨rfl, rfl⟩ := take_iff.1 htake
    exact ⟨ofBigEndian_lt bytes, by rw [bigEndian_ofBigEndian]⟩
  · rintro ⟨hv, rfl⟩
    exact (Reads.number n hv).takes rest

@[simp] theorem uint8_iff {v : UInt8} : Takes uint8 input v rest ↔ input = v :: rest := by
  constructor
  · intro h
    obtain ⟨n, hn, rfl⟩ := map_iff.1 h
    obtain ⟨-, rfl⟩ := number_iff.1 hn
    rfl
  · rintro rfl
    exact (Reads.uint8 v).takes rest

@[simp] theorem bool_iff {v : Bool} : Takes bool input v rest ↔ input = Wire.ofBool v ++ rest := by
  constructor
  · intro h
    unfold Reader.bool at h
    obtain ⟨byte, mid, hbyte, hvalue⟩ := bind_iff.1 h
    rw [uint8_iff.1 hbyte]
    split at hvalue
    · cases hvalue
      rfl
    · cases hvalue
      rfl
    · exact absurd hvalue not_throw
  · rintro rfl
    exact (Reads.bool v).takes rest

@[simp] theorem uint16_iff {v : UInt16} : Takes uint16 input v rest ↔ input = Wire.ofUInt16 v ++ rest := by
  constructor
  · intro h
    obtain ⟨n, hn, rfl⟩ := map_iff.1 h
    obtain ⟨hfits, rfl⟩ := number_iff.1 hn
    rw [Wire.ofUInt16, UInt16.toNat_ofNat', Nat.mod_eq_of_lt (show n < 2 ^ 16 from hfits)]
  · rintro rfl
    exact (Reads.uint16 v).takes rest

@[simp] theorem uint32_iff {v : UInt32} : Takes uint32 input v rest ↔ input = Wire.ofUInt32 v ++ rest := by
  constructor
  · intro h
    obtain ⟨n, hn, rfl⟩ := map_iff.1 h
    obtain ⟨hfits, rfl⟩ := number_iff.1 hn
    rw [Wire.ofUInt32, UInt32.toNat_ofNat', Nat.mod_eq_of_lt (show n < 2 ^ 32 from hfits)]
  · rintro rfl
    exact (Reads.uint32 v).takes rest

private theorem ofUInt64_of_lt {n : Nat} (h : n < capacity 8) : Wire.ofUInt64 (UInt64.ofNat n) = bigEndian 8 n := by
  rw [Wire.ofUInt64, UInt64.toNat_ofNat', Nat.mod_eq_of_lt (show n < 2 ^ 64 from h)]

@[simp] theorem uint64_iff {required : Bool} {v : UInt64} :
    Takes (uint64 required) input v rest ↔ (required = true → v ≠ 0) ∧ input = Wire.ofUInt64 v ++ rest := by
  constructor
  · intro h
    simp only [Reader.uint64, bind_iff, map_iff, number_iff, require_iff, pure_iff] at h
    obtain ⟨_, _, ⟨n, ⟨hfits, rfl⟩, rfl⟩, _, _, ⟨hrequired, rfl⟩, rfl, rfl⟩ := h
    refine ⟨?_, by rw [ofUInt64_of_lt hfits]⟩
    rintro rfl
    simpa using hrequired
  · rintro ⟨hv, rfl⟩
    exact (Reads.uint64 required hv).takes rest

@[simp] theorem int64_iff {v : Int64} : Takes int64 input v rest ↔ input = Wire.ofInt64 v ++ rest := by
  constructor
  · intro h
    obtain ⟨n, hn, rfl⟩ := map_iff.1 h
    obtain ⟨hfits, rfl⟩ := number_iff.1 hn
    exact congrArg (· ++ rest) (ofUInt64_of_lt hfits).symm
  · rintro rfl
    exact (Reads.int64 v).takes rest

@[simp] theorem identifier_iff {required : Bool} {x : Identifier} :
    Takes (identifier required) input x rest ↔ (required = true → x ≠ .empty) ∧ input = x.octets ++ rest := by
  constructor
  · intro h
    simp only [Reader.identifier, bind_iff, map_iff, block_iff, require_iff, pure_iff] at h
    obtain ⟨_, _, ⟨b, rfl, rfl⟩, _, _, ⟨hrequired, rfl⟩, rfl, rfl⟩ := h
    refine ⟨?_, rfl⟩
    rintro rfl hempty
    simp [hempty] at hrequired
  · rintro ⟨hx, rfl⟩
    exact (Reads.identifier required hx).takes rest

@[simp] theorem address_iff {x : Address} : Takes address input x rest ↔ input = x.octets ++ rest := by
  constructor
  · intro h
    obtain ⟨b, hb, rfl⟩ := map_iff.1 h
    exact block_iff.1 hb
  · rintro rfl
    exact (Reads.address x).takes rest

@[simp] theorem prefixed_iff {max : Nat} {required : Bool} :
    Takes (prefixed max required) input bytes rest ↔ bytes.length ≤ max ∧ (required = true → bytes ≠ []) ∧
      ∃ written, Wire.ofPrefixed bytes = .ok written ∧ input = written ++ rest := by
  constructor
  · intro h
    simp only [Reader.prefixed, bind_iff, map_iff, uint16_iff, require_iff, take_iff] at h
    obtain ⟨_, _, ⟨announced, rfl, rfl⟩, _, _, ⟨hmax, rfl⟩, _, _, ⟨hrequired, rfl⟩, hbytes, rfl⟩ := h
    have hfits : bytes.length ≤ Wire.maxPrefixed := hbytes ▸ Nat.le_of_lt_succ announced.toNat_lt
    rw [← hbytes] at hmax hrequired
    refine ⟨of_decide_eq_true hmax, ?_, _, if_pos hfits, ?_⟩
    · rintro rfl rfl
      cases hrequired
    · rw [hbytes, UInt16.ofNat_toNat, List.append_assoc]
  · rintro ⟨hmax, hrequired, written, hwritten, rfl⟩
    exact (Reads.prefixed required hwritten hmax hrequired).takes rest

section Optional

variable {mask : UInt8} {slot : Nat}

theorem slotPresent_bind_iff {f : Bool → Reader β} :
    Takes (Wire.slotPresent mask slot >>= f) input w rest ↔
      slot < Wire.maxFields ∧ Takes (f (mask.toNat.testBit slot)) input w rest := by
  unfold Wire.slotPresent
  split
  · rename_i hslot
    exact (and_iff_right hslot).symm
  · rename_i hslot
    exact ⟨fun h => absurd (bind_iff.1 h) fun ⟨_, _, hthrow, _⟩ => not_throw hthrow, fun h => absurd h.1 hslot⟩

/-- A field follows when its bit is set. It is never zero when it follows, and zero when it does not. -/
private theorem optional_iff (field : α → Wire.Field) {r : Reader α} {zero v : α} {written : Octets}
    (hpresent : (field v).present = true ↔ v ≠ zero)
    (hoctets : (field v).octets = if (field v).present then written else [])
    (hread : Takes r input v rest ↔ v ≠ zero ∧ input = written ++ rest) :
    Takes (Wire.slotPresent mask slot >>= fun present => if present then r else pure zero) input v rest ↔
      slot < Wire.maxFields ∧ mask.toNat.testBit slot = (field v).present ∧ input = (field v).octets ++ rest := by
  refine slotPresent_bind_iff.trans (and_congr_right fun _ => ?_)
  rw [hoctets]
  cases mask.toNat.testBit slot with
  | true =>
    rw [if_pos rfl, hread, ← hpresent, eq_comm (a := true)]
    exact and_congr_right fun h => by rw [if_pos h]
  | false =>
    have habsent : zero = v ↔ false = (field v).present := by
      rw [eq_comm (a := false), ← Bool.not_eq_true, hpresent, Classical.not_not, eq_comm]
    rw [if_neg Bool.false_ne_true, pure_iff, habsent]
    exact and_congr_right fun h => by rw [← h, if_neg Bool.false_ne_true, List.nil_append]

theorem optionalUInt64_iff {v : UInt64} : Takes (Wire.optionalUInt64 mask slot) input v rest ↔
    slot < Wire.maxFields ∧ mask.toNat.testBit slot = (Wire.Field.uint64 v).present ∧
      input = (Wire.Field.uint64 v).octets ++ rest :=
  optional_iff .uint64 (by simp [Wire.Field.present]) rfl (by simp)

theorem optionalInt64_iff {v : Int64} : Takes (Wire.optionalInt64 mask slot) input v rest ↔
    slot < Wire.maxFields ∧ mask.toNat.testBit slot = (Wire.Field.int64 v).present ∧
      input = (Wire.Field.int64 v).octets ++ rest := by
  refine optional_iff .int64 (by simp [Wire.Field.present]) rfl ?_
  simp only [bind_iff, int64_iff, require_iff, pure_iff, bne_iff_ne]
  constructor
  · rintro ⟨_, _, rfl, _, _, ⟨hv, rfl⟩, rfl, rfl⟩
    exact ⟨hv, rfl⟩
  · rintro ⟨hv, rfl⟩
    exact ⟨v, rest, rfl, (), rest, ⟨hv, rfl⟩, rfl, rfl⟩

theorem optionalIdentifier_iff {x : Identifier} : Takes (Wire.optionalIdentifier mask slot) input x rest ↔
    slot < Wire.maxFields ∧ mask.toNat.testBit slot = (Wire.Field.identifier x).present ∧
      input = (Wire.Field.identifier x).octets ++ rest :=
  optional_iff .identifier (by simp [Wire.Field.present]) rfl (by simp)

/-- A section has one mask: its bits say which fields follow, and no other bit is set. -/
theorem mask_unique {s : Wire.OptionalSection}
    (hbits : ∀ (i : Nat) (h : i < s.fields.length), mask.toNat.testBit i = s.fields[i].present)
    (hend : (s.fields.length ≥ Wire.maxFields || mask.toNat >>> s.fields.length == 0) = true) : mask = s.mask := by
  apply UInt8.toNat_inj.1
  rw [s.toNat_mask]
  refine Nat.eq_of_testBit_eq fun i => ?_
  rw [Wire.testBit_maskFrom]
  by_cases hi : i < s.fields.length
  · rw [hbits i hi, List.getElem?_eq_getElem hi, Option.any_some]
  · rw [List.getElem?_eq_none (Nat.le_of_not_lt hi), Option.any_none]
    simp only [Bool.or_eq_true, decide_eq_true_eq, beq_iff_eq] at hend
    obtain hfull | hclear := hend
    · refine Nat.testBit_lt_two_pow (Nat.lt_of_lt_of_le mask.toNat_lt ?_)
      exact Nat.pow_le_pow_right (by decide) (Nat.le_trans hfull (Nat.le_of_not_lt hi))
    · have hbit := Nat.testBit_shiftRight (i := s.fields.length) (j := i - s.fields.length) mask.toNat
      rw [hclear, Nat.zero_testBit, Nat.add_sub_cancel' (Nat.le_of_not_lt hi)] at hbit
      exact hbit.symm

end Optional

/-- Terms are taken only from the section that they are written as. -/
@[simp] theorem terms_iff {t : Bridge.Terms} : Takes Bridge.Terms.read input t rest ↔ input = t.octets ++ rest := by
  constructor
  · intro h
    simp only [Bridge.Terms.read, bind_iff, uint8_iff, optionalUInt64_iff, optionalInt64_iff, optionalIdentifier_iff,
      Wire.endSection, require_iff, pure_iff] at h
    obtain ⟨mask, _, rfl, reward, _, ⟨-, h0, rfl⟩, amountIn, _, ⟨-, h1, rfl⟩, assetOut, _, ⟨-, h2, rfl⟩, amountOut, _,
      ⟨-, h3, rfl⟩, expiry, _, ⟨-, h4, rfl⟩, _, _, ⟨hend, rfl⟩, rfl, rfl⟩ := h
    let t : Bridge.Terms := ⟨reward, amountIn, assetOut, amountOut, expiry⟩
    have hmask : mask = t.toSection.mask := by
      refine mask_unique (fun i hi => ?_) hend
      match i with
      | 0 => exact h0
      | 1 => exact h1
      | 2 => exact h2
      | 3 => exact h3
      | 4 => exact h4
    simp [hmask, t, Bridge.Terms.octets, Wire.OptionalSection.octets, Bridge.Terms.toSection]
  · rintro rfl
    exact t.reads.takes rest

end Takes
end BridgeLedger
