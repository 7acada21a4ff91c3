import BridgeLedger.Bridge.Terms

/-! Readers take back what writers put. A reader and some bytes belong together when the reader takes exactly these
bytes from the front of any input; sequences of readers then belong to concatenations of bytes. -/
namespace BridgeLedger

variable {α β : Type}

/-- From the front of any input that starts with these bytes, the reader takes exactly them, as this value. -/
def Reads (r : Reader α) (bytes : Octets) (v : α) : Prop := ∀ rest, r (bytes ++ rest) = .ok v rest

namespace Reads

open Reader

variable {r : Reader α} {bytes more : Octets} {v : α} {w : β}

protected theorem pure : Reads (pure v) [] v := fun _ => rfl

protected theorem bind {f : α → Reader β} (h : Reads r bytes v) (k : Reads (f v) more w) :
    Reads (r >>= f) (bytes ++ more) w := by
  intro rest
  change EStateM.bind r f _ = _
  rw [EStateM.bind, List.append_assoc, h]
  exact k rest

/-- The bytes may be grouped in another way. -/
theorem cast (h : Reads r bytes v) (e : bytes = more) : Reads r more v := e ▸ h

protected theorem map (f : α → β) (h : Reads r bytes v) : Reads (f <$> r) bytes (f v) := by
  intro rest
  change EStateM.map f r _ = _
  rw [EStateM.map, h]

/-- A requirement that is met takes nothing. -/
theorem after_require {condition : Bool} {e : WireError} (hc : condition = true) (h : Reads r bytes v) :
    Reads (require condition e >>= fun _ => r) bytes v := by
  subst hc
  exact h

/-- A reader that takes some bytes reads them as a whole. -/
theorem readAll (h : Reads r bytes v) : readAll r bytes = .ok v := by
  have hr : r bytes = .ok v [] := by simpa using h []
  have hf : (do let v ← r; finish; return v : Reader α) bytes = .ok v [] := by
    change EStateM.bind r _ bytes = _
    rw [EStateM.bind, hr]
    rfl
  rw [Reader.readAll, hf]

theorem take (bytes : Octets) : Reads (take bytes.length) bytes bytes := by
  intro rest
  rw [Reader.take, if_pos (by simp), List.take_left, List.drop_left]

theorem block {n : Nat} (b : Block n) : Reads (block n) b.octets b := by
  intro rest
  have hl : n ≤ (b.octets ++ rest).length := by rw [List.length_append, b.length_octets]; omega
  have ht : (b.octets ++ rest).take n = b.octets := List.take_left' b.length_octets
  have hd : (b.octets ++ rest).drop n = rest := List.drop_left' b.length_octets
  rw [Reader.block, dif_pos hl, hd]
  exact congrArg (EStateM.Result.ok · rest) (Block.ext ht)

theorem number (width : Nat) {n : Nat} (h : n < capacity width) : Reads (number width) (bigEndian width n) n := by
  have hr := (take (bigEndian width n)).map ofBigEndian
  rw [length_bigEndian, ofBigEndian_bigEndian, Nat.mod_eq_of_lt h] at hr
  exact hr

theorem uint8 (v : UInt8) : Reads uint8 [v] v := by
  have hb : bigEndian 1 v.toNat = [v] := by simp [bigEndian]
  have hr := (number 1 v.toNat_lt).map UInt8.ofNat
  rwa [hb, UInt8.ofNat_toNat] at hr

theorem bool (v : Bool) : Reads bool (Wire.ofBool v) v := by
  intro rest
  rw [Reader.bool, Wire.ofBool]
  change EStateM.bind Reader.uint8 _ _ = _
  rw [EStateM.bind, uint8]
  cases v <;> rfl

theorem uint16 (v : UInt16) : Reads uint16 (Wire.ofUInt16 v) v := by
  have hr := (number 2 v.toNat_lt).map UInt16.ofNat
  rwa [UInt16.ofNat_toNat] at hr

theorem uint32 (v : UInt32) : Reads uint32 (Wire.ofUInt32 v) v := by
  have hr := (number 4 v.toNat_lt).map UInt32.ofNat
  rwa [UInt32.ofNat_toNat] at hr

theorem uint64 (required : Bool) {v : UInt64} (h : required = true → v ≠ 0) :
    Reads (uint64 required) (Wire.ofUInt64 v) v := by
  have hr := (number 8 v.toNat_lt).map UInt64.ofNat
  rw [UInt64.ofNat_toNat] at hr
  have hc : (!required || v != 0) = true := by cases required <;> simp_all
  exact (hr.bind (f := fun v => Reader.require (!required || v != 0) .missing >>= fun _ => pure v)
    (after_require hc Reads.pure)).cast (List.append_nil _)

theorem int64 (v : Int64) : Reads int64 (Wire.ofInt64 v) v := by
  have hr := (number 8 v.toUInt64.toNat_lt).map
    fun n => (UInt64.ofNat n).toInt64
  rwa [UInt64.ofNat_toNat] at hr

theorem identifier (required : Bool) {x : Identifier} (h : required = true → x ≠ .empty) :
    Reads (identifier required) x.octets x := by
  have hc : (!required || !x.isEmpty) = true := by cases required <;> simp_all [Identifier.isEmpty]
  exact (((block x.block).map Identifier.mk).bind
    (f := fun x => Reader.require (!required || !x.isEmpty) .missing >>= fun _ => pure x)
    (after_require hc Reads.pure)).cast (List.append_nil _)

theorem address (x : Address) : Reads address x.octets x := (block x.block).map Address.mk

theorem prefixed {max : Nat} (required : Bool) {bytes written : Octets} (h : Wire.ofPrefixed bytes = .ok written)
    (hm : bytes.length ≤ max) (hr : required = true → bytes ≠ []) :
    Reads (prefixed max required) written bytes := by
  unfold Wire.ofPrefixed at h
  split at h
  · rename_i hl
    have hn : (UInt16.ofNat bytes.length).toNat = bytes.length := by
      rw [UInt16.toNat_ofNat', Nat.mod_eq_of_lt (show bytes.length < 2 ^ 16 from Nat.lt_succ_of_le hl)]
    have hlen := (uint16 (UInt16.ofNat bytes.length)).map UInt16.toNat
    rw [hn] at hlen
    have hz : (!required || bytes.length != 0) = true := by cases required <;> simp_all
    rw [← Except.ok.inj h]
    exact hlen.bind (after_require (by simpa using hm) (after_require hz (take bytes)))
  · cases h

end Reads

namespace Wire

theorem maskFrom_eq (slot : Nat) (fields : List Field) :
    OptionalSection.maskFrom slot fields = OptionalSection.maskFrom 0 fields <<< slot := by
  induction fields generalizing slot with
  | nil => simp [OptionalSection.maskFrom]
  | cons f fs ih =>
    rw [OptionalSection.maskFrom, OptionalSection.maskFrom, ih (slot + 1), ih (0 + 1)]
    simp only [Nat.shiftLeft_eq, Nat.add_mul, Nat.pow_succ', Nat.mul_assoc]
    split <;> simp

theorem maskFrom_zero_cons (f : Field) (fs : List Field) :
    OptionalSection.maskFrom 0 (f :: fs) = f.present.toNat + 2 * OptionalSection.maskFrom 0 fs := by
  rw [OptionalSection.maskFrom, maskFrom_eq (0 + 1), Nat.shiftLeft_eq (OptionalSection.maskFrom 0 fs), Nat.mul_comm]
  cases f.present <;> simp

theorem maskFrom_lt (fields : List Field) : OptionalSection.maskFrom 0 fields < 1 <<< fields.length := by
  rw [Nat.shiftLeft_eq, Nat.one_mul]
  induction fields with
  | nil => exact Nat.one_pos
  | cons f fs ih =>
    have hb : f.present.toNat ≤ 1 := Bool.toNat_le _
    rw [maskFrom_zero_cons, List.length_cons, Nat.pow_succ]
    omega

/-- The bit of a field says whether it is written. -/
theorem testBit_maskFrom (fields : List Field) (i : Nat) :
    (OptionalSection.maskFrom 0 fields).testBit i = (fields[i]?).any Field.present := by
  induction fields generalizing i with
  | nil => simp [OptionalSection.maskFrom]
  | cons f fs ih =>
    rw [maskFrom_zero_cons]
    cases i with
    | zero => cases h : f.present <;> simp [h, Nat.testBit_zero]
    | succ i =>
      have hd : (f.present.toNat + 2 * OptionalSection.maskFrom 0 fs) / 2 = OptionalSection.maskFrom 0 fs := by
        have hb : f.present.toNat ≤ 1 := Bool.toNat_le _
        omega
      rw [Nat.testBit_succ, hd, ih]
      simp

theorem OptionalSection.toNat_mask (s : OptionalSection) : s.mask.toNat = maskFrom 0 s.fields := by
  have hl := maskFrom_lt s.fields
  rw [Nat.shiftLeft_eq, Nat.one_mul] at hl
  have hp : 2 ^ s.fields.length ≤ 2 ^ 8 := Nat.pow_le_pow_right (by decide) s.length_fields
  rw [mask, UInt8.toNat_ofNat', Nat.mod_eq_of_lt (by omega)]

variable {mask : UInt8} {slot : Nat}

theorem reads_slot {bytes : Octets} {v : α} {present : Bool} {f : Bool → Reader α} (hs : slot < maxFields)
    (hb : mask.toNat.testBit slot = present) (h : Reads (f present) bytes v) :
    Reads (slotPresent mask slot >>= f) bytes v := by
  rw [slotPresent, if_pos hs, hb]
  exact h

theorem reads_optionalUInt64 {v : UInt64} (hs : slot < maxFields)
    (hb : mask.toNat.testBit slot = (Field.uint64 v).present) :
    Reads (optionalUInt64 mask slot) (Field.uint64 v).octets v := by
  apply reads_slot hs hb
  by_cases hv : v = 0
  · subst hv
    exact Reads.pure
  · have hp : (Field.uint64 v).present = true := by simpa [Field.present] using hv
    rw [hp, Field.octets, if_pos hp]
    exact Reads.uint64 true fun _ => hv

theorem reads_optionalInt64 {v : Int64} (hs : slot < maxFields)
    (hb : mask.toNat.testBit slot = (Field.int64 v).present) :
    Reads (optionalInt64 mask slot) (Field.int64 v).octets v := by
  apply reads_slot hs hb
  by_cases hv : v = 0
  · subst hv
    exact Reads.pure
  · have hp : (Field.int64 v).present = true := by simpa [Field.present] using hv
    rw [hp, Field.octets, if_pos hp]
    exact ((Reads.int64 v).bind (f := fun v => Reader.require (v != 0) .invalidObject >>= fun _ => pure v)
      (Reads.after_require hp Reads.pure)).cast (List.append_nil _)

theorem reads_optionalIdentifier {x : Identifier} (hs : slot < maxFields)
    (hb : mask.toNat.testBit slot = (Field.identifier x).present) :
    Reads (optionalIdentifier mask slot) (Field.identifier x).octets x := by
  apply reads_slot hs hb
  by_cases hx : x = .empty
  · subst hx
    exact Reads.pure
  · have hp : (Field.identifier x).present = true := by simpa [Field.present, Identifier.isEmpty] using hx
    rw [hp, Field.octets, if_pos hp]
    exact Reads.identifier true fun _ => hx

/-- The end of a section accepts the mask of its own fields. -/
theorem endSection_mask (s : OptionalSection) {n : Nat} (hn : s.fields.length = n) :
    (n ≥ maxFields || s.mask.toNat >>> n == 0) = true := by
  have hl := maskFrom_lt s.fields
  rw [Nat.shiftLeft_eq, Nat.one_mul, ← s.toNat_mask, hn] at hl
  simp [Nat.shiftRight_eq_div_pow, Nat.div_eq_of_lt hl]

end Wire

namespace Bridge.Terms

private theorem testBit_mask (t : Terms) (i : Nat) :
    t.toSection.mask.toNat.testBit i = (t.toSection.fields[i]?).any Wire.Field.present := by
  rw [Wire.OptionalSection.toNat_mask, Wire.testBit_maskFrom]

theorem reads (t : Terms) : Reads read t.octets t := by
  have hs {i : Nat} (h : i < 5) : i < Wire.maxFields := Nat.lt_trans h (by decide)
  refine (Reads.uint8 t.toSection.mask).bind ?_
  refine (Wire.reads_optionalUInt64 (hs (by decide)) (t.testBit_mask 0)).bind ?_
  refine (Wire.reads_optionalUInt64 (hs (by decide)) (t.testBit_mask 1)).bind ?_
  refine (Wire.reads_optionalIdentifier (hs (by decide)) (t.testBit_mask 2)).bind ?_
  refine (Wire.reads_optionalUInt64 (hs (by decide)) (t.testBit_mask 3)).bind ?_
  refine (Wire.reads_optionalInt64 (hs (by decide)) (t.testBit_mask 4)).bind ?_
  exact Reads.after_require (Wire.endSection_mask t.toSection rfl) Reads.pure

end Bridge.Terms
end BridgeLedger
