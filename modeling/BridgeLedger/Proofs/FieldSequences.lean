import BridgeLedger.Proofs.ExactFields
import BridgeLedger.Proofs.RecordRoundTrip
import BridgeLedger.Wire.Item
import Mathlib.Data.List.Forall2

/-! Sequences of typed fields. Readers of given shapes take a sequence from the front of an input exactly if the input
starts with the written form of the sequence, whatever follows it. An optional section has one written form, and a ninth
field of it is neither written nor read. -/
namespace BridgeLedger

namespace Wire

/-- A field within the bounds of a shape: of its type, as long as the shape allows, and not zero or empty where
something is required. -/
inductive Shape.Admits : Shape → Item → Prop
  | uint8 (v : UInt8) : Admits .uint8 (.uint8 v)
  | uint16 (v : UInt16) : Admits .uint16 (.uint16 v)
  | uint32 (v : UInt32) : Admits .uint32 (.uint32 v)
  | uint64 {required : Bool} {v : UInt64} (h : required = true → v ≠ 0) : Admits (.uint64 required) (.uint64 v)
  | int64 (v : Int64) : Admits .int64 (.int64 v)
  | bool (v : Bool) : Admits .bool (.bool v)
  | identifier {required : Bool} {x : Identifier} (h : required = true → x ≠ .empty) :
      Admits (.identifier required) (.identifier x)
  | address (x : Address) : Admits .address (.address x)
  | fixed {n : Nat} {bytes : Octets} (h : bytes.length = n) : Admits (.fixed n) (.fixed bytes)
  | prefixed {max : Nat} {required : Bool} {bytes : Octets} (hmax : bytes.length ≤ max)
      (hrequired : required = true → bytes ≠ []) : Admits (.prefixed max required) (.prefixed bytes)
  | optional {kinds : List FieldKind} {s : OptionalSection} (h : s.fields.map Field.kind = kinds) :
      Admits (.optional kinds) (.optional s)

/-- A field that can be written is within the bounds of its own shape. -/
theorem Item.shape_admits {item : Item} {bytes : Octets} (h : item.encode = .ok bytes) : item.shape.Admits item := by
  cases item with
  | uint8 v => exact .uint8 v
  | uint16 v => exact .uint16 v
  | uint32 v => exact .uint32 v
  | uint64 v => exact .uint64 nofun
  | int64 v => exact .int64 v
  | bool v => exact .bool v
  | identifier x => exact .identifier nofun
  | address x => exact .address x
  | fixed bytes => exact .fixed rfl
  | prefixed bytes => exact .prefixed (length_of_ofPrefixed h) nofun
  | optional s => exact .optional rfl

theorem shapes_admitted {items : List Item} {bytes : Octets} (h : encodeItems items = .ok bytes) :
    List.Forall₂ Shape.Admits (items.map Item.shape) items := by
  induction items generalizing bytes with
  | nil => exact .nil
  | cons item items ih =>
    obtain ⟨front, hfront, h⟩ := exists_ok_of_bind h
    obtain ⟨back, hback, -⟩ := exists_ok_of_bind h
    exact .cons (Item.shape_admits hfront) (ih hback)

/-- From a slot on, the bits of a mask say which of these fields are written. -/
def Marks (mask : UInt8) (slot : Nat) : List Field → Prop
  | [] => True
  | f :: fs => (slot < maxFields ∧ mask.toNat.testBit slot = f.present) ∧ Marks mask (slot + 1) fs

theorem marks_iff {mask : UInt8} {slot : Nat} {fields : List Field} : Marks mask slot fields ↔
    ∀ (i : Nat) (h : i < fields.length), slot + i < maxFields ∧ mask.toNat.testBit (slot + i) = fields[i].present := by
  induction fields generalizing slot with
  | nil => exact ⟨fun _ _ h => absurd h (Nat.not_lt_zero _), fun _ => trivial⟩
  | cons f fs ih =>
    rw [Marks, ih]
    have hnext (i : Nat) : slot + 1 + i = slot + (i + 1) := by omega
    constructor
    · rintro ⟨hfirst, hrest⟩ i hi
      cases i with
      | zero => exact hfirst
      | succ i => exact hnext i ▸ hrest i (Nat.lt_of_succ_lt_succ hi)
    · intro h
      refine ⟨h 0 (Nat.zero_lt_succ _), fun i hi => ?_⟩
      rw [hnext]
      exact h (i + 1) (Nat.succ_lt_succ hi)

namespace OptionalSection

/-- The mask of a section marks its fields. -/
theorem marks (s : OptionalSection) : Marks s.mask 0 s.fields := by
  refine marks_iff.2 fun i hi => ?_
  rw [Nat.zero_add, toNat_mask, testBit_maskFrom, List.getElem?_eq_getElem hi]
  exact ⟨Nat.lt_of_lt_of_le hi s.length_fields, rfl⟩

/-- Fields are added to a section one after the other, up to the eighth. -/
theorem pushAll (s : OptionalSection) (fields : List Field) : fields.foldlM push s =
    if h : (s.fields ++ fields).length ≤ maxFields then .ok ⟨s.fields ++ fields, h⟩ else .error .optionalOverflow := by
  induction fields generalizing s with
  | nil =>
    have hall : (s.fields ++ []).length ≤ maxFields := by simpa using s.length_fields
    rw [dif_pos hall]
    simp [pure, Except.pure]
  | cons f fs ih =>
    rw [List.foldlM_cons, push]
    split
    · refine (ih _).trans ?_
      simp
    · rename_i hfull
      have hall : ¬(s.fields ++ f :: fs).length ≤ maxFields := by
        rw [List.length_append, List.length_cons]
        omega
      rw [dif_neg hall]
      rfl

end OptionalSection
end Wire

namespace Takes

open Wire

variable {α β : Type} {input rest : Octets}

section Section

variable {mask : UInt8} {slot : Nat} {kind : FieldKind}

theorem optionalField_iff {f : Field} : Takes (optionalField mask slot kind) input f rest ↔
    f.kind = kind ∧ (slot < maxFields ∧ mask.toNat.testBit slot = f.present) ∧ input = f.octets ++ rest := by
  cases kind <;> cases f <;>
    simp [optionalField, map_iff, optionalUInt64_iff, optionalInt64_iff, optionalIdentifier_iff, Field.kind, and_assoc]

/-- Fields of a section are taken as the bits of the mask say, each from its written form. -/
theorem readFields_iff {kinds : List FieldKind} {fields : List Field} :
    Takes (readFields mask slot kinds) input fields rest ↔
      fields.map Field.kind = kinds ∧ Marks mask slot fields ∧ input = fields.flatMap Field.octets ++ rest := by
  induction kinds generalizing slot input fields rest with
  | nil =>
    rw [readFields, pure_iff, List.map_eq_nil_iff]
    constructor
    · rintro ⟨rfl, rfl⟩
      exact ⟨rfl, trivial, rfl⟩
    · rintro ⟨rfl, -, rfl⟩
      exact ⟨rfl, rfl⟩
  | cons kind kinds ih =>
    simp only [readFields, bind_iff, optionalField_iff, ih, pure_iff]
    constructor
    · rintro ⟨f, _, ⟨rfl, hmark, rfl⟩, fs, _, ⟨rfl, hmarks, rfl⟩, rfl, rfl⟩
      exact ⟨rfl, ⟨hmark, hmarks⟩, by simp⟩
    · rintro ⟨hkinds, hmarks, rfl⟩
      obtain ⟨f, fs, rfl, rfl, rfl⟩ := List.map_eq_cons_iff.1 hkinds
      refine ⟨f, _, ⟨rfl, hmarks.1, ?_⟩, fs, _, ⟨rfl, hmarks.2, rfl⟩, rfl, rfl⟩
      rw [List.flatMap_cons, List.append_assoc]

/-- A section is taken exactly from its written form. -/
theorem readSection_iff {kinds : List FieldKind} {s : OptionalSection} :
    Takes (readSection kinds) input s rest ↔ s.fields.map Field.kind = kinds ∧ input = s.octets ++ rest := by
  simp only [readSection, bind_iff, uint8_iff, readFields_iff, endSection, require_iff]
  constructor
  · rintro ⟨mask, _, rfl, fields, _, ⟨rfl, hmarks, rfl⟩, _, _, ⟨hend, rfl⟩, hsection⟩
    split at hsection
    · obtain ⟨rfl, rfl⟩ := pure_iff.1 hsection
      rw [List.length_map] at hend
      have hbits := fun i hi => (marks_iff.1 hmarks i hi).2
      simp only [Nat.zero_add] at hbits
      exact ⟨rfl, by rw [mask_unique (s := ⟨fields, _⟩) hbits hend, OptionalSection.octets, List.cons_append]⟩
    · exact absurd hsection not_throw
  · rintro ⟨rfl, rfl⟩
    refine ⟨s.mask, _, rfl, s.fields, rest, ⟨rfl, s.marks, rfl⟩, (), rest, ⟨?_, rfl⟩, ?_⟩
    · exact endSection_mask s (List.length_map _).symm
    · rw [dif_pos s.length_fields]
      exact pure_iff.2 ⟨rfl, rfl⟩

end Section

/-- A field is taken exactly from its written form, and within the bounds of the shape. -/
theorem shape_iff {shape : Shape} {item : Item} : Takes shape.read input item rest ↔
    shape.Admits item ∧ ∃ bytes, item.encode = .ok bytes ∧ input = bytes ++ rest := by
  constructor
  · intro h
    cases shape with
    | uint8 =>
      obtain ⟨v, hv, rfl⟩ := map_iff.1 h
      exact ⟨.uint8 v, _, rfl, uint8_iff.1 hv⟩
    | uint16 =>
      obtain ⟨v, hv, rfl⟩ := map_iff.1 h
      exact ⟨.uint16 v, _, rfl, uint16_iff.1 hv⟩
    | uint32 =>
      obtain ⟨v, hv, rfl⟩ := map_iff.1 h
      exact ⟨.uint32 v, _, rfl, uint32_iff.1 hv⟩
    | uint64 required =>
      obtain ⟨v, hv, rfl⟩ := map_iff.1 h
      obtain ⟨hrequired, hinput⟩ := uint64_iff.1 hv
      exact ⟨.uint64 hrequired, _, rfl, hinput⟩
    | int64 =>
      obtain ⟨v, hv, rfl⟩ := map_iff.1 h
      exact ⟨.int64 v, _, rfl, int64_iff.1 hv⟩
    | bool =>
      obtain ⟨v, hv, rfl⟩ := map_iff.1 h
      exact ⟨.bool v, _, rfl, bool_iff.1 hv⟩
    | identifier required =>
      obtain ⟨x, hx, rfl⟩ := map_iff.1 h
      obtain ⟨hrequired, hinput⟩ := identifier_iff.1 hx
      exact ⟨.identifier hrequired, _, rfl, hinput⟩
    | address =>
      obtain ⟨x, hx, rfl⟩ := map_iff.1 h
      exact ⟨.address x, _, rfl, address_iff.1 hx⟩
    | fixed n =>
      obtain ⟨bytes, hbytes, rfl⟩ := map_iff.1 h
      obtain ⟨hlength, hinput⟩ := take_iff.1 hbytes
      exact ⟨.fixed hlength, _, rfl, hinput⟩
    | prefixed max required =>
      obtain ⟨bytes, hbytes, rfl⟩ := map_iff.1 h
      obtain ⟨hmax, hrequired, hwritten⟩ := prefixed_iff.1 hbytes
      exact ⟨.prefixed hmax hrequired, hwritten⟩
    | optional kinds =>
      obtain ⟨s, hs, rfl⟩ := map_iff.1 h
      obtain ⟨hkinds, hinput⟩ := readSection_iff.1 hs
      exact ⟨.optional hkinds, _, rfl, hinput⟩
  · rintro ⟨hadmits, bytes, hbytes, rfl⟩
    cases hadmits with
    | uint8 v => cases hbytes; exact map_iff.2 ⟨v, uint8_iff.2 rfl, rfl⟩
    | uint16 v => cases hbytes; exact map_iff.2 ⟨v, uint16_iff.2 rfl, rfl⟩
    | uint32 v => cases hbytes; exact map_iff.2 ⟨v, uint32_iff.2 rfl, rfl⟩
    | uint64 h => cases hbytes; exact map_iff.2 ⟨_, uint64_iff.2 ⟨h, rfl⟩, rfl⟩
    | int64 v => cases hbytes; exact map_iff.2 ⟨v, int64_iff.2 rfl, rfl⟩
    | bool v => cases hbytes; exact map_iff.2 ⟨v, bool_iff.2 rfl, rfl⟩
    | identifier h => cases hbytes; exact map_iff.2 ⟨_, identifier_iff.2 ⟨h, rfl⟩, rfl⟩
    | address x => cases hbytes; exact map_iff.2 ⟨x, address_iff.2 rfl, rfl⟩
    | fixed h => cases hbytes; exact map_iff.2 ⟨_, take_iff.2 ⟨h, rfl⟩, rfl⟩
    | prefixed hmax hrequired => exact map_iff.2 ⟨_, prefixed_iff.2 ⟨hmax, hrequired, bytes, hbytes, rfl⟩, rfl⟩
    | optional h => cases hbytes; exact map_iff.2 ⟨_, readSection_iff.2 ⟨h, rfl⟩, rfl⟩

/-- Fields are taken one after the other exactly from their written form, each within the bounds of its shape. -/
theorem readShapes_iff {shapes : List Shape} {items : List Item} : Takes (readShapes shapes) input items rest ↔
    List.Forall₂ Shape.Admits shapes items ∧ ∃ bytes, encodeItems items = .ok bytes ∧ input = bytes ++ rest := by
  induction shapes generalizing input items rest with
  | nil =>
    rw [readShapes, pure_iff, List.forall₂_nil_left_iff]
    constructor
    · rintro ⟨rfl, rfl⟩
      exact ⟨rfl, [], rfl, rfl⟩
    · rintro ⟨rfl, _, ⟨⟩, rfl⟩
      exact ⟨rfl, rfl⟩
  | cons shape shapes ih =>
    simp only [readShapes, bind_iff, shape_iff, ih, pure_iff, List.forall₂_cons_left_iff]
    constructor
    · rintro ⟨item, _, ⟨hadmits, front, hfront, rfl⟩, items, _, ⟨hall, back, hback, rfl⟩, rfl, rfl⟩
      refine ⟨⟨item, items, hadmits, hall, rfl⟩, front ++ back, ?_, (List.append_assoc ..).symm⟩
      rw [encodeItems, hfront, hback]
      rfl
    · rintro ⟨⟨item, items, hadmits, hall, rfl⟩, bytes, hbytes, rfl⟩
      obtain ⟨front, hfront, hbytes⟩ := exists_ok_of_bind hbytes
      obtain ⟨back, hback, hbytes⟩ := exists_ok_of_bind hbytes
      cases hbytes
      refine ⟨item, _, ⟨hadmits, front, hfront, ?_⟩, items, _, ⟨hall, back, hback, rfl⟩, rfl, rfl⟩
      exact List.append_assoc ..

/-- What follows a reader goes on with the value and the rest that it took. -/
theorem bind_eq {r : Reader α} {f : α → Reader β} {v : α} (h : Takes r input v rest) :
    (r >>= f) input = f v rest := by
  change EStateM.bind r f input = _
  rw [EStateM.bind, h]

end Takes

namespace Wire

theorem optionalField_full (mask : UInt8) (kind : FieldKind) (input : Octets) :
    optionalField mask maxFields kind input = .error .optionalOverflow input := by
  cases kind <;> rfl

/-- Behind the eighth field no other one is read. -/
theorem readFields_full {mask : UInt8} {slot : Nat} {kinds : List FieldKind} {input rest : Octets} {fields : List Field}
    (hfull : slot + kinds.length = maxFields) (h : readFields mask slot kinds input = .ok fields rest)
    (kind : FieldKind) (more : List FieldKind) :
    readFields mask slot (kinds ++ kind :: more) input = .error .optionalOverflow rest := by
  induction kinds generalizing slot input fields with
  | nil =>
    obtain ⟨-, rfl⟩ := Takes.pure_iff.1 h
    obtain rfl : slot = maxFields := hfull
    rw [List.nil_append, readFields]
    change EStateM.bind _ _ input = _
    rw [EStateM.bind, optionalField_full]
  | cons k kinds ih =>
    obtain ⟨f, mid, hfirst, h⟩ := Takes.bind_iff.1 h
    obtain ⟨fs, _, hrest, h⟩ := Takes.bind_iff.1 h
    obtain ⟨-, rfl⟩ := Takes.pure_iff.1 h
    rw [List.cons_append, readFields, hfirst.bind_eq]
    change EStateM.bind _ _ mid = _
    rw [EStateM.bind, ih (by rw [← hfull, List.length_cons]; omega) hrest]

/-- What is written for a sequence of fields is read back as these fields, whatever follows it, and no other input is:
readers of some shapes take values within their bounds, and leave a rest, exactly if the input is the written form of
the values and then the rest. For an optional section, too, only what is written for the fields is read as them. Up to
eight fields are put into a section, and a ninth one is refused by the writer and by the reader. -/
theorem sequences_read_exactly :
    (∀ (items : List Item) (bytes rest : Octets), encodeItems items = .ok bytes →
      readShapes (items.map Item.shape) (bytes ++ rest) = .ok items rest) ∧
    (∀ (shapes : List Shape) (input : Octets) (items : List Item) (rest : Octets),
      readShapes shapes input = .ok items rest ↔
        List.Forall₂ Shape.Admits shapes items ∧ ∃ bytes, encodeItems items = .ok bytes ∧ input = bytes ++ rest) ∧
    (∀ (kinds : List FieldKind) (input : Octets) (s : OptionalSection) (rest : Octets),
      readSection kinds input = .ok s rest ↔ s.fields.map Field.kind = kinds ∧ input = s.octets ++ rest) ∧
    (∀ fields : List Field, fields.foldlM OptionalSection.push .empty =
      if h : fields.length ≤ maxFields then .ok ⟨fields, h⟩ else .error .optionalOverflow) ∧
    ∀ (mask : UInt8) (kinds : List FieldKind) (input : Octets) (fields : List Field) (rest : Octets),
      kinds.length = maxFields → readFields mask 0 kinds input = .ok fields rest → ∀ kind more,
        readFields mask 0 (kinds ++ kind :: more) input = .error .optionalOverflow rest := by
  refine ⟨fun items bytes rest h => ?_, fun _ _ _ _ => Takes.readShapes_iff, fun _ _ _ _ => Takes.readSection_iff,
    OptionalSection.pushAll .empty, ?_⟩
  · exact Takes.readShapes_iff.2 ⟨shapes_admitted h, bytes, h, rfl⟩
  · intro mask kinds input fields rest hfull h kind more
    exact readFields_full (by rw [hfull, Nat.zero_add]) h kind more

namespace MixedFields

def items : List Item :=
  [.uint8 255, .uint16 256, .uint32 65536, .uint64 0, .int64 (-1), .bool true, .identifier .empty, .address .empty,
    .fixed [1, 2, 3], .prefixed [84, 73, 88], .optional ⟨[.int64 0, .uint64 9, .identifier .empty], by decide⟩]

def shapes : List Shape :=
  [.uint8, .uint16, .uint32, .uint64 false, .int64, .bool, .identifier false, .address, .fixed 3, .prefixed 8 true,
    .optional [.int64, .uint64, .identifier]]

theorem admitted : List.Forall₂ Shape.Admits shapes items :=
  .cons (.uint8 _) <| .cons (.uint16 _) <| .cons (.uint32 _) <| .cons (.uint64 nofun) <| .cons (.int64 _) <|
    .cons (.bool _) <| .cons (.identifier nofun) <| .cons (.address _) <| .cons (.fixed rfl) <|
    .cons (.prefixed (by decide) (by decide)) <| .cons (.optional rfl) .nil

/-- The fields are read back in front of another byte, also within bounds of their own, and a section of which eight
fields are read has no ninth. -/
theorem read_back :
    (∃ bytes, encodeItems items = .ok bytes ∧ readShapes (items.map Item.shape) (bytes ++ [7]) = .ok items [7] ∧
      readShapes shapes (bytes ++ [7]) = .ok items [7]) ∧
      readFields 2 0 (List.replicate 8 .uint64 ++ .identifier :: []) (ofUInt64 9 ++ [7]) =
        .error .optionalOverflow [7] := by
  obtain ⟨hwritten, hsequences, -, -, hninth⟩ := sequences_read_exactly
  constructor
  · obtain ⟨bytes, hbytes⟩ : ∃ bytes, encodeItems items = .ok bytes := ⟨_, rfl⟩
    have hbounded := (hsequences shapes _ items [7]).2 ⟨admitted, bytes, hbytes, rfl⟩
    exact ⟨bytes, hbytes, hwritten items bytes [7] hbytes, hbounded⟩
  · have hfull : (List.replicate 8 FieldKind.uint64).length = maxFields := rfl
    have height : readFields 2 0 (List.replicate 8 .uint64) (ofUInt64 9 ++ [7]) =
        .ok ([.uint64 0, .uint64 9] ++ List.replicate 6 (.uint64 0)) [7] := rfl
    exact hninth 2 _ _ _ _ hfull height .identifier []

end MixedFields
end Wire
end BridgeLedger
