import BridgeLedger.Wire.Reader

/-! Sections of up to eight fields of which only those that are not zero are written: a byte with one bit for
each field, lowest bit first, then the fields whose bit is set. A set bit before a zero field is refused when
read, so a section has one written form. -/
namespace BridgeLedger.Wire

inductive FieldKind where
  | uint64
  | int64
  | identifier
deriving DecidableEq

inductive Field where
  | uint64 (v : UInt64)
  | int64 (v : Int64)
  | identifier (v : Identifier)
deriving DecidableEq

namespace Field

def kind : Field → FieldKind
  | .uint64 _ => .uint64
  | .int64 _ => .int64
  | .identifier _ => .identifier

def present : Field → Bool
  | .uint64 v => v != 0
  | .int64 v => v != 0
  | .identifier v => !v.isEmpty

def octets (f : Field) : Octets :=
  if f.present then
    match f with
    | .uint64 v => ofUInt64 v
    | .int64 v => ofInt64 v
    | .identifier v => v.octets
  else []

end Field

def maxFields : Nat := 8

structure OptionalSection where
  fields : List Field
  length_fields : fields.length ≤ maxFields
deriving DecidableEq

namespace OptionalSection

def empty : OptionalSection := ⟨[], Nat.zero_le _⟩

/-- Adds a field after the others; there is no place for a ninth. -/
def push (s : OptionalSection) (f : Field) : Except WireError OptionalSection :=
  if h : s.fields.length < maxFields then .ok ⟨s.fields ++ [f], by rw [List.length_append]; exact h⟩
  else .error .optionalOverflow

def maskFrom (slot : Nat) : List Field → Nat
  | [] => 0
  | f :: fs => (if f.present then 1 <<< slot else 0) + maskFrom (slot + 1) fs

def mask (s : OptionalSection) : UInt8 := UInt8.ofNat (maskFrom 0 s.fields)

def octets (s : OptionalSection) : Octets := s.mask :: s.fields.flatMap Field.octets

end OptionalSection

/-- Whether the bit of field number `slot` is set; there is no ninth field. -/
def slotPresent (mask : UInt8) (slot : Nat) : Reader Bool :=
  if slot < maxFields then pure (mask.toNat.testBit slot) else throw .optionalOverflow

def optionalUInt64 (mask : UInt8) (slot : Nat) : Reader UInt64 := do
  if ← slotPresent mask slot then Reader.uint64 true else return 0

def optionalInt64 (mask : UInt8) (slot : Nat) : Reader Int64 := do
  if ← slotPresent mask slot then
    let v ← Reader.int64
    Reader.require (v != 0) .invalidObject
    return v
  else return 0

def optionalIdentifier (mask : UInt8) (slot : Nat) : Reader Identifier := do
  if ← slotPresent mask slot then Reader.identifier true else return .empty

def optionalField (mask : UInt8) (slot : Nat) : FieldKind → Reader Field
  | .uint64 => Field.uint64 <$> optionalUInt64 mask slot
  | .int64 => Field.int64 <$> optionalInt64 mask slot
  | .identifier => Field.identifier <$> optionalIdentifier mask slot

/-- Refuses bits past the first `slots` fields. -/
def endSection (mask : UInt8) (slots : Nat) : Reader Unit :=
  Reader.require (slots ≥ maxFields || mask.toNat >>> slots == 0) .invalidObject

def readFields (mask : UInt8) (slot : Nat) : List FieldKind → Reader (List Field)
  | [] => return []
  | k :: ks => do
    let f ← optionalField mask slot k
    let fs ← readFields mask (slot + 1) ks
    return f :: fs

def readSection (kinds : List FieldKind) : Reader OptionalSection := do
  let mask ← Reader.uint8
  let fields ← readFields mask 0 kinds
  endSection mask kinds.length
  if h : fields.length ≤ maxFields then return ⟨fields, h⟩ else throw .optionalOverflow

end BridgeLedger.Wire
