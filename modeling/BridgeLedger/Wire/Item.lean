import BridgeLedger.Wire.OptionalSection

/-! Typed fields as data: what one step of writing appends and what one step of reading expects. -/
namespace BridgeLedger.Wire

inductive Item where
  | uint8 (v : UInt8)
  | uint16 (v : UInt16)
  | uint32 (v : UInt32)
  | uint64 (v : UInt64)
  | int64 (v : Int64)
  | bool (v : Bool)
  | identifier (v : Identifier)
  | address (v : Address)
  | fixed (bytes : Octets)
  | prefixed (bytes : Octets)
  | optional (fields : OptionalSection)
deriving DecidableEq

inductive Shape where
  | uint8
  | uint16
  | uint32
  | uint64 (required : Bool)
  | int64
  | bool
  | identifier (required : Bool)
  | address
  | fixed (n : Nat)
  | prefixed (max : Nat) (required : Bool)
  | optional (kinds : List FieldKind)
deriving DecidableEq

def Item.encode : Item → Except WireError Octets
  | .uint8 v => .ok [v]
  | .uint16 v => .ok (ofUInt16 v)
  | .uint32 v => .ok (ofUInt32 v)
  | .uint64 v => .ok (ofUInt64 v)
  | .int64 v => .ok (ofInt64 v)
  | .bool v => .ok (ofBool v)
  | .identifier v => .ok v.octets
  | .address v => .ok v.octets
  | .fixed bytes => .ok bytes
  | .prefixed bytes => ofPrefixed bytes
  | .optional fields => .ok fields.octets

def Item.shape : Item → Shape
  | .uint8 _ => .uint8
  | .uint16 _ => .uint16
  | .uint32 _ => .uint32
  | .uint64 _ => .uint64 false
  | .int64 _ => .int64
  | .bool _ => .bool
  | .identifier _ => .identifier false
  | .address _ => .address
  | .fixed bytes => .fixed bytes.length
  | .prefixed _ => .prefixed maxPrefixed false
  | .optional s => .optional (s.fields.map Field.kind)

def Shape.read : Shape → Reader Item
  | .uint8 => Item.uint8 <$> Reader.uint8
  | .uint16 => Item.uint16 <$> Reader.uint16
  | .uint32 => Item.uint32 <$> Reader.uint32
  | .uint64 required => Item.uint64 <$> Reader.uint64 required
  | .int64 => Item.int64 <$> Reader.int64
  | .bool => Item.bool <$> Reader.bool
  | .identifier required => Item.identifier <$> Reader.identifier required
  | .address => Item.address <$> Reader.address
  | .fixed n => Item.fixed <$> Reader.take n
  | .prefixed max required => Item.prefixed <$> Reader.prefixed max required
  | .optional kinds => Item.optional <$> readSection kinds

def encodeItems : List Item → Except WireError Octets
  | [] => .ok []
  | item :: items => do
    let front ← item.encode
    let back ← encodeItems items
    return front ++ back

def readShapes : List Shape → Reader (List Item)
  | [] => return []
  | shape :: shapes => do
    let item ← shape.read
    let items ← readShapes shapes
    return item :: items

end BridgeLedger.Wire
