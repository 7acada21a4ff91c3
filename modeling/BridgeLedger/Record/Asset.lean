import BridgeLedger.Wire.Reader

/-! Records of fungible assets. -/
namespace BridgeLedger

structure AssetRecord where
  symbol : Octets
  decimals : UInt8
  /-- free text, or for a bridged asset the asset that it stands for and the chain of that asset -/
  metadata : Octets
  supply : UInt64
  maxSupply : UInt64
  /-- who may mint; the empty address for a bridged asset -/
  owner : Address
  bridged : Bool
deriving DecidableEq

namespace AssetRecord

/-- The bytes of a record; a symbol or metadata too long for its length field cannot be written. -/
def encode (r : AssetRecord) : Except WireError Octets := do
  let symbol ← Wire.ofPrefixed r.symbol
  let metadata ← Wire.ofPrefixed r.metadata
  return symbol ++ [r.decimals] ++ metadata ++ Wire.ofUInt64 r.supply ++ Wire.ofUInt64 r.maxSupply
    ++ r.owner.octets ++ Wire.ofBool r.bridged

def read : Reader AssetRecord := do
  return {
    symbol := ← Reader.prefixed Wire.maxPrefixed false
    decimals := ← Reader.uint8
    metadata := ← Reader.prefixed Wire.maxPrefixed false
    supply := ← Reader.uint64 false
    maxSupply := ← Reader.uint64 false
    owner := ← Reader.address
    bridged := ← Reader.bool }

def decode (bytes : Octets) : Except WireError AssetRecord := Reader.readAll read bytes

end AssetRecord
end BridgeLedger
