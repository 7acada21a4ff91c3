import BridgeLedger.Wire.Reader

/-! Records of non-fungible tokens. -/
namespace BridgeLedger

structure NftRecord where
  metadata : Octets
  owner : Address
  url : Octets
deriving DecidableEq

namespace NftRecord

def encode (r : NftRecord) : Except WireError Octets := do
  let metadata ← Wire.ofPrefixed r.metadata
  let url ← Wire.ofPrefixed r.url
  return metadata ++ r.owner.octets ++ url

def read : Reader NftRecord := do
  return {
    metadata := ← Reader.prefixed Wire.maxPrefixed false
    owner := ← Reader.address
    url := ← Reader.prefixed Wire.maxPrefixed false }

def decode (bytes : Octets) : Except WireError NftRecord := Reader.readAll read bytes

end NftRecord
end BridgeLedger
