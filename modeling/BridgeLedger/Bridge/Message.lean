import BridgeLedger.Limits
import BridgeLedger.Text.Utf8
import BridgeLedger.Wire.Reader

/-! Messages between chains. Signing and checking them happens elsewhere: the ledger writes unsigned messages
and reads messages that have been checked. -/
namespace BridgeLedger.Bridge

structure Message where
  network : UInt32
  source : Identifier
  payload : Octets
deriving DecidableEq

namespace Message

def encode (m : Message) : Except WireError Octets :=
  if m.payload.length ≤ Limits.maxPayload then
    .ok (Wire.ofUInt32 m.network ++ m.source.octets ++ Wire.ofUInt32 (UInt32.ofNat m.payload.length) ++ m.payload)
  else .error .tooLarge

def read : Reader Message := do
  let network ← Reader.uint32
  let source ← Reader.identifier true
  let n ← UInt32.toNat <$> Reader.uint32
  Reader.require (n ≤ Limits.maxPayload) .tooLarge
  let payload ← Reader.take n
  return { network, source, payload }

def decode (bytes : Octets) : Except WireError Message := Reader.readAll read bytes

def label : Octets := Utf8.encode "Warpledger-Warp-Message-v1"

def identifier (m : Message) : Except WireError Identifier := do
  let bytes ← m.encode
  return Identifier.digest (label ++ bytes)

end Message
end BridgeLedger.Bridge
