import BridgeLedger.Signature.Ed25519
import BridgeLedger.Signature.P256
import BridgeLedger.Wire.Reader

/-! Who signed a transaction. The ledger only uses the account that a credential stands for. -/
namespace BridgeLedger

inductive Credential where
  | ed25519 (signer : Block 32) (signature : Block 64)
  | p256 (signer : Block 65) (signature : Block 64)
deriving DecidableEq

inductive CredentialError where
  | badSignature
deriving DecidableEq

def CredentialError.message : CredentialError → String
  | .badSignature => "bad signature"

/-- The account of a public key: the digest of the tag of its scheme and the key. -/
def accountOf (scheme : UInt8) (signer : Octets) : Address := ⟨Sha256.digest (scheme :: signer)⟩

namespace Credential

def tag : Credential → UInt8
  | .ed25519 .. => 0
  | .p256 .. => 1

def computeUnits : Credential → UInt64
  | .ed25519 .. => 5
  | .p256 .. => 10

def batchable : Credential → Bool
  | .ed25519 .. => true
  | .p256 .. => false

def signer : Credential → Octets
  | .ed25519 s _ => s.octets
  | .p256 s _ => s.octets

def signature : Credential → Octets
  | .ed25519 _ s => s.octets
  | .p256 _ s => s.octets

def account (c : Credential) : Address := accountOf c.tag c.signer

def verify (c : Credential) (message : Octets) : Except CredentialError Unit :=
  let valid := match c with
    | .ed25519 .. => Ed25519.verify c.signer c.signature message
    | .p256 .. => P256.verify c.signer c.signature message
  if valid then .ok () else .error .badSignature

def signEd25519 (seed message : Octets) : Credential :=
  .ed25519 (Ed25519.publicKey seed) (Ed25519.sign seed message)

def signP256 (secret : Octets) (publicKey : Block 65) (message : Octets) : Credential :=
  let number := ofBigEndian secret
  .p256 publicKey (P256.sign number (P256.nonceFor number message) message)

def encode (c : Credential) : Octets := c.tag :: (c.signer ++ c.signature)

def readEd25519 : Reader Credential := do
  return .ed25519 (← Reader.block 32) (← Reader.block 64)

def readP256 : Reader Credential := do
  return .p256 (← Reader.block 65) (← Reader.block 64)

end Credential
end BridgeLedger
