import BridgeLedger.Wire.Writer

/-! Keys of the stored records. Every key starts with a byte for its kind; the keys of records that can change
end with the number of storage chunks that the record may take. -/
namespace BridgeLedger

inductive StateKey where
  | balance (owner : Address) (asset : Identifier)
  | asset (asset : Identifier)
  | nft (nft : Identifier)
  | loan (asset destination : Identifier)
  | incoming (source message : Identifier)
  | outgoing (transaction : Identifier)
deriving DecidableEq

namespace StateKey

def balanceChunks : UInt16 := 1

def assetChunks : UInt16 := 5

def nftChunks : UInt16 := 5

def loanChunks : UInt16 := 1

def octets : StateKey → Octets
  | .balance o a => 0 :: (o.octets ++ a.octets ++ Wire.ofUInt16 balanceChunks)
  | .asset a => 1 :: (a.octets ++ Wire.ofUInt16 assetChunks)
  | .nft n => 2 :: (n.octets ++ Wire.ofUInt16 nftChunks)
  | .loan a d => 3 :: (a.octets ++ d.octets ++ Wire.ofUInt16 loanChunks)
  | .incoming s m => 7 :: (s.octets ++ m.octets)
  | .outgoing t => 8 :: t.octets

def cellKeyLength : Nat := 67

def looksLikeBalance (key : Octets) : Bool := key.length == cellKeyLength && key.head? == some 0

def looksLikeLoan (key : Octets) : Bool := key.length == cellKeyLength && key.head? == some 3

def balanceParts? (key : Octets) : Option (Address × Identifier) := do
  guard (looksLikeBalance key)
  let owner ← Address.ofOctets? ((key.drop 1).take 32)
  let asset ← Identifier.ofOctets? ((key.drop 33).take 32)
  return (owner, asset)

def loanParts? (key : Octets) : Option (Identifier × Identifier) := do
  guard (looksLikeLoan key)
  let asset ← Identifier.ofOctets? ((key.drop 1).take 32)
  let destination ← Identifier.ofOctets? ((key.drop 33).take 32)
  return (asset, destination)

end StateKey

def transactionKey (transaction : Identifier) : Octets := 0 :: transaction.octets

end BridgeLedger
