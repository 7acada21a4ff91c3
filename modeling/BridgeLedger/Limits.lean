/-! Limits of the ledger. -/
namespace BridgeLedger.Limits

def maxSymbol : Nat := 8

def maxMemo : Nat := 256

def maxMetadata : Nat := 256

def maxUrl : Nat := 1000

def maxDecimals : UInt8 := 9

/-- The largest supply of an asset: it fits a signed 64-bit number. -/
def maxSupply : UInt64 := 9223372036854775807

def maxPayload : Nat := 65536

end BridgeLedger.Limits
