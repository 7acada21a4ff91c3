import BridgeLedger.Octets

/-! The hash function FNV-1a with 64 bits. It is no cryptographic hash: different byte strings with the same
digest are known, and with one suffix added to both they still have the same digest. -/
namespace BridgeLedger.Fnv1a

def initial : UInt64 := 0xcbf29ce484222325

def factor : UInt64 := 0x100000001b3

def absorb (h : UInt64) (b : UInt8) : UInt64 := (h ^^^ b.toUInt64) * factor

def digest (bytes : Octets) : UInt64 := bytes.foldl absorb initial

end BridgeLedger.Fnv1a
