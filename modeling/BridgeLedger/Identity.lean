import BridgeLedger.Digest.Sha256
import BridgeLedger.Text.Base58
import BridgeLedger.Text.Blank
import BridgeLedger.Text.Hex

/-! Identifiers of transactions, assets, tokens, chains and messages, and addresses of accounts.
Both are 32 bytes; an identifier is written in hexadecimal and an address in base 58. -/
namespace BridgeLedger

structure Identifier where
  block : Block 32
deriving DecidableEq

structure Address where
  block : Block 32
deriving DecidableEq

inductive NameError where
  | encoding
  | length
deriving DecidableEq

def NameError.message : NameError → String
  | .encoding => "invalid encoding"
  | .length => "invalid length"

namespace Identifier

def octets (x : Identifier) : Octets := x.block.octets

/-- The all-zero identifier. It names the native asset and means "unset" elsewhere. -/
def empty : Identifier := ⟨Block.zero 32⟩

def isEmpty (x : Identifier) : Bool := x = empty

def ofOctets? (bytes : Octets) : Option Identifier := (Block.ofOctets? 32 bytes).map mk

def digest (bytes : Octets) : Identifier := ⟨Sha256.digest bytes⟩

def text (x : Identifier) : String := Hex.encode x.octets

def ofText (s : String) : Except NameError Identifier :=
  match Hex.decode? (Blank.trim s) with
  | none => .error .encoding
  | some bytes => (ofOctets? bytes).elim (.error .length) .ok

@[simp] theorem length_octets (x : Identifier) : x.octets.length = 32 := x.block.length_octets

theorem octets_injective {x y : Identifier} (h : x.octets = y.octets) : x = y := by
  cases x; cases y; exact congrArg mk (Block.ext h)

theorem ofOctets?_eq_some {bytes : Octets} {x : Identifier} : ofOctets? bytes = some x ↔ x.octets = bytes := by
  cases x
  simp [ofOctets?, octets, Block.ofOctets?_eq_some]

@[simp] theorem isEmpty_iff {x : Identifier} : x.isEmpty = true ↔ x = empty := by simp [isEmpty]

@[simp] theorem isEmpty_eq_false_iff {x : Identifier} : x.isEmpty = false ↔ x ≠ empty := by simp [isEmpty]

end Identifier

namespace Address

def octets (x : Address) : Octets := x.block.octets

/-- The all-zero address: the owner of bridged assets and the place where tokens are burned. -/
def empty : Address := ⟨Block.zero 32⟩

def ofOctets? (bytes : Octets) : Option Address := (Block.ofOctets? 32 bytes).map mk

def text (x : Address) : String := Base58.encode x.octets

def ofText (s : String) : Except NameError Address :=
  match Base58.decode? (Blank.trim s) with
  | none => .error .encoding
  | some bytes => (ofOctets? bytes).elim (.error .length) .ok

@[simp] theorem length_octets (x : Address) : x.octets.length = 32 := x.block.length_octets

theorem octets_injective {x y : Address} (h : x.octets = y.octets) : x = y := by
  cases x; cases y; exact congrArg mk (Block.ext h)

theorem ofOctets?_eq_some {bytes : Octets} {x : Address} : ofOctets? bytes = some x ↔ x.octets = bytes := by
  cases x
  simp [ofOctets?, octets, Block.ofOctets?_eq_some]

end Address

end BridgeLedger
