import BridgeLedger.Genesis
import BridgeLedger.Toml.Document

/-! Settings of a node, read from a TOML document. A section may be given as a table, whose unknown entries are
ignored, or as an array with its fields in order; fields with a default may be left out. -/
namespace BridgeLedger

inductive SettingsError where
  /-- the file cannot be read as text -/
  | unreadable
  /-- the text is no TOML document with the expected fields -/
  | malformed
  | chainIdentifier
  | address (text : String)
deriving DecidableEq

def SettingsError.message : SettingsError → String
  | .unreadable => "read config"
  | .malformed => "parse config"
  | .chainIdentifier => "bad chain id"
  | .address text => "bad genesis address " ++ text

structure NodeSettings where
  name : String := "warpledger"
  dataDirectory : String := "./data"
  jsonLog : Bool := false

structure ChainSettings where
  network : UInt32
  chain : String
  symbol : String
  decimals : UInt8

structure AllocationSettings where
  address : String
  balance : UInt64

structure Settings where
  node : NodeSettings
  chain : ChainSettings
  allocations : List AllocationSettings

namespace Settings

open Toml (Value)

inductive Fields where
  | named (entries : List (String × Value))
  | listed (values : List Value)

/-- The fields that a value gives. A date has none that a section knows. -/
def Fields.ofValue? : Value → Option Fields
  | .table entries => some (.named entries)
  | .array values => some (.listed values)
  | .dateTime => some (.named [])
  | _ => none

def Fields.find? (f : Fields) (index : Nat) (name : String) : Option Value :=
  match f with
  | .named entries => entries.lookup name
  | .listed values => values[index]?

def Fields.required {α : Type} (f : Fields) (index : Nat) (name : String) (read : Value → Option α) :
    Option α := do read (← f.find? index name)

def Fields.optional {α : Type} (f : Fields) (index : Nat) (name : String) (read : Value → Option α)
    (default : α) : Option α :=
  match f.find? index name with
  | some v => read v
  | none => some default

def readText : Value → Option String
  | .text s => some s
  | _ => none

def readBool : Value → Option Bool
  | .boolean b => some b
  | _ => none

def readNat (bound : Nat) : Value → Option Nat
  | .integer n => if 0 ≤ n ∧ n < bound then some n.toNat else none
  | _ => none

def readNode (v : Value) : Option NodeSettings := do
  let f ← Fields.ofValue? v
  let defaults : NodeSettings := {}
  return {
    name := ← f.optional 0 "name" readText defaults.name
    dataDirectory := ← f.optional 1 "data_dir" readText defaults.dataDirectory
    jsonLog := ← f.optional 2 "log_json" readBool defaults.jsonLog }

def readChain (v : Value) : Option ChainSettings := do
  let f ← Fields.ofValue? v
  return {
    network := UInt32.ofNat (← f.required 0 "network_id" (readNat UInt32.size))
    chain := ← f.required 1 "chain_id_hex" readText
    symbol := ← f.optional 2 "symbol" readText "WLG"
    decimals := UInt8.ofNat (← f.optional 3 "decimals" (readNat UInt8.size) 9) }

def readAllocation (v : Value) : Option AllocationSettings := do
  let f ← Fields.ofValue? v
  return {
    address := ← f.required 0 "address" readText
    balance := UInt64.ofNat (← f.required 1 "balance" (readNat UInt64.size)) }

def readAllocations : Value → Option (List AllocationSettings)
  | .array values => values.mapM readAllocation
  | _ => none

def readGenesis (v : Value) : Option (List AllocationSettings) := do
  let f ← Fields.ofValue? v
  f.optional 0 "allocations" readAllocations []

def ofDocument? (entries : List (String × Value)) : Option Settings := do
  let f := Fields.named entries
  return {
    node := ← f.optional 0 "node" readNode {}
    chain := ← f.required 1 "chain" readChain
    allocations := ← f.optional 2 "genesis" readGenesis [] }

def chainIdentifier (s : Settings) : Except SettingsError Identifier :=
  match Identifier.ofText s.chain.chain with
  | .ok x => .ok x
  | .error _ => .error .chainIdentifier

def AllocationSettings.resolve (a : AllocationSettings) : Except SettingsError (Address × UInt64) :=
  match Address.ofText a.address with
  | .ok owner => .ok (owner, a.balance)
  | .error _ => .error (.address a.address)

def genesis (s : Settings) : Except SettingsError Genesis := do
  let allocations ← s.allocations.mapM AllocationSettings.resolve
  return { symbol := Utf8.encode s.chain.symbol, decimals := s.chain.decimals, allocations }

/-- Reads settings from a text. The names in them are checked, that of the chain first. -/
def parse (text : String) : Except SettingsError Settings := do
  let some settings := Toml.parse? text >>= ofDocument? | throw .malformed
  let _ ← settings.chainIdentifier
  let _ ← settings.genesis
  return settings

/-- Reads settings from the contents of a file; `none` stands for a file that is not there. -/
def load (file : Option Octets) : Except SettingsError Settings :=
  match file >>= Utf8.decode? with
  | some text => parse text
  | none => .error .unreadable

end Settings
end BridgeLedger
