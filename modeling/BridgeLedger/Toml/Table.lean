import BridgeLedger.Toml.Value

/-! How tables grow while a document is read. A table that a header or a key only passes through is implicit
and can still be defined once; what a value, a header or a dotted key has defined cannot be defined again. -/
namespace BridgeLedger.Toml

inductive Node where
  | value (v : Value)
  /-- a table; `dotted` when keys of pairs made it -/
  | table (implicit dotted : Bool) (entries : List (String × Node))
  /-- tables that headers in double brackets have added, each with its entries: the last one, and the ones before
  it from the latest to the first -/
  | tables (last : List (String × Node)) (earlier : List (List (String × Node)))

abbrev Entries := List (String × Node)

namespace Entries

def set (name : String) (node : Node) : Entries → Entries
  | [] => [(name, node)]
  | e :: rest => if e.1 = name then (name, node) :: rest else e :: set name node rest

/-- Changes the table at the end of a path, making implicit tables on the way. The path leads through the last
one of several tables. A path of a pair passes only through implicit tables. The change is told whether the
table is dotted. -/
def update (pair : Bool) (change : Bool → Entries → Option Entries) :
    (path : List String) → (dotted : Bool) → Entries → Option Entries
  | [], dotted, entries => change dotted entries
  | name :: path, _, entries =>
    match entries.lookup name with
    | none => do
      let inner ← update pair change path pair []
      return set name (.table true pair inner) entries
    | some (.value _) => none
    | some (.table implicit dotted inner) =>
      if pair && !implicit then none
      else do
        let inner ← update pair change path dotted inner
        return set name (.table implicit dotted inner) entries
    | some (.tables last earlier) => do
      let inner ← update pair change path false last
      return set name (.tables inner earlier) entries

/-- Adds a pair. Its key must be new, and a dotted key may not reach into a table that a header passed
through. -/
def addPair (entries : Entries) (pair : (List String × String) × Value) : Option Entries :=
  let ((path, name), v) := pair
  update true
    (fun dotted inner =>
      if dotted == path.isEmpty || (inner.lookup name).isSome then none else some (set name (.value v) inner))
    path false entries

def addPairs (entries : Entries) (pairs : List ((List String × String) × Value)) : Option Entries :=
  pairs.foldlM addPair entries

/-- Adds the table of a header with its pairs: a new one, or one that was implicit so far. -/
def addTable (entries : Entries) (header : List String × String)
    (pairs : List ((List String × String) × Value)) : Option Entries :=
  update false
    (fun _ parent => do
      let start ← match parent.lookup header.2 with
        | none => some []
        | some (.table true false inner) => some inner
        | some _ => none
      let inner ← addPairs start pairs
      return set header.2 (.table false false inner) parent)
    header.1 false entries

def addElement (entries : Entries) (header : List String × String)
    (pairs : List ((List String × String) × Value)) : Option Entries :=
  update false
    (fun _ parent => do
      let earlier ← match parent.lookup header.2 with
        | none => some []
        | some (.tables last earlier) => some (last :: earlier)
        | some _ => none
      let inner ← addPairs [] pairs
      return set header.2 (.tables inner earlier) parent)
    header.1 false entries

end Entries

mutual

def Node.toValue : Node → Value
  | .value v => v
  | .table _ _ entries => .table (entryValues entries)
  | .tables last earlier => .array ((.table (entryValues last) :: tableValues earlier).reverse)

def entryValues : List (String × Node) → List (String × Value)
  | [] => []
  | (name, node) :: rest => (name, node.toValue) :: entryValues rest

def tableValues : List (List (String × Node)) → List Value
  | [] => []
  | entries :: rest => .table (entryValues entries) :: tableValues rest

end
end BridgeLedger.Toml
