import BridgeLedger.Toml.Number
import BridgeLedger.Toml.Table
import BridgeLedger.Toml.Text

/-! Whole TOML documents. -/
namespace BridgeLedger.Toml

open Scanner

def maxDepth : Nat := 79

def arrayValues (value : Scanner Value) : Scanner (List Value) := do
  blanks
  let values ← repeated do
    match ← peek? with
    | some ']' => return none
    | _ =>
      let v ← value
      blanks
      match ← peek? with
      | some ',' => do char ','; blanks
      | some ']' => pure ()
      | _ => failure
      return some v
  char ']'
  return values

def pair (value : Scanner Value) : Scanner ((List String × String) × Value) := do
  let k ← key
  char '='
  spaces
  return (k, ← value)

/-- The pairs of an inline table after its brace; no comma stands after the last. -/
def inlinePairs (value : Scanner Value) : Scanner (List ((List String × String) × Value)) := do
  spaces
  match ← peek? with
  | some '\x7d' => do char '\x7d'; return []
  | _ =>
    let first ← pair value
    spaces
    let rest ← repeated do
      match ← peek? with
      | some ',' => do
        char ','
        let p ← pair value
        spaces
        return some p
      | _ => return none
    char '\x7d'
    return first :: rest

def scalar : Scanner Value := do
  match ← peek? with
  | some '\x22' | some '\x27' => .text <$> string
  | some 't' => do chars ['t', 'r', 'u', 'e']; return .boolean true
  | some 'f' => do chars ['f', 'a', 'l', 's', 'e']; return .boolean false
  | _ => number

def value : (depth : Nat) → Scanner Value
  | 0 => scalar
  | depth + 1 => do
    match ← peek? with
    | some '[' => do char '['; .array <$> arrayValues (value depth)
    | some '\x7b' =>
      char '\x7b'
      match Entries.addPairs [] (← inlinePairs (value depth)) with
      | some entries => return .table (entryValues entries)
      | none => failure
    | _ => scalar

inductive Statement where
  | pair (key : List String × String) (value : Value)
  | table (header : List String × String)
  | element (header : List String × String)

def statement : Scanner Statement := do
  let s ← (do chars ['[', '[']; let k ← key; chars [']', ']']; return Statement.element k)
    <|> (do char '['; let k ← key; char ']'; return Statement.table k)
    <|> (do let (k, v) ← pair (value maxDepth); return Statement.pair k v)
  lineEnd
  return s

def statements : Scanner (List Statement) := do
  let _ ← Scanner.maybe (char (Char.ofNat 0xFEFF))
  let lines ← repeated do
    spaces
    match ← peek? with
    | none => return none
    | some '#' => do lineEnd; return some []
    | some '\n' => do newline; return some []
    | some '\r' => do newline; return some []
    | _ => return some [← statement]
  return lines.flatten

def leadingPairs : List Statement → List ((List String × String) × Value)
  | .pair k v :: rest => (k, v) :: leadingPairs rest
  | _ => []

def addSections (entries : Entries) : List Statement → Option Entries
  | [] => some entries
  | .pair _ _ :: rest => addSections entries rest
  | .table header :: rest => do addSections (← entries.addTable header (leadingPairs rest)) rest
  | .element header :: rest => do addSections (← entries.addElement header (leadingPairs rest)) rest

def parse? (text : String) : Option (List (String × Value)) := do
  let (lines, _) ← statements.run text.toList
  let root ← Entries.addPairs [] (leadingPairs lines)
  let entries ← addSections root lines
  return entryValues entries

end BridgeLedger.Toml
