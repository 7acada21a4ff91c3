/-! Scanners of characters with backtracking, and the characters of TOML. -/
namespace BridgeLedger.Toml

abbrev Scanner (α : Type) := StateT (List Char) Option α

namespace Scanner

def peek? : Scanner (Option Char) := return (← get).head?

def satisfy (p : Char → Bool) : Scanner Char := do
  match ← get with
  | c :: rest => if p c then do set rest; return c else failure
  | [] => failure

def char (c : Char) : Scanner Unit := do let _ ← satisfy (· == c)

def chars (cs : List Char) : Scanner Unit := cs.forM char

def takeWhile (p : Char → Bool) : Scanner (List Char) := do
  let text ← get
  set (text.dropWhile p)
  return text.takeWhile p

def count (p : Char → Bool) : (n : Nat) → Scanner (List Char)
  | 0 => return []
  | n + 1 => do
    let c ← satisfy p
    let cs ← count p n
    return c :: cs

def maybe {α : Type} (x : Scanner α) : Scanner (Option α) := (some <$> x) <|> pure none

def repeatFor {α : Type} (step : Scanner (Option α)) : (fuel : List Char) → Scanner (List α)
  | [] => do
    match ← step with
    | none => return []
    | some _ => failure
  | _ :: fuel => do
    match ← step with
    | none => return []
    | some a =>
      let as ← repeatFor step fuel
      return a :: as

/-- Repeats a step until it yields nothing. A step consumes something whenever it yields something, so the
unread text is long enough to count the steps. -/
def repeated {α : Type} (step : Scanner (Option α)) : Scanner (List α) := do
  repeatFor step (← get)

end Scanner

def isSpace (c : Char) : Bool := c == ' ' || c == '\t'

def isDigit (c : Char) : Bool := '0' ≤ c && c ≤ '9'

def isHexDigit (c : Char) : Bool := isDigit c || ('a' ≤ c && c ≤ 'f') || ('A' ≤ c && c ≤ 'F')

/-- A character that a comment or a string may hold as it is: no control character but the tab. -/
def isPlain (c : Char) : Bool := c == '\t' || (0x20 ≤ c.toNat && c.toNat ≤ 0x7E) || 0x80 ≤ c.toNat

def digitValue (c : Char) : Nat :=
  if isDigit c then c.toNat - 48 else if 'a' ≤ c then c.toNat - 87 else c.toNat - 55

def numeral (base : Nat) (digits : List Char) : Nat := digits.foldl (fun n c => n * base + digitValue c) 0

open Scanner

def spaces : Scanner Unit := do let _ ← takeWhile isSpace

def newline : Scanner Unit := char '\n' <|> chars ['\r', '\n']

def endOfText : Scanner Unit := do if (← get).isEmpty then pure () else failure

def comment : Scanner Unit := do
  char '#'
  let _ ← takeWhile isPlain

def lineEnd : Scanner Unit := do
  spaces
  let _ ← maybe comment
  newline <|> endOfText

def blanks : Scanner Unit := do
  let _ ← repeated do
    let here ← takeWhile isSpace
    match ← peek? with
    | some '#' => do comment; newline; return some ()
    | some '\n' => do newline; return some ()
    | some '\r' => do newline; return some ()
    | _ => return if here.isEmpty then none else some ()

end BridgeLedger.Toml
