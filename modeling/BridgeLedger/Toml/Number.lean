import BridgeLedger.Toml.Scanner
import BridgeLedger.Toml.Value

/-! Numbers, dates and times of TOML. -/
namespace BridgeLedger.Toml

open Scanner

def digitRun (p : Char → Bool) : Scanner (List Char) := do
  let first ← satisfy p
  let rest ← repeated do
    match ← get with
    | '_' :: c :: rest => if p c then do set rest; return some c else failure
    | c :: rest => if p c then do set rest; return some c else return none
    | [] => return none
  return first :: rest

def sign : Scanner Bool := do
  match ← peek? with
  | some '+' => do char '+'; return false
  | some '-' => do char '-'; return true
  | _ => return false

def decimalDigits : Scanner (List Char) := do
  match ← peek? with
  | some '0' => do char '0'; return ['0']
  | _ => digitRun isDigit

private def inRange (n : Int) : Scanner Int :=
  if -9223372036854775808 ≤ n ∧ n ≤ 9223372036854775807 then return n else failure

private def based (letter : Char) (base : Nat) (p : Char → Bool) : Scanner Int := do
  chars ['0', letter]
  inRange (numeral base (← digitRun p))

def integer : Scanner Int :=
  based 'x' 16 isHexDigit
  <|> based 'o' 8 (fun c => '0' ≤ c && c ≤ '7')
  <|> based 'b' 2 (fun c => c == '0' || c == '1')
  <|> do
    let negative ← sign
    let n : Int := numeral 10 (← decimalDigits)
    inRange (if negative then -n else n)

def exponentCutoff : Nat := 65536

/-- The exponent that some digits write. Digits count until the exponent reaches the cutoff; the ones after that
are skipped, so an exponent stays below ten times the cutoff. -/
def exponentOf (digits : List Char) : Nat :=
  digits.foldl (fun n c => if n < exponentCutoff then n * 10 + digitValue c else n) 0

private def overflowBound : Nat := (1 <<< 1024) - (1 <<< 970)

/-- Whether the number that some digits write, times `10 ^ e`, is too large for a finite double. The place of the
first digit settles it away from the largest double, which has 309 digits. -/
def overflowsDouble (digits : List Char) (e : Int) : Bool :=
  let significant := digits.dropWhile (· == '0')
  let place : Int := significant.length + e
  if significant.isEmpty || place < 309 then false
  else if 309 < place then true
  else if 0 ≤ e then overflowBound ≤ numeral 10 significant * Nat.pow 10 e.toNat
  else overflowBound * Nat.pow 10 (-e).toNat ≤ numeral 10 significant

/-- A float: a decimal number with a fraction or an exponent, or a special one. A positive number that is too
large for a double is refused; a negative one is taken for minus infinity. -/
def float : Scanner Unit := do
  let negative ← sign
  (do
    let whole ← decimalDigits
    let fraction? ← Scanner.maybe do char '.'; digitRun isDigit
    let exponent? ← Scanner.maybe do
      char 'e' <|> char 'E'
      let negative ← sign
      let n : Int := exponentOf (← digitRun isDigit)
      return if negative then -n else n
    if fraction?.isNone && exponent?.isNone then failure
    let fraction := fraction?.getD []
    if !negative && overflowsDouble (whole ++ fraction) (exponent?.getD 0 - fraction.length) then
      failure)
  <|> chars ['i', 'n', 'f'] <|> chars ['n', 'a', 'n']

private def field (n low high : Nat) : Scanner Nat := do
  let value := numeral 10 (← count isDigit n)
  if low ≤ value ∧ value ≤ high then return value else failure

def daysOfMonth (year month : Nat) : Nat :=
  if month = 2 then if year % 4 = 0 ∧ (year % 100 ≠ 0 ∨ year % 400 = 0) then 29 else 28
  else if month = 4 ∨ month = 6 ∨ month = 9 ∨ month = 11 then 30 else 31

private def date : Scanner Unit := do
  let year ← field 4 0 9999
  char '-'
  let month ← field 2 1 12
  char '-'
  let _ ← field 2 1 (daysOfMonth year month)

private def time : Scanner Unit := do
  let _ ← field 2 0 23
  char ':'
  let _ ← field 2 0 59
  char ':'
  let _ ← field 2 0 60
  let _ ← Scanner.maybe do
    char '.'
    let _ ← satisfy isDigit
    let _ ← takeWhile isDigit

private def offset : Scanner Unit := do
  (do let _ ← satisfy fun c => c == 'Z' || c == 'z')
  <|> (do
    let _ ← satisfy fun c => c == '+' || c == '-'
    let _ ← field 2 0 23
    char ':'
    let _ ← field 2 0 59)

def dateTime : Scanner Unit := do
  (do
    date
    let _ ← Scanner.maybe do
      let _ ← satisfy fun c => c == 'T' || c == 't' || c == ' '
      time
      let _ ← Scanner.maybe offset)
  <|> time

def number : Scanner Value :=
  (do dateTime; return .dateTime) <|> (do float; return .float) <|> (Value.integer <$> integer)

end BridgeLedger.Toml
