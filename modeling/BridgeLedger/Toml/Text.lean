import BridgeLedger.Toml.Scanner

/-! Strings and keys of TOML. -/
namespace BridgeLedger.Toml

open Scanner

def maxKeyParts : Nat := 79

private def codePoint (n : Nat) : Scanner Char := do
  let value := numeral 16 (← count isHexDigit n)
  if value.isValidChar then return Char.ofNat value else failure

def escape : Scanner Char := do
  match ← satisfy fun _ => true with
  | 'b' => return Char.ofNat 8
  | 't' => return '\t'
  | 'n' => return '\n'
  | 'f' => return Char.ofNat 12
  | 'r' => return '\r'
  | '\x22' => return '\x22'
  | '\\' => return '\\'
  | 'u' => codePoint 4
  | 'U' => codePoint 8
  | _ => failure

def basicString : Scanner String := String.ofList <$> repeated do
  match ← satisfy isPlain with
  | '\x22' => return none
  | '\\' => some <$> escape
  | c => return some c

def literalString : Scanner String := String.ofList <$> repeated do
  match ← satisfy isPlain with
  | '\x27' => return none
  | c => return some c

/-- A run of quotes in a string of several lines: one or two of them are text, three end the string, and up to
two more before those three are text. `true` says that the string has ended. -/
private def quoteRun (quote : Char) : Scanner (List Char × Bool) := do
  let text : List Char ← get
  let n := min (text.takeWhile (· == quote)).length 5
  let run ← count (· == quote) n
  return if n < 3 then (run, false) else (run.take (n - 3), true)

private def lineContinuation : Scanner Unit := do
  char '\\'
  spaces
  newline
  let _ ← repeated do
    match ← peek? with
    | some ' ' | some '\t' => do char ' ' <|> char '\t'; return some ()
    | some '\n' | some '\r' => do newline; return some ()
    | _ => return none

/-- The text of a string of several lines, after its opening quotes. A line end directly after them does not
count, and every line end is a line feed. -/
private def multiline (quote : Char) (special : Scanner (List Char)) : Scanner String := do
  let _ ← Scanner.maybe newline
  let rec body : (fuel : List Char) → Scanner (List Char)
    | [] => failure
    | _ :: fuel => do
      match ← peek? with
      | none => failure
      | some c =>
        if c == quote then
          let (text, ended) ← quoteRun quote
          if ended then return text else return text ++ (← body fuel)
        else if c == '\n' || c == '\r' then
          newline
          return '\n' :: (← body fuel)
        else
          let text ← special <|> (do return [← satisfy fun c => isPlain c && c != '\\'])
          return text ++ (← body fuel)
  String.ofList <$> body (← get)

def string : Scanner String := do
  (do chars ['\x22', '\x22', '\x22']
      multiline '\x22' ((do lineContinuation; return []) <|> (do char '\\'; return [← escape])))
  <|> (do char '\x22'; basicString)
  <|> (do chars ['\x27', '\x27', '\x27']; multiline '\x27' (do char '\\'; return ['\\']))
  <|> (do char '\x27'; literalString)

def keyPart : Scanner String := do
  match ← peek? with
  | some '\x22' => do char '\x22'; basicString
  | some '\x27' => do char '\x27'; literalString
  | _ =>
    let bare ← takeWhile fun c =>
      isDigit c || ('a' ≤ c && c ≤ 'z') || ('A' ≤ c && c ≤ 'Z') || c == '_' || c == '-'
    if bare.isEmpty then failure else return String.ofList bare

/-- A key: parts with dots between them, given without the last, and the last part. -/
def key : Scanner (List String × String) := do
  spaces
  let first ← keyPart
  spaces
  let rest ← repeated do
    match ← peek? with
    | some '.' => do
      char '.'
      spaces
      let part ← keyPart
      spaces
      return some part
    | _ => return none
  let parts := first :: rest
  if parts.length ≤ maxKeyParts then return (parts.dropLast, parts.getLastD first) else failure

end BridgeLedger.Toml
