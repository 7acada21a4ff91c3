import BridgeLedger.Decimal.ShortestDouble

/-! The text format in which counters are published: families by name, each with its help and type, and
samples by their label values. A family without samples is left out. -/
namespace BridgeLedger.Exposition

structure Sample where
  labels : List (String × String)
  value : UInt64

structure Family where
  name : String
  help : String
  samples : List Sample

def escape (value : String) : String :=
  String.ofList (value.toList.flatMap fun c =>
    if c = '\\' then ['\\', '\\'] else if c = '\x22' then ['\\', '\x22'] else if c = '\n' then ['\\', 'n'] else [c])

private def label (l : String × String) : String := l.1 ++ "=\"" ++ escape l.2 ++ "\""

private def braces (ls : List (String × String)) : String :=
  if ls.isEmpty then "" else "\x7b" ++ ",".intercalate (ls.map label) ++ "\x7d"

/-- The number of a counter: it is published as a double, without an exponent. -/
def number (value : UInt64) : String := (ShortestDouble.shortest value.toNat).repr

def Sample.text (name : String) (s : Sample) : String := name ++ braces s.labels ++ " " ++ number s.value ++ "\n"

def Sample.le (a b : Sample) : Bool := !decide (b.labels.map Prod.snd < a.labels.map Prod.snd)

def Family.text (f : Family) : String :=
  "# HELP " ++ f.name ++ " " ++ f.help ++ "\n# TYPE " ++ f.name ++ " counter\n"
    ++ String.join ((f.samples.mergeSort Sample.le).map (Sample.text f.name))

def published (families : List Family) : List Family :=
  (families.filter fun f => !f.samples.isEmpty).mergeSort fun a b => a.name ≤ b.name

def text (families : List Family) : String := String.join ((published families).map Family.text)

end BridgeLedger.Exposition
