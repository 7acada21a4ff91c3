import BridgeLedger.Digest.Fnv1a
import BridgeLedger.Exposition
import BridgeLedger.Text.Utf8

/-! Counters told apart by the values of their labels. A counter is found by a fingerprint of the values, not by
the values themselves: values whose fingerprint is taken are counted under the values that came first. -/
namespace BridgeLedger

structure LabelledCounter where
  fingerprint : UInt64
  values : List String
  count : UInt64

structure CounterVector where
  labels : List String
  counters : List LabelledCounter

namespace CounterVector

/-- The fingerprint of label values: the digest of all of them, one directly after another. -/
def fingerprint (values : List String) : UInt64 := Fnv1a.digest (values.flatMap Utf8.encode)

def incrementEntry (mark : UInt64) (values : List String) : List LabelledCounter → List LabelledCounter
  | [] => [⟨mark, values, 1⟩]
  | c :: rest =>
    if c.fingerprint = mark then { c with count := c.count + 1 } :: rest
    else c :: incrementEntry mark values rest

def increment (v : CounterVector) (values : List String) : CounterVector :=
  { v with counters := incrementEntry (fingerprint values) values v.counters }

def samples (v : CounterVector) : List Exposition.Sample :=
  v.counters.map fun c => ⟨v.labels.zip c.values, c.count⟩

end CounterVector
end BridgeLedger
