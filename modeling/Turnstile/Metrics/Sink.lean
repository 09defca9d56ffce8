import Turnstile.Metrics.Series

/-!
# A sink that remembers gauges

Keeps the last value of each series, whatever the order of its labels, and counts the writes to each
metric name. This is `InMemoryMetricsSink` (specification, section 6).
-/

namespace Turnstile

structure GaugeSink where
  values : List (Series × Double)
  writes : List (String × Nat)
deriving Inhabited

namespace GaugeSink

def empty : GaugeSink := { values := [], writes := [] }

/-- The order of labels: by name, then by value. -/
def labelBefore (a b : String × String) : Bool :=
  if a.1 = b.1 then a.2 ≤ b.2 else a.1 ≤ b.1

/-- The series with its labels in order. -/
def keyOf (s : Series) : Series := { s with labels := s.labels.mergeSort labelBefore }

def set (sink : GaugeSink) (s : Series) (value : Double) : GaugeSink :=
  { values := assign (keyOf s) value sink.values, writes := bump s.name sink.writes }

/-- The last value written to a series. -/
def value? (sink : GaugeSink) (s : Series) : Option Double := valueAt? (keyOf s) sink.values

def writeCount (sink : GaugeSink) (name : String) : Nat := (valueAt? name sink.writes).getD 0

end GaugeSink

end Turnstile
