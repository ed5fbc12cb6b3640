/-!
# Durations

Time spans of whole nanoseconds, up to the largest whose seconds fit 64 bits. Sums that would
be longer stay at that largest one.
-/

namespace WideRow

/-- The number of nanoseconds of a second. -/
def nanosecondsPerSecond : Nat := 1000000000

/-- The number of spans: the seconds fit 64 bits. -/
def durationCount : Nat := UInt64.size * nanosecondsPerSecond

/-- A time span. -/
structure Duration where
  nanoseconds : Fin durationCount
  deriving DecidableEq

namespace Duration

/-- The longest span. -/
def max : Duration := ⟨durationCount - 1, by decide⟩

/-- The span of this many nanoseconds, or the longest. -/
def ofNanoseconds (n : Nat) : Duration :=
  if h : n < durationCount then ⟨n, h⟩ else max

/-- No time. -/
def zero : Duration := ofNanoseconds 0

/-- Seconds and further nanoseconds. -/
def ofParts (seconds nanoseconds : Nat) : Duration :=
  ofNanoseconds (seconds * nanosecondsPerSecond + nanoseconds)

/-- Whole seconds. -/
def ofSeconds (n : Nat) : Duration := ofNanoseconds (n * nanosecondsPerSecond)

/-- Whole milliseconds. -/
def ofMilliseconds (n : Nat) : Duration := ofNanoseconds (n * 1000000)

/-- The whole seconds of a span. -/
def seconds (d : Duration) : Nat := d.nanoseconds / nanosecondsPerSecond

/-- The nanoseconds beyond the whole seconds. -/
def subsecond (d : Duration) : Nat := d.nanoseconds % nanosecondsPerSecond

/-- The whole milliseconds of a span. -/
def milliseconds (d : Duration) : Nat := d.nanoseconds / 1000000

/-- The whole microseconds of a span. -/
def microseconds (d : Duration) : Nat := d.nanoseconds / 1000

/-- The sum of two spans, at most the longest. -/
def add (a b : Duration) : Duration := ofNanoseconds (a.nanoseconds + b.nanoseconds)

/-- A multiple of a span, at most the longest. -/
def scale (d : Duration) (n : Nat) : Duration := ofNanoseconds (d.nanoseconds * n)

/-- Half a span, rounded down. -/
def half (d : Duration) : Duration := ofNanoseconds (d.nanoseconds / 2)

/-- The shorter of two spans. -/
def least (a b : Duration) : Duration := if a.nanoseconds ≤ b.nanoseconds then a else b

/-- The longer of two spans. -/
def greatest (a b : Duration) : Duration := if a.nanoseconds ≤ b.nanoseconds then b else a

end Duration

end WideRow
