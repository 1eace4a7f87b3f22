import Ripple.Number

/-!
# Spans

A span is a stretch of a text, given by where it starts and how many bytes it
has. Offsets are below `Span.limit`; a span whose end is not has no end.
-/

namespace Ripple

structure Span where
  start : Nat
  length : Nat
  deriving DecidableEq, Repr, Inhabited

namespace Span

def limit : Nat := Number.wordLimit

def stop? (s : Span) : Option Nat :=
  if s.start + s.length < limit then some (s.start + s.length) else none

/-- Where the span stops, or the last offset there is. -/
def stop (s : Span) : Nat :=
  min (s.start + s.length) (limit - 1)

def overlaps (s t : Span) : Bool :=
  s.start < t.stop && t.start < s.stop

/-- By start, then by end. -/
def le (s t : Span) : Bool :=
  s.start < t.start || (s.start = t.start && s.stop ≤ t.stop)

/-- The spans cannot both be replaced. -/
def conflicts (s t : Span) : Bool :=
  s.overlaps t || (s = t && 0 < s.length)

theorem stop_eq_of_stop? {s : Span} {n : Nat} (h : s.stop? = some n) : s.stop = n := by
  unfold stop? at h
  split at h
  · cases h
    unfold stop
    omega
  · cases h

end Span
end Ripple
