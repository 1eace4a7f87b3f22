import Ripple.Cache.Tables
import Ripple.Number

/-!
# Sweeps

The age sweep removes entries that have not been used for longer than an age.
The capacity sweep removes the least recently used entries once there are more
than the high-water mark. Both look at the entries first and then remove them
one by one, sparing those that have been used in between. The listings of a
removed entry go with it.
-/

namespace Ripple
namespace Cache

/-- How many of `count` entries the capacity sweep removes. -/
def evictionCount (count mark : Nat) (fraction : Float) : Nat :=
  if count ≤ mark then 0
  else max 1 (min count (Float.ofNat count * fraction).ceil.toUInt64.toNat)

namespace Tables

variable {π : Type}

/-- Removes an entry and its listings unless it has been used since. -/
def evict (t : Tables π) (slot : Slot) (seen : Nat) : Option (Tables π) :=
  match t.entries.get? slot with
  | none => none
  | some e => if e.lastAccess = seen then some ((t.dropEntry slot).dropListings slot) else none

/-- Removes what has not been used since, and says how many that were. -/
def evictAll (t : Tables π) : List (Slot × Nat) → Nat × Tables π
  | [] => (0, t)
  | (slot, seen) :: rest =>
      match t.evict slot seen with
      | some t =>
          let (n, t) := t.evictAll rest
          (n + 1, t)
      | none => t.evictAll rest

def sweep (t : Tables π) (candidates : List (Slot × Nat)) : Nat × Tables π :=
  let (n, t) := t.evictAll candidates
  (n, t.countEvictions n)

/-- Every entry with its last use. -/
def uses (t : Tables π) : List (Slot × Nat) :=
  t.entries.rows.map fun row => (row.1, row.2.lastAccess)

/-- Ages are compared as 64-bit numbers of milliseconds. -/
def ageLimit : Nat := Number.wordLimit

def expired (t : Tables π) (maxAge : Nat) : List (Slot × Nat) :=
  t.uses.filter fun use => maxAge % ageLimit < t.clock - use.2

def sweepExpired (t : Tables π) (maxAge : Nat) : Nat × Tables π :=
  t.sweep (t.expired maxAge)

/-- The entries that the capacity sweep removes, least recently used first. -/
def surplus (t : Tables π) : List (Slot × Nat) :=
  (t.uses.mergeSort fun a b => decide (a.2 ≤ b.2)).take
    (evictionCount t.entries.size t.settings.highWaterMark t.settings.evictionFraction)

def sweepCapacity (t : Tables π) : Nat × Tables π :=
  t.sweep t.surplus

end Tables
end Cache
end Ripple
