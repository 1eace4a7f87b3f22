import Ripple.AnalyzerSet
import Ripple.Backend
import Ripple.Cache.Context
import Ripple.Config

/-!
# The tables of the cache

Three tables make up the cache, each keyed by session and project: the entries
hold artifacts under the fingerprints that they were compiled for, the flights
are the compiles under way, and the listings are lists of diagnostics. Counters
say how often the cache helped.

What is handed out is stamped when it is made, so that two answers can be told
to be the same one and not merely alike.
-/

namespace Ripple
namespace Cache

structure Slot where
  session : SessionId
  project : ProjectId
  deriving DecidableEq, Repr, Inhabited

structure Held (α : Type) where
  stamp : Nat
  value : α
  deriving Repr, Inhabited

structure Entry (π : Type) where
  fingerprint : Fingerprint
  artifact : Held (Artifact π)
  lastAccess : Nat
  deriving Repr, Inhabited

structure Flight where
  ticket : Nat
  fingerprint : Fingerprint
  deriving DecidableEq, Repr, Inhabited

structure ListingKey where
  slot : Slot
  analyzers : Fingerprint
  /-- Whether the analyzers were run. -/
  analyzed : Bool
  deriving DecidableEq, Repr, Inhabited

structure Listing where
  /-- That of the artifact whose diagnostics are listed. -/
  fingerprint : Fingerprint
  diagnostics : Held (List Diagnostic)
  deriving Repr, Inhabited

structure Counters where
  hits : Nat
  misses : Nat
  compiles : Nat
  evictions : Nat
  deriving DecidableEq, Repr, Inhabited

structure Tables (π : Type) where
  settings : CacheSettings
  entries : Table Slot (Entry π)
  flights : Table Slot Flight
  listings : Table ListingKey Listing
  counters : Counters
  nextTicket : Nat
  nextStamp : Nat
  /-- Milliseconds since the cache was made. -/
  clock : Nat
  deriving Repr, Inhabited

namespace Tables

variable {π : Type}

def new (settings : CacheSettings) : Tables π :=
  ⟨settings, ∅, ∅, ∅, ⟨0, 0, 0, 0⟩, 0, 0, 0⟩

/-!
# Single updates
-/

def countHit (t : Tables π) : Tables π :=
  { t with counters := { t.counters with hits := t.counters.hits + 1 } }

def countMiss (t : Tables π) : Tables π :=
  { t with counters := { t.counters with misses := t.counters.misses + 1 } }

def countCompile (t : Tables π) : Tables π :=
  { t with counters := { t.counters with compiles := t.counters.compiles + 1 } }

def countEvictions (t : Tables π) (n : Nat) : Tables π :=
  { t with counters := { t.counters with evictions := t.counters.evictions + n } }

def stamp (t : Tables π) (a : α) : Held α × Tables π :=
  (⟨t.nextStamp, a⟩, { t with nextStamp := t.nextStamp + 1 })

/-- The entry of a slot if it has the fingerprint; it then counts as used now. -/
def lookUp (t : Tables π) (slot : Slot) (f : Fingerprint) :
    Option (Held (Artifact π) × Tables π) :=
  match t.entries.get? slot with
  | none => none
  | some e =>
      if e.fingerprint = f then
        let used := { e with lastAccess := max e.lastAccess t.clock }
        some (e.artifact, { t with entries := t.entries.insert slot used })
      else none

def store (t : Tables π) (slot : Slot) (f : Fingerprint) (a : Held (Artifact π)) : Tables π :=
  { t with entries := t.entries.insert slot ⟨f, a, t.clock⟩ }

def dropFlight (t : Tables π) (slot : Slot) : Tables π :=
  { t with flights := t.flights.erase slot }

def dropEntry (t : Tables π) (slot : Slot) : Tables π :=
  { t with entries := t.entries.erase slot }

def dropListings (t : Tables π) (slot : Slot) : Tables π :=
  { t with listings := t.listings.filter fun key _ => key.slot ≠ slot }

def dropSessionFlights (t : Tables π) (s : SessionId) : Tables π :=
  { t with flights := t.flights.filter fun slot _ => slot.session ≠ s }

def dropSessionEntries (t : Tables π) (s : SessionId) : Tables π :=
  { t with entries := t.entries.filter fun slot _ => slot.session ≠ s }

def dropSessionListings (t : Tables π) (s : SessionId) : Tables π :=
  { t with listings := t.listings.filter fun key _ => key.slot.session ≠ s }

/-!
# Invalidation

What is under way is forgotten first, then what is stored, then what was listed.
-/

def invalidate (t : Tables π) (session : SessionId) (project : ProjectId) : Tables π :=
  let slot : Slot := ⟨session, project⟩
  ((t.dropFlight slot).dropEntry slot).dropListings slot

/-- The projects that a change of one project invalidates. -/
def affectedBy (g : Graph) (project : ProjectId) : List ProjectId :=
  match g.withDependents project with
  | [] => [project]
  | below => below

def invalidateAll (t : Tables π) (session : SessionId) (ids : List ProjectId) : Tables π :=
  ids.foldl (fun t id => t.invalidate session id) t

def invalidateDownstream (t : Tables π) (session : SessionId) (g : Graph) (project : ProjectId) :
    Tables π :=
  t.invalidateAll session (affectedBy g project)

def invalidateSession (t : Tables π) (session : SessionId) : Tables π :=
  ((t.dropSessionFlights session).dropSessionEntries session).dropSessionListings session

/-!
# Questions
-/

def isCached (t : Tables π) (session : SessionId) (project : ProjectId) : Bool :=
  t.entries.contains ⟨session, project⟩

def sessionEntryCount (t : Tables π) (session : SessionId) : Nat :=
  (t.entries.filter fun slot _ => slot.session = session).size

end Tables
end Cache
end Ripple
