import Ripple.Decimal.Notation

/-!
# Configuration

Limits of the cache, lifetimes of sessions, and whether previews of edits run
the analyzers. Durations are counted in seconds.
-/

namespace Ripple

structure CacheSettings where
  /-- Above so many entries the least recently used are dropped. -/
  highWaterMark : Nat
  /-- The part of the entries that is dropped at once. -/
  evictionFraction : Float
  maxEntryAge : Nat
  sweepInterval : Nat
  deriving Repr

structure SessionSettings where
  idleTimeout : Nat
  idleSweepInterval : Nat
  /-- Projects without dependencies are compiled when a session starts. -/
  prewarm : Bool
  deriving Repr

structure EditSettings where
  includeAnalyzers : Bool
  deriving Repr

structure Config where
  cache : CacheSettings
  sessions : SessionSettings
  edits : EditSettings
  deriving Repr

def CacheSettings.default : CacheSettings := ⟨256, 0.25, 1800, 60⟩

def SessionSettings.default : SessionSettings := ⟨3600, 300, true⟩

def EditSettings.default : EditSettings := ⟨true⟩

def Config.default : Config := ⟨.default, .default, .default⟩

instance : Inhabited CacheSettings := ⟨.default⟩

instance : Inhabited Config := ⟨.default⟩

/-!
# Validation
-/

inductive ConfigFault where
  | fraction (x : Float)
  | highWaterMark
  | interval
  deriving Repr

inductive ConfigError where
  | unreadable (cause : String)
  | malformed
  | invalid (fault : ConfigFault)
  deriving Repr

namespace ConfigFault

def message : ConfigFault → String
  | .fraction x => "cache.eviction_fraction must be in (0, 1], got " ++ Decimal.message x
  | .highWaterMark => "cache.high_water_mark must be at least 1"
  | .interval => "sweep intervals must be non-zero"

end ConfigFault

namespace ConfigError

/-- What is wrong inside a malformed file is not said further. -/
def message : ConfigError → String
  | .unreadable cause => "failed to read configuration: " ++ cause
  | .malformed => "failed to parse configuration: TOML parse error"
  | .invalid fault => "validation error: " ++ fault.message

end ConfigError

namespace Config

def fault? (c : Config) : Option ConfigFault :=
  let x := c.cache.evictionFraction
  if !(0 < x && x ≤ 1) then some (.fraction x)
  else if c.cache.highWaterMark = 0 then some .highWaterMark
  else if c.cache.sweepInterval = 0 || c.sessions.idleSweepInterval = 0 then some .interval
  else none

def validate (c : Config) : Except ConfigError Config :=
  match c.fault? with
  | some fault => .error (.invalid fault)
  | none => .ok c

end Config
end Ripple
