import Ripple.AnalyzerSet
import Ripple.Config
import Ripple.Data.Toml.Reader
import Ripple.Number
import Ripple.Record.Basic

/-!
# Written configurations

Every field of a configuration may be left out and then has its default. A
configuration file is a data file with sections; it is read and then validated.
A set of analyzers is read as it is written, whatever the order of its names.
-/

namespace Ripple

open Data

def CacheSettings.toValue (s : CacheSettings) : Value :=
  .object [
    ("high_water_mark", .ofNat s.highWaterMark),
    ("eviction_fraction", .float s.evictionFraction),
    ("max_entry_age_secs", .ofNat s.maxEntryAge),
    ("sweep_interval_secs", .ofNat s.sweepInterval)]

def SessionSettings.toValue (s : SessionSettings) : Value :=
  .object [
    ("idle_timeout_secs", .ofNat s.idleTimeout),
    ("idle_sweep_interval_secs", .ofNat s.idleSweepInterval),
    ("prewarm", .ofBool s.prewarm)]

def EditSettings.toValue (s : EditSettings) : Value :=
  .object [("include_analyzers", .ofBool s.includeAnalyzers)]

def Config.toValue (c : Config) : Value :=
  .object [
    ("cache", c.cache.toValue),
    ("sessions", c.sessions.toValue),
    ("edits", c.edits.toValue)]

/-!
# Reading
-/

/-- Counts and durations are below this. -/
def Config.numberLimit : Nat := Number.wordLimit

def CacheSettings.ofValue? (form : Form) (v : Value) : Option CacheSettings := do
  let [mark, fraction, age, interval] ← v.record? form
    ["high_water_mark", "eviction_fraction", "max_entry_age_secs", "sweep_interval_secs"] | none
  let count := Value.asNat? Config.numberLimit
  some {
    highWaterMark := ← Value.optional default.highWaterMark count mark
    evictionFraction := ← Value.optional default.evictionFraction Value.asFloat? fraction
    maxEntryAge := ← Value.optional default.maxEntryAge count age
    sweepInterval := ← Value.optional default.sweepInterval count interval }

def SessionSettings.ofValue? (form : Form) (v : Value) : Option SessionSettings := do
  let [timeout, interval, prewarm] ← v.record? form
    ["idle_timeout_secs", "idle_sweep_interval_secs", "prewarm"] | none
  let count := Value.asNat? Config.numberLimit
  some {
    idleTimeout := ← Value.optional default.idleTimeout count timeout
    idleSweepInterval := ← Value.optional default.idleSweepInterval count interval
    prewarm := ← Value.optional default.prewarm Value.asBool? prewarm }

def EditSettings.ofValue? (form : Form) (v : Value) : Option EditSettings := do
  let [analyzers] ← v.record? form ["include_analyzers"] | none
  some ⟨← Value.optional default.includeAnalyzers Value.asBool? analyzers⟩

def Config.ofValue? (form : Form) (v : Value) : Option Config := do
  let [cache, sessions, edits] ← v.record? form ["cache", "sessions", "edits"] | none
  some {
    cache := ← Value.optional .default (CacheSettings.ofValue? form) cache
    sessions := ← Value.optional .default (SessionSettings.ofValue? form) sessions
    edits := ← Value.optional .default (EditSettings.ofValue? form) edits }

/-- The validated configuration that a file holds. -/
def Config.ofToml (text : String) : Except ConfigError Config :=
  match (Toml.parse text).bind (Config.ofValue? .toml) with
  | some c => c.validate
  | none => .error .malformed

/-!
# Analyzers
-/

def AnalyzerChoice.toValue (c : AnalyzerChoice) : Value :=
  .object [
    ("use_defaults", .ofBool c.useDefaults),
    ("additional", .ofTexts c.additional),
    ("disabled", .ofTexts c.disabled)]

def AnalyzerChoice.ofValue? (form : Form) (v : Value) : Option AnalyzerChoice := do
  let [defaults, additional, disabled] ← v.record? form
    ["use_defaults", "additional", "disabled"] | none
  let names := Value.asList? Value.asText?
  some {
    useDefaults := ← Value.optional true Value.asBool? defaults
    additional := ← Value.optional [] names additional
    disabled := ← Value.optional [] names disabled }

def AnalyzerSet.toValue (s : AnalyzerSet) : Value :=
  .object [("names", .ofTexts s.names), ("key", s.key.toValue)]

def AnalyzerSet.ofValue? (form : Form) (v : Value) : Option AnalyzerSet := do
  let [names, key] ← v.record? form ["names", "key"] | none
  some {
    names := ← Value.required (Value.asList? Value.asText?) names
    key := ← Value.required Fingerprint.ofValue? key }

end Ripple
