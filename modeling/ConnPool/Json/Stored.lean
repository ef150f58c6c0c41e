import ConnPool.Duration
import ConnPool.Handle
import ConnPool.Handoff.Strategy
import ConnPool.Json.Basic
import ConnPool.State
import ConnPool.Stats
import ConnPool.Config

namespace ConnPool

/-- Reads the members of an object into `α`, each known key at most once. `assign` stores the value
of a known key; other keys are skipped or refused. -/
def Json.readMembers? {α : Type} (known : List String) (skipUnknown : Bool)
    (assign : String → Json → α → Option α) :
    List (Option String × Json) → List String → α → Option α
  | [], _, a => some a
  | (none, _) :: _, _, _ => none
  | (some k, j) :: ms, seen, a =>
    if known.contains k then
      if seen.contains k then none
      else (assign k j a).bind fun a => readMembers? known skipUnknown assign ms (k :: seen) a
    else if skipUnknown then readMembers? known skipUnknown assign ms seen a
    else none

namespace Duration

def toJson (d : Duration) : Json :=
  .object [("secs", .ofNat d.secs.toNat), ("nanos", .ofNat d.nanos)]

/-- Both parts are words, of 64 and of 32 bits; nanoseconds beyond a second carry. -/
def ofWords? (secs nanos : Json) : Option Duration := do
  let s ← secs.nat?
  let n ← nanos.nat?
  if s < UInt64.size ∧ n < UInt32.size then ofParts? s n else none

/-- An object with exactly the two parts, or both in an array. -/
def ofJson? : Json → Option Duration
  | .arr [secs, nanos] => ofWords? secs nanos
  | .obj [(some "secs", secs), (some "nanos", nanos)] => ofWords? secs nanos
  | .obj [(some "nanos", nanos), (some "secs", secs)] => ofWords? secs nanos
  | _ => none

theorem ofJson?_toJson (d : Duration) : ofJson? d.toJson = some d := by
  have hs : d.secs.toNat < UInt64.size := d.secs.toNat_lt_size
  have hn : d.nanos < UInt32.size := Nat.lt_trans d.nanos_lt (by decide)
  simp [toJson, Json.object, ofJson?, ofWords?, hs, hn, ofParts?_secs_nanos]

end Duration

namespace State

def toJson (s : State) : Json := .ofString s.name

def ofJson? (j : Json) : Option State := j.tag?.bind ofName?

theorem ofJson?_toJson (s : State) : ofJson? s.toJson = some s := ofName?_name s

end State

namespace Strategy

def toJson (s : Strategy) : Json := .ofString s.name

def ofJson? (j : Json) : Option Strategy := j.tag?.bind ofName?

theorem ofJson?_toJson (s : Strategy) : ofJson? s.toJson = some s := ofName?_name s

end Strategy

namespace Prefill

def toJson (p : Prefill) : Json := .ofString p.name

def ofJson? (j : Json) : Option Prefill := j.tag?.bind ofName?

theorem ofJson?_toJson (p : Prefill) : ofJson? p.toJson = some p := ofName?_name p

end Prefill

namespace HandleId

def toJson (h : HandleId) : Json := .ofNat h.val

def ofJson? (j : Json) : Option HandleId :=
  j.nat?.bind fun n => if n < UInt64.size then some ⟨n⟩ else none

theorem ofJson?_toJson {h : HandleId} (fits : h.val < UInt64.size) :
    ofJson? h.toJson = some h := by
  simp [ofJson?, toJson, fits]

end HandleId

namespace Stats

def toJson (s : Stats) : Json := .object (keys.zip (s.values.map Json.ofNat))

def words? (js : List Json) : Option (List Nat) :=
  js.mapM fun j => j.nat?.bind fun n => if n < UInt64.size then some n else none

/-- All numbers, by key in any order or in an array. Unknown keys are skipped. -/
def ofJson? : Json → Option Stats
  | .arr js => (words? js).bind ofValues?
  | .obj ms => do
    let found ← Json.readMembers? keys true (fun k j a => some ((k, j) :: a)) ms [] []
    let js ← keys.mapM fun k => (found.find? (·.1 = k)).map (·.2)
    (words? js).bind ofValues?
  | _ => none

end Stats

namespace Config

def keys : List String := [
  "name", "strategy", "prefill", "min_size", "max_size", "acquisition_timeout",
  "validation_interval", "leak_timeout", "leak_sweep_interval", "reap_idle_timeout",
  "reap_sweep_interval", "thread_affinity", "housekeeping_threads", "event_buffer"]

def optionalJson : Option Duration → Json
  | none => .null
  | some d => d.toJson

/-- An absent duration is stored as null. -/
def optionalOfJson? : Json → Option (Option Duration)
  | .null => some none
  | j => (Duration.ofJson? j).map some

/-- The stored values in the order of `keys`. -/
def values (c : Config) : List Json := [
  .ofString c.name, c.strategy.toJson, c.prefill.toJson, .ofNat c.minSize.toNat,
  .ofNat c.maxSize.toNat, c.acquisitionTimeout.toJson, c.validationInterval.toJson,
  c.leakTimeout.toJson, optionalJson c.leakSweepInterval, c.reapIdleTimeout.toJson,
  optionalJson c.reapSweepInterval, .bool c.threadAffinity, .ofNat c.housekeepingThreads.toNat,
  .ofNat c.eventBuffer.toNat]

def toJson (c : Config) : Json := .object (keys.zip c.values)

/-- Replaces the field with this key. -/
def assign? (key : String) (j : Json) (c : Config) : Option Config :=
  match key with
  | "name" => j.string?.map fun v => { c with name := v }
  | "strategy" => (Strategy.ofJson? j).map fun v => { c with strategy := v }
  | "prefill" => (Prefill.ofJson? j).map fun v => { c with prefill := v }
  | "min_size" => j.word?.map fun v => { c with minSize := v }
  | "max_size" => j.word?.map fun v => { c with maxSize := v }
  | "acquisition_timeout" => (Duration.ofJson? j).map fun v => { c with acquisitionTimeout := v }
  | "validation_interval" => (Duration.ofJson? j).map fun v => { c with validationInterval := v }
  | "leak_timeout" => (Duration.ofJson? j).map fun v => { c with leakTimeout := v }
  | "leak_sweep_interval" => (optionalOfJson? j).map fun v => { c with leakSweepInterval := v }
  | "reap_idle_timeout" => (Duration.ofJson? j).map fun v => { c with reapIdleTimeout := v }
  | "reap_sweep_interval" => (optionalOfJson? j).map fun v => { c with reapSweepInterval := v }
  | "thread_affinity" => j.bool?.map fun v => { c with threadAffinity := v }
  | "housekeeping_threads" => j.word?.map fun v => { c with housekeepingThreads := v }
  | "event_buffer" => j.word?.map fun v => { c with eventBuffer := v }
  | _ => none

def assignAll? : List String → List Json → Config → Option Config
  | _, [], c => some c
  | [], _ :: _, _ => none
  | k :: ks, j :: js, c => (c.assign? k j).bind fun c => assignAll? ks js c

/-- Fields by key in any order, or the first fields in an array. Fields that are not given keep
their defaults and unknown keys are skipped. -/
def ofJson? : Json → Option Config
  | .arr js => assignAll? keys js {}
  | .obj ms => Json.readMembers? keys true assign? ms [] {}
  | _ => none

end Config
end ConnPool
