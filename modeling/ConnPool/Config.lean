import ConnPool.Duration
import ConnPool.Failure
import ConnPool.Handoff.Strategy
import ConnPool.Text.Blank
import ConnPool.Text.Quoted

namespace ConnPool

/-- How many connections a new pool opens before anyone asks. -/
inductive Prefill where
  | none
  | toMin
  | toMax
  deriving DecidableEq, Repr

namespace Prefill

def all : List Prefill := [none, toMin, toMax]

def name : Prefill → String
  | none => "none"
  | toMin => "to_min"
  | toMax => "to_max"

def ofName? (s : String) : Option Prefill := all.find? (·.name = s)

/-- The spelling in one-line records. -/
def title : Prefill → String
  | none => "None"
  | toMin => "ToMin"
  | toMax => "ToMax"

def target (p : Prefill) (min max : UInt64) : UInt64 :=
  match p with
  | none => 0
  | toMin => min
  | toMax => max

theorem ofName?_name (p : Prefill) : ofName? p.name = some p := by cases p <;> decide

end Prefill

structure Config where
  name : String := "pool"
  strategy : Strategy := .bag
  prefill : Prefill := .toMin
  minSize : UInt64 := 1
  maxSize : UInt64 := 10
  acquisitionTimeout : Duration := .ofSecs 30
  validationInterval : Duration := .ofSecs 30
  leakTimeout : Duration := .zero
  leakSweepInterval : Option Duration := none
  reapIdleTimeout : Duration := .ofSecs 600
  reapSweepInterval : Option Duration := none
  threadAffinity : Bool := true
  housekeepingThreads : UInt64 := 2
  eventBuffer : UInt64 := 1024
  deriving DecidableEq

namespace Config

instance : Inhabited Config := ⟨{}⟩

/-- Zero, so never, when leaks are not looked for. -/
def leakSweepPeriod (c : Config) : Duration :=
  if c.leakTimeout.isZero then .zero else c.leakSweepInterval.getD c.leakTimeout

/-- Zero, so never, when idle connections are kept. -/
def reapSweepPeriod (c : Config) : Duration :=
  if c.reapIdleTimeout.isZero then .zero else c.reapSweepInterval.getD c.reapIdleTimeout

def prefillTarget (c : Config) : UInt64 := c.prefill.target c.minSize c.maxSize

/-- What can be wrong with a configuration, in the order in which it is looked for. -/
inductive Fault where
  | emptyName
  | noRoom
  | floorAboveCap (min max : UInt64)
  | noPatience
  | noHousekeeper
  deriving DecidableEq

def Fault.message : Fault → String
  | emptyName => "name must not be empty"
  | noRoom => "max_size must be greater than 0"
  | floorAboveCap min max =>
    "min_size (" ++ toString min.toNat ++ ") must not exceed max_size (" ++
      toString max.toNat ++ ")"
  | noPatience => "acquisition_timeout must be greater than zero"
  | noHousekeeper => "housekeeping_threads must be greater than zero"

def Fault.failure (f : Fault) : Failure := .configuration f.message

def fault? (c : Config) : Option Fault :=
  if Text.allBlank c.name then some .emptyName
  else if c.maxSize = 0 then some .noRoom
  else if c.minSize > c.maxSize then some (.floorAboveCap c.minSize c.maxSize)
  else if c.acquisitionTimeout.isZero then some .noPatience
  else if c.housekeepingThreads = 0 then some .noHousekeeper
  else none

/-- A pool can be built from it. -/
def Accepted (c : Config) : Prop := c.fault? = none

instance (c : Config) : Decidable c.Accepted := inferInstanceAs (Decidable (_ = _))

/-- One line that shows every field. -/
def text (c : Config) : String :=
  Text.record "PoolConfig" [
    ("name", Text.quoted c.name),
    ("strategy", c.strategy.title),
    ("prefill", c.prefill.title),
    ("min_size", toString c.minSize.toNat),
    ("max_size", toString c.maxSize.toNat),
    ("acquisition_timeout", c.acquisitionTimeout.text),
    ("validation_interval", c.validationInterval.text),
    ("leak_timeout", c.leakTimeout.text),
    ("leak_sweep_interval", Text.optional (c.leakSweepInterval.map Duration.text)),
    ("reap_idle_timeout", c.reapIdleTimeout.text),
    ("reap_sweep_interval", Text.optional (c.reapSweepInterval.map Duration.text)),
    ("thread_affinity", toString c.threadAffinity),
    ("housekeeping_threads", toString c.housekeepingThreads.toNat),
    ("event_buffer", toString c.eventBuffer.toNat)]

/-- One line for a pool about to be built, with the number of its listeners. -/
def builderText (c : Config) (listeners : Nat) : String :=
  Text.record "PoolBuilder" [("config", c.text), ("listeners", toString listeners)]

end Config
end ConnPool
