import ConnPool.Text.Quoted

namespace ConnPool

/-- The numbers that a pool reports about itself. -/
structure Stats where
  size : Nat := 0
  idle : Nat := 0
  active : Nat := 0
  pending : Nat := 0
  waiters : Nat := 0
  maxUsed : Nat := 0
  created : Nat := 0
  destroyed : Nat := 0
  acquired : Nat := 0
  returned : Nat := 0
  timeouts : Nat := 0
  creationFailures : Nat := 0
  validationFailures : Nat := 0
  leaksSuspected : Nat := 0
  reaped : Nat := 0
  deriving DecidableEq

namespace Stats

/-- The keys of the numbers, in the order of `values`. -/
def keys : List String := [
  "size", "idle", "active", "pending", "waiters", "max_used", "created", "destroyed", "acquired",
  "returned", "timeouts", "creation_failures", "validation_failures", "leaks_suspected", "reaped"]

def values (s : Stats) : List Nat := [
  s.size, s.idle, s.active, s.pending, s.waiters, s.maxUsed, s.created, s.destroyed, s.acquired,
  s.returned, s.timeouts, s.creationFailures, s.validationFailures, s.leaksSuspected, s.reaped]

def ofValues? : List Nat → Option Stats
  | [size, idle, active, pending, waiters, maxUsed, created, destroyed, acquired, returned,
      timeouts, creationFailures, validationFailures, leaksSuspected, reaped] =>
    some ⟨size, idle, active, pending, waiters, maxUsed, created, destroyed, acquired, returned,
      timeouts, creationFailures, validationFailures, leaksSuspected, reaped⟩
  | _ => none

def value? (s : Stats) (key : String) : Option Nat :=
  ((keys.zip s.values).find? (·.1 = key)).map (·.2)

def text (s : Stats) : String :=
  Text.record "PoolStats" (keys.zip (s.values.map toString))

/-- Every number fits a 64-bit word. -/
def Fits (s : Stats) : Prop := ∀ n ∈ s.values, n < UInt64.size

theorem ofValues?_values (s : Stats) : ofValues? s.values = some s := rfl

end Stats
end ConnPool
