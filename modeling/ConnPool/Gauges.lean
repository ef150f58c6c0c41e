import ConnPool.State

namespace ConnPool

/-- A count that goes up and down. Going down from zero leaves it at zero and is held against it. -/
structure Tally where
  count : Nat := 0
  shortfalls : Nat := 0
  deriving DecidableEq

namespace Tally

def up (t : Tally) : Tally := { t with count := t.count + 1 }

def down (t : Tally) : Tally :=
  if t.count = 0 then { t with shortfalls := t.shortfalls + 1 }
  else { t with count := t.count - 1 }

theorem count_down (t : Tally) : t.down.count = t.count - 1 := by
  unfold down; split <;> simp_all

theorem shortfalls_down {t : Tally} (h : 0 < t.count) : t.down.shortfalls = t.shortfalls := by
  unfold down; split
  · omega
  · rfl

end Tally

/-- How many handles are in each state, and the most that were ever checked out at once. -/
structure Gauges where
  new : Tally := {}
  checkedIn : Tally := {}
  checkedOut : Tally := {}
  validation : Tally := {}
  toDestroy : Tally := {}
  destroyed : Tally := {}
  maxUsed : Nat := 0
  deriving DecidableEq

namespace Gauges

def get (g : Gauges) : State → Tally
  | .new => g.new
  | .checkedIn => g.checkedIn
  | .checkedOut => g.checkedOut
  | .validation => g.validation
  | .toDestroy => g.toDestroy
  | .destroyed => g.destroyed

def set (g : Gauges) (s : State) (t : Tally) : Gauges :=
  match s with
  | .new => { g with new := t }
  | .checkedIn => { g with checkedIn := t }
  | .checkedOut => { g with checkedOut := t }
  | .validation => { g with validation := t }
  | .toDestroy => { g with toDestroy := t }
  | .destroyed => { g with destroyed := t }

def enter (g : Gauges) (s : State) : Gauges :=
  let g := g.set s (g.get s).up
  if s = .checkedOut then { g with maxUsed := max g.maxUsed g.checkedOut.count } else g

def leave (g : Gauges) (s : State) : Gauges := g.set s (g.get s).down

/-- The target is entered before the source is left; nothing is counted as destroyed. -/
def moved (g : Gauges) (source target : State) : Gauges :=
  (if target.terminal then g else g.enter target).leave source

end Gauges

/-- How often things have happened. -/
structure Counters where
  created : Nat := 0
  destroyed : Nat := 0
  acquired : Nat := 0
  returned : Nat := 0
  timeouts : Nat := 0
  creationFailures : Nat := 0
  validationFailures : Nat := 0
  leaksSuspected : Nat := 0
  reaped : Nat := 0
  deriving DecidableEq

end ConnPool
