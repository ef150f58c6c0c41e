import ConnPool.Pool.Sweep

namespace ConnPool.Pool

def new (c : Config) (f : Factory) (ls : List Listener) (us : Units) (bus : Bus) : Pool where
  config := c
  floor := c.minSize.toNat
  patience := c.acquisitionTimeout.toNanos % UInt64.size
  factory := f
  listeners := ls
  units := us
  bus := bus
  handoff := .new c.strategy 1

/-- A pool that nobody has used yet, by other owner numbers: this one and the next. -/
def lodge (p : Pool) (owner : Nat) : Pool :=
  { p with cacheOwner := owner, handoff := .new p.config.strategy (owner + 1) }

def start (p : Pool) : Pool :=
  let p := (Sweep.all.filter fun s => (p.config.period s).isZero).foldl
    (fun p s => p.log .debug "Sweep disabled" [("sweep", .text s.name)]) p
  let target := p.config.prefillTarget.toNat
  (p.fillTo target).log .info "Pool started" [
    ("strategy", .shown p.config.strategy.name), ("min_size", .number p.config.minSize.toNat),
    ("max_size", .number p.config.maxSize.toNat), ("prefill", .number target)]

/-- The threads of a pool bear its name, and the name of a thread has no zero character. -/
def canName (c : Config) : Bool := !c.name.toList.contains '\x00'

/-- Builds a pool from a configuration that is in order. None if its bus cannot be opened or its
threads cannot be named. -/
def build (c : Config) (f : Factory) (ls : List Listener) (us : Units) :
    Except Failure (Option Pool) :=
  match c.fault? with
  | some fault => .error fault.failure
  | none =>
    .ok (if canName c then
      (Bus.open? c.eventBuffer.toNat).map fun bus => (new c f ls us bus).start
    else none)

def dismiss (p : Pool) (takers : List Taker) : Pool :=
  { p with
    acquirers := p.acquirers.map fun a =>
      if takers.any (·.id = a.taker.id) then { a with waiting := .dismissed } else a }

def closeHandoff (p : Pool) : Pool :=
  let (ids, takers, handoff) := p.handoff.close
  ({ ids.foldl unqueue p with handoff := handoff } : Pool).dismiss takers

def destroyIdle : List HandleId → PoolAct Unit
  | [] => return ()
  | id :: ids => do
    if ← .apply (·.transition id .checkedIn .toDestroy) then destroyNow id .shutdown false
    destroyIdle ids

/-- Shuts the pool down: idle connections go now, others when they come back. A second time does
nothing. -/
def close : PoolAct Unit := do
  if (← .read).closed then return
  .update fun p => ({ p with closed := true } : Pool).log .info "Closing pool" []
  .update closeHandoff
  destroyIdle ((← .read).handles.map (·.id))

def isUnused (p : Pool) : Bool :=
  !p.owned && !p.gone && p.leases.isEmpty && p.inFlight.isEmpty && p.acquirers.isEmpty

def vanish : PoolAct Unit := do
  close
  .update fun p => { p with gone := true, bus := p.bus.close }

def disown (p : Pool) : Pool := { p with owned := false }

def setFloor (p : Pool) (n : Nat) : Except Failure Unit × Pool :=
  if n > p.cap then
    (.error (Config.Fault.floorAboveCap n.toUInt64 p.config.maxSize).failure, p)
  else
    (.ok (), (({ p with floor := n } : Pool).log .debug "Minimum size changed"
      [("min_size", .number n)]).topUp)

/-- The timeout is kept as a 64-bit number of nanoseconds. -/
def setPatience (p : Pool) (d : Duration) : Except Failure Unit × Pool :=
  if d.isZero then (.error Config.Fault.noPatience.failure, p)
  else (.ok (), { p with patience := d.toNanos % UInt64.size })

def acquisitionTimeout (p : Pool) : Duration := .ofNanos p.patience

end ConnPool.Pool
