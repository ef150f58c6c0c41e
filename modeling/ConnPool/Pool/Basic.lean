import ConnPool.Act
import ConnPool.Config
import ConnPool.Event.Bus
import ConnPool.Gauges
import ConnPool.Handoff
import ConnPool.Journal
import ConnPool.Stats
import ConnPool.UnitOfWork

namespace ConnPool

structure Owner where
  thread : Thread
  since : Nat
  deriving DecidableEq

/-- One connection of a pool with its bookkeeping. The slot is empty while a lease holds the
connection. `queued` says that an entry for it waits in the handoff. -/
structure Handle where
  id : HandleId
  state : State
  slot : Option Connection
  lastAccess : Nat
  owner : Option Owner := none
  queued : Bool := false
  cachedBy : Option Thread := none
  deriving DecidableEq

/-- A connection out on loan, numbered in the order of lending. Giving an enlisted one back leaves
its handle checked out. -/
structure Lease where
  number : Nat
  handle : HandleId
  connection : Connection
  enlisted : Bool
  since : Nat
  deriving DecidableEq

/-- How a creation that an acquirer asked for stands. -/
inductive Ticket where
  | inFlight
  | settled (error : Option String)
  deriving DecidableEq

inductive Waiting where
  | parked
  | served (h : HandleId)
  | dismissed
  deriving DecidableEq

structure Acquirer where
  taker : Taker
  started : Nat
  deadline : Nat
  ticket : Option Ticket := none
  waiting : Waiting := .parked
  deriving DecidableEq

/-- A creation that was scheduled and has not ended, for the acquirer with this number if any. -/
structure Creation where
  acquirer : Option Nat
  deriving DecidableEq

/-- A pool, all that it has lent out and all that waits for it. The journal holds what happened,
latest first. The clock counts nanoseconds and moves on with every stamp. `cacheOwner` is the owner
number of the pool's own lists by thread; that of its handoff is one more. `strays` are the handles
that have left the collection and are still marked as having an entry in the handoff. -/
structure Pool where
  config : Config
  floor : Nat
  patience : Nat
  factory : Factory
  handles : List Handle := []
  handoff : Handoff HandleId
  recents : Recents := {}
  size : Tally := {}
  pending : Tally := {}
  gauges : Gauges := {}
  counters : Counters := {}
  units : Units := {}
  listeners : List Listener := []
  bus : Bus
  closed : Bool := false
  inFlight : List Creation := []
  acquirers : List Acquirer := []
  leases : List Lease := []
  closures : List Connection := []
  detached : List Connection := []
  journal : List Note := []
  owned : Bool := true
  gone : Bool := false
  clock : Nat := 0
  attempts : Nat := 0
  nextHandle : Nat := 1
  nextLease : Nat := 0
  nextTaker : Nat := 0
  cacheOwner : Nat := 0
  strays : List HandleId := []

/-- An operation on a pool, which calls of the factory may hold up. -/
abbrev PoolAct := Act Pool Call

namespace Pool

def name (p : Pool) : String := p.config.name

def cap (p : Pool) : Nat := p.config.maxSize.toNat

def find? (p : Pool) (id : HandleId) : Option Handle := p.handles.find? (·.id = id)

def modifyHandle (p : Pool) (id : HandleId) (f : Handle → Handle) : Pool :=
  { p with handles := p.handles.map fun h => if h.id = id then f h else h }

def stateOf? (p : Pool) (id : HandleId) : Option State := (p.find? id).map (·.state)

/-- Moves a handle along the lifecycle and keeps the gauges in step. False if it is not in
`source`. -/
def transition (p : Pool) (id : HandleId) (source target : State) : Bool × Pool :=
  if State.legal source target ∧ p.stateOf? id = some source then
    (true,
      { p.modifyHandle id fun h => { h with state := target } with
        gauges := p.gauges.moved source target })
  else (false, p)

/-- Stamps a handle with the current time, which no other stamp has. -/
def touch (p : Pool) (id : HandleId) : Pool :=
  { p.modifyHandle id fun h => { h with lastAccess := p.clock } with clock := p.clock + 1 }

def clearOwner (p : Pool) (id : HandleId) : Pool :=
  p.modifyHandle id fun h => { h with owner := none }

/-- Takes its mark off a handle, also if it has left the collection. -/
def unqueue (p : Pool) (id : HandleId) : Pool :=
  { p.modifyHandle id fun h => { h with queued := false } with strays := p.strays.filter (· ≠ id) }

def disassociate (p : Pool) (id : HandleId) : Pool :=
  { p with units := p.units.disassociate id }

def count (p : Pool) (f : Counters → Counters) : Pool := { p with counters := f p.counters }

def note (p : Pool) (n : Note) : Pool := { p with journal := n :: p.journal }

def log (p : Pool) (level : Level) (message : String) (fields : List (String × Field)) : Pool :=
  p.note (.line level message (("pool", .shown p.name) :: fields))

def notify (p : Pool) (h : Hook) : Pool :=
  { p with
    journal := (p.listeners.flatMap (Listener.hear p.name h)).reverse ++ p.journal
    listeners :=
      p.listeners.map (Listener.settled h) ++ p.listeners.filterMap (Listener.brought? h) }

def emit (p : Pool) (e : Event) : Pool := { p with bus := p.bus.emit e }

def idleFor (p : Pool) (h : Handle) : Nat := p.clock - h.lastAccess

def activeCount (p : Pool) : Nat := p.gauges.checkedOut.count

def idleCount (p : Pool) : Nat := p.gauges.checkedIn.count

def stats (p : Pool) : Stats where
  size := p.size.count
  idle := p.idleCount
  active := p.activeCount
  pending := p.pending.count
  waiters := p.handoff.waiters
  maxUsed := p.gauges.maxUsed
  created := p.counters.created
  destroyed := p.counters.destroyed
  acquired := p.counters.acquired
  returned := p.counters.returned
  timeouts := p.counters.timeouts
  creationFailures := p.counters.creationFailures
  validationFailures := p.counters.validationFailures
  leaksSuspected := p.counters.leaksSuspected
  reaped := p.counters.reaped

def text (p : Pool) : String :=
  Text.record "Pool" [("name", Text.quoted p.name), ("strategy", p.config.strategy.title),
    ("stats", p.stats.text)]

def closedFailure (p : Pool) : Failure := .closed p.name

def lease? (p : Pool) (number : Nat) : Option Lease := p.leases.find? (·.number = number)

def leaseText (l : Lease) : String :=
  Text.record "PooledConnection" [("id", l.handle.text),
    ("connection", Text.optional (some (Text.quoted l.connection.text))),
    ("enlisted", toString l.enlisted)]

end Pool
end ConnPool
