import ConnPool.Scenario.Script

namespace ConnPool.Scenario

/-- How far a thread has come with a deed that runs apart from the steps. -/
inductive Errand where
  | acquiring (lease : String) (act : PoolAct Pool.Reply)
  | waiting (lease : String) (acquirer : Nat)
  | doing (act : PoolAct Outcome)
  | prefilling (deadline : Nat)
  | ended (o : Outcome)

/-- A sweep that runs by itself: how often, and when it is due. -/
structure Timer where
  sweep : Sweep
  period : Nat
  due : Nat

/-- A pool in the hands of a script. `creating` is the creation that was let through and has not
ended, `background` what the timers have begun. -/
structure Session where
  pool : Pool
  script : FactoryScript
  built : Bool := true
  gateOpen : Bool := true
  held : List Call := []
  names : List (String × Nat) := []
  errands : List (String × Errand) := []
  creating : Option (PoolAct Unit) := none
  background : List (PoolAct Unit) := []
  timers : List Timer := []

namespace Session

def isHeld (s : Session) (c : Call) : Bool := s.held.contains c

def hasPool (s : Session) : Bool := s.built && s.pool.owned

def lease? (s : Session) (name : String) : Option Lease :=
  (s.names.find? (·.1 = name)).bind fun e => s.pool.lease? e.2

def view (p : Pool) (l : Lease) : LeaseView :=
  ⟨l.handle, l.enlisted, l.connection.text, ((p.find? l.handle).bind (·.owner)).map (·.thread)⟩

/-- What an acquire that has ended comes to. A lease gets its name. -/
def endAcquire (s : Session) (name : String) : Pool.Reply → Errand × Session
  | .granted n =>
    match s.pool.lease? n with
    | some l =>
      (.ended (.lent (view s.pool l)),
        { s with names := (name, n) :: s.names.filter (·.1 ≠ name) })
    | none => (.ended .noLease, s)
  | .refused f => (.ended (.failure f), s)
  | .waiting a => (.waiting name a, s)

/-- Runs an errand until it ends, waits or is held up. -/
def runErrand (s : Session) : Errand → Errand × Session
  | .acquiring name act =>
    match act.advance s.isHeld s.pool with
    | (.done r, p) => endAcquire { s with pool := p } name r
    | (act, p) => (.acquiring name act, { s with pool := p })
  | .doing act =>
    match act.advance s.isHeld s.pool with
    | (.done o, p) => (.ended o, { s with pool := p })
    | (act, p) => (.doing act, { s with pool := p })
  | .waiting name a => runAcquire s name (Pool.resume a)
  | .prefilling deadline =>
    if s.pool.pending.count = 0 then (.ended (.flag true), s)
    else if deadline ≤ s.pool.clock then (.ended (.flag false), s)
    else (.prefilling deadline, s)
  | .ended o => (.ended o, s)
where
  runAcquire (s : Session) (name : String) (act : PoolAct Pool.Reply) : Errand × Session :=
    match act.advance s.isHeld s.pool with
    | (.done r, p) => endAcquire { s with pool := p } name r
    | (act, p) => (.acquiring name act, { s with pool := p })

/-- The call at which a computation stands is free, or it stands at none. -/
def isFree {α : Type} (s : Session) (act : PoolAct α) : Bool :=
  match act.heldAt? with
  | some c => !s.isHeld c
  | none => true

/-- Whether an errand can go on by itself. Acquirers that merely look around again, which they do
now and then, come after everything else. -/
def isReady (s : Session) (looking : Bool) : Errand → Bool
  | .acquiring _ act => s.isFree act
  | .doing act => s.isFree act
  | .waiting _ a =>
    match s.pool.acquirers.find? (·.taker.id = a) with
    | some acquirer =>
      s.pool.canGoOn acquirer && (looking || acquirer.waiting != .parked)
    | none => false
  | .prefilling deadline =>
    decide (s.pool.pending.count = 0) || decide (deadline ≤ s.pool.clock)
  | .ended _ => false

def setErrand (s : Session) (t : String) (e : Errand) : Session :=
  { s with errands := s.errands.map fun x => if x.1 = t then (t, e) else x }

def runReady? (s : Session) (looking : Bool) : Option Session :=
  (s.errands.find? fun x => s.isReady looking x.2).map fun (t, e) =>
    let (e, s) := s.runErrand e
    s.setErrand t e

/-- Runs what the timers began until it ends or is held up. -/
def runBackground (s : Session) : List (PoolAct Unit) → Session
  | [] => { s with background := [] }
  | act :: acts =>
    match act.advance s.isHeld s.pool with
    | (.done (), p) => runBackground { s with pool := p } acts
    | (act, p) =>
      let s := runBackground { s with pool := p } acts
      { s with background := act :: s.background }

/-- Lets one creation through, or on. -/
def create? (s : Session) : Option Session :=
  match s.creating with
  | some act =>
    if s.isFree act then
      match act.advance s.isHeld s.pool with
      | (.done (), p) => some { s with pool := p, creating := none }
      | (act, p) => some { s with pool := p, creating := some act }
    else none
  | none =>
    if s.pool.inFlight.isEmpty then none
    else
      match Pool.create.advance s.isHeld s.pool with
      | (.done (), p) => some { s with pool := p }
      | (act, p) => some { s with pool := p, creating := some act }

/-- Nothing runs that could still reach the pool. -/
def isIdle (s : Session) : Bool :=
  s.creating.isNone && s.background.isEmpty &&
  s.errands.all fun (_, e) =>
    match e with
    | .ended _ => true
    | _ => false

def vanish? (s : Session) : Option Session :=
  if s.built && s.pool.isUnused && s.isIdle then
    some (runBackground s [Pool.vanish])
  else none

/-- One round: the first thing that can go on does. Creations go on only if they are let through. -/
def round? (s : Session) (letThrough : Bool) : Option Session :=
  if s.background.any s.isFree then some (s.runBackground s.background)
  else (s.runReady? false).or
    ((if letThrough || s.creating.isSome then s.create? else none).or
      ((s.runReady? true).or s.vanish?))

/-- Rounds until nothing goes on; `fuel` bounds their number. -/
def rounds (letThrough : Bool) (s : Session) : Nat → Session
  | 0 => s
  | fuel + 1 =>
    match s.round? letThrough with
    | some s => rounds letThrough s fuel
    | none => s

/-- A bound on the rounds that can follow one another: each creation, errand and call that goes on
either ends or is the last of its acquirer. -/
def roundBound (s : Session) : Nat :=
  64 * (s.pool.inFlight.length + s.pool.acquirers.length + s.errands.length + s.background.length +
    s.pool.handles.length + min s.pool.floor 4096 + 16)

def settle (s : Session) (letThrough : Bool) : Session := rounds letThrough s s.roundBound

def timersRun (s : Session) : Bool := s.built && !s.pool.closed && !s.pool.gone

/-- The next moment at which something happens by itself. -/
def nextEvent? (s : Session) : Option Nat :=
  let deadlines := (s.pool.acquirers.filter (·.waiting = .parked)).map (·.deadline)
  let prefills := s.errands.filterMap fun (_, e) =>
    match e with
    | .prefilling d => some d
    | _ => none
  let ticks := if s.timersRun then s.timers.map (·.due) else []
  (deadlines ++ prefills ++ ticks).min?

/-- A timer that is due plans its sweep and begins it, one task for each handle. -/
def tick (s : Session) (t : Timer) : Session :=
  let ids := s.pool.plan t.sweep
  let p := s.pool.log .trace "Sweep tick"
    [("sweep", .text t.sweep.name), ("candidates", .number ids.length)]
  let tasks : List (PoolAct Unit) :=
    ids.map fun id => (do let _ ← Pool.execute .background t.sweep id; return ())
  let s := runBackground { s with pool := p } (s.background ++ tasks)
  if t.sweep = .leak then s else { s with pool := s.pool.topUp }

/-- Moves the clock, and runs the timers that are then due. -/
def moveTo (s : Session) (time : Nat) : Session :=
  let s := { s with pool := { s.pool with clock := max s.pool.clock time } }
  if s.timersRun then
    let due := s.timers.filter (·.due ≤ s.pool.clock)
    let s := { s with
      timers := s.timers.map fun t =>
        if t.due ≤ s.pool.clock then { t with due := s.pool.clock + t.period } else t }
    due.foldl tick s
  else s

/-- Lets time pass up to a moment, but no further than until `stop` holds. Each event on the way
takes its turn; `fuel` bounds their number. -/
def passFuel (letThrough : Session → Bool) (stop : Session → Bool) (limit : Nat) (s : Session) :
    Nat → Session
  | 0 => s
  | fuel + 1 =>
    let s := s.settle (letThrough s)
    if stop s then s
    else
      match s.nextEvent? with
      | some time =>
        if time ≤ limit then passFuel letThrough stop limit (s.moveTo time) fuel
        else (s.moveTo limit).settle (letThrough s)
      | none => (s.moveTo limit).settle (letThrough s)

/-- Events that can be told apart while a script waits. -/
def eventBound : Nat := 20000

def pass (s : Session) (letThrough : Session → Bool) (stop : Session → Bool) (limit : Nat) :
    Session :=
  passFuel letThrough stop limit s eventBound

end Session
end ConnPool.Scenario
