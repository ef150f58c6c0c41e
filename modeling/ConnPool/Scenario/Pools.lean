import ConnPool.Scenario.Session

namespace ConnPool.Scenario

namespace Session

/-- A second, in nanoseconds. -/
def second : Nat := 1000000000

/-- How long an acquire may wait from now; negative if its deadline has passed. -/
def allowed (s : Session) : Patience → Int
  | .usual => s.pool.patience
  | .upTo d => d.toNanos
  | .until offset => offset

/-- A deed that ends at once, as a computation on the pool. -/
def act? (s : Session) (t : Thread) : Deed → Option (PoolAct Outcome)
  | .release name | .releaseUnwinding name =>
    (s.lease? name).map fun l => do
      Pool.release t l.number
      return .done
  | .invalidate name =>
    (s.lease? name).map fun l => do
      Pool.invalidate l.number
      return .done
  | .detach name =>
    (s.lease? name).map fun l => do
      match ← Pool.detach l.number with
      | some c => return .detached c.text
      | none => return .noLease
  | .sweep w => some do return .number (← Pool.sweep t w)
  | .close => some do
    Pool.close
    return .flag true
  | .releaseEnlisted h => some do return .flag (← Pool.releaseEnlisted t h)
  | _ => none

def survey (p : Pool) : Survey where
  name := p.name
  strategy := p.config.strategy
  active := p.activeCount
  available := p.idleCount
  maxUsed := p.gauges.maxUsed
  size := p.size.count
  min := p.floor
  max := p.cap
  closed := p.closed
  timeout := p.acquisitionTimeout
  attempts := p.attempts

def settled (r : Except Failure Unit) : Outcome :=
  match r with
  | .ok () => .done
  | .error f => .failure f

def changed (s : Session) (f : Pool → Pool) : Session := { s with pool := f s.pool }

def changeUnits (f : Units → Units) (p : Pool) : Pool := { p with units := f p.units }

/-- A deed that is over in one step. -/
def deedNow (s : Session) (t : Thread) : Deed → Outcome × Session
  | .write name text =>
    match s.lease? name with
    | some l =>
      let s := s.changed fun p => p.write l.number text
      (.text (((s.lease? name).map (·.connection.text)).getD ""), s)
    | none => (.noLease, s)
  | .inspect name =>
    match s.lease? name with
    | some l => (.lease (view s.pool l), s)
    | none => (.noLease, s)
  | .describeLease name =>
    match s.lease? name with
    | some l => (.text (Pool.leaseText l), s)
    | none => (.noLease, s)
  | .setFloor n =>
    let (r, p) := s.pool.setFloor n
    (settled r, { s with pool := p })
  | .setPatience d =>
    match s.pool.setPatience d with
    | (.ok (), p) => (.timeout p.acquisitionTimeout, { s with pool := p })
    | (.error f, p) => (.failure f, { s with pool := p })
  | .survey => (.survey (survey s.pool), s)
  | .disown => (.disowned, s.changed Pool.disown)
  | .subscribe name => (.done, s.changed fun p => { p with bus := p.bus.subscribe name })
  | .unsubscribe name =>
    (.flag (s.pool.bus.isSubscribed name),
      s.changed fun p => { p with bus := p.bus.unsubscribe name })
  | .receive name =>
    match s.pool.bus.receive? name with
    | some (r, bus) => (.received r, s.changed fun p => { p with bus := bus })
    | none => (.noSubscriber, s)
  | .drain name =>
    if s.pool.bus.isSubscribed name then
      let (rs, bus) := s.pool.bus.drain name
      (.drained rs, s.changed fun p => { p with bus := bus })
    else (.noSubscriber, s)
  | .addListener l => (.done, s.changed fun p => { p with listeners := p.listeners ++ [l] })
  | .describe => (.text s.pool.text, s)
  | .changeFactory c =>
    let script := s.script.change c
    (.done, { s.changed fun p => { p with factory := script.factory } with script := script })
  | .startUnit =>
    let s := s.changed (changeUnits fun u => { u with byThread := u.byThread.start t })
    (.flag (s.pool.units.byThread.isActive t), s)
  | .finishUnit =>
    (.handle (s.pool.units.byThread.current t),
      s.changed (changeUnits fun u => { u with byThread := u.byThread.finish t }))
  | .associate h =>
    let s := s.changed (changeUnits fun u => { u with byThread := u.byThread.associate t h })
    (.handle (s.pool.units.byThread.current t), s)
  | .disassociate h =>
    (.flag (s.pool.units.byThread.isEnlisted h),
      s.changed (changeUnits fun u => { u with byThread := u.byThread.disassociate h }))
  | .setShared h => (.done, s.changed (changeUnits fun u => { u with shared := ⟨h⟩ }))
  | .lookAtUnits =>
    let u := s.pool.units
    (.units (u.byThread.isActive t) (u.byThread.current t) u.shared.slot, s)
  | _ => (.unknown, s)

def begin (s : Session) (t : String) (d : Deed) : Errand × Session :=
  if d.needsPool && !s.hasPool then (.ended .noPool, s)
  else match d with
  | .acquire name patience =>
    if (s.lease? name).isSome then (.ended .leaseTaken, s)
    else
      let deadline := (s.pool.clock + s.allowed patience).toNat
      s.runErrand (.acquiring name (Pool.acquire (.named t) deadline))
  | .waitForPrefill d => s.runErrand (.prefilling (s.pool.clock + d.toNanos))
  | .release name | .releaseUnwinding name | .invalidate name | .detach name =>
    match s.act? (.named t) d with
    | some act =>
      let unwound := match d with
        | .releaseUnwinding _ => act.bind fun _ => .done (.flag true)
        | _ => act
      let s' := { s with names := s.names.filter (·.1 ≠ name) }
      s'.runErrand (.doing unwound)
    | none => (.ended .noLease, s)
  | d =>
    match s.act? (.named t) d with
    | some act => s.runErrand (.doing act)
    | none =>
      let (o, s) := s.deedNow (.named t) d
      (.ended o, s)

/-- Whether a deed may wait long enough for creations to be let through meanwhile. -/
def isLong (s : Session) : Deed → Bool
  | .acquire _ patience => decide ((second : Int) ≤ s.allowed patience)
  | _ => false

/-- The thread is in the middle of a deed, or has not been joined since. -/
def isBusy (s : Session) (t : String) : Bool := s.errands.any (·.1 = t)

def hasEnded (s : Session) (t : String) : Bool :=
  s.errands.any fun x => x.1 = t && match x.2 with
    | .ended _ => true
    | _ => false

def outcome? (s : Session) (t : String) : Option Outcome :=
  (s.errands.find? (·.1 = t)).bind fun x =>
    match x.2 with
    | .ended o => some o
    | _ => none

/-- Somebody waits, so that creations are not kept back until a step is over. -/
def someoneWaits (s : Session) (but : String) : Bool :=
  s.errands.any fun x => x.1 ≠ but && !s.hasEnded x.1

/-- A deed that the script waits for. -/
def perform (s : Session) (t : String) (d : Deed) : Outcome × Session :=
  if s.isBusy t then (.busy, s)
  else
    let long := s.isLong d
    let (e, s) := s.begin t d
    match e with
    | .ended o => (o, s)
    | e =>
      let s := { s with errands := s.errands ++ [(t, e)] }
      let limit := (s.pool.acquirers.map (·.deadline) ++
        s.errands.filterMap fun x => match x.2 with
          | .prefilling d => some d
          | _ => none).foldl max s.pool.clock
      let s := s.pass (fun s => s.gateOpen && (long || s.someoneWaits t)) (·.hasEnded t) limit
      ((s.outcome? t).getD .notSpawned, { s with errands := s.errands.filter (·.1 ≠ t) })

/-- A deed that runs on while the script goes on. -/
def spawn (s : Session) (t : String) (d : Deed) : Outcome × Session :=
  if s.isBusy t then (.busy, s)
  else
    let (e, s) := s.begin t d
    (.spawned, { s with errands := s.errands ++ [(t, e)] })

/-- Time that passes at most while the script waits for threads. -/
def joinLimit : Nat := 3600 * second

/-- Waits for deeds that run on, and forgets them. -/
def join (s : Session) (ts : List String) : Outcome × Session :=
  let s := s.pass (·.gateOpen) (fun s => ts.all fun t => !s.isBusy t || s.hasEnded t)
    (s.pool.clock + joinLimit)
  (.joined (ts.map fun t => (s.outcome? t).getD .notSpawned),
    { s with errands := s.errands.filter fun x => !(ts.contains x.1 && s.hasEnded x.1) })

/-- Lets some creations through, each to its end. -/
def grant (s : Session) : Nat → Session
  | 0 => s
  | n + 1 =>
    match s.create? with
    | some s => grant (s.settle false) n
    | none => s

def awaitLimit : Nat := 4 * second

def await (s : Session) (field : String) (b : Bound) : Outcome × Session :=
  if !s.hasPool then (.noPool, s)
  else
    let holds (s : Session) : Bool := ((s.pool.stats.value? field).map b.holds).getD false
    let s := s.pass (·.gateOpen) holds (s.pool.clock + awaitLimit)
    (.flag (holds s), s)

def step (s : Session) : Step → Outcome × Session
  | .deed t d => s.perform t d
  | .spawn t d => s.spawn t d
  | .join ts => s.join ts
  | .gate isOpen => (.done, { s with gateOpen := isOpen })
  | .grant n => (.done, s.grant n)
  | .await t field b => if s.isBusy t then (.busy, s) else s.await field b
  | .sleep t ms =>
    if s.isBusy t then (.busy, s)
    else (.done, s.pass (·.gateOpen) (fun _ => false) (s.pool.clock + ms * 1000000))
  | .hold t c => if s.isBusy t then (.busy, s) else (.done, { s with held := c :: s.held })
  | .unhold t c =>
    if s.isBusy t then (.busy, s) else (.done, { s with held := s.held.filter (· ≠ c) })

end Session

structure HandleView where
  id : HandleId
  state : State
  owner : Option Thread

structure PoolView where
  stats : Stats
  handles : List HandleView

/-- What a step came to, what happened since the step before, the pool afterwards if somebody owns
it, and the threads whose deeds are over, if any run on. -/
structure Answer where
  outcome : Outcome
  notes : List Note
  pool : Option PoolView
  ended : Option (List String)

namespace Session

def poolView (s : Session) : Option PoolView :=
  if s.hasPool then
    some ⟨s.pool.stats, s.pool.handles.map fun h => ⟨h.id, h.state, h.owner.map (·.thread)⟩⟩
  else none

def endedThreads (s : Session) : Option (List String) :=
  if s.errands.isEmpty then none
  else some (((s.errands.map (·.1)).filter s.hasEnded).mergeSort (· ≤ ·))

/-- Lets everything come to rest, and says what was seen since the journal had `seen` notes. -/
def answer (s : Session) (seen : Nat) (o : Outcome) : Answer × Session :=
  let s := s.settle s.gateOpen
  let fresh := s.pool.journal.take (s.pool.journal.length - seen)
  (⟨o, fresh.reverse, s.poolView, s.endedThreads⟩, s)

def runFrom (s : Session) : List Step → List Answer
  | [] => []
  | st :: sts =>
    let seen := s.pool.journal.length
    let (o, s) := s.step st
    let (a, s) := s.answer seen o
    a :: runFrom s sts

/-- Timers go off once a millisecond at most. -/
def grain : Nat := 1000000

def timersOf (c : Config) : List Timer :=
  (Sweep.all.filter fun w => !(c.period w).isZero).map fun w =>
    let period := max (c.period w).toNanos grain
    ⟨w, period, period⟩

end Session

structure Setup where
  config : Config
  script : FactoryScript
  listeners : List Listener
  enlisting : Enlisting
  gateOpen : Bool

/-- The session that a script begins with, and what building its pool came to. None if the pool can
neither be built nor refused. -/
def Setup.start? (setup : Setup) : Option (Except Failure Unit × Session) :=
  let units : Units := { enlisting := setup.enlisting }
  match Pool.build setup.config setup.script.factory setup.listeners units with
  | .error f =>
    let pool := Pool.new setup.config setup.script.factory setup.listeners units .shut
    some (.error f, { pool, script := setup.script, built := false, gateOpen := setup.gateOpen })
  | .ok none => none
  | .ok (some pool) =>
    some (.ok (),
      { pool
        script := setup.script
        gateOpen := setup.gateOpen
        timers := Session.timersOf setup.config })

def run (setup : Setup) (steps : List Step) : Option (List Answer) :=
  setup.start?.map fun (r, s) =>
    let (a, s) := s.answer 0 (match r with
      | .ok () => .built
      | .error f => .failure f)
    a :: s.runFrom steps

end ConnPool.Scenario
