import ConnPool.Pool.Publish

namespace ConnPool

inductive Sweep where
  | validation
  | leak
  | reap
  deriving DecidableEq

def Sweep.name : Sweep → String
  | validation => "validation"
  | leak => "leak"
  | reap => "reap"

def Sweep.all : List Sweep := [.validation, .leak, .reap]

/-- How often a sweep runs by itself; zero means never. -/
def Config.period (c : Config) : Sweep → Duration
  | .validation => c.validationInterval
  | .leak => c.leakSweepPeriod
  | .reap => c.reapSweepPeriod

namespace Pool

def isSuspect (p : Pool) (h : Handle) : Bool :=
  h.state = .checkedOut && decide (p.config.leakTimeout.toNanos < p.idleFor h)

def isStale (p : Pool) (h : Handle) : Bool :=
  decide (p.config.reapIdleTimeout.toNanos < p.idleFor h)

/-- Stale idle handles, least recently used first and at most as many as the pool has above its
floor. -/
def reapCandidates (p : Pool) : List Handle :=
  ((p.handles.filter fun h => h.state = .checkedIn && p.isStale h).mergeSort
    fun a b => a.lastAccess ≤ b.lastAccess).take (p.size.count - p.floor)

/-- The handles that a sweep goes over. Planning changes nothing. -/
def plan (p : Pool) : Sweep → List HandleId
  | .validation => (p.handles.filter (·.state = .checkedIn)).map (·.id)
  | .leak => (p.handles.filter p.isSuspect).map (·.id)
  | .reap => p.reapCandidates.map (·.id)

def probe (id : HandleId) : PoolAct Bool := do
  let p ← .read
  match (p.find? id).bind (·.slot) with
  | none => return false
  | some c =>
    if !p.factory.isPlain then
      .update (·.note (.probe c))
      .mark (.probe c.serial)
    .apply fun p =>
      let (valid, c) := p.factory.probe c
      (valid, p.modifyHandle id fun h => { h with slot := some c })

def pass (t : Thread) (id : HandleId) : PoolAct Unit := do
  if ← .apply (·.transition id .validation .checkedIn) then publish t id

def fail (id : HandleId) : PoolAct Unit := do
  .update (·.count fun n => { n with validationFailures := n.validationFailures + 1 })
  .update (·.log .warn "Connection failed validation" [("handle", .shown id.label)])
  if ← .apply (·.transition id .validation .toDestroy) then destroy id .validationFailed

/-- Probes one idle handle. False if it is not idle. -/
def validate (t : Thread) (id : HandleId) : PoolAct Bool := do
  if ← .apply (·.transition id .checkedIn .validation) then
    let valid ← probe id
    .update (·.notify (.onValidation id valid))
    if valid then pass t id else fail id
    return true
  else return false

def reportLeak (id : HandleId) : PoolAct Bool := .apply fun p =>
  match p.find? id with
  | none => (false, p)
  | some h =>
    if p.isSuspect h then
      let held := p.idleFor h
      let p := p.count fun n => { n with leaksSuspected := n.leaksSuspected + 1 }
      let p := p.log .warn "Connection leak suspected" [("handle", .shown id.label)]
      let p := p.notify (.onLeak id (h.owner.map (·.thread)))
      (true, p.emit (.leakSuspected p.name id (.ofNanos held)))
    else (false, p)

/-- Gives back the place of one idle handle, unless the pool is at its floor, and then claims the
handle. -/
def claimStale (p : Pool) (id : HandleId) : Bool × Pool :=
  match p.find? id with
  | none => (false, p)
  | some h =>
    if p.closed || !p.isStale h || decide (p.size.count ≤ p.floor) then (false, p)
    else
      match ({ p with size := p.size.down } : Pool).transition id .checkedIn .toDestroy with
      | (true, p) => (true, p)
      | (false, p) => (false, { p with size := p.size.up })

/-- Closes one stale handle. False if it was taken, or if the pool is at its floor. -/
def reap (id : HandleId) : PoolAct Bool := do
  if ← .apply (·.claimStale id) then
    .update (·.count fun n => { n with reaped := n.reaped + 1 })
    .update (·.notify (.onTimeout id))
    destroyNow id .idleTimeout true
    return true
  else return false

def execute (t : Thread) (s : Sweep) (id : HandleId) : PoolAct Bool :=
  match s with
  | .validation => validate t id
  | .leak => reportLeak id
  | .reap => reap id

def executeAll (t : Thread) (s : Sweep) : List HandleId → PoolAct Nat
  | [] => return 0
  | id :: ids => do
    let dealt ← execute t s id
    let n ← executeAll t s ids
    return n + dealt.toNat

def sweep (t : Thread) (s : Sweep) : PoolAct Nat := do
  let p ← .read
  if p.closed then return 0
  let n ← executeAll t s (p.plan s)
  if s ≠ .leak then .update topUp
  return n

end Pool
end ConnPool
