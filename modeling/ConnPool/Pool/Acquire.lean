import ConnPool.Pool.Publish

namespace ConnPool.Pool

inductive Reply where
  | granted (lease : Nat)
  | refused (f : Failure)
  | waiting (acquirer : Nat)

/-- The thread may take this handle from its own list. -/
def isCached (p : Pool) (t : Thread) (n : Nat) : Bool :=
  p.handles.any fun h => h.id.val = n ∧ h.cachedBy = some t ∧ h.state = .checkedIn

/-- Claims the handle that the thread gave back last of those still idle. The thread forgets what it
looks at. -/
def takeLocal (p : Pool) (t : Thread) : Option HandleId × Pool :=
  if p.config.threadAffinity then
    match (p.recents.list p.cacheOwner t).dropWhile fun n => !p.isCached t n with
    | n :: ns =>
      let p := { p with recents := p.recents.set p.cacheOwner t ns }
      (some ⟨n⟩, (p.transition ⟨n⟩ .checkedIn .checkedOut).2)
    | [] => (none, { p with recents := p.recents.set p.cacheOwner t [] })
  else (none, p)

def claim (p : Pool) (id : HandleId) : Bool × Pool :=
  (p.unqueue id).transition id .checkedIn .checkedOut

/-- Takes entries until one can be claimed; `fuel` bounds their number. -/
def takeQueued (p : Pool) (t : Thread) : Nat → Option HandleId × Pool
  | 0 => (none, p)
  | fuel + 1 =>
    match p.handoff.tryTake p.recents t with
    | (none, handoff, recents) => (none, { p with handoff := handoff, recents := recents })
    | (some id, handoff, recents) =>
      match ({ p with handoff := handoff, recents := recents } : Pool).claim id with
      | (true, p) => (some id, p)
      | (false, p) => takeQueued p t fuel

def takeShared (p : Pool) (t : Thread) : Option HandleId × Pool :=
  p.takeQueued t (p.handoff.size + 1)

def takeIdle (p : Pool) (t : Thread) : Option HandleId × Pool :=
  match p.takeLocal t with
  | (some id, p) => (some id, p)
  | (none, p) => p.takeShared t

def lend (p : Pool) (id : HandleId) (c : Connection) (enlisted : Bool) : Nat × Pool :=
  (p.nextLease,
    { p.modifyHandle id fun h => { h with slot := none } with
      leases := p.leases ++ [⟨p.nextLease, id, c, enlisted, p.clock⟩]
      nextLease := p.nextLease + 1 })

/-- Notes down who gets a claimed handle, and enlists it if a unit of work is active. -/
def assign (p : Pool) (t : Thread) (started : Nat) (id : HandleId) : Pool :=
  let p := p.modifyHandle id fun h => { h with owner := some ⟨t, p.clock⟩ }
  let p := p.count fun n => { n with acquired := n.acquired + 1 }
  let p := p.emit (.acquired p.name id (.ofNanos (p.clock - started)))
  let p := p.touch id
  { p with units := p.units.associate t id }

/-- Hands a claimed handle to the caller. A handle without a connection is ended instead. -/
def checkOut (t : Thread) (started : Nat) (id : HandleId) : PoolAct (Option Nat) := do
  match ((← .read).find? id).bind (·.slot) with
  | none =>
    .update (·.log .warn "Claimed handle has no connection" [("handle", .shown id.label)])
    retire id .invalidated
    return none
  | some c =>
    .update (·.assign t started id)
    return some (← .apply fun p => p.lend id c (p.units.current t = some id))

def search (t : Thread) (started : Nat) : Nat → PoolAct (Option Nat)
  | 0 => return none
  | fuel + 1 => do
    match ← .apply (·.takeIdle t) with
    | none => return none
    | some id =>
      match ← checkOut t started id with
      | some lease => return some lease
      | none => search t started fuel

def conclude (result : Except Failure Nat) : PoolAct Reply := do
  match result with
  | .ok n =>
    let p ← .read
    match p.lease? n with
    | some l => .update (·.notify (.afterAcquire (.ok l.handle)))
    | none => pure ()
    return .granted n
  | .error f =>
    .update (·.notify (.afterAcquire (.error f)))
    return .refused f

def leave (p : Pool) (id : Nat) : Pool :=
  { p with
    acquirers := p.acquirers.filter (·.taker.id ≠ id)
    handoff := p.handoff.withdraw id }

def timedOut (a : Acquirer) (p : Pool) : Failure × Pool :=
  let p := p.count fun n => { n with timeouts := n.timeouts + 1 }
  let waited := p.clock - a.started
  let p := p.emit (.acquireTimedOut p.name (.ofNanos waited))
  let f := Failure.acquireTimeout p.name (waited / 1000000) p.activeCount p.cap p.handoff.waiters
  (f, p.log .debug "Acquire timed out" [("error", .shown f.message)])

/-- Schedules a creation for the acquirer, unless one is in flight already or there is no room. -/
def grow (a : Acquirer) (p : Pool) : Acquirer × Pool :=
  match a.ticket with
  | some .inFlight => (a, p)
  | _ =>
    if p.hasRoom then ({ a with ticket := some .inFlight }, p.schedule (some a.taker.id))
    else ({ a with ticket := none }, p)

/-- Stays parked, or parks for the first time. -/
def park (a : Acquirer) (p : Pool) : Pool :=
  if p.acquirers.any (·.taker.id = a.taker.id) then
    { p with acquirers := p.acquirers.map fun b => if b.taker.id = a.taker.id then a else b }
  else
    let (x, handoff, recents) := p.handoff.take p.recents a.taker false
    let p := { p with handoff := handoff, recents := recents }
    match x with
    | .item id => { p with acquirers := p.acquirers ++ [{ a with waiting := .served id }] }
    | .closed => { p with acquirers := p.acquirers ++ [{ a with waiting := .dismissed }] }
    | .parked | .timedOut => { p with acquirers := p.acquirers ++ [a] }

/-- An acquirer that found nothing idle hears of its creation, then sees to it that one is under
way, and at last waits on if its deadline allows. -/
def linger (a : Acquirer) : PoolAct Reply := do
  match a.ticket with
  | some (.settled (some e)) =>
    .update (·.leave a.taker.id)
    let p ← .read
    conclude (.error (if p.closed then p.closedFailure else .creation p.name e))
  | _ =>
    let a ← .apply (grow a)
    let p ← .read
    if a.deadline ≤ p.clock then
      .update (·.leave a.taker.id)
      conclude (.error (← .apply (timedOut a)))
    else if p.handoff.isClosed then
      .update (·.leave a.taker.id)
      conclude (.error p.closedFailure)
    else
      .update (park a)
      return .waiting a.taker.id

def turn (a : Acquirer) : PoolAct Reply := do
  match ← search a.taker.thread a.started ((← .read).handles.length + 1) with
  | some lease =>
    .update (·.leave a.taker.id)
    conclude (.ok lease)
  | none => linger a

/-- Lends the handle enlisted in the caller's unit of work again. None without one; an enlistment
that is out of date is dropped. -/
def reuse (t : Thread) : PoolAct (Except Failure (Option Nat)) := do
  let p ← .read
  match p.units.current t with
  | none => return .ok none
  | some id =>
    match p.find? id with
    | some ⟨_, .checkedOut, some c, _, _, _, _⟩ =>
      .update (·.touch id)
      .update (·.log .debug "Reusing enlisted connection" [("handle", .shown id.label)])
      return .ok (some (← .apply (·.lend id c true)))
    | some ⟨_, .checkedOut, none, _, _, _, _⟩ => return .error (.handleBusy p.name id.val)
    | _ =>
      .update (·.disassociate id)
      return .ok none

def acquire (t : Thread) (deadline : Nat) : PoolAct Reply := do
  .update (·.notify .beforeAcquire)
  let p ← .read
  if p.closed then conclude (.error p.closedFailure)
  else match ← reuse t with
  | .error f => conclude (.error f)
  | .ok (some lease) => conclude (.ok lease)
  | .ok none =>
    let id ← .apply fun p => (p.nextTaker, { p with nextTaker := p.nextTaker + 1 })
    turn { taker := ⟨id, t⟩, started := p.clock, deadline := deadline }

def resume (id : Nat) : PoolAct Reply := do
  match (← .read).acquirers.find? (·.taker.id = id) with
  | none => return .waiting id
  | some a =>
    match a.waiting with
    | .parked => turn a
    | .dismissed =>
      .update (·.leave id)
      conclude (.error (← .read).closedFailure)
    | .served h =>
      .update (·.leave id)
      if ← .apply (·.claim h) then
        match ← checkOut a.taker.thread a.started h with
        | some lease => conclude (.ok lease)
        | none => turn { a with waiting := .parked }
      else turn { a with waiting := .parked }

/-- Whether going on would change anything for an acquirer. -/
def canGoOn (p : Pool) (a : Acquirer) : Bool :=
  match a.waiting with
  | .served _ | .dismissed => true
  | .parked =>
    decide (a.deadline ≤ p.clock) ||
    match a.ticket with
    | some .inFlight => false
    | some (.settled (some _)) => true
    | some (.settled none) | none => p.hasRoom

end ConnPool.Pool
