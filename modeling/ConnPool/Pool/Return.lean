import ConnPool.Pool.Publish

namespace ConnPool.Pool

/-- The thread remembers a handle that it gave back, and no other thread may take it from its own
list any more. -/
def cacheLocally (p : Pool) (t : Thread) (id : HandleId) : Pool :=
  if p.config.threadAffinity then
    { p.modifyHandle id fun h => { h with cachedBy := some t } with
      recents := p.recents.push p.cacheOwner t id.val }
  else p

/-- Where a returned handle goes: back in, or out when the pool is closed. -/
def returnState (p : Pool) : State := if p.closed then .toDestroy else .checkedIn

def finishReturn (t : Thread) (id : HandleId) (target : State) (since : Nat) : PoolAct Unit := do
  if target = .toDestroy then destroyNow id .shutdown false
  else
    let p ← .read
    .update (·.count fun n => { n with returned := n.returned + 1 })
    .update (·.notify (.afterReturn id))
    .update (·.emit (.returned p.name id (.ofNanos (p.clock - since))))
    .update (·.cacheLocally t id)
    publish t id

/-- Returns a checked-out handle. Nothing happens to one in another state. -/
def giveBack (t : Thread) (id : HandleId) (since : Nat) : PoolAct Unit := do
  if (← .read).stateOf? id = some .checkedOut then
    .update fun p => (p.clearOwner id).touch id
    let target := (← .read).returnState
    if ← .apply (·.transition id .checkedOut target) then
      finishReturn t id target since

def endLease (p : Pool) (number : Nat) : Option Lease × Pool :=
  (p.lease? number, { p with leases := p.leases.filter (·.number ≠ number) })

def restore (p : Pool) (id : HandleId) (c : Connection) : Pool :=
  p.modifyHandle id fun h => { h with slot := some c }

/-- Ends a lease and returns its handle, unless a unit of work holds on to it. -/
def release (t : Thread) (number : Nat) : PoolAct Unit := do
  match ← .apply (·.endLease number) with
  | none => pure ()
  | some l =>
    .update (·.restore l.handle l.connection)
    if !l.enlisted then giveBack t l.handle l.since

def invalidate (number : Nat) : PoolAct Unit := do
  match ← .apply (·.endLease number) with
  | none => pure ()
  | some l =>
    .update (·.restore l.handle l.connection)
    .update (·.log .debug "Connection invalidated" [("handle", .shown l.handle.label)])
    retire l.handle .invalidated

def detach (number : Nat) : PoolAct (Option Connection) := do
  match ← .apply (·.endLease number) with
  | none => return none
  | some l =>
    .update fun p => { p with detached := l.connection :: p.detached }
    .update (·.log .debug "Connection detached" [("handle", .shown l.handle.label)])
    retire l.handle .detached
    return some l.connection

/-- Returns a handle that a finished unit of work held. False if it is unknown, not checked out, or
its connection is out on loan. -/
def releaseEnlisted (t : Thread) (id : HandleId) : PoolAct Bool := do
  match (← .read).find? id with
  | some ⟨_, .checkedOut, some _, _, owner, _, _⟩ =>
    let p ← .read
    let since := (owner.map (·.since)).getD p.clock
    let target := p.returnState
    .update fun p => ((p.disassociate id).clearOwner id).touch id
    if ← .apply (·.transition id .checkedOut target) then
      finishReturn t id target since
      return true
    else return false
  | some ⟨_, .checkedOut, none, _, _, _, _⟩ => return false
  | _ =>
    .update (·.disassociate id)
    return false

def write (p : Pool) (number : Nat) (text : String) : Pool :=
  { p with
    leases := p.leases.map fun l =>
      if l.number = number then
        { l with connection := { l.connection with text := l.connection.text ++ text } }
      else l }

end ConnPool.Pool
