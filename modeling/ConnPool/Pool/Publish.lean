import ConnPool.Pool.Destroy

namespace ConnPool.Pool

/-- What the handoff did with an entry reaches the acquirer that it went to. -/
def deliver (p : Pool) (taker : Taker) (h : HandleId) : Pool :=
  { p with
    acquirers := p.acquirers.map fun a =>
      if a.taker.id = taker.id then { a with waiting := .served h } else a }

def offer (p : Pool) (t : Thread) (id : HandleId) : Bool × Pool :=
  let (o, handoff, recents) := p.handoff.put p.recents t id
  let p := { p with handoff := handoff, recents := recents }
  match o with
  | .rejected _ => (false, p)
  | .kept => (true, p)
  | .served taker h => (true, p.deliver taker h)

/-- Makes an idle handle available, unless an entry for it is queued already. -/
def publish (t : Thread) (id : HandleId) : PoolAct Unit := do
  let p ← .read
  if (p.find? id).all (·.queued) then return
  .update (·.modifyHandle id fun h => { h with queued := true })
  if ← .apply (·.offer t id) then return
  .update (·.unqueue id)
  if ← .apply (·.transition id .checkedIn .toDestroy) then
    destroyNow id .shutdown false

def attempt (p : Pool) (serial : Nat) : Pool := { p.note (.create serial) with attempts := serial }

def enroll (p : Pool) (c : Connection) : Pool :=
  { p with
    nextHandle := p.nextHandle + 1
    gauges := p.gauges.enter .new
    handles := p.handles ++
      [{ id := ⟨p.nextHandle⟩, state := .new, slot := some c, lastAccess := p.clock }]
    counters := { p.counters with created := p.counters.created + 1 } }

/-- A new handle becomes idle, or ends at once if the pool is closed. -/
def seat (id : HandleId) : PoolAct Unit := do
  if (← .read).closed then
    if ← .apply (·.transition id .new .toDestroy) then
      destroyNow id .shutdown false
  else if ← .apply (·.transition id .new .checkedIn) then
    .update (·.touch id)
    publish .background id

/-- A new connection gets its handle, which everyone hears of before it joins the pool. -/
def welcome (c : Connection) : PoolAct Unit := do
  let id : HandleId := ⟨(← .read).nextHandle⟩
  .update (·.enroll c)
  .update (·.log .debug "Connection created" [("handle", .shown id.label)])
  .update (·.notify (.afterCreate (.ok id)))
  .update fun p => p.emit (.created p.name id .zero)
  seat id

def forgo (p : Pool) : Pool :=
  { p with
    size := p.size.down
    counters := { p.counters with creationFailures := p.counters.creationFailures + 1 } }

/-- Makes a failure known, as a warning if no acquirer asked for the creation. -/
def lament (e : String) (acquirer : Option Nat) : PoolAct Unit := do
  .update forgo
  .update (·.log .warn "Failed to create connection" [("error", .shown e)])
  .update (·.notify (.afterCreate (.error e)))
  .update fun p => p.emit (.creationFailed p.name e)
  match acquirer with
  | some a => .update (·.tellAcquirer a (some e))
  | none => .update (·.notify (.onWarning ("background connection creation failed: " ++ e)))

def endCreation (p : Pool) : Pool :=
  { p with pending := p.pending.down, inFlight := p.inFlight.tail }

def create : PoolAct Unit := do
  match (← .read).inFlight with
  | [] => return
  | creation :: _ =>
    .update (·.notify .beforeCreate)
    let serial := (← .read).attempts + 1
    .update (·.attempt serial)
    match (← .read).factory.create serial with
    | .ok c =>
      welcome c
      .update fun p => (creation.acquirer.elim p (p.tellAcquirer · none)).endCreation
    | .error e =>
      lament e creation.acquirer
      .update endCreation

/-- One of the creations in flight is dropped before it began, which happens to those that still
wait for their turn when the pool's background ends. Its place is given back. -/
def abandon (p : Pool) (n : Nat) : Pool :=
  match p.closed, p.inFlight[n]? with
  | true, some creation =>
    let p := { p with
      size := p.size.down
      pending := p.pending.down
      inFlight := p.inFlight.eraseIdx n }
    creation.acquirer.elim p (p.tellAcquirer · (some p.closedFailure.message))
  | _, _ => p

end ConnPool.Pool
