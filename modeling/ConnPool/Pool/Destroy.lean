import ConnPool.Pool.Sizing

namespace ConnPool.Pool

def surrender (p : Pool) (c : Connection) : Pool :=
  { (if p.factory.isPlain then p else p.note (.close c)) with closures := c :: p.closures }

/-- Has the factory close a connection; answers with its error, if there is one. -/
def closeConnection (c : Connection) : PoolAct (Option String) := do
  .update (·.surrender c)
  if !(← .read).factory.isPlain then .mark (.close c.serial)
  return (← .read).factory.close c

def logCloseError (p : Pool) (id : HandleId) : Option String → Pool
  | some e =>
    p.log .warn "Failed to close connection" [("handle", .shown id.label), ("error", .shown e)]
  | none => p

def emptySlot (p : Pool) (id : HandleId) : Pool :=
  p.modifyHandle id fun h => { h with slot := none }

def closeSlot (id : HandleId) : PoolAct Unit := do
  match ((← .read).find? id).bind (·.slot) with
  | some c =>
    .update (·.emptySlot id)
    let error ← closeConnection c
    .update (·.logCloseError id error)
    .update (·.notify (.onClose id error))
  | none => return

/-- Takes a handle out of the collection. `reserved` says that its place in the size was given back
before. Its mark stays on it for as long as its entry is queued. -/
def strike (p : Pool) (id : HandleId) (reserved : Bool) : Pool :=
  let p := (p.transition id .toDestroy .destroyed).2
  { p with
    handles := p.handles.filter (·.id ≠ id)
    strays := if (p.find? id).any (·.queued) then id :: p.strays else p.strays
    size := if reserved then p.size else p.size.down
    counters := { p.counters with destroyed := p.counters.destroyed + 1 } }

/-- Ends a handle that its caller has moved to `toDestroy`. -/
def destroyNow (id : HandleId) (reason : DestroyReason) (reserved : Bool) : PoolAct Unit := do
  closeSlot id
  .update (·.strike id reserved)
  .update (·.log .debug "Connection destroyed"
    [("handle", .shown id.label), ("reason", .shown reason.label)])
  .update fun p => p.emit (.destroyed p.name id reason)

def destroy (id : HandleId) (reason : DestroyReason) : PoolAct Unit := do
  destroyNow id reason false
  .update topUp

def retire (id : HandleId) (reason : DestroyReason) : PoolAct Unit := do
  .update fun p => (p.disassociate id).clearOwner id
  if ← .apply (·.transition id .checkedOut .toDestroy) then
    destroy id reason

end ConnPool.Pool
