import ConnPool.Pool.Basic

namespace ConnPool.Pool

/-- Reserves a place and leaves the creation for the background. -/
def schedule (acquirer : Option Nat) (p : Pool) : Pool :=
  { p with size := p.size.up, pending := p.pending.up, inFlight := p.inFlight ++ [⟨acquirer⟩] }

/-- Schedules creations until the pool has `target` connections, or as many as it may have. A closed
pool schedules none. -/
def fillTo (p : Pool) (target : Nat) : Pool :=
  if p.closed then p else (min target p.cap - p.size.count).repeat (schedule none) p

def topUp (p : Pool) : Pool := p.fillTo p.floor

def hasRoom (p : Pool) : Bool := !p.closed && decide (p.size.count < p.cap)

/-- The creation's result goes to the acquirer that asked for it, if that one still waits. -/
def tellAcquirer (p : Pool) (acquirer : Nat) (error : Option String) : Pool :=
  { p with
    acquirers := p.acquirers.map fun a =>
      if a.taker.id = acquirer ∧ a.ticket = some .inFlight then
        { a with ticket := some (.settled error) }
      else a }

end ConnPool.Pool
