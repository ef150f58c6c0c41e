import ConnPool.Handoff.Basic

namespace ConnPool

/-- A taker's place in the waiting line. One that gave up is abandoned but keeps its place until
someone clears it away. -/
structure Registration where
  taker : Taker
  abandoned : Bool := false
  deriving DecidableEq

/-- Items go straight to the first that waits; only without one do they queue. -/
structure Rendezvous (α : Type) where
  shared : List α := []
  waiting : List Registration := []
  closed : Bool := false

namespace Rendezvous

variable {α : Type}

/-- Abandoned registrations that are put up with, beyond twice the parked takers. -/
def slack : Nat := 32

def parked (r : Rendezvous α) : List Taker :=
  (r.waiting.filter fun w => !w.abandoned).map (·.taker)

/-- Drops abandoned registrations on the way to the first parked taker, who has the item at once:
the put and his run are one step, in which no newcomer comes between. -/
def put (r : Rendezvous α) (a : α) : Offer α × Rendezvous α :=
  if r.closed then (.rejected a, r)
  else match r.waiting.dropWhile (·.abandoned) with
    | w :: ws => (.served w.taker a, { r with waiting := ws })
    | [] => (.kept, { r with waiting := [], shared := r.shared ++ [a] })

def tryTake (r : Rendezvous α) : Option α × Rendezvous α :=
  match r.shared with
  | [] => (none, r)
  | x :: xs => (some x, { r with shared := xs })

def prune (r : Rendezvous α) : Rendezvous α :=
  if r.waiting.length ≤ 2 * r.parked.length + slack then r
  else { r with waiting := r.waiting.filter fun w => !w.abandoned }

/-- A taker registers even when its deadline has passed, and is then abandoned at once. -/
def take (r : Rendezvous α) (t : Taker) (expired : Bool) : Taking α × Rendezvous α :=
  match r.shared with
  | x :: xs => (.item x, { r with shared := xs })
  | [] =>
    if r.closed then (.closed, r)
    else
      (if expired then .timedOut else .parked,
        { r.prune with waiting := r.prune.waiting ++ [⟨t, expired⟩] })

def withdraw (r : Rendezvous α) (id : Nat) : Rendezvous α :=
  { r with
    waiting := r.waiting.map fun w => if w.taker.id = id then { w with abandoned := true } else w }

def close (r : Rendezvous α) : List α × List Taker × Rendezvous α :=
  (r.shared, r.parked, { shared := [], waiting := [], closed := true })

end Rendezvous
end ConnPool
