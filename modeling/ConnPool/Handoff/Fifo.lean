import ConnPool.Handoff.Basic

namespace ConnPool

/-- One queue for all: items leave in the order in which they came. -/
structure Fifo (α : Type) where
  queue : List α := []
  parked : List Taker := []
  closed : Bool := false

namespace Fifo

variable {α : Type}

/-- Puts an item and, where somebody is parked, lets the one woken take at once: the two are one
step, in which no newcomer comes between. -/
def put (q : Fifo α) (a : α) : Offer α × Fifo α :=
  if q.closed then (.rejected a, q)
  else match q.parked, q.queue ++ [a] with
    | t :: ts, x :: xs => (.served t x, { q with queue := xs, parked := ts })
    | _, xs => (.kept, { q with queue := xs })

def tryTake (q : Fifo α) : Option α × Fifo α :=
  match q.queue with
  | [] => (none, q)
  | x :: xs => (some x, { q with queue := xs })

/-- `expired` says that the taker's deadline has passed. -/
def take (q : Fifo α) (t : Taker) (expired : Bool) : Taking α × Fifo α :=
  match q.queue with
  | x :: xs => (.item x, { q with queue := xs })
  | [] =>
    if q.closed then (.closed, q)
    else if expired then (.timedOut, q)
    else (.parked, { q with parked := q.parked ++ [t] })

def withdraw (q : Fifo α) (id : Nat) : Fifo α :=
  { q with parked := q.parked.filter (·.id ≠ id) }

def close (q : Fifo α) : List α × List Taker × Fifo α :=
  (q.queue, q.parked, { queue := [], parked := [], closed := true })

end Fifo
end ConnPool
