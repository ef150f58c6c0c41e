import ConnPool.Handoff.Fifo
import ConnPool.Handoff.Rendezvous
import ConnPool.Handoff.Bag
import ConnPool.Text.Quoted

namespace ConnPool

/-- A container that works by any of the strategies. -/
inductive Handoff (α : Type) where
  | fifo (q : Fifo α)
  | rendezvous (r : Rendezvous α)
  | bag (b : Bag α)

namespace Handoff

variable {α : Type}

/-- An empty container. `owner` is its number among those that keep lists for each thread. -/
def new (s : Strategy) (owner : Nat) : Handoff α :=
  match s with
  | .fifo => .fifo {}
  | .rendezvous => .rendezvous {}
  | .bag => .bag { owner := owner }

def strategy : Handoff α → Strategy
  | .fifo _ => .fifo
  | .rendezvous _ => .rendezvous
  | .bag _ => .bag

/-- What is queued, oldest first. -/
def toList : Handoff α → List α
  | .fifo q => q.queue
  | .rendezvous r => r.shared
  | .bag b => b.entries.map (·.2)

def size (h : Handoff α) : Nat := h.toList.length

/-- Who waits, longest first. -/
def parked : Handoff α → List Taker
  | .fifo q => q.parked
  | .rendezvous r => r.parked
  | .bag b => b.parked

def waiters (h : Handoff α) : Nat := h.parked.length

def isClosed : Handoff α → Bool
  | .fifo q => q.closed
  | .rendezvous r => r.closed
  | .bag b => b.closed

/-- One step with the run of the taker that it wakes, if any: no newcomer comes between. -/
def put (h : Handoff α) (rs : Recents) (t : Thread) (a : α) : Offer α × Handoff α × Recents :=
  match h with
  | .fifo q => let (o, q) := q.put a; (o, .fifo q, rs)
  | .rendezvous r => let (o, r) := r.put a; (o, .rendezvous r, rs)
  | .bag b => let (o, b, rs) := b.put rs t a; (o, .bag b, rs)

def tryTake (h : Handoff α) (rs : Recents) (t : Thread) : Option α × Handoff α × Recents :=
  match h with
  | .fifo q => let (x, q) := q.tryTake; (x, .fifo q, rs)
  | .rendezvous r => let (x, r) := r.tryTake; (x, .rendezvous r, rs)
  | .bag b => let (x, b, rs) := b.tryTake rs t; (x, .bag b, rs)

def take (h : Handoff α) (rs : Recents) (t : Taker) (expired : Bool) :
    Taking α × Handoff α × Recents :=
  match h with
  | .fifo q => let (x, q) := q.take t expired; (x, .fifo q, rs)
  | .rendezvous r => let (x, r) := r.take t expired; (x, .rendezvous r, rs)
  | .bag b => let (x, b, rs) := b.take rs t expired; (x, .bag b, rs)

def withdraw (h : Handoff α) (id : Nat) : Handoff α :=
  match h with
  | .fifo q => .fifo (q.withdraw id)
  | .rendezvous r => .rendezvous (r.withdraw id)
  | .bag b => .bag (b.withdraw id)

def close (h : Handoff α) : List α × List Taker × Handoff α :=
  match h with
  | .fifo q => let (xs, ts, q) := q.close; (xs, ts, .fifo q)
  | .rendezvous r => let (xs, ts, r) := r.close; (xs, ts, .rendezvous r)
  | .bag b => let (xs, ts, b) := b.close; (xs, ts, .bag b)

/-- One line that shows the container. -/
def text (h : Handoff α) : String :=
  match h with
  | .fifo q =>
    Text.record "FifoQueue" [("len", toString h.size), ("closed", toString q.closed),
      ("waiters", toString h.waiters)]
  | .rendezvous r =>
    Text.record "Rendezvous" [("len", toString h.size), ("waiters", toString h.waiters),
      ("closed", toString r.closed)]
  | .bag b =>
    Text.record "Bag" [("available", toString h.size), ("waiters", toString h.waiters),
      ("sequence", toString b.sequence)]

/-- One line that shows the strategy alone. -/
def strategyText (h : Handoff α) : String :=
  "AnyHandoff(" ++ Text.quoted h.strategy.title ++ ")"

end Handoff
end ConnPool
