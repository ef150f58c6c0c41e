import ConnPool.Recents
import ConnPool.Handoff.Strategy

namespace ConnPool

structure Taker where
  id : Nat
  thread : Thread
  deriving DecidableEq

/-- What becomes of an item that is put: handed back, kept, or handed to one that waits. -/
inductive Offer (α : Type) where
  | rejected (item : α)
  | kept
  | served (taker : Taker) (item : α)
  deriving DecidableEq

/-- What a take comes to at once. A parked taker is answered later. -/
inductive Taking (α : Type) where
  | item (a : α)
  | timedOut
  | closed
  | parked
  deriving DecidableEq

inductive Take (α : Type) where
  | item (a : α)
  | timedOut
  | closed
  deriving DecidableEq

def Take.item? {α : Type} : Take α → Option α
  | item a => some a
  | _ => none

end ConnPool
