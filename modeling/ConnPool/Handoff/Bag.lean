import ConnPool.Handoff.Basic

namespace ConnPool

/-- A free list that prefers what the calling thread itself put. Entries are numbered by the
sequence number of their put and stand in the order of their puts. -/
structure Bag (α : Type) where
  owner : Nat
  entries : List (Nat × α) := []
  sequence : Nat := 0
  parked : List Taker := []
  closed : Bool := false

namespace Bag

variable {α : Type}

def has (b : Bag α) (n : Nat) : Bool := b.entries.any (·.1 = n)

def claim (b : Bag α) (n : Nat) : Option α × Bag α :=
  ((b.entries.find? (·.1 = n)).map (·.2), { b with entries := b.entries.filter (·.1 ≠ n) })

/-- The newest entry that the thread remembers and that is still here, else the oldest of all. The
thread forgets what it looks at. -/
def tryTake (b : Bag α) (r : Recents) (t : Thread) : Option α × Bag α × Recents :=
  match (r.list b.owner t).dropWhile fun n => !b.has n with
  | n :: ns =>
    let (a, b') := b.claim n
    (a, b', r.set b.owner t ns)
  | [] =>
    match b.entries with
    | [] => (none, b, r.set b.owner t [])
    | (_, a) :: es => (some a, { b with entries := es }, r.set b.owner t [])

/-- The entry is remembered by the thread that puts it. The first that waits then looks again: the
put and his run are one step, in which no newcomer comes between. -/
def put (b : Bag α) (r : Recents) (t : Thread) (a : α) : Offer α × Bag α × Recents :=
  if b.closed then (.rejected a, b, r)
  else
    let b' := { b with entries := b.entries ++ [(b.sequence, a)], sequence := b.sequence + 1 }
    let r' := r.push b.owner t b.sequence
    match b.parked with
    | [] => (.kept, b', r')
    | w :: ws =>
      match b'.tryTake r' w.thread with
      | (some x, b'', r'') => (.served w x, { b'' with parked := ws }, r'')
      | (none, b'', r'') => (.kept, b'', r'')

def take (b : Bag α) (r : Recents) (t : Taker) (expired : Bool) : Taking α × Bag α × Recents :=
  match b.tryTake r t.thread with
  | (some x, b', r') => (.item x, b', r')
  | (none, b', r') =>
    if b.closed then (.closed, b', r')
    else if expired then (.timedOut, b', r')
    else (.parked, { b' with parked := b'.parked ++ [t] }, r')

def withdraw (b : Bag α) (id : Nat) : Bag α :=
  { b with parked := b.parked.filter (·.id ≠ id) }

def close (b : Bag α) : List α × List Taker × Bag α :=
  (b.entries.map (·.2), b.parked,
    { b with entries := [], parked := [], closed := true, sequence := b.sequence + 1 })

end Bag
end ConnPool
