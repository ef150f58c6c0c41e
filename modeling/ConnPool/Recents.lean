import ConnPool.Thread

namespace ConnPool

/-- What each thread lately gave back, one short list for each owner, newest first. The lists of a
thread lie side by side, and those of dead owners are swept out now and then. -/
structure Recents where
  threads : List (Thread × List (Nat × List Nat)) := []
  dead : List Nat := []

namespace Recents

/-- Entries that a list remembers. -/
def limit : Nat := 16

/-- Owners beside one another on a thread before dead ones are swept out. -/
def sweepAbove : Nat := 8

def owners (r : Recents) (t : Thread) : List (Nat × List Nat) :=
  ((r.threads.find? (·.1 = t)).map (·.2)).getD []

def list (r : Recents) (owner : Nat) (t : Thread) : List Nat :=
  (((r.owners t).find? (·.1 = owner)).map (·.2)).getD []

/-- The lists of one thread without those of dead owners, once there are many. -/
def swept (r : Recents) (t : Thread) : List (Nat × List Nat) :=
  if (r.owners t).length > sweepAbove then (r.owners t).filter fun e => !r.dead.contains e.1
  else r.owners t

def set (r : Recents) (owner : Nat) (t : Thread) (xs : List Nat) : Recents :=
  { r with
    threads := (t, (owner, xs) :: (r.swept t).filter (·.1 ≠ owner)) ::
      r.threads.filter (·.1 ≠ t) }

theorem list_set_self (r : Recents) (owner : Nat) (t : Thread) (xs : List Nat) :
    (r.set owner t xs).list owner t = xs := by
  simp [list, owners, set]

/-- A full list forgets its oldest entry. -/
def push (r : Recents) (owner : Nat) (t : Thread) (x : Nat) : Recents :=
  r.set owner t ((x :: r.list owner t).take limit)

/-- The owner is gone for good. -/
def retire (r : Recents) (owner : Nat) : Recents := { r with dead := owner :: r.dead }

end Recents
end ConnPool
