import ConnPool.Event
import ConnPool.Text.Quoted

namespace ConnPool

/-- Carries events from one pool to its subscribers. A subscriber is a place in the sequence of all
events sent: the number of those it has received, lost or never been meant to see. -/
structure Bus where
  capacity : Nat
  sent : Array Event
  isOpen : Bool
  cursors : List (String × Nat)

/-- What a subscriber gets when it looks for the next event. -/
inductive Received where
  | event (e : Event)
  | empty
  | closed
  | lagged (lost : Nat)
  deriving DecidableEq

namespace Bus

/-- The least power of two that is not below `n`. -/
def roundUp (n : Nat) : Nat := if n ≤ 1 then 1 else 1 <<< ((n - 1).log2 + 1)

theorem le_roundUp (n : Nat) : n ≤ roundUp n := by
  unfold roundUp
  split
  · assumption
  · have : n - 1 < 2 ^ ((n - 1).log2 + 1) := Nat.lt_log2_self
    rw [Nat.one_shiftLeft]
    omega

/-- Bytes that one kept event takes. -/
def slotBytes : Nat := 80

/-- A bus that keeps at least `buffer` events and at least one. None if the slots would not fit the
address space. -/
def open? (buffer : Nat) : Option Bus :=
  if roundUp buffer * slotBytes < UInt64.size / 2 then
    some ⟨roundUp buffer, #[], true, []⟩
  else none

/-- A bus that never opened. -/
def shut : Bus := ⟨1, #[], false, []⟩

def hasSubscribers (b : Bus) : Bool := !b.cursors.isEmpty

/-- A subscriber sees what is sent from now on. -/
def subscribe (b : Bus) (name : String) : Bus :=
  { b with cursors := (name, b.sent.size) :: b.cursors.filter (·.1 ≠ name) }

def isSubscribed (b : Bus) (name : String) : Bool := b.cursors.any (·.1 = name)

def unsubscribe (b : Bus) (name : String) : Bus :=
  { b with cursors := b.cursors.filter (·.1 ≠ name) }

/-- Without subscribers an event goes nowhere. -/
def emit (b : Bus) (e : Event) : Bus :=
  if b.hasSubscribers then { b with sent := b.sent.push e } else b

/-- Nothing more is sent. -/
def close (b : Bus) : Bus := { b with isOpen := false }

def moveCursor (name : String) (place : Nat) : List (String × Nat) → List (String × Nat)
  | [] => []
  | (n, p) :: cs => if n = name then (n, place) :: cs else (n, p) :: moveCursor name place cs

/-- The next event for a subscriber. One that is further behind than the bus keeps events is first
told how many it lost, and goes on with the oldest that is kept. None if there is no such
subscriber. -/
def receive? (b : Bus) (name : String) : Option (Received × Bus) :=
  (b.cursors.find? (·.1 = name)).map fun (_, place) =>
    if b.sent.size - place > b.capacity then
      (.lagged (b.sent.size - b.capacity - place),
        { b with cursors := moveCursor name (b.sent.size - b.capacity) b.cursors })
    else match b.sent[place]? with
      | some e => (.event e, { b with cursors := moveCursor name (place + 1) b.cursors })
      | none => (if b.isOpen then .empty else .closed, b)

/-- Receives until nothing is left; `fuel` bounds the number of answers. -/
def drainFuel (b : Bus) (name : String) : Nat → List Received × Bus
  | 0 => ([], b)
  | fuel + 1 =>
    match b.receive? name with
    | none => ([], b)
    | some (.empty, b) => ([.empty], b)
    | some (.closed, b) => ([.closed], b)
    | some (r, b) =>
      let (rs, b) := drainFuel b name fuel
      (r :: rs, b)

/-- All that a subscriber can get now, up to the answer that there is no more. Every answer before
that one moves the cursor, but for one lag that may come first. -/
def drain (b : Bus) (name : String) : List Received × Bus := drainFuel b name (b.sent.size + 2)

def text (b : Bus) : String :=
  Text.record "EventBus" [("subscriber_count", toString b.cursors.length)]

end Bus
end ConnPool
