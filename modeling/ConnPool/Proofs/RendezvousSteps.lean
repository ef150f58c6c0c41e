import Mathlib.Logic.Function.Basic
import ConnPool.Handoff

namespace ConnPool
namespace Rendezvous

/-- Where a producer leaves a taker its item. -/
structure Slot (α : Type) where
  item : Option α := none
  abandoned : Bool := false
  marked : Bool := false

namespace Slot

variable {α : Type}

/-- An item that comes now is accepted. -/
def vacant (s : Slot α) : Bool := s.item.isNone && !s.abandoned && !s.marked

/-- The taker stops listening, and collects what has come. -/
def vacate (s : Slot α) : Slot α := { s with item := none, abandoned := true }

def fill (a : α) (s : Slot α) : Slot α := { s with item := some a }

def shut (s : Slot α) : Slot α := { s with marked := true }

theorem vacant_iff {s : Slot α} :
    s.vacant = true ↔ s.item = none ∧ s.abandoned = false ∧ s.marked = false := by
  simp [vacant, and_assoc]

@[simp] theorem vacant_vacate (s : Slot α) : s.vacate.vacant = false := by
  simp [vacant, vacate]

@[simp] theorem vacant_fill (a : α) (s : Slot α) : (s.fill a).vacant = false := rfl

@[simp] theorem vacant_shut (s : Slot α) : s.shut.vacant = false := by
  simp [vacant, shut]

end Slot

/-- What a call comes to. -/
inductive Outcome (α : Type) where
  | stored
  | rejected (a : α)
  | took (t : Take α)
  | tried (o : Option α)
  | drained (as : List α)

/-- What a call does next, and what it has in hand. A taker that takes an item from the queue and is
given another puts that one as a producer does, and keeps the first. -/
inductive Phase (α : Type) where
  | knock (a : α) (kept : Option α)
  | check (a : α) (kept : Option α)
  | look (a : α) (kept : Option α)
  | deliver (w : Nat) (a : α) (kept : Option α)
  | push (a : α) (kept : Option α)
  | first
  | second
  | measure
  | weigh (registered : Nat)
  | sift (n : Nat)
  | judge (n w : Nat)
  | putBack (n w : Nat)
  | enroll
  | register
  | last
  | quit (x : α)
  | ask
  | resign
  | park
  | asleep
  | leave (t : Take α)
  | shut
  | mark
  | rouse
  | notify (w : Nat)
  | drain (as : List α)
  | glance
  | done (o : Outcome α)

namespace Phase

variable {α : Type}

/-- A put is over, and with it the call, unless a taker did it. -/
def afterPut : Option α → Phase α
  | none => done .stored
  | some x => leave (.item x)

/-- The call holds the gate for reading. -/
def reads : Phase α → Bool
  | check _ _ | look _ _ | deliver _ _ _ | push _ _ => true
  | _ => false

/-- The call holds the gate for writing. -/
def writes : Phase α → Bool
  | mark | rouse | notify _ | drain _ => true
  | _ => false

/-- The call has an item on its way to the queue. -/
def pushes : Phase α → Bool
  | push _ _ => true
  | _ => false

/-- The call has an item for this taker. -/
def hands (w : Nat) : Phase α → Bool
  | deliver v _ _ => v = w
  | _ => false

/-- The call clears the line and has this taker's registration in hand. -/
def sifts (w : Nat) : Phase α → Bool
  | judge _ v | putBack _ v => v = w
  | _ => false

/-- The call is about to tell this taker of the close. -/
def tells (w : Nat) : Phase α → Bool
  | notify v => v = w
  | _ => false

/-- The call has taken this taker's registration out of the line. -/
def holds (w : Nat) : Phase α → Bool
  | deliver v _ _ | judge _ v | putBack _ v | notify v => v = w
  | _ => false

/-- The call tells the takers of the close. -/
def rouses : Phase α → Bool
  | rouse | notify _ => true
  | _ => false

/-- A taker that has not registered yet. -/
def early : Phase α → Bool
  | first | second | measure | weigh _ | sift _ | judge _ _ | putBack _ _ | enroll | register =>
    true
  | _ => false

/-- A taker that has registered and has not turned away. -/
def listens : Phase α → Bool
  | last | quit _ | ask | resign | park | asleep => true
  | _ => false

/-- A taker that has found the queue empty for the last time, and the rendezvous open. -/
def stays : Phase α → Bool
  | park | asleep => true
  | _ => false

/-- A taker that has registered, and may still look at the queue or hear of a close by itself. -/
def nears : Phase α → Bool
  | last | ask => true
  | _ => false

/-- A taker that does not look at the queue any more. -/
def settling : Phase α → Bool
  | ask | park | asleep => true
  | _ => false

def sleeps : Phase α → Bool
  | asleep => true
  | _ => false

/-- A taker that is counted as waiting. -/
def enrolled : Phase α → Bool
  | knock _ k | check _ k | look _ k | deliver _ _ k | push _ k => k.isSome
  | register | last | quit _ | ask | resign | park | asleep | leave _ => true
  | _ => false

/-- A phase is no more than the one before it: it has no gate that the other has not, and its taker
is as far from its registration or listens as before. -/
def covers (ph ph' : Phase α) : Bool :=
  (ph.writes || !ph'.writes) && (ph.reads || !ph'.reads) && (ph.early || !ph'.early) &&
    (ph.listens == ph'.listens)

/-- A phase after which nobody has less reason to be served than after the one before it. -/
def eases (ph ph' : Phase α) : Bool :=
  (ph.stays || !ph'.stays) && (ph.nears || !ph'.nears) && (ph.settling || !ph'.settling) &&
    (ph.pushes || !ph'.pushes) && (ph'.rouses || !ph.rouses)

/-- The call is over, or sleeps. -/
def settled : Phase α → Bool
  | asleep | done _ => true
  | _ => false

end Phase

/-- A rendezvous with calls in the middle of their work. A taker is known by the number of its
call. -/
structure Crowd (α : Type) where
  shared : List α := []
  waiting : List Nat := []
  slots : Nat → Slot α := fun _ => {}
  waiters : Nat := 0
  closed : Bool := false
  phases : List (Phase α) := []

namespace Crowd

/-- A call comes in, a call does its next step, or a sleeping taker's deadline passes. -/
inductive Move (α : Type) where
  | put (a : α)
  | take
  | tryTake
  | close
  | go (i : Nat)
  | expire (i : Nat)

variable {α : Type}

/-- Calls in a phase of some kind. -/
def count (c : Crowd α) (p : Phase α → Bool) : Nat := c.phases.countP p

def move (c : Crowd α) (i : Nat) (ph : Phase α) : Crowd α := { c with phases := c.phases.set i ph }

def amend (c : Crowd α) (w : Nat) (f : Slot α → Slot α) : Crowd α :=
  { c with slots := Function.update c.slots w (f (c.slots w)) }

/-- A taker turns away with what it was given, or else as stated. -/
def depart (c : Crowd α) (i : Nat) (otherwise : Take α) : Crowd α :=
  (c.amend i .vacate).move i (.leave (((c.slots i).item.map .item).getD otherwise))

/-- A taker looks into its slot before it sleeps on. -/
def rest (c : Crowd α) (i : Nat) : Crowd α :=
  if (c.slots i).item.isSome then c.depart i .closed
  else if (c.slots i).marked then c.move i (.leave .closed)
  else c.move i .asleep

/-- The next step of a call. One that waits for the gate does nothing. -/
def next (c : Crowd α) (i : Nat) : Phase α → Crowd α
  | .knock a k => if c.count (·.writes) = 0 then c.move i (.check a k) else c
  | .check a k =>
    if c.closed then c.move i (if k.isSome then .push a k else .done (.rejected a))
    else c.move i (.look a k)
  | .look a k =>
    match c.waiting with
    | [] => c.move i (.push a k)
    | w :: ws => { c with waiting := ws }.move i (.deliver w a k)
  | .deliver w a k =>
    if (c.slots w).vacant then (c.amend w (.fill a)).move i (.afterPut k)
    else c.move i (.look a k)
  | .push a k => { c with shared := c.shared ++ [a] }.move i (.afterPut k)
  | .first =>
    match c.shared with
    | [] => c.move i .second
    | x :: xs => { c with shared := xs }.move i (.done (.took (.item x)))
  | .second => c.move i (if c.closed then .done (.took .closed) else .measure)
  | .measure => c.move i (.weigh c.waiting.length)
  | .weigh n => c.move i (if n ≤ 2 * c.waiters + slack then .enroll else .sift n)
  | .sift 0 => c.move i .enroll
  | .sift (n + 1) =>
    match c.waiting with
    | [] => c.move i .enroll
    | w :: ws => { c with waiting := ws }.move i (.judge n w)
  | .judge n w => c.move i (if (c.slots w).abandoned then .sift n else .putBack n w)
  | .putBack n w => { c with waiting := c.waiting ++ [w] }.move i (.sift n)
  | .enroll => { c with waiters := c.waiters + 1 }.move i .register
  | .register => { c with waiting := c.waiting ++ [i] }.move i .last
  | .last =>
    match c.shared with
    | [] => c.move i .ask
    | x :: xs => { c with shared := xs }.move i (.quit x)
  | .quit x =>
    match (c.slots i).item with
    | none => (c.amend i .vacate).move i (.leave (.item x))
    | some d => (c.amend i .vacate).move i (.knock d (some x))
  | .ask => c.move i (if c.closed then .resign else .park)
  | .resign => c.depart i .closed
  | .park => c.rest i
  | .asleep => c.rest i
  | .leave t => { c with waiters := c.waiters - 1 }.move i (.done (.took t))
  | .shut => if c.count (·.reads) = 0 ∧ c.count (·.writes) = 0 then c.move i .mark else c
  | .mark => { c with closed := true }.move i .rouse
  | .rouse =>
    match c.waiting with
    | [] => c.move i (.drain [])
    | w :: ws => { c with waiting := ws }.move i (.notify w)
  | .notify w => (c.amend w .shut).move i .rouse
  | .drain as =>
    match c.shared with
    | [] => c.move i (.done (.drained as))
    | x :: xs => { c with shared := xs }.move i (.drain (as ++ [x]))
  | .glance =>
    match c.shared with
    | [] => c.move i (.done (.tried none))
    | x :: xs => { c with shared := xs }.move i (.done (.tried (some x)))
  | .done _ => c

def begin (c : Crowd α) (ph : Phase α) : Crowd α := { c with phases := c.phases ++ [ph] }

def step (c : Crowd α) : Move α → Crowd α
  | .put a => c.begin (.knock a none)
  | .take => c.begin .first
  | .tryTake => c.begin .glance
  | .close => c.begin .shut
  | .go i =>
    match c.phases[i]? with
    | some ph => c.next i ph
    | none => c
  | .expire i =>
    match c.phases[i]? with
    | some .asleep => c.depart i (if (c.slots i).marked then .closed else .timedOut)
    | _ => c

def run (c : Crowd α) (ms : List (Move α)) : Crowd α := ms.foldl step c

/-- The rendezvous as it is between two operations. -/
def view (c : Crowd α) : Rendezvous α :=
  ⟨c.shared, c.waiting.map fun w => ⟨⟨w, .background⟩, (c.slots w).abandoned⟩, c.closed⟩

/-- Nobody is in the middle of a call. -/
def Quiet (c : Crowd α) : Prop := ∀ ph ∈ c.phases, ph.settled = true

/-- A taker sleeps that has been given nothing, and has not been told of a close. -/
def Forlorn (c : Crowd α) (w : Nat) : Prop :=
  c.phases[w]?.any (·.sleeps) = true ∧ (c.slots w).item = none ∧ (c.slots w).marked = false

end Crowd
end Rendezvous
end ConnPool
