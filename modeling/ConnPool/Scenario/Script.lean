import ConnPool.Pool.Acquire
import ConnPool.Pool.Lifetime
import ConnPool.Pool.Return

namespace ConnPool.Scenario

/-- A factory written down: outcomes for the first creations and one for all later ones, and the
numbers of the connections that fail in other calls. -/
structure FactoryScript where
  create : List Creating := []
  otherwise : Creating := .works
  invalid : List Nat := []
  invalidPanic : List Nat := []
  closeError : List Nat := []
  closePanic : List Nat := []
  isPlain : Bool := false

def FactoryScript.factory (s : FactoryScript) : Factory where
  creating n := (s.create[n - 1]?).getD s.otherwise
  probing n :=
    if s.invalidPanic.contains n then .panics
    else if s.invalid.contains n then .invalid
    else .valid
  closing n :=
    if s.closePanic.contains n then .panics
    else if s.closeError.contains n then .fails
    else .works
  isPlain := s.isPlain

/-- The parts of a factory that a step replaces. -/
structure FactoryChange where
  create : Option (List Creating) := none
  otherwise : Option Creating := none
  invalid : Option (List Nat) := none
  invalidPanic : Option (List Nat) := none
  closeError : Option (List Nat) := none
  closePanic : Option (List Nat) := none

def FactoryScript.change (s : FactoryScript) (c : FactoryChange) : FactoryScript where
  create := c.create.getD s.create
  otherwise := c.otherwise.getD s.otherwise
  invalid := c.invalid.getD s.invalid
  invalidPanic := c.invalidPanic.getD s.invalidPanic
  closeError := c.closeError.getD s.closeError
  closePanic := c.closePanic.getD s.closePanic
  isPlain := s.isPlain

/-- How long an acquire may wait: as long as the pool says, for a time, or until a moment some
nanoseconds from now, which may have passed. -/
inductive Patience where
  | usual
  | upTo (d : Duration)
  | until (offset : Int)

/-- What a thread does. Leases and subscribers have names. -/
inductive Deed where
  | acquire (lease : String) (patience : Patience)
  | release (lease : String)
  | releaseUnwinding (lease : String)
  | invalidate (lease : String)
  | detach (lease : String)
  | write (lease : String) (text : String)
  | inspect (lease : String)
  | describeLease (lease : String)
  | setFloor (n : Nat)
  | setPatience (d : Duration)
  | survey
  | waitForPrefill (d : Duration)
  | sweep (s : Sweep)
  | close
  | disown
  | releaseEnlisted (h : HandleId)
  | subscribe (name : String)
  | unsubscribe (name : String)
  | receive (name : String)
  | drain (name : String)
  | addListener (l : Listener)
  | describe
  | changeFactory (c : FactoryChange)
  | startUnit
  | finishUnit
  | associate (h : HandleId)
  | disassociate (h : HandleId)
  | setShared (h : Option HandleId)
  | lookAtUnits
  | unknown

def Deed.needsPool : Deed → Bool
  | acquire .. | setFloor _ | setPatience _ | survey | waitForPrefill _ | sweep _ | close | disown
  | releaseEnlisted _ | subscribe _ | addListener _ | describe | unknown => true
  | _ => false

inductive Bound where
  | exactly (n : Nat)
  | atLeast (n : Nat)

def Bound.holds : Bound → Nat → Bool
  | exactly n, m => m == n
  | atLeast n, m => decide (n ≤ m)

inductive Step where
  | deed (t : String) (d : Deed)
  | spawn (t : String) (d : Deed)
  | join (ts : List String)
  | gate (isOpen : Bool)
  | grant (n : Nat)
  | await (t : String) (field : String) (b : Bound)
  | sleep (t : String) (ms : Nat)
  | hold (t : String) (c : Call)
  | unhold (t : String) (c : Call)

structure LeaseView where
  handle : HandleId
  enlisted : Bool
  text : String
  owner : Option Thread

structure Survey where
  name : String
  strategy : Strategy
  active : Nat
  available : Nat
  maxUsed : Nat
  size : Nat
  min : Nat
  max : Nat
  closed : Bool
  timeout : Duration
  attempts : Nat

inductive Outcome where
  | built
  | done
  | failure (f : Failure)
  | lent (l : LeaseView)
  | lease (l : LeaseView)
  | leaseTaken
  | noLease
  | detached (text : String)
  | text (s : String)
  | flag (b : Bool)
  | number (n : Nat)
  | timeout (d : Duration)
  | survey (s : Survey)
  | disowned
  | handle (h : Option HandleId)
  | units (active : Bool) (current shared : Option HandleId)
  | received (r : Received)
  | drained (rs : List Received)
  | noSubscriber
  | spawned
  | joined (os : List Outcome)
  | notSpawned
  | busy
  | noPool
  | unknown

end ConnPool.Scenario
