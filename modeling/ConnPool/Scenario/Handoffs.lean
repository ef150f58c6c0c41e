import ConnPool.Handoff

namespace ConnPool.Scenario.Handoffs

variable {α : Type}

/-- One thing that a thread does to one container. A wait is a number of milliseconds from now, and
lies in the past when negative. A new container has no strategy if the one asked for is unknown. -/
inductive Deed (α : Type) where
  | new (strategy : Option Strategy)
  | drop
  | put (item : α)
  | putAll (items : List α)
  | tryTake
  | tryTakes (n : Nat)
  | take (wait : Option Int)
  | takeApart (wait : Option Int)
  | takes (n : Nat)
  | join
  | close
  | describe
  | look

structure Step (α : Type) where
  container : String
  thread : Thread
  deed : Deed α

inductive Outcome (α : Type) where
  | done
  | dropped (existed : Bool)
  | rejected (item : α)
  | accepted (n : Nat)
  | item (a : Option α)
  | items (as : List (Option α))
  | took (t : Take α)
  | tookMany (ts : List (Take α))
  | drained (as : List α)
  | texts (own common : String)
  | nothing
  | wouldBlock
  | parked
  | finished
  | notStarted
  | busy
  | noContainer
  | noStrategy

/-- A take that runs apart from the steps. -/
inductive Errand (α : Type) where
  | waiting (container : String) (taker : Nat) (deadline : Option Int)
  | ended (result : Take α)

/-- Containers, errands and the time in milliseconds. -/
structure Session (α : Type) where
  containers : List (String × Handoff α) := []
  recents : Recents := {}
  errands : List (Thread × Errand α) := []
  now : Int := 0
  nextOwner : Nat := 1
  nextTaker : Nat := 0

namespace Session

def find? (s : Session α) (name : String) : Option (Handoff α) :=
  (s.containers.find? (·.1 = name)).map (·.2)

def store (s : Session α) (name : String) (h : Handoff α) : Session α :=
  { s with containers := (name, h) :: s.containers.filter (·.1 ≠ name) }

def errand? (s : Session α) (t : Thread) : Option (Errand α) :=
  (s.errands.find? (·.1 = t)).map (·.2)

def setErrand (s : Session α) (t : Thread) (e : Errand α) : Session α :=
  { s with errands := (t, e) :: s.errands.filter (·.1 ≠ t) }

def endedThreads (s : Session α) : List String :=
  s.errands.filterMap fun (t, e) =>
    match t, e with
    | .named n, .ended _ => some n
    | _, _ => none

def settle (s : Session α) (taker : Nat) (result : Take α) : Session α :=
  { s with
    errands := s.errands.map fun (t, e) =>
      match e with
      | .waiting _ k _ => if k = taker then (t, .ended result) else (t, e)
      | .ended _ => (t, e) }

/-- Errands whose deadline lies before this time give up. -/
def expire (s : Session α) (time : Int) : Session α :=
  s.errands.foldl (fun s (_, e) =>
    match e with
    | .waiting c k (some d) =>
      if d ≤ time then
        let s := s.settle k .timedOut
        match s.find? c with
        | some h => s.store c (h.withdraw k)
        | none => s
      else s
    | _ => s) s

def advance (s : Session α) (time : Int) : Session α :=
  { s.expire time with now := max s.now time }

/-- An owner that dies leaves its lists to be swept out. -/
def ownerOf : Handoff α → List Nat
  | .bag b => [b.owner]
  | _ => []

def forget (s : Session α) (name : String) : Session α :=
  match s.find? name with
  | none => s
  | some h =>
    { s with
      containers := s.containers.filter (·.1 ≠ name)
      recents := (ownerOf h).foldl Recents.retire s.recents }

def create (s : Session α) (name : String) (strategy : Strategy) : Session α :=
  let s := s.forget name
  { s.store name (.new strategy s.nextOwner) with nextOwner := s.nextOwner + 1 }

/-- An offer's effect on the one that waited. -/
def deliver (s : Session α) : Offer α → Session α
  | .served t a => s.settle t.id (.item a)
  | _ => s

def put (s : Session α) (name : String) (h : Handoff α) (t : Thread) (a : α) :
    Offer α × Session α :=
  let (o, h, rs) := h.put s.recents t a
  (o, ({ s.store name h with recents := rs }).deliver o)

/-- Puts items until one is handed back, and counts those accepted. -/
def putAll (s : Session α) (name : String) (t : Thread) : List α → Nat × Session α
  | [] => (0, s)
  | a :: as =>
    match s.find? name with
    | none => (0, s)
    | some h =>
      let (o, s) := s.put name h t a
      let (n, s) := putAll s name t as
      match o with
      | .rejected _ => (n, s)
      | _ => (n + 1, s)

def tryTake (s : Session α) (name : String) (h : Handoff α) (t : Thread) :
    Option α × Session α :=
  let (x, h, rs) := h.tryTake s.recents t
  (x, { s.store name h with recents := rs })

def take (s : Session α) (name : String) (h : Handoff α) (t : Thread) (expired : Bool) :
    Taking α × Nat × Session α :=
  let k := s.nextTaker
  let (x, h, rs) := h.take s.recents ⟨k, t⟩ expired
  (x, k, { s.store name h with recents := rs, nextTaker := k + 1 })

def tryTakes (s : Session α) (name : String) (t : Thread) : Nat → List (Option α) × Session α
  | 0 => ([], s)
  | n + 1 =>
    match s.find? name with
    | none => ([], s)
    | some h =>
      let (x, s) := s.tryTake name h t
      let (xs, s) := tryTakes s name t n
      (x :: xs, s)

/-- A take that did not park. -/
def settled : Taking α → Take α
  | .item a => .item a
  | .closed => .closed
  | .timedOut | .parked => .timedOut

def takes (s : Session α) (name : String) (t : Thread) : Nat → List (Take α) × Session α
  | 0 => ([], s)
  | n + 1 =>
    match s.find? name with
    | none => ([], s)
    | some h =>
      let (x, _, s) := s.take name h t true
      let (xs, s) := takes s name t n
      (settled x :: xs, s)

/-- Takes on the spot, until the deadline if there is one. -/
def takeHere (s : Session α) (name : String) (h : Handoff α) (t : Thread) (wait : Option Int) :
    Outcome α × Session α :=
  match wait with
  | none =>
    if h.size = 0 ∧ ¬ h.isClosed then (.wouldBlock, s)
    else
      let (x, _, s) := s.take name h t false
      (.took (settled x), s)
  | some ms =>
    let (x, k, s) := s.take name h t (decide (ms ≤ 0))
    match x with
    | .parked =>
      let s := s.advance (s.now + ms)
      match s.find? name with
      | some h => (.took .timedOut, s.store name (h.withdraw k))
      | none => (.took .timedOut, s)
    | x => (.took (settled x), s)

/-- Takes apart from the steps that follow. -/
def takeApart (s : Session α) (name : String) (h : Handoff α) (t : Thread) (wait : Option Int) :
    Outcome α × Session α :=
  let expired := match wait with
    | some ms => decide (ms ≤ 0)
    | none => false
  let (x, k, s) := s.take name h t expired
  match x with
  | .parked => (.parked, s.setErrand t (.waiting name k (wait.map (s.now + ·))))
  | x => (.finished, s.setErrand t (.ended (settled x)))

def join (s : Session α) (t : Thread) : Outcome α × Session α :=
  let s := match s.errand? t with
    | some (.waiting _ _ (some d)) => s.advance d
    | _ => s
  match s.errand? t with
  | none => (.notStarted, s)
  | some (.waiting ..) => (.wouldBlock, s)
  | some (.ended r) => (.took r, { s with errands := s.errands.filter (·.1 ≠ t) })

/-- A deed on a container that exists. -/
def onContainer (s : Session α) (name : String) (h : Handoff α) (t : Thread) :
    Deed α → Outcome α × Session α
  | .put a =>
    match s.put name h t a with
    | (.rejected a, s) => (.rejected a, s)
    | (_, s) => (.done, s)
  | .putAll as => let (n, s) := s.putAll name t as; (.accepted n, s)
  | .tryTake => let (x, s) := s.tryTake name h t; (.item x, s)
  | .tryTakes n => let (xs, s) := s.tryTakes name t n; (.items xs, s)
  | .take wait => s.takeHere name h t wait
  | .takeApart wait => s.takeApart name h t wait
  | .takes n => let (xs, s) := s.takes name t n; (.tookMany xs, s)
  | .close =>
    let (xs, ts, h) := h.close
    (.drained xs, ts.foldl (fun s t => s.settle t.id .closed) (s.store name h))
  | .describe => (.texts h.text h.strategyText, s)
  | .look => (.nothing, s)
  | .new _ | .drop | .join => (.nothing, s)

def perform (s : Session α) (step : Step α) : Outcome α × Session α :=
  match step.deed with
  | .join => s.join step.thread
  | deed =>
    if (s.errand? step.thread).isSome then (.busy, s)
    else match deed with
    | .new none => (.noStrategy, s)
    | .new (some strategy) => (.done, s.create step.container strategy)
    | .drop => (.dropped (s.find? step.container).isSome, s.forget step.container)
    | deed =>
      match s.find? step.container with
      | none => (.noContainer, s)
      | some h => s.onContainer step.container h step.thread deed

end Session

structure View where
  size : Nat
  waiters : Nat
  isClosed : Bool
  strategy : Strategy

structure Answer (α : Type) where
  outcome : Outcome α
  view : Option View
  ended : List String

def answer (s : Session α) (step : Step α) : Answer α × Session α :=
  let (o, s) := s.perform step
  let view := (s.find? step.container).map fun h => ⟨h.size, h.waiters, h.isClosed, h.strategy⟩
  (⟨o, view, s.endedThreads.mergeSort (· ≤ ·)⟩, s)

def answers (s : Session α) : List (Step α) → List (Answer α)
  | [] => []
  | step :: steps =>
    let (a, s) := answer s step
    a :: answers s steps

def run (name : String) (strategy : Strategy) (steps : List (Step α)) : List (Answer α) :=
  answers (({} : Session α).create name strategy) steps

/-- What is left to say after many threads have put and taken. -/
structure Tally where
  taken : List Nat
  left : List Nat
  waiters : Nat

/-- Each producer in turn puts its share of the numbers from zero up; then the consumers take turns
until nothing is left. -/
def exchange (strategy : Strategy) (producers perProducer consumers : Nat) : Tally :=
  let start : Session Nat := ({} : Session Nat).create "h" strategy
  let filled := (List.range producers).foldl (fun s p =>
    (s.putAll "h" (.named ("producer " ++ toString p))
      ((List.range perProducer).map (p * perProducer + ·))).2) start
  let total := producers * perProducer
  let (taken, s) := (List.range (if consumers = 0 then 0 else total)).foldl (fun (acc, s) k =>
    match s.tryTakes "h" (.named ("consumer " ++ toString (k % consumers))) 1 with
    | ([some x], s) => (x :: acc, s)
    | (_, s) => (acc, s)) (([] : List Nat), filled)
  match s.find? "h" with
  | some h => ⟨taken, h.toList, h.waiters⟩
  | none => ⟨taken, [], 0⟩

end ConnPool.Scenario.Handoffs
