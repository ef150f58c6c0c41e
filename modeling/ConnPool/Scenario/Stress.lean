import ConnPool.Scenario.Pools

namespace ConnPool.Scenario

/-- What is left to say of a pool after many threads have used it at once. -/
structure Wear where
  settled : Bool
  overlap : Bool
  acquired : Nat
  returned : Nat
  active : Nat
  timeouts : Nat
  idleIsSize : Bool
  withinMax : Bool
  sizeAfterClose : Nat
  destroyedIsCreated : Bool

namespace Session

def worker (k : Nat) : String := "worker " ++ toString k

/-- One connection is lent out twice. -/
def lendsTwice (s : Session) : Bool :=
  let out := s.pool.leases.map (·.connection.serial)
  out.eraseDups.length ≠ out.length

/-- Waits for the threads that hold a lease by now, and has them give it back. The answer says
whether a connection was lent twice. -/
def giveBackReady (threads : Nat) (s : Session) : Bool × Session :=
  let s := s.settle true
  let overlap := s.lendsTwice
  let ready := ((List.range threads).map worker).filter s.hasEnded
  (overlap, ready.foldl (fun s t => ((s.join [t]).2.perform t (.release t)).2) s)

def workRound (threads : Nat) (before : Bool × Session) : Bool × Session :=
  let asked := ((List.range threads).map worker).foldl
    (fun s t => (s.spawn t (.acquire t .usual)).2) before.2
  (List.range threads).foldl
    (fun (overlap, s) _ =>
      let (o, s) := giveBackReady threads s
      (overlap || o, s))
    (before.1, asked)

/-- Every thread acquires and gives back `rounds` times; then the pool is closed. -/
def wear (s : Session) (threads rounds : Nat) : Wear :=
  let (overlap, s) := rounds.repeat (workRound threads) (false, s.settle true)
  let s := s.settle true
  let before := s.pool.stats
  let s := (s.perform "main" .close).2.settle true
  let after := s.pool.stats
  { settled := before.pending = 0 && before.waiters = 0
    overlap
    acquired := before.acquired
    returned := before.returned
    active := before.active
    timeouts := before.timeouts
    idleIsSize := before.idle = before.size
    withinMax := before.size ≤ s.pool.cap && before.maxUsed ≤ s.pool.cap
    sizeAfterClose := after.size
    destroyedIsCreated := after.destroyed = after.created }

end Session

/-- Builds a pool and has many threads use it. None if it can neither be built nor refused. -/
def stress (c : Config) (threads rounds : Nat) : Option (Except Failure Wear) :=
  let setup : Setup :=
    { config := c, script := {}, listeners := [], enlisting := .never, gateOpen := true }
  setup.start?.map fun (r, s) => r.map fun () => s.wear threads rounds

end ConnPool.Scenario
