import ConnPool.Event.Bus

namespace ConnPool.Scenario.Events

inductive Step where
  | subscribe (name : String)
  | unsubscribe (name : String)
  | emit (events : List Event)
  | receive (name : String)
  | drain (name : String)
  | drop
  | describe

inductive Outcome where
  | done
  | flag (b : Bool)
  | received (r : Received)
  | drained (rs : List Received)
  | text (s : Option String)
  | noSubscriber
  | noBus

def perform (b : Bus) : Step → Outcome × Bus
  | .subscribe name => if b.isOpen then (.done, b.subscribe name) else (.noBus, b)
  | .unsubscribe name => (.flag (b.isSubscribed name), b.unsubscribe name)
  | .emit events => if b.isOpen then (.done, events.foldl Bus.emit b) else (.noBus, b)
  | .receive name =>
    match b.receive? name with
    | some (r, b) => (.received r, b)
    | none => (.noSubscriber, b)
  | .drain name =>
    if b.isSubscribed name then
      let (rs, b) := b.drain name
      (.drained rs, b)
    else (.noSubscriber, b)
  | .drop => (.flag b.isOpen, b.close)
  | .describe => (.text (if b.isOpen then some b.text else none), b)

/-- Each step's outcome and whether anyone listens afterwards, unless the bus is gone. -/
def run (b : Bus) : List Step → List (Outcome × Option Bool)
  | [] => []
  | step :: steps =>
    let (o, b) := perform b step
    (o, if b.isOpen then some b.hasSubscribers else none) :: run b steps

end ConnPool.Scenario.Events
