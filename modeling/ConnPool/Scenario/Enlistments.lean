import ConnPool.UnitOfWork

namespace ConnPool.Scenario.Enlistments

inductive Deed where
  | start
  | finish
  | associate (h : HandleId)
  | disassociate (h : HandleId)
  | look

inductive Outcome where
  | nothing
  | handle (h : Option HandleId)
  | flag (b : Bool)

def perform (u : UnitsByThread) (t : Thread) : Deed → Outcome × UnitsByThread
  | .start => (.nothing, u.start t)
  | .finish => (.handle (u.current t), u.finish t)
  | .associate h => (.nothing, u.associate t h)
  | .disassociate h => (.flag (u.isEnlisted h), u.disassociate h)
  | .look => (.nothing, u)

structure Answer where
  outcome : Outcome
  isActive : Bool
  current : Option HandleId

/-- Each step's outcome, and the unit of its thread afterwards. -/
def run (u : UnitsByThread) : List (Thread × Deed) → List Answer
  | [] => []
  | (t, d) :: steps =>
    let (o, u) := perform u t d
    ⟨o, u.isActive t, u.current t⟩ :: run u steps

end ConnPool.Scenario.Enlistments
