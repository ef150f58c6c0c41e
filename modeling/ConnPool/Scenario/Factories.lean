import ConnPool.Factory

namespace ConnPool.Scenario.Factories

/-- What one attempt comes to: the connection as a probe leaves it, whether it is valid, and whether
it closes well. -/
structure Trial where
  text : String
  valid : Bool
  closes : Bool

/-- A plain factory that numbers its connections from zero and refuses one attempt, if any. -/
def refusing (attempt : Option Nat) : Factory where
  naming n := "f" ++ toString n
  creating n := if some n = attempt then .fails ("refused " ++ toString n) else .works
  isPlain := true

/-- Creates, probes and closes one connection. -/
def trial (f : Factory) (n : Nat) : Except String Trial :=
  (f.create n).map fun c =>
    let (valid, c) := f.probe c
    ⟨c.text, valid, (f.close c).isNone⟩

def trials (f : Factory) (calls : Nat) : List (Except String Trial) :=
  (List.range calls).map (trial f)

end ConnPool.Scenario.Factories
