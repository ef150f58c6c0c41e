namespace ConnPool

/-- Where a connection stands in its life. -/
inductive State where
  | new
  | checkedIn
  | checkedOut
  | validation
  | toDestroy
  | destroyed
  deriving DecidableEq, Repr

namespace State

def all : List State := [new, checkedIn, checkedOut, validation, toDestroy, destroyed]

def index : State → Nat
  | new => 0
  | checkedIn => 1
  | checkedOut => 2
  | validation => 3
  | toDestroy => 4
  | destroyed => 5

/-- The spelling used in stored data. -/
def name : State → String
  | new => "New"
  | checkedIn => "CheckedIn"
  | checkedOut => "CheckedOut"
  | validation => "Validation"
  | toDestroy => "ToDestroy"
  | destroyed => "Destroyed"

/-- The spelling shown to people. -/
def label : State → String
  | new => "new"
  | checkedIn => "checked-in"
  | checkedOut => "checked-out"
  | validation => "validation"
  | toDestroy => "to-destroy"
  | destroyed => "destroyed"

def ofName? (s : String) : Option State := all.find? (·.name = s)

def terminal (s : State) : Bool := s == destroyed

def live (s : State) : Bool := !s.terminal

/-- The lifecycle table. -/
def legal : State → State → Bool
  | new, checkedIn | checkedOut, checkedIn | validation, checkedIn => true
  | checkedIn, checkedOut | checkedIn, validation => true
  | new, toDestroy | checkedIn, toDestroy | checkedOut, toDestroy | validation, toDestroy => true
  | toDestroy, destroyed => true
  | _, _ => false

/-- One try to move a cell from `source` to `target`: it succeeds if the table has the move and
the cell is in `source`, and else leaves the cell alone. -/
def move (current source target : State) : Bool × State :=
  if legal source target ∧ current = source then (true, target) else (false, current)

/-- How a cell in this state is shown inside one-line records. -/
def cellText (s : State) : String := "AtomicState(" ++ s.name ++ ")"

theorem mem_all (s : State) : s ∈ all := by cases s <;> decide

theorem ofName?_name (s : State) : ofName? s.name = some s := by cases s <;> decide

theorem move_fst {c s t : State} : (move c s t).1 = true ↔ legal s t = true ∧ c = s := by
  unfold move; split <;> simp_all

theorem move_snd_of_not_fst {c s t : State} (h : (move c s t).1 = false) :
    (move c s t).2 = c := by
  unfold move at h ⊢; split <;> simp_all

end State
end ConnPool
