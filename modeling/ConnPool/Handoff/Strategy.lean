namespace ConnPool

/-- How idle connections pass from those who return them to those who wait. -/
inductive Strategy where
  | fifo
  | rendezvous
  | bag
  deriving DecidableEq, Repr

namespace Strategy

def all : List Strategy := [fifo, rendezvous, bag]

def name : Strategy → String
  | fifo => "fifo"
  | rendezvous => "rendezvous"
  | bag => "bag"

def ofName? (s : String) : Option Strategy := all.find? (·.name = s)

def title : Strategy → String
  | fifo => "Fifo"
  | rendezvous => "Rendezvous"
  | bag => "Bag"

theorem ofName?_name (s : Strategy) : ofName? s.name = some s := by cases s <;> decide

end Strategy
end ConnPool
