namespace ConnPool

/-- The number of a connection within its pool. -/
structure HandleId where
  val : Nat
  deriving DecidableEq, Repr

namespace HandleId

/-- How an id is shown to people. -/
def label (h : HandleId) : String := "#" ++ toString h.val

/-- How an id is shown inside one-line records. -/
def text (h : HandleId) : String := "HandleId(" ++ toString h.val ++ ")"

/-- In ascending order, each once. -/
def sorted (hs : List HandleId) : List HandleId := (hs.mergeSort (·.val ≤ ·.val)).eraseDups

end HandleId
end ConnPool
