import ConnPool.Json.Print

namespace ConnPool.Json

/-- Puts a member in front of the first with a greater key. -/
def insertMember (m : Option String × Json) :
    List (Option String × Json) → List (Option String × Json)
  | [] => [m]
  | n :: ns => if m.1.getD "" < n.1.getD "" then m :: n :: ns else n :: insertMember m ns

mutual

/-- The same value with the members of every object in the order of their keys. -/
def sorted : Json → Json
  | null => null
  | bool b => bool b
  | num s w t => num s w t
  | str t => str t
  | arr items => arr (sortedItems items)
  | obj members => obj (sortedMembers members)

def sortedItems : List Json → List Json
  | [] => []
  | j :: js => j.sorted :: sortedItems js

def sortedMembers : List (Option String × Json) → List (Option String × Json)
  | [] => []
  | (k, j) :: ms => insertMember (k, j.sorted) (sortedMembers ms)

end

/-- One text for all orders of members. -/
def canonical (j : Json) : String := j.sorted.render

/-- Values in the order of their canonical texts. -/
def sortByText (js : List Json) : List Json := js.mergeSort fun a b => a.canonical ≤ b.canonical

end ConnPool.Json
