import ConnPool.Json.Token

namespace ConnPool.Json

/-- An array or object that is still open, its parts last first. An object in which a key waits
for its value holds that key. -/
inductive Frame where
  | arr (items : List Json)
  | obj (members : List (Option String × Json)) (key : Option String)

/-- What may come next. -/
inductive Expect where
  | value
  | itemOrClose
  | nextItem
  | keyOrClose (members : List (Option String × Json))
  | key (members : List (Option String × Json))
  | colon (members : List (Option String × Json)) (key : Option String)
  | nextMember (members : List (Option String × Json))
  | nothing (result : Json)

/-- The open frames, innermost first, and what may come next inside them. -/
structure Machine where
  frames : List Frame
  expect : Expect

def Machine.start : Machine := ⟨[], .value⟩

/-- A value is complete. -/
def Machine.complete (frames : List Frame) (j : Json) : Machine :=
  match frames with
  | [] => ⟨[], .nothing j⟩
  | .arr items :: fs => ⟨.arr (j :: items) :: fs, .nextItem⟩
  | .obj ms k :: fs => ⟨fs, .nextMember ((k, j) :: ms)⟩

/-- A token where a value is due. -/
def Machine.value? (frames : List Frame) : Token → Option Machine
  | .openArr => some ⟨.arr [] :: frames, .itemOrClose⟩
  | .openObj => some ⟨frames, .keyOrClose []⟩
  | .null => some (complete frames .null)
  | .bool b => some (complete frames (.bool b))
  | .num s w t => some (complete frames (.num s w t))
  | .str t => some (complete frames (.str t))
  | _ => none

/-- The innermost array is complete. -/
def Machine.closeArr? : List Frame → Option Machine
  | .arr items :: fs => some (complete fs (.arr items.reverse))
  | _ => none

def Machine.step? (m : Machine) (t : Token) : Option Machine :=
  match m.expect, t with
  | .itemOrClose, .closeArr => closeArr? m.frames
  | .itemOrClose, t => value? m.frames t
  | .value, t => value? m.frames t
  | .nextItem, .comma => some ⟨m.frames, .value⟩
  | .nextItem, .closeArr => closeArr? m.frames
  | .keyOrClose ms, .closeObj => some (complete m.frames (.obj ms.reverse))
  | .keyOrClose ms, .str k => some ⟨m.frames, .colon ms k⟩
  | .key ms, .str k => some ⟨m.frames, .colon ms k⟩
  | .colon ms k, .colon => some ⟨.obj ms k :: m.frames, .value⟩
  | .nextMember ms, .comma => some ⟨m.frames, .key ms⟩
  | .nextMember ms, .closeObj => some (complete m.frames (.obj ms.reverse))
  | _, _ => none

def Machine.run? (m : Machine) : List Token → Option Machine
  | [] => some m
  | t :: ts => (m.step? t).bind fun m => m.run? ts

def Machine.result? (m : Machine) : Option Json :=
  match m.expect with
  | .nothing j => some j
  | _ => none

def ofTokens? (ts : List Token) : Option Json := (Machine.start.run? ts).bind Machine.result?

/-- The one value that a text holds. -/
def parse? (text : String) : Option Json := (tokens? text).bind ofTokens?

end ConnPool.Json
