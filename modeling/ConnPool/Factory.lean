namespace ConnPool

/-- A connection: the number of the attempt that made it, and what it now reads. -/
structure Connection where
  serial : Nat
  text : String
  deriving DecidableEq

/-- How an attempt to create turns out. -/
inductive Creating where
  | works
  | fails (error : String)
  | panics
  deriving DecidableEq

/-- What a probe finds. -/
inductive Probing where
  | valid
  | invalid
  | panics
  deriving DecidableEq

/-- How an attempt to close turns out. -/
inductive Closing where
  | works
  | fails
  | panics
  deriving DecidableEq

/-- How connections behave and what they first read, by their numbers. A plain factory only creates:
all its connections are valid and close well, and nothing but creation calls it. -/
structure Factory where
  naming : Nat → String := fun n => "c" ++ toString n
  creating : Nat → Creating := fun _ => .works
  probing : Nat → Probing := fun _ => .valid
  closing : Nat → Closing := fun _ => .works
  isPlain : Bool := false

/-- A call of the factory that can take its time. -/
inductive Call where
  | probe (serial : Nat)
  | close (serial : Nat)
  deriving DecidableEq

namespace Factory

/-- The connection or the error of one attempt. -/
def create (f : Factory) (serial : Nat) : Except String Connection :=
  match f.creating serial with
  | .works => .ok ⟨serial, f.naming serial⟩
  | .fails e => .error e
  | .panics => .error "connection factory panicked"

/-- A probe leaves its mark on the connection, whatever it finds. -/
def probe (f : Factory) (c : Connection) : Bool × Connection :=
  if f.isPlain then (true, c)
  else (f.probing c.serial == .valid, { c with text := c.text ++ "+v" })

/-- The error of closing a connection, if there is one. -/
def close (f : Factory) (c : Connection) : Option String :=
  if f.isPlain then none
  else match f.closing c.serial with
  | .works => none
  | .fails => some ("close " ++ c.text ++ " failed")
  | .panics => some "connection factory panicked while closing"

/-- How a plain factory is shown; what it does cannot be seen. -/
def plainText : String := "FnFactory \x7b .. \x7d"

end Factory
end ConnPool
