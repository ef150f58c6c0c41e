namespace ConnPool

/-- A JSON value as written. Members keep their order and may repeat a key. A string is `none` when
one of its escapes names half of a surrogate pair, which no text can hold. -/
inductive Json where
  | null
  | bool (b : Bool)
  | num (negative : Bool) (whole : Nat) (tail : List Char)
  | str (text : Option String)
  | arr (items : List Json)
  | obj (members : List (Option String × Json))

namespace Json

def ofNat (n : Nat) : Json := num false n []

def ofString (s : String) : Json := str (some s)

def object (ms : List (String × Json)) : Json := obj (ms.map fun m => (some m.1, m.2))

/-- Only a plain run of digits names a natural number: no sign, fraction or exponent. -/
def nat? : Json → Option Nat
  | num false n [] => some n
  | _ => none

/-- A natural number that fits a 64-bit word. -/
def word? (j : Json) : Option UInt64 :=
  match j.nat? with
  | some n => if n < UInt64.size then some n.toUInt64 else none
  | none => none

/-- A plain run of digits, perhaps with a minus sign. -/
def int? : Json → Option Int
  | num false n [] => some n
  | num true n [] => some (-n)
  | _ => none

def bool? : Json → Option Bool
  | bool b => some b
  | _ => none

def string? : Json → Option String
  | str s => s
  | _ => none

/-- The name of a variant without fields: a string, or an object whose one member maps it to
null. -/
def tag? : Json → Option String
  | str s => s
  | obj [(some k, null)] => some k
  | _ => none

def isNull : Json → Bool
  | null => true
  | _ => false

def items? : Json → Option (List Json)
  | arr js => some js
  | _ => none

/-- The value of the first member with this key. -/
def field? (j : Json) (key : String) : Option Json :=
  match j with
  | obj ms => (ms.find? fun m => m.1 = some key).map (·.2)
  | _ => none

@[simp] theorem nat?_ofNat (n : Nat) : (ofNat n).nat? = some n := rfl

theorem word?_ofNat (w : UInt64) : (ofNat w.toNat).word? = some w := by
  simp [word?, w.toNat_lt]

end Json
end ConnPool
