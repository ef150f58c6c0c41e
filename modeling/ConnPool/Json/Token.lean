import ConnPool.Json.Basic

namespace ConnPool.Json

inductive Token where
  | openObj
  | closeObj
  | openArr
  | closeArr
  | comma
  | colon
  | null
  | bool (b : Bool)
  | num (negative : Bool) (whole : Nat) (tail : List Char)
  | str (text : Option String)
  deriving DecidableEq

/-- How much of a number has been read. -/
inductive NumberPhase where
  | sign
  | zero
  | whole
  | point
  | fraction
  | exponent
  | exponentSign
  | exponentDigits
  deriving DecidableEq

/-- Between two characters the reader is in one of these modes. Units of a string and letters of a
word are kept last first. -/
inductive Mode where
  | between
  | word (letters : List Char)
  | number (phase : NumberPhase) (negative : Bool) (whole : Nat) (tail : List Char)
  | string (units : List Nat)
  | escape (units : List Nat)
  | hex (units : List Nat) (digits value : Nat)
  deriving DecidableEq

def isBlank (c : Char) : Bool := c = ' ' || c = '\n' || c = '\t' || c = '\r'

def isHighHalf (u : Nat) : Bool := 0xD800 ≤ u && u < 0xDC00

def isLowHalf (u : Nat) : Bool := 0xDC00 ≤ u && u < 0xE000

/-- Joins surrogate pairs; a half that stands alone spoils the string. -/
def joinHalves? : List Nat → Option (List Char)
  | [] => some []
  | h :: l :: us =>
    if isHighHalf h then
      if isLowHalf l then
        (joinHalves? us).map (Char.ofNat (0x10000 + (h - 0xD800) * 0x400 + (l - 0xDC00)) :: ·)
      else none
    else if isLowHalf h then none
    else (joinHalves? (l :: us)).map (Char.ofNat h :: ·)
  | [u] => if isHighHalf u || isLowHalf u then none else some [Char.ofNat u]

def wordToken? (letters : List Char) : Option Token :=
  if letters = ['l', 'l', 'u', 'n'] then some .null
  else if letters = ['e', 'u', 'r', 't'] then some (.bool true)
  else if letters = ['e', 's', 'l', 'a', 'f'] then some (.bool false)
  else none

def NumberPhase.complete : NumberPhase → Bool
  | .zero | .whole | .fraction | .exponentDigits => true
  | _ => false

/-- The mode after a character outside strings, numbers and words, and the token it completes. -/
def begin? (c : Char) : Option (Option Token × Mode) :=
  if isBlank c then some (none, .between)
  else match c with
  | '\x7b' => some (some .openObj, .between)
  | '\x7d' => some (some .closeObj, .between)
  | '[' => some (some .openArr, .between)
  | ']' => some (some .closeArr, .between)
  | ',' => some (some .comma, .between)
  | ':' => some (some .colon, .between)
  | '"' => some (none, .string [])
  | '-' => some (none, .number .sign true 0 [])
  | '0' => some (none, .number .zero false 0 [])
  | _ =>
    if c.isDigit then some (none, .number .whole false (c.toNat - 48) [])
    else if c.isLower then some (none, .word [c])
    else none

/-- The number after one more character of it, if the character belongs to it. -/
def extend? (phase : NumberPhase) (negative : Bool) (whole : Nat) (tail : List Char) (c : Char) :
    Option Mode :=
  match phase with
  | .sign =>
    if c = '0' then some (.number .zero negative 0 [])
    else if c.isDigit then some (.number .whole negative (c.toNat - 48) [])
    else none
  | .zero =>
    if c = '.' then some (.number .point negative whole [c])
    else if c = 'e' || c = 'E' then some (.number .exponent negative whole [c])
    else none
  | .whole =>
    if c.isDigit then some (.number .whole negative (whole * 10 + (c.toNat - 48)) [])
    else if c = '.' then some (.number .point negative whole [c])
    else if c = 'e' || c = 'E' then some (.number .exponent negative whole [c])
    else none
  | .point =>
    if c.isDigit then some (.number .fraction negative whole (c :: tail)) else none
  | .fraction =>
    if c.isDigit then some (.number .fraction negative whole (c :: tail))
    else if c = 'e' || c = 'E' then some (.number .exponent negative whole (c :: tail))
    else none
  | .exponent =>
    if c.isDigit then some (.number .exponentDigits negative whole (c :: tail))
    else if c = '+' || c = '-' then some (.number .exponentSign negative whole (c :: tail))
    else none
  | .exponentSign | .exponentDigits =>
    if c.isDigit then some (.number .exponentDigits negative whole (c :: tail)) else none

/-- The unit that a one-letter escape stands for. -/
def escaped? : Char → Option Nat
  | '"' => some 0x22
  | '\\' => some 0x5C
  | '/' => some 0x2F
  | 'b' => some 0x08
  | 'f' => some 0x0C
  | 'n' => some 0x0A
  | 'r' => some 0x0D
  | 't' => some 0x09
  | _ => none

def hexValue? (c : Char) : Option Nat :=
  if c.isDigit then some (c.toNat - 48)
  else if 'a' ≤ c ∧ c ≤ 'f' then some (c.toNat - 87)
  else if 'A' ≤ c ∧ c ≤ 'F' then some (c.toNat - 55)
  else none

/-- The token of a mode in which the text may stop or go on with another token. -/
def Mode.pending? : Mode → Option (Option Token)
  | .between => some none
  | .word letters => (wordToken? letters).map some
  | .number phase negative whole tail =>
    if phase.complete then some (some (.num negative whole tail.reverse)) else none
  | _ => none

/-- Reads one character: the mode after it and the tokens that it completes. -/
def Mode.read? (m : Mode) (c : Char) : Option (List Token × Mode) :=
  match m with
  | .between => (begin? c).map fun (t, m) => (t.toList, m)
  | .word letters =>
    if c.isLower then some ([], .word (c :: letters))
    else match wordToken? letters, begin? c with
      | some w, some (t, m) => some (w :: t.toList, m)
      | _, _ => none
  | .number phase negative whole tail =>
    match extend? phase negative whole tail c with
    | some m => some ([], m)
    | none =>
      if phase.complete then
        (begin? c).map fun (t, m) => (.num negative whole tail.reverse :: t.toList, m)
      else none
  | .string units =>
    if c = '"' then some ([.str ((joinHalves? units.reverse).map String.ofList)], .between)
    else if c = '\\' then some ([], .escape units)
    else if c.toNat < 0x20 then none
    else some ([], .string (c.toNat :: units))
  | .escape units =>
    if c = 'u' then some ([], .hex units 0 0)
    else (escaped? c).map fun u => ([], .string (u :: units))
  | .hex units digits value =>
    (hexValue? c).map fun v =>
      if digits = 3 then ([], .string ((value * 16 + v) :: units))
      else ([], .hex units (digits + 1) (value * 16 + v))

/-- Tokens of the rest of a text. -/
def tokensFrom? : Mode → List Char → Option (List Token)
  | m, [] => m.pending?.map Option.toList
  | m, c :: cs =>
    match m.read? c with
    | some (ts, m) => (tokensFrom? m cs).map (ts ++ ·)
    | none => none

def tokens? (text : String) : Option (List Token) := tokensFrom? .between text.toList

end ConnPool.Json
