import ConnPool.Json.Token

namespace ConnPool.Json

def hexDigit (n : Nat) : Char := if n < 10 then Char.ofNat (48 + n) else Char.ofNat (87 + n)

/-- A character inside quotes: quotes, backslashes and control characters are escaped. -/
def escapeChar (c : Char) : List Char :=
  if c = '"' then ['\\', '"']
  else if c = '\\' then ['\\', '\\']
  else if c = '\n' then ['\\', 'n']
  else if c = '\r' then ['\\', 'r']
  else if c = '\t' then ['\\', 't']
  else if c.toNat = 8 then ['\\', 'b']
  else if c.toNat = 12 then ['\\', 'f']

  else if c.toNat < 0x20 then
    ['\\', 'u', '0', '0', hexDigit (c.toNat / 16), hexDigit (c.toNat % 16)]
  else [c]

def quoted (cs : List Char) : List Char := '"' :: cs.flatMap escapeChar ++ ['"']

/-- A spoiled string is printed as one lone surrogate half, which reads as spoiled again. -/
def Token.chars : Token → List Char
  | .openObj => ['\x7b']
  | .closeObj => ['\x7d']
  | .openArr => ['[']
  | .closeArr => [']']
  | .comma => [',']
  | .colon => [':']
  | .null => ['n', 'u', 'l', 'l']
  | .bool true => ['t', 'r', 'u', 'e']
  | .bool false => ['f', 'a', 'l', 's', 'e']
  | .num negative whole tail => (if negative then ['-'] else []) ++ Nat.toDigits 10 whole ++ tail
  | .str (some s) => quoted s.toList
  | .str none => ['"', '\\', 'u', 'd', '8', '0', '0', '"']

mutual

/-- The tokens of a value. -/
def tokens : Json → List Token
  | null => [.null]
  | bool b => [.bool b]
  | num s w t => [.num s w t]
  | str t => [.str t]
  | arr [] => [.openArr, .closeArr]
  | arr (j :: js) => .openArr :: (j.tokens ++ itemTokens js)
  | obj [] => [.openObj, .closeObj]
  | obj ((k, j) :: ms) => .openObj :: .str k :: .colon :: (j.tokens ++ memberTokens ms)

/-- Tokens of the further items of an array and of its close. -/
def itemTokens : List Json → List Token
  | [] => [.closeArr]
  | j :: js => .comma :: (j.tokens ++ itemTokens js)

/-- Tokens of the further members of an object and of its close. -/
def memberTokens : List (Option String × Json) → List Token
  | [] => [.closeObj]
  | (k, j) :: ms => .comma :: .str k :: .colon :: (j.tokens ++ memberTokens ms)

end

/-- The shortest spelling of a value: no blanks. -/
def render (j : Json) : String := String.ofList (j.tokens.flatMap Token.chars)

end ConnPool.Json
