import ConnPool.Text.Hidden

namespace ConnPool.Text

/-- A character inside quotes: the quote, the backslash and what a reader cannot see are escaped. -/
def escapeChar (c : Char) : List Char :=
  match c with
  | '\x00' => ['\\', '0']
  | '\t' => ['\\', 't']
  | '\r' => ['\\', 'r']
  | '\n' => ['\\', 'n']
  | '"' => ['\\', '"']
  | '\\' => ['\\', '\\']
  | c =>
    if isHidden c then '\\' :: 'u' :: '\x7b' :: (Nat.toDigits 16 c.toNat ++ ['\x7d']) else [c]

def quoted (s : String) : String :=
  String.ofList ('"' :: s.toList.flatMap escapeChar ++ ['"'])

/-- An optional value in the notation of records: `None` or `Some(…)`. -/
def optional (o : Option String) : String :=
  match o with
  | none => "None"
  | some s => "Some(" ++ s ++ ")"

/-- A record with named fields on one line. -/
def record (name : String) (fields : List (String × String)) : String :=
  name ++ " \x7b " ++ ", ".intercalate (fields.map fun f => f.1 ++ ": " ++ f.2) ++ " \x7d"

end ConnPool.Text
