namespace ConnPool

/-- Why a pool refuses. -/
inductive Failure where
  | configuration (message : String)
  | acquireTimeout (pool : String) (waitedMs active maxSize waiters : Nat)
  | creation (pool : String) (source : String)
  | closed (pool : String)
  | handleBusy (pool : String) (handle : Nat)
  | housekeeping (pool : String) (source : String)
  deriving DecidableEq, Repr

namespace Failure

def message : Failure → String
  | configuration m => "Configuration error: " ++ m
  | acquireTimeout pool waitedMs active maxSize waiters =>
    "Timed out after " ++ toString waitedMs ++ "ms acquiring a connection from '" ++ pool ++
      "': " ++ toString active ++ "/" ++ toString maxSize ++ " in use, " ++
      toString waiters ++ " waiting"
  | creation pool source => "Failed to create a connection for '" ++ pool ++ "': " ++ source
  | closed pool => "Pool '" ++ pool ++ "' is closed"
  | handleBusy pool handle =>
    "Connection #" ++ toString handle ++ " of pool '" ++ pool ++
      "' is already in use by its unit of work"
  | housekeeping pool source => "Failed to start housekeeping for '" ++ pool ++ "': " ++ source

def isTimeout : Failure → Bool
  | acquireTimeout .. => true
  | _ => false

/-- Trying again may help. -/
def isRetryable : Failure → Bool
  | acquireTimeout .. | creation .. | handleBusy .. => true
  | _ => false

def pool? : Failure → Option String
  | configuration _ => none
  | acquireTimeout pool .. | creation pool _ | closed pool | handleBusy pool _
  | housekeeping pool _ => some pool

/-- The text of the error that this one wraps. -/
def source? : Failure → Option String
  | creation _ source | housekeeping _ source => some source
  | _ => none

end Failure

/-- What stands in front of an elapsed time in a message. -/
def elapsedLead : List Char := "Timed out after ".toList

def maskChars : List Char → List Char
  | [] => []
  | c :: cs =>
    if elapsedLead.isPrefixOf (c :: cs) then
      elapsedLead ++ "<T>".toList ++ ((c :: cs).drop elapsedLead.length).dropWhile Char.isDigit
    else c :: maskChars cs

/-- Replaces the first elapsed time in a message by a placeholder, so that two runs can be
compared. -/
def maskElapsed (s : String) : String := String.ofList (maskChars s.toList)

end ConnPool
