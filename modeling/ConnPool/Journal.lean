import ConnPool.Factory
import ConnPool.Failure
import ConnPool.Handle
import ConnPool.Thread

namespace ConnPool

inductive Level where
  | trace
  | debug
  | info
  | warn
  deriving DecidableEq

/-- A field of a log line: a value shown as text, plain text, a number or a flag. -/
inductive Field where
  | shown (s : String)
  | text (s : String)
  | number (n : Nat)
  | flag (b : Bool)
  deriving DecidableEq

/-- What a listener is told. -/
inductive Hook where
  | beforeCreate
  | afterCreate (result : Except String HandleId)
  | beforeAcquire
  | afterAcquire (result : Except Failure HandleId)
  | afterReturn (h : HandleId)
  | onValidation (h : HandleId) (valid : Bool)
  | onLeak (h : HandleId) (owner : Option Thread)
  | onTimeout (h : HandleId)
  | onClose (h : HandleId) (error : Option String)
  | onWarning (message : String)

def Hook.name : Hook → String
  | beforeCreate => "before_create"
  | afterCreate _ => "after_create"
  | beforeAcquire => "before_acquire"
  | afterAcquire _ => "after_acquire"
  | afterReturn _ => "after_return"
  | onValidation .. => "on_validation"
  | onLeak .. => "on_leak"
  | onTimeout _ => "on_timeout"
  | onClose .. => "on_close"
  | onWarning _ => "on_warning"

/-- One thing that happened: a call of the factory, a hook of a listener, a log line. -/
inductive Note where
  | create (serial : Nat)
  | probe (c : Connection)
  | close (c : Connection)
  | hook (label : String) (h : Hook)
  | line (level : Level) (message : String) (fields : List (String × Field))

/-- One who is told of what happens in a pool. A listener may panic in some hooks. One that brings
another registers it when it first hears of an acquire. -/
inductive Listener where
  | recorder (label : String) (panics : List String) (brings : Bool)
  | logger
  deriving DecidableEq

namespace Listener

def panicsIn (l : Listener) (h : Hook) : Bool :=
  match l with
  | recorder _ panics _ => panics.contains h.name
  | logger => false

/-- What the logging listener writes. -/
def lines (pool : String) : Hook → List Note
  | .beforeCreate | .beforeAcquire => []
  | .afterCreate (.ok h) =>
    [.line .debug "Connection created" [("pool", .text pool), ("handle", .shown h.label)]]
  | .afterCreate (.error e) =>
    [.line .debug "Connection creation failed" [("pool", .text pool), ("error", .shown e)]]
  | .afterAcquire (.ok h) =>
    [.line .debug "Connection acquired" [("pool", .text pool), ("handle", .shown h.label)]]
  | .afterAcquire (.error e) =>
    [.line .debug "Acquire failed" [("pool", .text pool), ("error", .shown e.message)]]
  | .afterReturn h =>
    [.line .debug "Connection returned" [("pool", .text pool), ("handle", .shown h.label)]]
  | .onValidation h valid =>
    [.line .debug "Connection validated"
      [("pool", .text pool), ("handle", .shown h.label), ("valid", .flag valid)]]
  | .onLeak h _ =>
    [.line .warn "Connection leak suspected" [("pool", .text pool), ("handle", .shown h.label)]]
  | .onTimeout h =>
    [.line .debug "Idle connection reaped" [("pool", .text pool), ("handle", .shown h.label)]]
  | .onClose h none =>
    [.line .debug "Connection closed" [("pool", .text pool), ("handle", .shown h.label)]]
  | .onClose h (some e) =>
    [.line .debug "Connection closed with error"
      [("pool", .text pool), ("handle", .shown h.label), ("error", .shown e)]]
  | .onWarning message =>
    [.line .warn "Pool warning" [("pool", .text pool), ("warning", .text message)]]

/-- What one listener makes of a hook. A panic ends there and is logged. -/
def hear (pool : String) (h : Hook) (l : Listener) : List Note :=
  (match l with
    | recorder label _ _ => [.hook label h]
    | logger => lines pool h) ++
  if l.panicsIn h then
    [.line .warn "Pool listener panicked" [("pool", .text pool), ("hook", .text h.name)]]
  else []

/-- The listener that this one registers on hearing a hook. -/
def brought? (h : Hook) (l : Listener) : Option Listener :=
  match l, h with
  | recorder label _ true, .beforeAcquire => some (recorder (label ++ "2") [] false)
  | _, _ => none

/-- The listener after a hook: what it brings it brings once. -/
def settled (h : Hook) (l : Listener) : Listener :=
  match l, h with
  | recorder label panics true, .beforeAcquire => recorder label panics false
  | l, _ => l

end Listener
end ConnPool
