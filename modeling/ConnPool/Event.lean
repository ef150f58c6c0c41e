import ConnPool.Duration
import ConnPool.Handle

namespace ConnPool

inductive DestroyReason where
  | validationFailed
  | idleTimeout
  | invalidated
  | detached
  | shutdown
  deriving DecidableEq, Repr

namespace DestroyReason

def all : List DestroyReason := [validationFailed, idleTimeout, invalidated, detached, shutdown]

def label : DestroyReason → String
  | validationFailed => "validation failed"
  | idleTimeout => "idle timeout"
  | invalidated => "invalidated"
  | detached => "detached"
  | shutdown => "shutdown"

end DestroyReason

/-- What a pool tells its subscribers. -/
inductive Event where
  | created (pool : String) (handle : HandleId) (elapsed : Duration)
  | creationFailed (pool : String) (error : String)
  | acquired (pool : String) (handle : HandleId) (waited : Duration)
  | returned (pool : String) (handle : HandleId) (held : Duration)
  | acquireTimedOut (pool : String) (waited : Duration)
  | leakSuspected (pool : String) (handle : HandleId) (held : Duration)
  | destroyed (pool : String) (handle : HandleId) (reason : DestroyReason)
  deriving DecidableEq

end ConnPool
