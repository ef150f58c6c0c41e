namespace ConnPool

/-- Who runs an operation: a caller's thread, or the pool's own background. -/
inductive Thread where
  | named (name : String)
  | background
  deriving DecidableEq

/-- How the holder of a connection is shown. -/
def Thread.label : Thread → String
  | named name => "thread '" ++ name ++ "'"
  | background => "thread"

end ConnPool
