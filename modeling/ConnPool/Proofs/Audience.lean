import ConnPool.Proofs.History

namespace ConnPool

namespace Pool

/-- What the caller of an operation is answered. -/
inductive Answer where
  | done
  | reply (r : Reply)
  | handed (c : Option Connection)
  | flag (b : Bool)
  | number (n : Nat)
  | ruled (r : Except Failure Unit)
  | received (r : Option Received)

def Operation.answer (p : Pool) : Operation → Answer
  | acquire t deadline => .reply ((Pool.acquire t deadline).run p).1
  | resume acquirer => .reply ((Pool.resume acquirer).run p).1
  | detach lease => .handed ((Pool.detach lease).run p).1
  | releaseEnlisted t id => .flag ((Pool.releaseEnlisted t id).run p).1
  | sweep t s => .number ((Pool.sweep t s).run p).1
  | execute t s id => .flag ((Pool.execute t s id).run p).1
  | setFloor n => .ruled (p.setFloor n).1
  | setPatience d => .ruled (p.setPatience d).1
  | _ => .done

/-- An operation as a computation that ends with its answer. What calls no factory is done in one
step. -/
def Operation.call : Operation → PoolAct Answer
  | acquire t deadline => do return .reply (← Pool.acquire t deadline)
  | resume acquirer => do return .reply (← Pool.resume acquirer)
  | release t lease => do Pool.release t lease; return .done
  | invalidate lease => do Pool.invalidate lease; return .done
  | detach lease => do return .handed (← Pool.detach lease)
  | releaseEnlisted t id => do return .flag (← Pool.releaseEnlisted t id)
  | sweep t s => do return .number (← Pool.sweep t s)
  | execute t s id => do return .flag (← Pool.execute t s id)
  | setFloor n => do return .ruled (← .apply (·.setFloor n))
  | setPatience d => do return .ruled (← .apply (·.setPatience d))
  | create => do Pool.create; return .done
  | close => do Pool.close; return .done
  | vanish => do Pool.vanish; return .done
  | op => do .update fun p => op.run p; return .done

theorem Operation.call_run (op : Operation) (p : Pool) :
    op.call.run p = (op.answer p, op.run p) := by
  cases op <;>
    simp only [call, answer, run, Act.run_bind, Act.run_pure, Act.run_update, Act.run_apply]

/-- What goes on in a pool and around it. -/
inductive Turn where
  | operate (op : Operation)
  | register (l : Listener)
  | subscribe (name : String)
  | unsubscribe (name : String)
  | receive (name : String)

namespace Turn

def answer (p : Pool) : Turn → Answer
  | operate op => op.answer p
  | receive name => .received ((p.bus.receive? name).map (·.1))
  | _ => .done

def run (p : Pool) : Turn → Pool
  | operate op => op.run p
  | register l => { p with listeners := p.listeners ++ [l] }
  | subscribe name => { p with bus := p.bus.subscribe name }
  | unsubscribe name => { p with bus := p.bus.unsubscribe name }
  | receive name => { p with bus := ((p.bus.receive? name).map (·.2)).getD p.bus }

/-- Only subscribers have to do with this. -/
def isAside : Turn → Bool
  | subscribe _ | unsubscribe _ | receive _ => true
  | _ => false

/-- A turn as a computation that ends with its answer. -/
def call : Turn → PoolAct Answer
  | operate op => op.call
  | t => .apply fun p => (t.answer p, t.run p)

theorem call_run (t : Turn) (p : Pool) : t.call.run p = (t.answer p, t.run p) := by
  cases t with
  | operate op => exact op.call_run p
  | register l => rfl
  | subscribe name => rfl
  | unsubscribe name => rfl
  | receive name => rfl

end Turn

/-- The pool after some turns. -/
def afterTurns (p : Pool) (ts : List Turn) : Pool := ts.foldl Turn.run p

/-- The answers to all turns but those of subscribers, each with the pool after it. -/
def story (p : Pool) : List Turn → List (Answer × Pool)
  | [] => []
  | t :: ts => (if t.isAside then [] else [(t.answer p, t.run p)]) ++ (t.run p).story ts

end Pool
end ConnPool
