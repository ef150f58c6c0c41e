namespace ConnPool

/-- A computation on a shared state `σ`, in steps that nothing can come between. At marked places it
may be held up until the call named there is let go; others may then change the state. -/
inductive Act (σ ι α : Type) where
  | done (a : α)
  | step (next : σ → σ) (rest : σ → Act σ ι α)
  | hold (call : ι) (rest : Act σ ι α)

namespace Act

variable {σ ι α β : Type}

def bind (m : Act σ ι α) (f : α → Act σ ι β) : Act σ ι β :=
  match m with
  | done a => f a
  | step next rest => step next fun s => (rest s).bind f
  | hold call rest => hold call (rest.bind f)

instance : Monad (Act σ ι) where
  pure := done
  bind := bind

def read : Act σ ι σ := step id done

def update (f : σ → σ) : Act σ ι Unit := step f fun _ => done ()

/-- One step that also answers. -/
def apply (f : σ → α × σ) : Act σ ι α := step (fun s => (f s).2) fun s => done (f s).1

def mark (call : ι) : Act σ ι Unit := hold call (done ())

/-- The whole computation, never held up. -/
def run : Act σ ι α → σ → α × σ
  | done a, s => (a, s)
  | step next rest, s => (rest s).run (next s)
  | hold _ rest, s => rest.run s

/-- The computation up to its end or to a call that is held. -/
def advance (held : ι → Bool) : Act σ ι α → σ → Act σ ι α × σ
  | done a, s => (done a, s)
  | step next rest, s => (rest s).advance held (next s)
  | hold call rest, s => if held call then (hold call rest, s) else rest.advance held s

/-- The call at which a computation is held up. -/
def heldAt? : Act σ ι α → Option ι
  | hold call _ => some call
  | _ => none

@[simp] theorem run_pure (a : α) (s : σ) : (pure a : Act σ ι α).run s = (a, s) := by
  rfl

@[simp] theorem run_bind (m : Act σ ι α) (f : α → Act σ ι β) (s : σ) :
    (m >>= f).run s = (f (m.run s).1).run (m.run s).2 := by
  change (m.bind f).run s = _
  induction m generalizing s with
  | done a => rfl
  | step next rest ih => exact ih s (next s)
  | hold call rest ih => exact ih s

@[simp] theorem run_read (s : σ) : (read : Act σ ι σ).run s = (s, s) := by
  rfl

@[simp] theorem run_update (f : σ → σ) (s : σ) : (update f : Act σ ι Unit).run s = ((), f s) := by
  rfl

@[simp] theorem run_apply (f : σ → α × σ) (s : σ) : (apply f : Act σ ι α).run s = f s := by
  rfl

@[simp] theorem run_mark (call : ι) (s : σ) : (mark call : Act σ ι Unit).run s = ((), s) := by
  rfl

theorem run_ite (c : Prop) [Decidable c] (m n : Act σ ι α) (s : σ) :
    (if c then m else n).run s = if c then m.run s else n.run s := by
  split <;> rfl

instance : LawfulMonad (Act σ ι) := LawfulMonad.mk' (Act σ ι)
  (fun m => by
    change m.bind done = m
    induction m with
    | done a => rfl
    | step next rest ih => simp only [bind, ih]
    | hold call rest ih => simp only [bind, ih])
  (fun _ _ => rfl)
  (fun m f g => by
    change (m.bind f).bind g = m.bind fun a => (f a).bind g
    induction m with
    | done a => rfl
    | step next rest ih => simp only [bind, ih]
    | hold call rest ih => simp only [bind, ih])

/-- Held calls only delay: what is left, run to the end, gives what a run at once gives. -/
theorem run_advance (held : ι → Bool) (m : Act σ ι α) (s : σ) :
    (m.advance held s).1.run (m.advance held s).2 = m.run s := by
  induction m generalizing s with
  | done a => rfl
  | step next rest ih => exact ih s (next s)
  | hold call rest ih =>
    simp only [advance]
    split
    · rfl
    · exact ih s

end Act
end ConnPool
