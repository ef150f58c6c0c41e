import ConnPool.Act

namespace ConnPool.Act

variable {φ σ ι α β : Type} {R : φ → σ → σ → Prop}

/-- Two computations go side by side. `R` lists what there may be between two states; each step
keeps all of it, and which steps follow is the same from any two states with something of it between
them. -/
inductive Paired (R : φ → σ → σ → Prop) : Act σ ι α → Act σ ι α → Prop where
  | done (a : α) : Paired R (Act.done a) (Act.done a)
  | step {next next' : σ → σ} {rest rest' : σ → Act σ ι α}
    (keeps : ∀ w s t, R w s t → R w (next s) (next' t))
    (goOn : ∀ w s t, R w s t → Paired R (rest s) (rest' t)) :
    Paired R (Act.step next rest) (Act.step next' rest')
  | hold (call : ι) {rest rest' : Act σ ι α} (goOn : Paired R rest rest') :
    Paired R (Act.hold call rest) (Act.hold call rest')

/-- The answer of a computation that has come to its end. -/
def answer? : Act σ ι α → Option α
  | done a => some a
  | _ => none

variable {m n : Act σ ι α} {w : φ} {s t : σ}

theorem Paired.answer (h : Paired R m n) : n.answer? = m.answer? := by
  cases h <;> rfl

theorem Paired.heldAt (h : Paired R m n) : n.heldAt? = m.heldAt? := by
  cases h <;> rfl

theorem Paired.bind {f g : α → Act σ ι β} (h : Paired R m n) (hf : ∀ a, Paired R (f a) (g a)) :
    Paired R (m >>= f) (n >>= g) := by
  change Paired R (m.bind f) (n.bind g)
  induction h with
  | done a => exact hf a
  | step keeps _ ih => exact .step keeps ih
  | hold call _ ih => exact .hold call ih

theorem Paired.run (h : Paired R m n) (hs : R w s t) :
    (n.run t).1 = (m.run s).1 ∧ R w (m.run s).2 (n.run t).2 := by
  induction h generalizing s t with
  | done a => exact ⟨rfl, hs⟩
  | step keeps _ ih => exact ih w s t hs (keeps w s t hs)
  | hold call _ ih => exact ih hs

/-- Up to a call that is held, and from there on. -/
theorem Paired.advance (h : Paired R m n) (held : ι → Bool) (hs : R w s t) :
    Paired R (m.advance held s).1 (n.advance held t).1 ∧
      R w (m.advance held s).2 (n.advance held t).2 := by
  induction h generalizing s t with
  | done a => exact ⟨.done a, hs⟩
  | step keeps _ ih => exact ih w s t hs (keeps w s t hs)
  | hold call goOn ih =>
    simp only [Act.advance]
    split
    · exact ⟨.hold call goOn, hs⟩
    · exact ih hs

/-- A computation goes side by side with itself. -/
def Respects (R : φ → σ → σ → Prop) (m : Act σ ι α) : Prop := Paired R m m

theorem Respects.pure (a : α) : Respects R (Pure.pure a : Act σ ι α) := Paired.done a

theorem Respects.bind {f : α → Act σ ι β} (hm : Respects R m) (hf : ∀ a, Respects R (f a)) :
    Respects R (m >>= f) :=
  Paired.bind hm hf

theorem Respects.read {f : σ → Act σ ι β} (hf : ∀ w s t, R w s t → Paired R (f s) (f t)) :
    Respects R (Act.read >>= f) :=
  Paired.step (fun _ _ _ h => h) hf

theorem Respects.update {f : σ → σ} (hf : ∀ w s t, R w s t → R w (f s) (f t)) :
    Respects R (Act.update f : Act σ ι Unit) :=
  Paired.step hf fun _ _ _ _ => .done ()

theorem Respects.apply {f : σ → α × σ}
    (hf : ∀ w s t, R w s t → (f t).1 = (f s).1 ∧ R w (f s).2 (f t).2) :
    Respects R (Act.apply f : Act σ ι α) := by
  refine Paired.step (fun w s t h => (hf w s t h).2) fun w s t h => ?_
  rw [(hf w s t h).1]
  exact .done _

theorem Respects.mark (c : ι) : Respects R (Act.mark c : Act σ ι Unit) := Paired.hold c (.done ())

theorem Respects.ite {c : Prop} [Decidable c] (hm : Respects R m) (hn : Respects R n) :
    Respects R (if c then m else n) := by
  split
  · exact hm
  · exact hn

end ConnPool.Act
