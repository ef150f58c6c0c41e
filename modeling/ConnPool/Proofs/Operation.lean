import ConnPool.Proofs.Acquires
import ConnPool.Proofs.Closing
import ConnPool.Proofs.Creations
import ConnPool.Proofs.Returns
import ConnPool.Proofs.Sweeps
import ConnPool.Proofs.PeakUsage

namespace ConnPool.Pool

variable {who : Option Nat} {p q : Pool}

theorem Course.sound {bs : List Birth} (h : Course who p bs q) (hp : p.Sound) (hfinal : p.Final) :
    q.Sound := by
  cases h with
  | calm steps => exact steps.sound hp
  | lent before lend after same =>
    exact after.sound (lend.lent (before.sound hp) (before.final hp hfinal)).sound
  | birth before first serial after same =>
    exact after.sound (birth_sound (before.sound hp) first serial)
  | closing before isOpen after final => exact after.sound (shut_sound (before.sound hp))

theorem Course.final {bs : List Birth} (h : Course who p bs q) (hp : p.Sound) (hfinal : p.Final) :
    q.Final := by
  cases h with
  | calm steps => exact steps.final hp hfinal
  | lent before lend after same =>
    have hlent := lend.lent (before.sound hp) (before.final hp hfinal)
    refine after.final hlent.sound fun hc => ?_
    rw [hlent.closed, hlent.isOpen] at hc
    cases hc
  | birth before first serial after same =>
    have hm := before.sound hp
    have hborn := birth_keeps hm first serial
    exact after.final (birth_sound hm first serial) (hborn.final (before.final hp hfinal))
  | closing before isOpen after final => exact final

theorem Course.moves {bs : List Birth} (h : Course who p bs q) (hp : p.Sound) (hfinal : p.Final) :
    Ledger.Moves p.ledger bs q.ledger := by
  cases h with
  | calm steps => exact steps.moves hp
  | lent before lend after same =>
    have hlent := lend.lent (before.sound hp) (before.final hp hfinal)
    exact (before.moves hp).trans (hlent.moves.trans (after.moves hlent.sound))
  | birth before first serial after same =>
    have hm := before.sound hp
    have hborn := (birth_ledger hm.books.fitting first serial).moves
    simpa using (before.moves hp).trans
      (hborn.trans (after.moves (birth_sound hm first serial)))
  | closing before isOpen after final =>
    have hm := before.sound hp
    have hafter := after.moves (shut_sound hm)
    rw [shut_ledger hm.lineup] at hafter
    exact (before.moves hp).trans hafter

/-- One more step after all else, if it leaves the gauges alone. -/
theorem Course.tail {r : Pool} {bs : List Birth} (h : Course who p bs q) (hp : p.Sound)
    (hfinal : p.Final) (last : Step who q r) (same : r.gauges = q.gauges) : Course who p bs r := by
  have hq := h.sound hp hfinal
  cases h with
  | calm steps => exact .calm (steps.tail last)
  | lent before lend after same' => exact .lent before lend (after.tail last) (same.trans same')
  | birth before first serial after same' =>
    exact .birth before first serial (after.tail last) (same.trans same')
  | closing before isOpen after final =>
    exact .closing before isOpen (after.tail last) ((last.keeps hq).final final)

theorem steps_setFloor (n : Nat) : Steps who p (p.setFloor n).2 := by
  simp only [setFloor]
  split
  · exact .refl
  · next hfits =>
    have hset : Step who p { p with floor := n } := .setFloor n (Nat.le_of_not_lt hfits)
    exact (hset.steps.hush (muted_log _ _ _ _)).trans steps_topUp

theorem steps_setPatience (d : Duration) : Steps who p (p.setPatience d).2 := by
  simp only [setPatience]
  split
  · exact .refl
  · exact (Step.setPatience _).steps

theorem course_vanish (hp : p.Sound) (hfinal : p.Final) : Course who p [] (vanish.run p).2 := by
  have hclose : Course who p [] (close.run p).2 := course_close hp
  have hgone := hclose.tail hp hfinal (.part (close.run p).2.owned true) rfl
  simp only [vanish, Act.run_bind, Act.run_update]
  exact hgone.tail hp hfinal (.hush rfl) rfl

/-- Creations run side by side: one that was scheduled later may be the next to end. -/
def overtake (p : Pool) (n : Nat) : Pool :=
  match p.inFlight[n]? with
  | some creation => { p with inFlight := creation :: p.inFlight.eraseIdx n }
  | none => p

/-- Creations only change places. -/
theorem overtake_eq (p : Pool) (n : Nat) :
    ∃ cs, cs.Perm p.inFlight ∧ p.overtake n = { p with inFlight := cs } := by
  simp only [overtake]
  split
  · next creation hn =>
    obtain ⟨hlt, hget⟩ := List.getElem?_eq_some_iff.mp hn
    refine ⟨_, ?_, rfl⟩
    rw [← hget]
    exact List.getElem_cons_eraseIdx_perm hlt
  · exact ⟨p.inFlight, List.Perm.refl _, rfl⟩

theorem steps_overtake (n : Nat) : Steps who p (p.overtake n) := by
  obtain ⟨cs, hsame, heq⟩ := p.overtake_eq n
  rw [heq]
  exact (Step.reorder cs hsame).steps

/-- What may be done to a pool from outside, by whichever thread, and what its background does. -/
inductive Operation where
  | acquire (t : Thread) (deadline : Nat)
  | resume (acquirer : Nat)
  | release (t : Thread) (lease : Nat)
  | invalidate (lease : Nat)
  | detach (lease : Nat)
  | write (lease : Nat) (text : String)
  | releaseEnlisted (t : Thread) (id : HandleId)
  | sweep (t : Thread) (s : Sweep)
  | execute (t : Thread) (s : Sweep) (id : HandleId)
  | topUp
  | setFloor (n : Nat)
  | setPatience (d : Duration)
  | create
  | overtake (n : Nat)
  | abandon (n : Nat)
  | close
  | vanish
  | disown
  | wait (n : Nat)
  | regroup (us : Units)
  | refit (f : Factory)
  | listen (ls : List Listener) (bus : Bus)

namespace Operation

/-- The pool after an operation that nothing interrupts. -/
def run (p : Pool) : Operation → Pool
  | acquire t deadline => ((Pool.acquire t deadline).run p).2
  | resume acquirer => ((Pool.resume acquirer).run p).2
  | release t lease => ((Pool.release t lease).run p).2
  | invalidate lease => ((Pool.invalidate lease).run p).2
  | detach lease => ((Pool.detach lease).run p).2
  | write lease text => p.write lease text
  | releaseEnlisted t id => ((Pool.releaseEnlisted t id).run p).2
  | sweep t s => ((Pool.sweep t s).run p).2
  | execute t s id => ((Pool.execute t s id).run p).2
  | topUp => p.topUp
  | setFloor n => (p.setFloor n).2
  | setPatience d => (p.setPatience d).2
  | create => (Pool.create.run p).2
  | overtake n => p.overtake n
  | abandon n => p.abandon n
  | close => (Pool.close.run p).2
  | vanish => (Pool.vanish.run p).2
  | disown => p.disown
  | wait n => { p with clock := p.clock + n }
  | regroup us => { p with units := us }
  | refit f => { p with factory := f }
  | listen ls bus => { p with listeners := ls, bus := bus }

/-- The connections that the factory returns during an operation, each with the handle that is made
for it. -/
def births (p : Pool) : Operation → List Birth
  | create => p.nextBirth
  | _ => []

/-- The acquirer on whose behalf an operation is done. -/
def behalf (p : Pool) : Operation → Option Nat
  | acquire _ _ => some p.nextTaker
  | resume acquirer => some acquirer
  | _ => none

theorem course (hp : p.Sound) (hfinal : p.Final) (op : Operation) :
    Course (op.behalf p) p (op.births p) (op.run p) := by
  cases op with
  | acquire t deadline => exact course_acquire hp hfinal t deadline
  | resume acquirer => exact course_resume hp hfinal acquirer
  | release t lease => exact .calm (steps_release hp t lease)
  | invalidate lease => exact .calm (steps_invalidate hp lease)
  | detach lease => exact .calm (steps_detach hp lease)
  | write lease text => exact .calm (Step.write lease text).steps
  | releaseEnlisted t id => exact .calm (steps_releaseEnlisted t id hp)
  | sweep t s => exact .calm (steps_sweep hp hfinal t s)
  | execute t s id => exact .calm (steps_execute hp hfinal t s id)
  | topUp => exact .calm steps_topUp
  | setFloor n => exact .calm (steps_setFloor n)
  | setPatience d => exact .calm (steps_setPatience d)
  | create => exact course_create hp
  | overtake n => exact .calm (steps_overtake n)
  | abandon n => exact .calm (Step.abandon n).steps
  | close => exact course_close hp
  | vanish => exact course_vanish hp hfinal
  | disown => exact .calm (Step.part false p.gone).steps
  | wait n => exact .calm (Step.wait n).steps
  | regroup us => exact .calm (Step.regroup us).steps
  | refit f => exact .calm (Step.refit f).steps
  | listen ls bus => exact .calm (.of_muted rfl)

end Operation
end ConnPool.Pool
