import ConnPool.Pool.Return

namespace ConnPool

namespace Act

variable {σ ι α β : Type} {g : σ → σ}

/-- The computation answers the same before and after a change, and leaves the change as it is. -/
def Ignores (g : σ → σ) (m : Act σ ι α) : Prop := ∀ s, m.run (g s) = ((m.run s).1, g (m.run s).2)

theorem Ignores.pure (a : α) : Ignores g (Pure.pure a : Act σ ι α) := fun _ => rfl

theorem Ignores.bind {m : Act σ ι α} {f : α → Act σ ι β} (hm : Ignores g m)
    (hf : ∀ a, Ignores g (f a)) : Ignores g (m >>= f) := by
  intro s
  rw [run_bind, run_bind, hm s]
  exact hf _ _

/-- What is read is used for what does not change only. -/
theorem Ignores.read {f : σ → Act σ ι β} (hsame : ∀ s, f (g s) = f s) (hf : ∀ s, Ignores g (f s)) :
    Ignores g (Act.read >>= f) := by
  intro s
  simp only [run_bind, run_read, hsame s]
  exact hf s s

theorem Ignores.update {f : σ → σ} (hf : ∀ s, f (g s) = g (f s)) :
    Ignores g (Act.update f : Act σ ι Unit) := by
  intro s
  simp only [run_update, hf]

theorem Ignores.apply {f : σ → α × σ} (hf : ∀ s, f (g s) = ((f s).1, g (f s).2)) :
    Ignores g (Act.apply f : Act σ ι α) := by
  intro s
  simp only [run_apply, hf]

theorem Ignores.mark (c : ι) : Ignores g (Act.mark c : Act σ ι Unit) := fun _ => rfl

theorem Ignores.ite {c : Prop} [Decidable c] {m n : Act σ ι α} (hm : Ignores g m)
    (hn : Ignores g n) : Ignores g (if c then m else n) := by
  split
  · exact hm
  · exact hn

end Act

namespace Pool

/-- The pool beside other units of work. -/
def beside (us : Units) (p : Pool) : Pool := { p with units := us }

variable (us : Units) (p : Pool)

theorem beside_transition (id : HandleId) (s t : State) :
    (p.beside us).transition id s t =
    ((p.transition id s t).1, (p.transition id s t).2.beside us) := by
  have hstate : (p.beside us).stateOf? id = p.stateOf? id := rfl
  simp only [transition, hstate]
  split <;> rfl

theorem beside_surrender (c : Connection) :
    (p.beside us).surrender c = (p.surrender c).beside us := by
  have hfactory : (p.beside us).factory = p.factory := rfl
  simp only [surrender, hfactory]
  split <;> rfl

theorem beside_logCloseError (id : HandleId) (e : Option String) :
    (p.beside us).logCloseError id e = (p.logCloseError id e).beside us := by
  cases e <;> rfl

theorem beside_strike (id : HandleId) (reserved : Bool) :
    (p.beside us).strike id reserved = (p.strike id reserved).beside us := by
  simp only [strike, beside_transition]
  rfl

theorem beside_offer (t : Thread) (id : HandleId) :
    (p.beside us).offer t id = ((p.offer t id).1, (p.offer t id).2.beside us) := by
  have hput : (p.beside us).handoff.put (p.beside us).recents t id = p.handoff.put p.recents t id :=
    rfl
  simp only [offer, hput]
  split <;> rfl

theorem beside_cacheLocally (t : Thread) (id : HandleId) :
    (p.beside us).cacheLocally t id = (p.cacheLocally t id).beside us := by
  have hconfig : (p.beside us).config = p.config := rfl
  simp only [cacheLocally, hconfig]
  split <;> rfl

open Act (Ignores)

variable {us}

theorem closeConnection_ignores (c : Connection) : Ignores (beside us) (closeConnection c) := by
  refine .bind (.update fun p => beside_surrender us p c) fun _ => ?_
  refine .read (fun _ => rfl) fun p => .ite ?_ ?_
  · exact .bind (.mark _) fun _ => .read (fun _ => rfl) fun _ => .pure _
  · exact .read (fun _ => rfl) fun _ => .pure _

theorem closeSlot_ignores (id : HandleId) : Ignores (beside us) (closeSlot id) := by
  refine .read (fun _ => rfl) fun p => ?_
  split
  · refine .bind (.update fun _ => rfl) fun _ => .bind (closeConnection_ignores _) fun error => ?_
    exact .bind (.update fun p => beside_logCloseError us p id error) fun _ => .update fun _ => rfl
  · exact .pure _

theorem destroyNow_ignores (id : HandleId) (reason : DestroyReason) (reserved : Bool) :
    Ignores (beside us) (destroyNow id reason reserved) := by
  refine .bind (closeSlot_ignores id) fun _ => ?_
  refine .bind (.update fun p => beside_strike us p id reserved) fun _ => ?_
  exact .bind (.update fun _ => rfl) fun _ => .update fun _ => rfl

theorem publish_ignores (t : Thread) (id : HandleId) : Ignores (beside us) (publish t id) := by
  refine .read (fun _ => rfl) fun p => .ite (.pure _) (.bind (.update fun _ => rfl) fun _ => ?_)
  refine .bind (.apply fun p => beside_offer us p t id) fun _ => .ite (.pure _) ?_
  refine .bind (.update fun _ => rfl) fun _ => ?_
  refine .bind (.apply fun p => beside_transition us p id _ _) fun _ => .ite ?_ (.pure _)
  exact destroyNow_ignores id _ false

theorem finishReturn_ignores (t : Thread) (id : HandleId) (target : State) (since : Nat) :
    Ignores (beside us) (finishReturn t id target since) := by
  refine .ite (destroyNow_ignores id _ false) (.read (fun _ => rfl) fun p => ?_)
  refine .bind (.update fun _ => rfl) fun _ => .bind (.update fun _ => rfl) fun _ => ?_
  refine .bind (.update fun _ => rfl) fun _ => ?_
  exact .bind (.update fun p => beside_cacheLocally us p t id) fun _ => publish_ignores t id

/-- A handle is returned in the same way whatever the units of work are. -/
theorem giveBack_ignores (t : Thread) (id : HandleId) (since : Nat) :
    Ignores (beside us) (giveBack t id since) := by
  refine .read (fun _ => rfl) fun p => .ite ?_ (.pure _)
  refine .bind (.update fun _ => rfl) fun _ => .read (fun _ => rfl) fun p => ?_
  refine .bind (.apply fun p => beside_transition us p id _ _) fun _ => .ite ?_ (.pure _)
  exact finishReturn_ignores t id _ since

end Pool
end ConnPool
