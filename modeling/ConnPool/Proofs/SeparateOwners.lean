import ConnPool.Proofs.BagOrder

namespace ConnPool

namespace Recents

variable {o owner : Nat} {r s u : Recents}

/-- The lists of an owner are as before, and so is whether it is dead. -/
structure Spares (o : Nat) (r s : Recents) : Prop where
  list : ∀ t, s.list o t = r.list o t
  dead : s.dead = r.dead

theorem Spares.refl (r : Recents) : Spares o r r := ⟨fun _ => rfl, rfl⟩

theorem Spares.trans (h : Spares o r s) (k : Spares o s u) : Spares o r u :=
  ⟨fun t => (k.list t).trans (h.list t), k.dead.trans h.dead⟩

/-- Sweeping a thread's lists leaves that of a living owner where it is. -/
theorem find_swept (hd : o ∉ r.dead) (t : Thread) :
    (r.swept t).find? (·.1 = o) = (r.owners t).find? (·.1 = o) := by
  simp only [swept]
  split
  · refine find_filter fun e he => ?_
    have heq : e.1 = o := of_decide_eq_true he
    simpa [heq] using hd
  · rfl

/-- A living owner keeps its lists when another one's are changed. -/
theorem set_spares (ho : o ≠ owner) (hd : o ∉ r.dead) (t : Thread) (xs : List Nat) :
    Spares o r (r.set owner t xs) := by
  refine ⟨fun t' => ?_, rfl⟩
  by_cases ht : t' = t
  · subst ht
    have howners : (r.set owner t' xs).owners t' = (owner, xs) :: (r.swept t').filter
        (·.1 ≠ owner) := by
      simp [owners, set]
    have hkept : ((r.swept t').filter (·.1 ≠ owner)).find? (·.1 = o) =
        (r.swept t').find? (·.1 = o) := by
      exact Keyed.find_filter_of_ne Prod.fst _ ho
    simp only [list]
    rw [howners, List.find?_cons_of_neg (by simpa using Ne.symm ho), hkept, find_swept hd]
  · simp only [list, Stacks.owners_set_of_ne r owner ht xs]

end Recents

namespace Bag

variable {α : Type} {b : Bag α} {o : Nat} {r : Recents}

theorem tryTake_spares (ho : o ≠ b.owner) (hd : o ∉ r.dead) (t : Thread) :
    (b.tryTake r t).2.1.owner = b.owner ∧ r.Spares o (b.tryTake r t).2.2 := by
  simp only [tryTake]
  split
  · exact ⟨rfl, Recents.set_spares ho hd t _⟩
  · split
    · exact ⟨rfl, Recents.set_spares ho hd t _⟩
    · exact ⟨rfl, Recents.set_spares ho hd t _⟩

theorem put_spares (ho : o ≠ b.owner) (hd : o ∉ r.dead) (t : Thread) (a : α) :
    (b.put r t a).2.1.owner = b.owner ∧ r.Spares o (b.put r t a).2.2 := by
  have hpush : r.Spares o (r.push b.owner t b.sequence) := Recents.set_spares ho hd t _
  simp only [put]
  split
  · exact ⟨rfl, .refl r⟩
  · split
    · exact ⟨rfl, hpush⟩
    · next w ws _ =>
      have htake := tryTake_spares (b := { b with
        entries := b.entries ++ [(b.sequence, a)], sequence := b.sequence + 1 }) ho
        (hpush.dead.symm ▸ hd) w.thread
      split
      · next heq =>
        rw [heq] at htake
        exact ⟨htake.1, hpush.trans htake.2⟩
      · next heq =>
        rw [heq] at htake
        exact ⟨htake.1, hpush.trans htake.2⟩

theorem take_spares (ho : o ≠ b.owner) (hd : o ∉ r.dead) (t : Taker) (expired : Bool) :
    (b.take r t expired).2.1.owner = b.owner ∧ r.Spares o (b.take r t expired).2.2 := by
  have htake := tryTake_spares ho hd t.thread
  simp only [take]
  split
  · next heq =>
    rw [heq] at htake
    exact htake
  · next heq =>
    rw [heq] at htake
    split
    · exact htake
    · split <;> exact htake

end Bag

namespace Handoff

variable {α : Type} {h : Handoff α} {o : Nat} {r : Recents}

/-- The number of a container among those that keep lists for each thread. -/
def owner? : Handoff α → Option Nat
  | bag b => some b.owner
  | _ => none

theorem put_spares (ho : h.owner? ≠ some o) (hd : o ∉ r.dead) (t : Thread) (a : α) :
    (h.put r t a).2.1.owner? = h.owner? ∧ r.Spares o (h.put r t a).2.2 := by
  cases h with
  | fifo q => exact ⟨rfl, .refl r⟩
  | rendezvous q => exact ⟨rfl, .refl r⟩
  | bag b =>
    obtain ⟨howner, hspares⟩ := Bag.put_spares (fun he => ho (congrArg some he.symm)) hd t a
    exact ⟨congrArg some howner, hspares⟩

theorem tryTake_spares (ho : h.owner? ≠ some o) (hd : o ∉ r.dead) (t : Thread) :
    (h.tryTake r t).2.1.owner? = h.owner? ∧ r.Spares o (h.tryTake r t).2.2 := by
  cases h with
  | fifo q => exact ⟨rfl, .refl r⟩
  | rendezvous q => exact ⟨rfl, .refl r⟩
  | bag b =>
    obtain ⟨howner, hspares⟩ := Bag.tryTake_spares (fun he => ho (congrArg some he.symm)) hd t
    exact ⟨congrArg some howner, hspares⟩

theorem take_spares (ho : h.owner? ≠ some o) (hd : o ∉ r.dead) (t : Taker) (expired : Bool) :
    (h.take r t expired).2.1.owner? = h.owner? ∧ r.Spares o (h.take r t expired).2.2 := by
  cases h with
  | fifo q => exact ⟨rfl, .refl r⟩
  | rendezvous q => exact ⟨rfl, .refl r⟩
  | bag b =>
    obtain ⟨howner, hspares⟩ := Bag.take_spares (fun he => ho (congrArg some he.symm)) hd t expired
    exact ⟨congrArg some howner, hspares⟩

theorem withdraw_owner (n : Nat) : (h.withdraw n).owner? = h.owner? := by
  cases h <;> rfl

theorem close_owner : h.close.2.2.owner? = h.owner? := by
  cases h <;> rfl

end Handoff
end ConnPool
