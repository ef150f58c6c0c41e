import ConnPool.Proofs.HolderRules

namespace ConnPool.Pool

open Act (Always)

/-- A relation between pools for which only the desk and the journal count. -/
class DeskRule (R : Pool → Pool → Prop) : Prop extends OutwardRule Always R where
  mend : ∀ {p q : Pool}, q.desk = p.desk → q.journal = p.journal → R p q

variable {R : Pool → Pool → Prop} [DeskRule R]

namespace DeskRule

variable (p : Pool)

theorem chain {p q r : Pool} (h : R p q) (k : R q r) : R p r := Act.Rule.trans Always h k

theorem transition (id : HandleId) (s t : State) : R p (p.transition id s t).2 := by
  rcases transition_cases p id s t with hlost | ⟨-, -, hwon⟩
  · rw [hlost]
    exact Act.Rule.refl Always p
  · rw [hwon]
    exact mend rfl rfl

theorem offer (t : Thread) (id : HandleId) : R p (p.offer t id).2 := by
  have hput : ∀ (h' : Handoff HandleId) (rs' : Recents),
      R p { p with handoff := h', recents := rs' } := fun _ _ => mend rfl rfl
  simp only [Pool.offer]
  split
  · exact hput _ _
  · exact hput _ _
  · refine chain (hput _ _) (OutwardRule.rouse Always _ _ fun a => ?_)
    split <;> exact ⟨rfl, rfl⟩

theorem cacheLocally (t : Thread) (id : HandleId) : R p (p.cacheLocally t id) := by
  simp only [Pool.cacheLocally]
  split
  · exact mend rfl rfl
  · exact Act.Rule.refl Always p

theorem claim (id : HandleId) : R p (p.claim id).2 := by
  have hmarked : R p (p.unqueue id) := mend rfl rfl
  exact chain hmarked (transition (p.unqueue id) id .checkedIn .checkedOut)

theorem takeQueued (t : Thread) (fuel : Nat) : R p (p.takeQueued t fuel).2 := by
  induction fuel generalizing p with
  | zero => exact Act.Rule.refl Always p
  | succ fuel ih =>
    have htake : ∀ (h' : Handoff HandleId) (rs' : Recents),
        R p { p with handoff := h', recents := rs' } := fun _ _ => mend rfl rfl
    simp only [Pool.takeQueued]
    split
    · exact htake _ _
    · next id handoff recents _ =>
      have hclaim : R p (Pool.claim { p with handoff := handoff, recents := recents } id).2 :=
        chain (htake handoff recents) (claim _ id)
      split
      · next hc =>
        rw [hc] at hclaim
        exact hclaim
      · next hc =>
        rw [hc] at hclaim
        exact chain hclaim (ih _)

theorem takeIdle (t : Thread) : R p (p.takeIdle t).2 := by
  have hforget : ∀ rs : Recents, R p { p with recents := rs } := fun _ => mend rfl rfl
  obtain ⟨rs, hnone⟩ | ⟨n, rs, -, hsome⟩ := p.takeLocal_cases t
  · simp only [Pool.takeIdle, hnone]
    exact chain (hforget rs) (takeQueued _ t _)
  · simp only [Pool.takeIdle, hsome]
    exact chain (hforget rs) (transition { p with recents := rs } ⟨n⟩ .checkedIn .checkedOut)

theorem assign (t : Thread) (started : Nat) (id : HandleId) : R p (p.assign t started id) := by
  -- without the unfolding `rfl` goes through every update again for every field
  refine mend ?_ ?_
  · simp only [Pool.assign, desk, touch]
    rfl
  · simp only [Pool.assign, touch]
    rfl

theorem handOver (t : Thread) (started : Nat) (id : HandleId) (c : Connection) :
    R p (p.handOver t started id c) :=
  chain (assign p t started id) (mend rfl rfl)

end DeskRule

instance : GrowthRule Always R where
  aside hc hj := DeskRule.mend (congrArg Prod.fst hc) hj
  empty _ := DeskRule.mend rfl rfl
  modify _ _ _ _ := DeskRule.mend rfl rfl
  offer p t id _ := DeskRule.offer p t id
  condemn p id s _ _ := DeskRule.transition p id s _
  emptySlot _ _ _ _ := DeskRule.mend rfl rfl
  strike _ id _ _ q _ _ := DeskRule.chain (DeskRule.transition q id _ _) (DeskRule.mend rfl rfl)
  enroll _ _ := DeskRule.mend rfl rfl
  move p id s t _ _ _ := DeskRule.transition p id s t

instance : LendingRule Always R fun _ _ => True where
  disassociate _ _ := DeskRule.mend rfl rfl
  part p id _ := DeskRule.transition p id _ _
  endLease _ _ := DeskRule.mend rfl rfl
  claim p id _ := ⟨DeskRule.claim p id, fun _ => trivial⟩
  active _ _ _ _ := trivial
  assign := DeskRule.assign
  assigned _ _ _ _ _ := trivial
  lend _ _ _ _ _ := DeskRule.mend rfl rfl

instance (t : Thread) : SearchRule t Always R fun _ _ => True where
  takeIdle p _ := ⟨DeskRule.takeIdle p t, fun _ _ => trivial⟩

theorem resume_keeps [WaitingRule Always R] (n : Nat) : Act.Keeps Always R (resume n) :=
  fun _ hp => resume_abides hp fun _ _ => inferInstance

theorem finishReturn_abides {p : Pool} {id : HandleId} (t : Thread) {target : State} (since : Nat)
    (hs : target = .toDestroy → p.stateOf? id = some .toDestroy) :
    (finishReturn t id target since).Abides Always R (fun _ => Always) p := by
  simp only [finishReturn]
  split
  · next hend => exact destroyNow_abides .shutdown false trivial (hs hend)
  · have hrest : ∀ p : Pool, Act.Keeps Always R (do
        Act.update (·.count fun n => { n with returned := n.returned + 1 })
        Act.update (·.notify (.afterReturn id))
        Act.update (·.emit (.returned p.name id (.ofNanos (p.clock - since))))
        Act.update (·.cacheLocally t id)
        publish t id : PoolAct Unit) := by
      refine fun p => .bind (aside_keeps fun _ => ⟨rfl, rfl⟩) fun _ => ?_
      refine .bind (notify_keeps rfl Hook.noConfusion)
        fun _ => .bind (aside_keeps fun _ => ⟨rfl, rfl⟩) fun _ => ?_
      exact .bind (.update fun p _ => DeskRule.cacheLocally p t id) fun _ => publish_keeps t id
    exact .read_bind (hrest p p trivial)

/-- Whoever takes a handle back goes on with it where it is now. -/
theorem return_keeps {id : HandleId} {target : State} {α : Type} {m n : PoolAct α}
    (hm : ∀ p : Pool, p.stateOf? id = some target → m.Abides Always R (fun _ => Always) p)
    (hn : Act.Keeps Always R n) :
    Act.Keeps Always R
      (Act.apply (·.transition id .checkedOut target) >>= fun moved => if moved then m else n) := by
  intro p hp
  refine .apply_bind (DeskRule.transition p id _ _) ?_
  rcases transition_cases p id .checkedOut target with hlost | ⟨-, hin, hwon⟩
  · rw [hlost]
    exact hn p hp
  · rw [hwon]
    exact hm _ (stateOf_restate hin target)

theorem giveBack_keeps (t : Thread) (id : HandleId) (since : Nat) :
    Act.Keeps Always R (giveBack t id since) := by
  refine .read fun p => .ite ?_ (.pure _)
  refine .bind (.update fun p _ => DeskRule.mend rfl rfl) fun _ => .read fun p => ?_
  exact return_keeps (fun p hs => finishReturn_abides t since fun hend => hend ▸ hs) (.pure _)

theorem release_keeps (t : Thread) (n : Nat) : Act.Keeps Always R (release t n) := by
  refine .bind (endLease_keeps n) fun r => ?_
  cases r with
  | none => exact .pure _
  | some l =>
    exact .bind (restore_keeps l.handle l.connection) fun _ => .ite (giveBack_keeps t _ _) (.pure _)

theorem releaseEnlisted_keeps (t : Thread) (id : HandleId) :
    Act.Keeps Always R (releaseEnlisted t id) := by
  refine .read fun p => ?_
  split
  · refine .read fun p => .bind (.update fun p _ => DeskRule.mend rfl rfl) fun _ => ?_
    refine return_keeps (fun p hs => ?_) (.pure _)
    exact (finishReturn_abides t _ fun hend => hend ▸ hs).bind fun _ _ hq => hq
  · exact .pure _
  · exact .bind (.update fun p _ => DeskRule.mend rfl rfl) fun _ => .pure _

end ConnPool.Pool
