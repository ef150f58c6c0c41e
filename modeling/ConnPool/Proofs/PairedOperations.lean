import ConnPool.Proofs.Audience
import ConnPool.Proofs.PairedPools

namespace ConnPool

open Pool (PairRule)

section

variable {φ α : Type} {R : φ → Pool → Pool → Prop} [PairRule R]

/-- What is read of a pool and does not lie around it is the same. -/
theorem Act.Respects.look {f : Pool → PoolAct α} (hsame : ∀ p q, f (p.inPlaceOf q) = f p)
    (hf : ∀ p, Act.Respects R (f p)) : Act.Respects R (Act.read >>= f) := by
  refine .read fun w p q h => ?_
  rw [PairRule.same hsame h]
  exact hf p

theorem Act.Respects.inside {f : Pool → Pool} (hf : ∀ p q, f (p.inPlaceOf q) = (f p).inPlaceOf q) :
    Act.Respects R (Act.update f : PoolAct Unit) :=
  .update fun _ _ _ h => PairRule.inside hf h

theorem Act.Respects.inner {f : Pool → α × Pool}
    (hf : ∀ p q, f (p.inPlaceOf q) = ((f p).1, (f p).2.inPlaceOf q)) :
    Act.Respects R (Act.apply f : PoolAct α) :=
  .apply fun _ _ _ h => PairRule.inner hf h

theorem Act.Respects.log (level : Level) (message : String) (fields : List (String × Field)) :
    Act.Respects R (Act.update (·.log level message fields) : PoolAct Unit) :=
  .update fun _ _ _ h => PairRule.log _ _ _ h

theorem Act.Respects.notify (k : Hook) : Act.Respects R (Act.update (·.notify k) : PoolAct Unit) :=
  .update fun _ _ _ h => PairRule.notify k h

theorem Act.Respects.emitted {e : Pool → Event} (he : ∀ p q, e (p.inPlaceOf q) = e p) :
    Act.Respects R (Act.update fun p => p.emit (e p) : PoolAct Unit) :=
  .update fun _ _ _ h => PairRule.emitted he h

theorem Act.Respects.transition (id : HandleId) (s t : State) :
    Act.Respects R (Act.apply (·.transition id s t) : PoolAct Bool) :=
  .apply fun _ _ _ h => PairRule.transition id s t h

end

namespace Pool

open Act (Respects)

variable {φ : Type} {R : φ → Pool → Pool → Prop} [PairRule R]

theorem closeConnection_respects (c : Connection) : Respects R (closeConnection c) := by
  refine .bind (.update fun _ _ _ h => PairRule.surrender c h) fun _ => ?_
  refine .look (fun _ _ => rfl) fun p => .ite ?_ ?_
  · exact .bind (.mark _) fun _ => .look (fun _ _ => rfl) fun _ => .pure _
  · exact .look (fun _ _ => rfl) fun _ => .pure _

theorem closeSlot_respects (id : HandleId) : Respects R (closeSlot id) := by
  refine .look (fun _ _ => rfl) fun p => ?_
  split
  · refine .bind (.inside fun _ _ => rfl)
      fun _ => .bind (closeConnection_respects _) fun error => ?_
    exact .bind (.update fun _ _ _ h => PairRule.logCloseError id error h) fun _ => .notify _
  · exact .pure _

theorem destroyNow_respects (id : HandleId) (reason : DestroyReason) (reserved : Bool) :
    Respects R (destroyNow id reason reserved) := by
  refine .bind (closeSlot_respects id) fun _ => ?_
  refine .bind (.inside fun p q => inPlaceOf_strike p q id reserved) fun _ => ?_
  exact .bind (.log _ _ _) fun _ => .emitted fun _ _ => rfl

theorem destroy_respects (id : HandleId) (reason : DestroyReason) :
    Respects R (destroy id reason) :=
  .bind (destroyNow_respects id reason false) fun _ => .update fun _ _ _ h => PairRule.topUp h

theorem retire_respects (id : HandleId) (reason : DestroyReason) :
    Respects R (retire id reason) := by
  refine .bind (.inside fun _ _ => rfl) fun _ => .bind (.transition id _ _) fun b => .ite ?_ ?_
  · exact destroy_respects id reason
  · exact .pure _

theorem publish_respects (t : Thread) (id : HandleId) : Respects R (publish t id) := by
  refine .look (fun _ _ => rfl) fun p => .ite (.pure _) ?_
  refine .bind (.inside fun _ _ => rfl) fun _ => ?_
  refine .bind (.apply fun _ _ _ h => PairRule.offer t id h) fun _ => .ite (.pure _) ?_
  refine .bind (.inside fun _ _ => rfl) fun _ => .bind (.transition id _ _) fun _ => .ite ?_ ?_
  · exact destroyNow_respects id _ false
  · exact .pure _

theorem seat_respects (id : HandleId) : Respects R (seat id) := by
  refine .look (fun _ _ => rfl) fun p => .ite ?_ ?_
  · refine .bind (.transition id _ _) fun _ => .ite ?_ ?_
    · exact destroyNow_respects id _ false
    · exact .pure _
  · refine .bind (.transition id _ _) fun _ => .ite ?_ ?_
    · exact .bind (.inside fun _ _ => rfl) fun _ => publish_respects .background id
    · exact .pure _

theorem welcome_respects (c : Connection) : Respects R (welcome c) := by
  refine .look (fun _ _ => rfl) fun p => .bind (.inside fun _ _ => rfl) fun _ =>
    .bind (.log _ _ _) fun _ => ?_
  exact .bind (.notify _) fun _ => .bind (.emitted fun _ _ => rfl) fun _ => seat_respects _

theorem lament_respects (e : String) (acquirer : Option Nat) : Respects R (lament e acquirer) := by
  refine .bind (.inside fun _ _ => rfl) fun _ => .bind (.log _ _ _) fun _ => ?_
  refine .bind (.notify _) fun _ => .bind (.emitted fun _ _ => rfl) fun _ => ?_
  cases acquirer with
  | some a => exact .inside fun _ _ => rfl
  | none => exact .notify _

theorem attempt_respects (n : Nat) : Respects R (Act.update (·.attempt n) : PoolAct Unit) := by
  refine .update fun w p q h => ?_
  exact PairRule.inside (f := fun r => { r with attempts := n })
    (fun _ _ => rfl) (PairRule.note _ rfl h)

theorem create_respects : Respects R create := by
  refine .look (fun _ _ => rfl) fun p => ?_
  split
  · exact .pure _
  · next creation _ _ =>
    refine .bind (.notify _) fun _ => .look (fun _ _ => rfl) fun p => ?_
    refine .bind (attempt_respects _) fun _ => .look (fun _ _ => rfl) fun p => ?_
    split
    · refine .bind (welcome_respects _) fun _ => .inside fun p q => ?_
      cases creation.acquirer <;> rfl
    · exact .bind (lament_respects _ _) fun _ => .inside fun _ _ => rfl

theorem checkOut_respects (t : Thread) (started : Nat) (id : HandleId) :
    Respects R (checkOut t started id) := by
  refine .look (fun _ _ => rfl) fun p => ?_
  split
  · exact .bind (.log _ _ _) fun _ => .bind (retire_respects id _) fun _ => .pure _
  · refine .bind (.update fun _ _ _ h => PairRule.assign t started id h) fun _ => ?_
    exact .bind (.inner fun _ _ => rfl) fun _ => .pure _

theorem search_respects (t : Thread) (started fuel : Nat) : Respects R (search t started fuel) := by
  induction fuel with
  | zero => exact .pure _
  | succ fuel ih =>
    refine .bind (.apply fun _ _ _ h => PairRule.takeIdle t h) fun r => ?_
    cases r with
    | none => exact .pure _
    | some id =>
      refine .bind (checkOut_respects t started id) fun r => ?_
      cases r with
      | none => exact ih
      | some lease => exact .pure _

theorem conclude_respects (result : Except Failure Nat) : Respects R (conclude result) := by
  cases result with
  | ok n =>
    refine .look (fun _ _ => rfl) fun p => ?_
    split
    · exact .bind (.notify _) fun _ => .pure _
    · exact .bind (.pure _) fun _ => .pure _
  | error f => exact .bind (.notify _) fun _ => .pure _

theorem leave_respects (n : Nat) : Respects R (Act.update (·.leave n) : PoolAct Unit) :=
  .update fun _ _ _ h => PairRule.leave n h

theorem linger_respects (a : Acquirer) : Respects R (linger a) := by
  unfold linger
  split
  · exact .bind (leave_respects _) fun _ => .look (fun _ _ => rfl) fun _ => conclude_respects _
  · refine .bind (.inner fun p q => inPlaceOf_grow p q a) fun a => .read fun w p q h => ?_
    have hclock : q.clock = p.clock := PairRule.same (fun _ _ => rfl) h
    have hfailure : q.closedFailure = p.closedFailure := PairRule.same (fun _ _ => rfl) h
    have hclosed : q.handoff.isClosed = p.handoff.isClosed := congrArg (·.closed) (PairRule.view h)
    rw [hclock, hfailure, hclosed]
    refine Respects.ite ?_ (.ite ?_ ?_)
    · refine .bind (leave_respects _) fun _ => ?_
      exact .bind (.apply fun _ _ _ h => PairRule.timedOut a h) fun _ => conclude_respects _
    · exact .bind (leave_respects _) fun _ => conclude_respects _
    · exact .bind (.update fun _ _ _ h => PairRule.park a h) fun _ => .pure _

theorem turn_respects (a : Acquirer) : Respects R (turn a) := by
  refine .look (fun _ _ => rfl) fun p => .bind (search_respects _ _ _) fun r => ?_
  cases r with
  | some lease => exact .bind (leave_respects _) fun _ => conclude_respects _
  | none => exact linger_respects a

theorem reuse_respects (t : Thread) : Respects R (reuse t) := by
  refine .look (fun _ _ => rfl) fun p => ?_
  split
  · exact .pure _
  · split
    · refine .bind (.inside fun _ _ => rfl) fun _ => .bind (.log _ _ _) fun _ => ?_
      exact .bind (.inner fun _ _ => rfl) fun _ => .pure _
    · exact .pure _
    · exact .bind (.inside fun _ _ => rfl) fun _ => .pure _

theorem acquire_respects (t : Thread) (deadline : Nat) : Respects R (acquire t deadline) := by
  refine .bind (.notify _) fun _ => .look (fun _ _ => rfl) fun p => .ite (conclude_respects _) ?_
  refine .bind (reuse_respects t) fun r => ?_
  rcases r with f | _ | lease
  · exact conclude_respects _
  · exact .bind (.inner fun _ _ => rfl) fun _ => turn_respects _
  · exact conclude_respects _

theorem resume_respects (id : Nat) : Respects R (resume id) := by
  refine .look (fun _ _ => rfl) fun p => ?_
  split
  · exact .pure _
  · split
    · exact turn_respects _
    · exact .bind (leave_respects id) fun _ => .look (fun _ _ => rfl) fun _ => conclude_respects _
    · next k _ =>
      refine .bind (leave_respects id)
        fun _ => .bind (.apply fun _ _ _ h => PairRule.claim k h) fun _ =>
        .ite ?_ (turn_respects _)
      refine .bind (checkOut_respects _ _ k) fun r => ?_
      cases r with
      | some lease => exact conclude_respects _
      | none => exact turn_respects _

theorem finishReturn_respects (t : Thread) (id : HandleId) (target : State) (since : Nat) :
    Respects R (finishReturn t id target since) := by
  refine .ite (destroyNow_respects id _ false) (.look (fun _ _ => rfl) fun p => ?_)
  refine .bind (.inside fun _ _ => rfl) fun _ => .bind (.notify _) fun _ => ?_
  refine .bind (.emitted fun _ _ => rfl) fun _ => ?_
  exact .bind (.update fun _ _ _ h => PairRule.cacheLocally t id h) fun _ => publish_respects t id

theorem giveBack_respects (t : Thread) (id : HandleId) (since : Nat) :
    Respects R (giveBack t id since) := by
  refine .look (fun _ _ => rfl) fun p => .ite ?_ (.pure _)
  refine .bind (.inside fun _ _ => rfl) fun _ => .look (fun _ _ => rfl) fun p => ?_
  exact .bind (.transition id _ _) fun _ => .ite (finishReturn_respects t id _ since) (.pure _)

theorem endLease_respects (number : Nat) :
    Respects R (Act.apply (·.endLease number) : PoolAct (Option Lease)) :=
  .inner fun _ _ => rfl

theorem release_respects (t : Thread) (number : Nat) : Respects R (release t number) := by
  refine .bind (endLease_respects number) fun r => ?_
  cases r with
  | none => exact .pure _
  | some l => exact .bind (.inside fun _ _ => rfl) fun _ => .ite (giveBack_respects t _ _) (.pure _)

theorem invalidate_respects (number : Nat) : Respects R (invalidate number) := by
  refine .bind (endLease_respects number) fun r => ?_
  cases r with
  | none => exact .pure _
  | some l =>
    exact .bind (.inside fun _ _ => rfl) fun _ => .bind (.log _ _ _) fun _ => retire_respects _ _

theorem detach_respects (number : Nat) : Respects R (detach number) := by
  refine .bind (endLease_respects number) fun r => ?_
  cases r with
  | none => exact .pure _
  | some l =>
    refine .bind (.inside fun _ _ => rfl) fun _ => .bind (.log _ _ _) fun _ => ?_
    exact .bind (retire_respects _ _) fun _ => .pure _

theorem releaseEnlisted_respects (t : Thread) (id : HandleId) :
    Respects R (releaseEnlisted t id) := by
  refine .look (fun _ _ => rfl) fun p => ?_
  split
  · refine .look (fun _ _ => rfl) fun p => .bind (.inside fun _ _ => rfl) fun _ => ?_
    refine .bind (.transition id _ _) fun _ => .ite ?_ (.pure _)
    exact .bind (finishReturn_respects t id _ _) fun _ => .pure _
  · exact .pure _
  · exact .bind (.inside fun _ _ => rfl) fun _ => .pure _

theorem probe_respects (id : HandleId) : Respects R (probe id) := by
  refine .look (fun _ _ => rfl) fun p => ?_
  split
  · exact .pure _
  · next c _ =>
    refine .ite ?_ (.inner fun _ _ => rfl)
    refine .bind (.update fun _ _ _ h => PairRule.note (.probe c) rfl h) fun _ => ?_
    exact .bind (.mark _) fun _ => .inner fun _ _ => rfl

theorem pass_respects (t : Thread) (id : HandleId) : Respects R (pass t id) :=
  .bind (.transition id _ _) fun _ => .ite (publish_respects t id) (.pure _)

theorem fail_respects (id : HandleId) : Respects R (fail id) := by
  refine .bind (.inside fun _ _ => rfl) fun _ => .bind (.log _ _ _) fun _ => ?_
  exact .bind (.transition id _ _) fun _ => .ite (destroy_respects id _) (.pure _)

theorem validate_respects (t : Thread) (id : HandleId) : Respects R (validate t id) := by
  refine .bind (.transition id _ _) fun _ => .ite ?_ (.pure _)
  refine .bind (probe_respects id) fun valid => .bind (.notify _) fun _ => .ite ?_ ?_
  · exact .bind (pass_respects t id) fun _ => .pure _
  · exact .bind (fail_respects id) fun _ => .pure _

theorem reportLeak_respects (id : HandleId) : Respects R (reportLeak id) := by
  refine .apply fun w p q h => ?_
  have hfind : q.find? id = p.find? id := PairRule.same (f := (·.find? id)) (fun _ _ => rfl) h
  have hsuspect : ∀ k, q.isSuspect k = p.isSuspect k :=
    fun k => PairRule.same (f := (·.isSuspect k)) (fun _ _ => rfl) h
  have hcount := PairRule.inside (f := fun r => r.count fun n =>
    { n with leaksSuspected := n.leaksSuspected + 1 }) (fun _ _ => rfl) h
  have hlogged :=
    PairRule.log .warn "Connection leak suspected" [("handle", .shown id.label)] hcount
  rw [hfind]
  cases p.find? id with
  | none => exact ⟨rfl, h⟩
  | some k =>
    simp only [hsuspect]
    split
    · have hheld : Event.leakSuspected q.name id (.ofNanos (q.idleFor k)) =
          .leakSuspected p.name id (.ofNanos (p.idleFor k)) :=
        PairRule.same (f := fun r => Event.leakSuspected r.name id (.ofNanos (r.idleFor k)))
          (fun _ _ => rfl) h
      exact ⟨rfl, hheld ▸ PairRule.emit _ (PairRule.notify _ hlogged)⟩
    · exact ⟨rfl, h⟩

theorem reap_respects (id : HandleId) : Respects R (reap id) := by
  refine .bind (.inner fun p q => inPlaceOf_claimStale p q id) fun _ => .ite ?_ (.pure _)
  refine .bind (.inside fun _ _ => rfl) fun _ => .bind (.notify _) fun _ => ?_
  exact .bind (destroyNow_respects id _ true) fun _ => .pure _

theorem execute_respects (t : Thread) (s : Sweep) (id : HandleId) :
    Respects R (execute t s id) := by
  cases s with
  | validation => exact validate_respects t id
  | leak => exact reportLeak_respects id
  | reap => exact reap_respects id

theorem executeAll_respects (t : Thread) (s : Sweep) (ids : List HandleId) :
    Respects R (executeAll t s ids) := by
  induction ids with
  | nil => exact .pure _
  | cons id ids ih => exact .bind (execute_respects t s id) fun _ => .bind ih fun _ => .pure _

theorem sweep_respects (t : Thread) (s : Sweep) : Respects R (sweep t s) := by
  refine .look (fun _ _ => ?_) fun p => .ite (.pure _) ?_
  · cases s <;> rfl
  · refine .bind (executeAll_respects t s _) fun _ => .ite ?_ (.pure _)
    exact .bind (.update fun _ _ _ h => PairRule.topUp h) fun _ => .pure _

theorem destroyIdle_respects (ids : List HandleId) : Respects R (destroyIdle ids) := by
  induction ids with
  | nil => exact .pure _
  | cons id ids ih =>
    refine .bind (.transition id _ _) fun _ => .ite ?_ ih
    exact .bind (destroyNow_respects id _ false) fun _ => ih

theorem close_respects : Respects R close := by
  refine .look (fun _ _ => rfl) fun p => .ite (.pure _) ?_
  refine .bind (.update fun _ _ _ h => ?_) fun _ => ?_
  · exact PairRule.log _ _ _
      (PairRule.inside (f := fun r => { r with closed := true }) (fun _ _ => rfl) h)
  · refine .bind (.update fun _ _ _ h => PairRule.closeHandoff h) fun _ => ?_
    exact .look (fun _ _ => rfl) fun p => destroyIdle_respects _

theorem vanish_respects : Respects R vanish := by
  refine .bind close_respects fun _ => .update fun w p q h => ?_
  exact PairRule.shut (PairRule.inside (f := fun r => { r with gone := true }) (fun _ _ => rfl) h)

/-- Every operation but a change of the audience. -/
theorem Operation.call_respects {op : Operation} (hop : ∀ ls bus, op ≠ .listen ls bus) :
    Respects R op.call := by
  cases op with
  | acquire t deadline => exact .bind (acquire_respects t deadline) fun _ => .pure _
  | resume acquirer => exact .bind (resume_respects acquirer) fun _ => .pure _
  | release t lease => exact .bind (release_respects t lease) fun _ => .pure _
  | invalidate lease => exact .bind (invalidate_respects lease) fun _ => .pure _
  | detach lease => exact .bind (detach_respects lease) fun _ => .pure _
  | write lease text => exact .bind (.inside fun _ _ => rfl) fun _ => .pure _
  | releaseEnlisted t id => exact .bind (releaseEnlisted_respects t id) fun _ => .pure _
  | sweep t s => exact .bind (sweep_respects t s) fun _ => .pure _
  | execute t s id => exact .bind (execute_respects t s id) fun _ => .pure _
  | topUp => exact .bind (.update fun _ _ _ h => PairRule.topUp h) fun _ => .pure _
  | setFloor n => exact .bind (.apply fun _ _ _ h => PairRule.setFloor n h) fun _ => .pure _
  | setPatience d => exact .bind (.apply fun _ _ _ h => PairRule.setPatience d h) fun _ => .pure _
  | create => exact .bind create_respects fun _ => .pure _
  | overtake n => exact .bind (.inside fun p q => inPlaceOf_overtake p q n) fun _ => .pure _
  | abandon n => exact .bind (.inside fun p q => inPlaceOf_abandon p q n) fun _ => .pure _
  | close => exact .bind close_respects fun _ => .pure _
  | vanish => exact .bind vanish_respects fun _ => .pure _
  | disown => exact .bind (.inside fun _ _ => rfl) fun _ => .pure _
  | wait n => exact .bind (.inside fun _ _ => rfl) fun _ => .pure _
  | regroup us => exact .bind (.inside fun _ _ => rfl) fun _ => .pure _
  | refit f => exact .bind (.inside fun _ _ => rfl) fun _ => .pure _
  | listen ls bus => exact absurd rfl (hop ls bus)

end Pool
end ConnPool
