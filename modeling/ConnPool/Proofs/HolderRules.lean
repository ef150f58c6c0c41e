import ConnPool.Proofs.MaintenanceRules

namespace ConnPool.Pool

/-- A rule that also lets active handles be ended by their holders. -/
class HolderRule (I : Pool → Prop) (R : Pool → Pool → Prop) : Prop extends MaintenanceRule I R where
  disassociate : ∀ (p : Pool) (id : HandleId), R p (p.disassociate id)
  part : ∀ (p : Pool) (id : HandleId), I p → R p (p.transition id .checkedOut .toDestroy).2
  endLease : ∀ (p : Pool) (n : Nat), R p (p.endLease n).2

/-- A rule that also lets those handles be lent of which `L` holds. It holds of what was claimed. -/
class LendingRule (I : Pool → Prop) (R : Pool → Pool → Prop)
    (L : outParam (HandleId → Pool → Prop)) :
    Prop extends HolderRule I R where
  claim : ∀ (p : Pool) (id : HandleId), I p →
    R p (p.claim id).2 ∧ ((p.claim id).1 = true → L id (p.claim id).2)
  active : ∀ (p : Pool) (id : HandleId), I p → p.stateOf? id = some .checkedOut → L id p
  assign : ∀ (p : Pool) (t : Thread) (started : Nat) (id : HandleId), R p (p.assign t started id)
  assigned : ∀ (p : Pool) (t : Thread) (started : Nat) (id : HandleId), L id p →
    L id (p.assign t started id)
  lend : ∀ (p : Pool) (id : HandleId) (c : Connection) (enlisted : Bool), L id p →
    R p (p.lend id c enlisted).2

/-- A rule that also lets one thread look for an idle handle. -/
class SearchRule (t : Thread) (I : Pool → Prop) (R : Pool → Pool → Prop)
    (L : outParam (HandleId → Pool → Prop)) : Prop extends LendingRule I R L where
  takeIdle : ∀ p : Pool, I p →
    R p (p.takeIdle t).2 ∧ ∀ id, (p.takeIdle t).1 = some id → L id (p.takeIdle t).2

/-- A rule that also lets callers wait. -/
class WaitingRule (I : Pool → Prop) (R : Pool → Pool → Prop) :
    Prop extends MaintenanceRule I R where
  leave : ∀ (p : Pool) (n : Nat), R p (p.leave n)
  grow : ∀ (p : Pool) (a : Acquirer), R p (grow a p).2
  park : ∀ (p : Pool) (a : Acquirer), I p → R p (park a p)
  draw : ∀ (p : Pool) (n : Nat), R p { p with nextTaker := n }
  announce : ∀ p : Pool, R p (p.notify .beforeAcquire)

variable {I : Pool → Prop} {R S : Pool → Pool → Prop} {L : HandleId → Pool → Prop} {p : Pool}
  {id : HandleId} {t : Thread}

theorem HolderRule.mono [HolderRule I R] [Act.Rule I S] (h : ∀ p q, R p q → S p q) :
    HolderRule I S where
  toMaintenanceRule := .mono h
  disassociate p id := h _ _ (disassociate I p id)
  part p id hp := h _ _ (part p id hp)
  endLease p n := h _ _ (endLease I p n)

theorem LendingRule.mono [LendingRule I R L] [Act.Rule I S] (h : ∀ p q, R p q → S p q) :
    LendingRule I S L where
  toHolderRule := .mono h
  claim p id hp := (claim p id hp).imp_left (h _ _)
  active := active R
  assign p t started id := h _ _ (assign I p t started id)
  assigned := assigned I R
  lend p id c enlisted hl := h _ _ (lend I p id c enlisted hl)

theorem WaitingRule.mono [WaitingRule I R] [Act.Rule I S] (h : ∀ p q, R p q → S p q) :
    WaitingRule I S where
  toMaintenanceRule := .mono h
  leave p n := h _ _ (leave I p n)
  grow p a := h _ _ (grow I p a)
  park p a hp := h _ _ (park p a hp)
  draw p n := h _ _ (draw I p n)
  announce p := h _ _ (announce I p)

section

variable [HolderRule I R]

theorem part_keeps {α : Type} {m n : PoolAct α}
    (hm : ∀ p, I p → p.stateOf? id = some .toDestroy → m.Abides I R (fun _ => I) p)
    (hn : Act.Keeps I R n) :
    Act.Keeps I R (Act.apply (·.transition id .checkedOut .toDestroy) >>=
      fun moved => if moved then m else n) :=
  end_keeps (fun p hp => HolderRule.part p id hp) hm hn

theorem retire_keeps (id : HandleId) (reason : DestroyReason) :
    Act.Keeps I R (retire id reason) := by
  refine .bind (.update fun p _ => ?_)
    fun _ => part_keeps (fun p hp hs => destroy_abides reason hp hs) (.pure _)
  exact Act.Rule.trans I (HolderRule.disassociate I p id) (MaintenanceRule.clearOwner I _ id)

theorem endLease_keeps (n : Nat) :
    Act.Keeps I R (Act.apply (·.endLease n) : PoolAct (Option Lease)) :=
  .apply fun p _ => HolderRule.endLease I p n

theorem restore_keeps (id : HandleId) (c : Connection) :
    Act.Keeps I R (Act.update (·.restore id c) : PoolAct Unit) :=
  .update fun p _ => MaintenanceRule.modify I p id _ fun _ => ⟨rfl, rfl, rfl, fun _ => rfl⟩

theorem invalidate_keeps (n : Nat) : Act.Keeps I R (invalidate n) := by
  refine .bind (endLease_keeps n) fun r => ?_
  cases r with
  | none => exact .pure _
  | some l =>
    refine .bind (restore_keeps l.handle l.connection) fun _ => ?_
    exact .bind (log_keeps _ _ _) fun _ => retire_keeps _ _

theorem detach_keeps (n : Nat) : Act.Keeps I R (detach n) := by
  refine .bind (endLease_keeps n) fun r => ?_
  cases r with
  | none => exact .pure _
  | some l =>
    refine .bind (aside_keeps fun _ => ⟨rfl, rfl⟩) fun _ => .bind (log_keeps _ _ _) fun _ => ?_
    exact .bind (retire_keeps _ _) fun _ => .pure _

end

section

variable [MaintenanceRule I R]

theorem conclude_keeps (result : Except Failure Nat) : Act.Keeps I R (conclude result) := by
  have htell : ∀ (h : Except Failure HandleId) (r : Reply), Act.Keeps I R
      (Act.update (·.notify (.afterAcquire h)) >>= fun _ => (pure r : PoolAct Reply)) :=
    fun h r => .bind (notify_keeps rfl Hook.noConfusion) fun _ => .pure _
  cases result with
  | ok n =>
    refine .read fun p => ?_
    split
    · exact htell _ _
    · exact .pure _
  | error f => exact htell _ _

theorem MaintenanceRule.timedOut (I : Pool → Prop) [MaintenanceRule I R] (a : Acquirer) (p : Pool) :
    R p (timedOut a p).2 := by
  have hcounted : R p ((p.count fun n => { n with timeouts := n.timeouts + 1 }).emit
      (.acquireTimedOut p.name (.ofNanos (p.clock - a.started)))) := aside I rfl rfl
  exact Act.Rule.trans I hcounted (log I _ _ _ _)

end

/-- A handle that has its connection in its slot is lent. -/
theorem checkOut_abides [LendingRule I R L] (t : Thread) (started : Nat) (hp : I p) (hl : L id p) :
    (checkOut t started id).Abides I R
      (fun lease q => I q ∧ ((p.find? id).bind (·.slot) ≠ none → lease ≠ none)) p := by
  refine .read_bind ?_
  split
  · next hnone =>
    have hrest : Act.Keeps I R (do
        Act.update (·.log .warn "Claimed handle has no connection" [("handle", .shown id.label)])
        retire id .invalidated
        return (none : Option Nat) : PoolAct (Option Nat)) :=
      .bind (log_keeps _ _ _) fun _ => .bind (retire_keeps id _) fun _ => .pure _
    exact (hrest p hp).mono (fun _ _ h => h) fun _ _ hq => ⟨hq, fun hsome => absurd hnone hsome⟩
  · next c _ =>
    have hassign : R p (p.assign t started id) := LendingRule.assign I p t started id
    have hlend : ∀ e, R (p.assign t started id) ((p.assign t started id).lend id c e).2 := fun e =>
      LendingRule.lend I _ id c e (LendingRule.assigned I R p t started id hl)
    refine .update_bind hassign (.apply_bind (hlend _) ⟨?_, fun _ => Option.some_ne_none _⟩)
    exact Act.Rule.keeps (hlend _) (Act.Rule.keeps hassign hp)

/-- A thread whose enlisted handle is active is lent that one again, or refused. -/
theorem reuse_abides [LendingRule I R L] (t : Thread) (hp : I p) :
    (reuse t).Abides I R (fun r q => I q ∧
    ((p.units.current t).any (p.stateOf? · = some .checkedOut) = true → r ≠ .ok none)) p := by
  refine .read_bind ?_
  split
  · next hnone =>
    rw [hnone]
    exact ⟨hp, fun h => absurd h Bool.false_ne_true⟩
  · next id hu =>
    split
    · next c _ _ _ _ hf =>
      have htouch : R p (p.touch id) := MaintenanceRule.touch I p id
      have hlog : R (p.touch id) ((p.touch id).log .debug "Reusing enlisted connection"
        [("handle", .shown id.label)]) := MaintenanceRule.log I _ _ _ _
      have hready := Act.Rule.keeps hlog (Act.Rule.keeps htouch hp)
      have hactive : (p.touch id).stateOf? id = some .checkedOut :=
        (stateOf_modifyHandle p id (fun h => { h with lastAccess := p.clock })
          (fun _ => ⟨rfl, rfl⟩) id).trans
          (stateOf_of_find hf)
      have hlend :=
        LendingRule.lend (R := R) I _ id c true (LendingRule.active R _ id hready hactive)
      refine .update_bind htouch
        (.update_bind hlog (.apply_bind hlend ⟨Act.Rule.keeps hlend hready, ?_⟩))
      exact fun _ h => Option.some_ne_none _ (Except.ok.inj h)
    · exact ⟨hp, fun _ h => by cases h⟩
    · next hfull hempty =>
      have hleft : R p (p.disassociate id) := HolderRule.disassociate I p id
      refine .update_bind hleft ⟨Act.Rule.keeps hleft hp, fun hactive => ?_⟩
      rw [hu] at hactive
      obtain ⟨⟨_, _, slot, _, _, _, _⟩, hf, rfl⟩ := find_of_stateOf (of_decide_eq_true hactive)
      cases slot with
      | none => exact (hempty _ _ _ _ _ hf).elim
      | some c => exact (hfull _ _ _ _ _ _ hf).elim

theorem reuse_keeps [LendingRule I R L] (t : Thread) : Act.Keeps I R (reuse t) :=
  fun _ hp => (reuse_abides t hp).mono (fun _ _ h => h) fun _ _ h => h.1

/-- What was claimed may be handed over, and what was not is left. -/
theorem claim_keeps [LendingRule I R L] {α : Type} {m n : PoolAct α}
    (hm : ∀ p, I p → L id p → m.Abides I R (fun _ => I) p) (hn : Act.Keeps I R n) :
    Act.Keeps I R (Act.apply (·.claim id) >>= fun claimed => if claimed then m else n) := by
  intro p hp
  obtain ⟨hclaim, hlent⟩ := LendingRule.claim (R := R) p id hp
  have hkept := Act.Rule.keeps hclaim hp
  refine .apply_bind hclaim ?_
  split
  · next hwon => exact hm _ hkept (hlent hwon)
  · exact hn _ hkept

/-- Whoever searches takes what he may, until he has one with its connection. -/
theorem search_keeps [SearchRule t I R L] (started fuel : Nat) :
    Act.Keeps I R (search t started fuel) := by
  induction fuel with
  | zero => exact .pure _
  | succ fuel ih =>
    intro p hp
    obtain ⟨htake, hlent⟩ := SearchRule.takeIdle (R := R) (t := t) p hp
    have hkept := Act.Rule.keeps htake hp
    refine .apply_bind htake ?_
    generalize p.takeIdle t = r at hlent hkept
    obtain ⟨found, q⟩ := r
    cases found with
    | none => exact hkept
    | some id =>
      refine (checkOut_abides t started hkept (hlent id rfl)).bind fun r q hq => ?_
      cases r with
      | none => exact ih q hq.1
      | some lease => exact hq.1

section

variable [WaitingRule I R]

theorem leave_keeps (n : Nat) : Act.Keeps I R (Act.update (·.leave n) : PoolAct Unit) :=
  .update fun p _ => WaitingRule.leave I p n

theorem linger_keeps (a : Acquirer) : Act.Keeps I R (linger a) := by
  unfold linger
  split
  · exact .bind (leave_keeps _) fun _ => .read fun p => conclude_keeps _
  · refine .bind (.apply fun p _ => WaitingRule.grow I p a)
      fun a => .read fun p => .ite ?_ (.ite ?_ ?_)
    · refine .bind (leave_keeps _) fun _ => ?_
      exact .bind (.apply fun p _ => MaintenanceRule.timedOut I a p) fun _ => conclude_keeps _
    · exact .bind (leave_keeps _) fun _ => conclude_keeps _
    · exact .bind (.update fun p hp => WaitingRule.park p a hp) fun _ => .pure _

theorem turn_keeps (a : Acquirer) [SearchRule a.taker.thread I R L] : Act.Keeps I R (turn a) := by
  refine .read fun p => .bind (search_keeps _ _) fun r => ?_
  cases r with
  | none => exact linger_keeps a
  | some lease => exact .bind (leave_keeps _) fun _ => conclude_keeps _

theorem acquire_keeps [SearchRule t I R L] (deadline : Nat) :
    Act.Keeps I R (acquire t deadline) := by
  refine .bind (.update fun p _ => WaitingRule.announce I p) fun _ => .read fun p => ?_
  refine .ite (conclude_keeps _) (.bind (reuse_keeps t) fun r => ?_)
  rcases r with f | _ | lease
  · exact conclude_keeps _
  · exact .bind (.apply fun p _ => WaitingRule.draw I p _) fun id =>
      turn_keeps { taker := ⟨id, t⟩, started := p.clock, deadline := deadline }
  · exact conclude_keeps _

/-- An acquirer that goes on does so for the thread that it waits for. -/
theorem resume_abides {n : Nat} (hp : I p)
    (ht : ∀ a, p.acquirers.find? (·.taker.id = n) = some a → SearchRule a.taker.thread I R L) :
    (resume n).Abides I R (fun _ => I) p := by
  refine .read_bind ?_
  split
  · exact hp
  · next a hf =>
    have hsearch : SearchRule a.taker.thread I R L := ht a hf
    have hturn : ∀ w, Act.Keeps I R (turn { a with waiting := w }) := fun w =>
      turn_keeps { a with waiting := w }
    split
    · exact hturn a.waiting p hp
    · exact Act.Keeps.bind (leave_keeps n) (fun _ => .read fun p => conclude_keeps _) p hp
    · refine Act.Keeps.bind (leave_keeps n)
        (fun _ => claim_keeps (fun p hp hl => ?_) (hturn .parked)) p hp
      refine (checkOut_abides a.taker.thread a.started hp hl).bind fun r q hq => ?_
      cases r with
      | none => exact hturn .parked q hq.1
      | some lease => exact conclude_keeps _ q hq.1

end

end ConnPool.Pool
