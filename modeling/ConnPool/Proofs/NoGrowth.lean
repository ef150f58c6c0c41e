import ConnPool.Proofs.History
import Mathlib.Data.List.Perm.Subperm

namespace ConnPool.Pool

variable {who : Option Nat} {p q r : Pool}

/-- Nothing is added: no place is reserved, no creation scheduled, no handle or lease made, and
nobody who waits comes to anything new. -/
structure NoGrowth (p q : Pool) : Prop where
  closed : q.closed = p.closed
  size : q.size.count ≤ p.size.count
  pending : q.pending.count ≤ p.pending.count
  inFlight : q.inFlight.Subperm p.inFlight
  leases : (q.leases.map (·.number)).Sublist (p.leases.map (·.number))
  handles : (q.handles.map (·.id)).Sublist (p.handles.map (·.id))
  stances : (q.acquirers.map (·.stance)).Sublist (p.acquirers.map (·.stance))

theorem NoGrowth.refl (p : Pool) : NoGrowth p p :=
  ⟨rfl, Nat.le_refl _, Nat.le_refl _, List.Subperm.refl _, List.Sublist.refl _, List.Sublist.refl _,
    List.Sublist.refl _⟩

theorem NoGrowth.trans (h : NoGrowth p q) (k : NoGrowth q r) : NoGrowth p r :=
  ⟨k.closed.trans h.closed, Nat.le_trans k.size h.size, Nat.le_trans k.pending h.pending,
    k.inFlight.trans h.inFlight, k.leases.trans h.leases, k.handles.trans h.handles,
    k.stances.trans h.stances⟩

/-- All who wait stay as they are, but for the one on whose behalf things happen. -/
def Stays (who : Option Nat) (p q : Pool) : Prop :=
  ∀ a ∈ p.acquirers, who ≠ some a.taker.id → a.stance ∈ q.acquirers.map (·.stance)

theorem Stays.of_stances (h : q.acquirers.map (·.stance) = p.acquirers.map (·.stance)) :
    Stays who p q := by
  intro a ha _
  rw [h]
  exact List.mem_map_of_mem ha

theorem Stays.trans (h : Stays who p q) (k : Stays who q r) : Stays who p r := by
  intro a ha hwho
  obtain ⟨b, hb, hba⟩ := List.mem_map.mp (h a ha hwho)
  have htaker : b.taker = a.taker := congrArg Prod.fst hba
  rw [← hba]
  exact k b hb (htaker ▸ hwho)

theorem Stays.leave {id : Nat} (hself : who = some id)
    (hq : q.acquirers = p.acquirers.filter (·.taker.id ≠ id)) : Stays who p q := by
  intro a ha hwho
  rw [hq]
  refine List.mem_map_of_mem (List.mem_filter.mpr ⟨ha, ?_⟩)
  simp only [decide_eq_true_eq]
  intro hid
  exact hwho (hself.trans (congrArg some hid.symm))

/-- What a step may do to a closed pool. -/
structure ClosedStep (who : Option Nat) (p q : Pool) : Prop where
  noGrowth : NoGrowth p q
  stays : Stays who p q

theorem ClosedStep.trans (h : ClosedStep who p q) (k : ClosedStep who q r) : ClosedStep who p r :=
  ⟨h.noGrowth.trans k.noGrowth, h.stays.trans k.stays⟩

theorem ClosedStep.of_same (hc : q.closed = p.closed) (hs : q.size = p.size)
    (hp : q.pending = p.pending) (hf : q.inFlight = p.inFlight)
    (hl : q.leases.map (·.number) = p.leases.map (·.number))
    (hh : q.handles.map (·.id) = p.handles.map (·.id))
    (ha : q.acquirers.map (·.stance) = p.acquirers.map (·.stance)) : ClosedStep who p q :=
  ⟨⟨hc, Nat.le_of_eq (congrArg Tally.count hs), Nat.le_of_eq (congrArg Tally.count hp),
    hf ▸ List.Subperm.refl _, hl ▸ List.Sublist.refl _, hh ▸ List.Sublist.refl _,
    ha ▸ List.Sublist.refl _⟩, .of_stances ha⟩

theorem ids_modify (id : HandleId) (f : Handle → Handle) (hf : ∀ h, (f h).id = h.id) :
    (p.modifyHandle id f).handles.map (·.id) = p.handles.map (·.id) :=
  Keyed.map_key_replace hf

theorem numbers_write (n : Nat) (text : String) :
    (p.write n text).leases.map (·.number) = p.leases.map (·.number) := by
  simp only [write, List.map_map]
  refine List.map_congr_left fun l _ => ?_
  simp only [Function.comp]
  split <;> rfl

theorem down_le (t : Tally) : t.down.count ≤ t.count := by
  rw [Tally.count_down]
  exact Nat.sub_le _ _

theorem conclude_closedStep (c : Creation) (e : Option String) :
    ClosedStep who p (p.concludeCreation c e) := by
  have hstances := stances_conclude (p := p) c e
  simp only [concludeCreation] at hstances ⊢
  cases hc : c.acquirer with
  | none =>
    exact ⟨⟨rfl, Nat.le_refl _, down_le _, (List.tail_sublist _).subperm, List.Sublist.refl _,
      List.Sublist.refl _, List.Sublist.refl _⟩, .of_stances rfl⟩
  | some a =>
    rw [hc] at hstances
    exact ⟨⟨rfl, Nat.le_refl _, down_le _, (List.tail_sublist _).subperm, List.Sublist.refl _,
      List.Sublist.refl _, hstances ▸ List.Sublist.refl _⟩, .of_stances hstances⟩

/-- A handle less, and its place given back. -/
theorem remove_closedStep (h : Handle) : ClosedStep who p (p.remove h) :=
  ⟨⟨rfl, down_le _, Nat.le_refl _, List.Subperm.refl _, List.Sublist.refl _,
    List.filter_sublist.map _, List.Sublist.refl _⟩, .of_stances rfl⟩

theorem endLease_closedStep (n : Nat) : ClosedStep who p (p.endLease n).2 :=
  ⟨⟨rfl, Nat.le_refl _, Nat.le_refl _, List.Subperm.refl _, List.filter_sublist.map _,
    List.Sublist.refl _, List.Sublist.refl _⟩, .of_stances rfl⟩

theorem leave_closedStep {id : Nat} (hself : who = some id) : ClosedStep who p (p.leave id) :=
  ⟨⟨rfl, Nat.le_refl _, Nat.le_refl _, List.Subperm.refl _, List.Sublist.refl _,
    List.Sublist.refl _, List.filter_sublist.map _⟩, .leave hself rfl⟩

theorem modifyHandle_closedStep (id : HandleId) (f : Handle → Handle) (hf : ∀ h, (f h).id = h.id) :
    ClosedStep who p (p.modifyHandle id f) :=
  .of_same rfl rfl rfl rfl rfl (ids_modify id f hf) rfl

theorem unqueue_closedStep (id : HandleId) : ClosedStep who p (p.unqueue id) :=
  .of_same rfl rfl rfl rfl rfl
    (ids_modify id (fun h => { h with queued := false }) fun _ => rfl) rfl

theorem abandon_closedStep (n : Nat) : ClosedStep who p (p.abandon n) := by
  simp only [abandon]
  split
  · next creation hclosed hn =>
    have hgone : NoGrowth p { p with
        size := p.size.down, pending := p.pending.down, inFlight := p.inFlight.eraseIdx n } :=
      ⟨rfl, down_le _, down_le _, (List.eraseIdx_sublist _ _).subperm, List.Sublist.refl _,
        List.Sublist.refl _, List.Sublist.refl _⟩
    cases creation.acquirer with
    | none => exact ⟨hgone, .of_stances rfl⟩
    | some a =>
      have hstances := stances_tell p.acquirers a (some p.closedFailure.message)
      exact ⟨⟨rfl, hgone.size, hgone.pending, hgone.inFlight, hgone.leases, hgone.handles,
        hstances ▸ List.Sublist.refl _⟩, .of_stances hstances⟩
  · exact .of_same rfl rfl rfl rfl rfl rfl rfl

theorem Step.closedStep (h : Step who p q) (hc : p.closed = true) : ClosedStep who p q := by
  have contradiction : p.closed = false → ClosedStep who p q := by
    intro ho
    rw [hc] at ho
    cases ho
  cases h with
  | hush same =>
    refine .of_same ?_ ?_ ?_ ?_ ?_ ?_ ?_
    · exact eq_of_muted Pool.closed (fun _ => rfl) same
    · exact eq_of_muted Pool.size (fun _ => rfl) same
    · exact eq_of_muted Pool.pending (fun _ => rfl) same
    · exact eq_of_muted Pool.inFlight (fun _ => rfl) same
    · exact eq_of_muted (fun r : Pool => r.leases.map (·.number)) (fun _ => rfl) same
    · exact eq_of_muted (fun r : Pool => r.handles.map (·.id)) (fun _ => rfl) same
    · exact eq_of_muted (fun r : Pool => r.acquirers.map (·.stance)) (fun _ => rfl) same
  | touch id =>
    have hids := ids_modify (p := p) id (fun h => { h with lastAccess := p.clock }) fun _ => rfl
    exact .of_same rfl rfl rfl rfl rfl hids rfl
  | write n text => exact .of_same rfl rfl rfl rfl (numbers_write n text) rfl rfl
  | schedule a room =>
    simp only [hasRoom, hc, Bool.not_true, Bool.false_and, Bool.false_eq_true] at room
  | @forget t nothing =>
    obtain ⟨rs, htake⟩ | ⟨n, rs, -, htake⟩ := p.takeLocal_cases t
    · rw [htake]
      exact .of_same rfl rfl rfl rfl rfl rfl rfl
    · rw [htake] at nothing
      cases nothing
  | @skip t id h' rs' take stale =>
    have hids := ids_modify (p := { p with handoff := h', recents := rs' }) id
      (fun h => { h with queued := false }) fun _ => rfl
    exact .of_same rfl rfl rfl rfl rfl hids rfl
  | leave self unserved => exact leave_closedStep self
  | miss self mem served stale => exact (leave_closedStep self).trans (unqueue_closedStep _)
  | park self isOpen parked drawn same => exact contradiction isOpen
  | lend e isOpen find active full => exact contradiction isOpen
  | giveUp mem => exact (endLease_closedStep _).trans (modifyHandle_closedStep _ _ fun _ => rfl)
  | comeBack t isOpen find active full => exact contradiction isOpen
  | @expel id h c reason find full =>
    have hcount : ClosedStep who p (p.count reason.charge) := .of_same rfl rfl rfl rfl rfl rfl rfl
    exact hcount.trans (remove_closedStep h)
  | @letGo l h mem find =>
    have hkept : ClosedStep who (p.endLease l.number).2 { (p.endLease l.number).2 with
        detached := l.connection :: (p.endLease l.number).2.detached } :=
      .of_same rfl rfl rfl rfl rfl rfl rfl
    exact (endLease_closedStep _).trans (hkept.trans (remove_closedStep h))
  | probe find full same => exact modifyHandle_closedStep _ _ fun _ => rfl
  | @miscarry c cs e first =>
    have hforgone : ClosedStep who p p.tried.forgo :=
      ⟨⟨rfl, down_le _, Nat.le_refl _, List.Subperm.refl _, List.Sublist.refl _,
        List.Sublist.refl _, List.Sublist.refl _⟩, .of_stances rfl⟩
    exact hforgone.trans (conclude_closedStep c _)
  | abandon n => exact abandon_closedStep n
  | reorder cs same =>
    exact ⟨⟨rfl, Nat.le_refl _, Nat.le_refl _, same.subperm, List.Sublist.refl _,
      List.Sublist.refl _, List.Sublist.refl _⟩, .of_stances rfl⟩
  | _ => exact .of_same rfl rfl rfl rfl rfl rfl rfl

theorem Steps.closedStep (h : Steps who p q) (hc : p.closed = true) : ClosedStep who p q := by
  induction h with
  | refl => exact .of_same rfl rfl rfl rfl rfl rfl rfl
  | tail first last ih => exact ih.trans (last.closedStep (ih.noGrowth.closed.trans hc))

/-- A connection that is born into a closed pool adds nothing either. -/
theorem birth_closedStep (hp : p.Sound) (hc : p.closed = true) (c : Creation) (x : Connection) :
    ClosedStep who p (p.birth c x) := by
  have hsame := stillbear_handles (p := p.tried) (id_ne_next (p := p) hp.books.fitting) x
  have hborn : ClosedStep who p (p.tried.stillbear x) :=
    ⟨⟨rfl, down_le _, Nat.le_refl _, List.Subperm.refl _, List.Sublist.refl _,
      (congrArg (List.map Handle.id) hsame) ▸ List.Sublist.refl _, List.Sublist.refl _⟩,
      .of_stances rfl⟩
  simp only [birth]
  rw [if_pos hc]
  exact hborn.trans (conclude_closedStep c none)

theorem Course.closedStep {bs : List Birth} (h : Course who p bs q) (hp : p.Sound)
    (hfinal : p.Final) (hc : p.closed = true) : ClosedStep who p q := by
  have contradiction : ∀ {m : Pool}, Steps who p m → m.closed = false → ClosedStep who p q := by
    intro m hm ho
    rw [hm.closed hp, hc] at ho
    cases ho
  cases h with
  | calm steps => exact steps.closedStep hc
  | lent before lend after same =>
    exact contradiction before (lend.lent (before.sound hp) (before.final hp hfinal)).isOpen
  | @birth m _ c cs x before first serial after same =>
    have hm := before.closedStep hc
    have hmc := hm.noGrowth.closed.trans hc
    have hborn : ClosedStep who m (m.birth c x) := birth_closedStep (before.sound hp) hmc c x
    exact hm.trans (hborn.trans (after.closedStep (hborn.noGrowth.closed.trans hmc)))
  | closing before isOpen after final => exact contradiction before isOpen

theorem Settled.closedStep (h : p.Settled) (hc : p.closed = true) (op : Operation) :
    ClosedStep (op.behalf p) p (op.run p) :=
  (op.course h.sound h.final).closedStep h.sound h.final hc

/-- Whatever is done to a closed pool, nothing is added. -/
theorem Settled.noGrowth_after (h : p.Settled) (hc : p.closed = true) (ops : List Operation) :
    NoGrowth p (p.after ops) := by
  induction ops generalizing p with
  | nil => exact .refl p
  | cons op ops ih =>
    have hop := (h.closedStep hc op).noGrowth
    exact hop.trans (ih (h.run op) (hop.closed.trans hc))

theorem behalf_acquire (hp : p.Lineup) {a : Acquirer} (ha : a ∈ p.acquirers) {op : Operation}
    (hop : op ≠ .resume a.taker.id) : op.behalf p ≠ some a.taker.id := by
  cases op with
  | acquire t deadline =>
    intro he
    exact Nat.ne_of_gt (hp.takers_lt a ha) (Option.some.inj he)
  | resume id =>
    intro he
    exact hop (congrArg Operation.resume (Option.some.inj he))
  | _ =>
    intro he
    cases he

/-- Who waits at a closed pool stays what he is until he goes on. -/
theorem Settled.stays_after (h : p.Settled) (hc : p.closed = true) {a : Acquirer}
    (ha : a ∈ p.acquirers) {ops : List Operation} (hops : .resume a.taker.id ∉ ops) :
    a.stance ∈ (p.after ops).acquirers.map (·.stance) := by
  induction ops generalizing p a with
  | nil => exact List.mem_map_of_mem ha
  | cons op ops ih =>
    obtain ⟨hop, hrest⟩ := (not_or.mp fun h => hops (List.mem_cons.mpr h))
    have hstep := h.closedStep hc op
    have hother := behalf_acquire h.sound.lineup ha (Ne.symm hop)
    obtain ⟨b, hb, hba⟩ := List.mem_map.mp (hstep.stays a ha hother)
    have htaker : b.taker = a.taker := congrArg Prod.fst hba
    have hstay := ih (h.run op) (hstep.noGrowth.closed.trans hc) hb (htaker ▸ hrest)
    rw [← hba]
    exact hstay

end ConnPool.Pool
