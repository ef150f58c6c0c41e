import ConnPool.Proofs.Course

namespace ConnPool.Pool

variable {who : Option Nat} {p : Pool} {id : HandleId}

/-- A return to an open pool ends with the handle published. -/
theorem finishReturn_muted (hn : p.handoff.Numbered) (ho : p.handoff.isClosed = false) (t : Thread)
    (since : Nat) :
    ((finishReturn t id .checkedIn since).run p).2.muted =
      (((p.count fun n =>
        { n with returned := n.returned + 1 }).cacheLocally t id).available t id).muted := by
  simp only [finishReturn, reduceCtorEq, if_false, Act.run_bind, Act.run_read, Act.run_update]
  rw [publish_run]
  · rw [muted_available, muted_available, muted_cacheLocally, muted_cacheLocally]
    rfl
  · rw [(cacheLocally_frame t id).handoff]
    exact hn
  · rw [(cacheLocally_frame t id).handoff]
    exact ho

theorem find_home {h : Handle} (hf : p.find? id = some h) :
    ((p.clearOwner id).touch id).find? id =
    some { h with owner := none, lastAccess := p.clock } := by
  rw [find_touch, find_clearOwner, hf]
  rfl

theorem remove_home {h : Handle} (hf : p.find? id = some h) :
    ((p.clearOwner id).touch id).remove { h with owner := none, lastAccess := p.clock } =
      Pool.remove { p with clock := p.clock + 1 } h := by
  obtain ⟨-, hid⟩ := mem_of_find hf
  have htouch :
      ((p.clearOwner id).touch id).remove { h with owner := none, lastAccess := p.clock } =
        Pool.remove { p.clearOwner id with clock := p.clock + 1 } h :=
    remove_modify { p.clearOwner id with clock := p.clock + 1 }
      (fun h => { h with lastAccess := p.clock }) (fun _ => rfl) hid hid rfl rfl rfl
  have hclear : Pool.remove { p.clearOwner id with clock := p.clock + 1 } h =
      Pool.remove { p with clock := p.clock + 1 } h :=
    remove_modify { p with clock := p.clock + 1 } (fun h => { h with owner := none }) (fun _ => rfl)
      hid hid rfl rfl rfl
  exact htouch.trans hclear

/-- An active handle goes home: back in, or out when the pool is closed. -/
theorem steps_return (hp : p.Sound) {h : Handle} {c : Connection} (hf : p.find? id = some h)
    (hs : h.state = .checkedOut) (hc : h.slot = some c) (t : Thread) (since : Nat) :
    Steps who p ((finishReturn t id p.returnState since).run
      (((p.clearOwner id).touch id).restate id .checkedOut p.returnState)).2 := by
  simp only [returnState]
  by_cases hcl : p.closed = true
  · rw [if_pos hcl]
    have hlate : Steps who p { p with clock := p.clock + 1 } := (Step.wait 1).steps
    refine hlate.trans ?_
    simp only [finishReturn, if_true]
    exact steps_destroyNow (p := { p with clock := p.clock + 1 }) .shutdown hf hc (find_home hf) hs
      State.noConfusion (congrArg muted (remove_home hf))
  · rw [if_neg hcl]
    have ho : p.closed = false := by simpa using hcl
    have hback : Step who p (p.comeBack t id) := .comeBack t ho hf hs hc
    refine hback.steps.hush ?_
    rw [comeBack, homecoming]
    exact finishReturn_muted (p := ((p.clearOwner id).touch id).restate id .checkedOut .checkedIn)
      hp.lineup.numbered (hp.lineup.isClosed_eq.trans ho) t since

theorem stateOf_home (hs : p.stateOf? id = some .checkedOut) :
    ((p.clearOwner id).touch id).stateOf? id = some .checkedOut := by
  obtain ⟨h, hf, hh⟩ := find_of_stateOf hs
  rw [stateOf_of_find (find_home hf)]
  exact congrArg some hh

theorem legal_return (p : Pool) : State.legal .checkedOut p.returnState = true := by
  simp only [returnState]
  split <;> rfl

/-- A return of an active handle: it moves, and the rest follows. -/
theorem giveBack_run (hs : p.stateOf? id = some .checkedOut) (t : Thread) (since : Nat) :
    (giveBack t id since).run p = (finishReturn t id p.returnState since).run
      (((p.clearOwner id).touch id).restate id .checkedOut p.returnState) := by
  have htarget : ((p.clearOwner id).touch id).returnState = p.returnState := rfl
  simp only [giveBack, Act.run_bind, Act.run_read, if_pos hs, Act.run_update, Act.run_apply,
    htarget, transition_of (legal_return p) (stateOf_home hs), if_true]

theorem giveBack_idle (hs : p.stateOf? id ≠ some .checkedOut) (t : Thread) (since : Nat) :
    (giveBack t id since).run p = ((), p) := by
  simp only [giveBack, Act.run_bind, Act.run_read, if_neg hs, Act.run_pure]

theorem steps_giveBack (hp : p.Sound)
    (hfull : ∀ h, p.find? id = some h → h.state = .checkedOut → ∃ c, h.slot = some c) (t : Thread)
    (since : Nat) : Steps who p ((giveBack t id since).run p).2 := by
  by_cases hs : p.stateOf? id = some .checkedOut
  · obtain ⟨h, hf, hh⟩ := find_of_stateOf hs
    obtain ⟨c, hc⟩ := hfull h hf hh
    rw [giveBack_run hs]
    exact steps_return hp hf hh hc t since
  · rw [giveBack_idle hs]

theorem lease_mem {n : Nat} {l : Lease} (h : p.lease? n = some l) : l ∈ p.leases ∧ l.number = n :=
  ⟨List.mem_of_find?_eq_some h, by simpa using List.find?_some h⟩

theorem endLease_none {n : Nat} (h : p.lease? n = none) : p.endLease n = (none, p) := by
  have hsame : p.leases.filter (·.number ≠ n) = p.leases :=
    Keyed.filter_eq_self Lease.number fun l hl => by simpa using List.find?_eq_none.mp h l hl
  simp only [endLease, h, hsame]

/-- No lease has this number, or one has, and its handle is active. -/
theorem endLease_cases (hp : p.ledger.Fitting) (n : Nat) :
    p.endLease n = (none, p) ∨
      ∃ l ∈ p.leases, ∃ h, l.number = n ∧ (p.endLease n).1 = some l ∧
        p.find? l.handle = some h ∧ h.state = .checkedOut := by
  cases hl : p.lease? n with
  | none => exact Or.inl (endLease_none hl)
  | some l =>
    obtain ⟨hmem, hnumber⟩ := lease_mem hl
    obtain ⟨h, hf, hs, -⟩ := find_of_lease hp hmem
    exact Or.inr ⟨l, hmem, h, hnumber, hl, hf, hs⟩

theorem find_restore {l : Lease} {h : Handle} (hf : p.find? l.handle = some h) :
    ((p.endLease l.number).2.restore l.handle l.connection).find? l.handle =
      some { h with slot := some l.connection } := by
  have hrestore := find_modifyHandle (p.endLease l.number).2 l.handle
    (fun h => { h with slot := some l.connection }) fun _ => rfl
  have hended : (p.endLease l.number).2.find? l.handle = some h := hf
  rw [hended] at hrestore
  exact hrestore

theorem steps_release (hp : p.Sound) (t : Thread) (n : Nat) :
    Steps who p ((release t n).run p).2 := by
  simp only [release, Act.run_bind, Act.run_apply]
  rcases endLease_cases hp.books.fitting n with hnone | ⟨l, hmem, h, rfl, hfirst, hf, -⟩
  · rw [hnone]
    exact .refl
  · have hgive : Step who p ((p.endLease l.number).2.restore l.handle l.connection) := .giveUp hmem
    simp only [hfirst, Act.run_bind, Act.run_update, Act.run_ite]
    split
    · refine hgive.steps.trans (steps_giveBack (hgive.sound hp) ?_ t l.since)
      intro k hk _
      rw [find_restore hf] at hk
      cases hk
      exact ⟨l.connection, rfl⟩
    · exact hgive.steps

theorem find_retire {h : Handle} (hf : p.find? id = some h) :
    ((p.disassociate id).clearOwner id).find? id = some { h with owner := none } := by
  have hclear := find_clearOwner (p.disassociate id) id
  have hbefore : (p.disassociate id).find? id = some h := hf
  rw [hbefore] at hclear
  exact hclear

theorem remove_retire {h : Handle} (hf : p.find? id = some h) :
    ((p.disassociate id).clearOwner id).remove { h with owner := none } =
      (p.disassociate id).remove h := by
  obtain ⟨-, hid⟩ := mem_of_find hf
  exact remove_modify (p.disassociate id) (fun h => { h with owner := none }) (fun _ => rfl)
    hid hid rfl rfl rfl

theorem retire_run {h : Handle} (hf : p.find? id = some h) (hs : h.state = .checkedOut)
    (reason : DestroyReason) :
    (retire id reason).run p = (destroy id reason).run
      (((p.disassociate id).clearOwner id).restate id .checkedOut .toDestroy) := by
  have hstate : ((p.disassociate id).clearOwner id).stateOf? id = some .checkedOut := by
    rw [stateOf_of_find (find_retire hf)]
    exact congrArg some hs
  simp only [retire, Act.run_bind, Act.run_update, Act.run_apply,
    transition_of (t := .toDestroy) rfl hstate, if_true]

/-- An active handle, its connection in its slot, is ended for a reason that is not counted. -/
theorem steps_retire {h : Handle} {c : Connection} {reason : DestroyReason}
    (hf : p.find? id = some h) (hs : h.state = .checkedOut) (hc : h.slot = some c)
    (hcharge : reason.charge = fun n => n) : Steps who p ((retire id reason).run p).2 := by
  have hsame : ((p.disassociate id).clearOwner id).remove { h with owner := none } =
      ((p.disassociate id).count reason.charge).remove h := by
    rw [hcharge]
    exact remove_retire hf
  have hapart : Step who p (p.disassociate id) := .regroup _
  rw [retire_run hf hs]
  refine hapart.steps.trans ?_
  exact steps_destroy reason hf hc (find_retire hf) hs State.noConfusion (congrArg muted hsame)

theorem steps_invalidate (hp : p.Sound) (n : Nat) : Steps who p ((invalidate n).run p).2 := by
  simp only [invalidate, Act.run_bind, Act.run_apply]
  rcases endLease_cases hp.books.fitting n with hnone | ⟨l, hmem, h, rfl, hfirst, hf, hs⟩
  · rw [hnone]
    exact .refl
  · have hgive : Step who p ((p.endLease l.number).2.restore l.handle l.connection) := .giveUp hmem
    simp only [hfirst, Act.run_bind, Act.run_update]
    have htold := hgive.steps.hush (r := ((p.endLease l.number).2.restore l.handle l.connection).log
      .debug "Connection invalidated" [("handle", .shown l.handle.label)]) rfl
    exact htold.trans (steps_retire (find_restore hf) hs rfl rfl)

theorem steps_detach (hp : p.Sound) (n : Nat) : Steps who p ((detach n).run p).2 := by
  simp only [detach, Act.run_bind, Act.run_apply]
  rcases endLease_cases hp.books.fitting n with hnone | ⟨l, hmem, h, rfl, hfirst, hf, hs⟩
  · rw [hnone]
    exact .refl
  · simp only [hfirst, Act.run_bind, Act.run_update, Act.run_pure]
    generalize hq : (Pool.log { (p.endLease l.number).2 with
      detached := l.connection :: (p.endLease l.number).2.detached } .debug "Connection detached"
      [("handle", .shown l.handle.label)]) = q
    have hfq : q.find? l.handle = some h := by
      rw [← hq]
      exact hf
    have hend := destroyNow_muted (s := .checkedOut) (find_retire hfq) (by decide) .detached false
    have hgone : Steps who p ((p.letGo l h).disassociate l.handle) :=
      (Step.letGo hmem hf).steps.tail (.regroup _)
    have hshown : { h with owner := none, state := .checkedOut } = { h with owner := none } := by
      rw [← hs]
    simp only [hshown, remove_retire hfq] at hend
    rw [retire_run hfq hs]
    simp only [destroy, Act.run_bind, Act.run_update]
    refine (hgone.hush ?_).trans steps_topUp
    rw [hend, ← hq]
    rfl

theorem steps_releaseEnlisted (t : Thread) (id : HandleId) (hp : p.Sound) :
    Steps who p ((releaseEnlisted t id).run p).2 := by
  simp only [releaseEnlisted, Act.run_bind, Act.run_read]
  split
  · next owner _ _ hf =>
    have hapart : Step who p (p.disassociate id) := .regroup _
    have hstate := stateOf_home (p := p.disassociate id) (stateOf_of_find hf)
    have hmove := transition_of (legal_return p) hstate
    simp only [Act.run_bind, Act.run_read, Act.run_update, Act.run_apply, hmove, if_true,
      Act.run_pure]
    exact hapart.steps.trans (steps_return (hapart.sound hp) hf rfl rfl t _)
  · exact .refl
  · exact (Step.regroup (p.units.disassociate id)).steps

end ConnPool.Pool
