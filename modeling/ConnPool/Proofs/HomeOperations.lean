import ConnPool.Proofs.HomeHandles

namespace ConnPool.Pool

open Act (Abides)

variable {p : Pool} {α : Type} {m n : PoolAct α}

/-- A call to acquire looks for nothing when the pool is closed or the thread's enlisted handle
active. -/
theorem acquire_abides (t : Thread) (deadline : Nat) (hp : p.Orderly)
    (hno : p.closed = true ∨ (p.units.current t).any (p.stateOf? · = some .checkedOut) = true) :
    (acquire t deadline).Abides Orderly Still (fun _ => Orderly) p := by
  have hready : Still p (p.notify .beforeAcquire) := .of_same rfl rfl
  refine .update_bind hready (.read_bind ?_)
  split
  · exact conclude_keeps _ _ (hready.orderly hp)
  · next hopen =>
    have hactive := hno.resolve_left hopen
    refine .bind (reuse_abides t (hready.orderly hp)) fun r q hq => ?_
    rcases r with f | _ | lease
    · exact conclude_keeps _ q hq.1
    · exact absurd rfl (hq.2 hactive)
    · exact conclude_keeps _ q hq.1

/-- What is claimed has its connection in its slot. -/
theorem slot_of_claimed {id : HandleId} (hp : p.Orderly) (hs : p.stateOf? id = some .checkedIn) :
    ((p.restate id .checkedIn .checkedOut).find? id).bind (·.slot) ≠ none := by
  obtain ⟨h, hf, hidle⟩ := find_of_stateOf hs
  have hfull := hp.full h (mem_of_find hf).1 (hidle ▸ rfl)
  rw [find_restate, hf]
  intro hnone
  have hempty : h.slot = none := hnone
  rw [hempty] at hfull
  cases hfull

/-- An acquirer that was sent away looks for nothing, nor does one that was served and is in
time. -/
theorem resume_served (id : Nat) (hp : p.Orderly)
    (hno : ∀ a, p.acquirers.find? (·.taker.id = id) = some a → a.waiting ≠ .parked ∧
      ∀ h, a.waiting = .served h → p.stateOf? h = some .checkedIn) :
    (resume id).Abides Orderly Still (fun _ => Orderly) p := by
  have hleave : Still p (p.leave id) := leave_still p id
  have horder := hleave.orderly hp
  refine .read_bind ?_
  split
  · exact hp
  · next a hf =>
    obtain ⟨hturn, hserved⟩ := hno a hf
    split
    · next hparked => exact absurd hparked hturn
    · exact .update_bind hleave (.read_bind (conclude_keeps _ _ horder))
    · next h hw =>
      have hmarked : ((p.leave id).unqueue h).Orderly :=
        Act.Rule.keeps (MaintenanceRule.unqueue (R := Still) Orderly (p.leave id) h) horder
      have hidle : ((p.leave id).unqueue h).stateOf? h = some .checkedIn :=
        (stateOf_modifyHandle (p.leave id) h (fun k => { k with queued := false })
          (fun _ => ⟨rfl, rfl⟩)
          h).trans (hserved h hw)
      have hwon : (p.leave id).claim h =
        (true, ((p.leave id).unqueue h).restate h .checkedIn .checkedOut) :=
        transition_of rfl hidle
      have hready := (claim_still (p.leave id) h).orderly horder
      refine .update_bind hleave (.apply_bind (claim_still _ h) ?_)
      rw [hwon] at hready ⊢
      refine .bind
        (checkOut_abides a.taker.thread a.started hready (restate_away _ h .checkedIn rfl))
        fun r q hq => ?_
      cases r with
      | none => exact absurd rfl (hq.2 (slot_of_claimed hmarked hidle))
      | some lease => exact conclude_keeps _ q hq.1

theorem cacheLocally_told (p : Pool) (h : Hook) (e : Event) (t : Thread) (id : HandleId) :
    Still (p.cacheLocally t id) (((p.notify h).emit e).cacheLocally t id) := by
  have hconfig : ((p.notify h).emit e).config = p.config := rfl
  simp only [cacheLocally, hconfig]
  split <;> exact .of_same rfl rfl

section

variable {t : Thread} {id : HandleId} {since : Nat}

theorem finishReturn_returns (t : Thread) (since : Nat) (hp : p.Orderly)
    (hs : p.stateOf? id = some .checkedOut) (hfull : p.Full id) :
    ∃ q, Returned t id p q ∧ ∀ (β : Type) (f : Unit → PoolAct β) (held : Call → Bool),
      (finishReturn t id .checkedIn since >>= f).advance held
          (((p.clearOwner id).touch id).restate id .checkedOut .checkedIn) =
        (publish t id >>= f).advance held q := by
  refine ⟨_, (homecoming_returned p id t hp hs hfull).trans (cacheLocally_told _ (.afterReturn id)
    (.returned p.name id (.ofNanos (p.clock + 1 - since))) t id), fun β f held => ?_⟩
  rfl

theorem home_still (p : Pool) (id : HandleId) : Still p ((p.clearOwner id).touch id) :=
  Act.Rule.trans Orderly (MaintenanceRule.clearOwner Orderly p id)
    (MaintenanceRule.touch Orderly _ id)

theorem returnState_open (ho : p.closed = false) : p.returnState = .checkedIn := by
  rw [returnState, ho]
  rfl

theorem returnState_closed (hc : p.closed = true) : p.returnState = .toDestroy := if_pos hc

theorem giveBack_returns (t : Thread) (since : Nat) (hp : p.Orderly) (ho : p.closed = false)
    (hs : p.stateOf? id = some .checkedOut) (hfull : p.Full id) :
    ∃ q, Returned t id p q ∧
      ∀ held, (giveBack t id since).advance held p = (publish t id).advance held q := by
  obtain ⟨q, hq, hrest⟩ := finishReturn_returns t since hp hs hfull
  refine ⟨q, hq, fun held => ?_⟩
  have htarget : ((p.clearOwner id).touch id).returnState = .checkedIn := returnState_open ho
  have hmove := transition_of (t := .checkedIn) rfl (stateOf_home hs)
  simpa only [giveBack, Act.advance_read_bind, if_pos hs, Act.advance_update_bind,
    Act.advance_apply_bind, htarget, hmove, if_true, bind_pure] using hrest Unit pure held

theorem giveBack_abides (t : Thread) (since : Nat) (hp : p.Orderly)
    (hno : p.closed = false → p.stateOf? id ≠ some .checkedOut) :
    (giveBack t id since).Abides Orderly Still (fun _ => Orderly) p := by
  refine .read_bind ?_
  split
  · next hs =>
    have hc : p.closed = true := by
      by_contra hopen
      exact hno (Bool.eq_false_iff.mpr hopen) hs
    have htarget : ((p.clearOwner id).touch id).returnState = .toDestroy := returnState_closed hc
    refine .update_bind (home_still p id) (.read_bind ?_)
    rw [htarget]
    exact part_keeps (R := Still) (m := destroyNow id .shutdown false)
      (fun p hp hs => destroyNow_abides _ _ hp hs) (.pure _) _ ((home_still p id).orderly hp)
  · exact hp

theorem endLease_still (p : Pool) (n : Nat) : Still p (p.endLease n).2 := .of_same rfl rfl

theorem disassociate_still (p : Pool) (id : HandleId) : Still p (p.disassociate id) :=
  .of_same rfl rfl

theorem restored_still (p : Pool) (n : Nat) (l : Lease) :
    Still p ((p.endLease n).2.restore l.handle l.connection) :=
  (endLease_still p n).trans (spared_still _ l.handle _ fun _ => ⟨rfl, rfl, rfl, fun _ => rfl⟩)

theorem restored_stateOf (p : Pool) (n : Nat) (l : Lease) :
    ((p.endLease n).2.restore l.handle l.connection).stateOf? l.handle = p.stateOf? l.handle :=
  stateOf_modifyHandle (p.endLease n).2 l.handle (fun h => { h with slot := some l.connection })
    (fun _ => ⟨rfl, rfl⟩) l.handle

/-- A lease of the plain kind is dropped, and its handle is active and the pool open. -/
theorem release_returns {n : Nat} {l : Lease} (hl : p.lease? n = some l)
    (hplain : l.enlisted = false)
    (t : Thread) (hp : p.Orderly) (ho : p.closed = false)
      (hs : p.stateOf? l.handle = some .checkedOut) :
    ∃ q, Returned t l.handle p q ∧
      ∀ held, (release t n).advance held p = (publish t l.handle).advance held q := by
  have hended := restored_still p n l
  have hfull : ((p.endLease n).2.restore l.handle l.connection).Full l.handle := by
    intro k hk hid
    rcases mem_modifyHandle hk with ⟨j, -, -, rfl⟩ | ⟨-, hother⟩
    · rfl
    · exact absurd hid hother
  have hactive : ((p.endLease n).2.restore l.handle l.connection).stateOf? l.handle =
    some .checkedOut :=
    (restored_stateOf p n l).trans hs
  obtain ⟨q, hq, hrest⟩ := giveBack_returns t l.since (hended.orderly hp) ho hactive hfull
  refine ⟨q, hended.returned hq, fun held => ?_⟩
  have hfirst : (p.endLease n).1 = some l := hl
  simp only [release, Act.advance_apply_bind, hfirst, Act.advance_update_bind, hplain,
    Bool.not_false, if_true]
  exact hrest held

theorem release_abides (t : Thread) (n : Nat) (hp : p.Orderly)
    (hno : ∀ l, p.lease? n = some l → l.enlisted = false → p.closed = false →
      p.stateOf? l.handle ≠ some .checkedOut) :
    (release t n).Abides Orderly Still (fun _ => Orderly) p := by
  refine .apply_bind (endLease_still p n) ?_
  cases hl : p.lease? n with
  | none =>
    have hfirst : (p.endLease n).1 = none := hl
    rw [hfirst]
    exact (endLease_still p n).orderly hp
  | some l =>
    have hfirst : (p.endLease n).1 = some l := hl
    have horder := (restored_still p n l).orderly hp
    rw [hfirst]
    refine .update_bind (spared_still _ l.handle _ fun _ => ⟨rfl, rfl, rfl, fun _ => rfl⟩) ?_
    split
    · next hplain =>
      refine giveBack_abides t l.since horder fun ho hs => ?_
      exact hno l hl (by simpa using hplain) ho ((restored_stateOf p n l).symm.trans hs)
    · exact horder

/-- A unit of work that ends has its handle given back to an open pool. -/
theorem releaseEnlisted_returns {h : Handle} {c : Connection} (hf : p.find? id = some h)
    (hs : h.state = .checkedOut) (hc : h.slot = some c) (t : Thread) (hp : p.Orderly)
    (ho : p.closed = false) :
    ∃ q, Returned t id p q ∧ ∀ (β : Type) (f : Bool → PoolAct β) (held : Call → Bool),
      (releaseEnlisted t id >>= f).advance held p =
        (publish t id >>= fun _ => f true).advance held q := by
  have hleft := disassociate_still p id
  have hactive : (p.disassociate id).stateOf? id = some .checkedOut :=
    (stateOf_of_find hf).trans (congrArg some hs)
  have hfull : (p.disassociate id).Full id := by
    intro k hk hid
    have hsame := (Keyed.find_iff Handle.id hp.distinct).mpr ⟨hk, hid⟩
    cases hsame.symm.trans hf
    rw [hc]
    rfl
  obtain ⟨q, hq, hrest⟩ := finishReturn_returns t ((h.owner.map (·.since)).getD p.clock)
    (hleft.orderly hp) hactive hfull
  refine ⟨q, hleft.returned hq, fun β f held => ?_⟩
  obtain ⟨i, state, slot, last, owner, queued, cached⟩ := h
  obtain rfl : state = .checkedOut := hs
  obtain rfl : slot = some c := hc
  have hmove := transition_of (t := .checkedIn) rfl (stateOf_home hactive)
  simpa only [releaseEnlisted, bind_assoc, Act.advance_read_bind, hf, Act.advance_update_bind,
    Act.advance_apply_bind, returnState_open ho, hmove, if_true, pure_bind]
    using hrest β (fun _ => f true) held

theorem releaseEnlisted_abides (t : Thread) (hp : p.Orderly)
    (hno : p.closed = false → ∀ h c, p.find? id = some h → h.state = .checkedOut →
    h.slot ≠ some c) :
    (releaseEnlisted t id).Abides Orderly Still (fun _ => Orderly) p := by
  refine .read_bind ?_
  split
  · next c _ owner _ _ hf =>
    have hc : p.closed = true := by
      by_contra hopen
      exact hno (Bool.eq_false_iff.mpr hopen) _ c hf rfl rfl
    have hleft := disassociate_still p id
    have hhome := hleft.trans (home_still (p.disassociate id) id)
    refine .read_bind (.update_bind hhome ?_)
    rw [returnState_closed hc]
    refine part_keeps (R := Still) (m := destroyNow id .shutdown false >>= fun _ => pure true)
      (fun p hp hs => ?_) (.pure _) _ (hhome.orderly hp)
    exact (destroyNow_abides .shutdown false hp hs).bind fun _ _ hq => hq
  · exact hp
  · exact Act.Keeps.bind (.update fun p _ => disassociate_still p id) (fun _ => .pure _) p hp

end

end ConnPool.Pool
