import ConnPool.Pool.Sweep
import ConnPool.Proofs.Sound

namespace ConnPool

theorem Tally.down_up (t : Tally) : t.up.down = t := by
  simp [up, down]

namespace Gauges

theorem leave_moved {g : Gauges} {s t : State} (hst : s ≠ t) (ht : t ≠ .checkedOut)
    (hlive : t.terminal = false) : (g.moved s t).leave t = g.leave s := by
  cases s <;> cases t <;>
    simp_all [moved, enter, leave, set, get, State.terminal, Tally.down_up]

/-- On its way out a handle leaves the gauge that it was on. -/
theorem moved_destroyed {g : Gauges} {s : State} (hs : s ≠ .toDestroy) :
    (g.moved s .toDestroy).moved .toDestroy .destroyed = g.leave s :=
  leave_moved hs (by decide) rfl

theorem enter_new_leave (g : Gauges) : (g.enter .new).leave .new = g := by
  simp [enter, leave, set, get, Tally.down_up]

theorem enter_new_moved (g : Gauges) :
    (g.enter .new).moved .new .checkedIn = g.enter .checkedIn := by
  simp [moved, enter, leave, set, get, State.terminal, Tally.down_up]

theorem moved_validation (i a m : Nat) :
    ((level (i + 1) a m).moved .checkedIn .validation).moved .validation .checkedIn =
      level (i + 1) a m := rfl

end Gauges

/-- What is counted of the reason for which a handle goes. -/
def DestroyReason.charge : DestroyReason → Counters → Counters
  | validationFailed, n => { n with validationFailures := n.validationFailures + 1 }
  | idleTimeout, n => { n with reaped := n.reaped + 1 }
  | _, n => n

namespace Pool

/-- The pool without what only listeners, subscribers and readers of the log get to see. -/
def muted (p : Pool) : Pool := { p with journal := [], listeners := [], bus := .shut }

/-- A handle leaves the collection, and what is in its slot goes to the factory. -/
def remove (p : Pool) (h : Handle) : Pool :=
  { p with
    handles := p.handles.filter (·.id ≠ h.id)
    strays := if h.queued then h.id :: p.strays else p.strays
    size := p.size.down
    gauges := p.gauges.leave h.state
    counters := { p.counters with destroyed := p.counters.destroyed + 1 }
    closures := h.slot.toList ++ p.closures }

/-- A handle that is idle gets an entry, unless it has one. -/
def available (p : Pool) (t : Thread) (id : HandleId) : Pool :=
  if (p.find? id).all (·.queued) then p
  else ((p.modifyHandle id fun h => { h with queued := true }).offer t id).2

/-- The way of a handle that comes back, up to its being published. -/
def homecoming (p : Pool) (t : Thread) (id : HandleId) : Pool :=
  ((((p.clearOwner id).touch id).restate id .checkedOut .checkedIn).count
    fun n => { n with returned := n.returned + 1 }).cacheLocally t id

/-- An active handle, its connection in its slot, becomes idle again. -/
def comeBack (p : Pool) (t : Thread) (id : HandleId) : Pool := (p.homecoming t id).available t id

/-- A claimed handle goes out on loan. -/
def handOver (p : Pool) (t : Thread) (started : Nat) (id : HandleId) (c : Connection) : Pool :=
  let p := p.assign t started id
  (p.lend id c (p.units.current t = some id)).2

/-- A connection on loan stays with its holder, and its handle leaves. -/
def letGo (p : Pool) (l : Lease) (h : Handle) : Pool :=
  let p := (p.endLease l.number).2
  { p with detached := l.connection :: p.detached }.remove h

/-- The handle that a new connection gets. -/
def newHandle (p : Pool) (c : Connection) : Handle :=
  { id := ⟨p.nextHandle⟩, state := .new, slot := some c, lastAccess := p.clock }

/-- A new connection joins an open pool. -/
def bear (p : Pool) (c : Connection) : Pool :=
  let id : HandleId := ⟨p.nextHandle⟩
  (((p.enroll c).restate id .new .checkedIn).touch id).available .background id

/-- A new connection is closed at once. -/
def stillbear (p : Pool) (c : Connection) : Pool := (p.enroll c).remove (p.newHandle c)

/-- The creation that was scheduled first is over, and its acquirer hears how. -/
def concludeCreation (p : Pool) (c : Creation) (e : Option String) : Pool :=
  (c.acquirer.elim p (p.tellAcquirer · e)).endCreation

/-- One more attempt to create. -/
def tried (p : Pool) : Pool := { p with attempts := p.attempts + 1 }

/-- A creation fails. -/
def miscarry (p : Pool) (c : Creation) (e : String) : Pool :=
  p.tried.forgo.concludeCreation c (some e)

/-- A creation succeeds. -/
def birth (p : Pool) (c : Creation) (x : Connection) : Pool :=
  (if p.closed then p.tried.stillbear x else p.tried.bear x).concludeCreation c none

@[simp] theorem muted_log (p : Pool) (l : Level) (m : String) (fs : List (String × Field)) :
    (p.log l m fs).muted = p.muted := rfl

@[simp] theorem muted_notify (p : Pool) (h : Hook) : (p.notify h).muted = p.muted := rfl

@[simp] theorem muted_emit (p : Pool) (e : Event) : (p.emit e).muted = p.muted := rfl

@[simp] theorem muted_logCloseError (p : Pool) (id : HandleId) (e : Option String) :
    (p.logCloseError id e).muted = p.muted := by
  cases e <;> rfl

theorem muted_surrender (p : Pool) (c : Connection) :
    (p.surrender c).muted = { p.muted with closures := c :: p.closures } := by
  simp only [surrender]
  split <;> rfl

theorem find_restate (p : Pool) (id : HandleId) (s t : State) :
    (p.restate id s t).find? id = (p.find? id).map fun h => { h with state := t } :=
  find_modifyHandle p id (fun h => { h with state := t }) fun _ => rfl

theorem stateOf_restate {p : Pool} {id : HandleId} {s : State} (h : p.stateOf? id = some s)
    (t : State) :
    (p.restate id s t).stateOf? id = some t := by
  obtain ⟨k, hf, -⟩ := find_of_stateOf h
  rw [stateOf?, find_restate, hf]
  rfl

theorem find_emptySlot (p : Pool) (id : HandleId) :
    (p.emptySlot id).find? id = (p.find? id).map fun h => { h with slot := none } :=
  find_modifyHandle p id (fun h => { h with slot := none }) fun _ => rfl

theorem find_clearOwner (p : Pool) (id : HandleId) :
    (p.clearOwner id).find? id = (p.find? id).map fun h => { h with owner := none } :=
  find_modifyHandle p id (fun h => { h with owner := none }) fun _ => rfl

theorem find_touch (p : Pool) (id : HandleId) :
    (p.touch id).find? id = (p.find? id).map fun h => { h with lastAccess := p.clock } :=
  find_modifyHandle p id (fun h => { h with lastAccess := p.clock }) fun _ => rfl

theorem find_muted (p : Pool) (id : HandleId) : p.muted.find? id = p.find? id := rfl

/-- What can be seen of a muted pool is the same in pools that sound alike. -/
theorem eq_of_muted {p q : Pool} {α : Type} (f : Pool → α) (hf : ∀ r : Pool, f r.muted = f r)
    (h : q.muted = p.muted) : f q = f p := by
  rw [← hf q, ← hf p, h]

theorem muted_find {p q : Pool} (h : q.muted = p.muted) (id : HandleId) :
    q.find? id = p.find? id := by
  rw [← find_muted q, ← find_muted p, h]

theorem muted_restate {p q : Pool} (h : q.muted = p.muted) (id : HandleId) (s t : State) :
    (q.restate id s t).muted = (p.restate id s t).muted :=
  congrArg (fun r : Pool => r.restate id s t) h

theorem muted_remove {p q : Pool} (h : q.muted = p.muted) (k : Handle) :
    (q.remove k).muted = (p.remove k).muted :=
  congrArg (fun r : Pool => r.remove k) h

theorem muted_transition (p : Pool) (id : HandleId) (s t : State) :
    (p.transition id s t).2.muted = (p.muted.transition id s t).2 := by
  have hsame : p.muted.stateOf? id = p.stateOf? id := rfl
  simp only [transition]
  rw [hsame]
  split <;> rfl

theorem muted_strike (p : Pool) (id : HandleId) (reserved : Bool) :
    (p.strike id reserved).muted = p.muted.strike id reserved := by
  simp only [strike]
  rw [← muted_transition]
  rfl

theorem filter_modify (hs : List Handle) (id : HandleId) (f : Handle → Handle)
    (hf : ∀ h, (f h).id = h.id) :
    (hs.map fun h => if h.id = id then f h else h).filter (·.id ≠ id) =
      hs.filter (·.id ≠ id) := by
  induction hs with
  | nil => rfl
  | cons h hs ih =>
    rw [List.map_cons]
    by_cases hid : h.id = id
    · have hfid : (f h).id = id := (hf h).trans hid
      rw [if_pos hid, List.filter_cons_of_neg (by simp [hfid]),
        List.filter_cons_of_neg (by simp [hid])]
      exact ih
    · rw [if_neg hid, List.filter_cons_of_pos (by simp [hid]), List.filter_cons_of_pos
        (by simp [hid]), ih]

/-- Whatever happened to a handle before, it can be struck off. -/
theorem strike_of {p : Pool} {id : HandleId} {h : Handle} (hf : p.find? id = some h)
    (hs : h.state = .toDestroy) (reserved : Bool) :
    p.strike id reserved =
      { p with
        handles := p.handles.filter (·.id ≠ id)
        strays := if h.queued then id :: p.strays else p.strays
        size := if reserved then p.size else p.size.down
        gauges := p.gauges.moved .toDestroy .destroyed
        counters := { p.counters with destroyed := p.counters.destroyed + 1 } } := by
  have ht := transition_of (t := .destroyed) rfl ((stateOf_of_find hf).trans (congrArg _ hs))
  have hmark : ((p.restate id .toDestroy .destroyed).find? id).any (·.queued) = h.queued := by
    rw [find_restate, hf, Option.map_some, Option.any_some]
  have hh := filter_modify p.handles id (fun h => { h with state := .destroyed }) fun _ => rfl
  simp only [strike, ht, hmark]
  simp only [restate, modifyHandle, hh]

/-- A handle that was struck off is gone, and the others are found as before. -/
theorem find_strike (p : Pool) (id k : HandleId) (reserved : Bool) :
    (p.strike id reserved).find? k =
      if k = id then none else (p.transition id .toDestroy .destroyed).2.find? k := by
  simp only [strike, find?]
  split
  · next hk =>
    rw [hk]
    exact Keyed.find_filter_self Handle.id _ id
  · next hk => exact Keyed.find_filter_of_ne Handle.id _ hk

theorem closeConnection_run (p : Pool) (c : Connection) :
    ((closeConnection c).run p).2 = p.surrender c := by
  simp only [closeConnection, Act.run_bind, Act.run_update, Act.run_read, Act.run_ite,
    Act.run_mark, Act.run_pure, ite_self]

theorem closeSlot_of_some {p : Pool} {id : HandleId} {c : Connection}
    (hc : (p.find? id).bind (·.slot) = some c) :
    ((closeSlot id).run p).2.muted =
      { (p.emptySlot id).muted with closures := c :: p.closures } := by
  simp only [closeSlot, Act.run_bind, Act.run_read, hc, Act.run_update, closeConnection_run,
    muted_notify, muted_logCloseError, muted_surrender]
  rfl

theorem closeSlot_of_none {p : Pool} {id : HandleId} (hc : (p.find? id).bind (·.slot) = none) :
    ((closeSlot id).run p).2 = p := by
  simp only [closeSlot, Act.run_bind, Act.run_read, hc, Act.run_pure]

/-- Ending a handle that stood in `s` and was moved to its end takes it out of the collection. -/
theorem destroyNow_muted {p : Pool} {id : HandleId} {h : Handle} {s : State}
    (hf : p.find? id = some h) (hs : s ≠ .toDestroy) (reason : DestroyReason) (reserved : Bool) :
    ((destroyNow id reason reserved).run (p.restate id s .toDestroy)).2.muted =
      { p.remove { h with state := s } with
        size := if reserved then p.size else p.size.down }.muted := by
  obtain ⟨-, hid⟩ := mem_of_find hf
  have hfind : (p.restate id s .toDestroy).find? id = some { h with state := .toDestroy } := by
    rw [find_restate, hf, Option.map_some]
  have hh := filter_modify p.handles id (fun h => { h with state := .toDestroy }) fun _ => rfl
  simp only [destroyNow, Act.run_bind, Act.run_update, muted_emit, muted_log, muted_strike]
  cases hslot : h.slot with
  | none =>
    rw [closeSlot_of_none (by rw [hfind, Option.bind_some, hslot])]
    rw [strike_of (p := (p.restate id s .toDestroy).muted) hfind rfl]
    simp only [remove, muted, restate, modifyHandle, hid, hh, Gauges.moved_destroyed hs,
      Option.toList_none, List.nil_append]
  | some c =>
    rw [closeSlot_of_some (by rw [hfind, Option.bind_some, hslot])]
    have hempty : ((p.restate id s .toDestroy).emptySlot id).find? id =
        some { h with state := .toDestroy, slot := none } := by
      rw [find_emptySlot, hfind, Option.map_some]
    rw [strike_of (p := { ((p.restate id s .toDestroy).emptySlot id).muted with
      closures := c :: (p.restate id s .toDestroy).closures }) hempty rfl]
    have hk := filter_modify (p.restate id s .toDestroy).handles id
      (fun h => { h with slot := none }) fun _ => rfl
    simp only [restate, modifyHandle] at hk
    simp only [remove, emptySlot, muted, restate, modifyHandle, hid, hh, hk,
      Gauges.moved_destroyed hs, Option.toList_some, List.singleton_append]

theorem muted_offer (p : Pool) (t : Thread) (id : HandleId) :
    (p.offer t id).2.muted = (p.muted.offer t id).2 := by
  have hsame : p.muted.handoff.put p.muted.recents t id = p.handoff.put p.recents t id := rfl
  simp only [offer, hsame]
  split <;> rfl

theorem muted_available (p : Pool) (t : Thread) (id : HandleId) :
    (p.available t id).muted = p.muted.available t id := by
  simp only [available]
  rw [find_muted]
  split
  · rfl
  · rw [muted_offer]
    rfl

theorem muted_cacheLocally (p : Pool) (t : Thread) (id : HandleId) :
    (p.cacheLocally t id).muted = p.muted.cacheLocally t id := by
  have hsame : p.muted.config = p.config := rfl
  simp only [cacheLocally]
  rw [hsame]
  split <;> rfl

theorem offer_kept {p : Pool} {t : Thread} {id : HandleId} {h' : Handoff HandleId} {rs' : Recents}
    (hput : p.handoff.put p.recents t id = (.kept, h', rs')) :
    p.offer t id = (true, { p with handoff := h', recents := rs' }) := by
  simp only [offer]
  rw [hput]

theorem offer_served {p : Pool} {t : Thread} {id x : HandleId} {w : Taker} {h' : Handoff HandleId}
    {rs' : Recents} (hput : p.handoff.put p.recents t id = (.served w x, h', rs')) :
    p.offer t id = (true, { p with handoff := h', recents := rs' }.deliver w x) := by
  simp only [offer]
  rw [hput]

/-- The thread's own list yields a handle that is idle, or nothing and is forgotten. -/
theorem takeLocal_cases (p : Pool) (t : Thread) :
    (∃ rs, p.takeLocal t = (none, { p with recents := rs })) ∨
      ∃ n rs, p.isCached t n = true ∧ p.takeLocal t =
        (some ⟨n⟩, (Pool.transition { p with recents := rs } ⟨n⟩ .checkedIn .checkedOut).2) := by
  simp only [takeLocal]
  by_cases haff : p.config.threadAffinity = true
  · rw [if_pos haff]
    split
    · next n ns hdrop =>
      refine Or.inr ⟨n, p.recents.set p.cacheOwner t ns, ?_, rfl⟩
      have hne := List.head?_dropWhile_not
        (fun n => !p.isCached t n) (p.recents.list p.cacheOwner t)
      rw [hdrop] at hne
      simpa using hne
    · exact Or.inl ⟨p.recents.set p.cacheOwner t [], rfl⟩
  · rw [if_neg haff]
    exact Or.inl ⟨p.recents, rfl⟩

theorem inFlight_available (p : Pool) (t : Thread) (id : HandleId) :
    (p.available t id).inFlight = p.inFlight := by
  unfold available offer
  split
  · rfl
  · split
    split <;> rfl

theorem offer_fst {p : Pool} (hn : p.handoff.Numbered) (ho : p.handoff.isClosed = false)
    (t : Thread) (id : HandleId) : (p.offer t id).1 = true := by
  obtain ⟨h', rs', -, -, ⟨-, -, hput⟩ | ⟨w, x, -, -, hput⟩⟩ :=
    Handoff.put_cases hn ho p.recents t id
  · rw [offer_kept hput]
  · rw [offer_served hput]

/-- While the handoff is open nothing that is published comes back. -/
theorem publish_run {p : Pool} (hn : p.handoff.Numbered) (ho : p.handoff.isClosed = false)
    (t : Thread) (id : HandleId) : ((publish t id).run p).2 = p.available t id := by
  have hoff := offer_fst (p := p.modifyHandle id fun h => { h with queued := true }) hn ho t id
  simp only [publish, available, Act.run_bind, Act.run_read, Act.run_ite]
  split
  · rfl
  · simp only [Act.run_update, Act.run_apply, hoff, if_true, Act.run_pure]

end Pool
end ConnPool
