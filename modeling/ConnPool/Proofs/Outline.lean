import ConnPool.Proofs.Operation

namespace ConnPool

/-- A pool as it looks to someone who cannot tell one connection from another: how many there are of
each kind, which leases are out, and what was counted. -/
structure Outline where
  name : String
  maxSize : UInt64
  floor : Nat
  factory : Factory
  enlisting : Enlisting
  closed : Bool
  size : Nat
  pending : Nat
  idle : Nat
  active : Nat
  peak : Nat
  counters : Counters
  inFlight : Nat
  attempts : Nat
  waiting : List Nat
  held : List (Nat × Bool)
  nextLease : Nat

namespace Gauges

theorem idle_moved_out (g : Gauges) :
    (g.moved .checkedIn .checkedOut).checkedIn.count = g.checkedIn.count - 1 :=
  Tally.count_down g.checkedIn

theorem active_moved_back (g : Gauges) :
    (g.moved .checkedOut .checkedIn).checkedOut.count = g.checkedOut.count - 1 :=
  Tally.count_down g.checkedOut

theorem idle_leave_idle (g : Gauges) :
    (g.leave .checkedIn).checkedIn.count = g.checkedIn.count - 1 :=
  Tally.count_down g.checkedIn

theorem active_leave_active (g : Gauges) :
    (g.leave .checkedOut).checkedOut.count = g.checkedOut.count - 1 :=
  Tally.count_down g.checkedOut

end Gauges

namespace Outline

def cap (o : Outline) : Nat := o.maxSize.toNat

/-- Whether a lease with this number is out. -/
def holds (o : Outline) (n : Nat) : Bool := o.held.any (·.1 = n)

/-- An idle connection goes out on the next lease. -/
def lend (o : Outline) : Outline :=
  { o with
    idle := o.idle - 1
    active := o.active + 1
    peak := max o.peak (o.active + 1)
    counters := { o.counters with acquired := o.counters.acquired + 1 }
    held := o.held ++ [(o.nextLease, false)]
    nextLease := o.nextLease + 1 }

/-- A lease ends. -/
def drop (o : Outline) (n : Nat) : Outline := { o with held := o.held.filter (·.1 ≠ n) }

/-- An active connection is idle again. -/
def takeBack (o : Outline) : Outline :=
  { o with
    active := o.active - 1
    idle := o.idle + 1
    counters := { o.counters with returned := o.counters.returned + 1 } }

/-- An active connection is no more. -/
def lose (o : Outline) : Outline :=
  { o with
    active := o.active - 1
    size := o.size - 1
    counters := { o.counters with destroyed := o.counters.destroyed + 1 } }

/-- Some of the idle connections are no more. -/
def shed (o : Outline) (n : Nat) : Outline :=
  { o with
    idle := o.idle - n
    size := o.size - n
    counters := { o.counters with destroyed := o.counters.destroyed + n } }

/-- Creations are scheduled. -/
def reserve (o : Outline) (n : Nat) : Outline :=
  { o with size := o.size + n, pending := o.pending + n, inFlight := o.inFlight + n }

/-- An open pool is filled up to its floor. -/
def fill (o : Outline) : Outline := if o.closed then o else o.reserve (min o.floor o.cap - o.size)

def timeOut (o : Outline) : Outline :=
  { o with counters := { o.counters with timeouts := o.counters.timeouts + 1 } }

def tried (o : Outline) : Outline := { o with attempts := o.attempts + 1 }

/-- A creation is over. -/
def endCreation (o : Outline) : Outline :=
  { o with pending := o.pending - 1, inFlight := o.inFlight - 1 }

/-- A creation comes to a connection, which is closed at once if it comes too late. -/
def bear (o : Outline) : Outline :=
  if o.closed then
    { o with
      size := o.size - 1
      counters := { o.counters with
        created := o.counters.created + 1, destroyed := o.counters.destroyed + 1 } }
  else
    { o with
      idle := o.idle + 1
      counters := { o.counters with created := o.counters.created + 1 } }

/-- A creation comes to nothing. -/
def forgo (o : Outline) : Outline :=
  { o with
    size := o.size - 1
    counters := { o.counters with creationFailures := o.counters.creationFailures + 1 } }

def stats (o : Outline) : Stats where
  size := o.size
  idle := o.idle
  active := o.active
  pending := o.pending
  waiters := o.waiting.length
  maxUsed := o.peak
  created := o.counters.created
  destroyed := o.counters.destroyed
  acquired := o.counters.acquired
  returned := o.counters.returned
  timeouts := o.counters.timeouts
  creationFailures := o.counters.creationFailures
  validationFailures := o.counters.validationFailures
  leaksSuspected := o.counters.leaksSuspected
  reaped := o.counters.reaped

/-- Nobody waits, no unit of work is consulted, and every connection is good. -/
structure Plain (o : Outline) : Prop where
  alone : o.waiting = []
  free : o.enlisting = .never
  loose : ∀ l ∈ o.held, l.2 = false
  good : ∀ c, (o.factory.probe c).1 = true

end Outline

namespace Pool

def outline (p : Pool) : Outline where
  name := p.name
  maxSize := p.config.maxSize
  floor := p.floor
  factory := p.factory
  enlisting := p.units.enlisting
  closed := p.closed
  size := p.size.count
  pending := p.pending.count
  idle := p.gauges.checkedIn.count
  active := p.gauges.checkedOut.count
  peak := p.gauges.maxUsed
  counters := p.counters
  inFlight := p.inFlight.length
  attempts := p.attempts
  waiting := p.acquirers.map (·.taker.id)
  held := p.leases.map fun l => (l.number, l.enlisted)
  nextLease := p.nextLease

variable {p q : Pool} {id : HandleId}

theorem outline_of_muted (h : q.muted = p.muted) : q.outline = p.outline :=
  eq_of_muted Pool.outline (fun _ => rfl) h

theorem outline_gauges (g : Gauges) :
    outline { p with gauges := g } =
      { p.outline with
        idle := g.checkedIn.count
        active := g.checkedOut.count
        peak := g.maxUsed } :=
  rfl

/-- Which handle it is that changes, and what else it is noted for, does not show. -/
@[simp] theorem outline_modifyHandle (f : Handle → Handle) :
    (p.modifyHandle id f).outline = p.outline := rfl

@[simp] theorem outline_touch : (p.touch id).outline = p.outline := rfl

theorem outline_restate (s t : State) :
    (p.restate id s t).outline = outline { p with gauges := p.gauges.moved s t } := rfl

@[simp] theorem outline_cacheLocally (t : Thread) : (p.cacheLocally t id).outline = p.outline := by
  simp only [cacheLocally]
  split <;> rfl

@[simp] theorem outline_deliver (w : Taker) : (p.deliver w id).outline = p.outline := by
  have hids : (p.deliver w id).acquirers.map (·.taker.id) = p.acquirers.map (·.taker.id) :=
    Keyed.map_key_replace (f := fun a : Acquirer => { a with waiting := .served id }) fun _ => rfl
  simp only [outline, hids]
  rfl

@[simp] theorem outline_offer (t : Thread) : (p.offer t id).2.outline = p.outline := by
  simp only [offer]
  split
  · rfl
  · rfl
  · exact outline_deliver _

@[simp] theorem outline_available (t : Thread) : (p.available t id).outline = p.outline := by
  simp only [available]
  split
  · rfl
  · exact outline_offer (p := p.modifyHandle id fun h => { h with queued := true }) t

theorem outline_comeBack (t : Thread) : (p.comeBack t id).outline = p.outline.takeBack := by
  rw [comeBack, homecoming, outline_available, outline_cacheLocally]
  have hmoved : (((p.clearOwner id).touch id).restate id .checkedOut .checkedIn).outline =
      { p.outline with active := p.outline.active - 1, idle := p.outline.idle + 1 } := by
    rw [outline_restate, outline_gauges, Gauges.active_moved_back]
    rfl
  exact congrArg (fun o : Outline =>
    { o with counters := { o.counters with returned := o.counters.returned + 1 } }) hmoved

theorem outline_remove (h : Handle) :
    (p.remove h).outline =
      { outline { p with gauges := p.gauges.leave h.state } with
        size := p.outline.size - 1
        counters :=
          { p.outline.counters with destroyed := p.outline.counters.destroyed + 1 } } := by
  have hdown := Tally.count_down p.size
  simp only [outline, remove, hdown]
  rfl

theorem outline_remove_active {h : Handle} (hs : h.state = .checkedOut) :
    (p.remove h).outline = p.outline.lose := by
  rw [outline_remove, hs, outline_gauges, Gauges.active_leave_active, Gauges.maxUsed_leave]
  rfl

theorem outline_remove_idle {h : Handle} (hs : h.state = .checkedIn) :
    (p.remove h).outline = p.outline.shed 1 := by
  rw [outline_remove, hs, outline_gauges, Gauges.idle_leave_idle, Gauges.maxUsed_leave]
  rfl

theorem outline_endLease (n : Nat) : (p.endLease n).2.outline = p.outline.drop n := by
  have hheld : (p.leases.filter (·.number ≠ n)).map (fun l => (l.number, l.enlisted)) =
      (p.leases.map fun l => (l.number, l.enlisted)).filter (·.1 ≠ n) := by
    rw [List.filter_map]
    rfl
  simp only [outline, endLease, hheld]
  rfl

theorem lease_isSome (n : Nat) : (p.lease? n).isSome = p.outline.holds n := by
  simp only [lease?, List.isSome_find?, Outline.holds, outline, List.any_map]
  rfl

theorem enlisting_associate (u : Units) (t : Thread) (h : HandleId) :
    (u.associate t h).enlisting = u.enlisting := by
  simp only [Units.associate]
  split <;> rfl

theorem enlisting_disassociate (u : Units) (h : HandleId) :
    (u.disassociate h).enlisting = u.enlisting := by
  simp only [Units.disassociate]
  split <;> rfl

@[simp] theorem outline_disassociate : (p.disassociate id).outline = p.outline := by
  simp only [outline, disassociate, enlisting_disassociate]
  rfl

theorem outline_assign (t : Thread) (started : Nat) :
    (p.assign t started id).outline =
      { p.outline with
        counters := { p.outline.counters with acquired := p.outline.counters.acquired + 1 } } := by
  simp only [outline, assign, touch, emit, count, modifyHandle, enlisting_associate]
  rfl

theorem outline_lend (c : Connection) (e : Bool) :
    (p.lend id c e).2.outline =
      { p.outline with
        held := p.outline.held ++ [(p.outline.nextLease, e)]
        nextLease := p.outline.nextLease + 1 } := by
  simp only [outline, Pool.lend, List.map_append, List.map_cons, List.map_nil]
  rfl

/-- Without units of work no lease is enlisted. -/
theorem outline_handOver (free : p.units.enlisting = .never) (t : Thread) (started : Nat)
    (c : Connection) :
    (p.handOver t started id c).outline =
      { p.outline with
        counters := { p.outline.counters with acquired := p.outline.counters.acquired + 1 }
        held := p.outline.held ++ [(p.outline.nextLease, false)]
        nextLease := p.outline.nextLease + 1 } := by
  have hunits : (p.assign t started id).units.enlisting = .never :=
    (enlisting_associate p.units t id).trans free
  have hnone : (p.assign t started id).units.current t = none := by
    simp only [Units.current, hunits]
  simp only [handOver]
  rw [outline_lend, outline_assign, hnone]
  rfl

/-- A claimed handle that goes out on loan. -/
theorem outline_claimed (free : p.units.enlisting = .never) (t : Thread) (started : Nat)
    (c : Connection) :
    ((p.restate id .checkedIn .checkedOut).handOver t started id c).outline = p.outline.lend := by
  have hunits : (p.restate id .checkedIn .checkedOut).units.enlisting = .never := free
  rw [outline_handOver hunits, outline_restate, outline_gauges, Gauges.idle_moved_out]
  rfl

/-- Where nobody waits nobody is missed. -/
theorem outline_leave (alone : p.outline.waiting = []) (n : Nat) :
    (p.leave n).outline = p.outline := by
  have hnone : p.acquirers = [] := List.map_eq_nil_iff.mp alone
  simp only [outline, leave, hnone, List.filter_nil]
  rfl

theorem outline_schedule (a : Option Nat) : (p.schedule a).outline = p.outline.reserve 1 := by
  simp only [outline, schedule, List.length_append, List.length_singleton]
  rfl

theorem outline_grow (ho : p.closed = false) {a : Acquirer} (ht : a.ticket = none) :
    (grow a p).2.outline =
      if p.outline.size < p.outline.cap then p.outline.reserve 1 else p.outline := by
  have hroom : p.hasRoom = decide (p.outline.size < p.outline.cap) := by
    simp only [hasRoom, ho, Bool.not_false, Bool.true_and]
    rfl
  simp only [grow, ht, hroom, decide_eq_true_eq]
  split
  · exact outline_schedule _
  · rfl

theorem outline_timedOut (a : Acquirer) : (timedOut a p).2.outline = p.outline.timeOut := rfl

/-- An acquirer that comes too late asks for a creation nevertheless. -/
theorem outline_linger (alone : p.outline.waiting = []) (ho : p.closed = false) {a : Acquirer}
    (ht : a.ticket = none) (hd : a.deadline ≤ p.clock) :
    ((linger a).run p).2.outline =
      (if p.outline.size < p.outline.cap then p.outline.reserve 1 else p.outline).timeOut := by
  have hgrown := outline_grow ho ht
  have hlingers := linger_cases a p
  generalize (linger a).run p = r at hlingers ⊢
  cases hlingers with
  | told ticket => cases ht.symm.trans ticket
  | @late b q untold grown past =>
    rw [grown] at hgrown
    have hnone : q.outline.waiting = [] := by
      rw [hgrown]
      split
      · exact alone
      · exact alone
    rw [conclude_refused, outline_of_muted (muted_notify _ _), outline_timedOut,
      outline_leave hnone, hgrown]
  | away untold grown early shut => exact absurd hd (Nat.not_le.mpr early)
  | parks untold grown early isOpen => exact absurd hd (Nat.not_le.mpr early)

theorem Looked.outline {who : Option Nat} (h : Looked who p q) : q.outline = p.outline :=
  (congrArg Pool.outline h.same).trans rfl

/-- A caller who waits for nobody claims what is idle, and only that shows. -/
theorem Claim.outline (h : Claim none p id q) (hp : p.Sound) :
    ∃ x : Pool, x.outline = p.outline ∧ q = x.restate id .checkedIn .checkedOut := by
  cases h with
  | @own t q take =>
    obtain ⟨rs, hnone⟩ | ⟨n, rs, hcached, hsome⟩ := p.takeLocal_cases t
    · cases take.symm.trans hnone
    · have hs : Pool.stateOf? { p with recents := rs } ⟨n⟩ = some .checkedIn :=
        stateOf_of_isCached hp.books.fitting hcached
      rw [take, transition_of rfl hs] at hsome
      obtain ⟨hid, hq⟩ := Prod.mk.inj hsome
      cases hid
      exact ⟨{ p with recents := rs }, rfl, hq⟩
  | @queued t h' rs' q take claim =>
    obtain ⟨-, -, -, hq⟩ := claim_eq claim
    exact ⟨unqueue { p with handoff := h', recents := rs' } id, rfl, hq⟩
  | served self => cases self

theorem outline_repeat (n : Nat) :
    (n.repeat (schedule none) p).outline = p.outline.reserve n := by
  induction n with
  | zero => rfl
  | succ n ih =>
    change (schedule none (n.repeat (schedule none) p)).outline = _
    rw [outline_schedule, ih]
    rfl

theorem outline_fillTo (target : Nat) :
    (p.fillTo target).outline =
      if p.outline.closed then p.outline
      else p.outline.reserve (min target p.outline.cap - p.outline.size) := by
  simp only [fillTo]
  split
  · next hc => exact (if_pos hc).symm
  · next hc =>
    rw [outline_repeat]
    exact (if_neg hc).symm

theorem outline_topUp : p.topUp.outline = p.outline.fill := outline_fillTo p.floor

@[simp] theorem outline_tellAcquirer (n : Nat) (e : Option String) :
    (p.tellAcquirer n e).outline = p.outline := by
  have hids : (p.tellAcquirer n e).acquirers.map (·.taker.id) = p.acquirers.map (·.taker.id) := by
    simp only [tellAcquirer, List.map_map]
    refine List.map_congr_left fun a _ => ?_
    simp only [Function.comp]
    split <;> rfl
  simp only [outline, hids]
  rfl

theorem outline_endCreation : p.endCreation.outline = p.outline.endCreation := by
  have hdown := Tally.count_down p.pending
  simp only [outline, endCreation, List.length_tail, hdown]
  rfl

theorem outline_concludeCreation (c : Creation) (e : Option String) :
    (p.concludeCreation c e).outline = p.outline.endCreation := by
  rw [concludeCreation, outline_endCreation]
  cases c.acquirer with
  | none => rfl
  | some n => exact congrArg Outline.endCreation (outline_tellAcquirer n e)

theorem outline_miscarry (c : Creation) (e : String) :
    (p.miscarry c e).outline = p.outline.tried.forgo.endCreation := by
  have hdown := Tally.count_down p.size
  rw [miscarry, outline_concludeCreation]
  simp only [outline, forgo, tried, hdown]
  rfl

theorem outline_stillbear (x : Connection) :
    (p.stillbear x).outline =
      { p.outline with
        size := p.outline.size - 1
        counters := { p.outline.counters with
          created := p.outline.counters.created + 1
          destroyed := p.outline.counters.destroyed + 1 } } := by
  have hgauges : (p.enroll x).gauges.leave (p.newHandle x).state = p.gauges :=
    Gauges.enter_new_leave p.gauges
  have hdown := Tally.count_down p.size
  simp only [stillbear, outline, remove, hgauges]
  simp only [enroll, hdown]
  rfl

theorem outline_bear (x : Connection) :
    (p.bear x).outline =
      { p.outline with
        idle := p.outline.idle + 1
        counters := { p.outline.counters with created := p.outline.counters.created + 1 } } := by
  have hmoved : ((p.enroll x).restate ⟨p.nextHandle⟩ .new .checkedIn).outline =
      { outline { p with gauges := (p.gauges.enter .new).moved .new .checkedIn } with
        counters := { p.counters with created := p.counters.created + 1 } } := rfl
  simp only [bear]
  rw [outline_available, outline_touch, hmoved, Gauges.enter_new_moved, outline_gauges]
  rfl

theorem outline_birth (c : Creation) (x : Connection) :
    (p.birth c x).outline = p.outline.tried.bear.endCreation := by
  rw [birth, outline_concludeCreation]
  split
  · next hc =>
    rw [outline_stillbear]
    exact congrArg Outline.endCreation (if_pos hc).symm
  · next hc =>
    rw [outline_bear]
    exact congrArg Outline.endCreation (if_neg hc).symm

theorem outline_shut (hp : p.Lineup) : p.shut.outline = { p.outline with closed := true } := by
  obtain ⟨h', -, -, -, -, heq⟩ := closeHandoff_eq hp
  have hids : (p.acquirers.map sentAway).map (·.taker.id) = p.acquirers.map (·.taker.id) := by
    rw [List.map_map]
    exact List.map_congr_left fun a _ => congrArg Taker.id (sentAway_taker a)
  simp only [shut]
  rw [heq]
  simp only [outline, hids]
  rfl

end Pool
end ConnPool
