import ConnPool.Proofs.Reach
import ConnPool.Proofs.OtherWaiters
import ConnPool.Proofs.UnitsAndLeases

namespace ConnPool.Pool

variable {who : Option Nat} {p q r m : Pool} {s : UnitView} {id : HandleId}

namespace UnitView

/-- A handle is active no longer. -/
def without (s : UnitView) (id : HandleId) : UnitView :=
  { s with active := fun k => k ≠ id ∧ s.active k }

/-- A lease has ended. -/
def ended (s : UnitView) (n : Nat) : UnitView := { s with terms := s.terms.filter (·.number ≠ n) }

/-- A handle is active no longer, and no unit of work holds it. -/
def freed (s : UnitView) (id : HandleId) : UnitView :=
  { s.without id with units := s.units.disassociate id }

def joined (s : UnitView) (x : Taker) : UnitView := { s with takers := x :: s.takers }

/-- A handle that was idle goes out on loan to somebody who waits no longer. -/
def lent (s : UnitView) (x : Taker) (id : HandleId) (n : Nat) : UnitView :=
  let us := s.units.associate x.thread id
  { units := us
    terms := s.terms ++ [⟨n, id, decide (us.current x.thread = some id)⟩]
    active := fun k => k = id ∨ s.active k
    takers := s.takers.filter (·.id ≠ x.id) }

/-- Somebody looks for a connection: a caller whose thread holds none, or one of those who wait. -/
def Calls (s : UnitView) (op : Operation) (x : Taker) : Prop :=
  (∃ d, op = .acquire x.thread d) ∧ s.units.current x.thread = none ∨ op = .resume x.id ∧
    x ∈ s.takers

end UnitView

/-- What an operation makes of the units, leases and active handles of a pool. -/
inductive UnitChange (s : UnitView) : Operation → UnitView → Prop where
  | nothing {op : Operation} : UnitChange s op s
  | enter {op : Operation} {x : Taker} (caller : s.Calls op x) : UnitChange s op (s.joined x)
  | lend {op : Operation} {x : Taker} {id : HandleId} {n : Nat} (caller : s.Calls op x)
    (idle : ¬ s.active id) : UnitChange s op (s.lent x id n)
  | again {t : Thread} {d n : Nat} {id : HandleId} (held : s.units.current t = some id)
    (unlent : ∀ l ∈ s.terms, l.handle ≠ id) :
    UnitChange s (.acquire t d) { s with terms := s.terms ++ [⟨n, id, true⟩] }
  | release {t : Thread} {l : Term} (mem : l ∈ s.terms) :
    UnitChange s (.release t l.number)
      (if l.enlisted then s.ended l.number else (s.ended l.number).without l.handle)
  | retire {op : Operation} {l : Term} (mem : l ∈ s.terms)
    (wish : op = .invalidate l.number ∨ op = .detach l.number) :
    UnitChange s op ((s.ended l.number).freed l.handle)
  | free {t : Thread} {id : HandleId} (unlent : ∀ l ∈ s.terms, l.handle ≠ id) :
    UnitChange s (.releaseEnlisted t id) (s.freed id)
  | regroup (us : Units) : UnitChange s (.regroup us) { s with units := us }

/-- A pool in which some such thing has happened, but that some who waited may be gone. -/
def ChangesUnits (s : UnitView) (op : Operation) (q : Pool) : Prop :=
  ∃ s', UnitChange s op s' ∧ Retains s' q

variable {op : Operation}

theorem ChangesUnits.unchanged (h : Retains s q) : ChangesUnits s op q := ⟨s, .nothing, h⟩

theorem Retains.without (h : Retains s q) (k : Retains (q.unitView.without id) r) :
    Retains (s.without id) r :=
  ⟨k.units.trans h.units, k.terms.trans h.terms,
    fun i => (k.active i).trans (and_congr_right fun _ => h.active i),
    List.Subset.trans k.takers h.takers⟩

theorem Retains.given {x : Term} (h : Retains s q)
    (k : Retains { q.unitView with terms := q.unitView.terms ++ [x] } r) :
    Retains { s with terms := s.terms ++ [x] } r :=
  ⟨k.units.trans h.units, k.terms.trans (congrArg (· ++ [x]) h.terms),
    fun i => (k.active i).trans (h.active i), List.Subset.trans k.takers h.takers⟩

theorem Retains.freed (h : Retains s q) (k : Retains (q.unitView.freed id) r) :
    Retains (s.freed id) r :=
  ⟨k.units.trans (congrArg (·.disassociate id) h.units), k.terms.trans h.terms,
    fun i => (k.active i).trans (and_congr_right fun _ => h.active i),
    List.Subset.trans k.takers h.takers⟩

theorem Retains.joined {x : Taker} (h : Retains s q) (k : Retains (q.unitView.joined x) r) :
    Retains (s.joined x) r :=
  ⟨k.units.trans h.units, k.terms.trans h.terms, fun i => (k.active i).trans (h.active i),
    List.Subset.trans k.takers (List.cons_subset_cons x h.takers)⟩

theorem Retains.lent {x : Taker} {n : Nat} (h : Retains s q)
    (k : Retains (q.unitView.lent x id n) r) :
    Retains (s.lent x id n) r := by
  have hu : q.unitView.units = s.units := h.units
  refine ⟨?_, ?_, fun i => (k.active i).trans (or_congr_right (h.active i)), fun y hy => ?_⟩
  · exact k.units.trans (congrArg (·.associate x.thread id) hu)
  · rw [k.terms]
    simp only [UnitView.lent, h.terms, hu]
  · obtain ⟨hin, hne⟩ := List.mem_filter.mp (k.takers hy)
    exact List.mem_filter.mpr ⟨h.takers hin, hne⟩

theorem leave_retains (p : Pool) (n : Nat) : Retains p.unitView (p.leave n) :=
  ⟨rfl, rfl, fun _ => Iff.rfl, (List.filter_sublist.map _).subset⟩

theorem conclude_hushed (p : Pool) (e : Except Failure Nat) :
    Retains p.unitView ((conclude e).run p).2 :=
  .of_muted (conclude_muted e)

theorem park_retains (p : Pool) (a : Acquirer) :
    Retains (p.unitView.joined a.taker) (p.park a) := by
  have hbook : (p.park a).units = p.units ∧ (p.park a).leases = p.leases := by
    simp only [park]
    split
    · exact ⟨rfl, rfl⟩
    · split <;> exact ⟨rfl, rfl⟩
  refine ⟨hbook.1, congrArg (List.map Lease.term) hbook.2, fun k => ?_, fun x hx => ?_⟩
  · simp only [unitView, stateOf?, find?, park_handles, UnitView.joined]
  · obtain ⟨b, hb, rfl⟩ := List.mem_map.mp hx
    rcases park_acquirers (p := p) a with hlist | ⟨-, y, hy, -, hlist⟩
    · rw [hlist] at hb
      obtain ⟨c, hc, rfl⟩ := List.mem_map.mp hb
      split
      · exact List.mem_cons_self
      · exact List.mem_cons_of_mem _ (List.mem_map_of_mem hc)
    · rw [hlist] at hb
      rcases List.mem_append.mp hb with hb | hb
      · exact List.mem_cons_of_mem _ (List.mem_map_of_mem hb)
      · rw [List.mem_singleton.mp hb, hy]
        exact List.mem_cons_self

theorem grow_retains (p : Pool) (a : Acquirer) : Retains p.unitView (grow a p).2 := by
  obtain ⟨hsame | ⟨-, hgrown⟩, -⟩ := grow_cases a p
  · rw [hsame]
    exact .refl p
  · rw [hgrown]
    exact .of_same rfl rfl rfl rfl

theorem Retains.join {x : Taker} (h : Retains s q) : Retains (s.joined x) q :=
  ⟨h.units, h.terms, h.active, List.Subset.trans h.takers (List.subset_cons_self x _)⟩

/-- Who lingers is refused, or waits. -/
theorem linger_retains (p : Pool) (a : Acquirer) :
    Retains (p.unitView.joined a.taker) ((linger a).run p).2 := by
  have hlingers := linger_cases a p
  have hgrow := grow_retains p a
  generalize (linger a).run p = r at hlingers ⊢
  cases hlingers with
  | told ticket => exact ((leave_retains p _).trans (conclude_hushed _ _)).join
  | @late b q untold grown past =>
    rw [grown] at hgrow
    have hlate : Retains (q.leave a.taker.id).unitView (timedOut b (q.leave a.taker.id)).2 :=
      .of_same rfl rfl rfl rfl
    exact (((hgrow.trans (leave_retains q _)).trans hlate).trans (conclude_hushed _ _)).join
  | @away b q untold grown early shut =>
    rw [grown] at hgrow
    exact ((hgrow.trans (leave_retains q _)).trans (conclude_hushed _ _)).join
  | @parks b q untold grown early isOpen =>
    rw [grown] at hgrow
    rw [← (grow_clock grown).1]
    exact hgrow.joined (park_retains q b)

theorem Retains.idle (h : Retains s q) (hi : q.stateOf? id = some .checkedIn) : ¬ s.active id := by
  refine (h.active id).not.mp ?_
  simp only [unitView, hi]
  decide

/-- What a turn comes to: a handle that was idle is lent, or nothing is. -/
inductive Turned (s : UnitView) (x : Taker) : Reply × Pool → Prop where
  | granted {id : HandleId} {n : Nat} {q : Pool} (idle : ¬ s.active id)
    (retains : Retains (s.lent x id n) q) : Turned s x (.granted n, q)
  | waits {e : Reply} {q : Pool} (ungranted : ∀ n, e ≠ .granted n)
      (retains : Retains (s.joined x) q) :
    Turned s x (e, q)

/-- An idle handle is claimed. -/
theorem claimed_retains (h : p.stateOf? id = some .checkedIn) :
    Retains { p.unitView with active := fun k => k = id ∨ p.unitView.active k }
      (p.restate id .checkedIn .checkedOut) := by
  refine ⟨rfl, rfl, fun k => ?_, List.Subset.refl _⟩
  by_cases hk : k = id
  · subst hk
    exact iff_of_true (stateOf_restate h _) (Or.inl rfl)
  · simp only [unitView, restate_stateOf_of_ne hk, hk, false_or]

theorem assign_retains (p : Pool) (t : Thread) (started : Nat) (id : HandleId) :
    Retains { p.unitView with units := p.units.associate t id } (p.assign t started id) := by
  have hown : Retains p.unitView
    (p.modifyHandle id fun h => { h with owner := some ⟨t, p.clock⟩ }) :=
    modify_retains p id _ fun _ => ⟨rfl, rfl⟩
  have hsaid :
    ∀ m : Pool, Retains m.unitView ((m.count fun n => { n with acquired := n.acquired + 1 }).emit
      (.acquired m.name id (.ofNanos (m.clock - started)))) := fun _ => .of_same rfl rfl rfl rfl
  have htouched := (hown.trans (hsaid _)).trans (touch_retains _ id)
  refine ⟨congrArg (·.associate t id) htouched.units, htouched.terms, htouched.active,
    htouched.takers⟩

theorem lend_retains (p : Pool) (id : HandleId) (c : Connection) (e : Bool) :
    Retains { p.unitView with terms := p.unitView.terms ++ [⟨p.nextLease, id, e⟩] }
    (p.lend id c e).2 := by
  have hempty : Retains p.unitView (p.modifyHandle id fun h => { h with slot := none }) :=
    modify_retains p id _ fun _ => ⟨rfl, rfl⟩
  refine ⟨rfl, ?_, hempty.active, List.Subset.refl _⟩
  simp only [unitView, lend, List.map_append, List.map_cons, List.map_nil, Lease.term]

/-- A claimed handle is handed over. -/
theorem handOver_retains (p : Pool) (t : Thread) (started : Nat) (id : HandleId) (c : Connection) :
    Retains { p.unitView with
      units := p.units.associate t id
      terms := p.unitView.terms ++
        [⟨p.nextLease, id, decide ((p.units.associate t id).current t = some id)⟩] }
      (p.handOver t started id c) := by
  have hassigned := assign_retains p t started id
  have hnext : (p.assign t started id).nextLease = p.nextLease := rfl
  simp only [handOver]
  generalize p.assign t started id = m at hassigned hnext ⊢
  have hlent := lend_retains m id c (decide (m.units.current t = some id))
  refine ⟨hlent.units.trans hassigned.units, ?_,
    fun k => (hlent.active k).trans (hassigned.active k),
    List.Subset.trans hlent.takers hassigned.takers⟩
  rw [hlent.terms]
  simp only [hassigned.terms, hassigned.units, hnext]

/-- What was idle is lent to somebody who waits no longer. -/
theorem lent_retains (h : p.stateOf? id = some .checkedIn) (x : Taker) (started : Nat)
    (c : Connection)
    (hr : Retains ((p.restate id .checkedIn .checkedOut).handOver x.thread started id c).unitView r)
    (hx : ∀ y ∈ r.unitView.takers, y.id ≠ x.id) : Retains (p.unitView.lent x id p.nextLease) r := by
  have hclaim := claimed_retains h
  have hgiven := handOver_retains (p.restate id .checkedIn .checkedOut) x.thread started id c
  refine ⟨hr.units.trans hgiven.units, hr.terms.trans hgiven.terms,
    fun k => ((hr.active k).trans (hgiven.active k)).trans (hclaim.active k), fun y hy => ?_⟩
  exact List.mem_filter.mpr ⟨hgiven.takers (hr.takers hy), by simpa using hx y hy⟩

theorem leave_takers (p : Pool) (n : Nat) : ∀ y ∈ (p.leave n).unitView.takers, y.id ≠ n := by
  intro y hy
  obtain ⟨b, hb, rfl⟩ := List.mem_map.mp hy
  simpa using (List.mem_filter.mp hb).2

theorem Sifted.retains (h : Sifted p q) : Retains p.unitView q := by
  have hu : q.units = p.units := by rw [h.same]
  have hl : q.leases = p.leases := by rw [h.same]
  refine ⟨hu, congrArg (List.map Lease.term) hl, fun k => ?_, (h.acquirers.map _).subset⟩
  simp only [unitView, stateOf_of_ledger h.ledger]

theorem turn_turned (hp : p.Sound) (a : Acquirer) : Turned p.unitView a.taker ((turn a).run p) := by
  rcases search_claims none hp a.taker.thread a.started p.handles.length with
    ⟨q, hs, hl, -⟩ | ⟨id, m, q, c, hs, hl, hc, -⟩
  · rw [turn_none hs]
    exact .waits (linger_reply a q) (hl.sifted.retains.joined (linger_retains q a))
  · obtain ⟨r, hrun, hr⟩ := turn_found hs
    obtain ⟨x, hx, rfl⟩ := hc.claimed (hl.steps.sound hp)
    have hstart := hl.sifted.retains.trans hx.retains
    have hunder : ¬ p.unitView.active id := hstart.idle hx.stateOf
    have hends : Retains ((x.restate id .checkedIn .checkedOut).handOver a.taker.thread a.started id
        c).unitView r := (leave_retains _ _).trans (.of_muted hr)
    rw [hrun]
    refine .granted hunder (hstart.lent (lent_retains hx.stateOf a.taker a.started c hends ?_))
    have hsame := eq_of_muted (fun r : Pool => r.unitView.takers) (fun _ => rfl) hr
    exact hsame ▸ leave_takers _ _

theorem Turned.unitChange {t : Taker} {o : Reply × Pool} (h : Turned s t o)
    (caller : s.Calls op t) : ChangesUnits s op o.2 := by
  cases h with
  | granted idle retains => exact ⟨_, .lend caller idle, retains⟩
  | waits _ retains => exact ⟨_, .enter caller, retains⟩

/-- Who was served in vain, or not yet, has a turn. -/
theorem Retains.turned {a : Acquirer} {n : Nat} (h : Retains s p) (hp : p.Sound)
    (ha : s.Calls (.resume n) a.taker) :
    ChangesUnits s (.resume n) ((turn a).run p).2 := by
  have hturned := turn_turned hp a
  generalize (turn a).run p = o at hturned ⊢
  cases hturned with
  | granted idle retains =>
    exact ⟨_, .lend ha ((h.active _).not.mp idle), h.lent retains⟩
  | waits _ retains => exact ⟨_, .enter ha, h.joined retains⟩

/-- Who was served goes with a handle that was idle. -/
theorem served_retains {a : Acquirer} (hc : (p.leave a.taker.id).claim id = (true, q))
    (c : Connection) :
    ¬ p.unitView.active id ∧ Retains (p.unitView.lent a.taker id q.nextLease)
      ((conclude (.ok q.nextLease)).run (q.handOver a.taker.thread a.started id c)).2 := by
  obtain ⟨k, hk, hks, rfl⟩ := claim_eq hc
  have hidle := (stateOf_of_find hk).trans (congrArg some hks)
  have hleft := (leave_retains p a.taker.id).trans (unqueue_retains _ id)
  generalize hm : (p.leave a.taker.id).unqueue id = m at *
  have hgone : ∀ y ∈ m.unitView.takers, y.id ≠ a.taker.id := hm ▸ leave_takers p a.taker.id
  have hgiven :=
    handOver_retains (m.restate id .checkedIn .checkedOut) a.taker.thread a.started id c
  have hends := conclude_hushed ((m.restate id .checkedIn .checkedOut).handOver a.taker.thread
    a.started id c) (.ok (m.restate id .checkedIn .checkedOut).nextLease)
  exact ⟨hleft.idle hidle, hleft.lent (lent_retains hidle a.taker a.started c hends fun y hy =>
    hgone y (hgiven.takers (hends.takers hy)))⟩

theorem resume_changesUnits (hp : p.Sound) (n : Nat) :
    ChangesUnits p.unitView (.resume n) ((resume n).run p).2 := by
  obtain ⟨a, ha, rfl, hgoes⟩ | ⟨-, hrun⟩ := resume_cases hp n
  · have hcalls : p.unitView.Calls (.resume a.taker.id) a.taker :=
      Or.inr ⟨rfl, List.mem_map_of_mem ha⟩
    generalize (resume a.taker.id).run p = r at hgoes ⊢
    cases hgoes with
    | away dismissed => exact .unchanged ((leave_retains p _).trans (conclude_hushed _ _))
    | @lent h q c served claim lend =>
      obtain ⟨hidle, hretains⟩ := served_retains claim c
      exact ⟨_, .lend hcalls hidle, hretains⟩
    | @turn q steps present unheard stale missed =>
      have hready : Retains p.unitView q := by
        rcases missed with rfl | ⟨h, rfl⟩
        · exact .refl q
        · exact (leave_retains p _).trans (unqueue_retains _ h)
      exact hready.turned (steps.sound hp) hcalls
  · rw [hrun]
    exact .unchanged (.refl p)

/-- An open pool first looks for what the thread's unit holds. -/
theorem acquire_open (ho : p.closed = false) (t : Thread) (deadline : Nat) :
    (acquire t deadline).run p = match (reuse t).run (p.notify .beforeAcquire) with
      | (.error f, q) => (conclude (.error f)).run q
      | (.ok (some n), q) => (conclude (.ok n)).run q
      | (.ok none, q) =>
        (turn (q.newcomer t p.clock deadline)).run { q with nextTaker := q.nextTaker + 1 } := by
  have hopen : (p.notify .beforeAcquire).closed = false := ho
  simp only [acquire, Act.run_bind, Act.run_update, Act.run_read, hopen, Bool.false_eq_true,
    if_false]
  generalize (reuse t).run (p.notify .beforeAcquire) = r
  obtain ⟨e | n | _, q⟩ := r <;> rfl

theorem reuse_again {t : Thread} {h : Handle} {c : Connection} (hu : p.units.current t = some id)
    (hf : p.find? id = some h) (hs : h.state = .checkedOut) (hc : h.slot = some c) :
    (reuse t).run p =
      (.ok (some p.nextLease), (((p.touch id).log .debug "Reusing enlisted connection"
      [("handle", .shown id.label)]).lend id c true).2) := by
  obtain ⟨i, state, slot, last, owner, queued, cached⟩ := h
  obtain rfl : state = .checkedOut := hs
  obtain rfl : slot = some c := hc
  simp only [reuse, Act.run_bind, Act.run_read, hu, hf, Act.run_update, Act.run_apply, Act.run_pure]
  rfl

theorem reuse_busy {t : Thread} {h : Handle} (hu : p.units.current t = some id)
    (hf : p.find? id = some h) (hs : h.state = .checkedOut) (hc : h.slot = none) :
    (reuse t).run p = (.error (.handleBusy p.name id.val), p) := by
  obtain ⟨i, state, slot, last, owner, queued, cached⟩ := h
  obtain rfl : state = .checkedOut := hs
  obtain rfl : slot = none := hc
  simp only [reuse, Act.run_bind, Act.run_read, hu, hf, Act.run_pure]

/-- What is active no longer leaves the units. -/
theorem reuse_idle {t : Thread} (hu : p.units.current t = some id)
    (hidle : p.stateOf? id ≠ some .checkedOut) :
    (reuse t).run p = (.ok none, p.disassociate id) := by
  cases hf : p.find? id with
  | none => simp only [reuse, Act.run_bind, Act.run_read, hu, hf, Act.run_update, Act.run_pure]
  | some k =>
    rw [stateOf_of_find hf] at hidle
    obtain ⟨i, state, slot, last, owner, queued, cached⟩ := k
    cases state with
    | checkedOut => exact absurd rfl hidle
    | _ => simp only [reuse, Act.run_bind, Act.run_read, hu, hf, Act.run_update, Act.run_pure]

/-- Units of work in which what is active is enlisted as before. -/
def Spares (p : Pool) (us : Units) : Prop :=
  ∀ t id, p.stateOf? id = some .checkedOut → (us.current t = some id ↔ p.units.current t = some id)

/-- A call finds something enlisted, or drops at most an enlistment that is out of date. -/
theorem reuse_cases (p : Pool) (t : Thread) :
    (∃ l q, (reuse t).run p = (.ok (some l), q)) ∨
    (∃ id, (reuse t).run p = (.error (.handleBusy p.name id), p)) ∨
      ∃ us, p.Spares us ∧ (reuse t).run p = (.ok none, { p with units := us }) := by
  cases hu : p.units.current t with
  | none =>
    refine Or.inr (Or.inr ⟨p.units, fun _ _ _ => Iff.rfl, ?_⟩)
    simp only [reuse, Act.run_bind, Act.run_read, hu, Act.run_pure]
  | some id =>
    by_cases hactive : p.stateOf? id = some .checkedOut
    · obtain ⟨h, hf, hs⟩ := find_of_stateOf hactive
      cases hc : h.slot with
      | none => exact Or.inr (Or.inl ⟨_, reuse_busy hu hf hs hc⟩)
      | some c => exact Or.inl ⟨_, _, reuse_again hu hf hs hc⟩
    · refine Or.inr (Or.inr ⟨p.units.disassociate id, fun s k hk => ?_, reuse_idle hu hactive⟩)
      rw [Units.current_disassociate_iff]
      refine and_iff_left ?_
      rintro rfl
      exact hactive hk

/-- The handle of the thread's unit is lent again if nobody else has it on loan. -/
theorem acquire_again {t : Thread} {h : Handle} {c : Connection} (ho : p.closed = false)
    (hu : p.units.current t = some id) (hf : p.find? id = some h) (hs : h.state = .checkedOut)
    (hc : h.slot = some c) (deadline : Nat) :
    ∃ q, (acquire t deadline).run p = (.granted p.nextLease, q) ∧
      q.muted = ((p.touch id).lend id c true).2.muted := by
  rw [acquire_open ho, reuse_again (p := p.notify .beforeAcquire) hu hf hs hc]
  obtain ⟨q, hrun, hq⟩ := conclude_granted (p := ((((p.notify .beforeAcquire).touch id).log .debug
    "Reusing enlisted connection" [("handle", .shown id.label)]).lend id c true).2) p.nextLease
  exact ⟨q, hrun, hq⟩

/-- The handle of the thread's unit is not had while it is on loan. -/
theorem acquire_busy {t : Thread} {h : Handle} (ho : p.closed = false)
    (hu : p.units.current t = some id) (hf : p.find? id = some h) (hs : h.state = .checkedOut)
    (hc : h.slot = none) (deadline : Nat) :
    (acquire t deadline).run p = (.refused (.handleBusy p.name id.val),
      (p.notify .beforeAcquire).notify (.afterAcquire (.error (.handleBusy p.name id.val)))) := by
  rw [acquire_open ho, reuse_busy (p := p.notify .beforeAcquire) hu hf hs hc]
  exact conclude_refused ..

/-- A thread whose handle is active no longer looks for another. -/
theorem acquire_stale (ho : p.closed = false) {t : Thread} (hu : p.units.current t = some id)
    (hidle : p.stateOf? id ≠ some .checkedOut) (deadline : Nat) :
    (acquire t deadline).run p = (turn (p.newcomer t p.clock deadline)).run
      { (p.notify .beforeAcquire).disassociate id with nextTaker := p.nextTaker + 1 } := by
  rw [acquire_open ho, reuse_idle (p := p.notify .beforeAcquire) hu hidle]
  rfl

/-- A handle on loan has nothing in its slot, and only such a one among those that are active. -/
theorem unlent_of_slot (hp : p.ledger.Fitting) {h : Handle} {c : Connection}
    (hf : p.find? id = some h)
    (hc : h.slot = some c) : ∀ l ∈ p.unitView.terms, l.handle ≠ id := by
  intro x hx hid
  obtain ⟨l, hl, rfl⟩ := List.mem_map.mp hx
  obtain ⟨k, hk, -, hslot⟩ := find_of_lease hp hl
  have hkid : p.find? id = some k := hid ▸ hk
  rw [hf] at hkid
  cases hkid
  rw [hc] at hslot
  cases hslot

theorem acquire_changesUnits (hp : p.Sound) {t : Thread}
    (hheld : p.closed = false → ∀ k, p.units.current t = some k → p.unitView.active k)
    (deadline : Nat) :
    ChangesUnits p.unitView (.acquire t deadline) ((acquire t deadline).run p).2 := by
  by_cases hc : p.closed = true
  · rw [acquire_closed hc]
    exact .unchanged (.of_muted rfl)
  · have ho : p.closed = false := by simpa using hc
    cases hu : p.units.current t with
    | none =>
      rw [acquire_turn ho hu]
      have hdraw : Step none p { p with nextTaker := p.nextTaker + 1 } := .draw
      have hsteps : Steps none p { p.notify .beforeAcquire with nextTaker := p.nextTaker + 1 } :=
        hdraw.steps.hush rfl
      have hturned := turn_turned (hsteps.sound hp) (p.newcomer t p.clock deadline)
      exact hturned.unitChange (Or.inl ⟨⟨deadline, rfl⟩, hu⟩)
    | some id =>
      obtain ⟨h, hf, hs⟩ := find_of_stateOf (hheld ho id hu)
      cases hslot : h.slot with
      | none =>
        rw [acquire_busy ho hu hf hs hslot deadline]
        exact .unchanged (.of_muted rfl)
      | some c =>
        obtain ⟨q, hrun, hq⟩ := acquire_again ho hu hf hs hslot deadline
        have hlent := (touch_retains p id).given (lend_retains (p.touch id) id c true)
        rw [hrun]
        exact ⟨_, .again hu (unlent_of_slot hp.books.fitting hf hslot), hlent.trans (.of_muted hq)⟩

/-- An active handle that leaves that state. -/
theorem restate_without (h : p.stateOf? id = some .checkedOut) {t : State} (ht : t ≠ .checkedOut) :
    Retains (p.unitView.without id) (p.restate id .checkedOut t) := by
  refine ⟨rfl, rfl, fun k => ?_, List.Subset.refl _⟩
  by_cases hk : k = id
  · subst hk
    simp only [unitView, UnitView.without, stateOf_restate h, Option.some.injEq, ht, ne_eq,
      not_true_eq_false, false_and]
  · simp only [unitView, UnitView.without, restate_stateOf_of_ne hk, ne_eq, hk, not_false_eq_true,
      true_and]

theorem cacheLocally_retains (p : Pool) (t : Thread) (id : HandleId) :
    Retains p.unitView (p.cacheLocally t id) := by
  simp only [cacheLocally]
  split
  · have hmark : Retains p.unitView (p.modifyHandle id fun h => { h with cachedBy := some t }) :=
      modify_retains p id _ fun _ => ⟨rfl, rfl⟩
    exact hmark.trans (.of_same rfl rfl rfl rfl)
  · exact .refl p

theorem finishReturn_retains {t : State} (h : t = .toDestroy → p.stateOf? id = some .toDestroy)
    (u : Thread) (since : Nat) : Retains p.unitView ((finishReturn u id t since).run p).2 := by
  simp only [finishReturn, Act.run_ite]
  split
  · next hend => exact destroyNow_retains (h hend) .shutdown false
  · have hheard : Retains p.unitView
        (((p.count fun n => { n with returned := n.returned + 1 }).notify (.afterReturn id)).emit
          (.returned p.name id (.ofNanos (p.clock - since)))) := .of_same rfl rfl rfl rfl
    simp only [Act.run_bind, Act.run_read, Act.run_update]
    exact (hheard.trans (cacheLocally_retains _ u id)).trans (.of_keeps (publish_keeps u id))

/-- An active handle is returned. -/
theorem return_retains (h : p.stateOf? id = some .checkedOut) (t : Thread) (since : Nat) :
    Retains (p.unitView.without id) ((finishReturn t id p.returnState since).run
      (((p.clearOwner id).touch id).restate id .checkedOut p.returnState)).2 := by
  have hhome : Retains p.unitView ((p.clearOwner id).touch id) :=
    (clearOwner_retains p id).trans (touch_retains _ id)
  have hmoved := stateOf_restate (stateOf_home h) p.returnState
  have hidle : p.returnState ≠ .checkedOut := by
    simp only [returnState]
    split <;> decide
  exact (hhome.without (restate_without (stateOf_home h) hidle)).trans
    (finishReturn_retains (fun hend => hmoved.trans (congrArg some hend)) t since)

theorem giveBack_retains (h : p.stateOf? id = some .checkedOut) (t : Thread) (since : Nat) :
    Retains (p.unitView.without id) ((giveBack t id since).run p).2 := by
  rw [giveBack_run h]
  exact return_retains h t since

/-- An active handle is ended at its holder's wish. -/
theorem retire_retains {h : Handle} (hf : p.find? id = some h) (hs : h.state = .checkedOut)
    (reason : DestroyReason) : Retains (p.unitView.freed id) ((retire id reason).run p).2 := by
  have hactive : ((p.disassociate id).clearOwner id).stateOf? id = some .checkedOut := by
    rw [stateOf_of_find (find_retire hf)]
    exact congrArg some hs
  have hend := stateOf_restate hactive .toDestroy
  have hleft : Retains ((p.disassociate id).unitView.without id)
      (((p.disassociate id).clearOwner id).restate id .checkedOut .toDestroy) :=
    (clearOwner_retains _ id).without (restate_without hactive (by decide))
  rw [retire_run hf hs]
  simp only [destroy, Act.run_bind, Act.run_update]
  exact (hleft.trans (destroyNow_retains hend reason false)).trans (topUp_retains _)

theorem endLease_retains (p : Pool) (n : Nat) : Retains (p.unitView.ended n) (p.endLease n).2 := by
  refine ⟨rfl, ?_, fun _ => Iff.rfl, List.Subset.refl _⟩
  simp only [unitView, UnitView.ended, endLease, List.filter_map]
  rfl

theorem restore_retains (p : Pool) (id : HandleId) (c : Connection) :
    Retains p.unitView (p.restore id c) :=
  modify_retains p id (fun h => { h with slot := some c }) fun _ => ⟨rfl, rfl⟩

/-- The first lease with its number is the lease. -/
theorem endLease_fst (hp : p.ledger.Fitting) {l : Lease} (hl : l ∈ p.leases) :
    (p.endLease l.number).1 = some l :=
  (Keyed.find_iff Lease.number (numbers_nodup hp)).mpr ⟨hl, rfl⟩

theorem release_changesUnits (hp : p.Sound) (t : Thread) (n : Nat) :
    ChangesUnits p.unitView (.release t n) ((release t n).run p).2 := by
  simp only [release, Act.run_bind, Act.run_apply]
  rcases endLease_cases hp.books.fitting n with hnone | ⟨l, hmem, h, rfl, hfirst, hf, hs⟩
  · rw [hnone]
    exact .unchanged (.refl p)
  · have hended := (endLease_retains p l.number).trans (restore_retains _ l.handle l.connection)
    have hactive := (stateOf_of_find (find_restore hf)).trans (congrArg some hs)
    have hchange : UnitChange p.unitView (.release t l.number)
        (if l.enlisted then p.unitView.ended l.number
        else (p.unitView.ended l.number).without l.handle) :=
      UnitChange.release (l := l.term) (List.mem_map_of_mem hmem)
    refine ⟨_, hchange, ?_⟩
    simp only [hfirst, Act.run_bind, Act.run_update, Act.run_ite]
    cases l.enlisted with
    | true => exact hended
    | false => exact hended.without (giveBack_retains hactive t l.since)

theorem invalidate_frees (hp : p.ledger.Fitting) {l : Lease} (hl : l ∈ p.leases) :
    Retains ((p.unitView.ended l.number).freed l.handle) ((invalidate l.number).run p).2 := by
  obtain ⟨h, hf, hs, -⟩ := find_of_lease hp hl
  have hended := (endLease_retains p l.number).trans (restore_retains _ l.handle l.connection)
  have hfound := find_restore hf
  simp only [invalidate, Act.run_bind, Act.run_apply, endLease_fst hp hl, Act.run_update]
  generalize (p.endLease l.number).2.restore l.handle l.connection = m at hended hfound ⊢
  have htold : Retains m.unitView (m.log .debug "Connection invalidated"
      [("handle", .shown l.handle.label)]) := .of_same rfl rfl rfl rfl
  have hsaid : (m.log .debug "Connection invalidated" [("handle", .shown l.handle.label)]).find?
      l.handle = some { h with slot := some l.connection } := hfound
  exact (hended.trans htold).freed (retire_retains hsaid hs .invalidated)

theorem detach_frees (hp : p.ledger.Fitting) {l : Lease} (hl : l ∈ p.leases) :
    Retains ((p.unitView.ended l.number).freed l.handle) ((detach l.number).run p).2 := by
  obtain ⟨h, hf, hs, -⟩ := find_of_lease hp hl
  simp only [detach, Act.run_bind, Act.run_apply, endLease_fst hp hl, Act.run_update, Act.run_pure]
  generalize hm : Pool.log { (p.endLease l.number).2 with
    detached := l.connection :: (p.endLease l.number).2.detached } .debug "Connection detached"
    [("handle", .shown l.handle.label)] = m
  have hfound : m.find? l.handle = some h := hm ▸ hf
  have htold : Retains (p.endLease l.number).2.unitView m := hm ▸ .of_same rfl rfl rfl rfl
  exact ((endLease_retains p l.number).trans htold).freed (retire_retains hfound hs .detached)

theorem invalidate_changesUnits (hp : p.Sound) (n : Nat) :
    ChangesUnits p.unitView (.invalidate n) ((invalidate n).run p).2 := by
  rcases endLease_cases hp.books.fitting n with hnone | ⟨l, hl, h, rfl, -⟩
  · simp only [invalidate, Act.run_bind, Act.run_apply, hnone, Act.run_pure]
    exact .unchanged (.refl p)
  · have hchange :
      UnitChange p.unitView (.invalidate l.number) ((p.unitView.ended l.number).freed l.handle) :=
      UnitChange.retire (l := l.term) (List.mem_map_of_mem hl) (Or.inl rfl)
    exact ⟨_, hchange, invalidate_frees hp.books.fitting hl⟩

theorem detach_changesUnits (hp : p.Sound) (n : Nat) :
    ChangesUnits p.unitView (.detach n) ((detach n).run p).2 := by
  rcases endLease_cases hp.books.fitting n with hnone | ⟨l, hl, h, rfl, -⟩
  · simp only [detach, Act.run_bind, Act.run_apply, hnone, Act.run_pure]
    exact .unchanged (.refl p)
  · have hchange : UnitChange p.unitView (.detach l.number)
        ((p.unitView.ended l.number).freed l.handle) :=
      UnitChange.retire (l := l.term) (List.mem_map_of_mem hl) (Or.inr rfl)
    exact ⟨_, hchange, detach_frees hp.books.fitting hl⟩

/-- A handle that is not on loan is given back out of its unit. -/
theorem releaseEnlisted_frees {h : Handle} {c : Connection} (hf : p.find? id = some h)
    (hs : h.state = .checkedOut) (hc : h.slot = some c) (t : Thread) :
    Retains (p.unitView.freed id) ((releaseEnlisted t id).run p).2 := by
  obtain ⟨i, state, slot, last, owner, queued, cached⟩ := h
  obtain rfl : state = .checkedOut := hs
  obtain rfl : slot = some c := hc
  have hactive : (p.disassociate id).stateOf? id = some .checkedOut := stateOf_of_find hf
  have hmove := transition_of (legal_return p) (stateOf_home hactive)
  simp only [releaseEnlisted, Act.run_bind, Act.run_read, hf, Act.run_update, Act.run_apply, hmove,
    if_true, Act.run_pure]
  exact return_retains hactive t _

theorem releaseEnlisted_busy {h : Handle} (hf : p.find? id = some h) (hs : h.state = .checkedOut)
    (hc : h.slot = none) (t : Thread) : (releaseEnlisted t id).run p = (false, p) := by
  obtain ⟨i, state, slot, last, owner, queued, cached⟩ := h
  obtain rfl : state = .checkedOut := hs
  obtain rfl : slot = none := hc
  simp only [releaseEnlisted, Act.run_bind, Act.run_read, hf, Act.run_pure]

/-- A handle that is not active leaves the units, and no more. -/
theorem releaseEnlisted_idle (h : p.stateOf? id ≠ some .checkedOut) (t : Thread) :
    (releaseEnlisted t id).run p = (false, p.disassociate id) := by
  cases hf : p.find? id with
  | none =>
    simp only [releaseEnlisted, Act.run_bind, Act.run_read, hf, Act.run_update, Act.run_pure]
  | some k =>
    rw [stateOf_of_find hf] at h
    obtain ⟨i, state, slot, last, owner, queued, cached⟩ := k
    cases state with
    | checkedOut => exact absurd rfl h
    | _ => simp only [releaseEnlisted, Act.run_bind, Act.run_read, hf, Act.run_update, Act.run_pure]

theorem releaseEnlisted_changesUnits (hp : p.Sound) (t : Thread) (id : HandleId) :
    ChangesUnits p.unitView (.releaseEnlisted t id) ((releaseEnlisted t id).run p).2 := by
  by_cases hactive : p.stateOf? id = some .checkedOut
  · obtain ⟨h, hf, hs⟩ := find_of_stateOf hactive
    cases hc : h.slot with
    | none =>
      rw [releaseEnlisted_busy hf hs hc]
      exact .unchanged (.refl p)
    | some c =>
      exact ⟨_, .free (unlent_of_slot hp.books.fitting hf hc), releaseEnlisted_frees hf hs hc t⟩
  · have hunlent : ∀ l ∈ p.unitView.terms, l.handle ≠ id := by
      intro x hx hid
      obtain ⟨l, hl, rfl⟩ := List.mem_map.mp hx
      obtain ⟨h, hf, hs, -⟩ := find_of_lease hp.books.fitting hl
      exact hactive (hid ▸ (stateOf_of_find hf).trans (congrArg some hs))
    rw [releaseEnlisted_idle hactive]
    refine ⟨_, .free hunlent, rfl, rfl,
      fun k => ⟨fun hk => ⟨?_, hk⟩, And.right⟩, List.Subset.refl _⟩
    rintro rfl
    exact hactive hk

/-- Every operation comes to a deal, if what the calling thread holds is active. -/
theorem Operation.changesUnits (hp : p.Settled) (op : Operation) (hheld : ∀ t d, op = .acquire t d →
      p.closed = false → ∀ k, p.units.current t = some k → p.unitView.active k) :
    ChangesUnits p.unitView op (op.run p) := by
  have hsound := hp.sound
  cases op with
  | acquire t deadline => exact acquire_changesUnits hsound (hheld t deadline rfl) deadline
  | resume n => exact resume_changesUnits hsound n
  | release t n => exact release_changesUnits hsound t n
  | invalidate n => exact invalidate_changesUnits hsound n
  | detach n => exact detach_changesUnits hsound n
  | write n text => exact .unchanged (write_retains p n text)
  | releaseEnlisted t id => exact releaseEnlisted_changesUnits hsound t id
  | sweep t s => exact .unchanged (.of_keeps (sweep_keeps t s))
  | execute t s id => exact .unchanged (.of_keeps (execute_keeps t s id))
  | topUp => exact .unchanged (topUp_retains p)
  | setFloor n => exact .unchanged (Upholds.retains (SettingRule.setFloor (Retains p.unitView) p n))
  | setPatience d =>
    exact .unchanged (Upholds.retains (SettingRule.setPatience (Retains p.unitView) p d))
  | create => exact .unchanged (.of_keeps create_keeps)
  | overtake n =>
    exact .unchanged (Upholds.retains (CreationRule.overtake (Retains p.unitView) p n))
  | abandon n => exact .unchanged (Upholds.retains (CreationRule.abandon (Retains p.unitView) p n))
  | close => exact .unchanged (.of_keeps close_keeps)
  | vanish => exact .unchanged (.of_keeps vanish_keeps)
  | disown => exact .unchanged (.of_same rfl rfl rfl rfl)
  | wait n => exact .unchanged (.of_same rfl rfl rfl rfl)
  | regroup us => exact ⟨_, .regroup us, rfl, rfl, fun _ => Iff.rfl, List.Subset.refl _⟩
  | refit f => exact .unchanged (.of_same rfl rfl rfl rfl)
  | listen ls bus => exact .unchanged (.of_same rfl rfl rfl rfl)

/-- Every operation comes to a deal, once the calling thread has lost what it holds in vain. -/
theorem Operation.changesUnits_anew (hp : p.Settled) (op : Operation) :
    ∃ us, ChangesUnits { p.unitView with units := us } op (op.run p) := by
  by_cases hvain : ∃ t d id, op = .acquire t d ∧ p.closed = false ∧ p.units.current t = some id ∧
      ¬ p.unitView.active id
  · obtain ⟨t, d, id, rfl, ho, hu, hidle⟩ := hvain
    have hapart : Step none p (p.disassociate id) := .regroup _
    have hdraw : Step none (p.disassociate id)
        { p.disassociate id with nextTaker := p.nextTaker + 1 } := .draw
    have hsteps : Steps none p { p.disassociate id with nextTaker := p.nextTaker + 1 } :=
      hapart.steps.tail hdraw
    have hheard : Steps none p
        { (p.notify .beforeAcquire).disassociate id with nextTaker := p.nextTaker + 1 } :=
      hsteps.hush rfl
    have hturned := turn_turned (hheard.sound hp.sound) (p.newcomer t p.clock d)
    refine ⟨p.units.disassociate id, ?_⟩
    simp only [Operation.run, acquire_stale ho hu hidle]
    exact hturned.unitChange (Or.inl ⟨⟨d, rfl⟩, Units.current_disassociate_self hu⟩)
  · refine ⟨p.units, op.changesUnits hp fun t d hop ho k hu => ?_⟩
    by_contra hidle
    exact hvain ⟨t, d, k, hop, ho, hu, hidle⟩

end ConnPool.Pool
