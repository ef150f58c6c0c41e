import ConnPool.Proofs.History

namespace ConnPool.Pool

variable {who : Option Nat} {p q : Pool}

/-- Nobody who waits has been served and not yet looked: no call is about to go on. -/
def Quiet (p : Pool) : Prop := ∀ a ∈ p.acquirers, a.waiting = .parked

/-- When nothing is queued, all that is idle has been promised to someone who waits. -/
theorem idle_promised (hp : p.Sound) (ho : p.closed = false) (hnil : p.handoff.toList = [])
    {h : Handle} (hh : h ∈ p.handles) (hs : h.state = .checkedIn) :
    ∃ a ∈ p.acquirers, a.waiting = .served h.id := by
  have hin := (hp.lineup.queued_iff h hh).mp (hp.marked ho h hh hs)
  rw [entries, hnil, List.nil_append, List.mem_filterMap] at hin
  obtain ⟨a, ha, hserved⟩ := hin
  refine ⟨a, ha, ?_⟩
  cases hw : a.waiting with
  | served k =>
    rw [hw] at hserved
    rw [Option.some.inj hserved]
  | parked =>
    rw [hw] at hserved
    cases hserved
  | dismissed =>
    rw [hw] at hserved
    cases hserved

theorem idle_of_stateOf {id : HandleId} (hs : p.stateOf? id = some .checkedIn) :
    ∃ h ∈ p.handles, h.state = .checkedIn := by
  obtain ⟨h, hf, hh⟩ := find_of_stateOf hs
  exact ⟨h, (mem_of_find hf).1, hh⟩

theorem idle_of_ledger (hl : q.ledger = p.ledger) {h : Handle} (hh : h ∈ p.handles)
    (hs : h.state = .checkedIn) : ∃ k ∈ q.handles, k.id = h.id ∧ k.state = .checkedIn := by
  have hacc : h.account ∈ q.ledger.accounts := hl ▸ List.mem_map_of_mem hh
  obtain ⟨k, hk, hkh⟩ := List.mem_map.mp hacc
  exact ⟨k, hk, congrArg Account.id hkh, (congrArg Account.state hkh).trans hs⟩

/-- When a search ends with nothing queued, all that is idle has been promised. -/
theorem Looked.promised (hl : Looked who p q) (hp : p.Sound) (ho : p.closed = false)
    (hnil : q.handoff.toList = []) {h : Handle} (hh : h ∈ p.handles) (hs : h.state = .checkedIn) :
    ∃ a ∈ p.acquirers, a.waiting = .served h.id := by
  have hopen : q.closed = false := (congrArg Pool.closed hl.same).trans ho
  obtain ⟨k, hk, hid, hidle⟩ := idle_of_ledger hl.ledger hh hs
  obtain ⟨a, ha, hw⟩ := idle_promised (hl.steps.sound hp) hopen hnil hk hidle
  rw [hl.acquirers] at ha
  exact ⟨a, ha, hid ▸ hw⟩

theorem timedOut_failure (a : Acquirer) (p : Pool) :
    (timedOut a p).1 = .acquireTimeout p.name ((p.clock - a.started) / 1000000) p.activeCount p.cap
      p.handoff.waiters := rfl

/-- An acquirer whose patience is over and for whom nothing was created hears of the time. -/
theorem linger_expired {a : Acquirer} (ht : a.ticket = none) (hd : a.deadline ≤ p.clock) :
    ((linger a).run p).1 = .refused (.acquireTimeout p.name ((p.clock - a.started) / 1000000)
      p.activeCount p.cap (p.handoff.withdraw a.taker.id).waiters) := by
  have hlingers := linger_cases a p
  generalize (linger a).run p = r at hlingers ⊢
  cases hlingers with
  | told ticket => cases ht.symm.trans ticket
  | @late b q untold grown past =>
    obtain ⟨hcases, -, -, hstarted⟩ := grow_cases a p
    rw [grown] at hcases hstarted
    have hsince : b.started = a.started := hstarted
    rw [conclude_refused, timedOut_failure, hsince]
    rcases hcases with (rfl : q = p) | ⟨-, (rfl : q = p.schedule (some a.taker.id))⟩
    · rfl
    · rfl
  | away untold grown early shut => exact absurd hd (Nat.not_le.mpr early)
  | parks untold grown early isOpen => exact absurd hd (Nat.not_le.mpr early)

/-- A call to acquire without an enlisted handle is a newcomer's turn. -/
theorem acquire_turn (ho : p.closed = false) {t : Thread} (hu : p.units.current t = none)
    (deadline : Nat) :
    (acquire t deadline).run p = (turn (p.newcomer t p.clock deadline)).run
      { p.notify .beforeAcquire with nextTaker := p.nextTaker + 1 } := by
  have hopen : (p.notify .beforeAcquire).closed = false := ho
  have hnone : (p.notify .beforeAcquire).units.current t = none := hu
  simp only [acquire, reuse, Act.run_bind, Act.run_update, Act.run_read, hopen, Bool.false_eq_true,
    if_false, hnone, Act.run_pure, Act.run_apply]
  rfl

/-- What a call to acquire comes to whose deadline has passed. When no other call is about to go on,
whatever is idle can be had; when one is, all but what is promised to it. -/
structure Reached (p : Pool) (r : Reply × Pool) : Prop where
  granted_iff : p.Quiet → ((∃ n, r.1 = .granted n) ↔ ∃ h ∈ p.handles, h.state = .checkedIn)
  granted : ∀ h ∈ p.handles, h.state = .checkedIn → (∀ a ∈ p.acquirers, a.waiting ≠ .served h.id) →
    ∃ n, r.1 = .granted n
  unscheduled : ∀ n, r.1 = .granted n →
    r.2.inFlight = p.inFlight ∧ r.2.size = p.size ∧ r.2.pending = p.pending
  one_changed : ∀ n, r.1 = .granted n → ∃ id, p.stateOf? id = some .checkedIn ∧
    r.2.stateOf? id = some .checkedOut ∧ ∀ k, k ≠ id → r.2.stateOf? k = p.stateOf? k
  timed_out : (∀ h ∈ p.handles, h.state ≠ .checkedIn) →
    r.1 = .refused (.acquireTimeout p.name 0 p.activeCount p.cap p.handoff.waiters)

theorem reached_granted {m s : Pool} {n : Nat} (hp : p.Settled) (hl : Looked who p m)
    (hlend : Lend who m q) (hs : s.muted = (q.leave n).muted) (lease : Nat) :
    Reached p (.granted lease, s) := by
  have hm := hp.steps hl.steps
  have hlent := hlend.lent hm.sound hm.final
  obtain ⟨id, hidle, hactive, hothers⟩ := hlent.states
  have hfind : ∀ k, s.stateOf? k = q.stateOf? k := fun k =>
    eq_of_muted (p := q.leave n) (fun r : Pool => r.stateOf? k) (fun _ => rfl) hs
  rw [stateOf_of_ledger hl.ledger] at hidle
  have hexists := idle_of_stateOf hidle
  refine ⟨fun _ => iff_of_true ⟨lease, rfl⟩ hexists, fun _ _ _ _ => ⟨lease, rfl⟩,
    fun _ _ => ⟨?_, ?_, ?_⟩, fun _ _ => ?_, fun hnone => ?_⟩
  · rw [eq_of_muted (p := q.leave n) Pool.inFlight (fun _ => rfl) hs]
    exact hlent.inFlight.trans (hl.same ▸ rfl)
  · rw [eq_of_muted (p := q.leave n) Pool.size (fun _ => rfl) hs]
    exact hlent.size.trans (congrArg Ledger.size hl.ledger)
  · rw [eq_of_muted (p := q.leave n) Pool.pending (fun _ => rfl) hs]
    exact hlent.pending.trans (congrArg Ledger.pending hl.ledger)
  · refine ⟨id, hidle, (hfind id).trans hactive, fun k hk => ?_⟩
    rw [hfind, hothers k hk, stateOf_of_ledger hl.ledger]
  · obtain ⟨h, hh, hs⟩ := hexists
    exact absurd hs (hnone h hh)

/-- A handle that is handed over is on a lease with the next number. -/
theorem handOver_lease {id : HandleId} (t : Thread) (started : Nat) (c : Connection) :
    ∃ l ∈ (p.handOver t started id c).leases, l.number = p.nextLease ∧ l.handle = id :=
  ⟨_, List.mem_append_right _ List.mem_cons_self, rfl, rfl⟩

/-- Who was given a handle that is still idle gets it when he goes on, however late it is. -/
theorem served_granted (hp : p.Settled) {a : Acquirer} (ha : a ∈ p.acquirers) {h : HandleId}
    (hw : a.waiting = .served h) (hs : p.stateOf? h = some .checkedIn) :
    ∃ n q l, (resume a.taker.id).run p = (.granted n, q) ∧ q.lease? n = some l ∧ l.handle = h := by
  have hgoes := resume_goes hp.sound ha
  generalize (resume a.taker.id).run p = r at hgoes ⊢
  cases hgoes with
  | away dismissed => cases hw.symm.trans dismissed
  | @lent k q c served claim lend =>
    cases hw.symm.trans served
    have hlent := lend.lent hp.sound hp.final
    obtain ⟨m, hrun, hm⟩ :=
      conclude_granted (p := q.handOver a.taker.thread a.started h c) q.nextLease
    obtain ⟨l, hl, hnumber, hhandle⟩ :
        ∃ l ∈ (q.handOver a.taker.thread a.started h c).leases, l.number = q.nextLease ∧
        l.handle = h :=
      handOver_lease a.taker.thread a.started c
    refine ⟨q.nextLease, m, l, hrun, ?_, hhandle⟩
    have hfound : (q.handOver a.taker.thread a.started h c).lease? q.nextLease = some l :=
      (Keyed.find_iff Lease.number (numbers_nodup hlent.sound.books.fitting)).mpr ⟨hl, hnumber⟩
    exact (eq_of_muted (fun r : Pool => r.lease? q.nextLease) (fun _ => rfl) hm).trans hfound
  | turn steps present unheard stale => exact absurd hs (stale h hw)

/-- A number that was not drawn yet is nobody's in the handoff. -/
theorem waiters_withdraw (hp : p.Lineup) (hq : q.handoff.parked = p.handoff.parked) :
    (q.handoff.withdraw p.nextTaker).waiters = p.handoff.waiters := by
  have hall : p.handoff.parked.filter (·.id ≠ p.nextTaker) = p.handoff.parked := by
    refine Keyed.filter_eq_self Taker.id fun w hw => ?_
    rw [hp.parked_eq] at hw
    obtain ⟨a, ha, rfl⟩ := List.mem_map.mp hw
    exact Nat.ne_of_lt (hp.takers_lt a (List.mem_filter.mp ha).1)
  simp only [Handoff.waiters, Handoff.parked_withdraw, hq]
  rw [hall]

theorem reached_acquire (hp : p.Settled) (ho : p.closed = false) {t : Thread}
    (hu : p.units.current t = none) {deadline : Nat} (hd : deadline ≤ p.clock) :
    Reached p ((acquire t deadline).run p) := by
  have hdraw : Step none p { p with nextTaker := p.nextTaker + 1 } := .draw
  have hsteps : Steps none p { p.notify .beforeAcquire with nextTaker := p.nextTaker + 1 } :=
    hdraw.steps.hush rfl
  have hready : Settled { p.notify .beforeAcquire with nextTaker := p.nextTaker + 1 } :=
    hp.steps hsteps
  rw [acquire_turn ho hu]
  rcases search_cases none hready.sound t p.clock p.handles.length with
    ⟨q, hs, hl, hnil⟩ | ⟨n, m, q, hs, hl, hlend⟩
  · rw [turn_none (a := p.newcomer t p.clock deadline) hs]
    have hclock : q.clock = p.clock := hl.same ▸ rfl
    have hpromised : ∀ h ∈ p.handles, h.state = .checkedIn →
        ∃ a ∈ p.acquirers, a.waiting = .served h.id :=
      fun h hh hidle => hl.promised hready.sound ho hnil hh hidle
    have hreply := linger_expired (p := q) (a := p.newcomer t p.clock deadline) rfl
      (Nat.le_trans hd (Nat.le_of_eq hclock.symm))
    have hrefused : ((linger (p.newcomer t p.clock deadline)).run q).1 =
        .refused (.acquireTimeout p.name 0 p.activeCount p.cap p.handoff.waiters) := by
      have hname : q.name = p.name := hl.same ▸ rfl
      have hcap : q.cap = p.cap := hl.same ▸ rfl
      have hactive : q.activeCount = p.activeCount :=
        congrArg (fun l : Ledger => l.gauges.checkedOut.count) hl.ledger
      have hwaiters := waiters_withdraw hp.sound.lineup hl.parked
      rw [hreply]
      simp only [newcomer, hclock, hname, hactive, hcap, hwaiters, Nat.sub_self, Nat.zero_div]
    refine ⟨fun hquiet => iff_of_false ?_ ?_, ?_, ?_, ?_, fun _ => hrefused⟩
    · rintro ⟨n, hn⟩
      exact linger_reply _ _ n hn
    · rintro ⟨h, hh, hidle⟩
      obtain ⟨a, ha, hw⟩ := hpromised h hh hidle
      rw [hquiet a ha] at hw
      cases hw
    · intro h hh hidle hfree
      obtain ⟨a, ha, hw⟩ := hpromised h hh hidle
      exact absurd hw (hfree a ha)
    · intro n hn
      exact absurd hn (linger_reply _ _ n)
    · intro n hn
      exact absurd hn (linger_reply _ _ n)
  · obtain ⟨r, hrun, hr⟩ := turn_found (a := p.newcomer t p.clock deadline) hs
    have hgranted := reached_granted hready hl hlend hr n
    rw [hrun]
    exact ⟨hgranted.granted_iff, hgranted.granted, hgranted.unscheduled, hgranted.one_changed,
      hgranted.timed_out⟩

/-- In an open pool, whatever happened before, an acquire that may not wait gets an idle handle if
there is one and only then. -/
theorem acquire_reaches_idle {c : Config} {f : Factory} {ls : List Listener} {us : Units}
    (hb : build c f ls us = .ok (some p)) (ops : List Operation) (ho : (p.after ops).closed = false)
    {t : Thread} (hu : (p.after ops).units.current t = none)
    {deadline : Nat} (hd : deadline ≤ (p.after ops).clock) :
    Reached (p.after ops) ((acquire t deadline).run (p.after ops)) :=
  reached_acquire ((fresh_of_build hb).settled.after ops) ho hu hd

/-- The first connection is found once it is created, and lent to no second caller. -/
theorem acquire_reaches_first :
    ∃ p, build {} {} [] {} = .ok (some p) ∧
      (∃ h ∈ (p.after [.create]).handles, h.state = .checkedIn) ∧
      Reached (p.after [.create]) ((acquire .background 0).run (p.after [.create])) ∧
      (∀ h ∈ (p.after [.create, .acquire .background 0]).handles, h.state ≠ .checkedIn) ∧
      Reached (p.after [.create, .acquire .background 0])
        ((acquire .background 0).run (p.after [.create, .acquire .background 0])) := by
  refine ⟨_, rfl, ⟨_, List.mem_cons_self, rfl⟩, ?_, ?_, ?_⟩
  · exact @acquire_reaches_idle _ {} {} [] {} rfl [.create] rfl .background rfl 0 (Nat.zero_le _)
  · intro h hh
    cases List.mem_singleton.mp hh
    exact State.noConfusion
  · exact @acquire_reaches_idle _ {} {} [] {} rfl [.create, .acquire .background 0] rfl
      .background rfl
      0 (Nat.zero_le _)

end ConnPool.Pool
