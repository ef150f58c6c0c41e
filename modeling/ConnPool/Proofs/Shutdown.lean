import ConnPool.Proofs.NoGrowth

namespace ConnPool.Pool

variable {p q : Pool}

/-- What closing does at once: everyone who waits is let go, and all that is idle is closed. -/
structure ClosedDown (p q : Pool) : Prop where
  closed : q.closed = true
  no_waiter : q.handoff.waiters = 0
  sent_away : ∀ a ∈ p.acquirers, a.waiting = .parked →
    { a with waiting := .dismissed } ∈ q.acquirers
  idle_gone : ∀ h ∈ p.handles, h.state = .checkedIn →
    q.find? h.id = none ∧ ∃ c, h.slot = some c ∧ c ∈ q.closures

theorem closedDown_close (hp : p.Sound) (ho : p.closed = false) : ClosedDown p (close.run p).2 := by
  have hclear : Cleared none p.shut (p.shut.handles.map (·.id)) (close.run p).2 :=
    close_cleared hp ho
  obtain ⟨h', -, -, -, hparked, heq⟩ := closeHandoff_eq hp.lineup
  have hhandoff : p.shut.handoff = h' := congrArg Pool.handoff heq
  have hacquirers : p.shut.acquirers = p.acquirers.map sentAway := congrArg Pool.acquirers heq
  have hhandles : p.shut.handles = p.handles.map fun h =>
      if h.id ∈ p.handoff.toList then { h with queued := false } else h := congrArg Pool.handles heq
  refine ⟨?_, ?_, ?_, ?_⟩
  · rw [hclear.steps.closed (shut_sound hp)]
    exact shut_closed hp.lineup
  · rw [hclear.handoff, hhandoff, Handoff.waiters, hparked]
    rfl
  · intro a ha hw
    rw [hclear.acquirers, hacquirers]
    refine List.mem_map.mpr ⟨a, ha, ?_⟩
    rw [sentAway, if_pos hw]
  · intro h hh hs
    obtain ⟨c, hc⟩ := slot_of_idle hp.books.fitting hh hs
    obtain ⟨k, hk, hid, hks, hkc⟩ :
        ∃ k ∈ p.shut.handles, k.id = h.id ∧ k.state = .checkedIn ∧ k.slot = some c := by
      rw [hhandles]
      refine ⟨_, List.mem_map_of_mem hh, ?_⟩
      split
      · exact ⟨rfl, hs, hc⟩
      · exact ⟨rfl, hs, hc⟩
    refine ⟨?_, c, hc, hclear.closed k hk (List.mem_map_of_mem hk) hks c hkc⟩
    refine List.find?_eq_none.mpr fun x hx => ?_
    simp only [decide_eq_true_eq]
    intro hxid
    have hin := hclear.handles.subset hx
    have hxk := Keyed.unique Handle.id (ids_nodup (shut_sound hp).books.fitting) hin hk
      (hxid.trans hid.symm)
    exact hclear.busy x hx (List.mem_map_of_mem hin) (hxk ▸ hks)

/-- In a closed pool a turn grants nothing. -/
theorem turn_closed (hp : p.Settled) (hc : p.closed = true) (a : Acquirer) (n : Nat) :
    ((turn a).run p).1 ≠ .granted n := by
  rcases search_cases none hp.sound a.taker.thread a.started p.handles.length with
    ⟨q, hs, -, -⟩ | ⟨k, m, q, -, hl, hlend⟩
  · rw [turn_none hs]
    exact linger_reply a q n
  · have hm := hp.steps hl.steps
    have ho := (hlend.lent hm.sound hm.final).isOpen
    rw [hl.steps.closed hp.sound, hc] at ho
    cases ho

theorem resume_closed (hp : p.Settled) (hc : p.closed = true) (id n : Nat) :
    ((resume id).run p).1 ≠ .granted n := by
  obtain ⟨a, ha, rfl, hgoes⟩ | ⟨-, hrun⟩ := resume_cases hp.sound id
  · generalize (resume a.taker.id).run p = r at hgoes ⊢
    cases hgoes with
    | away dismissed =>
      rw [conclude_refused]
      exact Reply.noConfusion
    | lent served claim lend =>
      have ho := (lend.lent hp.sound hp.final).isOpen
      rw [hc] at ho
      cases ho
    | turn steps present unheard stale =>
      exact turn_closed (hp.steps steps) ((steps.closed hp.sound).trans hc) _ n
  · rw [hrun]
    exact Reply.noConfusion

theorem resume_dismissed (hp : p.Lineup) {a : Acquirer} (ha : a ∈ p.acquirers)
    (hw : a.waiting = .dismissed) :
    ((resume a.taker.id).run p).1 = .refused p.closedFailure := by
  have hfind : p.acquirers.find? (·.taker.id = a.taker.id) = some a :=
    (Keyed.find_iff (fun a : Acquirer => a.taker.id) hp.takers_nodup).mpr ⟨ha, rfl⟩
  simp only [resume, Act.run_bind, Act.run_read, hfind, hw, Act.run_update, conclude_refused]
  rfl

/-- What holds of a closed pool from then on. -/
structure StaysClosed (p : Pool) : Prop where
  refused : ∀ t deadline, ((acquire t deadline).run p).1 = .refused p.closedFailure
  ungranted : ∀ id n, ((resume id).run p).1 ≠ .granted n
  none_idle : ∀ h ∈ p.handles, h.state ≠ .checkedIn
  noGrowth : ∀ op : Operation, NoGrowth p (op.run p)
  unswept : ∀ t s, ((sweep t s).run p).1 = 0

theorem Settled.stays_closed (hp : p.Settled) (hc : p.closed = true) : StaysClosed p := by
  refine ⟨fun t deadline => ?_, resume_closed hp hc, hp.final hc,
    fun op => (hp.closedStep hc op).noGrowth, fun t s => ?_⟩
  · rw [acquire_closed hc]
  · rw [sweep_closed hc]

theorem slot_of_unlent (hp : p.ledger.Fitting) (hl : p.leases = []) {h : Handle}
    (hh : h ∈ p.handles) : ∃ c, h.slot = some c :=
  slot_of_free hp (find_of_mem hp hh) fun l hmem => by simp [hl] at hmem

/-- A handle that is released after the closing goes, if its connection is back in its slot. -/
theorem releaseEnlisted_gone (hp : p.Settled) (hc : p.closed = true) (hl : p.leases = [])
    (t : Thread) (id : HandleId) : id ∉ ((releaseEnlisted t id).run p).2.handles.map (·.id) := by
  cases hf : p.find? id with
  | none =>
    simp only [releaseEnlisted, Act.run_bind, Act.run_read, hf, Act.run_update, Act.run_pure]
    intro hid
    obtain ⟨h, hh, hhid⟩ := List.mem_map.mp hid
    simpa [hhid] using List.find?_eq_none.mp hf h hh
  | some h =>
    obtain ⟨hmem, hid⟩ := mem_of_find hf
    obtain ⟨c, hslot⟩ := slot_of_unlent hp.sound.books.fitting hl hmem
    have hs : h.state = .checkedOut := by
      rcases idle_or_active hp.sound.books.fitting hmem with ⟨hidle, -⟩ | hs
      · exact absurd hidle (hp.final hc h hmem)
      · exact hs
    obtain ⟨i, state, slot, last, owner, queued, cached⟩ := h
    obtain rfl : state = .checkedOut := hs
    obtain rfl : slot = some c := hslot
    have hout : p.returnState = .toDestroy := if_pos hc
    have hfhome := find_home (p := p.disassociate id) hf
    have hstate := stateOf_home (p := p.disassociate id) (stateOf_of_find hf)
    have hmove := transition_of (legal_return p) hstate
    rw [hout] at hmove
    have hend := destroyNow_muted hfhome (s := .checkedOut) (by decide) .shutdown false
    have hgone := eq_of_muted (fun r : Pool => r.handles.map (·.id)) (fun _ => rfl) hend
    simp only [releaseEnlisted, Act.run_bind, Act.run_read, hf, hout, Act.run_update, Act.run_apply,
      hmove, if_true, finishReturn, Act.run_pure]
    intro hin
    rw [hgone] at hin
    obtain ⟨k, hk, hkid⟩ := List.mem_map.mp hin
    have hne := (List.mem_filter.mp hk).2
    simp only [decide_eq_true_eq] at hne
    exact hne (hkid.trans hid.symm)

/-- Once nothing is out on loan, every handle that is released goes for good. -/
theorem Settled.released_gone (hp : p.Settled) (hc : p.closed = true) (hl : p.leases = [])
    {id : HandleId} {t : Thread} {ops : List Operation} (hop : .releaseEnlisted t id ∈ ops) :
    id ∉ (p.after ops).handles.map (·.id) := by
  induction ops generalizing p with
  | nil => exact absurd hop List.not_mem_nil
  | cons op ops ih =>
    have hnoGrowth := (hp.closedStep hc op).noGrowth
    have hnext := hnoGrowth.closed.trans hc
    rcases List.mem_cons.mp hop with rfl | hop
    · have hgone := releaseEnlisted_gone hp hc hl t id
      intro hin
      exact hgone (((hp.run _).noGrowth_after hnext ops).handles.subset hin)
    · refine ih (hp.run op) hnext ?_ hop
      have hleases := hnoGrowth.leases
      rw [hl, List.map_nil, List.sublist_nil, List.map_eq_nil_iff] at hleases
      exact hleases

/-- A pool of which nothing is left, with all that was ever born closed or detached. -/
structure Drained (bs : List Birth) (p : Pool) : Prop where
  handles : p.handles = []
  size : p.size.count = 0
  pending : p.pending.count = 0
  idle : p.idleCount = 0
  active : p.activeCount = 0
  destroyed : p.counters.created = p.counters.destroyed
  closures : ∀ b ∈ bs, b.serial ∉ p.detached.map (·.serial) →
    (p.closures.map (·.serial)).count b.serial = 1

theorem drained_of_empty {bs : List Birth} (hp : p.Sound) (ht : p.ledger.Traced bs)
    (hh : p.handles = []) (hf : p.inFlight = []) (hl : p.leases = []) : Drained bs p := by
  have hcount := hp.books.counted
  have hacc : p.ledger.accounts = [] := by
    simp only [ledger, hh, List.map_nil]
  have hflight : p.ledger.inFlight = 0 := by
    simp only [ledger, hf, List.length_nil]
  have hgauges := hcount.gauges_eq
  simp only [Ledger.idle, Ledger.active] at hgauges
  rw [hacc, List.countP_nil, List.countP_nil] at hgauges
  refine ⟨hh, ?_, ?_, congrArg (·.checkedIn.count) hgauges, congrArg (·.checkedOut.count) hgauges,
    ?_, ?_⟩
  · have hsize := congrArg Tally.count hcount.size_eq
    simp only [hacc, hflight, List.length_nil, Nat.add_zero] at hsize
    exact hsize
  · have hpending := congrArg Tally.count hcount.pending_eq
    rw [hflight] at hpending
    exact hpending
  · have hcreated := hcount.created_eq
    rw [hacc] at hcreated
    exact hcreated
  · intro b hb hkept
    have honce := List.count_eq_one_of_mem ht.serials_nodup (List.mem_map_of_mem hb)
    have hsplit := List.perm_iff_count.mp ht.conserved b.serial
    have hloans : p.ledger.loans = [] := by
      simp only [ledger, hl, List.map_nil]
    have hdetached : p.ledger.detached.count b.serial = 0 := List.count_eq_zero_of_not_mem hkept
    simp only [Ledger.serials, hacc, hloans, List.filterMap_nil, List.map_nil, List.nil_append,
      List.count_append, hdetached, Nat.add_zero] at hsplit
    exact hsplit.trans honce

/-- Everything comes to its end: no creation is in flight and nothing out on loan after `ops`, and
each handle that is then left is released in `rest`. -/
theorem Settled.drained_after {bs : List Birth} (hp : p.Settled) (ht : p.ledger.Traced bs)
    (hc : p.closed = true) {ops rest : List Operation} (hf : (p.after ops).inFlight = [])
    (hl : (p.after ops).leases = [])
    (hr : ∀ h ∈ (p.after ops).handles, ∃ t, .releaseEnlisted t h.id ∈ rest) :
    Drained (bs ++ p.births (ops ++ rest)) (p.after (ops ++ rest)) := by
  have hq := hp.after ops
  have hqc := (hp.noGrowth_after hc ops).closed.trans hc
  have hnoGrowth := hq.noGrowth_after hqc rest
  have hmoves := (hp.moves (ops ++ rest)).traced ht
  have hend := hp.after (ops ++ rest)
  rw [after_append] at hmoves hend ⊢
  refine drained_of_empty hend.sound hmoves ?_ ?_ ?_
  · have hnone : ((p.after ops).after rest).handles.map (·.id) = [] := by
      refine List.eq_nil_iff_forall_not_mem.mpr fun id hin => ?_
      obtain ⟨h, hh, hid⟩ := List.mem_map.mp (hnoGrowth.handles.subset hin)
      obtain ⟨t, ht⟩ := hr h hh
      exact hq.released_gone hqc hl ht (hid ▸ hin)
    exact List.map_eq_nil_iff.mp hnone
  · have hflight := hnoGrowth.inFlight
    rw [hf, List.subperm_nil] at hflight
    exact hflight
  · have hleases := hnoGrowth.leases
    rw [hl, List.map_nil, List.sublist_nil, List.map_eq_nil_iff] at hleases
    exact hleases

/-- What the closing of a pool means: `p` is the pool before, and `bs` is what was born until
then. -/
structure ShutDown (bs : List Birth) (p : Pool) : Prop where
  at_once : ClosedDown p (Operation.close.run p)
  from_then_on : ∀ ops, StaysClosed ((Operation.close.run p).after ops)
  waiters_refused : ∀ a ∈ p.acquirers, a.waiting = .parked →
    ∀ ops, .resume a.taker.id ∉ ops →
      ((resume a.taker.id).run ((Operation.close.run p).after ops)).1 =
        .refused ((Operation.close.run p).after ops).closedFailure
  in_the_end : ∀ ops rest, ((Operation.close.run p).after ops).inFlight = [] →
    ((Operation.close.run p).after ops).leases = [] →
    (∀ h ∈ ((Operation.close.run p).after ops).handles, ∃ t, .releaseEnlisted t h.id ∈ rest) →
    Drained (bs ++ (Operation.close.run p).births (ops ++ rest))
      ((Operation.close.run p).after (ops ++ rest))
  only_once : ∀ ops, Operation.close.run ((Operation.close.run p).after ops) =
    (Operation.close.run p).after ops

/-- Closing an open pool lets everyone go and ends what is idle; nothing begins from then on, and
when the last handle comes back nothing is left. -/
theorem close_is_complete_and_final {c : Config} {f : Factory} {ls : List Listener} {us : Units}
    (hb : build c f ls us = .ok (some p)) (before : List Operation)
    (ho : (p.after before).closed = false) : ShutDown (p.births before) (p.after before) := by
  have hfresh := fresh_of_build hb
  have hp := hfresh.settled.after before
  have hdown := closedDown_close hp.sound ho
  have hq := hp.run .close
  have htraced := (hfresh.settled.moves before).traced hfresh.traced
  have hclose := ((Operation.close.course hp.sound hp.final).moves hp.sound hp.final).traced htraced
  have hunborn : Operation.births (p.after before) .close = [] := rfl
  rw [List.nil_append, hunborn, List.append_nil] at hclose
  refine ⟨hdown, ?_, ?_, ?_, ?_⟩
  · intro ops
    have hnoGrowth := hq.noGrowth_after hdown.closed ops
    exact (hq.after ops).stays_closed (hnoGrowth.closed.trans hdown.closed)
  · intro a ha hw ops hops
    have haway := hdown.sent_away a ha hw
    have hstay := hq.stays_after hdown.closed haway hops
    obtain ⟨b, hb, hba⟩ := List.mem_map.mp hstay
    have htaker : b.taker = a.taker := congrArg Prod.fst hba
    have hwait : b.waiting = .dismissed := congrArg Prod.snd hba
    have hrefused := resume_dismissed (hq.after ops).sound.lineup hb hwait
    rw [htaker] at hrefused
    exact hrefused
  · intro ops rest hf hl hr
    exact hq.drained_after hclose hdown.closed hf hl hr
  · intro ops
    have hnoGrowth := hq.noGrowth_after hdown.closed ops
    exact congrArg Prod.snd (close_again (hnoGrowth.closed.trans hdown.closed))

/-- One connection is idle and one on loan to a unit of work when the pool is closed. -/
theorem close_with_a_loan :
    ∃ p, build { minSize := 2 } {} [] { enlisting := .shared } = .ok (some p) ∧
      (p.after [.create, .create, .acquire .background 0]).closed = false ∧
      ShutDown (p.births [.create, .create, .acquire .background 0])
        (p.after [.create, .create, .acquire .background 0]) ∧
      Drained [⟨1, ⟨1⟩⟩, ⟨2, ⟨2⟩⟩] (p.after [.create, .create, .acquire .background 0, .close,
        .release .background 0, .releaseEnlisted .background ⟨2⟩]) := by
  have hdown :=
    fun {p : Pool} (hb : build { minSize := 2 } {} [] { enlisting := .shared } = .ok (some p)) =>
    close_is_complete_and_final hb [.create, .create, .acquire .background 0]
  refine ⟨_, rfl, rfl, hdown rfl rfl, ?_⟩
  refine (hdown rfl rfl).in_the_end [.release .background 0] [.releaseEnlisted .background ⟨2⟩] rfl
    rfl ?_
  intro h hh
  cases List.mem_singleton.mp hh
  exact ⟨.background, List.mem_singleton_self _⟩

end ConnPool.Pool
