import ConnPool.Proofs.Capacity
import ConnPool.Proofs.Reach
import ConnPool.Proofs.OtherWaiters

namespace ConnPool.Pool

variable {who : Option Nat} {p q : Pool}

/-- An acquirer may sleep: its own creation is in flight, or there is no room for one. -/
def Provided (p : Pool) (a : Acquirer) : Prop :=
  ⟨some a.taker.id⟩ ∈ p.inFlight ∨ a.ticket ≠ some .inFlight ∧ p.size.count = p.cap

/-- The acquirer with this number may sleep, if it waits at all. -/
def Provides (p : Pool) (n : Nat) : Prop := ∀ a ∈ p.acquirers, a.taker.id = n → Provided p a

theorem Provides.of_muted {n : Nat} (hp : p.Provides n) (h : q.muted = p.muted) : q.Provides n :=
  (eq_of_muted (fun r : Pool => r.Provides n) (fun _ => rfl) h).mpr hp

theorem provides_of_absent {n : Nat} (h : ∀ a ∈ p.acquirers, a.taker.id ≠ n) : p.Provides n :=
  fun a ha hid => absurd hid (h a ha)

theorem absent_of_leave {n : Nat} : ∀ a ∈ (p.leave n).acquirers, a.taker.id ≠ n :=
  fun _ ha => by simpa using (List.mem_filter.mp ha).2

theorem size_le_cap (hp : p.Sound) : p.size.count ≤ p.cap := by
  have hsize := congrArg Tally.count hp.books.counted.size_eq
  exact Nat.le_trans (Nat.le_of_eq hsize) hp.books.counted.size_le

/-- Whoever is about to sleep has scheduled a creation where there was room for one. -/
theorem grow_provided (hp : p.Sound) (ho : p.closed = false) {a : Acquirer}
    (ht : a.ticket = some .inFlight → ⟨some a.taker.id⟩ ∈ p.inFlight) :
    Provided (grow a p).2 (grow a p).1 := by
  simp only [grow]
  split
  · next hticket => exact Or.inl (ht hticket)
  · split
    · exact Or.inl (List.mem_append_right _ List.mem_cons_self)
    · next hroom =>
      refine Or.inr ⟨(Option.some_ne_none _).symm, ?_⟩
      have hle := size_le_cap hp
      simp only [hasRoom, ho, Bool.not_false, Bool.true_and, decide_eq_true_eq] at hroom
      exact Nat.le_antisymm hle (Nat.le_of_not_lt hroom)

theorem park_provides {a : Acquirer} (h : Provided p a) : (p.park a).Provides a.taker.id := by
  have hledger := park_ledger (p := p) a
  have hsize : (p.park a).size = p.size := congrArg Ledger.size hledger
  have hcap : (p.park a).cap = p.cap := congrArg Ledger.cap hledger
  have hflight := park_inFlight (p := p) a
  have like : ∀ b : Acquirer, b.taker = a.taker → b.ticket = a.ticket → Provided (p.park a) b := by
    intro b htaker hticket
    simp only [Provided, hsize, hcap, hflight, htaker, hticket]
    exact h
  intro b hb hid
  rcases park_acquirers (p := p) a with hlist | ⟨hnew, x, htaker, hticket, hlist⟩
  · rw [hlist] at hb
    obtain ⟨y, -, rfl⟩ := List.mem_map.mp hb
    split at hid
    · next hy =>
      rw [if_pos hy]
      exact like a rfl rfl
    · next hy => exact absurd hid hy
  · rw [hlist] at hb
    rcases List.mem_append.mp hb with hb | hb
    · exact absurd hid (hnew b hb)
    · rw [List.mem_singleton.mp hb]
      exact like x htaker hticket

theorem refuse_provides (f : Failure) (n : Nat) :
    Provides ((conclude (.error f)).run (p.leave n)).2 n := by
  rw [conclude_refused]
  exact provides_of_absent (absent_of_leave (p := p))

/-- An acquirer that found nothing idle goes with a refusal, or is provided for. -/
theorem linger_provides (hp : p.Sound) {a : Acquirer}
    (ht : a.ticket = some .inFlight → ⟨some a.taker.id⟩ ∈ p.inFlight) :
    Provides ((linger a).run p).2 a.taker.id := by
  have hlingers := linger_cases a p
  have hgrow : Steps none p (grow a p).2 := steps_grow a
  generalize (linger a).run p = r at hlingers ⊢
  cases hlingers with
  | told ticket => exact refuse_provides _ _
  | @late b q untold grown past =>
    rw [conclude_refused]
    exact provides_of_absent (absent_of_leave (p := q))
  | away untold grown early shut => exact refuse_provides _ _
  | @parks b q untold grown early isOpen =>
    rw [grown] at hgrow
    have hclosed : p.closed = false :=
      (hgrow.closed hp).symm.trans ((hgrow.sound hp).lineup.isClosed_eq.symm.trans isOpen)
    have hprovided := grow_provided hp hclosed ht
    rw [grown] at hprovided
    rw [← (grow_clock grown).1]
    exact park_provides hprovided

theorem turn_provides (hp : p.Sound) {a : Acquirer}
    (ht : a.ticket = some .inFlight → ⟨some a.taker.id⟩ ∈ p.inFlight) :
    Provides ((turn a).run p).2 a.taker.id := by
  rcases search_cases none hp a.taker.thread a.started p.handles.length with
    ⟨q, hs, hl, -⟩ | ⟨n, m, q, hs, -, -⟩
  · have hflight : q.inFlight = p.inFlight := hl.same ▸ rfl
    rw [turn_none hs]
    exact linger_provides (hl.steps.sound hp) (hflight ▸ ht)
  · obtain ⟨r, hrun, hr⟩ := turn_found hs
    rw [hrun]
    exact (provides_of_absent (absent_of_leave (p := q))).of_muted hr

/-- A call to acquire leaves behind nobody who sleeps without cause. -/
theorem acquire_provides (hp : p.Sound) (t : Thread) (deadline : Nat) :
    Provides ((acquire t deadline).run p).2 p.nextTaker := by
  have hnew : ∀ a ∈ p.acquirers, a.taker.id ≠ p.nextTaker :=
    fun a ha => Nat.ne_of_lt (hp.lineup.takers_lt a ha)
  by_cases hc : p.closed = true
  · rw [acquire_closed hc]
    exact provides_of_absent hnew
  · have hopen : p.closed = false := by simpa using hc
    have ho : (p.notify .beforeAcquire).closed = false := hopen
    have hheard : Steps none p (p.notify .beforeAcquire) := .of_muted (muted_notify _ _)
    have hreuse :
      Steps none (p.notify .beforeAcquire) ((reuse t).run (p.notify .beforeAcquire)).2 :=
      reuse_steps ho t
    obtain ⟨hacq, hnext, -⟩ := reuse_acquirers (p := p.notify .beforeAcquire) t
    have hsound := hreuse.sound (hheard.sound hp)
    have habsent : Provides ((reuse t).run (p.notify .beforeAcquire)).2 p.nextTaker :=
      provides_of_absent (hacq ▸ hnew)
    simp only [acquire, Act.run_bind, Act.run_update, Act.run_read, ho, Bool.false_eq_true,
      if_false]
    split
    · exact habsent.of_muted (conclude_muted _)
    · exact habsent.of_muted (conclude_muted _)
    · generalize ((reuse t).run (p.notify .beforeAcquire)).2 = m at hnext hsound
      have hdraw : Step none m { m with nextTaker := m.nextTaker + 1 } := .draw
      have hnumber : p.nextTaker = m.nextTaker := hnext.symm
      rw [hnumber]
      exact turn_provides (a := m.newcomer t p.clock deadline) (hdraw.sound hsound)
        fun hticket => absurd hticket.symm (Option.some_ne_none _)

/-- Nor does an acquirer that goes on. -/
theorem resume_provides (hp : p.Sound) (ht : p.Ticketed none) (n : Nat) :
    Provides ((resume n).run p).2 n := by
  obtain ⟨a, ha, rfl, hgoes⟩ | ⟨hnone, hrun⟩ := resume_cases hp n
  · generalize (resume a.taker.id).run p = r at hgoes ⊢
    cases hgoes with
    | away dismissed => exact refuse_provides _ _
    | @lent h q c served claim lend =>
      obtain ⟨k, hk, hks, rfl⟩ := claim_eq claim
      have hsame : Untouched (((p.leave a.taker.id).unqueue h).restate h .checkedIn .checkedOut)
          ((((p.leave a.taker.id).unqueue h).restate h .checkedIn .checkedOut).handOver
            a.taker.thread a.started h c) := handOver_untouched _ _ _
      refine Provides.of_muted (provides_of_absent fun b hb => ?_) (conclude_muted _)
      rw [hsame.acquirers] at hb
      exact absent_of_leave (p := p) b hb
    | turn steps present unheard stale =>
      refine turn_provides (steps.sound hp) fun hticket => ?_
      rw [unheard]
      exact ht a ha nofun hticket
  · rw [hrun]
    exact provides_of_absent hnone

/-- What acquirers rely on between operations, beside what holds of any settled pool. -/
structure Watched (p : Pool) : Prop where
  settled : p.Settled
  orderly : p.handoff.view.Orderly
  ticketed : p.Ticketed none

theorem Provides.ticketed {n : Nat} (h : p.Provides n) (ht : p.Ticketed (some n)) :
    p.Ticketed none := by
  intro a ha _ hticket
  by_cases hid : a.taker.id = n
  · rcases h a ha hid with hflight | ⟨hno, -⟩
    · exact hflight
    · exact absurd hticket hno
  · exact ht a ha (fun he => hid (Option.some.inj he).symm) hticket

theorem Ticketed.weaken (h : p.Ticketed none) (who : Option Nat) : p.Ticketed who :=
  fun a ha _ hticket => h a ha nofun hticket

theorem Watched.provides (h : p.Watched) {op : Operation} {n : Nat} (hop : op.behalf p = some n) :
    (op.run p).Provides n := by
  cases op with
  | acquire t deadline =>
    cases hop
    exact acquire_provides h.settled.sound t deadline
  | resume acquirer =>
    cases hop
    exact resume_provides h.settled.sound h.ticketed n
  | _ => cases hop

theorem Watched.run (h : p.Watched) (op : Operation) : (op.run p).Watched := by
  have hsound := h.settled.sound
  have hothers := (op.course hsound h.settled.final).keepsOthers hsound h.settled.final
  have ht := hothers.ticketed (h.ticketed.weaken _)
  refine ⟨h.settled.run op, hothers.orderly h.orderly, ?_⟩
  cases hop : op.behalf p with
  | none =>
    rw [hop] at ht
    exact ht
  | some n =>
    rw [hop] at ht
    exact (h.provides hop).ticketed ht

theorem Watched.after (h : p.Watched) (ops : List Operation) : (p.after ops).Watched := by
  induction ops generalizing p with
  | nil => exact h
  | cons op ops ih => exact ih (h.run op)

theorem watched_of_build {c : Config} {f : Factory} {ls : List Listener} {us : Units}
    (hb : build c f ls us = .ok (some p)) : p.Watched := by
  have hsettled := (fresh_of_build hb).settled
  obtain ⟨bus, rfl⟩ := build_eq hb
  have hnew := settled_new c f ls us bus
  have hothers := (steps_start (new c f ls us bus)).keepsOthers hnew.sound
  exact ⟨hsettled, hothers.orderly (Handoff.orderly_new c.strategy 1),
    hothers.ticketed fun a ha => absurd ha List.not_mem_nil⟩

/-- What can be said for those who wait in a pool of a configuration: nothing is idle that is not
already promised, nobody goes to sleep beside room for another connection, and what one was given
stays his until he goes on, and then becomes his whatever time it is. -/
structure WaitersProvided (c : Config) (p : Pool) : Prop where
  none_idle : p.Quiet → 0 < p.handoff.waiters → ∀ h ∈ p.handles, h.state ≠ .checkedIn
  promised : 0 < p.handoff.waiters → ∀ h ∈ p.handles, h.state = .checkedIn →
    ∃ a ∈ p.acquirers, a.waiting = .served h.id
  asleep : ∀ (op : Operation) n, op.behalf p = some n →
    ∀ a ∈ (op.run p).acquirers, a.taker.id = n → a.waiting = .parked →
      ⟨some n⟩ ∈ (op.run p).inFlight ∨ (op.run p).size.count = c.maxSize.toNat
  given : ∀ a ∈ p.acquirers, ∀ h, a.waiting = .served h →
    ∀ op : Operation, op ≠ .resume a.taker.id → a.stance ∈ (op.run p).acquirers.map (·.stance)
  granted : ∀ a ∈ p.acquirers, ∀ h, a.waiting = .served h → p.stateOf? h = some .checkedIn →
    ∃ n q l, (resume a.taker.id).run p = (.granted n, q) ∧ q.lease? n = some l ∧ l.handle = h

/-- Who waits in the handoff waits beside nothing, so that all that is idle is promised. -/
theorem Watched.promised (h : p.Watched) (ho : p.closed = false) (hw : 0 < p.handoff.waiters)
    {k : Handle} (hk : k ∈ p.handles) (hs : k.state = .checkedIn) :
    ∃ a ∈ p.acquirers, a.waiting = .served k.id := by
  have hnil : p.handoff.toList = [] := h.orderly.none_beside (List.ne_nil_of_length_pos hw)
  exact idle_promised h.settled.sound ho hnil hk hs

/-- After any run that leaves the pool open, and whatever is done next, nobody sleeps in vain. -/
theorem nobody_sleeps_in_vain {c : Config} {f : Factory} {ls : List Listener} {us : Units}
    (hb : build c f ls us = .ok (some p)) (ops : List Operation)
    (ho : (p.after ops).closed = false) :
    WaitersProvided c (p.after ops) := by
  have hwatched := (watched_of_build hb).after ops
  have hsound := hwatched.settled.sound
  refine ⟨fun hquiet hw k hk hs => ?_, fun hw k hk hs => hwatched.promised ho hw hk hs,
    fun op n hop a ha hid hparked => ?_, fun a ha k hw op hop => ?_,
    fun a ha k hw hs => served_granted hwatched.settled ha hw hs⟩
  · obtain ⟨a, ha, hserved⟩ := hwatched.promised ho hw hk hs
    cases (hquiet a ha).symm.trans hserved
  · have hcap := (fresh_of_build hb).cap_after (ops ++ [op])
    rw [after_append] at hcap
    rcases hwatched.provides hop a ha hid with hflight | ⟨-, hfull⟩
    · exact Or.inl (hid ▸ hflight)
    · exact Or.inr (hfull.trans hcap)
  · have hothers :=
      (op.course hsound hwatched.settled.final).keepsOthers hsound hwatched.settled.final
    refine hothers.given a ha (behalf_acquire hsound.lineup ha hop) fun hparked => ?_
    cases hw.symm.trans hparked

/-- A caller waits beside a lent connection, and is given it when it comes back too late. -/
theorem given_beyond_deadline :
    ∃ p, build {} {} [] {} = .ok (some p) ∧
      (p.after [.create, .acquire .background 0, .acquire .background 9]).handoff.waiters = 1 ∧
      WaitersProvided {} (p.after [.create, .acquire .background 0, .acquire .background 9]) ∧
      (p.after [.create, .acquire .background 0, .acquire .background 9, .release .background 0,
        .wait 9]).acquirers = [⟨⟨1, .background⟩, 2, 9, some .inFlight, .served ⟨1⟩⟩] ∧
      9 ≤ (p.after [.create, .acquire .background 0, .acquire .background 9, .release .background 0,
        .wait 9]).clock ∧
      WaitersProvided {} (p.after [.create, .acquire .background 0, .acquire .background 9,
        .release .background 0, .wait 9]) :=
  ⟨_, rfl, rfl, @nobody_sleeps_in_vain _ {} {} [] {} rfl _ rfl, rfl, by decide,
    @nobody_sleeps_in_vain _ {} {} [] {} rfl _ rfl⟩

end ConnPool.Pool
