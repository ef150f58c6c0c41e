import ConnPool.Proofs.Course

namespace ConnPool.Pool

variable {who : Option Nat} {p q r : Pool} {id : HandleId}

/-- The way of a search up to what it claims: entries that are out of date have gone, and nothing
else has changed. -/
structure Looked (who : Option Nat) (p q : Pool) : Prop where
  steps : Steps who p q
  same : q =
    { p with handoff := q.handoff, recents := q.recents, handles := q.handles, strays := q.strays }
  ledger : q.ledger = p.ledger
  parked : q.handoff.parked = p.handoff.parked
  stock : q.stock = p.stock

theorem Looked.refl (p : Pool) : Looked who p p := ⟨.refl, rfl, rfl, rfl, rfl⟩

theorem Looked.trans (h : Looked who p q) (k : Looked who q r) : Looked who p r := by
  refine ⟨h.steps.trans k.steps, ?_, k.ledger.trans h.ledger, k.parked.trans h.parked,
    k.stock.trans h.stock⟩
  have hr := k.same
  rw [h.same] at hr
  exact hr

/-- Entries are taken until one can be claimed or none is left. -/
theorem takeQueued_cases (hp : p.Sound) (t : Thread) (fuel : Nat) :
    (∃ q, p.takeQueued t fuel = (none, q) ∧ Looked who p q ∧
      (p.handoff.size < fuel → q.handoff.toList = [])) ∨
    ∃ id m q, p.takeQueued t fuel = (some id, q) ∧ Looked who p m ∧ Claim who m id q := by
  induction fuel generalizing p with
  | zero => exact Or.inl ⟨p, rfl, .refl p, fun h => absurd h (Nat.not_lt_zero _)⟩
  | succ fuel ih =>
    obtain ⟨h', rs', -, hpk, -, ⟨-, hnil, htake⟩ | ⟨id, hperm, htake⟩⟩ :=
      Handoff.tryTake_cases hp.lineup.numbered p.recents t
    · refine Or.inl ⟨{ p with handoff := h', recents := rs' }, ?_, ?_, fun _ => hnil⟩
      · simp only [takeQueued, htake]
      · exact ⟨(Step.exhaust htake).steps, rfl, rfl, hpk, rfl⟩
    · cases hclaim : Pool.claim { p with handoff := h', recents := rs' } id with
      | mk won q =>
        cases won with
        | true =>
          refine Or.inr ⟨id, p, q, ?_, .refl p, .queued htake hclaim⟩
          simp only [takeQueued, htake, hclaim]
        | false =>
          obtain ⟨hstale, rfl⟩ := claim_miss hclaim
          have hskip : Step who p ({ p with handoff := h', recents := rs' }.unqueue id) :=
            .skip htake hstale
          have hlooked : Looked who p ({ p with handoff := h', recents := rs' }.unqueue id) :=
            ⟨hskip.steps, rfl, unqueue_ledger (p := { p with handoff := h', recents := rs' })
              id, hpk, mark_stock { p with handoff := h', recents := rs' } id false⟩
          have hlen : p.handoff.toList.length = h'.toList.length + 1 := hperm.length_eq
          rcases ih (hskip.sound hp) with ⟨q, heq, hl, hnil⟩ | ⟨id', m, q, heq, hl, hc⟩
          · refine Or.inl ⟨q, ?_, hlooked.trans hl, fun hlt => hnil ?_⟩
            · simp only [takeQueued, htake, hclaim]
              exact heq
            · change h'.toList.length < fuel
              simp only [Handoff.size] at hlt
              omega
          · refine Or.inr ⟨id', m, q, ?_, hlooked.trans hl, hc⟩
            simp only [takeQueued, htake, hclaim]
            exact heq

variable (who) in
theorem takeIdle_cases (hp : p.Sound) (t : Thread) :
    (∃ q, p.takeIdle t = (none, q) ∧ Looked who p q ∧ q.handoff.toList = []) ∨
    ∃ id m q, p.takeIdle t = (some id, q) ∧ Looked who p m ∧ Claim who m id q := by
  obtain ⟨rs, hnone⟩ | ⟨n, rs, -, hsome⟩ := p.takeLocal_cases t
  · have hforget : Step who p { p with recents := rs } := by
      have hstep : Step who p (p.takeLocal t).2 := .forget (by rw [hnone])
      rw [hnone] at hstep
      exact hstep
    have hlooked : Looked who p { p with recents := rs } :=
      ⟨hforget.steps, rfl, rfl, rfl, rfl⟩
    have htake : p.takeIdle t = Pool.takeShared { p with recents := rs } t := by
      simp only [takeIdle, hnone]
    rcases takeQueued_cases (hforget.sound hp) t (p.handoff.size + 1) with
      ⟨q, heq, hl, hnil⟩ | ⟨id, m, q, heq, hl, hc⟩
    · exact Or.inl ⟨q, htake.trans heq, hlooked.trans hl, hnil (Nat.lt_succ_self _)⟩
    · exact Or.inr ⟨id, m, q, htake.trans heq, hlooked.trans hl, hc⟩
  · refine Or.inr ⟨⟨n⟩, p, _, ?_, .refl p, .own hsome⟩
    simp only [takeIdle, hsome]

/-- A handle that has its connection goes out on loan. -/
theorem checkOut_full {c : Connection} (hfull : (p.find? id).bind (·.slot) = some c) (t : Thread)
    (started : Nat) :
    (checkOut t started id).run p = (some p.nextLease, p.handOver t started id c) := by
  have hnext : (p.assign t started id).nextLease = p.nextLease := rfl
  simp only [checkOut, Act.run_bind, Act.run_read, hfull, Act.run_update, Act.run_apply,
    Act.run_pure, handOver, lend, hnext]

/-- A claimed handle has its connection, and goes out on loan. -/
theorem checkOut_claimed {m q : Pool} (hm : m.Sound) (hc : Claim who m id q) (t : Thread)
    (started : Nat) :
    ∃ c, (checkOut t started id).run q = (some q.nextLease, q.handOver t started id c) ∧
      Lend who m (q.handOver t started id c) := by
  obtain ⟨x, hx, rfl⟩ := hc.claimed hm
  obtain ⟨k, hk, hks⟩ := hx.idle
  obtain ⟨c, hslot⟩ := slot_of_idle (hx.fitting hm) (mem_of_find hk).1 hks
  have hfind : (x.restate id .checkedIn .checkedOut).find? id =
      some { k with state := .checkedOut } := by
    rw [find_restate, hk, Option.map_some]
  have hfull : ((x.restate id .checkedIn .checkedOut).find? id).bind (·.slot) = some c := by
    rw [hfind]
    exact hslot
  exact ⟨c, checkOut_full hfull t started, .mk t started hc hfind hslot⟩

variable (who) in
/-- A search claims the first handle that it can and hands it over. -/
theorem search_claims (hp : p.Sound) (t : Thread) (started fuel : Nat) :
    (∃ q, (search t started (fuel + 1)).run p = (none, q) ∧ Looked who p q ∧
      q.handoff.toList = []) ∨
    ∃ id m q c, (search t started (fuel + 1)).run p =
        (some q.nextLease, q.handOver t started id c) ∧
      Looked who p m ∧ Claim who m id q ∧ Lend who m (q.handOver t started id c) := by
  simp only [search, Act.run_bind, Act.run_apply]
  rcases takeIdle_cases who hp t with ⟨q, heq, hl, hnil⟩ | ⟨id, m, q, heq, hl, hc⟩
  · refine Or.inl ⟨q, ?_, hl, hnil⟩
    simp only [heq, Act.run_pure]
  · obtain ⟨c, hrun, hlend⟩ := checkOut_claimed (hl.steps.sound hp) hc t started
    refine Or.inr ⟨id, m, q, c, ?_, hl, hc, hlend⟩
    simp only [heq, Act.run_bind, hrun, Act.run_pure]

variable (who) in
/-- A search lends the first handle that it can claim. -/
theorem search_cases (hp : p.Sound) (t : Thread) (started fuel : Nat) :
    (∃ q, (search t started (fuel + 1)).run p = (none, q) ∧ Looked who p q ∧
      q.handoff.toList = []) ∨
    ∃ n m q, (search t started (fuel + 1)).run p = (some n, q) ∧ Looked who p m ∧ Lend who m q := by
  rcases search_claims who hp t started fuel with hnone | ⟨id, m, q, c, hrun, hl, -, hlend⟩
  · exact Or.inl hnone
  · exact Or.inr ⟨q.nextLease, m, q.handOver t started id c, hrun, hl, hlend⟩

theorem conclude_refused (f : Failure) :
    (conclude (.error f)).run p = (.refused f, p.notify (.afterAcquire (.error f))) := by
  simp only [conclude, Act.run_bind, Act.run_update, Act.run_pure]

theorem conclude_granted (n : Nat) :
    ∃ q, (conclude (.ok n)).run p = (.granted n, q) ∧ q.muted = p.muted := by
  simp only [conclude, Act.run_bind, Act.run_read]
  split
  · exact ⟨_, rfl, muted_notify _ _⟩
  · exact ⟨_, rfl, rfl⟩

/-- What an acquirer is that takes its turn: it is parked where it is listed, and no other has its
number. -/
structure Present (who : Option Nat) (p : Pool) (a : Acquirer) : Prop where
  self : who = some a.taker.id
  parked : a.waiting = .parked
  drawn : a.taker.id < p.nextTaker
  same : ∀ b ∈ p.acquirers, b.taker.id = a.taker.id → b.stance = a.stance

theorem Present.unserved {a : Acquirer} (h : Present who p a) :
    ∀ b ∈ p.acquirers, b.taker.id = a.taker.id → b.waiting.handle? = none := by
  intro b hb hid
  have hwait : b.waiting = a.waiting := congrArg Prod.snd (h.same b hb hid)
  rw [hwait, h.parked]
  rfl

theorem Present.leave {a : Acquirer} (h : Present who p a) : Step who p (p.leave a.taker.id) :=
  .leave h.self h.unserved

theorem Present.of_sublist {a : Acquirer} (h : Present who p a)
    (hs : q.acquirers.Sublist p.acquirers) (ht : q.nextTaker = p.nextTaker) : Present who q a :=
  ⟨h.self, h.parked, ht ▸ h.drawn, fun b hb => h.same b (hs.subset hb)⟩

theorem Looked.acquirers (h : Looked who p q) : q.acquirers = p.acquirers :=
  h.same ▸ rfl

theorem Looked.sifted (h : Looked who p q) : Sifted p q := by
  refine ⟨?_, h.ledger, h.stock, by rw [h.acquirers]⟩
  rw [h.acquirers]
  exact h.same

theorem Looked.present {a : Acquirer} (h : Looked who p q) (ha : Present who p a) :
    Present who q a :=
  ha.of_sublist (h.acquirers ▸ List.Sublist.refl _) (h.same ▸ rfl)

/-- A creation is scheduled for an acquirer, or nothing happens; the acquirer stays who it is. -/
theorem grow_cases (a : Acquirer) (p : Pool) :
    ((grow a p).2 = p ∨ p.hasRoom = true ∧ (grow a p).2 = p.schedule (some a.taker.id)) ∧
      (grow a p).1.stance = a.stance ∧ (grow a p).1.deadline = a.deadline ∧
      (grow a p).1.started = a.started := by
  simp only [grow]
  split
  · exact ⟨Or.inl rfl, rfl, rfl, rfl⟩
  · split
    · next hroom => exact ⟨Or.inr ⟨hroom, rfl⟩, rfl, rfl, rfl⟩
    · exact ⟨Or.inl rfl, rfl, rfl, rfl⟩

theorem steps_grow (a : Acquirer) : Steps who p (grow a p).2 := by
  obtain ⟨hsame | ⟨hroom, hgrown⟩, -⟩ := grow_cases a p
  · rw [hsame]
  · rw [hgrown]
    exact (Step.schedule (some a.taker.id) hroom).steps

theorem steps_timedOut (a : Acquirer) : Steps who p (timedOut a p).2 :=
  Step.timeOut.steps.hush rfl

theorem Present.grow {a : Acquirer} (ha : Present who p a) :
    Present who (grow a p).2 (grow a p).1 := by
  obtain ⟨hcases, hstance, -, -⟩ := grow_cases a p
  have htaker : (Pool.grow a p).1.taker = a.taker := congrArg Prod.fst hstance
  have hwait : (Pool.grow a p).1.waiting = a.waiting := congrArg Prod.snd hstance
  have hacq : (Pool.grow a p).2.acquirers = p.acquirers ∧
      (Pool.grow a p).2.nextTaker = p.nextTaker := by
    rcases hcases with h | ⟨-, h⟩
    · rw [h]
      exact ⟨rfl, rfl⟩
    · rw [h]
      exact ⟨rfl, rfl⟩
  refine ⟨htaker ▸ ha.self, hwait.trans ha.parked, ?_, ?_⟩
  · rw [htaker, hacq.2]
    exact ha.drawn
  · rw [htaker, hacq.1, hstance]
    exact ha.same

/-- An acquirer leaves with a refusal. -/
theorem steps_refuse {a : Acquirer} (ha : Present who p a) (f : Failure) :
    Steps who p ((conclude (.error f)).run (p.leave a.taker.id)).2 := by
  rw [conclude_refused]
  exact ha.leave.steps.hush (muted_notify _ _)

/-- How it ends for an acquirer that lingers: it is told how its creation failed, or it comes to
grow into `b`, and is late, or sent away, or parks. -/
inductive Lingering (a : Acquirer) (p : Pool) : Reply × Pool → Prop where
  | told {e : String} (ticket : a.ticket = some (.settled (some e))) :
    Lingering a p
    ((conclude (.error (if p.closed then p.closedFailure else .creation p.name e))).run
      (p.leave a.taker.id))
  | late {b : Acquirer} {q : Pool} (untold : ∀ e, a.ticket ≠ some (.settled (some e)))
    (grown : grow a p = (b, q)) (past : a.deadline ≤ p.clock) :
    Lingering a p ((conclude (.error (timedOut b (q.leave a.taker.id)).1)).run
      (timedOut b (q.leave a.taker.id)).2)
  | away {b : Acquirer} {q : Pool} (untold : ∀ e, a.ticket ≠ some (.settled (some e)))
    (grown : grow a p = (b, q)) (early : p.clock < a.deadline) (shut : q.handoff.isClosed = true) :
    Lingering a p ((conclude (.error q.closedFailure)).run (q.leave a.taker.id))
  | parks {b : Acquirer} {q : Pool} (untold : ∀ e, a.ticket ≠ some (.settled (some e)))
    (grown : grow a p = (b, q)) (early : p.clock < a.deadline)
    (isOpen : q.handoff.isClosed = false) :
    Lingering a p (.waiting a.taker.id, q.park b)

/-- Growing takes no time. -/
theorem grow_clock {a b : Acquirer} (h : grow a p = (b, q)) :
    b.taker = a.taker ∧ b.deadline = a.deadline ∧ q.clock = p.clock := by
  obtain ⟨hcases, hstance, hdeadline, -⟩ := grow_cases a p
  rw [h] at hcases hstance hdeadline
  refine ⟨congrArg Prod.fst hstance, hdeadline, ?_⟩
  rcases hcases with (rfl : q = p) | ⟨-, (rfl : q = p.schedule (some a.taker.id))⟩
  · rfl
  · rfl

theorem linger_cases (a : Acquirer) (p : Pool) : Lingering a p ((linger a).run p) := by
  simp only [linger]
  split
  · next e hticket =>
    simp only [Act.run_bind, Act.run_update, Act.run_read]
    exact .told hticket
  · next huntold =>
    simp only [Act.run_bind, Act.run_apply, Act.run_read, Act.run_ite, Act.run_update]
    cases hgrown : grow a p with
    | mk b q =>
      obtain ⟨htaker, hdeadline, hclock⟩ := grow_clock hgrown
      simp only [htaker, hdeadline, hclock]
      split
      · next hpast => exact .late huntold hgrown hpast
      · next hearly =>
        split
        · next hshut => exact .away huntold hgrown (Nat.not_le.mp hearly) hshut
        · next hopen => exact .parks huntold hgrown (Nat.not_le.mp hearly) (by simpa using hopen)

theorem steps_linger {a : Acquirer} (hp : p.Sound) (ha : Present who p a) :
    Steps who p ((linger a).run p).2 := by
  have hlingers := linger_cases a p
  have hgrow : Steps who p (grow a p).2 := steps_grow a
  have hgrown := ha.grow
  generalize (linger a).run p = r at hlingers ⊢
  cases hlingers with
  | told ticket => exact steps_refuse ha _
  | @late b q untold grown past =>
    rw [grown] at hgrow hgrown
    have htaker := (grow_clock grown).1
    rw [← htaker, conclude_refused]
    exact hgrow.trans (hgrown.leave.steps.trans ((steps_timedOut _).hush (muted_notify _ _)))
  | @away b q untold grown early shut =>
    rw [grown] at hgrow hgrown
    rw [← (grow_clock grown).1]
    exact hgrow.trans (steps_refuse hgrown _)
  | @parks b q untold grown early isOpen =>
    rw [grown] at hgrow hgrown
    have hclosed : q.closed = false := (hgrow.sound hp).lineup.isClosed_eq.symm.trans isOpen
    exact hgrow.tail (.park hgrown.self hclosed hgrown.parked hgrown.drawn hgrown.same)

/-- Nobody who lingers is granted anything. -/
theorem linger_reply (a : Acquirer) (p : Pool) (n : Nat) : ((linger a).run p).1 ≠ .granted n := by
  have hlingers := linger_cases a p
  generalize (linger a).run p = r at hlingers ⊢
  cases hlingers with
  | parks untold grown early isOpen => exact Reply.noConfusion
  | _ =>
    rw [conclude_refused]
    exact Reply.noConfusion

theorem turn_found {a : Acquirer} {n : Nat}
    (hs : (search a.taker.thread a.started (p.handles.length + 1)).run p = (some n, q)) :
    ∃ r, (turn a).run p = (.granted n, r) ∧ r.muted = (q.leave a.taker.id).muted := by
  obtain ⟨r, hrun, hr⟩ := conclude_granted (p := q.leave a.taker.id) n
  refine ⟨r, ?_, hr⟩
  simp only [turn, Act.run_bind, Act.run_read, hs, Act.run_update, hrun]

theorem turn_none {a : Acquirer}
    (hs : (search a.taker.thread a.started (p.handles.length + 1)).run p = (none, q)) :
    (turn a).run p = (linger a).run q := by
  simp only [turn, Act.run_bind, Act.run_read, hs]

theorem course_turn {a : Acquirer} (hp : p.Sound) (hfinal : p.Final) (ha : Present who p a) :
    Course who p [] ((turn a).run p).2 := by
  rcases search_cases who hp a.taker.thread a.started p.handles.length with
    ⟨q, hs, hl, -⟩ | ⟨n, m, q, hs, hl, hlend⟩
  · rw [turn_none hs]
    exact .calm (hl.steps.trans (steps_linger (hl.steps.sound hp) (hl.present ha)))
  · obtain ⟨r, hrun, hr⟩ := turn_found hs
    have hlent := hlend.lent (hl.steps.sound hp) (hl.steps.final hp hfinal)
    have hhere : ∀ b ∈ q.acquirers, b.taker.id = a.taker.id → b.waiting.handle? = none :=
      fun b hb => (hl.present ha).unserved b (hlent.acquirers.subset hb)
    have hleave : Step who q (q.leave a.taker.id) := .leave ha.self hhere
    have hsame : r.muted.gauges = (q.leave a.taker.id).muted.gauges := congrArg Pool.gauges hr
    rw [hrun]
    exact .lent hl.steps hlend (hleave.steps.hush hr) hsame

/-- Lending again what a unit of work holds. -/
theorem reuse_steps (ho : p.closed = false) (t : Thread) : Steps who p ((reuse t).run p).2 := by
  simp only [reuse, Act.run_bind, Act.run_read]
  split
  · exact .refl
  · next id hunit =>
    split
    · next c last owner queued cached hf =>
      have htouch : Step who p (p.touch id) := .touch id
      have hfind := find_touch p id
      rw [hf, Option.map_some] at hfind
      simp only [Act.run_bind, Act.run_update, Act.run_apply, Act.run_pure]
      have hsaid : Steps who p ((p.touch id).log .debug "Reusing enlisted connection"
          [("handle", .shown id.label)]) := htouch.steps.hush (muted_log _ _ _ _)
      exact hsaid.tail (.lend true ho hfind rfl rfl)
    · exact .refl
    · exact (Step.regroup (p.units.disassociate id)).steps

theorem reuse_acquirers (t : Thread) :
    ((reuse t).run p).2.acquirers = p.acquirers ∧ ((reuse t).run p).2.nextTaker = p.nextTaker ∧
      ((reuse t).run p).2.inFlight = p.inFlight := by
  simp only [reuse, Act.run_bind, Act.run_read]
  split
  · exact ⟨rfl, rfl, rfl⟩
  · split <;> exact ⟨rfl, rfl, rfl⟩

theorem conclude_muted (r : Except Failure Nat) : ((conclude r).run p).2.muted = p.muted := by
  cases r with
  | error f =>
    rw [conclude_refused]
    exact muted_notify _ _
  | ok n =>
    obtain ⟨q, hrun, hq⟩ := conclude_granted (p := p) n
    rw [hrun]
    exact hq

/-- The acquirer that a call to acquire becomes once it has its number. -/
def newcomer (p : Pool) (t : Thread) (started deadline : Nat) : Acquirer :=
  { taker := ⟨p.nextTaker, t⟩, started := started, deadline := deadline }

theorem present_newcomer (hp : p.Lineup) (t : Thread) (started deadline : Nat) :
    Present (some p.nextTaker) { p with nextTaker := p.nextTaker + 1 }
      (p.newcomer t started deadline) := by
  refine ⟨rfl, rfl, Nat.lt_succ_self _, fun b hb hid => ?_⟩
  have hlt := hp.takers_lt b hb
  rw [hid] at hlt
  exact absurd hlt (Nat.lt_irrefl _)

theorem acquire_closed (hc : p.closed = true) (t : Thread) (deadline : Nat) :
    (acquire t deadline).run p =
      (.refused p.closedFailure,
        (p.notify .beforeAcquire).notify (.afterAcquire (.error p.closedFailure))) := by
  have hheard : (p.notify .beforeAcquire).closed = true := hc
  simp only [acquire, Act.run_bind, Act.run_update, Act.run_read, hheard, if_true, conclude_refused]
  rfl

theorem course_acquire (hp : p.Sound) (hfinal : p.Final) (t : Thread) (deadline : Nat) :
    Course (some p.nextTaker) p [] ((acquire t deadline).run p).2 := by
  by_cases hc : p.closed = true
  · rw [acquire_closed hc]
    exact .calm (.of_muted rfl)
  · have ho : p.closed = false := by simpa using hc
    have hheard : Steps (some p.nextTaker) p (p.notify .beforeAcquire) :=
      .of_muted (muted_notify _ _)
    have hs := hheard.sound hp
    have hreuse : Steps (some p.nextTaker) (p.notify .beforeAcquire)
        ((reuse t).run (p.notify .beforeAcquire)).2 :=
      reuse_steps (p := p.notify .beforeAcquire) ho t
    have hclosed : (p.notify .beforeAcquire).closed = false := ho
    simp only [acquire, Act.run_bind, Act.run_update, Act.run_read, hclosed, Bool.false_eq_true,
      if_false]
    refine .prepend hheard (.prepend hreuse ?_)
    split
    · exact .calm (.of_muted (conclude_muted _))
    · exact .calm (.of_muted (conclude_muted _))
    · next hnone =>
      obtain ⟨-, hnext, -⟩ := reuse_acquirers (p := p.notify .beforeAcquire) t
      have hm := hreuse.sound hs
      have hf := hreuse.final hs (hheard.final hp hfinal)
      generalize ((reuse t).run (p.notify .beforeAcquire)).2 = m at *
      have hnumber : p.nextTaker = m.nextTaker := hnext.symm
      have hdraw : Step (some m.nextTaker) m { m with nextTaker := m.nextTaker + 1 } := .draw
      have hhere := present_newcomer hm.lineup t p.clock deadline
      rw [hnumber]
      refine .prepend hdraw.steps ?_
      exact course_turn (hdraw.sound hm) ((hdraw.keeps hm).final hf) hhere

/-- An acquirer in the list, to whom nothing has come yet, takes his turn in his place. -/
theorem present_listed (hp : p.Lineup) {a : Acquirer} (ha : a ∈ p.acquirers)
    (hw : a.waiting = .parked) : Present (some a.taker.id) p a := by
  refine ⟨rfl, hw, hp.takers_lt a ha, fun b hb hid => ?_⟩
  rw [Keyed.unique (fun a : Acquirer => a.taker.id) hp.takers_nodup hb ha hid]

/-- An acquirer that was served in vain looks around from outside the list. -/
theorem present_missed (hp : p.Lineup) {a : Acquirer} (ha : a ∈ p.acquirers) (h : HandleId) :
    Present (some a.taker.id) ((p.leave a.taker.id).unqueue h) { a with waiting := .parked } := by
  refine ⟨rfl, rfl, hp.takers_lt a ha, fun b hb hid => ?_⟩
  have hgone := (List.mem_filter.mp hb).2
  simp only [decide_eq_true_eq] at hgone
  exact absurd hid hgone

/-- How an acquirer goes on: he was sent away, or is lent what he was served, or else he has a
turn. -/
inductive Goes (p : Pool) (a : Acquirer) : Reply × Pool → Prop where
  | away (dismissed : a.waiting = .dismissed) :
    Goes p a ((conclude (.error p.closedFailure)).run (p.leave a.taker.id))
  | lent {h : HandleId} {q : Pool} {c : Connection} (served : a.waiting = .served h)
    (claim : (p.leave a.taker.id).claim h = (true, q))
    (lend : Lend (some a.taker.id) p (q.handOver a.taker.thread a.started h c)) :
    Goes p a ((conclude (.ok q.nextLease)).run (q.handOver a.taker.thread a.started h c))
  | turn {q : Pool} (steps : Steps (some a.taker.id) p q)
    (present : Present (some a.taker.id) q { a with waiting := .parked })
    (unheard : q.inFlight = p.inFlight)
    (stale : ∀ h, a.waiting = .served h → p.stateOf? h ≠ some .checkedIn)
    (missed : q = p ∨ ∃ h, q = (p.leave a.taker.id).unqueue h) :
    Goes p a ((Pool.turn { a with waiting := .parked }).run q)

theorem resume_unknown {n : Nat} (h : ∀ a ∈ p.acquirers, a.taker.id ≠ n) :
    (resume n).run p = (.waiting n, p) := by
  have hnone : p.acquirers.find? (·.taker.id = n) = none :=
    List.find?_eq_none.mpr fun a ha => by simpa using h a ha
  simp only [resume, Act.run_bind, Act.run_read, hnone, Act.run_pure]

theorem resume_goes (hp : p.Sound) {a : Acquirer} (ha : a ∈ p.acquirers) :
    Goes p a ((resume a.taker.id).run p) := by
  have hfind : p.acquirers.find? (·.taker.id = a.taker.id) = some a :=
    (Keyed.find_iff (fun a : Acquirer => a.taker.id) hp.lineup.takers_nodup).mpr ⟨ha, rfl⟩
  simp only [resume, Act.run_bind, Act.run_read, hfind]
  cases hw : a.waiting with
  | parked =>
    have hsame : { a with waiting := .parked } = a := by rw [← hw]
    have hpresent : Present (some a.taker.id) p { a with waiting := .parked } := by
      rw [hsame]
      exact present_listed hp.lineup ha hw
    have hturn : Goes p a ((Pool.turn { a with waiting := .parked }).run p) :=
      .turn .refl hpresent rfl (fun h hs => Waiting.noConfusion (hw.symm.trans hs)) (Or.inl rfl)
    rw [hsame] at hturn
    exact hturn
  | dismissed =>
    simp only [Act.run_bind, Act.run_update, Act.run_read]
    exact .away hw
  | served h =>
    simp only [Act.run_bind, Act.run_update, Act.run_apply, Act.run_ite]
    cases hclaim : (p.leave a.taker.id).claim h with
    | mk won q =>
      cases won with
      | true =>
        have hserved : Claim (some a.taker.id) p h q := .served rfl ha hw hclaim
        obtain ⟨c, hrun, hlend⟩ := checkOut_claimed hp hserved a.taker.thread a.started
        simp only [if_true, hrun]
        exact .lent hw hclaim hlend
      | false =>
        obtain ⟨hstale, rfl⟩ := claim_miss hclaim
        have hmiss : Step (some a.taker.id) p ((p.leave a.taker.id).unqueue h) :=
          .miss rfl ha hw hstale
        simp only [Bool.false_eq_true, if_false]
        refine .turn hmiss.steps (present_missed hp.lineup ha h) rfl
          (fun k hk => ?_) (Or.inr ⟨h, rfl⟩)
        cases hw.symm.trans hk
        exact hstale

/-- An acquirer that waits goes on; of another the pool knows nothing. -/
theorem resume_cases (hp : p.Sound) (n : Nat) :
    (∃ a ∈ p.acquirers, a.taker.id = n ∧ Goes p a ((resume n).run p)) ∨
      (∀ a ∈ p.acquirers, a.taker.id ≠ n) ∧ (resume n).run p = (.waiting n, p) := by
  by_cases hlisted : ∃ a ∈ p.acquirers, a.taker.id = n
  · obtain ⟨a, ha, rfl⟩ := hlisted
    exact Or.inl ⟨a, ha, rfl, resume_goes hp ha⟩
  · have hnone : ∀ a ∈ p.acquirers, a.taker.id ≠ n := fun a ha hid => hlisted ⟨a, ha, hid⟩
    exact Or.inr ⟨hnone, resume_unknown hnone⟩

theorem course_resume (hp : p.Sound) (hfinal : p.Final) (n : Nat) :
    Course (some n) p [] ((resume n).run p).2 := by
  obtain ⟨a, ha, rfl, hgoes⟩ | ⟨-, hrun⟩ := resume_cases hp n
  · generalize (resume a.taker.id).run p = r at hgoes ⊢
    cases hgoes with
    | away dismissed =>
      have hleave : Step (some a.taker.id) p (p.leave a.taker.id) := by
        refine .leave rfl fun b hb hid => ?_
        rw [Keyed.unique (fun a : Acquirer => a.taker.id) hp.lineup.takers_nodup hb ha hid,
          dismissed]
        rfl
      exact .calm (hleave.steps.hush (conclude_muted _))
    | @lent h q c served claim lend =>
      have hend := conclude_muted (p := q.handOver a.taker.thread a.started h c) (.ok q.nextLease)
      exact .lent .refl lend (.of_muted hend) (eq_of_muted Pool.gauges (fun _ => rfl) hend)
    | turn steps present unheard stale =>
      exact .prepend steps (course_turn (steps.sound hp) (steps.final hp hfinal) present)
  · rw [hrun]
    exact .calm .refl

end ConnPool.Pool
