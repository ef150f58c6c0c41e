import ConnPool.Proofs.Capacity
import ConnPool.Proofs.Entries
import ConnPool.Proofs.Obtaining
import ConnPool.Proofs.Tickets
import Mathlib.Logic.Relation

namespace ConnPool.Pool

/-- The creations in flight that are not this acquirer's. -/
def inFlightBeside (p : Pool) (n : Nat) : List Creation := p.inFlight.filter (· ≠ ⟨some n⟩)

/-- What an acquirer does for itself while it is granted nothing. Handles are only added, and idle,
and only its own creations come and go. Nobody is sent away. -/
structure Drift (n : Nat) (p q : Pool) : Prop where
  stock : ∃ born, q.stock = p.stock ++ born ∧ ∀ h ∈ born, h.state = .checkedIn ∧
    p.nextHandle ≤ h.id.val
  nextHandle : p.nextHandle ≤ q.nextHandle
  units : q.units = p.units
  closed : q.closed = p.closed
  beside : (q.inFlightBeside n).Perm (p.inFlightBeside n)
  dismissed : ∀ a ∈ q.acquirers, a.waiting = .dismissed →
    ∃ b ∈ p.acquirers, b.taker.id = a.taker.id ∧ b.waiting = .dismissed

/-- How it goes on for an acquirer that is granted nothing: if it is refused, nothing is left
queued. -/
structure Rests (n : Nat) (p : Pool) (r : Reply × Pool) : Prop extends Drift n p r.2 where
  emptied : ∀ f, r.1 = .refused f → r.2.handoff.toList = []
  waits : ∀ k, r.1 = .waiting k → k = n

/-- What an acquirer comes to: it is granted a lease, or goes on without. -/
def Fares (n : Nat) (p : Pool) (r : Reply × Pool) : Prop := (∃ l, r.1 = .granted l) ∨ Rests n p r

variable {p q m : Pool} {n : Nat} {r : Reply × Pool}

theorem Drift.trans (h : Drift n p m) (k : Drift n m q) : Drift n p q := by
  obtain ⟨born, hborn, hfresh⟩ := h.stock
  obtain ⟨later, hlater, hfresher⟩ := k.stock
  refine ⟨⟨born ++ later, ?_, fun x hx => ?_⟩, Nat.le_trans h.nextHandle k.nextHandle,
    k.units.trans h.units, k.closed.trans h.closed, k.beside.trans h.beside, fun a ha hw => ?_⟩
  · rw [hlater, hborn, List.append_assoc]
  · rcases List.mem_append.mp hx with hx | hx
    · exact hfresh x hx
    · obtain ⟨hidle, hle⟩ := hfresher x hx
      exact ⟨hidle, Nat.le_trans h.nextHandle hle⟩
  · obtain ⟨b, hb, hid, hbw⟩ := k.dismissed a ha hw
    obtain ⟨c, hc, hcid, hcw⟩ := h.dismissed b hb hbw
    exact ⟨c, hc, hcid.trans hid, hcw⟩

/-- What none of this touches, unless a handle is new. -/
def holdings (p : Pool) : List Handle × Nat × Units × Bool :=
  (p.stock, p.nextHandle, p.units, p.closed)

theorem Drift.of_holdings (hl : q.holdings = p.holdings)
    (hb : (q.inFlightBeside n).Perm (p.inFlightBeside n))
    (ha : ∀ a ∈ q.acquirers, a.waiting = .dismissed →
      ∃ b ∈ p.acquirers, b.taker.id = a.taker.id ∧ b.waiting = .dismissed) : Drift n p q := by
  simp only [holdings, Prod.mk.injEq] at hl
  obtain ⟨hstock, hnext, hunits, hclosed⟩ := hl
  refine ⟨⟨[], ?_, fun h hh => absurd hh List.not_mem_nil⟩, Nat.le_of_eq hnext.symm, hunits,
    hclosed, hb, ha⟩
  rw [hstock, List.append_nil]

/-- Only creations in flight come and go. -/
theorem Drift.of_flight (hl : q.holdings = p.holdings)
    (hb : (q.inFlightBeside n).Perm (p.inFlightBeside n))
    (ha : q.acquirers.Sublist p.acquirers) : Drift n p q :=
  .of_holdings hl hb fun a hin hw => ⟨a, ha.subset hin, rfl, hw⟩

theorem Drift.of_same (hl : q.holdings = p.holdings) (hi : q.inFlight = p.inFlight)
    (ha : q.acquirers.Sublist p.acquirers) : Drift n p q :=
  .of_flight hl (by simp only [inFlightBeside, hi, List.Perm.refl]) ha

theorem Drift.refl (n : Nat) (p : Pool) : Drift n p p := .of_same rfl rfl (List.Sublist.refl _)

theorem Drift.of_muted (h : q.muted = p.muted) : Drift n p q :=
  .of_same (eq_of_muted Pool.holdings (fun _ => rfl) h) (eq_of_muted Pool.inFlight (fun _ => rfl) h)
    (eq_of_muted Pool.acquirers (fun _ => rfl) h ▸ List.Sublist.refl _)

/-- Acquirers may hear of a creation or be given an entry. -/
theorem Drift.of_map {f : Acquirer → Acquirer} (hl : q.holdings = p.holdings)
    (hi : q.inFlight = p.inFlight)
    (hf : ∀ a, (f a).taker = a.taker ∧ ((f a).waiting = .dismissed → a.waiting = .dismissed))
    (ha : q.acquirers = p.acquirers.map f) : Drift n p q := by
  refine .of_holdings hl (by simp only [inFlightBeside, hi, List.Perm.refl]) fun a hin hw => ?_
  rw [ha] at hin
  obtain ⟨b, hb, rfl⟩ := List.mem_map.mp hin
  obtain ⟨htaker, hsent⟩ := hf b
  exact ⟨b, hb, congrArg Taker.id htaker.symm, hsent hw⟩

theorem leave_drift (p : Pool) (k : Nat) : Drift n p (p.leave k) :=
  .of_same rfl rfl List.filter_sublist

theorem mark_drift (p : Pool) (id : HandleId) (b : Bool) :
    Drift n p (p.modifyHandle id fun h => { h with queued := b }) := by
  refine .of_same ?_ rfl (List.Sublist.refl _)
  simp only [holdings, mark_stock]
  rfl

theorem unqueue_drift (p : Pool) (id : HandleId) : Drift n p (p.unqueue id) :=
  (mark_drift p id false).trans (.of_same rfl rfl (List.Sublist.refl _))

theorem Looked.drift {who : Option Nat} (h : Looked who p q) : Drift n p q := by
  have hstock := h.stock
  refine .of_same ?_ (h.same ▸ rfl) (h.acquirers ▸ List.Sublist.refl _)
  rw [h.same] at hstock ⊢
  simp only [holdings, hstock]

theorem grow_drift (a : Acquirer) (p : Pool) : Drift a.taker.id p (grow a p).2 := by
  rcases (grow_cases a p).1 with hsame | ⟨-, hgrown⟩
  · rw [hsame]
    exact .refl _ p
  · rw [hgrown]
    refine .of_flight rfl ?_ (List.Sublist.refl _)
    simp [inFlightBeside, schedule]

/-- Nobody is sent away from an open handoff. -/
theorem park_drift (hn : p.handoff.Numbered) (ho : p.handoff.isClosed = false) {a : Acquirer}
    (hw : a.waiting = .parked) : Drift n p (p.park a) := by
  have hholdings : (p.park a).holdings = p.holdings := by
    simp only [park]
    split
    · rfl
    · split <;> rfl
  have hbeside : (p.park a).inFlightBeside n = p.inFlightBeside n := by
    simp only [inFlightBeside, park_inFlight]
  refine .of_holdings hholdings (hbeside ▸ .refl _) fun b hb hsent => ?_
  simp only [park] at hb
  split at hb
  · obtain ⟨c, hc, rfl⟩ := List.mem_map.mp hb
    split at hsent
    · cases hw.symm.trans hsent
    · next hne =>
      rw [if_neg hne]
      exact ⟨c, hc, rfl, hsent⟩
  · obtain ⟨h', rs', -, -, ⟨-, -, -, htake⟩ | ⟨id, -, -, htake⟩⟩ :=
      Handoff.take_cases hn ho p.recents a.taker
    · rw [htake] at hb
      rcases List.mem_append.mp hb with hb | hb
      · exact ⟨b, hb, rfl, hsent⟩
      · cases hw.symm.trans (List.mem_singleton.mp hb ▸ hsent)
    · rw [htake] at hb
      rcases List.mem_append.mp hb with hb | hb
      · exact ⟨b, hb, rfl, hsent⟩
      · rw [List.mem_singleton.mp hb] at hsent
        cases hsent

theorem linger_drift (hn : p.handoff.Numbered) {a : Acquirer} (hw : a.waiting = .parked) :
    Drift a.taker.id p ((linger a).run p).2 := by
  have hlingers := linger_cases a p
  have hgrown := grow_drift a p
  have hstance := (grow_cases a p).2.1
  have hends : ∀ (m : Pool) (f : Failure), Drift a.taker.id m ((conclude (.error f)).run m).2 :=
    fun m f => .of_muted (conclude_muted (.error f))
  generalize (linger a).run p = r at hlingers ⊢
  cases hlingers with
  | told ticket => exact (leave_drift p _).trans (hends _ _)
  | @late b q untold grown past =>
    rw [grown] at hgrown
    have hlate : Drift a.taker.id (q.leave a.taker.id) (timedOut b (q.leave a.taker.id)).2 :=
      .of_same rfl rfl (List.Sublist.refl _)
    exact (hgrown.trans (leave_drift q _)).trans (hlate.trans (hends _ _))
  | @away b q untold grown early shut =>
    rw [grown] at hgrown
    exact (hgrown.trans (leave_drift q _)).trans (hends _ _)
  | @parks b q untold grown early isOpen =>
    rw [grown] at hgrown hstance
    have hparked : b.waiting = .parked := (congrArg Prod.snd hstance).trans hw
    exact hgrown.trans (park_drift (grow_handoff grown ▸ hn) isOpen hparked)

theorem linger_waits {a : Acquirer} {k : Nat} (h : ((linger a).run p).1 = .waiting k) :
    k = a.taker.id := by
  have hlingers := linger_cases a p
  generalize (linger a).run p = r at hlingers h
  cases hlingers with
  | parks untold grown early isOpen => exact (Reply.waiting.inj h).symm
  | _ =>
    rw [conclude_refused] at h
    cases h

theorem Fares.after (h : Drift n p m) (k : Fares n m r) : Fares n p r := by
  rcases k with hgranted | hrests
  · exact Or.inl hgranted
  · exact Or.inr { h.trans hrests.toDrift with emptied := hrests.emptied, waits := hrests.waits }

theorem turn_fares (hp : p.Sound) {a : Acquirer} (hw : a.waiting = .parked) :
    Fares a.taker.id p ((turn a).run p) := by
  rcases search_cases none hp a.taker.thread a.started p.handles.length with
    ⟨q, hs, hl, -⟩ | ⟨l, m, q, hs, -, -⟩
  · have hrun : (turn a).run p = (linger a).run q := turn_none hs
    have hcleared := turn_clears hp (a := a) fun k => hrun ▸ linger_reply a q k
    rw [hrun] at hcleared ⊢
    have hdrift := hl.drift.trans (linger_drift (hl.steps.sound hp).lineup.numbered hw)
    exact Or.inr { hdrift with emptied := fun _ _ => hcleared, waits := fun _ => linger_waits }
  · obtain ⟨r, hrun, -⟩ := turn_found hs
    rw [hrun]
    exact Or.inl ⟨l, rfl⟩

/-- An acquirer that was not sent away is granted a lease when it goes on, or goes on without. -/
theorem resume_fares (hp : p.Sound)
    (hstays : ∀ a ∈ p.acquirers, a.taker.id = n → a.waiting ≠ .dismissed) :
    Fares n p ((resume n).run p) := by
  obtain ⟨a, ha, rfl, hgoes⟩ | ⟨-, hrun⟩ := resume_cases hp n
  · generalize (resume a.taker.id).run p = r at hgoes ⊢
    cases hgoes with
    | away dismissed => exact absurd dismissed (hstays a ha rfl)
    | @lent h q c served claim lend =>
      obtain ⟨m, hrun, -⟩ :=
        conclude_granted (p := q.handOver a.taker.thread a.started h c) q.nextLease
      rw [hrun]
      exact Or.inl ⟨q.nextLease, rfl⟩
    | @turn q steps present unheard stale missed =>
      refine .after ?_ (turn_fares (a := { a with waiting := .parked }) (steps.sound hp) rfl)
      rcases missed with rfl | ⟨h, rfl⟩
      · exact .refl _ q
      · exact (leave_drift p _).trans (unqueue_drift _ h)
  · rw [hrun]
    have hwaits : ∀ f, Reply.waiting n ≠ .refused f := fun f hf => by cases hf
    exact Or.inr { Drift.refl n p with
      emptied := fun f hf => absurd hf (hwaits f), waits :=
      fun k hk => (Reply.waiting.inj hk).symm }

theorem available_drift (p : Pool) (t : Thread) (id : HandleId) : Drift n p (p.available t id) := by
  simp only [available]
  split
  · exact .refl n p
  · refine (mark_drift p id true).trans ?_
    generalize p.modifyHandle id (fun h => { h with queued := true }) = m
    simp only [offer]
    split
    · exact .of_same rfl rfl (List.Sublist.refl _)
    · exact .of_same rfl rfl (List.Sublist.refl _)
    · next w x _ =>
      refine .of_map
        (f := fun a => if a.taker.id = w.id then { a with waiting := .served x } else a) rfl rfl
        (fun a => ?_) rfl
      split
      · exact ⟨rfl, fun hw => by cases hw⟩
      · exact ⟨rfl, fun hw => hw⟩

/-- A new handle joins the others. -/
theorem arrival_drift (hp : ∀ h ∈ p.handles, h.id ≠ ⟨p.nextHandle⟩) (x : Connection) :
    Drift n p (p.arrival x) := by
  have hnew := between_enroll hp x
  have hseated : ((p.enroll x).restate ⟨p.nextHandle⟩ .new .checkedIn).handles =
      p.handles ++ [{ p.newHandle x with state := .checkedIn }] :=
    hnew.replace rfl fun h => { h with state := .checkedIn }
  have hnow := (hnew.renew (y := { p.newHandle x with state := .checkedIn }) rfl).replace
    (k := ⟨p.nextHandle⟩) rfl fun h => { h with lastAccess := p.clock }
  rw [← hseated] at hnow
  have hhandles : (p.arrival x).handles = p.handles ++
    [{ p.newHandle x with state := .checkedIn }] := hnow
  refine ⟨⟨[{ p.newHandle x with state := .checkedIn }], ?_, fun h hh => ?_⟩, Nat.le_succ _, rfl,
    rfl, .refl _,
    fun a ha hw => ⟨a, ha, rfl, hw⟩⟩
  · simp only [stock, hhandles, List.map_append]
    rfl
  · rw [List.mem_singleton.mp hh]
    exact ⟨rfl, Nat.le_refl _⟩

theorem bear_drift (hp : ∀ h ∈ p.handles, h.id ≠ ⟨p.nextHandle⟩) (x : Connection) :
    Drift n p (p.bear x) :=
  (arrival_drift hp x).trans (available_drift (p.arrival x) .background ⟨p.nextHandle⟩)

theorem conclude_drift {cs : List Creation} (first : p.inFlight = ⟨some n⟩ :: cs)
    (e : Option String) :
    Drift n p (p.concludeCreation ⟨some n⟩ e) := by
  have htold : Drift n p (p.tellAcquirer n e) := by
    refine .of_map (f := fun a => if a.taker.id = n ∧ a.ticket = some .inFlight then
      { a with ticket := some (.settled e) } else a) rfl rfl (fun a => ?_) rfl
    split <;> exact ⟨rfl, fun h => h⟩
  refine htold.trans ?_
  have hfirst : (p.tellAcquirer n e).inFlight = ⟨some n⟩ :: cs := first
  show Drift n _ (p.tellAcquirer n e).endCreation
  refine .of_flight rfl ?_ (List.Sublist.refl _)
  simp [inFlightBeside, endCreation, hfirst]

/-- The acquirer's own creation comes to its end. -/
theorem create_drift (hp : p.Sound) (ho : p.closed = false) {cs : List Creation}
    (first : p.inFlight = ⟨some n⟩ :: cs) : Drift n p (create.run p).2 := by
  have hlet := create_letThrough hp
  generalize (create.run p).2 = q at hlet ⊢
  cases hlet with
  | idle empty => exact .refl n p
  | @miscarried c ds e _ hc failed same =>
    cases first.symm.trans hc
    have hforgone : Drift n p p.tried.forgo := .of_same rfl rfl (List.Sublist.refl _)
    exact (hforgone.trans (conclude_drift (p := p.tried.forgo) first (some e))).trans
      (.of_muted same)
  | @born c ds x _ hc made same =>
    cases first.symm.trans hc
    have htried : Drift n p p.tried := .of_same rfl rfl (List.Sublist.refl _)
    have hfresh := id_ne_next hp.books.fitting
    have hborn : Drift n p (p.tried.bear x) := htried.trans (bear_drift (p := p.tried) hfresh x)
    have hflight : (p.tried.bear x).inFlight = ⟨some n⟩ :: cs :=
      (inFlight_available _ _ _).trans first
    have hbirth : p.birth ⟨some n⟩ x = (p.tried.bear x).concludeCreation ⟨some n⟩ none := by
      simp only [birth, ho, Bool.false_eq_true, if_false]
    rw [hbirth] at same
    exact (hborn.trans (conclude_drift hflight none)).trans (.of_muted same)

theorem overtake_drift (p : Pool) (i : Nat) : Drift n p (p.overtake i) := by
  obtain ⟨cs, hsame, heq⟩ := p.overtake_eq i
  rw [heq]
  exact .of_flight rfl (hsame.filter _) (List.Sublist.refl _)

/-- How a call to acquire fares: it is granted a lease or refused at once, or it has a turn. -/
theorem acquire_fares (hp : p.Sound) (t : Thread) (deadline : Nat) :
    (∃ f, ((acquire t deadline).run p).1 = .refused f ∧
      ((acquire t deadline).run p).2.muted = p.muted) ∨
      p.closed = false ∧ ∃ us, p.Spares us ∧
        Fares p.nextTaker { p with units := us } ((acquire t deadline).run p) := by
  by_cases hc : p.closed = true
  · rw [acquire_closed hc]
    exact Or.inl ⟨_, rfl, rfl⟩
  · have ho : p.closed = false := by simpa using hc
    rw [acquire_open ho]
    rcases reuse_cases (p.notify .beforeAcquire) t with ⟨l, q, hrun⟩ | ⟨id, hrun⟩ | ⟨us, hus, hrun⟩
    · obtain ⟨r, hgranted, -⟩ := conclude_granted (p := q) l
      simp only [hrun, hgranted]
      exact Or.inr ⟨ho, p.units, fun _ _ _ => Iff.rfl, Or.inl ⟨l, rfl⟩⟩
    · simp only [hrun, conclude_refused]
      exact Or.inl ⟨_, rfl, rfl⟩
    · have hregroup : Step none p { p with units := us } := .regroup us
      have hdraw : Step none { p with units := us }
        { p with units := us, nextTaker := p.nextTaker + 1 } := .draw
      have hdrawn : Steps none p { p with units := us, nextTaker := p.nextTaker + 1 } :=
        hregroup.steps.tail hdraw
      have hheard :
        Steps none p { p.notify .beforeAcquire with units := us, nextTaker := p.nextTaker + 1 } :=
        hdrawn.hush rfl
      have hready : Drift p.nextTaker { p with units := us }
          { p.notify .beforeAcquire with units := us, nextTaker := p.nextTaker + 1 } :=
        .of_same rfl rfl (List.Sublist.refl _)
      have hturn := turn_fares (a := p.newcomer t p.clock deadline) (hheard.sound hp) rfl
      simp only [hrun]
      exact Or.inr ⟨ho, us, hus, .after hready hturn⟩

/-- What comes to its end while an acquirer waits, and nothing else does: time passes, it looks
around in vain, and creations of its own turn out one way or the other. -/
inductive Apart (n : Nat) (p : Pool) : Pool → Prop where
  | wait (k : Nat) : Apart n p { p with clock := p.clock + k }
  | again {q : Pool} (waits : (resume n).run p = (.waiting n, q)) : Apart n p q
  | create {i : Nat} (own : p.inFlight[i]? = some ⟨some n⟩) :
      Apart n p (create.run (p.overtake i)).2

/-- A call to acquire is refused in the end, and in between no other operation completes but
creations that it has scheduled. -/
inductive Refused (t : Thread) (deadline : Nat) (p : Pool) (f : Failure) (q : Pool) : Prop where
  | atOnce (run : (acquire t deadline).run p = (.refused f, q))
  | later {n : Nat} {m s : Pool} (run : (acquire t deadline).run p = (.waiting n, m))
    (apart : Relation.ReflTransGen (Apart n) m s) (last : (resume n).run s = (.refused f, q))

/-- The acquirer was not sent away. -/
def Awaits (n : Nat) (p : Pool) : Prop := ∀ a ∈ p.acquirers, a.taker.id = n → a.waiting ≠ .dismissed

theorem Drift.awaits (h : Drift n p q) (hp : p.Awaits n) : q.Awaits n := by
  intro a ha hid hw
  obtain ⟨b, hb, hbid, hbw⟩ := h.dismissed a ha hw
  exact hp b hb (hbid.trans hid) hbw

/-- One step of the wait. -/
theorem Apart.drift (h : Apart n p q) (hp : p.Accounted) (ho : p.closed = false) (hw : p.Awaits n) :
    Drift n p q ∧ q.Accounted := by
  cases h with
  | wait k => exact ⟨.of_same rfl rfl (List.Sublist.refl _), hp.run (.wait k)⟩
  | @again q waits =>
    have hq : (Operation.resume n).run p = q := congrArg Prod.snd waits
    refine ⟨?_, hq ▸ hp.run (.resume n)⟩
    have hfares := resume_fares hp.settled.sound hw
    rw [waits] at hfares
    rcases hfares with ⟨l, hl⟩ | hrests
    · cases hl
    · exact hrests.toDrift
  | @create i own =>
    have hover : (p.overtake i).Accounted := hp.run (.overtake i)
    have hfirst : (p.overtake i).inFlight = ⟨some n⟩ :: p.inFlight.eraseIdx i := by
      simp only [overtake, own]
    have hopen : (p.overtake i).closed = false := (overtake_drift (n := n) p i).closed.trans ho
    have hends := create_drift hover.settled.sound hopen hfirst
    exact ⟨(overtake_drift p i).trans hends, hover.run .create⟩

/-- The whole wait. -/
theorem drift_of_apart (h : Relation.ReflTransGen (Apart n) p q) (hp : p.Accounted)
    (ho : p.closed = false)
    (hw : p.Awaits n) : Drift n p q ∧ q.Accounted := by
  induction h with
  | refl => exact ⟨.refl n p, hp⟩
  | tail _ hstep ih =>
    obtain ⟨hdrift, haccounted⟩ := ih
    obtain ⟨hnext, hlast⟩ := hstep.drift haccounted (hdrift.closed.trans ho) (hdrift.awaits hw)
    exact ⟨hdrift.trans hnext, hlast⟩

/-- What can be said when an acquirer has been refused. Connections that were created for it may
have gone to others that waited, whose calls then are at their end. If there are none, all is as it
was, but for at most one place that is reserved for the acquirer. -/
structure Harmless (n : Nat) (born : List Handle) (p q : Pool) : Prop where
  stock : q.stock = p.stock ++ born
  enlisted : ∀ t id, p.stateOf? id = some .checkedOut →
    (q.units.current t = some id ↔ p.units.current t = some id)
  idle : q.idleCount = p.idleCount + born.length
  active : q.activeCount = p.activeCount
  reserved : ∃ k ≤ 1, q.inFlight.Perm (List.replicate k ⟨some n⟩ ++ p.inFlight) ∧
    q.size.count = p.size.count + born.length + k ∧ q.pending.count = p.pending.count + k
  obtainable : ∀ id, q.stateOf? id = some .checkedIn → q.closed = false ∧ Obtainable q id
  handed : ∀ h ∈ born, ∃ a ∈ q.acquirers, a ∉ p.acquirers ∧ a.waiting = .served h.id
  alone : q.acquirers ⊆ p.acquirers → born = []

theorem Drift.inFlight (h : Drift n p q) (hp : p.booked n = 0) :
    q.inFlight.Perm (List.replicate (q.booked n) ⟨some n⟩ ++ p.inFlight) := by
  have hsplit := (List.filter_append_perm (· = (⟨some n⟩ : Creation)) q.inFlight).symm
  have hown : q.inFlight.filter (· = (⟨some n⟩ : Creation)) =
      List.replicate (q.booked n) ⟨some n⟩ := List.filter_eq ..
  have hnone : p.inFlightBeside n = p.inFlight := by
    refine List.filter_eq_self.mpr fun c hc => ?_
    have hne : c ≠ ⟨some n⟩ := fun he => List.count_eq_zero.mp hp (he ▸ hc)
    simpa using hne
  have hbeside := h.beside
  rw [hnone] at hbeside
  rw [hown] at hsplit
  refine hsplit.trans (List.Perm.append_left _ ?_)
  simpa [inFlightBeside] using hbeside

/-- Nobody holds what is yet to come. -/
theorem promised_lt (hp : p.Lineup) {a : Acquirer} (ha : a ∈ p.acquirers) {id : HandleId}
    (hw : a.waiting = .served id) : id.val < p.nextHandle := by
  refine hp.entries_lt id (List.mem_append_right _ (List.mem_filterMap.mpr ⟨a, ha, ?_⟩))
  rw [hw]
  rfl

theorem countP_stock (p : Pool) (s : State) :
    p.stock.countP (·.state = s) = p.handles.countP (·.state = s) := List.countP_map

/-- The gauges follow from what is there. -/
theorem gauges_of_stock (hp : p.Sound) (hq : q.Sound) {born : List Handle}
    (hstock : q.stock = p.stock ++ born) (hidle : ∀ h ∈ born, h.state = .checkedIn) :
    q.idleCount = p.idleCount + born.length ∧ q.activeCount = p.activeCount := by
  have htallied := tallied_of_sound (c := p.config) hp rfl
  have hcounts := tallied_of_sound (c := q.config) hq rfl
  have hall : born.countP (·.state = .checkedIn) = born.length :=
    List.countP_eq_length.mpr fun h hh => decide_eq_true (hidle h hh)
  have hnone : born.countP (·.state = .checkedOut) = 0 := by
    refine List.countP_eq_zero.mpr fun h hh => ?_
    rw [hidle h hh]
    decide
  constructor
  · rw [hcounts.idle_eq, htallied.idle_eq, ← countP_stock, ← countP_stock, hstock,
      List.countP_append, hall]
  · rw [hcounts.active_eq, htallied.active_eq, ← countP_stock, ← countP_stock, hstock,
      List.countP_append, hnone, Nat.add_zero]

/-- So do the sizes. -/
theorem sizes_of_stock (hp : p.Sound) (hq : q.Sound) {born : List Handle} {k : Nat}
    (hstock : q.stock = p.stock ++ born)
    (hperm : q.inFlight.Perm (List.replicate k ⟨some n⟩ ++ p.inFlight)) :
    q.size.count = p.size.count + born.length + k ∧ q.pending.count = p.pending.count + k := by
  have hsize := (tallied_of_sound (c := p.config) hp rfl).size_eq
  have hlater := (tallied_of_sound (c := q.config) hq rfl).size_eq
  have hpending : p.pending.count = p.inFlight.length :=
    congrArg Tally.count hp.books.counted.pending_eq
  have hlast : q.pending.count = q.inFlight.length :=
    congrArg Tally.count hq.books.counted.pending_eq
  have hflight : q.inFlight.length = k + p.inFlight.length := by
    rw [hperm.length_eq, List.length_append, List.length_replicate]
  have hhandles : q.handles.length = p.handles.length + born.length := by
    have hlen := congrArg List.length hstock
    simpa only [stock, List.length_append, List.length_map] using hlen
  constructor <;> omega

theorem Drift.harmless {us : Units} (hd : Drift n { p with units := us } q) (hp : p.Accounted)
    (hq : q.Accounted) (hnone : p.booked n = 0) (hus : p.Spares us)
    (hpromised : q.stock = p.stock ∨ q.closed = false ∧ q.handoff.toList = []) :
    ∃ born, Harmless n born p q := by
  obtain ⟨born, hborn, hfresh⟩ := hd.stock
  have hstock : q.stock = p.stock ++ born := hborn
  obtain ⟨hidle, hactive⟩ :=
    gauges_of_stock hp.settled.sound hq.settled.sound hstock fun h hh => (hfresh h hh).1
  have hperm := hd.inFlight hnone
  have hhanded : ∀ h ∈ born, ∃ a ∈ q.acquirers, a ∉ p.acquirers ∧ a.waiting = .served h.id := by
    intro h hh
    obtain ⟨hs, hle⟩ := hfresh h hh
    rcases hpromised with hsame | ⟨ho, hnil⟩
    · have hnothing : born = [] := List.append_right_eq_self.mp (hstock.symm.trans hsame)
      rw [hnothing] at hh
      exact absurd hh List.not_mem_nil
    · have hin : h ∈ q.stock := hstock ▸ List.mem_append_right _ hh
      obtain ⟨k, hk, rfl⟩ := List.mem_map.mp hin
      obtain ⟨a, ha, hw⟩ := idle_promised hq.settled.sound ho hnil hk hs
      refine ⟨a, ha, fun hold => ?_, hw⟩
      exact absurd hle (Nat.not_le.mpr (promised_lt hp.settled.sound.lineup hold hw))
  exact ⟨born, {
    stock := hstock
    enlisted := fun t id hout => by
      rw [hd.units]
      exact hus t id hout
    idle := hidle
    active := hactive
    reserved := ⟨q.booked n, hq.single n, hperm, sizes_of_stock hp.settled.sound hq.settled.sound
      hstock hperm⟩
    obtainable := fun id hs => by
      obtain ⟨h, hh, hin⟩ := idle_of_stateOf hs
      have ho : q.closed = false := Bool.eq_false_iff.mpr fun hc => hq.settled.final hc h hh hin
      exact ⟨ho, obtainable_of_idle hq.settled ho hs⟩
    handed := hhanded
    alone := fun hothers => List.eq_nil_iff_forall_not_mem.mpr fun h hh => by
      obtain ⟨a, ha, hno, -⟩ := hhanded h hh
      exact hno (hothers ha) }⟩

/-- A number that is not drawn yet is nobody's. -/
theorem awaits_next (hp : p.Lineup) : p.Awaits p.nextTaker :=
  fun a ha hid => absurd hid (Nat.ne_of_lt (hp.takers_lt a ha))

theorem Accounted.refused {t : Thread} {deadline : Nat} {f : Failure} (hp : p.Accounted)
    (h : Refused t deadline p f q) : ∃ born, Harmless p.nextTaker born p q := by
  have hnone : p.booked p.nextTaker = 0 := hp.unborn _ (Nat.le_refl _)
  have hfares := acquire_fares hp.settled.sound t deadline
  have hcalled := hp.run (.acquire t deadline)
  simp only [Operation.run] at hcalled
  cases h with
  | atOnce run =>
    rw [run] at hfares hcalled
    rcases hfares with ⟨-, -, hsame⟩ | ⟨ho, us, hus, ⟨l, hl⟩ | hrests⟩
    · have hd : Drift p.nextTaker { p with units := p.units } q := .of_muted hsame
      exact hd.harmless hp hcalled hnone (fun _ _ _ => Iff.rfl)
        (Or.inl (eq_of_muted Pool.stock (fun _ => rfl) hsame))
    · cases hl
    · have hopen : q.closed = false := hrests.closed.trans ho
      exact hrests.toDrift.harmless hp hcalled hnone hus (Or.inr ⟨hopen, hrests.emptied f rfl⟩)
  | @later n m s run apart last =>
    rw [run] at hfares hcalled
    rcases hfares with ⟨g, hg, -⟩ | ⟨ho, us, hus, ⟨l, hl⟩ | hrests⟩
    · cases hg
    · cases hl
    · obtain rfl := hrests.waits n rfl
      have hbefore : p.Awaits p.nextTaker := awaits_next hp.settled.sound.lineup
      have hm : m.Awaits p.nextTaker := hrests.toDrift.awaits hbefore
      obtain ⟨hwaited, hs⟩ := drift_of_apart apart hcalled (hrests.closed.trans ho) hm
      have hended := hs.run (.resume p.nextTaker)
      have hlast := resume_fares hs.settled.sound (hwaited.awaits hm)
      simp only [Operation.run] at hended
      rw [last] at hended hlast
      rcases hlast with ⟨l, hl⟩ | hend
      · cases hl
      · have hd := hrests.toDrift.trans (hwaited.trans hend.toDrift)
        have hopen : q.closed = false := hd.closed.trans ho
        exact hd.harmless hp hended hnone hus (Or.inr ⟨hopen, hend.emptied f rfl⟩)

/-- Whatever was done to a pool, an acquire that fails disturbs nobody. -/
theorem refused_acquire_only_reserves {c : Config} {f : Factory} {ls : List Listener} {us : Units}
    (hb : build c f ls us = .ok (some p)) (ops : List Operation) {t : Thread} {deadline : Nat}
    {e : Failure}
    (h : Refused t deadline (p.after ops) e q) :
    ∃ born, Harmless (p.after ops).nextTaker born (p.after ops) q :=
  ((accounted_of_build hb).1.after ops).refused h

/-- While a connection is lent a second one cannot be created, and the caller who asked hears of
it. -/
theorem refused_acquire_beside_borrower :
    ∃ p ops q, build {} { creating := fun n => if n = 1 then .works else .fails "refused" } [] {} =
        .ok (some p) ∧
      (p.after ops).activeCount = 1 ∧
        Refused .background 9 (p.after ops) (.creation p.name "refused") q ∧
      q.activeCount = 1 ∧ q.acquirers ⊆ (p.after ops).acquirers ∧
      ∃ born, Harmless (p.after ops).nextTaker born (p.after ops) q := by
  refine ⟨_, [.create, .acquire .background 0], _, rfl, rfl,
    .later rfl (.single (.create (i := 0) rfl)) rfl, rfl, List.Subset.refl _, ?_⟩
  exact @refused_acquire_only_reserves _ _ {}
    { creating := fun n => if n = 1 then .works else .fails "refused" }
    [] {} rfl [.create, .acquire .background 0] .background 9 _
    (.later rfl (.single (.create (i := 0) rfl)) rfl)

end ConnPool.Pool
