import ConnPool.Proofs.Outline
import ConnPool.Proofs.Reach

namespace ConnPool.Pool

/-- A call was granted a lease of this handle. -/
def Grants (r : Reply × Pool) (id : HandleId) : Prop :=
  ∃ l ∈ r.2.leases, l.handle = id ∧ r.1 = .granted l.number

/-- One who calls to acquire, and the units of work that there are then. -/
structure Caller where
  units : Units
  thread : Thread
  deadline : Nat

/-- No unit of work has a handle for the caller. -/
def Caller.Free (c : Caller) : Prop := c.units.current c.thread = none

def Caller.ask (c : Caller) (p : Pool) : Reply × Pool :=
  (acquire c.thread c.deadline).run { p with units := c.units }

/-- One of these callers gets the handle, if they call one after the other. -/
def Reaches (id : HandleId) : Pool → List Caller → Prop
  | _, [] => False
  | p, c :: cs => Grants (c.ask p) id ∨ Reaches id (c.ask p).2 cs

/-- He to whom the handle was promised gets it when he goes on, or as many callers as there are idle
handles cannot miss it. -/
def Obtainable (p : Pool) (id : HandleId) : Prop :=
  (∃ a ∈ p.acquirers, a.waiting = .served id ∧ Grants ((resume a.taker.id).run p) id) ∨
    ∀ cs : List Caller, (∀ c ∈ cs, c.Free) → p.idleCount ≤ cs.length → Reaches id p cs

variable {p q : Pool} {id : HandleId}

theorem promised_grants (hp : p.Settled) {a : Acquirer} (ha : a ∈ p.acquirers)
    (hw : a.waiting = .served id) (hs : p.stateOf? id = some .checkedIn) :
    Grants ((resume a.taker.id).run p) id := by
  obtain ⟨n, q, l, hrun, hl, hid⟩ := served_granted hp ha hw hs
  obtain ⟨hmem, hnumber⟩ := lease_mem hl
  rw [hrun]
  exact ⟨l, hmem, hid, hnumber ▸ rfl⟩

/-- A call that is granted a lease leaves all handles but one as they are. -/
structure Granted (p : Pool) (k : HandleId) (r : Reply × Pool) : Prop where
  grants : Grants r k
  settled : r.2.Settled
  isOpen : r.2.closed = false
  idle : r.2.idleCount + 1 = p.idleCount
  others : ∀ j, j ≠ k → r.2.stateOf? j = p.stateOf? j
  acquirers : r.2.acquirers.Sublist p.acquirers

/-- A claimed handle and those beside it. -/
theorem Claim.others {who : Option Nat} {m : Pool} (h : Claim who m id q) (hm : m.Sound)
    (t : Thread)
    (started : Nat) (c : Connection) {k : HandleId} (hk : k ≠ id) :
    (q.handOver t started id c).stateOf? k = m.stateOf? k := by
  obtain ⟨x, hx, rfl⟩ := h.claimed hm
  rw [handOver_stateOf, restate_stateOf_of_ne hk, stateOf_of_ledger hx.ledger]

theorem idleCount_pos (hp : p.Sound) (hs : p.stateOf? id = some .checkedIn) : 0 < p.idleCount := by
  obtain ⟨h, hf, hidle⟩ := find_of_stateOf hs
  obtain ⟨n, hn⟩ := gauges_of_idle hp (mem_of_find hf).1 hidle
  have hcount : p.idleCount = n + 1 := congrArg (fun g : Gauges => g.checkedIn.count) hn
  omega

/-- He who was lent a handle leaves with it. -/
theorem granted_of_lent {k : HandleId} {l : Lease} {x : Pool} {n : Nat} (hq : q.Settled)
    (hleft : q.muted = (x.leave n).muted) (hl : l ∈ x.leases) (hid : l.handle = k)
    (hx : x.closed = false) (hpos : 0 < p.idleCount)
    (hgauges : x.gauges = p.gauges.moved .checkedIn .checkedOut)
    (hothers : ∀ j, j ≠ k → x.stateOf? j = p.stateOf? j)
    (hacquirers : x.acquirers.Sublist p.acquirers) : Granted p k (.granted l.number, q) := by
  have hend : ∀ {β : Type} (f : Pool → β), (∀ r : Pool, f r.muted = f r) → f q = f (x.leave n) :=
    fun f hf => eq_of_muted f hf hleft
  have hleases : q.leases = x.leases := hend Pool.leases fun _ => rfl
  have hcounted : q.gauges = x.gauges := hend Pool.gauges fun _ => rfl
  have hwaiting : q.acquirers = x.acquirers.filter (·.taker.id ≠ n) :=
    hend Pool.acquirers fun _ => rfl
  refine ⟨⟨l, hleases ▸ hl, hid, rfl⟩, hq, ?_, ?_, fun j hj => ?_, ?_⟩
  · exact (hend Pool.closed fun _ => rfl).trans hx
  · have hdown := Gauges.idle_moved_out p.gauges
    simp only [idleCount] at hpos ⊢
    rw [hcounted, hgauges]
    omega
  · exact (hend (fun r : Pool => r.stateOf? j) fun _ => rfl).trans (hothers j hj)
  · rw [hwaiting]
    exact List.filter_sublist.trans hacquirers

/-- While something is idle that was promised to nobody, nobody asks in vain. -/
theorem acquire_granted (hp : p.Settled) (ho : p.closed = false) {t : Thread}
    (hu : p.units.current t = none) (deadline : Nat) (hs : p.stateOf? id = some .checkedIn)
    (hnone : ∀ a ∈ p.acquirers, a.waiting ≠ .served id) :
    ∃ k, Granted p k ((acquire t deadline).run p) := by
  have hdraw : Step none p { p with nextTaker := p.nextTaker + 1 } := .draw
  have hsteps : Steps none p { p.notify .beforeAcquire with nextTaker := p.nextTaker + 1 } :=
    hdraw.steps.hush rfl
  have hready := hp.steps hsteps
  have hdone : ((acquire t deadline).run p).2.Settled := hp.run (.acquire t deadline)
  rw [acquire_turn ho hu] at hdone ⊢
  rcases search_claims none hready.sound t p.clock p.handles.length with
    ⟨m, hsearch, hl, hnil⟩ | ⟨k, m, q, c, hsearch, hl, hclaim, hlend⟩
  · obtain ⟨h, hf, hidle⟩ := find_of_stateOf hs
    obtain ⟨hh, rfl⟩ := mem_of_find hf
    obtain ⟨a, ha, hw⟩ := hl.promised hready.sound ho hnil hh hidle
    exact absurd hw (hnone a ha)
  · have hm := hl.steps.sound hready.sound
    have hlent := hlend.lent hm (hl.steps.final hready.sound hready.final)
    obtain ⟨r, hrun, hr⟩ := turn_found (a := p.newcomer t p.clock deadline) hsearch
    obtain ⟨l, hin, hnumber, hid⟩ : ∃ l ∈ (q.handOver t p.clock k c).leases,
        l.number = q.nextLease ∧ l.handle = k := handOver_lease t p.clock c
    have hgauges : m.gauges = p.gauges := congrArg Ledger.gauges hl.ledger
    have hopen : m.closed = false := (congrArg Pool.closed hl.same).trans ho
    have hacquirers := hlent.acquirers
    rw [hl.acquirers] at hacquirers
    rw [hrun, ← hnumber] at hdone ⊢
    refine ⟨k, granted_of_lent hdone hr hin hid (hlent.closed.trans hopen)
      (idleCount_pos hp.sound hs) ?_ (fun j hj => ?_) hacquirers⟩
    · rw [hlent.gauges, hgauges]
    · exact (hclaim.others hm t p.clock c hj).trans (stateOf_of_ledger hl.ledger j)

theorem ask_granted (hp : p.Settled) (ho : p.closed = false) {c : Caller} (hfree : c.Free)
    (hs : p.stateOf? id = some .checkedIn) (hnone : ∀ a ∈ p.acquirers, a.waiting ≠ .served id) :
    ∃ k, Granted p k (c.ask p) := by
  have hready : Settled { p with units := c.units } := hp.run (.regroup c.units)
  obtain ⟨k, hk⟩ := acquire_granted hready ho hfree c.deadline hs hnone
  exact ⟨k, hk.grants, hk.settled, hk.isOpen, hk.idle, hk.others, hk.acquirers⟩

/-- Each caller gets something, so that the callers run through all that is idle. -/
theorem reaches_unpromised (hp : p.Settled) (ho : p.closed = false)
    (hs : p.stateOf? id = some .checkedIn) (hnone : ∀ a ∈ p.acquirers, a.waiting ≠ .served id)
    {cs : List Caller} (hfree : ∀ c ∈ cs, c.Free) (hlen : p.idleCount ≤ cs.length) :
    Reaches id p cs := by
  induction cs generalizing p with
  | nil => exact absurd (idleCount_pos hp.sound hs) (Nat.not_lt.mpr hlen)
  | cons c cs ih =>
    obtain ⟨k, hk⟩ := ask_granted hp ho (hfree c List.mem_cons_self) hs hnone
    by_cases hid : id = k
    · exact Or.inl (hid ▸ hk.grants)
    · have hidle := hk.idle
      rw [List.length_cons] at hlen
      refine Or.inr (ih hk.settled hk.isOpen ((hk.others id hid).trans hs) (fun a ha => ?_)
        (fun d hd => hfree d (List.mem_cons_of_mem _ hd)) (by omega))
      exact hnone a (hk.acquirers.subset ha)

/-- Every idle handle of an open pool can be had. -/
theorem obtainable_of_idle (hp : p.Settled) (ho : p.closed = false)
    (hs : p.stateOf? id = some .checkedIn) : Obtainable p id := by
  by_cases hpromised : ∃ a ∈ p.acquirers, a.waiting = .served id
  · obtain ⟨a, ha, hw⟩ := hpromised
    exact Or.inl ⟨a, ha, hw, promised_grants hp ha hw hs⟩
  · refine Or.inr fun cs hfree hlen => reaches_unpromised hp ho hs (fun a ha hw => ?_) hfree hlen
    exact hpromised ⟨a, ha, hw⟩

end ConnPool.Pool
