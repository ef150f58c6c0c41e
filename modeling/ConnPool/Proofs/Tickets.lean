import ConnPool.Proofs.UnitOperations
import ConnPool.Proofs.CreationWarnings

namespace ConnPool.Pool

/-- Nobody is warned and no creation is touched, but some who waited may be gone. -/
structure Thins (p q : Pool) : Prop where
  warned : ∀ label, q.warned label = p.warned label
  booked : ∀ n, q.booked n = p.booked n
  tickets : q.tickets ⊆ p.tickets
  nextTaker : q.nextTaker = p.nextTaker
  config : q.config = p.config
  closed : p.closed = true → q.closed = true

/-- Nobody is warned, and only on behalf of one acquirer a creation may have been scheduled. -/
structure Books (n : Nat) (p q : Pool) : Prop where
  warned : ∀ label, q.warned label = p.warned label
  others : ∀ k, k ≠ n → q.booked k = p.booked k
  single : q.booked n ≤ 1
  kept : ∀ x ∈ q.tickets, x.1 ≠ n → x ∈ p.tickets
  nextTaker : q.nextTaker = p.nextTaker
  closed : p.closed = true → q.closed = true

/-- How it ends when the acquirer with this number and this ticket has its turn. -/
structure Tends (n : Nat) (ticket : Option Ticket) (p : Pool) (r : Reply × Pool) : Prop extends
    Books n p r.2 where
  own : ∀ x ∈ r.2.tickets, x.1 = n →
    (x.2 = some .inFlight ↔ r.2.booked n = 1) ∧ ∀ e, x.2 ≠ some (.settled e)
  gone : ∀ f, r.1 = .refused f → ∀ x ∈ r.2.tickets, x.1 ≠ n
  blamed : ∀ pool e, r.1 = .refused (.creation pool e) →
    pool = p.name ∧ p.closed = false ∧ ticket = some (.settled (some e))
  spent : ∀ e, ticket = some (.settled (some e)) →
    r.2.booked n = p.booked n ∧ ∀ x ∈ r.2.tickets, x.1 ≠ n

/-- A creation has ended, and the acquirer that it was scheduled for, if it still waits, knows
how. -/
structure Settles (c : Creation) (e : Option String) (p q : Pool) : Prop where
  booked : ∀ n, q.booked n + (if c = ⟨some n⟩ then 1 else 0) = p.booked n
  tickets : q.tickets = p.tickets.map fun x =>
    if c = ⟨some x.1⟩ ∧ x.2 = some .inFlight then (x.1, some (.settled e)) else x
  nextTaker : q.nextTaker = p.nextTaker
  closed : q.closed = p.closed

/-- The creation that is next to end is this one, and it fails with this error. -/
structure Fails (p : Pool) (c : Creation) (e : String) : Prop where
  first : ∃ cs, p.inFlight = c :: cs
  failed : p.factory.create (p.attempts + 1) = .error e

variable {p q m : Pool} {a : Acquirer} {n : Nat} {k : Option Ticket} {r : Reply × Pool}

theorem Discreet.thins (h : Discreet p q) : Thins p q :=
  ⟨h.warned, h.booked, fun _ hx => h.tickets ▸ hx, h.nextTaker, h.config, h.closed⟩

theorem Thins.trans (h : Thins p m) (k : Thins m q) : Thins p q :=
  ⟨fun l => (k.warned l).trans (h.warned l), fun i => (k.booked i).trans (h.booked i),
    List.Subset.trans k.tickets h.tickets, k.nextTaker.trans h.nextTaker, k.config.trans h.config,
    fun hc => k.closed (h.closed hc)⟩

theorem leave_thins (p : Pool) (n : Nat) : Thins p (p.leave n) :=
  ⟨fun _ => rfl, fun _ => rfl, (List.filter_sublist.map _).subset, rfl, rfl, fun h => h⟩

theorem leave_absent (p : Pool) (n : Nat) : ∀ x ∈ (p.leave n).tickets, x.1 ≠ n := by
  intro x hx
  obtain ⟨b, hb, rfl⟩ := List.mem_map.mp hx
  simpa using (List.mem_filter.mp hb).2

theorem Thins.books (h : Thins p q) (hle : p.booked n ≤ 1) : Books n p q :=
  ⟨h.warned, fun i _ => h.booked i, (h.booked n).trans_le hle,
    fun _ hx _ => h.tickets hx, h.nextTaker, h.closed⟩

theorem Books.thins (h : Books n p m) (k : Thins m q) : Books n p q :=
  ⟨fun l => (k.warned l).trans (h.warned l), fun i hi => (k.booked i).trans (h.others i hi),
    (k.booked n).trans_le h.single, fun x hx hne => h.kept x (k.tickets hx) hne,
    k.nextTaker.trans h.nextTaker, fun hc => k.closed (h.closed hc)⟩

theorem Tends.after (h : Thins p m) (t : Tends n k m r) : Tends n k p r where
  warned l := (t.warned l).trans (h.warned l)
  others i hi := (t.others i hi).trans (h.booked i)
  single := t.single
  kept x hx hne := h.tickets (t.kept x hx hne)
  nextTaker := t.nextTaker.trans h.nextTaker
  closed hc := t.closed (h.closed hc)
  own := t.own
  gone := t.gone
  blamed pool e he := by
    obtain ⟨hpool, hopen, hticket⟩ := t.blamed pool e he
    have hname : m.name = p.name := congrArg Config.name h.config
    refine ⟨hpool.trans hname, Bool.eq_false_iff.mpr fun hc => ?_, hticket⟩
    exact Bool.false_ne_true (hopen.symm.trans (h.closed hc))
  spent e he := by
    obtain ⟨hbooked, hgone⟩ := t.spent e he
    exact ⟨hbooked.trans (h.booked n), hgone⟩

/-- He who has gone holds no ticket. -/
theorem Books.gone {e : Reply} (h : Books n p q) (hgone : ∀ x ∈ q.tickets, x.1 ≠ n)
    (hspent : ∀ s, k = some (.settled (some s)) → q.booked n = p.booked n)
    (hblamed : ∀ pool s, e = .refused (.creation pool s) →
      pool = p.name ∧ p.closed = false ∧ k = some (.settled (some s))) : Tends n k p (e, q) :=
  { h with
    own := fun x hx he => absurd he (hgone x hx)
    gone := fun _ _ => hgone
    blamed := hblamed
    spent := fun s hs => ⟨hspent s hs, hgone⟩ }

theorem conclude_thins (p : Pool) (e : Except Failure Nat) : Thins p ((conclude e).run p).2 :=
  Discreet.thins ((conclude_keeps e).always p)

theorem conclude_absent {e : Except Failure Nat} (h : ∀ x ∈ p.tickets, x.1 ≠ n) :
    ∀ x ∈ ((conclude e).run p).2.tickets, x.1 ≠ n := by
  rw [Discreet.tickets ((conclude_keeps e).always p)]
  exact h

/-- A growing acquirer's ticket says whether a creation is in flight for it. -/
theorem grow_books (a : Acquirer) (p : Pool)
    (hfit : a.ticket = some .inFlight ↔ p.booked a.taker.id = 1) (hle : p.booked a.taker.id ≤ 1) :
    Books a.taker.id p (grow a p).2 ∧
      ((grow a p).1.ticket = some .inFlight ↔ (grow a p).2.booked a.taker.id = 1) ∧
        ∀ e, (grow a p).1.ticket ≠ some (.settled e) := by
  have hsame : Books a.taker.id p p := (Discreet.refl p).thins.books hle
  simp only [grow]
  split
  · next hticket =>
      exact ⟨hsame, hfit, fun e he => Ticket.noConfusion (Option.some.inj (hticket.symm.trans he))⟩
  · next hnone =>
    have hzero : p.booked a.taker.id = 0 := by
      have hne : p.booked a.taker.id ≠ 1 := fun hone => hnone (hfit.mpr hone)
      omega
    split
    · have hbooked : ∀ i, (p.schedule (some a.taker.id)).booked i =
          p.booked i + if a.taker.id = i then 1 else 0 := by
        intro i
        simp [booked, schedule, List.count_singleton]
      refine ⟨⟨fun _ => rfl, fun i hi => ?_, ?_, fun _ hx _ => hx, rfl, fun h => h⟩, ?_,
        fun e he => by cases he⟩
      · rw [hbooked, if_neg hi.symm, Nat.add_zero]
      · rw [hbooked, if_pos rfl, hzero]
      · rw [hbooked, if_pos rfl, hzero]
        exact iff_of_true rfl rfl
    · refine ⟨hsame, iff_of_false (fun he => by cases he) fun hone => ?_, fun e he => by cases he⟩
      rw [hzero] at hone
      exact Nat.zero_ne_one hone

/-- Who parks keeps its ticket, and the others keep theirs. -/
theorem park_tickets (a : Acquirer) (p : Pool) :
    ∀ x ∈ (p.park a).tickets, x = (a.taker.id, a.ticket) ∨ x.1 ≠ a.taker.id ∧ x ∈ p.tickets := by
  intro x hx
  obtain ⟨b, hb, rfl⟩ := List.mem_map.mp hx
  rcases park_acquirers (p := p) a with hlist | ⟨hnew, c, htaker, hticket, hlist⟩
  · rw [hlist] at hb
    obtain ⟨y, hy, rfl⟩ := List.mem_map.mp hb
    split
    · exact Or.inl rfl
    · next hne => exact Or.inr ⟨hne, List.mem_map_of_mem hy⟩
  · rw [hlist] at hb
    rcases List.mem_append.mp hb with hb | hb
    · exact Or.inr ⟨hnew b hb, List.mem_map_of_mem hb⟩
    · rw [List.mem_singleton.mp hb, htaker, hticket]
      exact Or.inl rfl

theorem park_desk (a : Acquirer) (p : Pool) :
    (p.park a).journal = p.journal ∧ (p.park a).inFlight = p.inFlight ∧
      (p.park a).nextTaker = p.nextTaker ∧ (p.park a).closed = p.closed := by
  simp only [park]
  split
  · exact ⟨rfl, rfl, rfl, rfl⟩
  · split <;> exact ⟨rfl, rfl, rfl, rfl⟩

theorem park_tends {e : Reply} {b : Acquirer} (h : Books n p m) (hn : b.taker.id = n)
    (hfit : b.ticket = some .inFlight ↔ m.booked n = 1) (hnew : ∀ e, b.ticket ≠ some (.settled e))
    (hwaits : ∀ f, e ≠ .refused f) (hunspent : ∀ s, k ≠ some (.settled (some s))) :
    Tends n k p (e, m.park b) := by
  subst hn
  obtain ⟨hj, hi, hnext, hclosed⟩ := park_desk b m
  have hbooked : ∀ i, (m.park b).booked i = m.booked i := fun i => by simp only [booked, hi]
  refine ⟨⟨fun l => ?_, fun i hne => ?_, ?_, fun x hx hne => ?_, ?_, fun hc => ?_⟩,
    fun x hx hid => ?_,
    fun f he => absurd he (hwaits f), fun pool s he => absurd he (hwaits _),
    fun s hs => absurd hs (hunspent s)⟩
  · rw [← h.warned l]
    simp only [Pool.warned, heard, hj]
  · exact (hbooked i).trans (h.others i hne)
  · exact (hbooked _).trans_le h.single
  · rcases park_tickets b m x hx with rfl | ⟨-, hin⟩
    · exact absurd rfl hne
    · exact h.kept x hin hne
  · exact hnext.trans h.nextTaker
  · exact hclosed.trans (h.closed hc)
  · rcases park_tickets b m x hx with rfl | ⟨hne, -⟩
    · rw [hbooked]
      exact ⟨hfit, hnew⟩
    · exact absurd hid hne

/-- Who is refused goes without a ticket. -/
theorem refuse_tends (h : Books n p q) (hgone : ∀ x ∈ q.tickets, x.1 ≠ n) {f : Failure}
    (hspent : ∀ s, k = some (.settled (some s)) → q.booked n = p.booked n)
    (hblamed : ∀ pool e, f = .creation pool e →
      pool = p.name ∧ p.closed = false ∧ k = some (.settled (some e))) :
    Tends n k p ((conclude (.error f)).run q) := by
  have hends := h.thins (conclude_thins q (.error f))
  rw [conclude_refused] at hends ⊢
  refine hends.gone (fun x hx => ?_) hspent fun pool e he => hblamed pool e (Reply.refused.inj he)
  have hsame := (notify_discreet q (h := .afterAcquire (.error f)) rfl).tickets
  exact hgone x (hsame ▸ hx)

/-- Who lingers hears of its own creation's failure, or sees to it that one creation is under
way. -/
theorem linger_tends (a : Acquirer) (p : Pool)
    (hfit : a.ticket = some .inFlight ↔ p.booked a.taker.id = 1) (hle : p.booked a.taker.id ≤ 1) :
    Tends a.taker.id a.ticket p ((linger a).run p) := by
  have hlingers := linger_cases a p
  obtain ⟨hbooks, hgrown, hnew⟩ := grow_books a p hfit hle
  generalize (linger a).run p = r at hlingers ⊢
  cases hlingers with
  | told ticket =>
    refine refuse_tends ((leave_thins p _).books hle) (leave_absent p _) (fun _ _ => rfl)
      fun pool s hs => ?_
    split at hs
    · cases hs
    · next hopen =>
      cases hs
      exact ⟨rfl, Bool.eq_false_iff.mpr hopen, ticket⟩
  | @late b q untold grown past =>
    rw [grown] at hbooks
    have hleft := hbooks.thins (leave_thins q a.taker.id)
    have hlate := MaintenanceRule.timedOut (R := Discreet) Act.Always b (q.leave a.taker.id)
    refine refuse_tends (hleft.thins hlate.thins) (fun x hx => ?_)
      (fun s hs => absurd hs (untold s))
      fun pool e he => by cases he
    exact leave_absent q a.taker.id x (hlate.tickets ▸ hx)
  | @away b q untold grown early shut =>
    rw [grown] at hbooks
    exact refuse_tends (hbooks.thins (leave_thins q a.taker.id)) (leave_absent q _)
      (fun s hs => absurd hs (untold s)) fun pool e he => by cases he
  | @parks b q untold grown early isOpen =>
    rw [grown] at hbooks hgrown hnew
    have htaker : b.taker.id = a.taker.id := congrArg Taker.id (grow_clock grown).1
    exact park_tends hbooks htaker hgrown hnew (fun f hf => by cases hf) untold

theorem grant_tends (h : Thins p q) (hle : p.booked n ≤ 1) (hgone : ∀ x ∈ q.tickets, x.1 ≠ n)
    (l : Nat) :
    Tends n k p ((conclude (.ok l)).run q) := by
  have hends := h.trans (conclude_thins q (.ok l))
  have habsent := conclude_absent (e := .ok l) hgone
  obtain ⟨r, hrun, -⟩ := conclude_granted (p := q) l
  rw [hrun] at hends habsent ⊢
  exact (hends.books hle).gone habsent (fun _ _ => hends.booked n) fun pool e he => by cases he

theorem turn_tends (a : Acquirer) (p : Pool)
    (hfit : a.ticket = some .inFlight ↔ p.booked a.taker.id = 1) (hle : p.booked a.taker.id ≤ 1) :
    Tends a.taker.id a.ticket p ((turn a).run p) := by
  have hsearch :=
    (search_keeps (R := Discreet) (t := a.taker.thread) a.started (p.handles.length + 1)).always p
  simp only [turn, Act.run_bind, Act.run_read]
  generalize (search a.taker.thread a.started (p.handles.length + 1)).run p = r at hsearch ⊢
  obtain ⟨_ | lease, m⟩ := r
  · have hbooked := hsearch.booked a.taker.id
    refine Tends.after hsearch.thins (linger_tends a m ?_ (hbooked.trans_le hle))
    rw [hbooked]
    exact hfit
  · simp only [Act.run_bind, Act.run_update]
    have hleft := hsearch.thins.trans (leave_thins m a.taker.id)
    exact grant_tends hleft hle (leave_absent m _) lease

/-- An acquirer that goes on: away, with a connection, or for another turn. -/
theorem resume_tends (hp : p.Sound) (ha : a ∈ p.acquirers)
    (hfit : a.ticket = some .inFlight ↔ p.booked a.taker.id = 1) (hle : p.booked a.taker.id ≤ 1) :
    Tends a.taker.id a.ticket p ((resume a.taker.id).run p) := by
  have hgoes := resume_goes hp ha
  have hleft := leave_thins p a.taker.id
  generalize (resume a.taker.id).run p = r at hgoes ⊢
  cases hgoes with
  | away dismissed =>
    exact refuse_tends (hleft.books hle) (leave_absent p _) (fun _ _ => rfl)
      fun pool e he => by cases he
  | @lent h q c served claim lend =>
    have hclaim := DeskRule.claim (R := Discreet) (p.leave a.taker.id) h
    rw [claim] at hclaim
    have hgiven := hclaim.trans (DeskRule.handOver q a.taker.thread a.started h c)
    exact grant_tends (hleft.trans hgiven.thins) hle
      (fun x hx => leave_absent p a.taker.id x (hgiven.tickets ▸ hx)) q.nextLease
  | @turn q steps present unheard stale missed =>
    have hready : Thins p q := by
      rcases missed with rfl | ⟨h, rfl⟩
      · exact (Discreet.refl q).thins
      · have hmarked : Discreet (p.leave a.taker.id) ((p.leave a.taker.id).unqueue h) :=
          .of_desk rfl rfl
        exact hleft.trans hmarked.thins
    have hbooked := hready.booked a.taker.id
    refine Tends.after hready (turn_tends { a with waiting := .parked } q ?_ (hbooked.trans_le hle))
    rw [hbooked]
    exact hfit

/-- A call to acquire is answered at once without a creation, or it draws a number and has a
turn. -/
theorem acquire_tends (p : Pool) (t : Thread) (deadline : Nat) (hnone : p.booked p.nextTaker = 0) :
    (Discreet p ((acquire t deadline).run p).2 ∧
      ∀ pool e, ((acquire t deadline).run p).1 ≠ .refused (.creation pool e)) ∨
    ∃ m, Discreet p m ∧
      Tends p.nextTaker none { m with nextTaker := m.nextTaker + 1 }
      ((acquire t deadline).run p) := by
  have hheard : Discreet p (p.notify .beforeAcquire) := notify_discreet p rfl
  cases hc : p.closed with
  | true =>
    rw [acquire_closed hc]
    refine Or.inl ⟨hheard.trans (notify_discreet _ rfl), fun pool e he => ?_⟩
    cases he
  | false =>
    have hreuse := hheard.trans ((reuse_keeps t).always (p.notify .beforeAcquire))
    rw [acquire_open hc]
    rcases reuse_cases (p.notify .beforeAcquire) t with ⟨l, m, hrun⟩ | ⟨id, hrun⟩ | ⟨us, -, hrun⟩
    · rw [hrun] at hreuse ⊢
      refine Or.inl ⟨hreuse.trans ((conclude_keeps _).always m), fun pool e he => ?_⟩
      obtain ⟨q, hgranted, -⟩ := conclude_granted (p := m) l
      cases (congrArg Prod.fst hgranted).symm.trans he
    · rw [hrun] at hreuse ⊢
      refine Or.inl ⟨hreuse.trans ((conclude_keeps _).always _), fun pool e he => ?_⟩
      have hreply := congrArg Prod.fst (conclude_refused (p := p.notify .beforeAcquire)
        (.handleBusy (p.notify .beforeAcquire).name id))
      cases hreply.symm.trans he
    · rw [hrun] at hreuse ⊢
      refine Or.inr ⟨_, hreuse, turn_tends (newcomer _ t p.clock deadline) _ ?_ ?_⟩
      · refine iff_of_false (fun he => by cases he) fun hone => ?_
        exact Nat.zero_ne_one (hnone.symm.trans hone)
      · exact hnone.trans_le (Nat.zero_le 1)

/-- The tickets once the outcome of a creation is told. -/
theorem tell_tickets (p : Pool) (c : Creation) (e : Option String) :
    (c.acquirer.elim p (p.tellAcquirer · e)).tickets = p.tickets.map fun x =>
      if c = ⟨some x.1⟩ ∧ x.2 = some .inFlight then (x.1, some (.settled e)) else x := by
  obtain ⟨_ | n⟩ := c
  · simp [tickets]
  · simp only [Option.elim, tickets, tellAcquirer, List.map_map, Creation.mk.injEq,
      Option.some.injEq]
    refine List.map_congr_left fun b _ => ?_
    simp only [Function.comp, eq_comm]
    split <;> rfl

/-- The creation that is first in flight has ended. -/
theorem conclude_settles {c : Creation} {cs : List Creation} (first : p.inFlight = c :: cs)
    (e : Option String) : Settles c e p (p.concludeCreation c e) := by
  have hflight : (p.concludeCreation c e).inFlight = cs := by
    simp only [concludeCreation, endCreation]
    cases c.acquirer <;> simp [tellAcquirer, first]
  refine ⟨fun n => ?_, tell_tickets p c e, ?_, ?_⟩
  · simp only [booked, hflight, first, List.count_cons, beq_iff_eq]
  · simp only [concludeCreation]
    cases c.acquirer <;> rfl
  · simp only [concludeCreation]
    cases c.acquirer <;> rfl

/-- A creation that had not begun is dropped. -/
theorem abandon_settles {c : Creation} {i : Nat} (hc : p.closed = true)
    (hi : p.inFlight[i]? = some c) :
    Settles c (some p.closedFailure.message) p (p.abandon i) := by
  obtain ⟨hlt, hget⟩ := List.getElem?_eq_some_iff.mp hi
  have hperm := List.getElem_cons_eraseIdx_perm hlt
  rw [hget] at hperm
  generalize hm : { p with
    size := p.size.down, pending := p.pending.down, inFlight := p.inFlight.eraseIdx i } = m
  have hrun : p.abandon i = c.acquirer.elim m
      (m.tellAcquirer · (some p.closedFailure.message)) := by
    simp only [← hm, abandon, hc, hi]
    rfl
  have htickets := tell_tickets m c (some p.closedFailure.message)
  rw [hrun]
  refine ⟨fun n => ?_, ?_, ?_, ?_⟩
  · have hcount := hperm.count_eq (⟨some n⟩ : Creation)
    have hflight : (c.acquirer.elim m (m.tellAcquirer · (some p.closedFailure.message))).inFlight =
        p.inFlight.eraseIdx i := by
      cases c.acquirer <;> exact hm ▸ rfl
    simp only [booked, hflight, ← hcount, List.count_cons, beq_iff_eq]
  · exact htickets.trans (hm ▸ rfl)
  · cases c.acquirer <;> exact hm ▸ rfl
  · cases c.acquirer <;> exact hm ▸ rfl

theorem Settles.of_muted {c : Creation} {e : Option String} (h : Settles c e p m)
    (same : q.muted = m.muted) : Settles c e p q := by
  have hbooked : ∀ n, q.booked n = m.booked n :=
    fun n => eq_of_muted (fun r : Pool => r.booked n) (fun _ => rfl) same
  have htickets : q.tickets = m.tickets :=
    eq_of_muted (fun r : Pool => r.tickets) (fun _ => rfl) same
  have hnext : q.nextTaker = m.nextTaker := eq_of_muted Pool.nextTaker (fun _ => rfl) same
  have hclosed : q.closed = m.closed := eq_of_muted Pool.closed (fun _ => rfl) same
  refine ⟨fun n => ?_, htickets.trans h.tickets, hnext.trans h.nextTaker, hclosed.trans h.closed⟩
  rw [hbooked]
  exact h.booked n

/-- What comes before a creation's end may change anything else. -/
theorem Settles.after {c : Creation} {e : Option String} (hb : ∀ n, m.booked n = p.booked n)
    (ht : m.tickets = p.tickets) (hn : m.nextTaker = p.nextTaker) (hc : m.closed = p.closed)
    (h : Settles c e m q) : Settles c e p q :=
  ⟨fun n => (h.booked n).trans (hb n), h.tickets.trans (congrArg _ ht), h.nextTaker.trans hn,
    h.closed.trans hc⟩

theorem available_tickets (p : Pool) (t : Thread) (id : HandleId) :
    (p.available t id).tickets = p.tickets ∧ (p.available t id).nextTaker = p.nextTaker := by
  simp only [available]
  split
  · exact ⟨rfl, rfl⟩
  · have hoffered :=
      DeskRule.offer (R := Discreet) (p.modifyHandle id fun h => { h with queued := true }) t id
    exact ⟨hoffered.tickets, hoffered.nextTaker⟩

theorem miscarry_settles {c : Creation} {cs : List Creation} (first : p.inFlight = c :: cs)
    (e : String) :
    Settles c (some e) p (p.miscarry c e) :=
  .after (m := p.tried.forgo) (fun _ => rfl) rfl rfl rfl
    (conclude_settles (p := p.tried.forgo) first (some e))

theorem birth_settles {c : Creation} {cs : List Creation} (first : p.inFlight = c :: cs)
    (x : Connection) :
    Settles c none p (p.birth c x) := by
  simp only [birth]
  split
  · exact .after (m := p.tried.stillbear x) (fun _ => rfl) rfl rfl rfl
      (conclude_settles (p := p.tried.stillbear x) first none)
  · have hflight : (p.tried.bear x).inFlight = c :: cs := (inFlight_available _ _ _).trans first
    obtain ⟨htickets, hnext⟩ := available_tickets (p.tried.arrival x) .background ⟨p.nextHandle⟩
    have hclosed := closed_available (p := p.tried.arrival x) .background ⟨p.nextHandle⟩
    have hbooked : ∀ n, (p.tried.bear x).booked n = p.booked n := fun n => by
      simp only [booked, hflight, first]
    exact .after hbooked htickets hnext hclosed (conclude_settles hflight none)

/-- A creation that is let through fails, or its acquirer has nothing to hear. -/
theorem create_settles (hp : p.Sound) :
    (p.inFlight = [] ∧ (create.run p).2 = p) ∨
      ∃ c e, Settles c e p (create.run p).2 ∧ ∀ s, e = some s → p.Fails c s := by
  have hlet := create_letThrough hp
  generalize (create.run p).2 = q at hlet ⊢
  cases hlet with
  | idle empty => exact Or.inl ⟨empty, rfl⟩
  | @miscarried c cs e _ first failed same =>
    refine Or.inr ⟨c, some e, (miscarry_settles first e).of_muted same, ?_⟩
    rintro s ⟨rfl⟩
    exact ⟨⟨cs, first⟩, failed⟩
  | @born c cs x _ first made same =>
    exact Or.inr ⟨c, none, (birth_settles first x).of_muted same, nofun⟩

/-- A creation that is bound to fail does so when it is let through. -/
theorem Fails.miscarries {c : Creation} {e : String} (h : p.Fails c e) (hp : p.Sound) :
    (create.run p).2.muted = (p.miscarry c e).muted := by
  obtain ⟨cs, hfirst⟩ := h.first
  have hlet := create_letThrough hp
  generalize (create.run p).2 = q at hlet ⊢
  cases hlet with
  | idle empty => cases hfirst.symm.trans empty
  | miscarried first failed same =>
    cases hfirst.symm.trans first
    cases h.failed.symm.trans failed
    exact same
  | born first made same => cases h.failed.symm.trans made

theorem Fails.settles {c : Creation} {e : String} (h : p.Fails c e) (hp : p.Sound) :
    Settles c (some e) p (create.run p).2 := by
  obtain ⟨cs, hfirst⟩ := h.first
  exact (miscarry_settles hfirst e).of_muted (h.miscarries hp)

/-- Between any two operations each acquirer's ticket says whether a creation is in flight for it,
and for none there is more than one. -/
structure Accounted (p : Pool) : Prop where
  settled : p.Settled
  unborn : ∀ n, p.nextTaker ≤ n → p.booked n = 0
  single : ∀ n, p.booked n ≤ 1
  known : ∀ x ∈ p.tickets, x.2 = some .inFlight ↔ p.booked x.1 = 1

/-- What an operation does to the tickets and to the creations in flight. -/
inductive Docket (p : Pool) : Operation → Pool → Prop where
  | discreet {op : Operation} {q : Pool} (same : Discreet p q) : Docket p op q
  | drawn {t : Thread} {d : Nat} {m : Pool} {r : Reply × Pool} (same : Discreet p m)
    (tends : Tends p.nextTaker none { m with nextTaker := m.nextTaker + 1 } r) :
    Docket p (.acquire t d) r.2
  | resumed {a : Acquirer} {r : Reply × Pool} (mem : a ∈ p.acquirers)
    (tends : Tends a.taker.id a.ticket p r) : Docket p (.resume a.taker.id) r.2
  | settles {op : Operation} {c : Creation} {e : Option String} {q : Pool} (ends : Settles c e p q)
    (failed : ∀ s, e = some s → p.closed = false → op = .create ∧ p.Fails c s) : Docket p op q

/-- An acquirer that goes on has its turn, unless it waits no longer. -/
theorem Accounted.resume_cases (h : p.Accounted) (n : Nat) :
    (∃ a ∈ p.acquirers, a.taker.id = n ∧ Tends n a.ticket p ((resume n).run p)) ∨
      (resume n).run p = (.waiting n, p) := by
  by_cases hlisted : ∃ a ∈ p.acquirers, a.taker.id = n
  · obtain ⟨a, ha, rfl⟩ := hlisted
    have hfit := h.known _ (List.mem_map_of_mem ha)
    exact Or.inl ⟨a, ha, rfl, resume_tends h.settled.sound ha hfit (h.single _)⟩
  · exact Or.inr (resume_unknown fun a ha hid => hlisted ⟨a, ha, hid⟩)

theorem Accounted.docket (h : p.Accounted) (op : Operation) : Docket p op (op.run p) := by
  cases hop : op.isDiscreet with
  | true => exact .discreet (op.discreet hop p)
  | false =>
    cases op with
    | acquire t d =>
      rcases acquire_tends p t d (h.unborn _ (Nat.le_refl _)) with ⟨hsame, -⟩ | ⟨m, hsame, htends⟩
      · exact .discreet hsame
      · exact .drawn hsame htends
    | resume n =>
      rcases h.resume_cases n with ⟨a, ha, rfl, htends⟩ | hrun
      · exact .resumed ha htends
      · have hsame : (Operation.resume n).run p = p := congrArg Prod.snd hrun
        rw [hsame]
        exact .discreet (.refl p)
    | create =>
      rcases create_settles h.settled.sound with ⟨-, hsame⟩ | ⟨c, e, hends, hfails⟩
      · rw [show Operation.run p .create = p from hsame]
        exact .discreet (.refl p)
      · exact .settles hends fun s hs _ => ⟨rfl, hfails s hs⟩
    | abandon i =>
      cases hc : p.closed with
      | true =>
        cases hi : p.inFlight[i]? with
        | some c =>
          refine .settles (abandon_settles hc hi) fun s _ ho => ?_
          exact absurd (ho.symm.trans hc) Bool.false_ne_true
        | none =>
          have hsame :
            Operation.run p (.abandon i) = p := by simp only [Operation.run, abandon, hc, hi]
          rw [hsame]
          exact .discreet (.refl p)
      | false =>
        have hsame : Operation.run p (.abandon i) = p := by simp only [Operation.run, abandon, hc]
        rw [hsame]
        exact .discreet (.refl p)
    | _ => cases hop

/-- An ended creation leaves the other tickets as they are. -/
theorem Settles.ticket {c : Creation} {e : Option String} (h : Settles c e p q)
    {x : Nat × Option Ticket}
    (hx : x ∈ q.tickets) :
    (x ∈ p.tickets ∧ ¬ (c = ⟨some x.1⟩ ∧ x.2 = some .inFlight)) ∨
      c = ⟨some x.1⟩ ∧ x.2 = some (.settled e) := by
  rw [h.tickets] at hx
  obtain ⟨y, hy, rfl⟩ := List.mem_map.mp hx
  split
  · next htold => exact Or.inr ⟨htold.1, rfl⟩
  · next hnot => exact Or.inl ⟨hy, hnot⟩

theorem Accounted.of_settles {c : Creation} {e : Option String} (h : p.Accounted)
    (k : Settles c e p q)
    (hq : q.Settled) : q.Accounted := by
  refine ⟨hq, fun n hn => ?_, fun n => ?_, fun x hx => ?_⟩
  · have hbooked := k.booked n
    have hnone := h.unborn n (k.nextTaker ▸ hn)
    omega
  · have hbooked := k.booked n
    have hle := h.single n
    omega
  · have hbooked := k.booked x.1
    rcases k.ticket hx with ⟨hin, hnot⟩ | ⟨hc, hticket⟩
    · have hknown := h.known x hin
      by_cases hc : c = ⟨some x.1⟩
      · have hno : x.2 ≠ some .inFlight := fun ht => hnot ⟨hc, ht⟩
        have hle := h.single x.1
        rw [if_pos hc] at hbooked
        exact absurd (hknown.mpr (by omega)) hno
      · rw [if_neg hc, Nat.add_zero] at hbooked
        rw [hbooked]
        exact hknown
    · have hle := h.single x.1
      rw [if_pos hc] at hbooked
      refine iff_of_false (fun ht => ?_) (by omega)
      cases hticket.symm.trans ht

/-- A turn of an acquirer, with what was right before. -/
theorem Tends.accounted (h : Tends n k p r) (hp : ∀ i, i ≠ n → p.nextTaker ≤ i → p.booked i = 0)
    (hn : n < p.nextTaker) (hle : ∀ i, p.booked i ≤ 1)
    (hk : ∀ x ∈ p.tickets, x.1 ≠ n → (x.2 = some .inFlight ↔ p.booked x.1 = 1))
    (hr : r.2.Settled) : r.2.Accounted := by
  refine ⟨hr, fun i hi => ?_, fun i => ?_, fun x hx => ?_⟩
  · rw [h.nextTaker] at hi
    have hne : i ≠ n := by omega
    rw [h.others i hne]
    exact hp i hne hi
  · by_cases hi : i = n
    · exact hi ▸ h.single
    · rw [h.others i hi]
      exact hle i
  · by_cases hi : x.1 = n
    · rw [hi]
      exact (h.own x hx hi).1
    · rw [h.others x.1 hi]
      exact hk x (h.kept x hx hi) hi

theorem Accounted.run (h : p.Accounted) (op : Operation) : (op.run p).Accounted := by
  have hq := h.settled.run op
  have hdocket := h.docket op
  generalize op.run p = q at hq hdocket
  cases hdocket with
  | discreet same =>
    refine ⟨hq, fun n hn => ?_, fun n => ?_, fun x hx => ?_⟩
    · rw [same.booked]
      exact h.unborn n (same.nextTaker ▸ hn)
    · rw [same.booked]
      exact h.single n
    · rw [same.booked]
      exact h.known x (same.tickets ▸ hx)
  | @drawn t d m r same tends =>
    have hnumber : m.nextTaker = p.nextTaker := same.nextTaker
    refine tends.accounted (fun i hne hi => ?_) ?_ (fun i => ?_) (fun x hx _ => ?_) hq
    · have hle : m.nextTaker + 1 ≤ i := hi
      exact (same.booked i).trans (h.unborn i (by omega))
    · exact hnumber ▸ Nat.lt_succ_self m.nextTaker
    · exact (same.booked i).trans_le (h.single i)
    · have hin : x ∈ p.tickets := same.tickets ▸ hx
      exact (same.booked x.1).symm ▸ h.known x hin
  | @resumed a r mem tends =>
    exact tends.accounted
      (fun i _ hi => h.unborn i hi) (h.settled.sound.lineup.takers_lt a mem) h.single
      (fun x hx _ => h.known x hx) hq
  | settles ends failed => exact h.of_settles ends hq

theorem Accounted.after (h : p.Accounted) (ops : List Operation) : (p.after ops).Accounted := by
  induction ops generalizing p with
  | nil => exact h
  | cons op ops ih => exact ih (h.run op)

/-- In a pool that has just been built nobody waits, and nothing is in flight for anybody. -/
theorem accounted_of_build {c : Config} {f : Factory} {ls : List Listener} {us : Units}
    (hb : build c f ls us = .ok (some p)) : p.Accounted ∧ p.tickets = [] := by
  have hsettled := (fresh_of_build hb).settled
  obtain ⟨bus, rfl⟩ := build_eq hb
  have hstart := MaintenanceRule.start (R := Discreet) Act.Always (new c f ls us bus)
  have hnone : ∀ n, (new c f ls us bus).start.booked n = 0 := hstart.booked
  have hnobody : (new c f ls us bus).start.tickets = [] := hstart.tickets
  refine ⟨⟨hsettled, fun n _ => hnone n, fun n => (hnone n).trans_le (Nat.zero_le 1), ?_⟩, hnobody⟩
  rw [hnobody]
  exact fun x hx => absurd hx List.not_mem_nil

end ConnPool.Pool
