import ConnPool.Proofs.UnitOperations

namespace ConnPool

namespace Units

variable {us : Units}

theorem current_byThread (hkind : us.enlisting = .byThread) (t : Thread) :
    us.current t = us.byThread.current t := by
  simp only [current, hkind]

theorem current_associate (hkind : us.enlisting = .byThread) (t s : Thread) (h : HandleId) :
    (us.associate t h).current s =
      if s = t ∧ us.byThread.isActive t then (us.current t).or (some h) else us.current s := by
  simp only [current, associate, hkind, UnitsByThread.current_associate]

theorem current_disassociate (hkind : us.enlisting = .byThread) (h : HandleId) (t : Thread) :
    (us.disassociate h).current t = if us.current t = some h then none else us.current t := by
  simp only [current, disassociate, hkind, UnitsByThread.current_disassociate]

theorem enlisting_associate (us : Units) (t : Thread) (h : HandleId) :
    (us.associate t h).enlisting = us.enlisting := by
  unfold associate
  split <;> rfl

theorem enlisting_disassociate (us : Units) (h : HandleId) :
    (us.disassociate h).enlisting = us.enlisting := by
  unfold disassociate
  split <;> rfl

/-- What a thread holds after a handle was offered to an empty unit. -/
theorem held_of_associate (hkind : us.enlisting = .byThread) {h k : HandleId} {t s : Thread}
    (hfree : us.current t = none) (hk : (us.associate t h).current s = some k) :
    s = t ∧ k = h ∨ us.current s = some k := by
  rw [current_associate hkind, hfree] at hk
  split at hk
  · next hs => exact Or.inl ⟨hs.1, (Option.some.inj hk).symm⟩
  · exact Or.inr hk

/-- What a thread holds after another handle has left every unit, it held before. -/
theorem held_of_disassociate (hkind : us.enlisting = .byThread) {h k : HandleId} {t : Thread}
    (hk : (us.disassociate h).current t = some k) : us.current t = some k ∧ k ≠ h := by
  rw [current_disassociate hkind] at hk
  split at hk
  · cases hk
  · next hne =>
    refine ⟨hk, ?_⟩
    rintro rfl
    exact hne hk

/-- A thread begins or ends a unit of work, and nothing else is done to the units. -/
inductive Turnover (us : Units) : Units → Prop where
  | start (t : Thread) : Turnover us { us with byThread := us.byThread.start t }
  | finish (t : Thread) : Turnover us { us with byThread := us.byThread.finish t }

theorem Turnover.held {vs : Units} (h : Turnover us vs) (hkind : us.enlisting = .byThread) :
    vs.enlisting = .byThread ∧ ∀ t k, vs.current t = some k → us.current t = some k := by
  cases h with
  | start t =>
    refine ⟨hkind, fun s k hk => ?_⟩
    simpa only [current, hkind, UnitsByThread.current_start] using hk
  | finish t =>
    refine ⟨hkind, fun s k hk => ?_⟩
    simp only [current, hkind, UnitsByThread.current_finish] at hk ⊢
    split at hk
    · cases hk
    · exact hk

end Units

namespace Pool

variable {p q : Pool} {s s' : UnitView} {op : Operation}

/-- How the units of threads, the leases, the states of handles, and those who wait fit each
other. -/
structure UnitView.Enlisted (s : UnitView) : Prop where
  byThread : s.units.enlisting = .byThread
  held : ∀ t h, s.units.current t = some h → s.active h
  sole : ∀ t u h, s.units.current t = some h → s.units.current u = some h → t = u
  marked : ∀ t h, s.units.current t = some h → ∀ l ∈ s.terms, l.handle = h → l.enlisted = true
  lent : ∀ l ∈ s.terms, s.active l.handle
  handles_nodup : (s.terms.map (·.handle)).Nodup
  apart : ∀ x ∈ s.takers, s.units.current x.thread = none
  single : ∀ x ∈ s.takers, ∀ y ∈ s.takers, x.thread = y.thread → x.id = y.id

namespace Operation

/-- Operations of threads that do one thing at a time and leave it to the pool what is in their
units: who waits in an acquire calls no other, and units are only begun and ended. -/
def Fair (p : Pool) : Operation → Prop
  | acquire t _ => ∀ a ∈ p.acquirers, a.taker.thread ≠ t
  | regroup us => p.units.Turnover us
  | _ => True

/-- It is for this thread that an operation looks for a connection. -/
def Asks (p : Pool) (op : Operation) (t : Thread) : Prop :=
  (∃ d, op = acquire t d) ∨ ∃ a ∈ p.acquirers, op = resume a.taker.id ∧ a.taker.thread = t

/-- The operation gives back a handle that is not on loan, or ends it with its lease. -/
def Frees (p : Pool) (id : HandleId) (op : Operation) : Prop :=
  (∃ t, op = releaseEnlisted t id) ∧ (∀ l ∈ p.leases, l.handle ≠ id) ∨
    ∃ l ∈ p.leases, l.handle = id ∧ (op = invalidate l.number ∨ op = detach l.number)

end Operation

/-- Something is so of every operation of a run and the pool to which it is done. -/
def Throughout (P : Pool → Operation → Prop) : Pool → List Operation → Prop
  | _, [] => True
  | p, op :: ops => P p op ∧ Throughout P (op.run p) ops

/-- An active handle that is on loan for units of work only. -/
def UnitView.Kept (s : UnitView) (id : HandleId) : Prop :=
  s.active id ∧ ∀ l ∈ s.terms, l.handle = id → l.enlisted = true

theorem UnitView.Enlisted.joined (h : s.Enlisted) {x : Taker} (hx : s.units.current x.thread = none)
    (hsingle : ∀ y ∈ s.takers, y.thread = x.thread → y.id = x.id) : (s.joined x).Enlisted := by
  refine ⟨h.byThread, h.held, h.sole, h.marked, h.lent, h.handles_nodup, fun y hy => ?_,
    fun y hy z hz hyz => ?_⟩
  · rcases List.mem_cons.mp hy with rfl | hy
    · exact hx
    · exact h.apart y hy
  · rcases List.mem_cons.mp hy with rfl | hold <;> rcases List.mem_cons.mp hz with rfl | hold'
    · rfl
    · exact (hsingle z hold' hyz.symm).symm
    · exact hsingle y hold hyz
    · exact h.single y hold z hold' hyz

theorem UnitView.Enlisted.ended (h : s.Enlisted) (n : Nat) : (s.ended n).Enlisted := by
  have hsub : s.terms.filter (·.number ≠ n) ⊆ s.terms := List.filter_subset_self _
  exact ⟨h.byThread, h.held, h.sole, fun t k hk l hl => h.marked t k hk l (hsub hl),
    fun l hl => h.lent l (hsub hl), (List.filter_sublist.map _).nodup h.handles_nodup, h.apart,
    h.single⟩

/-- No other lease has the handle of the one that ended. -/
theorem UnitView.Enlisted.unlent (h : s.Enlisted) {l : Term} (hl : l ∈ s.terms) :
    ∀ k ∈ (s.ended l.number).terms, k.handle ≠ l.handle := by
  intro k hk hsame
  obtain ⟨hin, hne⟩ := List.mem_filter.mp hk
  rw [Keyed.unique Term.handle h.handles_nodup hin hl hsame] at hne
  simp at hne

/-- A handle without a lease that no unit holds may cease to be active. -/
theorem UnitView.Enlisted.without (h : s.Enlisted) {id : HandleId}
    (hfree : ∀ t, s.units.current t ≠ some id) (hunlent : ∀ l ∈ s.terms, l.handle ≠ id) :
    (s.without id).Enlisted := by
  refine ⟨h.byThread, fun t k hk => ⟨?_, h.held t k hk⟩, h.sole, h.marked,
    fun l hl => ⟨hunlent l hl, h.lent l hl⟩, h.handles_nodup, h.apart, h.single⟩
  rintro rfl
  exact hfree t hk

/-- A handle without a lease may leave its unit and cease to be active. -/
theorem UnitView.Enlisted.freed (h : s.Enlisted) {id : HandleId}
    (hunlent : ∀ l ∈ s.terms, l.handle ≠ id) : (s.freed id).Enlisted := by
  have hheld : ∀ t k, (s.units.disassociate id).current t = some k →
      s.units.current t = some k ∧ k ≠ id := fun _ _ => Units.held_of_disassociate h.byThread
  refine ⟨(Units.enlisting_disassociate _ _).trans h.byThread,
    fun t k hk => ?_, fun t u k ht hu => ?_,
    fun t k hk => h.marked t k (hheld t k hk).1, fun l hl => ⟨hunlent l hl, h.lent l hl⟩,
    h.handles_nodup, fun x hx => ?_, h.single⟩
  · obtain ⟨hold, hne⟩ := hheld t k hk
    exact ⟨hne, h.held t k hold⟩
  · exact h.sole t u k (hheld t k ht).1 (hheld u k hu).1
  · simp only [UnitView.freed, Units.current_disassociate h.byThread, h.apart x hx, reduceCtorEq,
      if_false]

theorem UnitView.Enlisted.again (h : s.Enlisted) {t : Thread} {id : HandleId} {n : Nat}
    (hheld : s.units.current t = some id) (hunlent : ∀ l ∈ s.terms, l.handle ≠ id) :
    UnitView.Enlisted { s with terms := s.terms ++ [⟨n, id, true⟩] } := by
  refine ⟨h.byThread, h.held, h.sole,
    fun u k hk l hl hlk => ?_, fun l hl => ?_, ?_, h.apart, h.single⟩
  · rcases List.mem_append.mp hl with hl | hl
    · exact h.marked u k hk l hl hlk
    · rw [List.mem_singleton.mp hl]
  · rcases List.mem_append.mp hl with hl | hl
    · exact h.lent l hl
    · rw [List.mem_singleton.mp hl]
      exact h.held t id hheld
  · refine Keyed.nodup_append_new Term.handle h.handles_nodup hunlent

theorem UnitView.Enlisted.lend (h : s.Enlisted) {x : Taker} {id : HandleId} {n : Nat}
    (hx : s.units.current x.thread = none)
    (hsingle : ∀ y ∈ s.takers, y.thread = x.thread → y.id = x.id) (idle : ¬ s.active id) :
    (s.lent x id n).Enlisted := by
  have hheld : ∀ t k, (s.units.associate x.thread id).current t = some k →
      t = x.thread ∧ k = id ∨ s.units.current t = some k :=
    fun _ _ => Units.held_of_associate h.byThread hx
  have hunheld : ∀ t, s.units.current t ≠ some id := fun t ht => idle (h.held t id ht)
  have hunlent : ∀ l ∈ s.terms, l.handle ≠ id := fun l hl hid => idle (hid ▸ h.lent l hl)
  refine ⟨(Units.enlisting_associate _ _ _).trans h.byThread,
    fun t k hk => ?_, fun t u k ht hu => ?_,
    fun t k hk l hl hlk => ?_, fun l hl => ?_, ?_, fun y hy => ?_, fun y hy z hz => ?_⟩
  · exact (hheld t k hk).imp And.right (h.held t k)
  · rcases hheld t k ht with ⟨rfl, rfl⟩ | hold <;> rcases hheld u k hu with ⟨rfl, hku⟩ | hold'
    · rfl
    · exact absurd hold' (hunheld u)
    · exact absurd (hku ▸ hold) (hunheld t)
    · exact h.sole t u k hold hold'
  · rcases List.mem_append.mp hl with hin | hnew
    · rcases hheld t k hk with ⟨-, rfl⟩ | hold
      · exact absurd hlk (hunlent l hin)
      · exact h.marked t k hold l hin hlk
    · obtain rfl := List.mem_singleton.mp hnew
      obtain rfl : id = k := hlk
      rcases hheld t id hk with ⟨rfl, -⟩ | hold
      · exact decide_eq_true hk
      · exact absurd hold (hunheld t)
  · rcases List.mem_append.mp hl with hl | hl
    · exact Or.inr (h.lent l hl)
    · rw [List.mem_singleton.mp hl]
      exact Or.inl rfl
  · exact Keyed.nodup_append_new Term.handle h.handles_nodup hunlent
  · obtain ⟨hin, hne⟩ := List.mem_filter.mp hy
    have hother : y.thread ≠ x.thread := fun hyx => of_decide_eq_true hne (hsingle y hin hyx)
    simp only [UnitView.lent, Units.current_associate h.byThread, hother, false_and, if_false]
    exact h.apart y hin
  · exact h.single y (List.mem_filter.mp hy).1 z (List.mem_filter.mp hz).1

theorem UnitView.Enlisted.regroup (h : s.Enlisted) {us : Units} (hus : s.units.Turnover us) :
    UnitView.Enlisted { s with units := us } := by
  obtain ⟨hkind, hheld⟩ := hus.held h.byThread
  refine ⟨hkind, fun t k hk => h.held t k (hheld t k hk),
    fun t u k ht hu => h.sole t u k (hheld t k ht) (hheld u k hu),
    fun t k hk => h.marked t k (hheld t k hk), h.lent, h.handles_nodup, fun x hx => ?_, h.single⟩
  refine Option.eq_none_iff_forall_ne_some.mpr fun k hk => ?_
  have hold := hheld x.thread k hk
  rw [h.apart x hx] at hold
  cases hold

/-- Who looks for a connection holds none, and waits but once. -/
theorem UnitView.Enlisted.caller (h : p.unitView.Enlisted) (hop : op.Fair p) {x : Taker}
    (hx : p.unitView.Calls op x) : p.units.current x.thread = none ∧
      ∀ y ∈ p.unitView.takers, y.thread = x.thread → y.id = x.id := by
  rcases hx with ⟨⟨d, rfl⟩, hfree⟩ | ⟨-, hin⟩
  · refine ⟨hfree, fun y hy hyx => ?_⟩
    obtain ⟨a, ha, rfl⟩ := List.mem_map.mp hy
    exact absurd hyx (hop a ha)
  · exact ⟨h.apart x hin, fun y hy hyx => h.single y hy x hin hyx⟩

theorem UnitChange.enlisted (hchange : UnitChange p.unitView op s') (h : p.unitView.Enlisted)
    (hop : op.Fair p) : s'.Enlisted := by
  cases hchange with
  | nothing => exact h
  | enter caller =>
    obtain ⟨hfree, hsingle⟩ := h.caller hop caller
    exact h.joined hfree hsingle
  | lend caller idle =>
    obtain ⟨hfree, hsingle⟩ := h.caller hop caller
    exact h.lend hfree hsingle idle
  | again held unlent => exact h.again held unlent
  | @release t l mem =>
    split
    · exact h.ended l.number
    · next hplain =>
      refine (h.ended l.number).without (fun t ht => ?_) (h.unlent mem)
      exact hplain (h.marked t l.handle ht l mem rfl)
  | @retire _ l mem wish => exact (h.ended l.number).freed (h.unlent mem)
  | free unlent => exact h.freed unlent
  | regroup us => exact h.regroup hop

theorem Retains.enlisted (hq : Retains s q) (h : s.Enlisted) : q.unitView.Enlisted := by
  have hunits : q.unitView.units = s.units := hq.units
  refine ⟨hunits ▸ h.byThread, fun t k hk => (hq.active k).mpr (h.held t k (hunits ▸ hk)),
    ?_, ?_, ?_, ?_,
    fun x hx => hunits ▸ h.apart x (hq.takers hx),
    fun x hx y hy => h.single x (hq.takers hx) y (hq.takers hy)⟩
  · rw [hunits]
    exact h.sole
  · rw [hunits, hq.terms]
    exact h.marked
  · rw [hq.terms]
    exact fun l hl => (hq.active l.handle).mpr (h.lent l hl)
  · rw [hq.terms]
    exact h.handles_nodup

theorem UnitView.Enlisted.kept (h : s.Enlisted) {t : Thread} {id : HandleId}
    (hu : s.units.current t = some id) : s.Kept id :=
  ⟨h.held t id hu, h.marked t id hu⟩

theorem Retains.kept {id : HandleId} (hq : Retains s q) (h : s.Kept id) : q.unitView.Kept id :=
  ⟨(hq.active id).mpr h.1, hq.terms ▸ h.2⟩

/-- What is kept stays so until it is freed, whatever becomes of the units. -/
theorem UnitChange.kept {id : HandleId} {us : Units}
    (hchange : UnitChange { p.unitView with units := us } op s') (h : p.unitView.Kept id)
    (hop : ¬ op.Frees p id) : s'.Kept id := by
  obtain ⟨hactive, hmarked⟩ := h
  have hended : ∀ n, (UnitView.ended { p.unitView with units := us } n).Kept id := fun n =>
    ⟨hactive, fun l hl => hmarked l (List.mem_filter.mp hl).1⟩
  cases hchange with
  | nothing => exact ⟨hactive, hmarked⟩
  | enter caller => exact ⟨hactive, hmarked⟩
  | lend caller idle =>
    refine ⟨Or.inr hactive, fun l hl hid => ?_⟩
    rcases List.mem_append.mp hl with hl | hl
    · exact hmarked l hl hid
    · obtain rfl := List.mem_singleton.mp hl
      obtain rfl : _ = id := hid
      exact absurd hactive idle
  | again held unlent =>
    refine ⟨hactive, fun l hl hid => ?_⟩
    rcases List.mem_append.mp hl with hl | hl
    · exact hmarked l hl hid
    · rw [List.mem_singleton.mp hl]
  | @release t l mem =>
    split
    · exact hended l.number
    · next hplain =>
      refine ⟨⟨?_, hactive⟩, (hended l.number).2⟩
      rintro rfl
      exact hplain (hmarked l mem rfl)
  | @retire _ l mem wish =>
    refine ⟨⟨?_, hactive⟩, (hended l.number).2⟩
    rintro rfl
    obtain ⟨k, hk, rfl⟩ := List.mem_map.mp mem
    exact hop (Or.inr ⟨k, hk, rfl, wish⟩)
  | @free t k unlent =>
    refine ⟨⟨?_, hactive⟩, hmarked⟩
    rintro rfl
    exact hop (Or.inl ⟨⟨t, rfl⟩, fun l hl => unlent l.term (List.mem_map_of_mem hl)⟩)
  | regroup us => exact ⟨hactive, hmarked⟩

theorem Settled.keeps {id : HandleId} (h : p.Settled) (hk : p.unitView.Kept id)
    (hop : ¬ op.Frees p id) : (op.run p).unitView.Kept id := by
  obtain ⟨us, s, hchange, hretains⟩ := op.changesUnits_anew h
  exact hretains.kept (hchange.kept hk hop)

theorem Settled.keeps_after {id : HandleId} {ops : List Operation} (h : p.Settled)
    (hk : p.unitView.Kept id) (hops : Throughout (fun q op => ¬ op.Frees q id) p ops) :
    (p.after ops).unitView.Kept id := by
  induction ops generalizing p with
  | nil => exact hk
  | cons op ops ih => exact ih (h.run op) (h.keeps hk hops.1) hops.2

/-- A handle that is freed is active no longer, and in no unit. -/
theorem freed_of_frees (hp : p.Sound) {id : HandleId} (hactive : p.stateOf? id = some .checkedOut)
    (hop : op.Frees p id) : (op.run p).stateOf? id ≠ some .checkedOut ∧
      ∀ t, (op.run p).units.current t ≠ some id := by
  have hfreed : ∀ {s : UnitView} {q : Pool}, Retains (s.freed id) q →
      q.stateOf? id ≠ some .checkedOut ∧ ∀ t, q.units.current t ≠ some id := by
    intro s q hq
    refine ⟨fun hk => ((hq.active id).mp hk).1 rfl, fun t => ?_⟩
    rw [hq.units]
    exact Units.current_disassociate_ne _ _ _
  rcases hop with ⟨⟨t, rfl⟩, hunlent⟩ | ⟨l, hl, rfl, rfl | rfl⟩
  · obtain ⟨h, hf, hs⟩ := find_of_stateOf hactive
    obtain ⟨c, hc⟩ := slot_of_free hp.books.fitting hf hunlent
    exact hfreed (releaseEnlisted_frees hf hs hc t)
  · exact hfreed (invalidate_frees hp.books.fitting hl)
  · exact hfreed (detach_frees hp.books.fitting hl)

/-- A handle that the unit of a thread holds: who gets it, and how it goes. -/
structure Bound (p : Pool) (t : Thread) (id : HandleId) : Prop where
  active : p.stateOf? id = some .checkedOut
  sole : ∀ s, p.units.current s = some id → s = t
  again : p.closed = false → (∀ l ∈ p.leases, l.handle ≠ id) → ∀ d, ∃ c q since,
    (p.find? id).bind (·.slot) = some c ∧ (acquire t d).run p = (.granted p.nextLease, q) ∧
      q.leases = p.leases ++ [⟨p.nextLease, id, c, true, since⟩] ∧
      q.size = p.size ∧ q.gauges = p.gauges ∧ q.counters = p.counters
  busy : p.closed = false → (∃ l ∈ p.leases, l.handle = id) → ∀ d,
    (acquire t d).run p = (.refused (.handleBusy p.name id.val),
      (p.notify .beforeAcquire).notify (.afterAcquire (.error (.handleBusy p.name id.val))))
  others : ∀ op : Operation, ∀ l ∈ (op.run p).leases, l.handle = id →
    l.term ∈ p.leases.map (·.term) ∨ ∃ d, op = .acquire t d
  leaves_iff : ∀ op : Operation, (op.run p).stateOf? id ≠ some .checkedOut ↔ op.Frees p id
  freed : ∀ op : Operation, op.Frees p id → ∀ s, (op.run p).units.current s ≠ some id
  stays : ∀ ops, Throughout (fun q op => ¬ op.Frees q id) p ops →
    (p.after ops).stateOf? id = some .checkedOut

/-- What units of work hold, and what is lent to those who work in one. -/
structure Enlists (p : Pool) : Prop where
  bound : ∀ t id, p.units.current t = some id → Bound p t id
  enlisted : ∀ op : Operation, op.Fair p → ∀ l ∈ (op.run p).leases,
    l.term ∈ p.leases.map (·.term) ∨ ∃ t, op.Asks p t ∧
      (p.units.byThread.isActive t = true →
        l.enlisted = true ∧ (op.run p).units.current t = some l.handle)

/-- A pool between operations whose units are in order. -/
structure Ordered (p : Pool) : Prop where
  settled : p.Settled
  enlisted : p.unitView.Enlisted

theorem Ordered.changesUnits (h : p.Ordered) (op : Operation) :
    ChangesUnits p.unitView op (op.run p) :=
  op.changesUnits h.settled fun t _ _ _ => h.enlisted.held t

theorem Ordered.run (h : p.Ordered) (hop : op.Fair p) : (op.run p).Ordered := by
  obtain ⟨s, hchange, hretains⟩ := h.changesUnits op
  exact ⟨h.settled.run op, hretains.enlisted (hchange.enlisted h.enlisted hop)⟩

theorem Ordered.after {ops : List Operation} (h : p.Ordered)
    (hops : Throughout Operation.Fair p ops) : (p.after ops).Ordered := by
  induction ops generalizing p with
  | nil => exact h
  | cons op ops ih => exact ih (h.run hops.1) hops.2

/-- A lease that an operation makes of a handle already active is made for the thread that holds
it. -/
theorem UnitChange.others (hchange : UnitChange s op s') {t : Thread} {id : HandleId}
    (h : s.Enlisted) (hu : s.units.current t = some id) :
    ∀ l ∈ s'.terms, l.handle = id → l ∈ s.terms ∨ ∃ d, op = .acquire t d := by
  intro l hl hid
  cases hchange with
  | nothing | enter | free | regroup => exact Or.inl hl
  | lend caller idle =>
    rcases List.mem_append.mp hl with hl | hl
    · exact Or.inl hl
    · obtain rfl := List.mem_singleton.mp hl
      obtain rfl : _ = id := hid
      exact absurd (h.held t _ hu) idle
  | @again u d _ k held unlent =>
    rcases List.mem_append.mp hl with hl | hl
    · exact Or.inl hl
    · obtain rfl := List.mem_singleton.mp hl
      obtain rfl : k = id := hid
      exact Or.inr ⟨d, congrArg (Operation.acquire · d) (h.sole u t k held hu)⟩
  | release =>
    split at hl
    · exact Or.inl (List.mem_filter.mp hl).1
    · exact Or.inl (List.mem_filter.mp hl).1
  | retire => exact Or.inl (List.mem_filter.mp hl).1

/-- A lease that is made for a thread at work in a unit is made for that unit. -/
theorem UnitChange.terms (hchange : UnitChange p.unitView op s') (h : p.unitView.Enlisted)
    (hop : op.Fair p) :
    ∀ l ∈ s'.terms, l ∈ p.unitView.terms ∨ ∃ t, op.Asks p t ∧
      (p.units.byThread.isActive t = true →
      l.enlisted = true ∧ s'.units.current t = some l.handle) := by
  intro l hl
  cases hchange with
  | nothing | enter | free | regroup => exact Or.inl hl
  | @lend _ x id n caller idle =>
    rcases List.mem_append.mp hl with hl | hl
    · exact Or.inl hl
    · obtain rfl := List.mem_singleton.mp hl
      obtain ⟨hfree, -⟩ := h.caller hop caller
      refine Or.inr ⟨x.thread, ?_, fun hactive => ?_⟩
      · rcases caller with ⟨hd, -⟩ | ⟨hr, hin⟩
        · exact Or.inl hd
        · obtain ⟨a, ha, rfl⟩ := List.mem_map.mp hin
          exact Or.inr ⟨a, ha, hr, rfl⟩
      · have hnow : (p.units.associate x.thread id).current x.thread = some id := by
          have hkind : p.units.enlisting = .byThread := h.byThread
          rw [Units.current_associate hkind, hactive]
          exact (if_pos ⟨rfl, rfl⟩).trans (congrArg (·.or (some id)) hfree)
        exact ⟨decide_eq_true hnow, hnow⟩
  | @again t d n id held unlent =>
    rcases List.mem_append.mp hl with hl | hl
    · exact Or.inl hl
    · obtain rfl := List.mem_singleton.mp hl
      exact Or.inr ⟨t, Or.inl ⟨d, rfl⟩, fun _ => ⟨rfl, held⟩⟩
  | release =>
    split at hl
    · exact Or.inl (List.mem_filter.mp hl).1
    · exact Or.inl (List.mem_filter.mp hl).1
  | retire => exact Or.inl (List.mem_filter.mp hl).1

theorem Ordered.bound (h : p.Ordered) {t : Thread} {id : HandleId}
    (hu : p.units.current t = some id) :
    Bound p t id := by
  have hfit := h.settled.sound.books.fitting
  have hactive := h.enlisted.held t id hu
  have hkept := h.enlisted.kept hu
  obtain ⟨k, hf, hs⟩ := find_of_stateOf hactive
  refine ⟨hactive, fun s hs => h.enlisted.sole s t id hs hu, fun ho hunlent d => ?_,
    fun ho hlent d => ?_, fun op l hl hid => ?_, fun op => ⟨fun hleft => ?_, fun hop => ?_⟩,
    fun op hop => (freed_of_frees h.settled.sound hactive hop).2,
    fun ops hops => (h.settled.keeps_after hkept hops).1⟩
  · obtain ⟨c, hc⟩ := slot_of_free hfit hf hunlent
    obtain ⟨q, hrun, hq⟩ := acquire_again ho hu hf hs hc d
    have hsame : Untouched (p.touch id) ((p.touch id).lend id c true).2 := lend_untouched c true
    have hcounted : ((p.touch id).lend id c true).2.counters = p.counters := rfl
    refine ⟨c, q, _, by rw [hf, Option.bind_some, hc], hrun, eq_of_muted Pool.leases
      (fun _ => rfl) hq, (eq_of_muted Pool.size (fun _ => rfl) hq).trans hsame.size,
      (eq_of_muted Pool.gauges (fun _ => rfl) hq).trans hsame.gauges,
      (eq_of_muted Pool.counters (fun _ => rfl) hq).trans hcounted⟩
  · obtain ⟨l, hl, rfl⟩ := hlent
    obtain ⟨k, hf, hs, hc⟩ := find_of_lease hfit hl
    exact acquire_busy ho hu hf hs hc d
  · obtain ⟨s, hchange, hretains⟩ := h.changesUnits op
    have hterm : l.term ∈ s.terms := hretains.terms ▸ List.mem_map_of_mem hl
    exact hchange.others h.enlisted hu l.term hterm hid
  · by_contra hop
    exact hleft (h.settled.keeps hkept hop).1
  · exact (freed_of_frees h.settled.sound hactive hop).1

theorem Ordered.enlists (h : p.Ordered) : Enlists p := by
  refine ⟨fun t id hu => h.bound hu, fun op hop l hl => ?_⟩
  obtain ⟨s, hchange, hretains⟩ := h.changesUnits op
  have hterm : l.term ∈ s.terms := hretains.terms ▸ List.mem_map_of_mem hl
  rw [hretains.units]
  exact hchange.terms h.enlisted hop l.term hterm

theorem ordered_of_build {c : Config} {f : Factory} {ls : List Listener} {us : Units}
    (hb : build c f ls us = .ok (some p)) (hkind : us.enlisting = .byThread)
    (hfree : ∀ t, us.byThread.current t = none) : p.Ordered := by
  have hsettled := (fresh_of_build hb).settled
  obtain ⟨bus, rfl⟩ := build_eq hb
  have hnone : ∀ t k, us.current t ≠ some k := fun t k => by
    rw [Units.current_byThread hkind, hfree]
    nofun
  have hnew : (new c f ls us bus).unitView.Enlisted :=
    ⟨hkind, fun t k hk => absurd hk (hnone t k), fun t _ k hk => absurd hk (hnone t k),
      fun t k hk => absurd hk (hnone t k), fun l hl => absurd hl List.not_mem_nil, List.nodup_nil,
      fun x hx => absurd hx List.not_mem_nil, fun x hx => absurd hx List.not_mem_nil⟩
  exact ⟨hsettled, (start_retains _).enlisted hnew⟩

/-- Whatever is done to a pool whose threads work in units, by threads that do one thing at a time
and leave to the pool what their units hold: a handle in a unit is active and in no other, its
thread gets it again and no one else does, whoever works in a unit is lent only what is in it, and
the handle leaves by being freed and in no other way. -/
theorem enlists_after {c : Config} {f : Factory} {ls : List Listener} {us : Units}
    (hb : build c f ls us = .ok (some p)) (hkind : us.enlisting = .byThread)
    (hfree : ∀ t, us.byThread.current t = none) {ops : List Operation}
    (hops : Throughout Operation.Fair p ops) : Enlists (p.after ops) :=
  ((ordered_of_build hb hkind hfree).after hops).enlists

/-- A thread that begins a unit and acquires: what it was lent is in its unit. -/
theorem enlists_begun :
    ∃ p ops, build {} {} [] { enlisting := .byThread } = .ok (some p) ∧
      Throughout Operation.Fair p ops ∧ (p.after ops).units.current .background = some ⟨1⟩ ∧
        Enlists (p.after ops) := by
  have hfair : ∀ p : Pool, build {} {} [] { enlisting := .byThread } = .ok (some p) →
      Throughout Operation.Fair p [.create, .regroup ⟨.byThread, ⟨[(.background, none)]⟩, {}⟩,
        .acquire .background 0] := by
    rintro p ⟨rfl⟩
    exact ⟨trivial, .start .background, fun a ha => absurd ha List.not_mem_nil, trivial⟩
  exact ⟨_, _, rfl, hfair _ rfl, rfl,
    @enlists_after _ {} {} [] { enlisting := .byThread } rfl rfl (fun _ => rfl) _ (hfair _ rfl)⟩

end Pool
end ConnPool
