import ConnPool.Proofs.History

namespace ConnPool.Pool

/-- The numbers that a pool keeps are those of what it has, within its cap. None of them was ever
taken below zero. -/
structure Tallied (c : Config) (p : Pool) : Prop where
  size_eq : p.size.count = p.handles.length + p.pending.count
  size_le : p.size.count ≤ c.maxSize.toNat
  idle_or_active : ∀ h ∈ p.handles, h.state = .checkedIn ∨ h.state = .checkedOut
  idle_eq : p.idleCount = p.handles.countP (·.state = .checkedIn)
  active_eq : p.activeCount = p.handles.countP (·.state = .checkedOut)
  sum_eq : p.idleCount + p.activeCount + p.pending.count = p.size.count
  size_whole : p.size.shortfalls = 0
  pending_whole : p.pending.shortfalls = 0
  gauges_whole : ∀ s, (p.gauges.get s).shortfalls = 0

variable {p : Pool}

theorem countP_idle_add_active {hs : List Handle}
    (h : ∀ x ∈ hs, x.state = .checkedIn ∨ x.state = .checkedOut) :
    hs.countP (·.state = .checkedIn) + hs.countP (·.state = .checkedOut) = hs.length := by
  induction hs with
  | nil => rfl
  | cons x xs ih =>
    obtain ⟨hx, hxs⟩ := List.forall_mem_cons.mp h
    have hrest := ih hxs
    rcases hx with hx | hx
    · simp only [List.countP_cons, hx, decide_true, if_true, reduceCtorEq, decide_false,
        Bool.false_eq_true, if_false, List.length_cons]
      omega
    · simp only [List.countP_cons, hx, decide_true, if_true, reduceCtorEq, decide_false,
        Bool.false_eq_true, if_false, List.length_cons]
      omega

theorem Gauges.whole_level (i a m : Nat) (s : State) :
    ((Gauges.level i a m).get s).shortfalls = 0 := by
  cases s <;> rfl

theorem tallied_of_sound {c : Config} (hp : p.Sound) (hcap : p.cap = c.maxSize.toNat) :
    Tallied c p := by
  have hcount := hp.books.counted
  have hsize : p.size = ⟨(p.handles.map (·.account)).length + p.inFlight.length, 0⟩ :=
    hcount.size_eq
  have hpending : p.pending = ⟨p.inFlight.length, 0⟩ := hcount.pending_eq
  have hgauges : p.gauges = .level p.ledger.idle p.ledger.active p.gauges.maxUsed :=
    hcount.gauges_eq
  have hle : (p.handles.map (·.account)).length + p.inFlight.length ≤ p.cap := hcount.size_le
  have hidle : p.idleCount = p.handles.countP (·.state = .checkedIn) := by
    rw [idleCount, hgauges]
    exact List.countP_map
  have hactive : p.activeCount = p.handles.countP (·.state = .checkedOut) := by
    rw [activeCount, hgauges]
    exact List.countP_map
  have hstates : ∀ h ∈ p.handles, h.state = .checkedIn ∨ h.state = .checkedOut :=
    fun h hh => (idle_or_active hp.books.fitting hh).imp_left And.left
  have hsum := countP_idle_add_active hstates
  rw [List.length_map] at hsize hle
  refine ⟨?_, ?_, hstates, hidle, hactive, ?_, ?_, ?_, ?_⟩
  · rw [hsize, hpending]
  · rw [hsize, ← hcap]
    exact hle
  · rw [hidle, hactive, hsum, hsize, hpending]
  · rw [hsize]
  · rw [hpending]
  · intro s
    rw [hgauges]
    exact Gauges.whole_level _ _ _ s

theorem Fresh.cap_after {c : Config} (h : Fresh c p) (ops : List Operation) :
    (p.after ops).cap = c.maxSize.toNat := by
  have hsame : (p.after ops).cap = p.cap := (h.settled.moves ops).cap
  exact hsame.trans h.cap

theorem Fresh.tallied {c : Config} (h : Fresh c p) (ops : List Operation) :
    Tallied c (p.after ops) :=
  tallied_of_sound (h.settled.after ops).sound (h.cap_after ops)

theorem Fresh.peak_eq {c : Config} (h : Fresh c p) (ops : List Operation) :
    (p.after ops).gauges.maxUsed = p.peak ops := by
  have hpeak := h.settled.peak_eq ops
  rwa [h.unused, Nat.zero_max] at hpeak

theorem Fresh.peak_le {c : Config} (h : Fresh c p) (ops : List Operation) :
    p.peak ops ≤ c.maxSize.toNat := by
  rw [← h.peak_eq ops, ← h.cap_after ops]
  exact (h.settled.after ops).sound.books.counted.peak_le

/-- After any run the numbers are right, and the peak is the most that was in use so far. -/
theorem numbers_right_and_bounded {c : Config} {f : Factory} {ls : List Listener} {us : Units}
    (hb : build c f ls us = .ok (some p)) (ops : List Operation) :
    Tallied c (p.after ops) ∧ (p.after ops).gauges.maxUsed = p.peak ops ∧
      p.peak ops ≤ c.maxSize.toNat :=
  have hfresh := fresh_of_build hb
  ⟨hfresh.tallied ops, hfresh.peak_eq ops, hfresh.peak_le ops⟩

theorem numbers_after_one_loan :
    ∃ p, build {} {} [] {} = .ok (some p) ∧
      (p.after [.create, .acquire .background 0, .release .background 0]).stats.size = 1 ∧
      (p.after [.create, .acquire .background 0, .release .background 0]).gauges.maxUsed = 1 ∧
      Tallied {} (p.after [.create, .acquire .background 0, .release .background 0]) :=
  ⟨_, rfl, rfl, rfl, (@numbers_right_and_bounded _ {} {} [] {} rfl _).1⟩

end ConnPool.Pool
