import ConnPool.Proofs.Capacity
import ConnPool.Proofs.ReapRace

namespace ConnPool

namespace Gauges

theorem get_enter (g : Gauges) (s u : State) :
    (g.enter s).get u = if u = s then (g.get s).up else g.get u := by
  cases s <;> cases u <;> rfl

theorem get_leave (g : Gauges) (s u : State) :
    (g.leave s).get u = if u = s then (g.get s).down else g.get u := by
  cases s <;> cases u <;> rfl

theorem maxUsed_enter (g : Gauges) (s : State) :
    (g.enter s).maxUsed =
      if s = .checkedOut then max g.maxUsed (g.enter s).checkedOut.count else g.maxUsed := by
  cases s <;> rfl

end Gauges

namespace Pool

/-- What a thread that has moved a handle has still to count: its arrival in the new state, and then
its departure from the old one. -/
inductive Due where
  | arrival (id : HandleId) (source target : State)
  | departure (id : HandleId) (source target : State)
  deriving DecidableEq

namespace Due

def source : Due → State
  | arrival _ s _ => s
  | departure _ s _ => s

def target : Due → State
  | arrival _ _ t => t
  | departure _ _ t => t

def isArrival : Due → Bool
  | arrival _ _ _ => true
  | departure _ _ _ => false

end Due

/-- A pool with moves that have not been counted in full, and the handles whose claims have been,
which their callers hold. -/
structure Census where
  pool : Pool
  dues : List Due := []
  held : List HandleId := []

namespace Census

/-- One step that no other thread can come between. A claim is the shift from `checkedIn` to
`checkedOut`, whether its thread has fetched an entry of the handle or has the handle in its own
list; a return and a retirement are the shifts out of `checkedOut`, which are the holder's. -/
inductive Move where
  | shift (id : HandleId) (source target : State)
  | count (d : Due)
  | fetch (t : Thread)

/-- Handles in one state. -/
def number (c : Census) (s : State) : Nat := c.pool.handles.countP (·.state = s)

/-- Handles that are checked out. -/
def active (c : Census) : Nat := c.number .checkedOut

/-- Arrivals in a state that are not counted yet. -/
def coming (c : Census) (s : State) : Nat := c.dues.countP fun d => d.isArrival && d.target = s

/-- Departures from a state that are not counted yet. -/
def going (c : Census) (s : State) : Nat := c.dues.countP (·.source = s)

def count (c : Census) : Due → Census
  | .arrival id s t =>
    ⟨{ c.pool with gauges := if t.terminal then c.pool.gauges else c.pool.gauges.enter t },
      .departure id s t :: c.dues.erase (.arrival id s t), c.held⟩
  | .departure id s t =>
    ⟨{ c.pool with gauges := c.pool.gauges.leave s }, c.dues.erase (.departure id s t),
      if t = .checkedOut then id :: c.held else c.held⟩

/-- A thread takes an entry out of the handoff, stale or not. -/
def fetch (c : Census) (t : Thread) : Census :=
  match c.pool.handoff.tryTake c.pool.recents t with
  | (some id, h, rs) =>
    { c with pool := ({ c.pool with handoff := h, recents := rs } : Pool).unqueue id }
  | (none, h, rs) => { c with pool := { c.pool with handoff := h, recents := rs } }

/-- A handle is moved and not counted yet. -/
def shift (c : Census) (id : HandleId) (s t : State) : Census :=
  ⟨c.pool.modifyHandle id fun h => { h with state := t }, .arrival id s t :: c.dues,
    if s = .checkedOut then c.held.erase id else c.held⟩

/-- A step that cannot be done now leaves all as it is. -/
def step (c : Census) : Move → Census
  | .shift id s t =>
    if State.legal s t ∧ c.pool.stateOf? id = some s ∧ (s = .checkedOut → id ∈ c.held) then
      c.shift id s t
    else c
  | .count d => if d ∈ c.dues then c.count d else c
  | .fetch t => c.fetch t

def run (c : Census) (ms : List Move) : Census := ms.foldl step c

/-- The most handles that were checked out at once in a run. -/
def peak (c : Census) : List Move → Nat
  | [] => c.active
  | m :: ms => max c.active ((c.step m).peak ms)

/-- Whether a step counts a handle as checked out. -/
def counts (c : Census) : Move → Bool
  | .count d => d ∈ c.dues && d.isArrival && d.target = .checkedOut
  | _ => false

/-- The most handles that were not counted out of `checkedOut` yet when one was counted in. -/
def overlap (c : Census) : List Move → Nat
  | [] => 0
  | m :: ms => max (if c.counts m then c.going .checkedOut else 0) ((c.step m).overlap ms)

/-- Nobody is about to count anything, and each handle that is checked out has its holder. -/
def start (p : Pool) : Census :=
  ⟨p, [], (p.handles.filter (·.state = .checkedOut)).map (·.id)⟩

/-- A move whose three steps nobody comes between is the one transition. -/
theorem transition_alone (p : Pool) {id : HandleId} {s t : State} {held : List HandleId}
    (hheld : s = .checkedOut → id ∈ held) :
    (run ⟨p, [], held⟩ [.shift id s t, .count (.arrival id s t), .count (.departure id s t)]).pool =
      (p.transition id s t).2 := by
  rcases transition_cases p id s t with hlost | ⟨hl, hs, hwon⟩
  · have hnot : ¬ (State.legal s t ∧ p.stateOf? id = some s ∧ (s = .checkedOut → id ∈ held)) := by
      rintro ⟨hl, hs, -⟩
      rw [transition_of hl hs] at hlost
      cases hlost
    rw [hlost]
    simp [run, step, hnot]
  · have hshift : step ⟨p, [], held⟩ (.shift id s t) = shift ⟨p, [], held⟩ id s t :=
      if_pos ⟨hl, hs, hheld⟩
    have harrive : step (shift ⟨p, [], held⟩ id s t) (.count (.arrival id s t)) =
        count (shift ⟨p, [], held⟩ id s t) (.arrival id s t) := if_pos List.mem_cons_self
    have hdepart : step (count (shift ⟨p, [], held⟩ id s t) (.arrival id s t))
      (.count (.departure id s t)) =
        count (count (shift ⟨p, [], held⟩ id s t) (.arrival id s t)) (.departure id s t) :=
      if_pos List.mem_cons_self
    rw [hwon]
    simp only [run, List.foldl_cons, List.foldl_nil]
    rw [hshift, harrive, hdepart]
    rfl

/-- What holds between any two steps: a gauge shows the handles in its state but for those that are
not counted yet, and who is checked out is held or about to be. -/
structure Sound (c : Census) : Prop where
  ids_nodup : (c.pool.handles.map (·.id)).Nodup
  balance : ∀ s, s ≠ .destroyed →
    (c.pool.gauges.get s).value + c.coming s = c.number s + c.going s
  holders : c.held.length + c.dues.countP (·.target = .checkedOut) = c.active
  whole : c.pool.gauges.checkedOut.shortfalls = 0

variable {c : Census} {p : Pool} {id : HandleId} {s t : State}

/-- A handle leaves one state for another. -/
theorem number_shift (hn : (c.pool.handles.map (·.id)).Nodup) (hs : c.pool.stateOf? id = some s)
    (u : State) :
    (c.shift id s t).number u + (decide (s = u)).toNat = c.number u + (decide (t = u)).toNat := by
  obtain ⟨x, hf, rfl⟩ := find_of_stateOf hs
  obtain ⟨hmem, hid⟩ := mem_of_find hf
  obtain ⟨pre, post, hb⟩ := Keyed.exists_between hn hmem
  have hmoved : (c.shift id x.state t).pool.handles = pre ++ { x with state := t } :: post :=
    hb.replace hid fun h => { h with state := t }
  simp only [number, hmoved, hb.eq, List.countP_append, Keyed.countP_first]
  omega

theorem coming_le (c : Census) (s : State) : c.coming s ≤ c.dues.countP (·.target = s) := by
  apply List.countP_mono_left
  intro d hd
  simp

/-- A fetch changes marks of handles, the handoff and what threads remember. -/
theorem fetch_frame (c : Census) (u : Thread) :
    (c.fetch u).pool.handles.map (·.id) = c.pool.handles.map (·.id) ∧
      (c.fetch u).pool.handles.map (·.state) = c.pool.handles.map (·.state) ∧
      (c.fetch u).pool.gauges = c.pool.gauges ∧ (c.fetch u).pool.cap = c.pool.cap ∧
      (c.fetch u).dues = c.dues ∧ (c.fetch u).held = c.held := by
  simp only [fetch]
  split
  · next id h rs _ =>
    refine ⟨?_, ?_, rfl, rfl, rfl, rfl⟩
    · exact Keyed.map_key_replace fun _ => rfl
    · simp only [unqueue, modifyHandle, List.map_map]
      apply List.map_congr_left
      intro x hx
      simp only [Function.comp]
      split <;> rfl
  · exact ⟨rfl, rfl, rfl, rfl, rfl, rfl⟩

theorem Sound.shift (h : c.Sound) (hs : c.pool.stateOf? id = some s)
    (hheld : s = .checkedOut → id ∈ c.held) :
    (c.shift id s t).Sound := by
  have hnumber := number_shift (t := t) h.ids_nodup hs
  have hcoming : ∀ u, (c.shift id s t).coming u = c.coming u + (decide (t = u)).toNat := by
    intro u
    rw [coming, Census.shift, List.countP_cons]
    by_cases hu : t = u <;> simp [hu, Due.isArrival, Due.target, coming]
  have hgoing : ∀ u, (c.shift id s t).going u = c.going u + (decide (s = u)).toNat := by
    intro u
    rw [going, Census.shift, List.countP_cons]
    by_cases hu : s = u <;> simp [hu, Due.source, going]
  refine ⟨?_, ?_, ?_, h.whole⟩
  · have hids : (c.shift id s t).pool.handles.map (·.id) = c.pool.handles.map (·.id) :=
      Keyed.map_key_replace fun _ => rfl
    rw [hids]
    exact h.ids_nodup
  · intro u hu
    have hbalance := h.balance u hu
    have hn := hnumber u
    rw [hcoming, hgoing]
    change (c.pool.gauges.get u).value + _ = _
    omega
  · have hholders := h.holders
    have hn := hnumber .checkedOut
    have htargets : (c.shift id s t).dues.countP (·.target = .checkedOut) =
        c.dues.countP (·.target = .checkedOut) + (decide (t = .checkedOut)).toNat := by
      rw [Census.shift, List.countP_cons]
      by_cases hu : t = .checkedOut <;> simp [hu, Due.target]
    have hkept : (c.shift id s t).held.length + (decide (s = .checkedOut)).toNat =
        c.held.length := by
      simp only [Census.shift]
      split
      · next hout =>
        have hpos := List.length_pos_of_mem (hheld hout)
        have hless := List.length_erase_of_mem (hheld hout)
        simp only [hout, decide_true, Bool.toNat_true]
        omega
      · next hout => simp [hout]
    simp only [active] at hholders ⊢
    omega

theorem Sound.arrival (h : c.Sound) (hd : Due.arrival id s t ∈ c.dues) :
    (c.count (.arrival id s t)).Sound := by
  have hgauge : ∀ u, u ≠ .destroyed → ((c.count (.arrival id s t)).pool.gauges.get u).value =
      (c.pool.gauges.get u).value + (decide (t = u)).toNat := by
    intro u hu
    simp only [Census.count]
    split
    · next hend =>
      have ht : t = .destroyed := by simpa [State.terminal] using hend
      have hne : t ≠ u := fun heq => hu (heq ▸ ht)
      simp [hne]
    · rw [Gauges.get_enter]
      by_cases hut : u = t
      · simp [hut]
      · simp [hut, Ne.symm hut]
  have hcoming : ∀ u, (c.count (.arrival id s t)).coming u + (decide (t = u)).toNat =
      c.coming u := by
    intro u
    have hless := countP_erase_add hd fun d => d.isArrival && decide (d.target = u)
    simp only [coming, Census.count, List.countP_cons, Due.isArrival, Bool.false_and,
      Bool.false_eq_true, if_false, Nat.add_zero]
    exact hless
  have hsame : ∀ p : Due → Bool, p (.departure id s t) = p (.arrival id s t) →
      (c.count (.arrival id s t)).dues.countP p = c.dues.countP p := by
    intro p hp
    have hless := countP_erase_add hd p
    simp only [Census.count, List.countP_cons, hp]
    rw [← hless]
    cases p (.arrival id s t) <;> rfl
  refine ⟨h.ids_nodup, ?_, ?_, ?_⟩
  · intro u hu
    have hbalance := h.balance u hu
    have hgoing : (c.count (.arrival id s t)).going u = c.going u := hsame _ rfl
    have hc := hcoming u
    rw [hgauge u hu, hgoing]
    change _ = (c.number u : Int) + _
    omega
  · have hholders := h.holders
    rw [hsame _ rfl]
    exact hholders
  · simp only [Census.count]
    split
    · exact h.whole
    · have hget := Gauges.get_enter c.pool.gauges t .checkedOut
      simp only [Gauges.get] at hget
      rw [hget]
      split
      · next ht =>
        subst ht
        exact h.whole
      · exact h.whole

/-- Nobody is counted out of `checkedOut` who has not been counted in. -/
theorem Sound.going_le (h : c.Sound) :
    c.going .checkedOut + c.held.length ≤ c.pool.gauges.checkedOut.count := by
  have hbalance := h.balance .checkedOut (by decide)
  have hholders := h.holders
  have hwhole := h.whole
  have hcoming := coming_le c .checkedOut
  simp only [Tally.value, Gauges.get, active] at hbalance hholders
  omega

theorem Sound.departure (h : c.Sound) (hd : Due.departure id s t ∈ c.dues) :
    (c.count (.departure id s t)).Sound := by
  have hless := fun p : Due → Bool => countP_erase_add hd p
  refine ⟨h.ids_nodup, ?_, ?_, ?_⟩
  · intro u hu
    have hbalance := h.balance u hu
    have hcoming : (c.count (.departure id s t)).coming u = c.coming u :=
      hless fun d => d.isArrival && decide (d.target = u)
    have hgoing : (c.count (.departure id s t)).going u + (decide (s = u)).toNat = c.going u :=
      hless fun d => decide (d.source = u)
    have hgauge : ((c.count (.departure id s t)).pool.gauges.get u).value =
        (c.pool.gauges.get u).value - (decide (s = u)).toNat := by
      simp only [Census.count, Gauges.get_leave]
      by_cases hus : u = s
      · simp [hus]
      · simp [hus, Ne.symm hus]
    rw [hcoming, hgauge]
    change _ = (c.number u : Int) + _
    omega
  · have hholders := h.holders
    have htargets : (c.count (.departure id s t)).dues.countP (·.target = .checkedOut) +
        (decide (t = .checkedOut)).toNat = c.dues.countP (·.target = .checkedOut) :=
      hless fun d => decide (d.target = .checkedOut)
    have hheld : (c.count (.departure id s t)).held.length =
        c.held.length + (decide (t = .checkedOut)).toNat := by
      simp only [Census.count]
      split <;> simp_all
    change _ = c.active
    omega
  · have hget := Gauges.get_leave c.pool.gauges s .checkedOut
    simp only [Gauges.get] at hget
    simp only [Census.count]
    rw [hget]
    split
    · next hs =>
      subst hs
      have hin : 0 < c.going .checkedOut := List.countP_pos_iff.mpr ⟨_, hd, by rfl⟩
      have hcount := h.going_le
      have hpos : 0 < c.pool.gauges.checkedOut.count := by omega
      exact (Tally.shortfalls_down hpos).trans h.whole
    · exact h.whole

theorem number_fetch (c : Census) (u : Thread) (s : State) : (c.fetch u).number s = c.number s := by
  have hstates := (fetch_frame c u).2.1
  have hcount : ∀ k : Census, k.number s = (k.pool.handles.map (·.state)).countP (· = s) := by
    intro k
    rw [List.countP_map]
    rfl
  rw [hcount, hcount, hstates]

theorem Sound.fetch (h : c.Sound) (u : Thread) : (c.fetch u).Sound := by
  obtain ⟨hids, -, hgauges, -, hdues, hheld⟩ := fetch_frame c u
  refine ⟨hids ▸ h.ids_nodup, ?_, ?_, hgauges ▸ h.whole⟩
  · intro s hs
    have hbalance := h.balance s hs
    rw [number_fetch, coming, going, hdues, hgauges]
    exact hbalance
  · have hholders := h.holders
    rw [active, number_fetch, hdues, hheld]
    exact hholders

theorem Sound.step (h : c.Sound) (m : Move) : (c.step m).Sound := by
  cases m with
  | shift id s t =>
    simp only [Census.step]
    split
    · next hcan => exact h.shift hcan.2.1 hcan.2.2
    · exact h
  | count d =>
    simp only [Census.step]
    split
    · next hd =>
      cases d with
      | arrival id s t => exact h.arrival hd
      | departure id s t => exact h.departure hd
    · exact h
  | fetch u => exact h.fetch u

theorem Sound.run (h : c.Sound) (ms : List Move) : (c.run ms).Sound := by
  induction ms generalizing c with
  | nil => exact h
  | cons m ms ih => exact ih (h.step m)

/-- The peak rises only when a handle is counted in, and then to the handles that are checked out
and those that are not counted out yet, at most. -/
theorem Sound.maxUsed_step (h : c.Sound) (m : Move) :
    (c.step m).pool.gauges.maxUsed ≤
      max c.pool.gauges.maxUsed (if c.counts m then c.active + c.going .checkedOut else 0) := by
  cases m with
  | shift id s t =>
    simp only [Census.step]
    split <;> exact Nat.le_max_left _ _
  | fetch u =>
    simp only [Census.step]
    rw [(fetch_frame c u).2.2.1]
    exact Nat.le_max_left _ _
  | count d =>
    simp only [Census.step]
    split
    · next hd =>
      cases d with
      | departure id s t =>
        simp only [Census.count, Gauges.maxUsed_leave]
        exact Nat.le_max_left _ _
      | arrival id s t =>
        by_cases ht : t = .checkedOut
        · subst ht
          have hcounts : c.counts (.count (.arrival id s .checkedOut)) = true := by
            simp [counts, hd, Due.isArrival, Due.target]
          have hbalance := h.balance .checkedOut (by decide)
          have hwhole := h.whole
          have hin : 0 < c.coming .checkedOut := List.countP_pos_iff.mpr ⟨_, hd, by rfl⟩
          have hraised : (c.count (.arrival id s .checkedOut)).pool.gauges.maxUsed =
              max c.pool.gauges.maxUsed (c.pool.gauges.checkedOut.count + 1) := rfl
          rw [hraised, hcounts, if_pos rfl]
          simp only [Tally.value, Gauges.get, active] at hbalance ⊢
          omega
        · have hsame : (c.count (.arrival id s t)).pool.gauges.maxUsed = c.pool.gauges.maxUsed := by
            simp only [Census.count]
            split
            · rfl
            · rw [Gauges.maxUsed_enter, if_neg ht]
          rw [hsame]
          exact Nat.le_max_left _ _
    · exact Nat.le_max_left _ _

theorem active_le_peak (c : Census) (ms : List Move) : c.active ≤ c.peak ms := by
  cases ms with
  | nil => exact Nat.le_refl _
  | cons m ms => exact Nat.le_max_left _ _

theorem Sound.maxUsed_run (h : c.Sound) (ms : List Move) :
    (c.run ms).pool.gauges.maxUsed ≤ max c.pool.gauges.maxUsed (c.peak ms + c.overlap ms) := by
  induction ms generalizing c with
  | nil => exact Nat.le_max_left _ _
  | cons m ms ih =>
    have hfirst := h.maxUsed_step m
    have hrest : (c.run (m :: ms)).pool.gauges.maxUsed ≤ _ := ih (h.step m)
    have hnow := active_le_peak c (m :: ms)
    simp only [peak, overlap] at hnow ⊢
    by_cases hm : c.counts m = true
    · simp only [hm, if_true] at hfirst ⊢
      omega
    · simp only [hm, Bool.false_eq_true, if_false] at hfirst ⊢
      omega

/-- No step adds a handle. -/
theorem step_load (c : Census) (m : Move) :
    (c.step m).pool.handles.length = c.pool.handles.length := by
  have hlist : ∀ k : Census, k.pool.handles.map (·.id) = c.pool.handles.map (·.id) →
      k.pool.handles.length = c.pool.handles.length := by
    intro k hk
    simpa using congrArg List.length hk
  cases m with
  | shift id s t =>
    simp only [step]
    split
    · exact hlist _ (Keyed.map_key_replace fun _ => rfl)
    · rfl
  | count d =>
    simp only [step]
    split
    · cases d <;> rfl
    · rfl
  | fetch u => exact hlist _ (fetch_frame c u).1

theorem peak_le (c : Census) (ms : List Move) : c.peak ms ≤ c.pool.handles.length := by
  induction ms generalizing c with
  | nil => exact List.countP_le_length
  | cons m ms ih =>
    have hrest := ih (c.step m)
    rw [step_load] at hrest
    exact Nat.max_le.mpr ⟨List.countP_le_length, hrest⟩

end Census

variable {p : Pool}

/-- Between two operations everything is counted. -/
theorem sound_start (hp : p.Sound) : (Census.start p).Sound := by
  have hcount := hp.books.counted
  have hgauges : p.gauges = .level p.ledger.idle p.ledger.active p.gauges.maxUsed :=
    hcount.gauges_eq
  have hnone : ∀ s, s ≠ .checkedIn → s ≠ .checkedOut → p.handles.countP (·.state = s) = 0 := by
    intro s hin hout
    apply List.countP_eq_zero.mpr
    intro h hh
    rcases idle_or_active hp.books.fitting hh with ⟨hs, -⟩ | hs
    · simpa [hs] using Ne.symm hin
    · simpa [hs] using Ne.symm hout
  refine ⟨ids_nodup hp.books.fitting, ?_, ?_, ?_⟩
  · intro s hs
    have hnumber : ((p.gauges.get s).value : Int) = (p.handles.countP (·.state = s) : Nat) := by
      rw [hgauges]
      cases s with
      | checkedIn => exact (sub_zero _).trans (congrArg Nat.cast List.countP_map)
      | checkedOut => exact (sub_zero _).trans (congrArg Nat.cast List.countP_map)
      | _ => rw [hnone _ (by decide) (by decide)]; rfl
    simp only [Census.start, Census.coming, Census.going, Census.number, List.countP_nil]
    rw [hnumber]
  · simp only [Census.start, Census.active, Census.number, List.length_map, List.countP_nil,
      Nat.add_zero]
    exact (List.countP_eq_length_filter).symm
  · simp only [Census.start]
    rw [hgauges]
    rfl

/-- However the moves of any threads and their counting come between each other, the peak of usage
is overstated by no more than the handles that were not counted out yet when one was counted in;
every gauge is right but for what is not counted yet; the gauge of the handles in use is never taken
below zero, and no other gauge unless an arrival in its state is not counted yet. -/
theorem peak_but_for_overlap {c : Config} {f : Factory} {ls : List Listener} {us : Units}
    (hb : build c f ls us = .ok (some p)) (ops : List Operation) (ms : List Census.Move) :
    let start := Census.start (p.after ops)
    let r := start.run ms
    r.pool.gauges.maxUsed ≤ max (p.peak ops) (start.peak ms) + start.overlap ms ∧
      max (p.peak ops) (start.peak ms) ≤ c.maxSize.toNat ∧
      r.pool.gauges.checkedOut.shortfalls = 0 ∧
      (∀ s, s ≠ .destroyed → (r.pool.gauges.get s).value + r.coming s = r.number s + r.going s) ∧
      ∀ id s t, .departure id s t ∈ r.dues → s ≠ .destroyed → (r.pool.gauges.get s).value ≤ 0 →
        0 < r.coming s := by
  intro start r
  have hfresh := fresh_of_build hb
  have htallied := hfresh.tallied ops
  have hmax := hfresh.peak_eq ops
  have hpeak := hfresh.peak_le ops
  have hsound : start.Sound := sound_start (hfresh.settled.after ops).sound
  have hrun : r.Sound := hsound.run ms
  have hused : start.pool.gauges.maxUsed = p.peak ops := hmax
  have hraised := hsound.maxUsed_run ms
  have hload : start.peak ms ≤ (p.after ops).handles.length := Census.peak_le start ms
  have hsize := htallied.size_eq
  have hcap := htallied.size_le
  refine ⟨?_, ?_, hrun.whole, hrun.balance, ?_⟩
  · change r.pool.gauges.maxUsed ≤ _ at hraised
    omega
  · omega
  · intro id s t hd hs hzero
    have hbalance := hrun.balance s hs
    have hgoing : 0 < r.going s := List.countP_pos_iff.mpr ⟨_, hd, by simp [Due.source]⟩
    omega

/-- A thread has its handle from its own list, so an entry of it is still in the handoff. It returns
the handle, and before it counts that another thread claims the handle by the entry: one handle, and
two counted as checked out; the other thread's claim is counted out of a gauge at zero. -/
theorem peak_overstated :
    ∃ p, build { minSize := 1, maxSize := 1 } {} [] {} = .ok (some p) ∧
      let start := Census.start (p.after [.create, .acquire (.named "a") 9, .release (.named "a") 0,
        .acquire (.named "a") 9])
      let ms : List Census.Move := [.shift ⟨1⟩ .checkedOut .checkedIn, .fetch (.named "b"),
        .shift ⟨1⟩ .checkedIn .checkedOut, .count (.arrival ⟨1⟩ .checkedIn .checkedOut),
        .count (.departure ⟨1⟩ .checkedIn .checkedOut),
        .count (.arrival ⟨1⟩ .checkedOut .checkedIn),
        .count (.departure ⟨1⟩ .checkedOut .checkedIn)]
      let r := start.run ms
      start.held = [⟨1⟩] ∧ start.pool.handoff.toList = [⟨1⟩] ∧ r.held = [⟨1⟩] ∧ r.dues = [] ∧
        start.peak ms = 1 ∧ r.pool.cap = 1 ∧ r.pool.gauges.maxUsed = 2 ∧
        r.pool.gauges.checkedIn.shortfalls = 1 :=
  ⟨_, rfl, by decide +kernel⟩

theorem peak_but_for_one_return :
    ∃ p, build { minSize := 1, maxSize := 1 } {} [] {} = .ok (some p) ∧
      let start := Census.start (p.after [.create, .acquire .background 9])
      let ms : List Census.Move :=
        [.shift ⟨1⟩ .checkedOut .checkedIn, .shift ⟨1⟩ .checkedIn .checkedOut,
          .count (.arrival ⟨1⟩ .checkedIn .checkedOut)]
      start.overlap ms = 1 ∧ max (p.peak [.create, .acquire .background 9]) (start.peak ms) = 1 ∧
        (start.run ms).pool.gauges.maxUsed ≤
          max (p.peak [.create, .acquire .background 9]) (start.peak ms) + start.overlap ms :=
  ⟨_, rfl, by decide +kernel, by decide +kernel,
    (@peak_but_for_overlap _ { minSize := 1, maxSize := 1 } {} [] {} rfl
    [.create, .acquire .background 9]
      _).1⟩

end Pool
end ConnPool
