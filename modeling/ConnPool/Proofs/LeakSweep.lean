import ConnPool.Proofs.CreationWarnings

namespace ConnPool.Pool

variable {p q r : Pool} {h : Handle} {id : HandleId}

/-- The handles that are checked out at a time and by then were not used for longer than the leak
timeout, in the order of the collection. -/
def overdue (p : Pool) (time : Nat) : List Handle :=
  p.handles.filter fun h =>
    h.state = .checkedOut && decide (p.config.leakTimeout.toNanos < time - h.lastAccess)

/-- Those that are overdue now. -/
def suspects (p : Pool) : List Handle := p.overdue p.clock

/-- A handle that was found to be overdue, and when. -/
structure Sighting where
  handle : Handle
  time : Nat
  deriving DecidableEq

namespace Sighting

/-- The hook that listeners hear: the handle and its recorded owner. -/
def hook (s : Sighting) : Hook := .onLeak s.handle.id (s.handle.owner.map (·.thread))

/-- The event that subscribers are sent: the handle, and for how long it has been held. -/
def event (pool : String) (s : Sighting) : Event :=
  .leakSuspected pool s.handle.id (.ofNanos (s.time - s.handle.lastAccess))

end Sighting

/-- What is written down about a suspect: a line of the pool, and what its listeners make of it. -/
def leakNotes (p : Pool) (s : Sighting) : List Note :=
  .line .warn "Connection leak suspected"
    [("pool", .shown p.name), ("handle", .shown s.handle.id.label)] ::
      p.listeners.flatMap (Listener.hear p.name s.hook)

/-- What is seen when one looks at each of these times. -/
def sightings (p : Pool) (times : List Nat) : List Sighting :=
  times.flatMap fun time => (p.overdue time).map (⟨·, time⟩)

/-- Some time has passed and suspects were reported, and nothing else has happened. -/
structure Observed (p : Pool) (passed : Nat) (ss : List Sighting) (q : Pool) : Prop where
  counters : q.counters =
    { p.counters with leaksSuspected := p.counters.leaksSuspected + ss.length }
  journal : q.journal = (ss.flatMap p.leakNotes).reverse ++ p.journal
  bus : q.bus = (ss.map (Sighting.event p.name)).foldl Bus.emit p.bus
  same : q = { p with
    clock := p.clock + passed, counters := q.counters, journal := q.journal, bus := q.bus }

theorem Observed.waited (p : Pool) (n : Nat) : Observed p n [] { p with clock := p.clock + n } :=
  ⟨rfl, rfl, rfl, rfl⟩

theorem Observed.refl (p : Pool) : Observed p 0 [] p := .waited p 0

theorem Observed.trans {m n : Nat} {ss ts : List Sighting} (h : Observed p m ss q)
    (k : Observed q n ts r) : Observed p (m + n) (ss ++ ts) r := by
  have hnotes : q.leakNotes = p.leakNotes := by rw [h.same]; rfl
  have hname : q.name = p.name := by rw [h.same]; rfl
  refine ⟨?_, ?_, ?_, ?_⟩
  · rw [k.counters, h.counters, List.length_append, Nat.add_assoc]
  · rw [k.journal, h.journal, hnotes, List.flatMap_append, List.reverse_append, List.append_assoc]
  · rw [k.bus, h.bus, hname, List.map_append, List.foldl_append]
  · rw [k.same, h.same, Nat.add_assoc]

/-- Nobody is brought along by hearing of a leak. -/
theorem notify_leak (p : Pool) (id : HandleId) (owner : Option Thread) :
    p.notify (.onLeak id owner) =
      { p with journal := (p.listeners.flatMap (Listener.hear p.name (.onLeak id owner))).reverse ++
          p.journal } := by
  have hsettled : p.listeners.map (Listener.settled (.onLeak id owner)) = p.listeners :=
    List.map_id'' (fun l => by rcases l with ⟨_, _, _ | _⟩ | _ <;> rfl) _
  have hbrought : p.listeners.filterMap (Listener.brought? (.onLeak id owner)) = [] :=
    List.filterMap_eq_nil_iff.mpr fun l _ => by rcases l with ⟨_, _, _ | _⟩ | _ <;> rfl
  simp only [notify, hsettled, hbrought, List.append_nil]

/-- Every listener with this label hears of a suspect once. -/
theorem leakNotes_heard (p : Pool) (s : Sighting) (label : String) :
    (p.leakNotes s).filterMap (Note.toldTo? label) =
      List.replicate (p.listeners.countP (·.isNamed label)) s.hook := by
  have hheard := heard_notify { p with journal := [] } s.hook label
  have hjournal := congrArg Pool.journal
    (notify_leak { p with journal := [] } s.handle.id (s.handle.owner.map (·.thread)))
  have hnobody : Pool.heard { p with journal := [] } label = [] := rfl
  rw [heard, hnobody, Sighting.hook, hjournal, List.append_nil, List.append_nil,
    List.filterMap_reverse, List.reverse_eq_iff, List.reverse_replicate] at hheard
  exact hheard

/-- Every listener with this label hears of each suspect once, in the order of the sightings. -/
theorem Observed.heard {n : Nat} {ss : List Sighting} (h : Observed p n ss q) (label : String) :
    q.heard label = (ss.flatMap fun s =>
      List.replicate (p.listeners.countP (·.isNamed label)) s.hook).reverse ++ p.heard label := by
  simp only [Pool.heard, h.journal, List.filterMap_append, List.filterMap_reverse,
    List.filterMap_flatMap, leakNotes_heard]

theorem mem_suspects : h ∈ p.suspects ↔ h ∈ p.handles ∧ p.isSuspect h = true :=
  List.mem_filter

/-- A suspect is reported. -/
theorem reportLeak_run (hf : p.find? h.id = some h) (hs : p.isSuspect h = true) :
    ∃ q, (reportLeak h.id).run p = (true, q) ∧ Observed p 0 [⟨h, p.clock⟩] q := by
  simp only [reportLeak, Act.run_apply, hf, hs, if_true, notify_leak]
  refine ⟨_, rfl, rfl, ?_, rfl, rfl⟩
  simp only [leakNotes, List.flatMap_cons, List.flatMap_nil, List.append_nil, List.reverse_cons,
    List.append_assoc]
  rfl

/-- Suspects are all reported, one after the other. A report leaves the rest of them suspects. -/
theorem observed_all (t : Thread) {hs : List Handle}
    (hsus : ∀ h ∈ hs, p.find? h.id = some h ∧ p.isSuspect h = true) :
    ∃ q, (executeAll t .leak (hs.map (·.id))).run p = (hs.length, q) ∧
      Observed p 0 (hs.map (⟨·, p.clock⟩)) q := by
  induction hs generalizing p with
  | nil => exact ⟨p, rfl, .refl p⟩
  | cons h hs ih =>
    obtain ⟨hhead, hrest⟩ := List.forall_mem_cons.mp hsus
    obtain ⟨m, hrun, hm⟩ := reportLeak_run hhead.1 hhead.2
    have hclock : m.clock = p.clock := by rw [hm.same]; rfl
    have hstill : ∀ k ∈ hs, m.find? k.id = some k ∧ m.isSuspect k = true := by
      rw [hm.same]
      exact hrest
    obtain ⟨q, hall, hq⟩ := ih hstill
    rw [hclock] at hq
    refine ⟨q, ?_, hm.trans hq⟩
    simp only [List.map_cons, executeAll, execute, Act.run_bind, hrun, hall, Act.run_pure]
    rfl

/-- One round of looking for leaks. -/
theorem observed_sweep (hp : p.Sound) (ho : p.closed = false) (t : Thread) :
    ((sweep t .leak).run p).1 = p.suspects.length ∧
      Observed p 0 (p.suspects.map (⟨·, p.clock⟩)) ((sweep t .leak).run p).2 := by
  have hsus : ∀ h ∈ p.suspects, p.find? h.id = some h ∧ p.isSuspect h = true := by
    intro h hh
    obtain ⟨hmem, hs⟩ := mem_suspects.mp hh
    exact ⟨find_of_mem hp.books.fitting hmem, hs⟩
  obtain ⟨q, hrun, hq⟩ := observed_all t hsus
  have hswept : (sweep t .leak).run p = (p.suspects.length, q) := by
    have hplan : p.plan .leak = p.suspects.map (·.id) := rfl
    simp only [sweep, Act.run_bind, Act.run_read, ho, Bool.false_eq_true, if_false, hplan, hrun,
      ne_eq, not_true_eq_false, Act.run_pure]
  rw [hswept]
  exact ⟨rfl, hq⟩

/-- Rounds in a row, each by some thread after some time. -/
def rounds : List (Nat × Thread) → List Operation
  | [] => []
  | (n, t) :: rs => .wait n :: .sweep t .leak :: rounds rs

/-- The times at which rounds take place, from a time on. -/
def roundTimes (start : Nat) : List (Nat × Thread) → List Nat
  | [] => []
  | (n, _) :: rs => (start + n) :: roundTimes (start + n) rs

/-- Rounds in a row report what is overdue at each of them, and do nothing else. -/
theorem observed_rounds (hp : p.Settled) (ho : p.closed = false) (rs : List (Nat × Thread)) :
    Observed p (rs.map (·.1)).sum (p.sightings (roundTimes p.clock rs)) (p.after (rounds rs)) := by
  induction rs generalizing p with
  | nil => exact .refl p
  | cons r rs ih =>
    obtain ⟨n, t⟩ := r
    have hwaited := hp.run (.wait n)
    have hround : Observed p (n + 0) ((p.overdue (p.clock + n)).map (⟨·, p.clock + n⟩))
        (Operation.run (Operation.run p (.wait n)) (.sweep t .leak)) :=
      (Observed.waited p n).trans (observed_sweep hwaited.sound ho t).2
    have hsettled := hwaited.run (.sweep t .leak)
    rw [rounds, after_cons, after_cons]
    generalize Operation.run (Operation.run p (.wait n)) (.sweep t .leak) = m at hround hsettled ⊢
    rw [Nat.add_zero] at hround
    have hclock : m.clock = p.clock + n := by rw [hround.same]
    have hseen : m.sightings = p.sightings := by rw [hround.same]; rfl
    have hlater := ih hsettled (by rw [hround.same]; exact ho)
    rw [hclock, hseen] at hlater
    exact hround.trans hlater

theorem count_overdue (hp : p.ledger.Fitting) (time : Nat) (h : Handle) :
    (p.overdue time).count h = if h ∈ p.overdue time then 1 else 0 :=
  ((handles_nodup hp).filter _).count

/-- Who is a suspect is overdue at any later time. -/
theorem overdue_later (hs : h ∈ p.suspects) {time : Nat} (ht : p.clock ≤ time) :
    h ∈ p.overdue time := by
  obtain ⟨hmem, hlong⟩ := List.mem_filter.mp hs
  simp only [Bool.and_eq_true, decide_eq_true_eq] at hlong
  refine List.mem_filter.mpr ⟨hmem, ?_⟩
  simp only [Bool.and_eq_true, decide_eq_true_eq]
  exact ⟨hlong.1, by omega⟩

theorem roundTimes_ge {start time : Nat} {rs : List (Nat × Thread)}
    (ht : time ∈ roundTimes start rs) : start ≤ time := by
  induction rs generalizing start with
  | nil => cases ht
  | cons r rs ih =>
    rcases List.mem_cons.mp ht with rfl | ht
    · exact Nat.le_add_right _ _
    · exact Nat.le_trans (Nat.le_add_right _ _) (ih ht)

theorem length_roundTimes (start : Nat) (rs : List (Nat × Thread)) :
    (roundTimes start rs).length = rs.length := by
  induction rs generalizing start with
  | nil => rfl
  | cons r rs ih => exact congrArg (· + 1) (ih _)

/-- A handle is reported as often as it is found to be overdue. -/
theorem count_sightings (hp : p.ledger.Fitting) (h : Handle) (times : List Nat) :
    ((p.sightings times).map (·.handle)).count h =
      times.countP fun time => decide (h ∈ p.overdue time) := by
  induction times with
  | nil => rfl
  | cons time times ih =>
    have hfirst : ((p.overdue time).map (⟨·, time⟩ : Handle → Sighting)).map (·.handle) =
        p.overdue time := by
      rw [List.map_map]
      exact List.map_id _
    have hsplit : p.sightings (time :: times) =
        (p.overdue time).map (⟨·, time⟩) ++ p.sightings times := rfl
    rw [hsplit, List.map_append, List.count_append, hfirst, ih, count_overdue hp,
      List.countP_cons, Nat.add_comm]
    simp only [decide_eq_true_eq]

/-- What looking for leaks comes to: in one round each suspect is reported, with the recorded owner,
and nothing else is changed but the count; in rounds in a row each that was a suspect at first is
reported as often as there are rounds. -/
structure Patrolled (p : Pool) (t : Thread) : Prop where
  count : ((sweep t .leak).run p).1 = p.suspects.length
  once : Observed p 0 (p.suspects.map (⟨·, p.clock⟩)) ((sweep t .leak).run p).2
  heard : ∀ label, ((sweep t .leak).run p).2.heard label =
    (p.suspects.flatMap fun h => List.replicate (p.listeners.countP (·.isNamed label))
      (.onLeak h.id (h.owner.map (·.thread)))).reverse ++ p.heard label
  again : ∀ rs, Observed p (rs.map (·.1)).sum (p.sightings (roundTimes p.clock rs))
    (p.after (rounds rs))
  each : ∀ rs, ∀ h ∈ p.suspects,
    ((p.sightings (roundTimes p.clock rs)).map (·.handle)).count h = rs.length

/-- Whatever was done to an open pool, looking for leaks reports the handles that were held for too
long, as often as one looks, and leaves the pool as it is. -/
theorem leak_sweep_only_observes {c : Config} {f : Factory} {ls : List Listener} {us : Units}
    (hb : build c f ls us = .ok (some p)) (ops : List Operation) (ho : (p.after ops).closed = false)
    (t : Thread) : Patrolled (p.after ops) t := by
  have hp := (fresh_of_build hb).settled.after ops
  obtain ⟨hcount, honce⟩ := observed_sweep hp.sound ho t
  refine ⟨hcount, honce, fun label => ?_, observed_rounds hp ho, fun rs h hh => ?_⟩
  · rw [honce.heard, List.flatMap_map]
    rfl
  · rw [count_sightings hp.sound.books.fitting, ← length_roundTimes (p.after ops).clock rs,
      List.countP_eq_length]
    intro time htime
    exact decide_eq_true (overdue_later hh (roundTimes_ge htime))

/-- One handle is on loan, another stays with a unit of work and a third is idle: the first two are
reported in each of two rounds. -/
theorem two_of_three_suspected :
    ∃ p ops, build { prefill := .toMax, maxSize := 3, strategy := .fifo } {}
    [.recorder "a" [] false]
        { enlisting := .byThread } = .ok (some p) ∧
      (p.after ops).closed = false ∧
      (p.after ops).suspects.map (·.id) = [⟨1⟩, ⟨2⟩] ∧
      ((p.after ops).after (rounds [(0, .background), (5, .named "c")])).counters.leaksSuspected
        = 4 ∧
      Patrolled (p.after ops) .background := by
  refine ⟨_, [.create, .create, .create, .acquire (.named "a") 0,
    .regroup ⟨.byThread, ⟨[(.named "b", none)]⟩, {}⟩, .acquire (.named "b") 0,
    .release (.named "b") 1], rfl, rfl, by decide +kernel, by decide +kernel, ?_⟩
  exact @leak_sweep_only_observes _ { prefill := .toMax, maxSize := 3, strategy := .fifo } {}
    [.recorder "a" [] false] { enlisting := .byThread } rfl _ rfl .background

end ConnPool.Pool
