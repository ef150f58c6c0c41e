import ConnPool.Proofs.Operation

namespace ConnPool

theorem Ledger.Moves.cap {l m : Ledger} {bs : List Birth} (h : Moves l bs m) : m.cap = l.cap := by
  induction h with
  | refl l => rfl
  | step first rest ih =>
    rw [ih]
    cases first <;> rfl

namespace Pool

variable {p q : Pool}

/-- The pool after a run of operations. -/
def after (p : Pool) (ops : List Operation) : Pool := ops.foldl Operation.run p

/-- All connections that the factory returns in a run. -/
def births (p : Pool) : List Operation → List Birth
  | [] => []
  | op :: ops => op.births p ++ (op.run p).births ops

/-- The most handles that were active between two operations of a run. -/
def peak (p : Pool) : List Operation → Nat
  | [] => p.activeCount
  | op :: ops => max p.activeCount ((op.run p).peak ops)

theorem after_cons (op : Operation) (ops : List Operation) :
    p.after (op :: ops) = (op.run p).after ops := rfl

theorem after_append (ops rest : List Operation) :
    p.after (ops ++ rest) = (p.after ops).after rest :=
  List.foldl_append

/-- What holds of a pool between any two operations. -/
structure Settled (p : Pool) : Prop where
  sound : p.Sound
  final : p.Final

theorem Settled.steps {who : Option Nat} (h : p.Settled) (k : Steps who p q) : q.Settled :=
  ⟨k.sound h.sound, k.final h.sound h.final⟩

theorem Settled.run (h : p.Settled) (op : Operation) : (op.run p).Settled :=
  have hcourse := op.course h.sound h.final
  ⟨hcourse.sound h.sound h.final, hcourse.final h.sound h.final⟩

theorem Settled.after (h : p.Settled) (ops : List Operation) : (p.after ops).Settled := by
  induction ops generalizing p with
  | nil => exact h
  | cons op ops ih => exact ih (h.run op)

theorem Settled.moves (h : p.Settled) (ops : List Operation) :
    Ledger.Moves p.ledger (p.births ops) (p.after ops).ledger := by
  induction ops generalizing p with
  | nil => exact .refl _
  | cons op ops ih =>
    exact ((op.course h.sound h.final).moves h.sound h.final).trans (ih (h.run op))

/-- The peak that a pool remembers is the most that was in use between its operations. -/
theorem Settled.peak_eq (h : p.Settled) (ops : List Operation) :
    (p.after ops).gauges.maxUsed = max p.gauges.maxUsed (p.peak ops) := by
  induction ops generalizing p with
  | nil => exact (Nat.max_eq_left (active_le_peak h.sound)).symm
  | cons op ops ih =>
    have hnext := (op.course h.sound h.final).peak h.sound h.final
    have hrest := ih (h.run op)
    have hnow := active_le_peak h.sound
    have hlater : (op.run p).activeCount ≤ (op.run p).peak ops := by
      cases ops with
      | nil => exact Nat.le_refl _
      | cons op' ops => exact Nat.le_max_left _ _
    rw [after_cons, hrest, hnext]
    change _ = max p.gauges.maxUsed (max p.activeCount ((op.run p).peak ops))
    omega

theorem toList_new (s : Strategy) (owner : Nat) :
    (Handoff.new s owner : Handoff HandleId).toList = [] := by
  cases s <;> rfl

/-- The ledger of a pool that has not begun to fill is empty. -/
theorem books_new (c : Config) (f : Factory) (ls : List Listener) (us : Units) (bus : Bus) :
    (new c f ls us bus).ledger.Sound := by
  constructor
  · exact ⟨List.nodup_nil, fun a ha => absurd ha List.not_mem_nil,
      fun a ha => absurd ha List.not_mem_nil, List.nodup_nil,
      fun o ho => absurd ho List.not_mem_nil, List.Perm.refl _⟩
  · exact ⟨rfl, rfl, rfl, Nat.zero_le _, Nat.le_refl _, Nat.zero_le _, rfl⟩

theorem lineup_new (c : Config) (f : Factory) (ls : List Listener) (us : Units) (bus : Bus) :
    (new c f ls us bus).Lineup := by
  have hentries : (new c f ls us bus).entries = [] := by
    simp only [entries, new, toList_new, List.nil_append, List.filterMap_nil]
  refine ⟨Handoff.numbered_new _ _, ?_, hentries ▸ List.nodup_nil, ?_,
    fun h hh => absurd hh List.not_mem_nil, List.nodup_nil,
    fun a ha => absurd ha List.not_mem_nil, ?_⟩
  · simp only [new]
    cases c.strategy <;> rfl
  · rw [hentries]
    exact fun id hid => absurd hid List.not_mem_nil
  · simp only [new, List.filter_nil, List.map_nil]
    cases c.strategy <;> rfl

theorem settled_new (c : Config) (f : Factory) (ls : List Listener) (us : Units) (bus : Bus) :
    (new c f ls us bus).Settled :=
  ⟨⟨books_new c f ls us bus, lineup_new c f ls us bus, fun _ _ hh => absurd hh List.not_mem_nil⟩,
    fun _ _ hh => absurd hh List.not_mem_nil⟩

theorem foldl_log_muted (ws : List Sweep) (p : Pool) :
    (ws.foldl (fun p s => p.log .debug "Sweep disabled" [("sweep", .text s.name)]) p).muted =
      p.muted := by
  induction ws generalizing p with
  | nil => rfl
  | cons w ws ih => exact ih _

theorem steps_start (p : Pool) : Steps none p p.start := by
  have hnamed : Steps none p ((Sweep.all.filter fun s => (p.config.period s).isZero).foldl
      (fun p s => p.log .debug "Sweep disabled" [("sweep", .text s.name)]) p) :=
    .of_muted (foldl_log_muted _ p)
  simp only [start]
  exact Steps.hush (hnamed.trans (steps_fillTo _)) (muted_log _ _ _ _)

/-- A pool that was built is one that has begun to fill. -/
theorem build_iff {c : Config} {f : Factory} {ls : List Listener} {us : Units} :
    build c f ls us = .ok (some p) ↔ c.Accepted ∧ canName c = true ∧
      ∃ bus, Bus.open? c.eventBuffer.toNat = some bus ∧ (new c f ls us bus).start = p := by
  simp only [build, Config.Accepted]
  cases c.fault? with
  | some fault => exact iff_of_false nofun nofun
  | none =>
    by_cases hname : canName c = true
    · simp only [hname, if_true, true_and, Except.ok.injEq, Option.map_eq_some_iff]
    · rw [if_neg hname]
      exact iff_of_false nofun fun h => hname h.2.1

theorem build_eq {c : Config} {f : Factory} {ls : List Listener} {us : Units}
    (hb : build c f ls us = .ok (some p)) : ∃ bus, p = (new c f ls us bus).start := by
  obtain ⟨-, -, bus, -, hstart⟩ := build_iff.mp hb
  exact ⟨bus, hstart.symm⟩

/-- What a pool is like when it has just been built. -/
structure Fresh (c : Config) (p : Pool) : Prop where
  settled : p.Settled
  traced : p.ledger.Traced []
  unused : p.gauges.maxUsed = 0
  cap : p.cap = c.maxSize.toNat

theorem fresh_of_build {c : Config} {f : Factory} {ls : List Listener} {us : Units}
    (hb : build c f ls us = .ok (some p)) : Fresh c p := by
  obtain ⟨bus, rfl⟩ := build_eq hb
  have hnew := settled_new c f ls us bus
  have hsteps := steps_start (new c f ls us bus)
  have hmoves := hsteps.moves hnew.sound
  have htraced : (new c f ls us bus).ledger.Traced [] :=
    ⟨List.nodup_nil, fun b hb => absurd hb List.not_mem_nil, List.nodup_nil,
      fun b hb => absurd hb List.not_mem_nil, List.Perm.refl _,
      fun a ha => absurd ha List.not_mem_nil,
      fun o ho => absurd ho List.not_mem_nil⟩
  exact ⟨hnew.steps hsteps, hmoves.traced htraced, hsteps.calm.peak, hmoves.cap⟩

end Pool
end ConnPool
