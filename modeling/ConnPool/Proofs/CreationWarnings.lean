import ConnPool.Proofs.DeskRules
import ConnPool.Proofs.Interference

namespace ConnPool

/-- The listener bears this label. -/
def Listener.isNamed (label : String) : Listener → Bool
  | recorder l _ _ => l = label
  | logger => false

namespace Pool

open Act (Always)

/-- The warnings that listeners with this label were given, latest first. -/
def warned (p : Pool) (label : String) : List String := (p.heard label).filterMap Hook.warning?

/-- How many creations are in flight on behalf of an acquirer. -/
def booked (p : Pool) (n : Nat) : Nat := p.inFlight.count ⟨some n⟩

/-- How the creations of those who wait stand. -/
def tickets (p : Pool) : List (Nat × Option Ticket) :=
  p.acquirers.map fun a => (a.taker.id, a.ticket)

/-- Nobody is warned, nobody's creations are touched, and nothing is opened again. -/
structure Discreet (p q : Pool) : Prop where
  warned : ∀ label, q.warned label = p.warned label
  booked : ∀ n, q.booked n = p.booked n
  tickets : q.tickets = p.tickets
  nextTaker : q.nextTaker = p.nextTaker
  config : q.config = p.config
  closed : p.closed = true → q.closed = true

theorem Discreet.refl (p : Pool) : Discreet p p :=
  ⟨fun _ => rfl, fun _ => rfl, rfl, rfl, rfl, fun h => h⟩

theorem Discreet.trans {p q r : Pool} (h : Discreet p q) (k : Discreet q r) : Discreet p r :=
  ⟨fun l => (k.warned l).trans (h.warned l), fun n => (k.booked n).trans (h.booked n),
    k.tickets.trans h.tickets, k.nextTaker.trans h.nextTaker, k.config.trans h.config,
    fun hc => k.closed (h.closed hc)⟩

instance : Act.Rule Always Discreet := ⟨Discreet.refl, Discreet.trans, fun _ h => h⟩

theorem Discreet.of_desk {p q : Pool} (hd : q.desk = p.desk) (hj : q.journal = p.journal) :
    Discreet p q := by
  simp only [desk, Prod.mk.injEq] at hd
  obtain ⟨hi, ha, hn, hc, -, -, ho, -⟩ := hd
  refine ⟨fun label => ?_, fun n => ?_, ?_, hn, hc, fun h => ho.trans h⟩
  · simp only [Pool.warned, heard, hj]
  · simp only [Pool.booked, hi]
  · simp only [Pool.tickets, ha]

variable (p : Pool)

/-- Every listener with this label is told once. -/
theorem heard_notify (h : Hook) (label : String) :
    (p.notify h).heard label =
      List.replicate (p.listeners.countP (·.isNamed label)) h ++ p.heard label := by
  have heach : ∀ l : Listener, (Listener.hear p.name h l).filterMap (Note.toldTo? label) =
      if l.isNamed label then [h] else [] := by
    intro l
    cases l with
    | recorder name panics brings =>
      simp only [Listener.hear, Listener.isNamed, decide_eq_true_eq]
      by_cases hname : name = label <;> split <;> simp [Note.toldTo?, hname]
    | logger => rcases h with _ | (_ | _) | _ | (_ | _) | _ | _ | _ | _ | ⟨_, _ | _⟩ | _ <;> rfl
  have hall : ∀ ls : List Listener, (ls.flatMap (Listener.hear p.name h)).filterMap
    (Note.toldTo? label) =
      List.replicate (ls.countP (·.isNamed label)) h := by
    intro ls
    induction ls with
    | nil => rfl
    | cons l ls ih =>
      rw [List.flatMap_cons, List.filterMap_append, heach, ih, List.countP_cons]
      split
      · rw [List.replicate_succ]
        rfl
      · rfl
  simp only [notify, heard, List.filterMap_append, List.filterMap_reverse, hall,
    List.reverse_replicate]

theorem warned_notify (h : Hook) (label : String) :
    (p.notify h).warned label =
      (List.replicate (p.listeners.countP (·.isNamed label)) h).filterMap Hook.warning? ++
        p.warned label := by
  simp only [warned, heard_notify, List.filterMap_append]

theorem notify_discreet {h : Hook} (hh : h.warning? = none) : Discreet p (p.notify h) := by
  refine ⟨fun label => ?_, fun _ => rfl, rfl, rfl, rfl, fun h => h⟩
  have hnone :
      (List.replicate (p.listeners.countP (·.isNamed label)) h).filterMap Hook.warning? = [] := by
    refine List.filterMap_eq_nil_iff.mpr fun k hk => ?_
    rw [(List.mem_replicate.mp hk).2]
    exact hh
  rw [warned_notify, hnone, List.nil_append]

/-- A creation for the pool's own needs is booked for nobody. -/
theorem schedule_discreet : Discreet p (p.schedule none) := by
  refine ⟨fun _ => rfl, fun n => ?_, rfl, rfl, rfl, fun h => h⟩
  simp [booked, schedule]

theorem map_tickets {q : Pool} {f : Acquirer → Acquirer}
    (hf : ∀ a, (f a).taker = a.taker ∧ (f a).ticket = a.ticket)
    (ha : q.acquirers = p.acquirers.map f) :
    q.tickets = p.tickets := by
  simp only [tickets, ha, List.map_map]
  refine List.map_congr_left fun a _ => ?_
  obtain ⟨htaker, hticket⟩ := hf a
  simp only [Function.comp, htaker, hticket]

theorem note_discreet {n : Note} (hn : ∀ label h, n ≠ .hook label h) : Discreet p (p.note n) := by
  refine ⟨fun label => ?_, fun _ => rfl, rfl, rfl, rfl, fun h => h⟩
  have hnone : n.toldTo? label = none := by
    cases n with
    | hook l h => exact absurd rfl (hn l h)
    | _ => rfl
  simp only [warned, heard, note, List.filterMap_cons, hnone]

/-- Discretion puts up with all that is not a warning and not done for an acquirer. -/
instance : DeskRule Discreet where
  mend := .of_desk
  note p _ := note_discreet p
  notify p _ hw _ := notify_discreet p hw
  schedule := schedule_discreet
  rouse p _ hf := ⟨fun _ => rfl, fun _ => rfl, map_tickets p hf rfl, rfl, rfl, fun h => h⟩
  shut _ := ⟨fun _ => rfl, fun _ => rfl, rfl, rfl, rfl, fun _ => rfl⟩

instance : SettingRule Always Discreet where
  floor _ _ := ⟨fun _ => rfl, fun _ => rfl, rfl, rfl, rfl, fun h => h⟩
  patience _ _ := ⟨fun _ => rfl, fun _ => rfl, rfl, rfl, rfl, fun h => h⟩

/-- Creations that change places are still in flight. -/
theorem overtake_discreet (n : Nat) : Discreet p (p.overtake n) := by
  obtain ⟨cs, hsame, heq⟩ := p.overtake_eq n
  rw [heq]
  exact ⟨fun _ => rfl, fun _ => hsame.count_eq _, rfl, rfl, rfl, fun h => h⟩

namespace Operation

/-- All operations but those that acquire or bring a creation to its end. -/
def isDiscreet : Operation → Bool
  | acquire _ _ | resume _ | create | abandon _ => false
  | _ => true

theorem discreet {op : Operation} (hop : op.isDiscreet = true) (p : Pool) :
    Discreet p (op.run p) := by
  cases op with
  | acquire t deadline => cases hop
  | resume acquirer => cases hop
  | create => cases hop
  | abandon n => cases hop
  | overtake n => exact overtake_discreet p n
  | release t lease => exact (release_keeps t lease).always p
  | invalidate lease => exact (invalidate_keeps lease).always p
  | detach lease => exact (detach_keeps lease).always p
  | releaseEnlisted t id => exact (releaseEnlisted_keeps t id).always p
  | sweep t s => exact (sweep_keeps t s).always p
  | execute t s id => exact (execute_keeps t s id).always p
  | topUp => exact MaintenanceRule.topUp Always p
  | setFloor n => exact SettingRule.setFloor Always p n
  | setPatience d => exact SettingRule.setPatience Always p d
  | close => exact close_keeps.always p
  | vanish => exact vanish_keeps.always p
  | listen ls bus => exact ⟨fun _ => rfl, fun _ => rfl, rfl, rfl, rfl, fun h => h⟩
  | _ => exact .of_desk rfl rfl

end Operation
end Pool
end ConnPool
