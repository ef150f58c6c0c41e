import ConnPool.Proofs.AudienceHiding
import Mathlib.Data.List.Forall2

namespace ConnPool

/-- The listener without its panics. -/
def Listener.calmed : Listener → Listener
  | recorder label _ brings => recorder label [] brings
  | logger => logger

/-- The log line of a listener's panic. -/
def Note.isPanic : Note → Bool
  | line _ "Pool listener panicked" (("pool", .text _) :: _) => true
  | _ => false

/-- The hook that a listener with this label was told of. -/
def Note.toldTo? (label : String) : Note → Option Hook
  | hook l h => if l = label then some h else none
  | _ => none

/-- All that listeners with this label were told, latest first. -/
def Pool.heard (p : Pool) (label : String) : List Hook := p.journal.filterMap (Note.toldTo? label)

namespace Hiding

theorem lines_calm (pool : String) (h : Hook) :
    (Listener.lines pool h).filter (fun n => !n.isPanic) = Listener.lines pool h := by
  rcases h with _ | (_ | _) | _ | (_ | _) | _ | _ | _ | _ | ⟨_, _ | _⟩ | _ <;> rfl

/-- Hides panics. -/
def calm : Hiding where
  face := Listener.calmed
  shows n := !n.isPanic
  bus b := b
  hear pool h l := by
    cases l with
    | recorder label panics brings =>
      simp only [Listener.hear]
      split <;> rfl
    | logger => simpa [Listener.hear, Listener.calmed, Listener.panicsIn] using lines_calm pool h
  settled h l := by
    rcases l with ⟨label, panics, _ | _⟩ | _ <;> cases h <;> rfl
  brought h l := by
    rcases l with ⟨label, panics, _ | _⟩ | _ <;> cases h <;> rfl
  line _ _ _ _ := by
    simp [Note.isPanic]
  create _ := rfl
  probe _ := rfl
  close _ := rfl
  emit _ _ := rfl
  shut _ := rfl

/-- Hides all subscribers and what was sent to them. -/
def unheard : Hiding where
  face l := l
  shows _ := true
  bus b := { b with sent := #[], cursors := [] }
  hear pool h l := List.filter_true _
  settled _ _ := rfl
  brought _ _ := Option.map_id'
  line _ _ _ _ := rfl
  create _ := rfl
  probe _ := rfl
  close _ := rfl
  emit b e := by
    have hnobody : Bus.hasSubscribers { b with sent := #[], cursors := [] } = false := rfl
    simp only [Bus.emit, hnobody]
    cases b.hasSubscribers <;> rfl
  shut _ := rfl

variable {v : Hiding}

/-- An operation without what is hidden. -/
def operation (v : Hiding) : Pool.Operation → Pool.Operation
  | .listen ls bus => .listen (ls.map v.face) (v.bus bus)
  | op => op

/-- A turn without what is hidden. -/
def turn (v : Hiding) : Pool.Turn → Pool.Turn
  | .operate op => .operate (v.operation op)
  | .register l => .register (v.face l)
  | t => t

/-- No operation looks at what is hidden. -/
theorem hide_operation (v : Hiding) (op : Pool.Operation) (p : Pool) :
    (v.operation op).answer (v.hide p) = op.answer p ∧
      (v.operation op).run (v.hide p) = v.hide (op.run p) := by
  have hseen : ∀ op : Pool.Operation, (∀ ls bus, op ≠ .listen ls bus) →
      op.answer (v.hide p) = op.answer p ∧ op.run (v.hide p) = v.hide (op.run p) := by
    intro op hop
    have hrun := v.hide_run (Pool.Operation.call_respects hop) p
    rw [op.call_run, op.call_run] at hrun
    exact Prod.mk.inj hrun
  cases op with
  | listen ls bus => exact ⟨rfl, rfl⟩
  | _ => exact hseen _ fun _ _ => Pool.Operation.noConfusion

theorem hide_turn (v : Hiding) {t : Pool.Turn} (ht : t.isAside = false) (p : Pool) :
    (v.turn t).answer (v.hide p) = t.answer p ∧ (v.turn t).run (v.hide p) = v.hide (t.run p) := by
  cases t with
  | operate op => exact v.hide_operation op p
  | register l =>
    refine ⟨rfl, ?_⟩
    simp only [turn, Pool.Turn.run, hide, List.map_append, List.map_cons, List.map_nil]
  | subscribe name => cases ht
  | unsubscribe name => cases ht
  | receive name => cases ht

theorem isAside_turn (v : Hiding) (t : Pool.Turn) : (v.turn t).isAside = t.isAside := by
  cases t <;> rfl

/-- The story of what happened, without what is hidden. -/
def tell (v : Hiding) (r : Pool.Answer × Pool) : Pool.Answer × Pool := (r.1, v.hide r.2)

theorem story_cons (v : Hiding) {t : Pool.Turn} (ht : t.isAside = false) (p : Pool)
    (ts us : List Pool.Turn) (h : (v.hide (t.run p)).story us = ((t.run p).story ts).map v.tell) :
    (v.hide p).story (v.turn t :: us) = (p.story (t :: ts)).map v.tell := by
  obtain ⟨hanswer, hrun⟩ := v.hide_turn ht p
  simp only [Pool.story, v.isAside_turn, ht, Bool.false_eq_true, if_false, List.map_append,
    List.map_cons, List.map_nil, tell, hanswer, hrun, h]

/-- Where panics alone are hidden, what subscribers do is seen. -/
theorem calm_aside {t : Pool.Turn} (ht : t.isAside = true) (p : Pool) :
    (calm.turn t).run (calm.hide p) = calm.hide (t.run p) := by
  cases t with
  | operate op => cases ht
  | register l => cases ht
  | subscribe name => rfl
  | unsubscribe name => rfl
  | receive name => rfl

theorem calm_story (p : Pool) (ts : List Pool.Turn) :
    (calm.hide p).story (ts.map calm.turn) = (p.story ts).map calm.tell := by
  induction ts generalizing p with
  | nil => rfl
  | cons t ts ih =>
    cases ht : t.isAside with
    | false => exact calm.story_cons ht p ts _ (ih (t.run p))
    | true =>
      simp only [List.map_cons, Pool.story, calm.isAside_turn, ht, if_true, List.nil_append,
        calm_aside ht p]
      exact ih (t.run p)

theorem receive_unheard (b : Bus) (name : String) :
    unheard.bus (((b.receive? name).map (·.2)).getD b) = unheard.bus b := by
  simp only [Bus.receive?]
  cases b.cursors.find? (·.1 = name) with
  | none => rfl
  | some cursor =>
    simp only [Option.map_some, Option.getD_some]
    split
    · rfl
    · split <;> rfl

/-- Where subscribers are hidden, so is what they do. -/
theorem unheard_aside {t : Pool.Turn} (ht : t.isAside = true) (p : Pool) :
    unheard.hide (t.run p) = unheard.hide p := by
  cases t with
  | operate op => cases ht
  | register l => cases ht
  | subscribe name => rfl
  | unsubscribe name => rfl
  | receive name => simp only [Pool.Turn.run, hide, receive_unheard]

theorem unheard_story (p : Pool) (ts : List Pool.Turn) :
    (unheard.hide p).story ((ts.filter (!·.isAside)).map unheard.turn) =
      (p.story ts).map unheard.tell := by
  induction ts generalizing p with
  | nil => rfl
  | cons t ts ih =>
    cases ht : t.isAside with
    | false =>
      rw [List.filter_cons_of_pos (by simp [ht])]
      exact unheard.story_cons ht p ts _ (ih (t.run p))
    | true =>
      rw [List.filter_cons_of_neg (by simp [ht]), ← unheard_aside ht p, ih (t.run p)]
      simp only [Pool.story, ht, if_true, List.nil_append]

theorem hide_start (v : Hiding) (p : Pool) : (v.hide p).start = v.hide p.start := by
  have hover : v.Over () p (v.hide p) := rfl
  exact Pool.PairRule.start hover

end Hiding

namespace Pool

/-- A pool whose listeners are calm from the beginning. -/
theorem build_calm (c : Config) (f : Factory) (ls : List Listener) (us : Units) :
    build c f (ls.map Listener.calmed) us = (build c f ls us).map
    (Option.map Hiding.calm.hide) := by
  have hnew : ∀ bus, (new c f (ls.map Listener.calmed) us bus).start =
      Hiding.calm.hide (new c f ls us bus).start :=
    fun bus => Hiding.calm.hide_start (new c f ls us bus)
  simp only [build]
  cases c.fault? with
  | some fault => rfl
  | none =>
    simp only [hnew]
    cases canName c with
    | false => rfl
    | true => simp only [if_true, Except.map, Option.map_map]; rfl

/-- What one run has come to is what another has come to, in all that has to do with the pool. -/
structure Undisturbed (r s : Answer × Pool) : Prop where
  answer : r.1 = s.1
  state : r.2.muted = s.2.muted
  stats : r.2.stats = s.2.stats
  heard : ∀ label, r.2.heard label = s.2.heard label

/-- No listener of the first run panics, and nothing else is different. -/
structure WithoutPanics (r s : Answer × Pool) : Prop extends Undisturbed r s where
  calm : ∀ l ∈ r.2.listeners, ∀ h, l.panicsIn h = false
  bus : r.2.bus = s.2.bus
  journal : r.2.journal = s.2.journal.filter fun n => !n.isPanic

/-- Nobody has subscribed to the first run, and nothing else is different. -/
structure WithoutSubscribers (r s : Answer × Pool) : Prop extends Undisturbed r s where
  nobody : r.2.bus.hasSubscribers = false
  listeners : r.2.listeners = s.2.listeners
  journal : r.2.journal = s.2.journal

theorem heard_calm (p : Pool) (label : String) :
    (Hiding.calm.hide p).heard label = p.heard label := by
  simp only [heard, Hiding.hide, Hiding.calm, List.filterMap_filter]
  refine List.filterMap_congr fun n _ => ?_
  cases n <;> simp [Note.toldTo?, Note.isPanic]

theorem withoutPanics (r : Answer × Pool) : WithoutPanics (Hiding.calm.tell r) r where
  answer := rfl
  state := rfl
  stats := rfl
  heard := heard_calm r.2
  calm := by
    intro l hl h
    obtain ⟨l, -, rfl⟩ := List.mem_map.mp hl
    cases l <;> rfl
  bus := rfl
  journal := rfl

theorem withoutSubscribers (r : Answer × Pool) : WithoutSubscribers (Hiding.unheard.tell r) r := by
  have hjournal : (Hiding.unheard.hide r.2).journal = r.2.journal := List.filter_true _
  refine ⟨⟨rfl, rfl, rfl, fun label => ?_⟩, rfl, List.map_id' _, hjournal⟩
  exact congrArg (List.filterMap (Note.toldTo? label)) hjournal

/-- Whoever listens to a pool and however they panic, each answer, the state after it and what every
listener is told are those of the run in which nobody panics. They are also those of the run in
which nobody subscribes. -/
theorem audience_never_interferes (c : Config) (f : Factory) (ls : List Listener) (us : Units)
    (p : Pool) (turns : List Turn) :
    build c f (ls.map Listener.calmed) us = (build c f ls us).map (Option.map Hiding.calm.hide) ∧
    List.Forall₂ WithoutPanics ((Hiding.calm.hide p).story (turns.map Hiding.calm.turn))
      (p.story turns) ∧
    List.Forall₂ WithoutSubscribers
      ((Hiding.unheard.hide p).story ((turns.filter (!·.isAside)).map Hiding.unheard.turn))
      (p.story turns) := by
  refine ⟨build_calm c f ls us, ?_, ?_⟩
  · rw [Hiding.calm_story, List.forall₂_map_left_iff]
    exact List.forall₂_same.mpr fun r _ => withoutPanics r
  · rw [Hiding.unheard_story, List.forall₂_map_left_iff]
    exact List.forall₂_same.mpr fun r _ => withoutSubscribers r

end Pool
end ConnPool
