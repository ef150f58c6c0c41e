import ConnPool.Proofs.HandleEvents
import Mathlib.Computability.RegularExpressions

namespace ConnPool

/-- What can happen to a handle. -/
inductive Milestone where
  | created
  | acquired
  | suspected
  | returned
  | destroyed
  deriving DecidableEq

/-- What an event says of a handle. -/
def Event.milestone? (id : HandleId) : Event → Option Milestone
  | created _ h _ => if h = id then some .created else none
  | acquired _ h _ => if h = id then some .acquired else none
  | leakSuspected _ h _ => if h = id then some .suspected else none
  | returned _ h _ => if h = id then some .returned else none
  | destroyed _ h _ => if h = id then some .destroyed else none
  | creationFailed .. | acquireTimedOut .. => none

namespace Milestone

open Computability RegularExpression

/-- What some events say of a handle, one after the other. -/
def course (es : List Event) (id : HandleId) : List Milestone := es.filterMap (Event.milestone? id)

/-- A handle is lent, and may be suspected to leak as long as it is. -/
def loan : RegularExpression Milestone := char acquired * (char suspected).star

/-- A handle is made, and comes back from each loan. -/
def idle : RegularExpression Milestone := char created * (loan * char returned).star

def active : RegularExpression Milestone := idle * loan

/-- The whole life of a handle: the last loan may not end before the handle does. -/
def life : RegularExpression Milestone := idle * (1 + loan) * (1 + char destroyed)

variable {w : List Milestone}

theorem matches_idle : idle.matches' = {[created]} * (loan.matches' * {[returned]})∗ := rfl

theorem matches_active : active.matches' = idle.matches' * loan.matches' := rfl

theorem idle_created : [created] ∈ idle.matches' := by
  rw [matches_idle]
  exact Language.append_mem_mul (Set.mem_singleton _) (Language.nil_mem_kstar _)

theorem active_acquired (h : w ∈ idle.matches') : w ++ [acquired] ∈ active.matches' :=
  Language.append_mem_mul h
    (Language.append_mem_mul (Set.mem_singleton [acquired]) (Language.nil_mem_kstar _))

theorem active_suspected (h : w ∈ active.matches') : w ++ [suspected] ∈ active.matches' := by
  have hle : active.matches' * {[suspected]} ≤ active.matches' := by
    have hloan : loan.matches' = {[acquired]} * {[suspected]}∗ := rfl
    rw [matches_active, hloan, mul_assoc, mul_assoc]
    gcongr
    exact kstar_mul_le_kstar
  exact hle (Language.append_mem_mul h (Set.mem_singleton _))

theorem idle_returned (h : w ∈ active.matches') : w ++ [returned] ∈ idle.matches' := by
  have hle : active.matches' * {[returned]} ≤ idle.matches' := by
    rw [matches_active, matches_idle, mul_assoc, mul_assoc]
    gcongr
    exact kstar_mul_le_kstar
  exact hle (Language.append_mem_mul h (Set.mem_singleton _))

theorem life_of_idle (h : w ∈ idle.matches') : w ∈ life.matches' := by
  have hends : w ++ [] ++ [] ∈ life.matches' :=
    Language.append_mem_mul (Language.append_mem_mul h (Or.inl rfl)) (Or.inl rfl)
  rwa [List.append_nil, List.append_nil] at hends

theorem life_of_active (h : w ∈ active.matches') : w ∈ life.matches' := by
  obtain ⟨u, hu, v, hv, rfl⟩ := Language.mem_mul.mp h
  have hends : u ++ v ++ [] ∈ life.matches' :=
    Language.append_mem_mul (Language.append_mem_mul hu (Or.inr hv)) (Or.inl rfl)
  rwa [List.append_nil] at hends

theorem life_destroyed (h : w ∈ idle.matches' ∨ w ∈ active.matches') :
    w ++ [destroyed] ∈ life.matches' := by
  have hlast : [destroyed] ∈ (1 + {[destroyed]} : Language Milestone) :=
    Or.inr (Set.mem_singleton _)
  have hbefore : w ∈ idle.matches' * (1 + loan.matches') := by
    rw [mul_add, mul_one]
    exact h
  exact Language.append_mem_mul hbefore hlast

end Milestone

/-- How many events there are of each kind that is counted. -/
def Counters.tally (es : List Event) : Counters where
  created := es.countP (· matches .created ..)
  destroyed := es.countP (· matches .destroyed ..)
  acquired := es.countP (· matches .acquired ..)
  returned := es.countP (· matches .returned ..)
  timeouts := es.countP (· matches .acquireTimedOut ..)
  creationFailures := es.countP (· matches .creationFailed ..)
  validationFailures := es.countP (· matches .destroyed _ _ .validationFailed)
  leaksSuspected := es.countP (· matches .leakSuspected ..)
  reaped := es.countP (· matches .destroyed _ _ .idleTimeout)

namespace Roll

variable {r q : Roll} {es : List Event} {e : Event} {id : HandleId} {w : List Milestone}

/-- What has been said of a handle fits what has become of it. -/
structure Lives (r : Roll) (id : HandleId) (w : List Milestone) : Prop where
  unborn : r.next ≤ id.val → w = []
  idle : id ∈ r.ids → r.active id = false → w ∈ Milestone.idle.matches'
  active : r.active id = true → w ∈ Milestone.active.matches'
  ever : w = [] ∨ w ∈ Milestone.life.matches'

theorem Lives.of_idle (hlt : id.val < r.next) (hr : r.active id = false)
    (hw : w ∈ Milestone.idle.matches') : Lives r id w where
  unborn := fun hle => absurd hlt (Nat.not_lt.mpr hle)
  idle := fun _ _ => hw
  active := fun hactive => absurd (hr.symm.trans hactive) Bool.false_ne_true
  ever := Or.inr (Milestone.life_of_idle hw)

theorem Lives.of_active (hlt : id.val < r.next) (hr : r.active id = true)
    (hw : w ∈ Milestone.active.matches') : Lives r id w where
  unborn := fun hle => absurd hlt (Nat.not_lt.mpr hle)
  idle := fun _ hidle => absurd (hidle.symm.trans hr) Bool.false_ne_true
  active := fun _ => hw
  ever := Or.inr (Milestone.life_of_active hw)

theorem Lives.of_gone (hlt : id.val < r.next) (hid : id ∉ r.ids) (hr : r.active id = false)
    (hw : w ∈ Milestone.life.matches') : Lives r id w where
  unborn := fun hle => absurd hlt (Nat.not_lt.mpr hle)
  idle := fun hin _ => absurd hin hid
  active := fun hactive => absurd (hr.symm.trans hactive) Bool.false_ne_true
  ever := Or.inr hw

/-- What is not said of a handle leaves it as it is. -/
theorem Marks.apart (h : Marks r e q) (he : e.milestone? id = none) :
    (id ∈ q.ids → id ∈ r.ids) ∧ q.active id = r.active id := by
  cases h with
  | created pool d =>
    have hne : id ≠ ⟨r.next⟩ := fun heq => by simp [Event.milestone?, heq] at he
    refine ⟨fun hid => ?_, rfl⟩
    exact (List.mem_append.mp hid).resolve_right fun hnew => hne (List.mem_singleton.mp hnew)
  | @acquired pool k t d mem idle =>
    have hne : id ≠ k := fun heq => by simp [Event.milestone?, heq] at he
    exact ⟨fun hid => hid, Function.update_of_ne hne _ _⟩
  | @returned pool k d active =>
    have hne : id ≠ k := fun heq => by simp [Event.milestone?, heq] at he
    exact ⟨fun hid => hid, Function.update_of_ne hne _ _⟩
  | @destroyed pool k reason mem =>
    have hne : id ≠ k := fun heq => by simp [Event.milestone?, heq] at he
    exact ⟨fun hid => (List.mem_filter.mp hid).1, Function.update_of_ne hne _ _⟩
  | _ => exact ⟨fun hid => hid, rfl⟩

theorem Lives.apart (h : Lives r id w) (hmark : Marks r e q) (he : e.milestone? id = none) :
    Lives q id w := by
  obtain ⟨hids, hactive⟩ := hmark.apart he
  have hnext := hmark.grows.next
  refine ⟨fun hle => h.unborn (Nat.le_trans hnext hle), fun hid hidle => ?_, fun hin => ?_, h.ever⟩
  · exact h.idle (hids hid) (hactive ▸ hidle)
  · exact h.active (hactive ▸ hin)

/-- What is said next of a handle goes on with its life. -/
theorem Lives.mark (h : Lives r id w) (hr : r.Orderly) (hmark : Marks r e q) :
    Lives q id (w ++ (e.milestone? id).toList) := by
  cases he : e.milestone? id with
  | none =>
    rw [Option.toList_none, List.append_nil]
    exact h.apart hmark he
  | some m =>
    rw [Option.toList_some]
    cases hmark with
    | created pool d =>
      obtain ⟨rfl, rfl⟩ : (⟨r.next⟩ : HandleId) = id ∧ Milestone.created = m := by
        simpa [Event.milestone?] using he
      rw [h.unborn (Nat.le_refl _), List.nil_append]
      exact .of_idle (Nat.lt_succ_self _) (hr.unborn ⟨r.next⟩ (Nat.le_refl _)).1
        Milestone.idle_created
    | @acquired pool k t d mem idle =>
      obtain ⟨rfl, rfl⟩ : k = id ∧ Milestone.acquired = m := by simpa [Event.milestone?] using he
      exact .of_active (hr.lt_next k mem) (Function.update_self ..)
        (Milestone.active_acquired (h.idle mem idle))
    | @returned pool k d active =>
      obtain ⟨rfl, rfl⟩ : k = id ∧ Milestone.returned = m := by simpa [Event.milestone?] using he
      exact .of_idle (hr.lt_next k (hr.mem_of_active k active)) (Function.update_self ..)
        (Milestone.idle_returned (h.active active))
    | @leakSuspected pool k d active =>
      obtain ⟨rfl, rfl⟩ : k = id ∧ Milestone.suspected = m := by simpa [Event.milestone?] using he
      exact .of_active (hr.lt_next k (hr.mem_of_active k active)) active
        (Milestone.active_suspected (h.active active))
    | @destroyed pool k reason mem =>
      obtain ⟨rfl, rfl⟩ : k = id ∧ Milestone.destroyed = m := by simpa [Event.milestone?] using he
      refine .of_gone (hr.lt_next k mem) (fun hin => ?_) (Function.update_self ..)
        (Milestone.life_destroyed ?_)
      · exact of_decide_eq_true (List.mem_filter.mp hin).2 rfl
      · cases hactive : r.active k with
        | false => exact Or.inl (h.idle mem hactive)
        | true => exact Or.inr (h.active hactive)
    | creationFailed pool e => cases he
    | acquireTimedOut pool d => cases he

theorem Tells.lives (h : Tells r es q) (hr : r.Orderly) (hnone : Lives r id []) :
    Lives q id (Milestone.course es id) := by
  induction h with
  | nil => exact hnone
  | @snoc es m q e before last ih =>
    have hcourse : Milestone.course (es ++ [e]) id =
        Milestone.course es id ++ (e.milestone? id).toList := by
      rw [Milestone.course, List.filterMap_append]
      cases he : e.milestone? id <;> simp [he, Milestone.course]
    rw [hcourse]
    exact ih.mark (before.orderly hr) last

theorem Marks.tallied (h : Marks r e q) (hr : r.counters = .tally es) :
    q.counters = .tally (es ++ [e]) := by
  cases h with
  | @destroyed pool id reason mem =>
    cases reason <;>
      simp [Counters.tally, List.countP_append, without, Roll.count, DestroyReason.charge, hr]
  | _ => simp [Counters.tally, List.countP_append, Roll.count, grown, lent, Roll.returned, hr]

theorem Tells.tallied (h : Tells r es q) (hr : r.counters = {}) : q.counters = .tally es := by
  induction h with
  | nil => exact hr
  | snoc before last ih => exact last.tallied ih

end Roll
end ConnPool
