import ConnPool.Proofs.HandoffRequests
import ConnPool.Proofs.Lists

namespace ConnPool.Exchange

open Handoff

variable {α : Type} {x : Exchange α}

/-- Requests with what they come to, one after the other. -/
def log (x : Exchange α) : List (Request α) → List (Request α × Effect α)
  | [] => []
  | r :: rs => (r, (x.step r).1) :: (x.step r).2.log rs

/-- The items of all puts that are not handed back. -/
def accepted (x : Exchange α) (rs : List (Request α)) : List α :=
  (x.log rs).flatMap fun l => l.2.accepted l.1

/-- The items that puts, takes and closings hand out. -/
def handedOut (x : Exchange α) (rs : List (Request α)) : List α :=
  (x.log rs).flatMap fun l => l.2.items

/-- The answers that takers get, at once or after they have waited. -/
def answers (x : Exchange α) (rs : List (Request α)) : List (Taker × Take α) :=
  (x.log rs).flatMap fun l => l.2.answers

/-- What becomes of the items and of the takers in a run of requests. -/
structure Accounted (x : Exchange α) (rs : List (Request α)) : Prop where
  items : (x.accepted rs).Perm (x.handedOut rs ++ (x.after rs).handoff.toList)
  size : (x.after rs).handoff.size + (x.handedOut rs).length = (x.accepted rs).length
  takers : (rs.filterMap (·.taker?)).Perm
    ((x.answers rs).map (·.1) ++ (x.after rs).handoff.parked)
  late : .close ∈ rs → ∀ t a, (x.after rs).step (.put t a) = (.offered (.rejected a), x.after rs)
  early : .close ∉ rs → ∀ t a b, ((x.after rs).step (.put t a)).1 ≠ .offered (.rejected b)

theorem Sound.items_perm (hx : x.Sound) (rs : List (Request α)) :
    (x.accepted rs ++ x.handoff.toList).Perm (x.handedOut rs ++ (x.after rs).handoff.toList) := by
  induction rs generalizing x with
  | nil => exact List.Perm.refl _
  | cons r rs ih =>
    have hfirst := (hx.next r).serves.items_perm x.handoff.strategy.perm_of_order
    exact perm_stages hfirst (ih (hx.step r))

theorem Sound.takers_perm (hx : x.Sound) (rs : List (Request α)) :
    (rs.filterMap (·.taker?) ++ x.handoff.parked).Perm
      ((x.answers rs).map (·.1) ++ (x.after rs).handoff.parked) := by
  induction rs generalizing x with
  | nil => exact List.Perm.refl _
  | cons r rs ih =>
    have hfirst := (hx.next r).serves.takers_perm
    have hboth := perm_stages hfirst (ih (hx.step r))
    have htakers : (r :: rs).filterMap (·.taker?) = r.taker?.toList ++ rs.filterMap (·.taker?) := by
      cases ht : r.taker? <;> simp [ht]
    have hanswers : (x.answers (r :: rs)).map (·.1) =
        (x.step r).1.answers.map (·.1) ++ ((x.step r).2.answers rs).map (·.1) :=
      List.map_append
    rw [htakers, hanswers]
    exact hboth

/-- A container is closed once it was told to close. -/
theorem Sound.closed_after (hx : x.Sound) (rs : List (Request α)) :
    (x.after rs).handoff.isClosed = true ↔ x.handoff.isClosed = true ∨ .close ∈ rs := by
  induction rs generalizing x with
  | nil => exact (or_iff_left List.not_mem_nil).symm
  | cons r rs ih =>
    have hfirst : (x.step r).2.handoff.isClosed = true ↔ x.handoff.isClosed = true ∨ r = .close :=
      (hx.next r).serves.closed_iff
    have hrest := ih (hx.step r)
    rw [hfirst, or_assoc] at hrest
    rw [List.mem_cons, @eq_comm _ .close r]
    exact hrest

theorem step_put_closed (hc : x.handoff.isClosed = true) (t : Thread) (a : α) :
    x.step (.put t a) = (.offered (.rejected a), x) := by
  simp only [step, put_closed hc]

/-- Whatever threads do with a container of any strategy, every item that it accepts is handed out
once or still queued, and every taker is answered once or still waits. -/
theorem nothing_lost_or_doubled (s : Strategy) (owner : Nat) (recents : Recents)
    (rs : List (Request α)) : Accounted (.new s owner recents) rs := by
  have hx : (new s owner recents : Exchange α).Sound := sound_new s owner recents
  have hnew : (new s owner recents : Exchange α).handoff.view = ⟨[], [], false⟩ := by
    cases s <;> rfl
  have hnil : (new s owner recents : Exchange α).handoff.toList = [] := congrArg View.queued hnew
  have hnobody : (new s owner recents : Exchange α).handoff.parked = [] := congrArg View.parked hnew
  have hopen : (new s owner recents : Exchange α).handoff.isClosed = false :=
    congrArg View.closed hnew
  have hitems := hx.items_perm rs
  have htakers := hx.takers_perm rs
  have hclosed := hx.closed_after rs
  rw [hnil, List.append_nil] at hitems
  rw [hnobody, List.append_nil] at htakers
  simp only [hopen, Bool.false_eq_true, false_or] at hclosed
  refine ⟨hitems, ?_, htakers, ?_, ?_⟩
  · have hlength := hitems.length_eq
    rw [List.length_append] at hlength
    rw [hlength, Nat.add_comm]
    rfl
  · intro hin t a
    exact step_put_closed (hclosed.mpr hin) t a
  · intro hout t a b hrejected
    have hserves := ((hx.after rs).next (.put t a)).serves
    rw [hrejected] at hserves
    exact hout (hclosed.mp hserves.closed_of_rejected)

end ConnPool.Exchange
