import ConnPool.Proofs.HandoffRequests

namespace ConnPool

/-- The queues of a strategy let items out in the order in which they came in. -/
theorem Handoff.Next.exactly {α : Type} {h h' : Handoff α} {r : Request α} {e : Effect α}
    (hn : Next h r e h') (hs : h.strategy ≠ .bag) : Serves Eq h.view r e h'.view := by
  have hserves := hn.serves
  cases hstrategy : h.strategy with
  | bag => exact absurd hstrategy hs
  | fifo =>
    rw [hstrategy] at hserves
    exact hserves
  | rendezvous =>
    rw [hstrategy] at hserves
    exact hserves

namespace Exchange

open Handoff

variable {α : Type} {x y : Exchange α}

/-- What each request comes to, with the container after it. -/
def trace (x : Exchange α) : List (Request α) → List (Effect α × Handoff α)
  | [] => []
  | r :: rs => ((x.step r).1, (x.step r).2.handoff) :: (x.step r).2.trace rs

/-- All that users of a container can tell of a request and of the container after it. -/
def shown (e : Effect α × Handoff α) : Effect α × View α := (e.1, e.2.view)

/-- What users can tell who do not know one item from another. -/
structure Glance where
  kind : Effect Unit
  parked : List Taker
  size : Nat
  waiters : Nat
  closed : Bool
  deriving DecidableEq

def glance (e : Effect α × Handoff α) : Glance :=
  ⟨e.1.kind, e.2.parked, e.2.size, e.2.waiters, e.2.isClosed⟩

theorem Sound.exactly (hx : x.Sound) (hs : x.handoff.strategy ≠ .bag) (r : Request α) :
    Serves Eq x.handoff.view r (x.step r).1 (x.step r).2.handoff.view :=
  (hx.next r).exactly hs

/-- Containers that keep their items in order and look alike do alike. -/
theorem trace_shown (hx : x.Sound) (hy : y.Sound) (hxs : x.handoff.strategy ≠ .bag)
    (hys : y.handoff.strategy ≠ .bag) (hv : y.handoff.view = x.handoff.view)
    (rs : List (Request α)) :
    (y.trace rs).map shown = (x.trace rs).map shown := by
  induction rs generalizing x y with
  | nil => rfl
  | cons r rs ih =>
    have hserved := hy.exactly hys r
    rw [hv] at hserved
    obtain ⟨heffect, hview⟩ := hserved.functional (hx.exactly hxs r)
    have hrest := ih (hx.step r) (hy.step r) ((hx.next r).strategy ▸ hxs)
      ((hy.next r).strategy ▸ hys) hview
    simp only [trace, List.map_cons, hrest]
    rw [shown, shown, heffect, hview]

theorem glance_congr {e e' : Effect α} {h h' : Handoff α} (hk : e'.kind = e.kind)
    (hv : h'.view.blank = h.view.blank) : glance (e', h') = glance (e, h) := by
  have hsize : h'.size = h.size := by
    have hlength := congrArg (fun v : View Unit => v.queued.length) hv
    simpa [View.blank, view, size] using hlength
  have hparked : h'.parked = h.parked := congrArg View.parked hv
  have hclosed : h'.isClosed = h.isClosed := congrArg View.closed hv
  simp only [glance, waiters, hk, hsize, hparked, hclosed]

/-- Containers of any strategies that look alike but for the items do alike but for the items. -/
theorem trace_glance (hx : x.Sound) (hy : y.Sound)
    (hv : y.handoff.view.blank = x.handoff.view.blank) (rs : List (Request α)) :
    (y.trace rs).map glance = (x.trace rs).map glance := by
  induction rs generalizing x y with
  | nil => rfl
  | cons r rs ih =>
    have hserved := (hx.next r).serves.blank x.handoff.strategy.perm_of_order
    have hserved' := (hy.next r).serves.blank y.handoff.strategy.perm_of_order
    rw [hv] at hserved'
    obtain ⟨hkind, hview⟩ := hserved'.functional hserved
    have hrest := ih (hx.step r) (hy.step r) hview
    simp only [trace, List.map_cons, hrest]
    rw [glance_congr hkind hview]

/-- All strategies answer every run of requests alike, with the same takers parked and the same
numbers after each request. Those with one queue hand out the same items; the free list picks others
among those that it has. -/
theorem strategies_agree (owner : Strategy → Nat) (recents : Strategy → Recents)
    (rs : List (Request α)) :
    let x : Strategy → Exchange α := fun s => new s (owner s) (recents s)
    (∀ s, ((x s).trace rs).map glance = ((x .fifo).trace rs).map glance) ∧
      ((x .rendezvous).trace rs).map shown = ((x .fifo).trace rs).map shown ∧
      ∀ s r, ((((x s).after rs).step r).1.accepted r ++ ((x s).after rs).handoff.toList).Perm
        ((((x s).after rs).step r).1.items ++ (((x s).after rs).step r).2.handoff.toList) := by
  intro x
  have hsound : ∀ s, (x s).Sound := fun s => sound_new s _ _
  have hview : ∀ s, (x s).handoff.view = ⟨[], [], false⟩ := by
    intro s
    cases s <;> rfl
  refine ⟨fun s => ?_, ?_, fun s r => ?_⟩
  · exact trace_glance (hsound .fifo) (hsound s) (by rw [hview, hview]) rs
  · refine trace_shown (hsound .fifo) (hsound .rendezvous)
      Strategy.noConfusion Strategy.noConfusion ?_ rs
    rw [hview, hview]
  · have hserves := (((hsound s).after rs).next r).serves
    exact hserves.items_perm (Strategy.perm_of_order _)

end Exchange
end ConnPool
