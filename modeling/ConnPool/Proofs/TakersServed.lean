import ConnPool.Proofs.ItemAccounting

namespace ConnPool.Exchange

open Handoff

variable {α : Type} {x : Exchange α}

/-- What those who wait can count on, after some requests to a container. -/
structure Attended (x : Exchange α) (rs : List (Request α)) : Prop where
  none_beside : 0 < (x.after rs).handoff.waiters → (x.after rs).handoff.size = 0
  put_serves : ∀ t a w ws, (x.after rs).handoff.parked = w :: ws →
    ((x.after rs).step (.put t a)).1 = .offered (.served w a) ∧
      ((x.after rs).step (.put t a)).2.handoff.parked = ws ∧
      ((x.after rs).step (.put t a)).2.handoff.size = 0
  close_dismisses :
    ((x.after rs).step .close).1.answers = (x.after rs).handoff.parked.map (·, .closed) ∧
      ((x.after rs).step .close).2.handoff.parked = []
  none_parks : .close ∈ rs → (x.after rs).handoff.parked = [] ∧
    ∀ t expired, ((x.after rs).step (.take t expired)).1 = .took t .closed ∧
      ((x.after rs).step (.take t expired)).2.handoff.parked = []

/-- An item that is put goes to the longest waiting, and is never queued beside him. -/
theorem Sound.put_serves (hx : x.Sound) (t : Thread) (a : α) {w : Taker} {ws : List Taker}
    (first : x.handoff.parked = w :: ws) :
    (x.step (.put t a)).1 = .offered (.served w a) ∧
      (x.step (.put t a)).2.handoff.parked = ws ∧ (x.step (.put t a)).2.handoff.size = 0 := by
  have hserves := (hx.next (.put t a)).serves
  have hnil : x.handoff.toList = [] := by
    apply hx.orderly.none_beside
    intro halone
    exact List.cons_ne_nil w ws (first.symm.trans halone)
  generalize he : (x.step (.put t a)).1 = e at hserves
  generalize hv : (x.step (.put t a)).2.handoff.view = v at hserves
  cases hserves with
  | refuse closed =>
    have halone := (hx.orderly.none_left closed).2
    exact absurd (first.symm.trans halone) (List.cons_ne_nil w ws)
  | keep isOpen alone more => exact absurd (first.symm.trans alone) (List.cons_ne_nil w ws)
  | @pass _ _ u us isOpen first' =>
    cases first.symm.trans first'
    refine ⟨rfl, congrArg View.parked hv, ?_⟩
    have hqueued : (x.step (.put t a)).2.handoff.toList = [] := (congrArg View.queued hv).trans hnil
    show (x.step (.put t a)).2.handoff.toList.length = 0
    rw [hqueued, List.length_nil]

/-- Who asks a closed container goes away at once. -/
theorem Sound.take_closed (hx : x.Sound) (hc : x.handoff.isClosed = true) (t : Taker)
    (expired : Bool) :
    (x.step (.take t expired)).1 = .took t .closed ∧
      (x.step (.take t expired)).2.handoff.parked = [] := by
  have hserves := (hx.next (.take t expired)).serves
  obtain ⟨hnil, halone⟩ := hx.orderly.none_left hc
  generalize he : (x.step (.take t expired)).1 = e at hserves
  generalize hv : (x.step (.take t expired)).2.handoff.view = v at hserves
  cases hserves with
  | @hand _ _ a q less =>
    have hperm := Strategy.perm_of_order _ _ _ less
    rw [hnil] at hperm
    exact absurd hperm.length_eq (Nat.zero_ne_add_one _)
  | dismiss empty closed => exact ⟨rfl, (congrArg View.parked hv).trans halone⟩
  | late empty isOpen => exact View.clash isOpen hc
  | park empty isOpen => exact View.clash isOpen hc

theorem step_close (x : Exchange α) :
    (x.step .close).1.answers = x.handoff.parked.map (·, .closed) ∧
      (x.step .close).2.handoff.parked = [] := by
  obtain ⟨h', -, -, -, hparked, hclose⟩ := Handoff.close_cases x.handoff
  simp only [step, hclose, Effect.answers, hparked, and_self]

/-- Whatever threads ask of a container of any strategy, nobody waits beside an item, an item that
is put goes to one of those who wait, and the closing sends all of them away for good. -/
theorem nobody_left_behind (s : Strategy) (owner : Nat) (recents : Recents)
    (rs : List (Request α)) : Attended (.new s owner recents) rs := by
  have hx : ((new s owner recents : Exchange α).after rs).Sound :=
    (sound_new s owner recents).after rs
  refine ⟨fun hwait =>
    ?_, fun t a w ws first => hx.put_serves t a first, step_close _, fun hin => ?_⟩
  · have hnil := hx.orderly.none_beside (List.ne_nil_of_length_pos hwait)
    exact congrArg List.length hnil
  · have hc := ((sound_new s owner recents).closed_after rs).mpr (Or.inr hin)
    exact ⟨(hx.orderly.none_left hc).2, hx.take_closed hc⟩

end ConnPool.Exchange
