import ConnPool.Proofs.History
import ConnPool.Proofs.MaintenanceRules

namespace ConnPool

/-- What can be told of a lease without its connection. -/
structure Term where
  number : Nat
  handle : HandleId
  enlisted : Bool
  deriving DecidableEq

def Lease.term (l : Lease) : Term := ⟨l.number, l.handle, l.enlisted⟩

namespace Pool

/-- What matters to units of work: what is enlisted in them, what is on loan, which handles are
active, and who waits. -/
structure UnitView where
  units : Units
  terms : List Term
  active : HandleId → Prop
  takers : List Taker

def unitView (p : Pool) : UnitView where
  units := p.units
  terms := p.leases.map (·.term)
  active := fun id => p.stateOf? id = some .checkedOut
  takers := p.acquirers.map (·.taker)

/-- How a pool stands, but that some of those who waited may be gone. -/
structure Retains (s : UnitView) (q : Pool) : Prop where
  units : q.units = s.units
  terms : q.unitView.terms = s.terms
  active : ∀ id, q.unitView.active id ↔ s.active id
  takers : q.unitView.takers ⊆ s.takers

variable {p q r : Pool} {s : UnitView} {id : HandleId}

theorem Retains.refl (p : Pool) : Retains p.unitView p :=
  ⟨rfl, rfl, fun _ => Iff.rfl, List.Subset.refl _⟩

theorem Retains.trans (h : Retains s q) (k : Retains q.unitView r) : Retains s r :=
  ⟨k.units.trans h.units, k.terms.trans h.terms, fun id => (k.active id).trans (h.active id),
    List.Subset.trans k.takers h.takers⟩

theorem Retains.of_same (hu : q.units = p.units) (hl : q.leases = p.leases)
    (hh : q.handles = p.handles)
    (ha : q.acquirers.map (·.taker) = p.acquirers.map (·.taker)) : Retains p.unitView q := by
  refine ⟨hu, congrArg (List.map Lease.term) hl, fun id => ?_, fun x hx => ?_⟩
  · simp only [unitView, stateOf?, find?, hh]
  · simpa only [unitView, ha] using hx

theorem Retains.of_muted (h : q.muted = p.muted) : Retains p.unitView q :=
  .of_same (eq_of_muted Pool.units (fun _ => rfl) h) (eq_of_muted Pool.leases (fun _ => rfl) h)
    (eq_of_muted Pool.handles (fun _ => rfl) h)
    (eq_of_muted (fun r : Pool => r.acquirers.map (·.taker)) (fun _ => rfl) h)

theorem modify_retains (p : Pool) (id : HandleId) (f : Handle → Handle)
    (hf : ∀ h, (f h).id = h.id ∧ (f h).state = h.state) :
    Retains p.unitView (p.modifyHandle id f) := by
  refine ⟨rfl, rfl, fun k => ?_, List.Subset.refl _⟩
  simp only [unitView, stateOf_modifyHandle p id f hf k]

theorem touch_retains (p : Pool) (id : HandleId) : Retains p.unitView (p.touch id) :=
  (modify_retains p id (fun h => { h with lastAccess := p.clock }) fun _ => ⟨rfl, rfl⟩).trans
    (.of_same rfl rfl rfl rfl)

theorem clearOwner_retains (p : Pool) (id : HandleId) : Retains p.unitView (p.clearOwner id) :=
  modify_retains p id (fun h => { h with owner := none }) fun _ => ⟨rfl, rfl⟩

theorem unqueue_retains (p : Pool) (id : HandleId) : Retains p.unitView (p.unqueue id) :=
  (modify_retains p id (fun h => { h with queued := false }) fun _ => ⟨rfl, rfl⟩).trans
    (.of_same rfl rfl rfl rfl)

/-- A handle that is moved between two states other than active. -/
theorem restate_retains {s : State} (t : State) (h : p.stateOf? id = some s) (hs : s ≠ .checkedOut)
    (ht : t ≠ .checkedOut) : Retains p.unitView (p.restate id s t) := by
  refine ⟨rfl, rfl, fun k => ?_, List.Subset.refl _⟩
  by_cases hk : k = id
  · subst hk
    simp only [unitView, stateOf_restate h, h, Option.some.injEq, hs, ht]
  · simp only [unitView, restate_stateOf_of_ne hk]

theorem transition_retains (p : Pool) (id : HandleId) {s t : State} (hs : s ≠ .checkedOut)
    (ht : t ≠ .checkedOut) : Retains p.unitView (p.transition id s t).2 := by
  rcases transition_cases p id s t with hlost | ⟨-, hin, hwon⟩
  · rw [hlost]
    exact .refl p
  · rw [hwon]
    exact restate_retains t hin hs ht

/-- Only the acquirers' own affairs change. -/
theorem acquirers_retains (p : Pool) (f : Acquirer → Acquirer) (hf : ∀ a, (f a).taker = a.taker) :
    Retains p.unitView { p with acquirers := p.acquirers.map f } := by
  refine .of_same rfl rfl rfl ?_
  simp only [List.map_map]
  exact List.map_congr_left fun a _ => hf a

theorem deliver_retains (p : Pool) (w : Taker) (x : HandleId) :
    Retains p.unitView (p.deliver w x) :=
  acquirers_retains p _ fun a => by split <;> rfl

theorem tellAcquirer_retains (p : Pool) (n : Nat) (e : Option String) :
    Retains p.unitView (p.tellAcquirer n e) :=
  acquirers_retains p _ fun a => by split <;> rfl

theorem offer_retains (p : Pool) (t : Thread) (id : HandleId) :
    Retains p.unitView (p.offer t id).2 := by
  have hput : ∀ (h' : Handoff HandleId) (rs' : Recents),
      Retains p.unitView { p with handoff := h', recents := rs' } :=
      fun _ _ => .of_same rfl rfl rfl rfl
  simp only [offer]
  split
  · exact hput _ _
  · exact hput _ _
  · exact (hput _ _).trans (deliver_retains _ _ _)

/-- A handle that is not active may be struck off. -/
theorem strike_retains (h : p.stateOf? id ≠ some .checkedOut) (reserved : Bool) :
    Retains p.unitView (p.strike id reserved) := by
  have hmoved := transition_retains p id (s := .toDestroy) (t := .destroyed) (by decide) (by decide)
  have hgone : Retains (p.transition id .toDestroy .destroyed).2.unitView
      (p.strike id reserved) := by
    refine ⟨rfl, rfl, fun k => ?_, List.Subset.refl _⟩
    simp only [unitView, strike, stateOf?, find?, List.find?_filter]
    by_cases hk : k = id
    · subst hk
      have hidle := (hmoved.active k).not.mpr h
      simp only [unitView, stateOf?, find?] at hidle
      refine iff_of_false (fun hin => ?_) hidle
      obtain ⟨x, hx, -⟩ := Option.map_eq_some_iff.mp hin
      simpa using List.find?_some hx
    · have hsame :
        (fun h : Handle => decide (decide (h.id ≠ id) = true ∧ decide (h.id = k) = true)) =
          fun h => decide (h.id = k) := by
        funext h
        by_cases hid : h.id = k <;> simp [hid, hk]
      rw [hsame]
  exact hmoved.trans hgone

/-- A new handle is not active. -/
theorem enroll_retains (p : Pool) (c : Connection) : Retains p.unitView (p.enroll c) := by
  refine ⟨rfl, rfl, fun k => ?_, List.Subset.refl _⟩
  simp only [unitView, stateOf?, find?, enroll, List.find?_append]
  cases p.handles.find? fun h => decide (h.id = k) with
  | some h => exact Iff.rfl
  | none =>
    refine iff_of_false (fun h => ?_) (by simp)
    obtain ⟨x, hx, hs⟩ := Option.map_eq_some_iff.mp h
    rw [Option.none_or] at hx
    have hnew := List.mem_singleton.mp (List.mem_of_find?_eq_some hx)
    rw [hnew] at hs
    cases hs

/-- What stood like this stands like this still. -/
def Upholds (s : UnitView) (p q : Pool) : Prop := Retains s p → Retains s q

theorem Retains.upholds (h : Retains p.unitView q) : Upholds s p q := fun hs => hs.trans h

theorem Upholds.of_same (hu : q.units = p.units) (hl : q.leases = p.leases)
    (hh : q.handles = p.handles)
    (ha : q.acquirers.map (·.taker) = p.acquirers.map (·.taker)) : Upholds s p q :=
  (Retains.of_same hu hl hh ha).upholds

instance : Act.Rule (Retains s) (Upholds s) := ⟨fun _ hs => hs, fun h k hs => k (h hs), fun h => h⟩

instance : CreationRule (Retains s) (Upholds s) where
  aside hc _ := by
    simp only [core, desk, Prod.mk.injEq] at hc
    obtain ⟨⟨-, ha, -⟩, hh, -, -, hu, hl, -⟩ := hc
    exact .of_same hu hl hh (congrArg _ ha)
  note _ _ _ := .of_same rfl rfl rfl rfl
  notify _ _ _ _ := .of_same rfl rfl rfl rfl
  schedule _ := .of_same rfl rfl rfl rfl
  rouse p f hf := (acquirers_retains p f fun a => (hf a).1).upholds
  shut _ := .of_same rfl rfl rfl rfl
  empty _ := .of_same rfl rfl rfl rfl
  modify p id f hf := (modify_retains p id f fun h => ⟨(hf h).id, (hf h).state⟩).upholds
  offer p t id _ := (offer_retains p t id).upholds
  condemn p id _ _ hs := (transition_retains p id hs State.noConfusion).upholds
  emptySlot p id _ _ :=
    (modify_retains p id (fun h => { h with slot := none }) fun _ => ⟨rfl, rfl⟩).upholds
  strike p id hp hend q reserved hq := by
    have hidle : ¬ s.active id := by
      refine (hp.active id).not.mp ?_
      simp only [unitView, hend]
      decide
    exact (strike_retains ((hq.active id).not.mpr hidle) reserved).upholds
  enroll p c := (enroll_retains p c).upholds
  move p id s t _ hs ht := by
    refine (transition_retains p id ?_ ?_).upholds
    · rintro rfl
      cases hs
    · rintro rfl
      cases ht
  tell p n e := (tellAcquirer_retains p n e).upholds
  flight _ _ := .of_same rfl rfl rfl rfl
  warn _ _ := .of_same rfl rfl rfl rfl

instance : SettingRule (Retains s) (Upholds s) where
  floor _ _ := .of_same rfl rfl rfl rfl
  patience _ _ := .of_same rfl rfl rfl rfl

theorem Upholds.retains (h : Upholds p.unitView p q) : Retains p.unitView q := h (.refl p)

theorem Retains.of_keeps {α : Type} {m : PoolAct α}
    (h : Act.Keeps (Retains p.unitView) (Upholds p.unitView) m) :
    Retains p.unitView (m.run p).2 := Upholds.retains (h.run (Retains.refl p))

theorem destroyNow_retains (h : p.stateOf? id = some .toDestroy) (reason : DestroyReason)
    (reserved : Bool) : Retains p.unitView ((destroyNow id reason reserved).run p).2 :=
  Upholds.retains ((destroyNow_abides reason reserved (Retains.refl p) h).run (Retains.refl p))

theorem topUp_retains (p : Pool) : Retains p.unitView p.topUp :=
  Upholds.retains (MaintenanceRule.topUp (Retains p.unitView) p)

/-- A pool that starts has taken nothing from its units, and lent nothing. -/
theorem start_retains (p : Pool) : Retains p.unitView p.start :=
  Upholds.retains (MaintenanceRule.start (Retains p.unitView) p)

theorem write_retains (p : Pool) (n : Nat) (text : String) :
    Retains p.unitView (p.write n text) := by
  refine ⟨rfl, ?_, fun _ => Iff.rfl, List.Subset.refl _⟩
  simp only [unitView, write, List.map_map]
  refine List.map_congr_left fun l _ => ?_
  simp only [Function.comp]
  split <;> rfl

end Pool
end ConnPool
