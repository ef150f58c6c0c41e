import ConnPool.Proofs.RendezvousSteps
import ConnPool.Proofs.Lists
import Mathlib.Data.Bool.Basic
import Mathlib.Data.List.Count

namespace ConnPool
namespace Rendezvous
namespace Crowd

variable {α : Type}

/-- Places where a taker's registration is. -/
def spot (c : Crowd α) (w : Nat) : Nat := c.waiting.count w + c.count (·.holds w)

/-- The gate is open to one writer or to any readers. -/
def Gated (c : Crowd α) : Prop :=
  c.count (·.writes) ≤ 1 ∧ (0 < c.count (·.writes) → c.count (·.reads) = 0)

/-- What holds between any two steps. A registration is in one place as long as its taker listens
and has not been given anything or told of a close; who has it finds an empty slot. -/
structure Sound (c : Crowd α) : Prop where
  gate : c.Gated
  once : ∀ w, c.spot w ≤ 1
  absent : ∀ w, c.phases[w]?.all (·.early) = true → c.spot w = 0 ∧ c.slots w = {}
  found : ∀ w, c.phases[w]?.any (·.listens) = true → (c.slots w).vacant = true → c.spot w = 1
  blank : ∀ w, 0 < c.spot w → (c.slots w).item = none ∧ (c.slots w).marked = false
  kept : ∀ w, 0 < c.spot w → (c.slots w).abandoned = false → c.phases[w]?.any (·.listens) = true
  alert : ∀ w, c.phases[w]?.any (·.listens) = true → (c.slots w).abandoned = false
  counted : c.waiters = c.count (·.enrolled)

/-- A call has gone from one phase to another. -/
structure Turn (c c' : Crowd α) (i : Nat) (ph ph' : Phase α) : Prop where
  before : c.phases[i]? = some ph
  after : c'.phases = c.phases.set i ph'

variable {c c' : Crowd α} {i w : Nat} {ph ph' : Phase α}

namespace Turn

theorem count (t : Turn c c' i ph ph') (p : Phase α → Bool) :
    c'.count p + (p ph).toNat = c.count p + (p ph').toNat := by
  simp only [Crowd.count, t.after]
  exact countP_set_add t.before p

theorem own (t : Turn c c' i ph ph') : c'.phases[i]? = some ph' := by
  have hlt : i < c.phases.length := (List.getElem?_eq_some_iff.mp t.before).1
  rw [t.after, List.getElem?_set_self hlt]

theorem other (t : Turn c c' i ph ph') (hw : w ≠ i) : c'.phases[w]? = c.phases[w]? := by
  rw [t.after, List.getElem?_set_ne (Ne.symm hw)]

/-- A phase that is new is one that its call was in before. -/
theorem all_back (t : Turn c c' i ph ph') {p : Phase α → Bool} (hp : p ph' = true → p ph = true)
    (h : c'.phases[w]?.all p = true) : c.phases[w]?.all p = true := by
  by_cases hw : w = i
  · subst hw
    rw [t.own] at h
    rw [t.before]
    exact hp h
  · rwa [t.other hw] at h

theorem any_back (t : Turn c c' i ph ph') {p : Phase α → Bool} (hp : p ph' = true → p ph = true)
    (h : c'.phases[w]?.any p = true) : c.phases[w]?.any p = true := by
  by_cases hw : w = i
  · subst hw
    rw [t.own] at h
    rw [t.before]
    exact hp h
  · rwa [t.other hw] at h

/-- A call that asks no more of the gate than before. -/
theorem gated (t : Turn c c' i ph ph') (h : c.Gated) (hw : ph'.writes = true → ph.writes = true)
    (hr : ph'.reads = true → ph.reads = true) : c'.Gated := by
  have hwrites := t.count (·.writes)
  have hreads := t.count (·.reads)
  have hlew := Bool.toNat_le_toNat hw
  have hler := Bool.toNat_le_toNat hr
  obtain ⟨hone, hnone⟩ := h
  refine ⟨by omega, fun hpos => ?_⟩
  have hno := hnone (by omega)
  omega

theorem spot (t : Turn c c' i ph ph') (w : Nat) :
    c'.spot w + (ph.holds w).toNat + c.waiting.count w =
      c.spot w + (ph'.holds w).toNat + c'.waiting.count w := by
  have hcount := t.count (·.holds w)
  simp only [Crowd.spot]
  omega

/-- A call lets go of a registration. -/
theorem released (t : Turn c c' i ph ph') (hwaiting : c'.waiting = c.waiting)
    (hbefore : ∀ v, ph.holds v = decide (w = v)) (hafter : ∀ v, ph'.holds v = false) (v : Nat) :
    c'.spot v + (decide (w = v)).toNat = c.spot v := by
  have hmoved := t.spot v
  rw [hbefore, hafter, hwaiting, Bool.toNat_false] at hmoved
  omega

end Turn

theorem listens_cases (h : ph.listens = true) :
    ph.early = false ∧ ph.reads = false ∧ ph.writes = false ∧ ph.enrolled = true ∧
      ∀ w, ph.holds w = false := by
  cases ph <;> first | exact ⟨rfl, rfl, rfl, rfl, fun _ => rfl⟩ | cases h

/-- A step that leaves the slots as they are, and takes registrations away at most from those who do
not listen any more. -/
theorem Sound.turn (h : c.Sound) (t : Turn c c' i ph ph')
    (hgate : c'.Gated)
    (hslots : c'.slots = c.slots) (hless : ∀ w, c'.spot w ≤ c.spot w)
    (hkept : ∀ w, (c.slots w).vacant = true → c'.spot w = c.spot w)
    (hearly : ph'.early = true → ph.early = true)
      (hlistens : ph'.listens = true → ph.listens = true)
    (hstill : ph.listens = true → (c.slots i).vacant = true → ph'.listens = true)
    (hwaiters : c'.waiters + ph.enrolled.toNat = c.waiters + ph'.enrolled.toNat) : c'.Sound := by
  have hcount := t.count (·.enrolled)
  refine ⟨hgate, ?_, ?_, ?_, ?_, ?_, ?_, ?_⟩
  · intro w
    exact Nat.le_trans (hless w) (h.once w)
  · intro w hw
    obtain ⟨hspot, hslot⟩ := h.absent w (t.all_back hearly hw)
    exact ⟨Nat.le_zero.mp (hspot ▸ hless w), hslots ▸ hslot⟩
  · intro w hw hv
    rw [hslots] at hv
    rw [hkept w hv]
    exact h.found w (t.any_back hlistens hw) hv
  · intro w hw
    rw [hslots]
    exact h.blank w (Nat.lt_of_lt_of_le hw (hless w))
  · intro w hw habandoned
    rw [hslots] at habandoned
    have hpos := Nat.lt_of_lt_of_le hw (hless w)
    obtain ⟨hitem, hmarked⟩ := h.blank w hpos
    have hin := h.kept w hpos habandoned
    by_cases hwi : w = i
    · subst hwi
      rw [t.before, Option.any_some] at hin
      rw [t.own, Option.any_some]
      exact hstill hin (Slot.vacant_iff.mpr ⟨hitem, habandoned, hmarked⟩)
    · rwa [t.other hwi]
  · intro w hw
    rw [hslots]
    exact h.alert w (t.any_back hlistens hw)
  · have hold := h.counted
    omega

theorem covers_iff : ph.covers ph' = true ↔
    (ph'.writes = true → ph.writes = true) ∧ (ph'.reads = true → ph.reads = true) ∧
      (ph'.early = true → ph.early = true) ∧ ph.listens = ph'.listens := by
  have hor : ∀ a b : Bool, (a || !b) = true ↔ (b = true → a = true) := by decide
  simp only [Phase.covers, Bool.and_eq_true, hor, beq_iff_eq, and_assoc]

/-- A call moves on and takes nothing out of the line and puts nothing into it. -/
theorem Sound.stand (h : c.Sound) (t : Turn c c' i ph ph') (hgate : c'.Gated)
    (hslots : c'.slots = c.slots) (hwaiting : c'.waiting = c.waiting)
    (hholds : ∀ w, ph'.holds w = ph.holds w) (hearly : ph'.early = true → ph.early = true)
    (hlistens : ph'.listens = true → ph.listens = true)
    (hstill : ph.listens = true → (c.slots i).vacant = true → ph'.listens = true)
    (hwaiters : c'.waiters + ph.enrolled.toNat = c.waiters + ph'.enrolled.toNat) : c'.Sound := by
  have hspot : ∀ w, c'.spot w = c.spot w := by
    intro w
    have hmoved := t.spot w
    rw [hholds, hwaiting] at hmoved
    omega
  exact h.turn t hgate hslots (fun w => Nat.le_of_eq (hspot w)) (fun w _ => hspot w) hearly hlistens
    hstill hwaiters

theorem Sound.pass (h : c.Sound) (t : Turn c c' i ph ph') (hslots : c'.slots = c.slots)
    (hwaiting : c'.waiting = c.waiting) (hholds : ∀ w, ph'.holds w = ph.holds w)
    (hcovers : ph.covers ph' = true)
    (hwaiters : c'.waiters + ph.enrolled.toNat = c.waiters + ph'.enrolled.toNat) : c'.Sound := by
  obtain ⟨hwrites, hreads, hearly, hlistens⟩ := covers_iff.mp hcovers
  exact h.stand t (t.gated h.gate hwrites hreads) hslots hwaiting hholds hearly (hlistens ▸ id)
    (fun hl _ => hlistens ▸ hl) hwaiters

/-- A call that has a registration gives its taker something, or tells it of a close. -/
theorem Sound.answer (h : c.Sound) (t : Turn c c' i ph ph')
    {f : Slot α → Slot α} (hslots : c'.slots = Function.update c.slots w (f (c.slots w)))
    (hvacant : ∀ s, (f s).vacant = false) (hkept : ∀ s, (f s).abandoned = s.abandoned)
    (hwaiting : c'.waiting = c.waiting) (hbefore : ∀ v, ph.holds v = decide (w = v))
    (hafter : ∀ v, ph'.holds v = false) (hcovers : ph.covers ph' = true)
    (hwaiters : c'.waiters + ph.enrolled.toNat = c.waiters + ph'.enrolled.toNat) : c'.Sound := by
  obtain ⟨hwrites, hreads, hearly, hsame⟩ := covers_iff.mp hcovers
  have hlistens : ph'.listens = true → ph.listens = true := hsame ▸ id
  have hspot := t.released hwaiting hbefore hafter
  have hgone : c'.spot w = 0 := by
    have hone := hspot w
    have hmost := h.once w
    simp only [decide_true, Bool.toNat_true] at hone
    omega
  have hother : ∀ v, v ≠ w → c'.spot v = c.spot v ∧ c'.slots v = c.slots v := by
    intro v hv
    refine ⟨by simpa [Ne.symm hv] using hspot v, ?_⟩
    rw [hslots, Function.update_of_ne hv]
  have habandoned : ∀ v, (c'.slots v).abandoned = (c.slots v).abandoned := by
    intro v
    by_cases hv : v = w
    · rw [hslots, hv, Function.update_self]
      exact hkept _
    · rw [(hother v hv).2]
  have hcount := t.count (·.enrolled)
  refine ⟨t.gated h.gate hwrites hreads, ?_, ?_, ?_, ?_, ?_, ?_, ?_⟩
  · intro v
    have hone := hspot v
    have hmost := h.once v
    omega
  · intro v hv
    have hold := h.absent v (t.all_back hearly hv)
    have hvw : v ≠ w := by
      rintro rfl
      have hone := hspot v
      simp only [decide_true, Bool.toNat_true] at hone
      omega
    rw [(hother v hvw).1, (hother v hvw).2]
    exact hold
  · intro v hv hempty
    have hvw : v ≠ w := by
      rintro rfl
      rw [hslots, Function.update_self, hvacant] at hempty
      cases hempty
    rw [(hother v hvw).2] at hempty
    rw [(hother v hvw).1]
    exact h.found v (t.any_back hlistens hv) hempty
  · intro v hv
    have hvw : v ≠ w := by
      rintro rfl
      omega
    rw [(hother v hvw).1] at hv
    rw [(hother v hvw).2]
    exact h.blank v hv
  · intro v hv hlive
    have hvw : v ≠ w := by
      rintro rfl
      omega
    rw [(hother v hvw).1] at hv
    rw [habandoned] at hlive
    have hin := h.kept v hv hlive
    by_cases hvi : v = i
    · subst hvi
      rw [t.before, Option.any_some, hsame] at hin
      rwa [t.own]
    · rwa [t.other hvi]
  · intro v hv
    rw [habandoned]
    exact h.alert v (t.any_back hlistens hv)
  · have hold := h.counted
    omega

/-- A taker turns away. -/
theorem Sound.vacate (h : c.Sound) (hi : c.phases[i]? = some ph) (hold : ph.listens = true)
    (hearly : ph'.early = false) (hlistens : ph'.listens = false) (hreads : ph'.reads = false)
    (hwrites : ph'.writes = false) (henrolled : ph'.enrolled = true)
      (hholds : ∀ w, ph'.holds w = false) :
    ((c.amend i .vacate).move i ph').Sound := by
  obtain ⟨-, -, -, henrolledOld, hholdsOld⟩ := listens_cases hold
  have t : Turn c ((c.amend i .vacate).move i ph') i ph ph' := ⟨hi, rfl⟩
  have hspot : ∀ w, ((c.amend i .vacate).move i ph').spot w = c.spot w := by
    intro w
    have hmoved := t.spot w
    rw [hholds, hholdsOld] at hmoved
    exact Nat.add_right_cancel hmoved
  have hother : ∀ w, w ≠ i → ((c.amend i .vacate).move i ph').slots w = c.slots w := by
    intro w hw
    exact Function.update_of_ne hw _ _
  have hcount := t.count (·.enrolled)
  refine ⟨t.gated h.gate (by simp [hwrites]) (by simp [hreads]), ?_, ?_, ?_, ?_, ?_, ?_, ?_⟩
  · intro w
    rw [hspot]
    exact h.once w
  · intro w hw
    have hwi : w ≠ i := by
      rintro rfl
      rw [t.own, Option.all_some, hearly] at hw
      cases hw
    rw [hspot, hother w hwi]
    exact h.absent w (t.all_back (by simp [hearly]) hw)
  · intro w hw hv
    have hwi : w ≠ i := by
      rintro rfl
      rw [t.own, Option.any_some, hlistens] at hw
      cases hw
    rw [hother w hwi] at hv
    rw [hspot]
    exact h.found w (t.any_back (by simp [hlistens]) hw) hv
  · intro w hw
    rw [hspot] at hw
    obtain ⟨hitem, hmarked⟩ := h.blank w hw
    by_cases hwi : w = i
    · subst hwi
      have hslot : ((c.amend w .vacate).move w ph').slots w = (c.slots w).vacate :=
        Function.update_self ..
      rw [hslot]
      exact ⟨rfl, hmarked⟩
    · rw [hother w hwi]
      exact ⟨hitem, hmarked⟩
  · intro w hw hlive
    have hwi : w ≠ i := by
      rintro rfl
      have hslot : ((c.amend w .vacate).move w ph').slots w = (c.slots w).vacate :=
        Function.update_self ..
      rw [hslot] at hlive
      cases hlive
    rw [hspot] at hw
    rw [hother w hwi] at hlive
    rw [t.other hwi]
    exact h.kept w hw hlive
  · intro w hw
    have hwi : w ≠ i := by
      rintro rfl
      rw [t.own, Option.any_some, hlistens] at hw
      cases hw
    rw [hother w hwi]
    exact h.alert w (t.any_back (by simp [hlistens]) hw)
  · have hcounted : ((c.amend i .vacate).move i ph').waiters = c.count (·.enrolled) := h.counted
    rw [henrolled, henrolledOld] at hcount
    omega

theorem Sound.depart (h : c.Sound) (hi : c.phases[i]? = some ph) (hold : ph.listens = true)
    (u : Take α) :
    (c.depart i u).Sound :=
  h.vacate hi hold rfl rfl rfl rfl rfl fun _ => rfl

theorem Sound.rest (h : c.Sound) (hi : c.phases[i]? = some ph) (hold : ph.stays = true) :
    (c.rest i).Sound := by
  have hlistens : ph.listens = true := by
    cases ph <;> first | rfl | cases hold
  obtain ⟨-, -, -, henrolled, hholds⟩ := listens_cases hlistens
  simp only [Crowd.rest]
  split
  · exact h.depart hi hlistens _
  · split
    · next hmarked =>
      have t : Turn c (c.move i (.leave .closed)) i ph (.leave .closed) := ⟨hi, rfl⟩
      refine h.stand t (t.gated h.gate nofun nofun) rfl rfl (fun w => (hholds w).symm) nofun nofun
        (fun _ hv => ?_) ?_
      · exact absurd (Slot.vacant_iff.mp hv).2.2 (by simp [hmarked])
      · rw [henrolled]
        rfl
    · refine h.pass ⟨hi, rfl⟩ rfl rfl (fun w => (hholds w).symm)
        (covers_iff.mpr ⟨nofun, nofun, nofun, hlistens⟩) ?_
      rw [henrolled]
      rfl

/-- A taker registers. -/
theorem Sound.register (h : c.Sound) (t : Turn c c' i .register .last) (hslots : c'.slots = c.slots)
    (hwaiting : c'.waiting = c.waiting ++ [i]) (hwaiters : c'.waiters = c.waiters) : c'.Sound := by
  obtain ⟨hnowhere, hfresh⟩ := h.absent i (by rw [t.before]; rfl)
  have hspot : ∀ w, c'.spot w = c.spot w + (decide (i = w)).toNat := by
    intro w
    have hmoved := t.spot w
    rw [hwaiting, count_concat_add] at hmoved
    change _ + 0 + _ = _ + 0 + _ at hmoved
    omega
  have hother : ∀ w, w ≠ i → c'.spot w = c.spot w := by
    intro w hw
    simpa [Ne.symm hw] using hspot w
  have hself : c'.spot i = 1 := by
    simp [hspot i, hnowhere]
  have hcount := t.count (·.enrolled)
  refine ⟨t.gated h.gate id id, ?_, ?_, ?_, ?_, ?_, ?_, ?_⟩
  · intro w
    by_cases hw : w = i
    · exact Nat.le_of_eq (hw ▸ hself)
    · rw [hother w hw]
      exact h.once w
  · intro w hw
    have hwi : w ≠ i := by
      rintro rfl
      rw [t.own] at hw
      cases hw
    rw [hother w hwi, hslots]
    exact h.absent w (by rwa [t.other hwi] at hw)
  · intro w hw hv
    by_cases hwi : w = i
    · rw [hwi, hself]
    · rw [hslots] at hv
      rw [hother w hwi]
      exact h.found w (by rwa [t.other hwi] at hw) hv
  · intro w hw
    rw [hslots]
    by_cases hwi : w = i
    · rw [hwi, hfresh]
      exact ⟨rfl, rfl⟩
    · rw [hother w hwi] at hw
      exact h.blank w hw
  · intro w hw hlive
    by_cases hwi : w = i
    · rw [hwi, t.own]
      rfl
    · rw [hother w hwi] at hw
      rw [hslots] at hlive
      rw [t.other hwi]
      exact h.kept w hw hlive
  · intro w hw
    rw [hslots]
    by_cases hwi : w = i
    · rw [hwi, hfresh]
    · exact h.alert w (by rwa [t.other hwi] at hw)
  · have hcounted := h.counted
    change c'.count (·.enrolled) + 1 = c.count (·.enrolled) + 1 at hcount
    omega

/-- A call takes the first registration out of the line. -/
theorem Sound.pop (h : c.Sound) (t : Turn c c' i ph ph') (hslots : c'.slots = c.slots)
    (hwaiting : c.waiting = w :: c'.waiting) (hbefore : ∀ v, ph.holds v = false)
    (hafter : ∀ v, ph'.holds v = decide (w = v)) (hcovers : ph.covers ph' = true)
    (hwaiters : c'.waiters + ph.enrolled.toNat = c.waiters + ph'.enrolled.toNat) : c'.Sound := by
  obtain ⟨hwrites, hreads, hearly, hlistens⟩ := covers_iff.mp hcovers
  have hspot : ∀ v, c'.spot v = c.spot v := by
    intro v
    have hmoved := t.spot v
    rw [hbefore, hafter, hwaiting, count_cons_add, Bool.toNat_false] at hmoved
    omega
  exact h.turn t (t.gated h.gate hwrites hreads) hslots (fun v => Nat.le_of_eq (hspot v))
    (fun v _ => hspot v) hearly (hlistens ▸ id) (fun hl _ => hlistens ▸ hl) hwaiters

/-- A call drops a registration whose taker does not listen any more. -/
theorem Sound.drop (h : c.Sound) (t : Turn c c' i ph ph') (hslots : c'.slots = c.slots)
    (hwaiting : c'.waiting = c.waiting) (hdeaf : (c.slots w).vacant = false)
    (hbefore : ∀ v, ph.holds v = decide (w = v)) (hafter : ∀ v, ph'.holds v = false)
    (hcovers : ph.covers ph' = true)
    (hwaiters : c'.waiters + ph.enrolled.toNat = c.waiters + ph'.enrolled.toNat) : c'.Sound := by
  obtain ⟨hwrites, hreads, hearly, hlistens⟩ := covers_iff.mp hcovers
  have hspot := t.released hwaiting hbefore hafter
  refine h.turn t (t.gated h.gate hwrites hreads) hslots (fun v => ?_) (fun v hv => ?_) hearly
    (hlistens ▸ id) (fun hl _ => hlistens ▸ hl) hwaiters
  · have hone := hspot v
    omega
  · have hvw : w ≠ v := by
      rintro rfl
      rw [hdeaf] at hv
      cases hv
    simpa [hvw] using hspot v

/-- A call puts a registration back into the line. -/
theorem Sound.restore (h : c.Sound) {n : Nat} (hi : c.phases[i]? = some (.putBack n w)) :
    (c.next i (.putBack n w)).Sound := by
  have t : Turn c (c.next i (.putBack n w)) i (.putBack n w) (.sift n) := ⟨hi, rfl⟩
  have hspot : ∀ v, (c.next i (.putBack n w)).spot v = c.spot v := by
    intro v
    have hmoved := t.spot v
    have hwaiting : (c.next i (.putBack n w)).waiting = c.waiting ++ [w] := rfl
    rw [hwaiting, count_concat_add] at hmoved
    change _ + (decide (w = v)).toNat + _ = _ + 0 + _ at hmoved
    omega
  exact h.turn t (t.gated h.gate id id) rfl (fun v => Nat.le_of_eq (hspot v)) (fun v _ => hspot v)
    (fun _ => rfl) id nofun rfl

theorem Sound.next (h : c.Sound) (hi : c.phases[i]? = some ph) : (c.next i ph).Sound := by
  cases ph with
  | knock a k =>
    simp only [Crowd.next]
    split
    · next hfree =>
      have t : Turn c (c.move i (.check a k)) i (.knock a k) (.check a k) := ⟨hi, rfl⟩
      have hwrites : (c.move i (.check a k)).count (·.writes) = 0 :=
        (t.count (·.writes)).trans hfree
      exact h.stand t ⟨by omega, fun hpos => by omega⟩ rfl rfl (fun _ => rfl) id id
        (fun hfalse => absurd hfalse Bool.false_ne_true) rfl
    · exact h
  | check a k =>
    simp only [Crowd.next]
    split
    · cases k with
      | none => exact h.pass ⟨hi, rfl⟩ rfl rfl (fun _ => rfl) rfl rfl
      | some x => exact h.pass ⟨hi, rfl⟩ rfl rfl (fun _ => rfl) rfl rfl
    · exact h.pass ⟨hi, rfl⟩ rfl rfl (fun _ => rfl) rfl rfl
  | look a k =>
    simp only [Crowd.next]
    split
    · exact h.pass ⟨hi, rfl⟩ rfl rfl (fun _ => rfl) rfl rfl
    · next w ws hw => exact h.pop ⟨hi, rfl⟩ rfl hw (fun _ => rfl) (fun _ => rfl) rfl rfl
  | deliver w a k =>
    simp only [Crowd.next]
    split
    · cases k with
      | none =>
        exact h.answer (f := .fill a) ⟨hi, rfl⟩ rfl (by simp) (fun _ => rfl) rfl (fun _ => rfl)
          (fun _ => rfl) rfl rfl
      | some x =>
        exact h.answer (f := .fill a) ⟨hi, rfl⟩ rfl (by simp) (fun _ => rfl) rfl (fun _ => rfl)
          (fun _ => rfl) rfl rfl
    · next hv =>
      exact h.drop ⟨hi, rfl⟩ rfl rfl (Bool.eq_false_iff.mpr hv) (fun _ => rfl)
        (fun _ => rfl) rfl rfl
  | push a k =>
    cases k with
    | none => exact h.pass ⟨hi, rfl⟩ rfl rfl (fun _ => rfl) rfl rfl
    | some x => exact h.pass ⟨hi, rfl⟩ rfl rfl (fun _ => rfl) rfl rfl
  | first =>
    simp only [Crowd.next]
    split <;> exact h.pass ⟨hi, rfl⟩ rfl rfl (fun _ => rfl) rfl rfl
  | second =>
    simp only [Crowd.next]
    split <;> exact h.pass ⟨hi, rfl⟩ rfl rfl (fun _ => rfl) rfl rfl
  | measure => exact h.pass ⟨hi, rfl⟩ rfl rfl (fun _ => rfl) rfl rfl
  | weigh n =>
    simp only [Crowd.next]
    split <;> exact h.pass ⟨hi, rfl⟩ rfl rfl (fun _ => rfl) rfl rfl
  | sift n =>
    cases n with
    | zero => exact h.pass ⟨hi, rfl⟩ rfl rfl (fun _ => rfl) rfl rfl
    | succ n =>
      simp only [Crowd.next]
      split
      · exact h.pass ⟨hi, rfl⟩ rfl rfl (fun _ => rfl) rfl rfl
      · next w ws hw => exact h.pop ⟨hi, rfl⟩ rfl hw (fun _ => rfl) (fun _ => rfl) rfl rfl
  | judge n w =>
    simp only [Crowd.next]
    split
    · next hgone =>
      have hdeaf : (c.slots w).vacant = false := by simp [Slot.vacant, hgone]
      exact h.drop ⟨hi, rfl⟩ rfl rfl hdeaf (fun _ => rfl) (fun _ => rfl) rfl rfl
    · exact h.pass ⟨hi, rfl⟩ rfl rfl (fun _ => rfl) rfl rfl
  | putBack n w => exact h.restore hi
  | enroll => exact h.pass ⟨hi, rfl⟩ rfl rfl (fun _ => rfl) rfl rfl
  | register => exact h.register ⟨hi, rfl⟩ rfl rfl rfl
  | last =>
    simp only [Crowd.next]
    split <;> exact h.pass ⟨hi, rfl⟩ rfl rfl (fun _ => rfl) rfl rfl
  | quit x =>
    simp only [Crowd.next]
    split <;> exact h.vacate hi rfl rfl rfl rfl rfl rfl fun _ => rfl
  | ask =>
    simp only [Crowd.next]
    split <;> exact h.pass ⟨hi, rfl⟩ rfl rfl (fun _ => rfl) rfl rfl
  | resign => exact h.depart hi rfl .closed
  | park => exact h.rest hi rfl
  | asleep => exact h.rest hi rfl
  | leave u =>
    have hpos : 0 < c.count (·.enrolled) :=
      List.countP_pos_iff.mpr ⟨_, List.mem_of_getElem? hi, rfl⟩
    have hcounted := h.counted
    refine h.pass ⟨hi, rfl⟩ rfl rfl (fun _ => rfl) rfl ?_
    change c.waiters - 1 + 1 = c.waiters + 0
    omega
  | shut =>
    simp only [Crowd.next]
    split
    · next hfree =>
      have t : Turn c (c.move i .mark) i .shut .mark := ⟨hi, rfl⟩
      have hreads : (c.move i .mark).count (·.reads) = 0 := (t.count (·.reads)).trans hfree.1
      have hwrites : (c.move i .mark).count (·.writes) = c.count (·.writes) + 1 :=
        t.count (·.writes)
      exact h.stand t ⟨by omega, fun _ => hreads⟩ rfl rfl (fun _ => rfl) id id
        (fun hfalse => absurd hfalse Bool.false_ne_true) rfl
    · exact h
  | mark => exact h.pass ⟨hi, rfl⟩ rfl rfl (fun _ => rfl) rfl rfl
  | rouse =>
    simp only [Crowd.next]
    split
    · exact h.pass ⟨hi, rfl⟩ rfl rfl (fun _ => rfl) rfl rfl
    · next w ws hw => exact h.pop ⟨hi, rfl⟩ rfl hw (fun _ => rfl) (fun _ => rfl) rfl rfl
  | notify w =>
    exact h.answer (f := .shut) ⟨hi, rfl⟩ rfl (by simp) (fun _ => rfl) rfl (fun _ => rfl)
      (fun _ => rfl)
      rfl rfl
  | drain as =>
    simp only [Crowd.next]
    split <;> exact h.pass ⟨hi, rfl⟩ rfl rfl (fun _ => rfl) rfl rfl
  | glance =>
    simp only [Crowd.next]
    split <;> exact h.pass ⟨hi, rfl⟩ rfl rfl (fun _ => rfl) rfl rfl
  | done o => exact h

theorem count_begin (c : Crowd α) (ph : Phase α) (p : Phase α → Bool) :
    (c.begin ph).count p = c.count p + (p ph).toNat := by
  simp only [count, begin, List.countP_append, Keyed.countP_first, List.countP_nil, Nat.zero_add]

/-- Who calls last is the only one whose phase a new call may change. -/
theorem phases_begin (c : Crowd α) (ph : Phase α) (w : Nat) :
    (c.begin ph).phases[w]? = c.phases[w]? ∨
      c.phases[w]? = none ∧ (c.begin ph).phases[w]? = some ph := by
  rcases Nat.lt_trichotomy w c.phases.length with hw | hw | hw
  · exact .inl (List.getElem?_append_left hw)
  · subst hw
    exact .inr ⟨List.getElem?_eq_none (Nat.le_refl _), List.getElem?_concat_length⟩
  · refine .inl ?_
    rw [List.getElem?_eq_none (Nat.le_of_lt hw)]
    apply List.getElem?_eq_none
    simp only [begin, List.length_append, List.length_singleton]
    omega

/-- A call comes in. -/
theorem Sound.begin (h : c.Sound) (hreads : ph.reads = false) (hwrites : ph.writes = false)
    (hlistens : ph.listens = false) (henrolled : ph.enrolled = false)
    (hholds : ∀ w, ph.holds w = false) :
    (c.begin ph).Sound := by
  have hspot : ∀ w, (c.begin ph).spot w = c.spot w := by
    intro w
    have hcount := count_begin c ph (·.holds w)
    rw [hholds] at hcount
    exact congrArg (c.waiting.count w + ·) hcount
  have hgate : ∀ p : Phase α → Bool, p ph = false → (c.begin ph).count p = c.count p := by
    intro p hp
    rw [count_begin, hp]
    rfl
  have hany : ∀ w : Nat, (c.begin ph).phases[w]?.any (·.listens) = true →
      c.phases[w]?.any (·.listens) = true := by
    intro w hw
    rcases phases_begin c ph w with hsame | ⟨-, hnew⟩
    · rwa [hsame] at hw
    · rw [hnew, Option.any_some, hlistens] at hw
      cases hw
  refine ⟨?_, ?_, ?_, ?_, ?_, ?_, ?_, ?_⟩
  · rw [Gated, hgate _ hwrites, hgate _ hreads]
    exact h.gate
  · intro w
    rw [hspot]
    exact h.once w
  · intro w hw
    rw [hspot]
    apply h.absent w
    rcases phases_begin c ph w with hsame | ⟨hnone, -⟩
    · rwa [hsame] at hw
    · rw [hnone]
      rfl
  · intro w hw hv
    rw [hspot]
    exact h.found w (hany w hw) hv
  · intro w hw
    rw [hspot] at hw
    exact h.blank w hw
  · intro w hw hlive
    rw [hspot] at hw
    have hin := h.kept w hw hlive
    rcases phases_begin c ph w with hsame | ⟨hnone, -⟩
    · rwa [hsame]
    · rw [hnone] at hin
      cases hin
  · intro w hw
    exact h.alert w (hany w hw)
  · rw [hgate _ henrolled]
    exact h.counted

theorem Sound.step (h : c.Sound) (m : Move α) : (c.step m).Sound := by
  cases m with
  | put a => exact h.begin rfl rfl rfl rfl fun _ => rfl
  | take => exact h.begin rfl rfl rfl rfl fun _ => rfl
  | tryTake => exact h.begin rfl rfl rfl rfl fun _ => rfl
  | close => exact h.begin rfl rfl rfl rfl fun _ => rfl
  | go i =>
    simp only [Crowd.step]
    split
    · next ph hi => exact h.next hi
    · exact h
  | expire i =>
    simp only [Crowd.step]
    split
    · next hi => exact h.depart hi rfl _
    · exact h

theorem Sound.run (h : c.Sound) (ms : List (Move α)) : (c.run ms).Sound := by
  induction ms generalizing c with
  | nil => exact h
  | cons m ms ih => exact ih (h.step m)

theorem sound_empty : (({} : Crowd α)).Sound :=
  ⟨⟨Nat.zero_le _, fun _ => rfl⟩, fun _ => Nat.zero_le _, fun _ _ => ⟨rfl, rfl⟩, nofun,
    fun _ _ => ⟨rfl, rfl⟩, nofun, nofun, rfl⟩

theorem Quiet.count_eq (hq : c.Quiet) {p : Phase α → Bool}
    (hp : ∀ ph, ph.settled = true → p ph = false) : c.count p = 0 := by
  apply List.countP_eq_zero.mpr
  intro ph hph
  rw [hp ph (hq ph hph)]
  exact Bool.false_ne_true

theorem asleep_of_any {p : Phase α → Bool} (hp : ∀ ph, p ph = true → ph = .asleep)
    (h : c.phases[w]?.any p = true) : c.phases[w]? = some .asleep := by
  obtain ⟨ph, hw, hph⟩ := (Option.any_eq_true ..).mp h
  rw [hw, hp ph hph]

/-- A sleeper that is left alone has its registration in the line, once. -/
theorem Forlorn.registered (hf : c.Forlorn w) (hs : c.Sound) (hq : c.Quiet) :
    c.phases[w]? = some .asleep ∧ (c.slots w).vacant = true ∧ c.waiting.count w = 1 := by
  obtain ⟨hsleeps, hitem, hmarked⟩ := hf
  have hasleep : c.phases[w]? = some .asleep :=
    asleep_of_any (fun ph hph => by cases ph <;> first | rfl | cases hph) hsleeps
  have hlistens : c.phases[w]?.any (·.listens) = true := by
    rw [hasleep]
    rfl
  have hvacant : (c.slots w).vacant = true :=
    Slot.vacant_iff.mpr ⟨hitem, hs.alert w hlistens, hmarked⟩
  have hspot := hs.found w hlistens hvacant
  have hholds : c.count (·.holds w) = 0 := hq.count_eq fun ph hph => by
    cases ph <;> first | rfl | cases hph
  rw [spot, hholds] at hspot
  exact ⟨hasleep, hvacant, hspot⟩

end Crowd
end Rendezvous
end ConnPool
