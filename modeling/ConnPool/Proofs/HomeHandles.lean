import ConnPool.Proofs.Floor
import ConnPool.Proofs.SeparateOwners
import ConnPool.Proofs.HolderRules

namespace ConnPool

namespace Pool

variable {p q r : Pool} {id : HandleId} {t : Thread}

/-- What holds of a pool whose threads remember what they gave back, in the middle of operations
too. -/
structure Orderly (p : Pool) : Prop where
  remembers : p.config.threadAffinity = true
  distinct : (p.handles.map (·.id)).Nodup
  numbered : ∀ h ∈ p.handles, h.id.val < p.nextHandle
  full : ∀ h ∈ p.handles, h.state.isHome = true → h.slot.isSome = true
  living : p.cacheOwner ∉ p.recents.dead
  apart : p.handoff.owner? ≠ some p.cacheOwner

/-- The list by which a thread finds back to what it gave back. -/
def memory (p : Pool) (t : Thread) : List Nat := p.recents.list p.cacheOwner t

/-- Who is at home was so before, in the same state and remembered by the same thread. -/
def Homed (p q : Pool) : Prop :=
  ∀ h ∈ q.handles, h.state.isHome = true →
    ∃ k ∈ p.handles, k.id = h.id ∧ k.state = h.state ∧ k.cachedBy = h.cachedBy

/-- The handle is not at home. -/
def Away (p : Pool) (id : HandleId) : Prop := ∀ k ∈ p.handles, k.id = id → k.state.isHome = false

/-- The connection of a handle is in its slot. -/
def Full (p : Pool) (id : HandleId) : Prop := ∀ k ∈ p.handles, k.id = id → k.slot.isSome = true

/-- Handles may leave home. No thread remembers or forgets. -/
structure Still (p q : Pool) : Prop where
  memory : ∀ t, q.memory t = p.memory t
  homed : Homed p q
  nextHandle : q.nextHandle = p.nextHandle
  orderly : p.Orderly → q.Orderly

/-- Handles may leave home, move about at home, or be new there. No thread remembers or forgets. -/
structure Shifts (p q : Pool) : Prop where
  memory : ∀ t, q.memory t = p.memory t
  homes : ∀ h ∈ q.handles, h.state.isHome = true →
    (∃ k ∈ p.handles, k.id = h.id ∧ k.state.isHome = true ∧ (h.state = .new → k.state = .new) ∧
      k.cachedBy = h.cachedBy) ∨ p.nextHandle ≤ h.id.val ∧ h.cachedBy = none
  nextHandle : p.nextHandle ≤ q.nextHandle
  orderly : p.Orderly → q.Orderly

/-- Handles may leave home, and one thread looks through its list. It forgets what it takes, and
what it cannot take. -/
structure Seeks (t : Thread) (p q : Pool) : Prop where
  memory : ∀ u, u ≠ t → q.memory u = p.memory u
  forgets : ∃ ns, p.memory t = ns ++ q.memory t ∧ ∀ n ∈ ns, q.isCached t n = false
  homed : Homed p q
  nextHandle : q.nextHandle = p.nextHandle
  orderly : p.Orderly → q.Orderly

/-- A thread gives a handle back. It and it alone remembers that from now on, and if its list was
full it has forgotten what it gave back first. -/
structure Returned (t : Thread) (id : HandleId) (p q : Pool) : Prop where
  known : id.val < p.nextHandle
  own : q.memory t = (id.val :: p.memory t).take Recents.limit
  others : ∀ u, u ≠ t → q.memory u = p.memory u
  homes : ∀ h ∈ q.handles, h.state.isHome = true →
    h.id = id ∧ h.state ≠ .new ∧ h.cachedBy = some t ∨
      h.id ≠ id ∧ ∃ k ∈ p.handles, k.id = h.id ∧ k.state = h.state ∧ k.cachedBy = h.cachedBy
  nextHandle : q.nextHandle = p.nextHandle
  orderly : p.Orderly → q.Orderly

theorem Homed.refl (p : Pool) : Homed p p := fun h hh _ => ⟨h, hh, rfl, rfl, rfl⟩

theorem Homed.trans (h : Homed p q) (k : Homed q r) : Homed p r := by
  intro x hx hs
  obtain ⟨y, hy, hyid, hystate, hycached⟩ := k x hx hs
  obtain ⟨z, hz, hzid, hzstate, hzcached⟩ := h y hy (hystate ▸ hs)
  exact ⟨z, hz, hzid.trans hyid, hzstate.trans hystate, hzcached.trans hycached⟩

/-- Who is not at home does not come home. -/
theorem Homed.away (h : Homed p q) (ha : p.Away id) : q.Away id := by
  intro x hx hid
  refine Bool.eq_false_iff.mpr fun hs => ?_
  obtain ⟨y, hy, hyid, hystate, -⟩ := h x hx hs
  have hgone := ha y hy (hyid.trans hid)
  rw [hystate, hs] at hgone
  cases hgone

/-- Nobody takes a handle from his own list that is not at home. -/
theorem Away.isCached {n : Nat} (ha : p.Away ⟨n⟩) (t : Thread) : p.isCached t n = false := by
  refine Bool.eq_false_iff.mpr fun htaken => ?_
  obtain ⟨h, hh, hfound⟩ := List.any_eq_true.mp htaken
  obtain ⟨hid, -, hstate⟩ := of_decide_eq_true hfound
  have hgone := ha h hh (congrArg HandleId.mk hid)
  rw [hstate] at hgone
  cases hgone

/-- What a thread could not take before it cannot take later, as long as nothing comes home. -/
theorem Homed.isCached (h : Homed p q) {n : Nat} (hn : p.isCached t n = false) :
    q.isCached t n = false := by
  refine Bool.eq_false_iff.mpr fun hq => ?_
  obtain ⟨x, hx, hfound⟩ := List.any_eq_true.mp hq
  obtain ⟨hid, hcached, hstate⟩ := of_decide_eq_true hfound
  obtain ⟨y, hy, hyid, hystate, hycached⟩ := h x hx (by rw [hstate]; rfl)
  have hp : p.isCached t n = true :=
    List.any_eq_true.mpr
      ⟨y, hy, decide_eq_true ⟨hyid ▸ hid, hycached.trans hcached, hystate.trans hstate⟩⟩
  exact Bool.false_ne_true (hn.symm.trans hp)

theorem Still.refl (p : Pool) : Still p p := ⟨fun _ => rfl, .refl p, rfl, fun h => h⟩

theorem Still.trans (h : Still p q) (k : Still q r) : Still p r :=
  ⟨fun t => (k.memory t).trans (h.memory t), h.homed.trans k.homed, k.nextHandle.trans h.nextHandle,
    fun ho => k.orderly (h.orderly ho)⟩

theorem Still.shifts (h : Still p q) : Shifts p q := by
  refine ⟨h.memory, fun x hx hs => Or.inl ?_, h.nextHandle.ge, h.orderly⟩
  obtain ⟨y, hy, hid, hstate, hcached⟩ := h.homed x hx hs
  exact ⟨y, hy, hid, hstate ▸ hs, fun hnew => hstate.trans hnew, hcached⟩

theorem Still.seeks (h : Still p q) (t : Thread) : Seeks t p q :=
  ⟨fun u _ => h.memory u, ⟨[], (h.memory t).symm, nofun⟩, h.homed, h.nextHandle, h.orderly⟩

theorem Shifts.trans (h : Shifts p q) (k : Shifts q r) : Shifts p r := by
  refine ⟨fun t => (k.memory t).trans (h.memory t),
    fun x hx hs => ?_, h.nextHandle.trans k.nextHandle,
    fun ho => k.orderly (h.orderly ho)⟩
  rcases k.homes x hx hs with ⟨y, hy, hyid, hyhome, hynew, hycached⟩ | ⟨hnew, hnone⟩
  · rcases h.homes y hy hyhome with ⟨z, hz, hzid, hzhome, hznew, hzcached⟩ | ⟨hnew, hnone⟩
    · exact Or.inl
        ⟨z, hz, hzid.trans hyid, hzhome, fun hx => hznew (hynew hx), hzcached.trans hycached⟩
    · exact Or.inr ⟨hyid ▸ hnew, hycached ▸ hnone⟩
  · exact Or.inr ⟨h.nextHandle.trans hnew, hnone⟩

theorem Seeks.trans (h : Seeks t p q) (k : Seeks t q r) : Seeks t p r := by
  obtain ⟨ns, hns, hgone⟩ := h.forgets
  obtain ⟨ms, hms, hgone'⟩ := k.forgets
  refine ⟨fun u hu => (k.memory u hu).trans (h.memory u hu), ⟨ns ++ ms, ?_, ?_⟩,
    h.homed.trans k.homed, k.nextHandle.trans h.nextHandle, fun ho => k.orderly (h.orderly ho)⟩
  · rw [hns, hms, List.append_assoc]
  · exact List.forall_mem_append.mpr ⟨fun n hn => k.homed.isCached (hgone n hn), hgone'⟩

theorem Returned.trans (h : Returned t id p q) (k : Still q r) : Returned t id p r := by
  refine ⟨h.known, (k.memory t).trans h.own, fun u hu => (k.memory u).trans (h.others u hu),
    fun x hx hs => ?_, k.nextHandle.trans h.nextHandle, fun ho => k.orderly (h.orderly ho)⟩
  obtain ⟨y, hy, hyid, hystate, hycached⟩ := k.homed x hx hs
  rcases h.homes y hy (hystate ▸ hs) with ⟨hid, hnew, hown⟩ | ⟨hid, z, hz, hzid, hzstate, hzcached⟩
  · exact Or.inl ⟨hyid ▸ hid, hystate ▸ hnew, hycached ▸ hown⟩
  · exact Or.inr
      ⟨hyid ▸ hid, z, hz, hzid.trans hyid, hzstate.trans hystate, hzcached.trans hycached⟩

/-- Before a thread gives a handle back, others may leave home. -/
theorem Still.returned (h : Still p q) (k : Returned t id q r) : Returned t id p r := by
  refine ⟨h.nextHandle ▸ k.known, h.memory t ▸ k.own,
    fun u hu => (k.others u hu).trans (h.memory u),
    fun x hx hs => ?_, k.nextHandle.trans h.nextHandle, fun ho => k.orderly (h.orderly ho)⟩
  refine (k.homes x hx hs).imp_right fun ⟨hid, y, hy, hyid, hystate, hycached⟩ => ?_
  obtain ⟨z, hz, hzid, hzstate, hzcached⟩ := h.homed y hy (hystate ▸ hs)
  exact ⟨hid, z, hz, hzid.trans hyid, hzstate.trans hystate, hzcached.trans hycached⟩

instance : Act.Rule Orderly Still := ⟨Still.refl, Still.trans, Still.orderly⟩

instance : Act.Rule Orderly Shifts := ⟨fun p => (Still.refl p).shifts, Shifts.trans, Shifts.orderly⟩

instance : Act.Rule Orderly (Seeks t) :=
  ⟨fun p => (Still.refl p).seeks t, Seeks.trans, Seeks.orderly⟩

/-- What stillness is about, beside the handles. -/
def backdrop (p : Pool) : Recents × Nat × Config × Option Nat × Nat :=
  (p.recents, p.nextHandle, p.config, p.handoff.owner?, p.cacheOwner)

theorem memory_of_backdrop (hb : q.backdrop = p.backdrop) (t : Thread) : q.memory t = p.memory t :=
  congrArg (fun b : Recents × Nat × Config × Option Nat × Nat => b.1.list b.2.2.2.2 t) hb

theorem next_of_backdrop (hb : q.backdrop = p.backdrop) : q.nextHandle = p.nextHandle :=
  congrArg (fun b : Recents × Nat × Config × Option Nat × Nat => b.2.1) hb

/-- Some handles are changed or gone; those at home have their connections. -/
theorem Orderly.of_handles (ho : p.Orderly) (hb : q.backdrop = p.backdrop)
    (hids : (q.handles.map (·.id)).Sublist (p.handles.map (·.id)))
    (hh : ∀ h ∈ q.handles, h.state.isHome = true → h.slot.isSome = true) : q.Orderly := by
  simp only [backdrop, Prod.mk.injEq] at hb
  obtain ⟨hrecents, hnext, hconfig, howner, hcache⟩ := hb
  refine ⟨hconfig ▸ ho.remembers, ho.distinct.sublist hids, fun h hq => ?_, hh,
    hcache ▸ hrecents ▸ ho.living, hcache ▸ howner ▸ ho.apart⟩
  obtain ⟨k, hk, hid⟩ := List.mem_map.mp (hids.subset (List.mem_map_of_mem hq))
  rw [hnext, ← hid]
  exact ho.numbered k hk

/-- Some handles are changed or gone; those at home are as before. -/
theorem Still.of_handles (hb : q.backdrop = p.backdrop)
    (hids : (q.handles.map (·.id)).Sublist (p.handles.map (·.id)))
    (hh : ∀ h ∈ q.handles, h.state.isHome = true → ∃ k ∈ p.handles, k.id = h.id ∧
      k.state = h.state ∧
      k.cachedBy = h.cachedBy ∧ (k.slot.isSome = true → h.slot.isSome = true)) : Still p q := by
  refine ⟨memory_of_backdrop hb, fun h hq hs => ?_, next_of_backdrop hb, fun ho => ?_⟩
  · obtain ⟨k, hk, hid, hstate, hcached, -⟩ := hh h hq hs
    exact ⟨k, hk, hid, hstate, hcached⟩
  · refine ho.of_handles hb hids fun h hq hs => ?_
    obtain ⟨k, hk, -, hstate, -, hslot⟩ := hh h hq hs
    exact hslot (ho.full k hk (hstate ▸ hs))

theorem Still.of_same (hb : q.backdrop = p.backdrop) (hh : q.handles = p.handles) : Still p q :=
  .of_handles hb (hh ▸ List.Sublist.refl _) fun h hq _ => ⟨h, hh ▸ hq, rfl, rfl, rfl, fun hs => hs⟩

/-- A handle of a pool in which one was changed is that one, or another and as before. -/
theorem mem_modifyHandle {f : Handle → Handle} {h : Handle}
    (hh : h ∈ (p.modifyHandle id f).handles) :
    (∃ k ∈ p.handles, k.id = id ∧ h = f k) ∨ h ∈ p.handles ∧ h.id ≠ id := by
  obtain ⟨k, hk, rfl⟩ := List.mem_map.mp hh
  by_cases hid : k.id = id
  · exact Or.inl ⟨k, hk, hid, if_pos hid⟩
  · rw [if_neg hid]
    exact Or.inr ⟨hk, hid⟩

/-- One handle is changed, in such a way that it is at home as before or not at all. -/
theorem Still.of_modify {f : Handle → Handle} (hb : q.backdrop = p.backdrop)
    (hq : q.handles = (p.modifyHandle id f).handles) (hid : ∀ k, (f k).id = k.id)
    (hf : ∀ k ∈ p.handles, k.id = id → (f k).state.isHome = true → k.state = (f k).state ∧
      k.cachedBy = (f k).cachedBy ∧ (k.slot.isSome = true → (f k).slot.isSome = true)) :
    Still p q := by
  have hids : (p.modifyHandle id f).handles.map (·.id) = p.handles.map (·.id) :=
    Keyed.map_key_replace hid
  refine .of_handles hb (by rw [hq, hids]) fun h hh hs => ?_
  rw [hq] at hh
  rcases mem_modifyHandle hh with ⟨k, hk, hkid, rfl⟩ | ⟨hold, -⟩
  · exact ⟨k, hk, (hid k).symm, hf k hk hkid hs⟩
  · exact ⟨h, hold, rfl, rfl, rfl, fun hs => hs⟩

theorem Orderly.away (ho : p.Orderly) {s : State} (hs : p.stateOf? id = some s)
    (hh : s.isHome = false) :
    p.Away id := by
  obtain ⟨h, hf, rfl⟩ := find_of_stateOf hs
  intro k hk hid
  have hsame := (Keyed.find_iff Handle.id ho.distinct).mpr ⟨hk, hid⟩
  cases hsame.symm.trans hf
  exact hh

theorem restate_away (p : Pool) (id : HandleId) (s : State) {s' : State} (hs : s'.isHome = false) :
    (p.restate id s s').Away id := by
  intro k hk hid
  obtain ⟨j, -, rfl⟩ := List.mem_map.mp hk
  by_cases hj : j.id = id
  · rw [if_pos hj]
    exact hs
  · rw [if_neg hj] at hid
    exact absurd hid hj

section

variable (p : Pool) (id : HandleId)

theorem spared_still (f : Handle → Handle) (hf : ∀ h : Handle, h.Spared (f h)) :
    Still p (p.modifyHandle id f) :=
  .of_modify rfl rfl (fun k => (hf k).id)
    fun k _ _ _ => ⟨(hf k).state.symm, (hf k).cachedBy.symm, (hf k).slot⟩

/-- A handle that is not at home can be emptied. -/
theorem emptySlot_still (ha : p.Away id) : Still p (p.emptySlot id) :=
  .of_modify rfl rfl (fun _ => rfl) fun k hk hid hs =>
    absurd ((ha k hk hid).symm.trans hs) Bool.false_ne_true

theorem lend_still (ha : p.Away id) (c : Connection) (e : Bool) : Still p (p.lend id c e).2 :=
  .of_modify rfl rfl (fun _ => rfl) fun k hk hid hs =>
    absurd ((ha k hk hid).symm.trans hs) Bool.false_ne_true

/-- A handle may leave home, or go on from where it is not at home. -/
theorem transition_still (s : State) {s' : State} (hs : s'.isHome = false) :
    Still p (p.transition id s s').2 := by
  rcases transition_cases p id s s' with hlost | ⟨-, -, hwon⟩
  · rw [hlost]
    exact .refl p
  · rw [hwon]
    exact .of_modify rfl rfl (fun _ => rfl) fun _ _ _ hh =>
      absurd (hs.symm.trans hh) Bool.false_ne_true

/-- A handle may move about at home. -/
theorem transition_shifts {s s' : State} (hs : s.isHome = true) (ho : p.Orderly) :
    Shifts p (p.transition id s s').2 := by
  rcases transition_cases p id s s' with hlost | ⟨hlegal, hfrom, hwon⟩
  · rw [hlost]
    exact (Still.refl p).shifts
  · rw [hwon]
    have hids : (p.restate id s s').handles.map (·.id) = p.handles.map (·.id) :=
      Keyed.map_key_replace fun _ => rfl
    have hhome : ∀ k ∈ p.handles, k.id = id → k.state.isHome = true := by
      intro k hk hid
      obtain ⟨h, hf, rfl⟩ := find_of_stateOf hfrom
      have hsame := (Keyed.find_iff Handle.id ho.distinct).mpr ⟨hk, hid⟩
      cases hsame.symm.trans hf
      exact hs
    refine ⟨fun _ => rfl, fun h hh hstate => Or.inl ?_, Nat.le_refl _, fun ho => ?_⟩
    · rcases mem_modifyHandle hh with ⟨k, hk, hid, rfl⟩ | ⟨hold, -⟩
      · refine ⟨k, hk, rfl, hhome k hk hid, fun hnew => ?_, rfl⟩
        cases (hnew : s' = .new)
        cases s <;> cases hlegal
      · exact ⟨h, hold, rfl, hstate, fun hnew => hnew, rfl⟩
    · refine ho.of_handles rfl (by rw [hids]) fun h hh hstate => ?_
      rcases mem_modifyHandle hh with ⟨k, hk, hid, rfl⟩ | ⟨hold, -⟩
      · exact ho.full k hk (hhome k hk hid)
      · exact ho.full h hold hstate

theorem strike_still (reserved : Bool) : Still p (p.strike id reserved) := by
  have hgone : Still (p.transition id .toDestroy .destroyed).2 (p.strike id reserved) :=
    .of_handles rfl (List.filter_sublist.map _) fun h hh _ =>
      ⟨h, (List.mem_filter.mp hh).1, rfl, rfl, rfl, fun hs => hs⟩
  exact (transition_still p id .toDestroy rfl).trans hgone

/-- The handoff keeps its lists beside those of the pool. -/
theorem handoff_still {h' : Handoff HandleId} {rs' : Recents} (ho : h'.owner? = p.handoff.owner?)
    (hr : p.recents.Spares p.cacheOwner rs') :
    Still p { p with handoff := h', recents := rs' } := by
  refine ⟨hr.list, .refl p, rfl,
    fun hp => ⟨hp.remembers, hp.distinct, hp.numbered, hp.full, ?_, ?_⟩⟩
  · change p.cacheOwner ∉ rs'.dead
    rw [hr.dead]
    exact hp.living
  · change h'.owner? ≠ some p.cacheOwner
    rw [ho]
    exact hp.apart

theorem offer_still (t : Thread) (hp : p.Orderly) : Still p (p.offer t id).2 := by
  obtain ⟨howner, hspares⟩ := Handoff.put_spares hp.apart hp.living t id
  have hput := handoff_still p howner hspares
  simp only [offer]
  split
  · exact hput
  · exact hput
  · exact hput.trans (.of_same rfl rfl)

instance : MaintenanceRule Orderly Still where
  aside hc _ := by
    simp only [core, desk, Prod.mk.injEq] at hc
    obtain ⟨⟨-, -, -, hconfig, -⟩, hhandles, hhandoff, hrecents, -, -, hnext, hcache⟩ := hc
    refine .of_same ?_ hhandles
    simp only [backdrop, hconfig, hhandoff, hrecents, hnext, hcache]
  note _ _ _ := .of_same rfl rfl
  notify _ _ _ _ := .of_same rfl rfl
  schedule _ := .of_same rfl rfl
  rouse _ _ _ := .of_same rfl rfl
  shut _ := .of_same rfl rfl
  empty _ := by
    refine .of_same ?_ rfl
    simp only [backdrop, Handoff.close_owner]
  modify := spared_still
  offer p t id hp := offer_still p id t hp
  condemn p id s _ _ := transition_still p id s rfl
  emptySlot p id hp hs := emptySlot_still p id (hp.away hs rfl)
  strike _ id _ _ q reserved _ := strike_still q id reserved

theorem claim_still : Still p (p.claim id).2 := by
  have hmarked : Still p (p.unqueue id) := MaintenanceRule.unqueue Orderly p id
  exact hmarked.trans (transition_still (p.unqueue id) id .checkedIn rfl)

theorem claim_away (h : (p.claim id).1 = true) : (p.claim id).2.Away id := by
  rcases transition_cases (p.unqueue id) id .checkedIn .checkedOut with hlost | ⟨-, -, hwon⟩
  · rw [claim, hlost] at h
    cases h
  · rw [claim, hwon]
    exact restate_away (p.unqueue id) id .checkedIn rfl

theorem takeQueued_still (t : Thread) (fuel : Nat) (hp : p.Orderly) :
    Still p (p.takeQueued t fuel).2 := by
  induction fuel generalizing p with
  | zero => exact .refl p
  | succ fuel ih =>
    obtain ⟨howner, hspares⟩ := Handoff.tryTake_spares hp.apart hp.living t
    have htake := handoff_still p howner hspares
    simp only [takeQueued]
    split
    · next heq =>
      rw [heq] at htake
      exact htake
    · next id handoff recents heq =>
      rw [heq] at htake
      have hclaim := htake.trans (claim_still _ id)
      split
      · next hc =>
        rw [hc] at hclaim
        exact hclaim
      · next hc =>
        rw [hc] at hclaim
        exact hclaim.trans (ih _ (hclaim.orderly hp))

/-- A thread's list is cut short, and nothing that it could take is lost. -/
theorem forget_seeks {t : Thread} {ns ms : List Nat} (hlist : p.memory t = ns ++ ms)
    (hq : Still { p with recents := p.recents.set p.cacheOwner t ms } q)
    (hns : ∀ n ∈ ns, q.isCached t n = false) : Seeks t p q := by
  have hset : ∀ u, q.memory u = Function.update (p.recents.list p.cacheOwner) t ms u := fun u =>
    (hq.memory u).trans (congrFun (Stacks.list_set p.recents p.cacheOwner t ms) u)
  refine ⟨fun u hu => ?_, ⟨ns, ?_, hns⟩, hq.homed, hq.nextHandle, fun hp => hq.orderly
    ⟨hp.remembers, hp.distinct, hp.numbered, hp.full, hp.living, hp.apart⟩⟩
  · rw [hset, Function.update_of_ne hu]
    rfl
  · rw [hset, Function.update_self, hlist]

/-- What a thread may take from its own list is gone from home when it has tried. -/
theorem transition_cached (hd : (p.handles.map (·.id)).Nodup) {t : Thread} {n : Nat}
    (hn : p.isCached t n = true) : (p.transition ⟨n⟩ .checkedIn .checkedOut).2.Away ⟨n⟩ := by
  obtain ⟨k, hk, hfound⟩ := List.any_eq_true.mp hn
  obtain ⟨hid, -, hstate⟩ := of_decide_eq_true hfound
  have hkid : k.id = ⟨n⟩ := congrArg HandleId.mk hid
  have hidle : p.stateOf? ⟨n⟩ = some .checkedIn := by
    rw [stateOf_of_find ((Keyed.find_iff Handle.id hd).mpr ⟨hk, hkid⟩), hstate]
  rw [transition_of rfl hidle]
  exact restate_away p ⟨n⟩ .checkedIn rfl

/-- A thread that looks through its list takes the first handle that it may take, and forgets all
before it. -/
theorem takeLocal_sought (t : Thread) (hp : p.Orderly) :
    Seeks t p (p.takeLocal t).2 ∧ ∀ id, (p.takeLocal t).1 = some id →
    (p.takeLocal t).2.Away id := by
  have hsplit : p.memory t = (p.memory t).takeWhile (fun n => !p.isCached t n) ++
      (p.memory t).dropWhile fun n => !p.isCached t n :=
    List.takeWhile_append_dropWhile.symm
  have hbefore : ∀ n ∈ (p.memory t).takeWhile (fun n => !p.isCached t n),
      p.isCached t n = false := by
    intro n hn
    simpa using List.mem_takeWhile_imp hn
  simp only [takeLocal, hp.remembers, if_true]
  split
  · next n ns hdrop =>
    have hdrop : (p.memory t).dropWhile (fun n => !p.isCached t n) = n :: ns := hdrop
    have hhead : p.isCached t n = true := by
      have hne := List.head?_dropWhile_not (fun n => !p.isCached t n) (p.memory t)
      rw [hdrop] at hne
      simpa using hne
    have hstill : Still { p with recents := p.recents.set p.cacheOwner t ns } (Pool.transition
        { p with recents := p.recents.set p.cacheOwner t ns } ⟨n⟩ .checkedIn .checkedOut).2 :=
      transition_still _ _ _ rfl
    have haway :=
      transition_cached { p with recents := p.recents.set p.cacheOwner t ns } hp.distinct hhead
    rw [hdrop, List.append_cons] at hsplit
    refine ⟨forget_seeks p hsplit hstill (List.forall_mem_append.mpr ⟨fun m hm => ?_, ?_⟩), ?_⟩
    · exact hstill.homed.isCached (p := { p with recents := p.recents.set p.cacheOwner t ns })
        (hbefore m hm)
    · exact List.forall_mem_singleton.mpr (haway.isCached t)
    · rintro _ ⟨⟩
      exact haway
  · next hdrop =>
    have hdrop : (p.memory t).dropWhile (fun n => !p.isCached t n) = [] := hdrop
    rw [hdrop] at hsplit
    exact ⟨forget_seeks p hsplit (.refl _) hbefore,
      fun id hid => absurd hid (Option.some_ne_none id).symm⟩

theorem takeQueued_away (t : Thread) (fuel : Nat) (found : (p.takeQueued t fuel).1 = some id) :
    (p.takeQueued t fuel).2.Away id := by
  induction fuel generalizing p with
  | zero => cases found
  | succ fuel ih =>
    simp only [takeQueued] at found ⊢
    split at found
    · cases found
    · next k handoff recents _ =>
      rcases transition_cases
        (({ p with handoff := handoff, recents := recents } : Pool).unqueue k) k
        .checkedIn .checkedOut with hlost | ⟨-, -, hwon⟩
      · simp only [claim, hlost] at found ⊢
        exact ih _ found
      · simp only [claim, hwon] at found ⊢
        cases found
        exact restate_away _ id .checkedIn rfl

theorem takeIdle_sought (t : Thread) (hp : p.Orderly) :
    Seeks t p (p.takeIdle t).2 ∧ ∀ id, (p.takeIdle t).1 = some id → (p.takeIdle t).2.Away id := by
  have hlocal := takeLocal_sought p t hp
  simp only [takeIdle]
  split
  · next heq =>
    rw [heq] at hlocal
    exact hlocal
  · next heq =>
    rw [heq] at hlocal
    exact ⟨hlocal.1.trans ((takeQueued_still _ t _ (hlocal.1.orderly hp)).seeks t),
      fun id found => takeQueued_away _ id t _ found⟩

theorem leave_still (n : Nat) : Still p (p.leave n) := by
  refine .of_same ?_ rfl
  simp only [backdrop, leave, Handoff.withdraw_owner]

theorem grow_still (a : Acquirer) : Still p (grow a p).2 := by
  simp only [grow]
  split
  · exact .refl p
  · split <;> exact .of_same rfl rfl

theorem park_still (a : Acquirer) (hp : p.Orderly) : Still p (park a p) := by
  obtain ⟨howner, hspares⟩ := Handoff.take_spares hp.apart hp.living a.taker false
  have htake := handoff_still p howner hspares
  simp only [park]
  split
  · exact .of_same rfl rfl
  · split <;> exact htake.trans (.of_same rfl rfl)

theorem enroll_shifts (c : Connection) : Shifts p (p.enroll c) := by
  refine ⟨fun _ =>
    rfl, fun h hh hs => ?_, Nat.le_succ _,
      fun hp => ⟨hp.remembers, ?_, ?_, ?_, hp.living, hp.apart⟩⟩
  · rcases List.mem_append.mp hh with hold | hnew
    · exact Or.inl ⟨h, hold, rfl, hs, fun hnew => hnew, rfl⟩
    · rw [List.mem_singleton.mp hnew]
      exact Or.inr ⟨Nat.le_refl _, rfl⟩
  · refine Keyed.nodup_append_new Handle.id hp.distinct fun k hk hid => ?_
    have hlt := hp.numbered k hk
    rw [hid] at hlt
    exact Nat.lt_irrefl _ hlt
  · exact List.forall_mem_append.mpr ⟨fun k hk => Nat.lt_succ_of_lt (hp.numbered k hk),
      List.forall_mem_singleton.mpr (Nat.lt_succ_self _)⟩
  · exact List.forall_mem_append.mpr ⟨hp.full, List.forall_mem_singleton.mpr fun _ => rfl⟩

theorem homecoming_eq (t : Thread) (ha : p.config.threadAffinity = true) : p.homecoming t id =
    { (((((p.clearOwner id).touch id).restate id .checkedOut .checkedIn).count
        fun n => { n with returned := n.returned + 1 }).modifyHandle id fun h =>
          { h with cachedBy := some t }) with
      recents := p.recents.push p.cacheOwner t id.val } := if_pos ha

theorem homecoming_handles (t : Thread) (ha : p.config.threadAffinity = true) :
    (p.homecoming t id).handles = (p.modifyHandle id fun h =>
      { h with
        owner := none
        lastAccess := p.clock
        state := .checkedIn
        cachedBy := some t }).handles := by
  rw [homecoming_eq p id t ha]
  simp only [modifyHandle, clearOwner, touch, restate, count, List.map_map]
  refine List.map_congr_left fun h _ => ?_
  by_cases hid : h.id = id <;> simp [hid]

theorem homecoming_memory (t : Thread) (ha : p.config.threadAffinity = true) (u : Thread) :
    (p.homecoming t id).memory u = Function.update (p.recents.list p.cacheOwner) t
      ((id.val :: p.memory t).take Recents.limit) u := by
  rw [homecoming_eq p id t ha]
  exact congrFun (Stacks.list_set p.recents p.cacheOwner t _) u

theorem homecoming_orderly (t : Thread) (hp : p.Orderly) (hfull : p.Full id) :
    (p.homecoming t id).Orderly := by
  have hpushed : Orderly { p with recents := p.recents.push p.cacheOwner t id.val } :=
    ⟨hp.remembers, hp.distinct, hp.numbered, hp.full, hp.living, hp.apart⟩
  have hbackdrop : (p.homecoming t id).backdrop =
      backdrop { p with recents := p.recents.push p.cacheOwner t id.val } := by
    rw [homecoming_eq p id t hp.remembers]
    simp only [backdrop, modifyHandle, count, restate, touch, clearOwner]
  have hids : (p.homecoming t id).handles.map (·.id) = p.handles.map (·.id) := by
    rw [homecoming_handles p id t hp.remembers]
    exact Keyed.map_key_replace fun _ => rfl
  refine hpushed.of_handles hbackdrop (hids ▸ List.Sublist.refl _) fun x hx hstate => ?_
  rw [homecoming_handles p id t hp.remembers] at hx
  rcases mem_modifyHandle hx with ⟨k, hk, hkid, rfl⟩ | ⟨hold, -⟩
  · exact hfull k hk hkid
  · exact hp.full x hold hstate

/-- A handle that comes back with its connection in its slot is at home, and the thread that gave it
back remembers it first. -/
theorem homecoming_returned (t : Thread) (hp : p.Orderly) (hs : p.stateOf? id = some .checkedOut)
    (hfull : p.Full id) : Returned t id p (p.homecoming t id) := by
  have hlist := homecoming_memory p id t hp.remembers
  obtain ⟨h, hf, -⟩ := find_of_stateOf hs
  obtain ⟨hmem, hid⟩ := mem_of_find hf
  refine ⟨hid ▸ hp.numbered h hmem, ?_, fun u hu => ?_, fun x hx hstate => ?_, ?_,
    fun _ => homecoming_orderly p id t hp hfull⟩
  · rw [hlist, Function.update_self]
  · rw [hlist, Function.update_of_ne hu]
    rfl
  · rw [homecoming_handles p id t hp.remembers] at hx
    rcases mem_modifyHandle hx with ⟨k, hk, hkid, rfl⟩ | ⟨hold, hother⟩
    · exact Or.inl ⟨hkid, State.noConfusion, rfl⟩
    · exact Or.inr ⟨hother, x, hold, rfl, rfl, rfl⟩
  · rw [homecoming_eq p id t hp.remembers]
    rfl

theorem assign_still (t : Thread) (started : Nat) : Still p (p.assign t started id) := by
  have howner := spared_still p id (fun h => { h with owner := some ⟨t, p.clock⟩ })
    fun _ => ⟨rfl, rfl, rfl, fun hs => hs⟩
  exact howner.trans (.of_modify rfl rfl (fun _ => rfl) fun _ _ _ _ => ⟨rfl, rfl, fun hs => hs⟩)

end

instance : SettingRule Orderly Still where
  floor _ _ := .of_same rfl rfl
  patience _ _ := .of_same rfl rfl

instance : LendingRule Orderly Still fun id p => p.Away id where
  disassociate _ _ := .of_same rfl rfl
  part p id _ := transition_still p id _ rfl
  endLease _ _ := .of_same rfl rfl
  claim p id _ := ⟨claim_still p id, claim_away p id⟩
  active _ _ hp hs := hp.away hs rfl
  assign p t started id := assign_still p id t started
  assigned p t started id ha := (assign_still p id t started).homed.away ha
  lend p id c enlisted ha := lend_still p id ha c enlisted

instance : WaitingRule Orderly Still where
  leave := leave_still
  grow := grow_still
  park := park_still
  draw _ _ := .of_same rfl rfl
  announce _ := .of_same rfl rfl

instance : SearchRule t Orderly (Seeks t) fun id p => p.Away id where
  toLendingRule := .mono (R := Still) fun _ _ h => h.seeks t
  takeIdle p hp := takeIdle_sought p t hp

instance : WaitingRule Orderly (Seeks t) := .mono (R := Still) fun _ _ h => h.seeks t

instance : MaintenanceRule Orderly Shifts := .mono (R := Still) fun _ _ h => h.shifts

instance : CreationRule Orderly Shifts where
  enroll := enroll_shifts
  move p id _ _ hp hs _ := transition_shifts p id hs hp
  tell _ _ _ := Still.shifts (.of_same rfl rfl)
  flight _ _ := Still.shifts (.of_same rfl rfl)
  warn _ _ := Still.shifts (.of_same rfl rfl)

end Pool
end ConnPool
