import ConnPool.Handle
import ConnPool.Thread

namespace ConnPool

/-- The units of work that are active, each with the handle enlisted in it. A thread has at most
one. -/
structure UnitsByThread where
  active : List (Thread × Option HandleId) := []
  deriving DecidableEq

namespace UnitsByThread

def isActive (u : UnitsByThread) (t : Thread) : Bool := u.active.any (·.1 = t)

def current (u : UnitsByThread) (t : Thread) : Option HandleId :=
  (u.active.find? (·.1 = t)).bind (·.2)

/-- An active unit goes on. -/
def start (u : UnitsByThread) (t : Thread) : UnitsByThread :=
  if u.isActive t then u else ⟨(t, none) :: u.active⟩

def finish (u : UnitsByThread) (t : Thread) : UnitsByThread :=
  ⟨u.active.filter (·.1 ≠ t)⟩

/-- The first handle of a unit stays. -/
def associate (u : UnitsByThread) (t : Thread) (h : HandleId) : UnitsByThread :=
  ⟨u.active.map fun (s, held) => (s, if s = t then held.or (some h) else held)⟩

def isEnlisted (u : UnitsByThread) (h : HandleId) : Bool := u.active.any (·.2 = some h)

/-- The handle leaves every unit. -/
def disassociate (u : UnitsByThread) (h : HandleId) : UnitsByThread :=
  ⟨u.active.map fun (s, held) => (s, if held = some h then none else held)⟩

theorem current_finish (u : UnitsByThread) (t s : Thread) :
    (u.finish t).current s = if s = t then none else u.current s := by
  simp only [current, finish, List.find?_filter]
  split
  · next hs =>
    subst hs
    rw [List.find?_eq_none.mpr fun x _ => by simp]
    rfl
  · next hs =>
    have hsame : (fun x : Thread × Option HandleId =>
        decide (decide (x.1 ≠ t) = true ∧ decide (x.1 = s) = true)) =
          fun x => decide (x.1 = s) := by
      funext x
      by_cases hx : x.1 = s <;> simp [hx, hs]
    rw [hsame]

theorem isActive_eq (u : UnitsByThread) (t : Thread) :
    u.isActive t = (u.active.find? (·.1 = t)).isSome := by
  rw [Bool.eq_iff_iff, List.find?_isSome, isActive, List.any_eq_true]

theorem current_of_idle {u : UnitsByThread} {t : Thread} (h : u.isActive t = false) :
    u.current t = none := by
  rw [isActive_eq, Option.isSome_eq_false_iff, Option.isNone_iff_eq_none] at h
  simp only [current, h, Option.bind_none]

theorem current_start (u : UnitsByThread) (t s : Thread) : (u.start t).current s = u.current s := by
  unfold start
  split
  · rfl
  · next hidle =>
    by_cases hs : t = s
    · subst hs
      have hnone : u.current t = none := current_of_idle (by simpa using hidle)
      rw [hnone]
      simp [current]
    · simp [current, hs]

/-- What becomes of each unit, whatever is done to what it holds. -/
theorem current_map (u : UnitsByThread) (f : Thread → Option HandleId → Option HandleId)
    (t : Thread) :
    (UnitsByThread.mk (u.active.map fun (s, held) => (s, f s held))).current t =
      if u.isActive t then f t (u.current t) else none := by
  have hkeys : ((fun x : Thread × Option HandleId => decide (x.1 = t)) ∘
      fun x : Thread × Option HandleId => (x.1, f x.1 x.2)) = fun x => decide (x.1 = t) := rfl
  rw [isActive_eq]
  simp only [current, List.find?_map, hkeys]
  cases hfind : u.active.find? fun x => decide (x.1 = t) with
  | none => rfl
  | some x =>
    have hx : x.1 = t := by simpa using List.find?_some hfind
    simp [hx]

theorem current_associate (u : UnitsByThread) (t s : Thread) (h : HandleId) :
    (u.associate t h).current s =
      if s = t ∧ u.isActive t then (u.current t).or (some h) else u.current s := by
  rw [associate, current_map u fun s held => if s = t then held.or (some h) else held]
  cases hactive : u.isActive s with
  | true =>
    by_cases hs : s = t
    · subst hs
      simp [hactive]
    · simp [hs]
  | false =>
    have hnone := current_of_idle hactive
    by_cases hs : s = t
    · subst hs
      simp [hactive, hnone]
    · simp [hs, hnone]

theorem current_disassociate (u : UnitsByThread) (h : HandleId) (t : Thread) :
    (u.disassociate h).current t = if u.current t = some h then none else u.current t := by
  rw [disassociate, current_map u fun _ held => if held = some h then none else held]
  cases hactive : u.isActive t with
  | true => rfl
  | false => simp [current_of_idle hactive]

end UnitsByThread

/-- One place for a handle, common to all threads. -/
structure SharedUnit where
  slot : Option HandleId := none
  deriving DecidableEq

namespace SharedUnit

def associate (u : SharedUnit) (h : HandleId) : SharedUnit := ⟨u.slot.or (some h)⟩

def disassociate (u : SharedUnit) (h : HandleId) : SharedUnit :=
  if u.slot = some h then ⟨none⟩ else u

end SharedUnit

/-- Which units of work a pool consults. -/
inductive Enlisting where
  | never
  | byThread
  | shared
  deriving DecidableEq

/-- The units of work beside a pool. -/
structure Units where
  enlisting : Enlisting := .never
  byThread : UnitsByThread := {}
  shared : SharedUnit := {}

namespace Units

def current (u : Units) (t : Thread) : Option HandleId :=
  match u.enlisting with
  | .never => none
  | .byThread => u.byThread.current t
  | .shared => u.shared.slot

def associate (u : Units) (t : Thread) (h : HandleId) : Units :=
  match u.enlisting with
  | .never => u
  | .byThread => { u with byThread := u.byThread.associate t h }
  | .shared => { u with shared := u.shared.associate h }

def disassociate (u : Units) (h : HandleId) : Units :=
  match u.enlisting with
  | .never => u
  | .byThread => { u with byThread := u.byThread.disassociate h }
  | .shared => { u with shared := u.shared.disassociate h }

/-- A handle leaves the units, and what else they hold stays. -/
theorem current_disassociate_iff (us : Units) (h k : HandleId) (t : Thread) :
    (us.disassociate h).current t = some k ↔ us.current t = some k ∧ k ≠ h := by
  have cleared : ∀ held : Option HandleId,
      (if held = some h then none else held) = some k ↔ held = some k ∧ k ≠ h := by
    intro held
    by_cases hheld : held = some h
    · rw [if_pos hheld, hheld]
      exact iff_of_false nofun fun hk => hk.2 (Option.some.inj hk.1).symm
    · rw [if_neg hheld]
      refine (and_iff_left_of_imp ?_).symm
      rintro hk rfl
      exact hheld hk
  cases hkind : us.enlisting with
  | never => simp [disassociate, current, hkind]
  | byThread =>
    simp only [disassociate, current, hkind, UnitsByThread.current_disassociate]
    exact cleared _
  | shared =>
    simp only [disassociate, current, hkind, SharedUnit.disassociate]
    rw [← cleared]
    split <;> rfl

theorem current_disassociate_ne (us : Units) (h : HandleId) (t : Thread) :
    (us.disassociate h).current t ≠ some h :=
  fun hk => ((current_disassociate_iff us h h t).mp hk).2 rfl

/-- A thread whose handle leaves the units holds nothing then. -/
theorem current_disassociate_self {us : Units} {h : HandleId} {t : Thread}
    (hu : us.current t = some h) : (us.disassociate h).current t = none := by
  refine Option.eq_none_iff_forall_ne_some.mpr fun k hk => ?_
  obtain ⟨hheld, hne⟩ := (current_disassociate_iff us h k t).mp hk
  exact hne (Option.some.inj (hheld.symm.trans hu))

end Units
end ConnPool
