import ConnPool.Proofs.Effect
import Mathlib.Data.List.Nodup

namespace ConnPool

/-- What the events of a pool are about: its handles in their order, who has which of them, and how
often things have happened. -/
@[ext] structure Roll where
  ids : List HandleId
  active : HandleId → Bool
  owner : HandleId → Option Thread
  next : Nat
  counters : Counters

/-- The events that say that a handle changes hands. -/
def Event.isHandover : Event → Bool
  | acquired .. | returned .. => true
  | _ => false

/-- The handle that an event says is gone. -/
def Event.ends? : Event → Option HandleId
  | destroyed _ id _ => some id
  | _ => none

namespace Roll

def count (r : Roll) (f : Counters → Counters) : Roll := { r with counters := f r.counters }

/-- A handle is made. -/
def grown (r : Roll) : Roll :=
  { r with
    ids := r.ids ++ [⟨r.next⟩]
    next := r.next + 1
    counters := { r.counters with created := r.counters.created + 1 } }

/-- A handle goes to a thread. -/
def lent (r : Roll) (id : HandleId) (t : Thread) : Roll :=
  { r with
    active := Function.update r.active id true
    owner := Function.update r.owner id (some t)
    counters := { r.counters with acquired := r.counters.acquired + 1 } }

/-- A handle comes back. -/
def returned (r : Roll) (id : HandleId) : Roll :=
  { r with
    active := Function.update r.active id false
    owner := Function.update r.owner id none
    counters := { r.counters with returned := r.counters.returned + 1 } }

/-- A handle goes for good. -/
def without (r : Roll) (id : HandleId) : Roll :=
  { r with
    ids := r.ids.filter (· ≠ id)
    active := Function.update r.active id false
    owner := Function.update r.owner id none
    counters := { r.counters with destroyed := r.counters.destroyed + 1 } }

/-- What has happened when an event is sent. -/
inductive Marks (r : Roll) : Event → Roll → Prop where
  | created (pool : String) (d : Duration) : Marks r (.created pool ⟨r.next⟩ d) r.grown
  | creationFailed (pool e : String) : Marks r (.creationFailed pool e)
    (r.count fun n => { n with creationFailures := n.creationFailures + 1 })
  | acquired (pool : String) {id : HandleId} (t : Thread) (d : Duration) (mem : id ∈ r.ids)
    (idle : r.active id = false) : Marks r (.acquired pool id d) (r.lent id t)
  | returned (pool : String) {id : HandleId} (d : Duration) (active : r.active id = true) :
    Marks r (.returned pool id d) (r.returned id)
  | acquireTimedOut (pool : String) (d : Duration) : Marks r (.acquireTimedOut pool d)
    (r.count fun n => { n with timeouts := n.timeouts + 1 })
  | leakSuspected (pool : String) {id : HandleId} (d : Duration) (active : r.active id = true) :
    Marks r (.leakSuspected pool id d)
      (r.count fun n => { n with leaksSuspected := n.leaksSuspected + 1 })
  | destroyed (pool : String) {id : HandleId} (reason : DestroyReason) (mem : id ∈ r.ids) :
    Marks r (.destroyed pool id reason) ((r.count reason.charge).without id)

/-- What has happened when some events have been sent. -/
inductive Tells (r : Roll) : List Event → Roll → Prop where
  | nil : Tells r [] r
  | snoc {es : List Event} {m q : Roll} {e : Event} (before : Tells r es m) (last : Marks m e q) :
    Tells r (es ++ [e]) q

variable {r m q : Roll} {es fs : List Event} {e : Event} {id : HandleId}

theorem Marks.tells (h : Marks r e q) : Tells r [e] q := Tells.nil.snoc h

theorem Tells.trans (h : Tells r es m) (k : Tells m fs q) : Tells r (es ++ fs) q := by
  induction k with
  | nil =>
    rw [List.append_nil]
    exact h
  | snoc before last ih =>
    rw [← List.append_assoc]
    exact ih.snoc last

/-- What fits together on a roll. -/
structure Orderly (r : Roll) : Prop where
  lt_next : ∀ id ∈ r.ids, id.val < r.next
  ascending : r.ids.Pairwise (·.val < ·.val)
  mem_of_active : ∀ id, r.active id = true → id ∈ r.ids
  owner_iff : ∀ id, (r.owner id).isSome = r.active id
  made : r.counters.created = r.counters.destroyed + r.ids.length
  charged : r.counters.validationFailures + r.counters.reaped ≤ r.counters.destroyed

theorem Orderly.nodup (h : r.Orderly) : r.ids.Nodup :=
  h.ascending.imp fun hlt heq => Nat.ne_of_lt hlt (congrArg HandleId.val heq)

theorem Orderly.count (h : r.Orderly) {f : Counters → Counters}
    (hf : ∀ n, (f n).created = n.created ∧ (f n).destroyed = n.destroyed ∧
      (f n).validationFailures = n.validationFailures ∧ (f n).reaped = n.reaped) :
    (r.count f).Orderly := by
  obtain ⟨hcreated, hdestroyed, hfailures, hreaped⟩ := hf r.counters
  refine ⟨h.lt_next, h.ascending, h.mem_of_active, h.owner_iff, ?_, ?_⟩
  · simp only [Roll.count, hcreated, hdestroyed]
    exact h.made
  · simp only [Roll.count, hdestroyed, hfailures, hreaped]
    exact h.charged

theorem Orderly.grown (h : r.Orderly) : r.grown.Orderly := by
  refine ⟨fun id hid => ?_, ?_, fun id hid => ?_, h.owner_iff, ?_, h.charged⟩
  · rcases List.mem_append.mp hid with hold | hnew
    · exact Nat.lt_succ_of_lt (h.lt_next id hold)
    · rw [List.mem_singleton.mp hnew]
      exact Nat.lt_succ_self _
  · refine List.pairwise_append.mpr ⟨h.ascending, List.pairwise_singleton _ _, fun a ha b hb => ?_⟩
    rw [List.mem_singleton.mp hb]
    exact h.lt_next a ha
  · exact List.mem_append_left _ (h.mem_of_active id hid)
  · have hmade := h.made
    simp only [Roll.grown, List.length_append, List.length_singleton]
    omega

theorem Orderly.lent (h : r.Orderly) (hid : id ∈ r.ids) (t : Thread) : (r.lent id t).Orderly := by
  refine ⟨h.lt_next, h.ascending, fun k hk => ?_, fun k => ?_, h.made, h.charged⟩
  · by_cases hkid : k = id
    · exact hkid ▸ hid
    · simp only [Roll.lent, Function.update_of_ne hkid] at hk
      exact h.mem_of_active k hk
  · by_cases hkid : k = id
    · subst hkid
      simp only [Roll.lent, Function.update_self, Option.isSome_some]
    · simp only [Roll.lent, Function.update_of_ne hkid, h.owner_iff]

/-- Nobody has a handle that came back or went. -/
theorem Orderly.released (h : r.Orderly) (id k : HandleId) :
    (Function.update r.owner id none k).isSome = Function.update r.active id false k := by
  by_cases hkid : k = id
  · subst hkid
    simp only [Function.update_self, Option.isSome_none]
  · simp only [Function.update_of_ne hkid, h.owner_iff]

theorem active_of_update {k : HandleId} (hk : Function.update r.active id false k = true) :
    k ≠ id ∧ r.active k = true := by
  by_cases hkid : k = id
  · subst hkid
    simp only [Function.update_self, Bool.false_eq_true] at hk
  · exact ⟨hkid, by simpa only [Function.update_of_ne hkid] using hk⟩

theorem Orderly.returned (h : r.Orderly) (id : HandleId) : (r.returned id).Orderly :=
  ⟨h.lt_next, h.ascending, fun k hk => h.mem_of_active k (active_of_update hk).2, h.released id,
    h.made, h.charged⟩

theorem length_without (h : r.ids.Nodup) (hid : id ∈ r.ids) :
    r.ids.length = (r.ids.filter (· ≠ id)).length + 1 := by
  have herase := List.length_erase_add_one hid
  rw [h.erase_eq_filter] at herase
  simpa only [bne_iff_ne, ne_eq, decide_not, bne, beq_eq_decide] using herase.symm

theorem Orderly.destroyed (h : r.Orderly) (hid : id ∈ r.ids) (reason : DestroyReason) :
    ((r.count reason.charge).without id).Orderly := by
  have hmem : ∀ k, k ∈ r.ids.filter (· ≠ id) ↔ k ∈ r.ids ∧ k ≠ id := fun k => by
    rw [List.mem_filter, decide_eq_true_eq]
  have hlength := length_without h.nodup hid
  have hcharge : (reason.charge r.counters).created = r.counters.created ∧
      (reason.charge r.counters).destroyed = r.counters.destroyed ∧
      (reason.charge r.counters).validationFailures + (reason.charge r.counters).reaped ≤
        r.counters.validationFailures + r.counters.reaped + 1 := by
    cases reason <;> refine ⟨rfl, rfl, ?_⟩ <;> simp only [DestroyReason.charge] <;> omega
  obtain ⟨hcreated, hdestroyed, hcharged⟩ := hcharge
  have hmade := h.made
  have hbound := h.charged
  refine ⟨fun k hk => h.lt_next k ((hmem k).mp hk).1, h.ascending.filter _, fun k hk => ?_,
    h.released id, ?_, ?_⟩
  · obtain ⟨hne, hactive⟩ := active_of_update hk
    exact (hmem k).mpr ⟨h.mem_of_active k hactive, hne⟩
  · simp only [without, Roll.count, hcreated, hdestroyed]
    omega
  · simp only [without, Roll.count, hdestroyed]
    omega

theorem Marks.orderly (h : Marks r e q) (hr : r.Orderly) : q.Orderly := by
  cases h with
  | created pool d => exact hr.grown
  | creationFailed pool e => exact hr.count fun _ => ⟨rfl, rfl, rfl, rfl⟩
  | acquired pool t d mem idle => exact hr.lent mem t
  | returned pool d active => exact hr.returned _
  | acquireTimedOut pool d => exact hr.count fun _ => ⟨rfl, rfl, rfl, rfl⟩
  | leakSuspected pool d active => exact hr.count fun _ => ⟨rfl, rfl, rfl, rfl⟩
  | destroyed pool reason mem => exact hr.destroyed mem reason

theorem Tells.orderly (h : Tells r es q) (hr : r.Orderly) : q.Orderly := by
  induction h with
  | nil => exact hr
  | snoc before last ih => exact last.orderly ih

/-- A handle that is on the roll was on it before, or is new. -/
structure Grows (r q : Roll) : Prop where
  next : r.next ≤ q.next
  mem : ∀ id ∈ q.ids, id ∈ r.ids ∨ r.next ≤ id.val

theorem Grows.refl (r : Roll) : Grows r r := ⟨Nat.le_refl _, fun _ => Or.inl⟩

theorem Grows.trans (h : Grows r m) (k : Grows m q) : Grows r q := by
  refine ⟨Nat.le_trans h.next k.next, fun id hid => ?_⟩
  rcases k.mem id hid with hold | hnew
  · exact h.mem id hold
  · exact Or.inr (Nat.le_trans h.next hnew)

theorem Marks.grows (h : Marks r e q) : Grows r q := by
  cases h with
  | created pool d =>
    refine ⟨Nat.le_succ _, fun id hid => ?_⟩
    rcases List.mem_append.mp hid with hold | hnew
    · exact Or.inl hold
    · exact Or.inr (Nat.le_of_eq (congrArg HandleId.val (List.mem_singleton.mp hnew)).symm)
  | destroyed pool reason mem =>
    exact ⟨Nat.le_refl _, fun id hid => Or.inl (List.mem_filter.mp hid).1⟩
  | _ => exact ⟨Nat.le_refl _, fun _ => Or.inl⟩

theorem Tells.grows (h : Tells r es q) : Grows r q := by
  induction h with
  | nil => exact .refl r
  | snoc before last ih => exact ih.trans last.grows

/-- No handle changes hands, and nothing is counted of that. -/
structure Calm (r q : Roll) : Prop where
  active : ∀ id ∈ q.ids, q.active id = r.active id
  owner : ∀ id ∈ q.ids, q.owner id = r.owner id
  acquired : q.counters.acquired = r.counters.acquired
  returned : q.counters.returned = r.counters.returned

theorem Calm.refl (r : Roll) : Calm r r := ⟨fun _ _ => rfl, fun _ _ => rfl, rfl, rfl⟩

/-- Nobody has a handle that has not been made. -/
theorem Orderly.unborn (h : r.Orderly) (id : HandleId) (hid : r.next ≤ id.val) :
    r.active id = false ∧ r.owner id = none := by
  have hactive : r.active id = false := by
    by_contra hc
    have hmem := h.mem_of_active id (by simpa using hc)
    exact absurd (h.lt_next id hmem) (Nat.not_lt.mpr hid)
  refine ⟨hactive, ?_⟩
  rw [← Option.not_isSome_iff_eq_none, h.owner_iff, hactive]
  exact Bool.false_ne_true

theorem Calm.mark (h : Calm r m) (hr : r.Orderly) (hm : m.Orderly) (hgrows : Grows r m)
    (hmark : Marks m e q) (he : e.isHandover = false) : Calm r q := by
  cases hmark with
  | created pool d =>
    have hnone := hr.unborn ⟨m.next⟩ hgrows.next
    have hnew := hm.unborn ⟨m.next⟩ (Nat.le_refl _)
    refine ⟨fun k hk => ?_, fun k hk => ?_, h.acquired, h.returned⟩
    · rcases List.mem_append.mp hk with hk | hk
      · exact h.active k hk
      · rw [List.mem_singleton.mp hk, hnone.1]
        exact hnew.1
    · rcases List.mem_append.mp hk with hk | hk
      · exact h.owner k hk
      · rw [List.mem_singleton.mp hk, hnone.2]
        exact hnew.2
  | acquired pool t d mem idle => cases he
  | returned pool d active => cases he
  | destroyed pool reason mem =>
    have hcharge : (reason.charge m.counters).acquired = m.counters.acquired ∧
        (reason.charge m.counters).returned = m.counters.returned := by
      cases reason <;> exact ⟨rfl, rfl⟩
    refine ⟨fun k hk => ?_, fun k hk => ?_, hcharge.1.trans h.acquired, hcharge.2.trans h.returned⟩
    · obtain ⟨hmem, hne⟩ := List.mem_filter.mp hk
      simp only [without, Function.update_of_ne (of_decide_eq_true hne)]
      exact h.active k hmem
    · obtain ⟨hmem, hne⟩ := List.mem_filter.mp hk
      simp only [without, Function.update_of_ne (of_decide_eq_true hne)]
      exact h.owner k hmem
  | _ => exact ⟨h.active, h.owner, h.acquired, h.returned⟩

theorem Marks.calm (h : Marks r e q) (hr : r.Orderly) (he : e.isHandover = false) : Calm r q :=
  (Calm.refl r).mark hr hr (.refl r) h he

theorem Tells.calm (h : Tells r es q) (hr : r.Orderly) (hes : ∀ e ∈ es, e.isHandover = false) :
    Calm r q := by
  induction h with
  | nil => exact .refl r
  | snoc before last ih =>
    have hfirst := ih fun e he => hes e (List.mem_append_left _ he)
    exact hfirst.mark hr (before.orderly hr) before.grows last (hes _ List.mem_concat_self)

/-- Where no handle changes hands, who has one had it before. -/
theorem Calm.owner_of (h : Calm r q) (hq : q.Orderly) {t : Thread} (ht : q.owner id = some t) :
    r.owner id = some t := by
  have hmem : id ∈ q.ids := hq.mem_of_active id (by rw [← hq.owner_iff, ht, Option.isSome_some])
  rw [← h.owner id hmem]
  exact ht

/-- Who has a handle keeps it. -/
def Keeps (r q : Roll) : Prop := ∀ id, r.active id = true → q.active id = true

theorem Marks.keeps (h : Marks r e q) (he : e.isHandover = false)
    (hidle : ∀ id ∈ e.ends?, r.active id = false) : Keeps r q := by
  cases h with
  | acquired pool t d mem idle => cases he
  | returned pool d active => cases he
  | @destroyed pool id reason mem =>
    intro k hk
    have hne : k ≠ id := by
      rintro rfl
      rw [hidle k rfl] at hk
      cases hk
    simpa only [without, Roll.count, Function.update_of_ne hne] using hk
  | _ => exact fun _ hk => hk

/-- The handles that somebody has. -/
def held (r : Roll) : List HandleId := r.ids.filter r.active

end Roll
end ConnPool
