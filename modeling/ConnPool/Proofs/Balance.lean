import ConnPool.Proofs.Capacity
import ConnPool.Proofs.Conservation
import ConnPool.Proofs.HandoverEvents

namespace ConnPool

namespace Roll

variable {asks : Thread → Prop} {ends : HandleId → Prop} {r m q : Roll} {es : List Event}
  {id : HandleId}

/-- The handles that somebody had, and that are gone. -/
def lost (r q : Roll) : List HandleId := r.held.filter (· ∉ q.ids)

theorem mem_held : id ∈ r.held ↔ id ∈ r.ids ∧ r.active id = true := List.mem_filter

theorem mem_lost : id ∈ r.lost q ↔ id ∈ r.held ∧ id ∉ q.ids := by
  rw [lost, List.mem_filter, decide_eq_true_eq]

/-- One more is held if one more is active. -/
theorem length_held_succ (hnodup : r.ids.Nodup) (hids : q.ids = r.ids) (hid : id ∈ r.ids)
    (hidle : r.active id = false) (hactive : q.active = Function.update r.active id true) :
    q.held.length = r.held.length + 1 := by
  have hout : id ∉ r.held := fun hin => by
    rw [(mem_held.mp hin).2] at hidle
    cases hidle
  have hperm : q.held.Perm (id :: r.held) := by
    refine (List.perm_ext_iff_of_nodup ((hids ▸ hnodup).filter _)
      (List.nodup_cons.mpr ⟨hout, hnodup.filter _⟩)).mpr fun k => ?_
    rw [mem_held, List.mem_cons, mem_held, hids, hactive]
    by_cases hk : k = id
    · subst hk
      simp only [Function.update_self, hid, and_self, true_or]
    · simp only [Function.update_of_ne hk, hk, false_or]
  rw [hperm.length_eq, List.length_cons]

/-- Nothing else is held where nothing changes hands and whoever has a handle keeps it. -/
theorem Calm.length_held (h : Calm r q) (hr : r.Orderly) (hq : q.Orderly) (hkeeps : r.Keeps q) :
    q.held.length = r.held.length := by
  refine List.Perm.length_eq ((List.perm_ext_iff_of_nodup (hq.nodup.filter _)
    (hr.nodup.filter _)).mpr fun k => ?_)
  have hboth : k ∈ q.held ↔ k ∈ r.held := by
    rw [mem_held, mem_held]
    constructor
    · rintro ⟨hk, hactive⟩
      rw [h.active k hk] at hactive
      exact ⟨hr.mem_of_active k hactive, hactive⟩
    · rintro ⟨-, hactive⟩
      have hkept := hkeeps k hactive
      exact ⟨hq.mem_of_active k hkept, hkept⟩
  exact hboth

theorem lost_eq_nil (h : ∀ k ∈ r.held, k ∈ q.ids) : r.lost q = [] :=
  List.eq_nil_iff_forall_not_mem.mpr fun k hk => (mem_lost.mp hk).2 (h k (mem_lost.mp hk).1)

theorem lost_of_ids (h : q.ids = r.ids) : r.lost q = [] :=
  lost_eq_nil fun _ hk => h ▸ (mem_held.mp hk).1

theorem Keeps.lost (h : r.Keeps q) (hq : q.Orderly) : r.lost q = [] :=
  lost_eq_nil fun k hk => hq.mem_of_active k (h k (mem_held.mp hk).2)

theorem lost_without (hr : r.Orderly) (hid : id ∈ r.ids) (hactive : r.active id = true)
    (hids : q.ids = r.ids.filter (· ≠ id)) : r.lost q = [id] := by
  refine List.perm_singleton.mp ((List.perm_ext_iff_of_nodup ((hr.nodup.filter _).filter _)
    (List.nodup_singleton id)).mpr fun k => ?_)
  have hboth : k ∈ r.lost q ↔ k = id := by
    rw [mem_lost, mem_held, hids, List.mem_filter, decide_eq_true_eq]
    constructor
    · rintro ⟨⟨hk, -⟩, hgone⟩
      by_contra hne
      exact hgone ⟨hk, hne⟩
    · rintro rfl
      exact ⟨⟨hid, hactive⟩, fun hin => hin.2 rfl⟩
  exact hboth.trans List.mem_singleton.symm

theorem length_held_without (hr : r.Orderly) (hid : id ∈ r.ids) (hactive : r.active id = true)
    (hids : q.ids = r.ids.filter (· ≠ id)) (hothers : ∀ k ≠ id, q.active k = r.active k) :
    r.held.length = q.held.length + 1 := by
  have hheld : q.held = r.held.filter (· ≠ id) := by
    rw [held, held, hids, List.filter_filter, List.filter_filter]
    refine List.filter_congr fun k _ => ?_
    by_cases hk : k = id
    · simp only [hk, ne_eq, not_true_eq_false, decide_false, Bool.and_false, Bool.false_and]
    · simp only [hk, ne_eq, not_false_eq_true, decide_true, Bool.and_true, Bool.true_and,
        hothers k hk]
  have hsplit := length_without (r := { r with ids := r.held }) (hr.nodup.filter _)
    (mem_held.mpr ⟨hid, hactive⟩)
  rw [hheld]
  exact hsplit

/-- What one operation comes to leaves the loans balanced. -/
theorem Tale.balanced (h : r.Tale asks ends es q) (hr : r.Orderly) {n : Nat}
    (hn : r.counters.acquired = r.counters.returned + r.held.length + n) :
    q.counters.acquired = q.counters.returned + q.held.length + (n + (r.lost q).length) := by
  cases h with
  | @lent id t pool d ask mem idle =>
    have hheld : (r.lent id t).held.length = r.held.length + 1 :=
      length_held_succ hr.nodup rfl mem idle rfl
    rw [hheld, lost_of_ids (r := r) (q := r.lent id t) rfl, List.length_nil]
    simp only [Roll.lent]
    omega
  | @returned id pool d active =>
    have hback : (r.returned id).active id = false := Function.update_self ..
    have hheld : r.held.length = (r.returned id).held.length + 1 := by
      refine length_held_succ (r := r.returned id) hr.nodup rfl (hr.mem_of_active id active)
        hback ?_
      simp only [Roll.returned, Function.update_idem, ← active, Function.update_eq_self]
    rw [lost_of_ids (r := r) (q := r.returned id) rfl, List.length_nil]
    simp only [Roll.returned] at hheld ⊢
    omega
  | @ended id pool reason may mem active =>
    have hcalm := (Marks.destroyed pool reason mem).calm hr rfl
    have hlost := lost_without (q := (r.count reason.charge).without id) hr mem active rfl
    have hheld := length_held_without (q := (r.count reason.charge).without id) hr mem active rfl
      fun k hk => Function.update_of_ne hk _ _
    rw [hcalm.acquired, hcalm.returned, hlost, List.length_singleton]
    omega
  | other calm keeps tells =>
    have hcalm := tells.calm hr calm
    rw [hcalm.acquired, hcalm.returned, hcalm.length_held hr (tells.orderly hr) keeps,
      keeps.lost (tells.orderly hr), List.length_nil]
    exact hn

/-- Only an operation that may end a handle in use loses it. -/
theorem Tale.may_end (h : r.Tale asks ends es q) (hr : r.Orderly) (hid : id ∈ r.lost q) :
    ends id := by
  cases h with
  | @lent k t pool d ask mem idle =>
    rw [lost_of_ids (r := r) (q := r.lent k t) rfl] at hid
    cases hid
  | @returned k pool d active =>
    rw [lost_of_ids (r := r) (q := r.returned k) rfl] at hid
    cases hid
  | ended pool reason may mem active =>
    rw [lost_without hr mem active rfl] at hid
    exact List.mem_singleton.mp hid ▸ may
  | other calm keeps tells =>
    rw [keeps.lost (tells.orderly hr)] at hid
    cases hid

/-- Who has a handle had it before, or has just been lent it. -/
theorem Tale.owner (h : r.Tale asks ends es q) (hr : r.Orderly) {t : Thread}
    (ht : q.owner id = some t) :
    r.owner id = some t ∨ asks t ∧ id ∈ r.ids ∧ r.active id = false := by
  cases h with
  | @lent k s pool d ask mem idle =>
    by_cases hk : id = k
    · subst hk
      have hs : s = t := by simpa only [Roll.lent, Function.update_self, Option.some.injEq] using ht
      exact Or.inr ⟨hs ▸ ask, mem, idle⟩
    · simp only [Roll.lent, Function.update_of_ne hk] at ht
      exact Or.inl ht
  | @returned k pool d active =>
    by_cases hk : id = k
    · subst hk
      simp only [Roll.returned, Function.update_self, reduceCtorEq] at ht
    · simp only [Roll.returned, Function.update_of_ne hk] at ht
      exact Or.inl ht
  | ended pool reason may mem active =>
    have hmark := Marks.destroyed pool reason mem
    exact Or.inl ((hmark.calm hr rfl).owner_of (hmark.orderly hr) ht)
  | other calm keeps tells => exact Or.inl ((tells.calm hr calm).owner_of (tells.orderly hr) ht)

end Roll

namespace Pool

/-- The handles that are checked out before an operation and gone after it. -/
def Operation.losses (p : Pool) (op : Operation) : List HandleId :=
  ((p.handles.filter (·.state = .checkedOut)).map (·.id)).filter
    fun id => ((op.run p).find? id).isNone

/-- The handles that a run of operations loses in use. -/
def losses (p : Pool) : List Operation → List HandleId
  | [] => []
  | op :: ops => op.losses p ++ (op.run p).losses ops

/-- In a run a thread's acquire checked a handle out, and the handle has been checked out ever
since. -/
def CheckedOutBy (p : Pool) (ops : List Operation) (id : HandleId) (t : Thread) : Prop :=
  ∃ before op since, ops = before ++ op :: since ∧ op.Asks (p.after before) t ∧
    (p.after before).stateOf? id = some .checkedIn ∧
    ∀ first rest, since = first ++ rest →
      (p.after (before ++ op :: first)).stateOf? id = some .checkedOut

/-- What the counters, the ids and the owners of a pool come to after a run of operations. -/
structure Balanced (p : Pool) (ops : List Operation) : Prop where
  made : (p.after ops).stats.created = (p.after ops).stats.destroyed + (p.after ops).handles.length
  lent : (p.after ops).stats.acquired =
    (p.after ops).stats.returned + (p.after ops).stats.active + (p.losses ops).length
  lost : ∀ before op since, ops = before ++ op :: since →
    ∀ id ∈ op.losses (p.after before), op.Ends (p.after before) id
  charged : (p.after ops).stats.validationFailures + (p.after ops).stats.reaped ≤
    (p.after ops).stats.destroyed
  ascending : (p.after ops).handles.Pairwise (·.id.val < ·.id.val)
  unrepeated : ((p.births ops).map (·.handle)).Nodup
  gone : ∀ before between since id, ops = before ++ (between ++ since) →
    (p.after before).find? id ≠ none → (p.after (before ++ between)).find? id = none →
    (p.after ops).find? id = none
  owned_iff : ∀ h ∈ (p.after ops).handles, h.owner.isSome ↔ h.state = .checkedOut
  owner : ∀ h ∈ (p.after ops).handles, ∀ o, h.owner = some o → p.CheckedOutBy ops h.id o.thread

variable {p q : Pool} {ops : List Operation} {id : HandleId} {t : Thread}

theorem roll_held (hp : p.ledger.Fitting) :
    p.roll.held = (p.handles.filter (·.state = .checkedOut)).map (·.id) := by
  have hids : p.roll.ids = p.handles.map (·.id) := rfl
  rw [Roll.held, hids, List.filter_map]
  exact congrArg _ (List.filter_congr fun h hh => roll_active hp hh)

theorem mem_ids : id ∈ p.roll.ids ↔ p.find? id ≠ none := by
  constructor
  · intro hid hnone
    obtain ⟨h, hh, rfl⟩ := List.mem_map.mp hid
    exact List.find?_eq_none.mp hnone h hh (decide_eq_true rfl)
  · intro hsome
    obtain ⟨h, hf⟩ := Option.ne_none_iff_exists'.mp hsome
    exact mem_roll hf

theorem losses_eq (hp : p.ledger.Fitting) (op : Operation) :
    op.losses p = p.roll.lost (op.run p).roll := by
  rw [Operation.losses, Roll.lost, roll_held hp]
  refine List.filter_congr fun k _ => ?_
  rw [Bool.eq_iff_iff, Option.isNone_iff_eq_none, decide_eq_true_eq, mem_ids, not_not]

theorem Settled.orderly (hp : p.Settled) (hr : p.roll.Orderly) (ops : List Operation) :
    (p.after ops).roll.Orderly := by
  induction ops generalizing p with
  | nil => exact hr
  | cons op ops ih =>
    obtain ⟨es, htale⟩ := op.tale hp.sound
    exact ih (hp.run op) (htale.tells.orderly hr)

theorem Settled.grows (hp : p.Settled) (ops : List Operation) :
    p.roll.Grows (p.after ops).roll := by
  induction ops generalizing p with
  | nil => exact .refl _
  | cons op ops ih =>
    obtain ⟨es, htale⟩ := op.tale hp.sound
    exact htale.tells.grows.trans (ih (hp.run op))

theorem Settled.balanced (hp : p.Settled) (hr : p.roll.Orderly) {n : Nat}
    (hn : p.counters.acquired = p.counters.returned + p.roll.held.length + n)
    (ops : List Operation) :
    (p.after ops).counters.acquired = (p.after ops).counters.returned +
      (p.after ops).roll.held.length + (n + (p.losses ops).length) := by
  induction ops generalizing p n with
  | nil => exact hn
  | cons op ops ih =>
    obtain ⟨es, htale⟩ := op.tale hp.sound
    have hfirst := htale.balanced hr hn
    rw [← losses_eq hp.sound.books.fitting] at hfirst
    have hrest := ih (hp.run op) (htale.tells.orderly hr) hfirst
    rw [losses, List.length_append, ← Nat.add_assoc n]
    exact hrest

theorem CheckedOutBy.snoc {op : Operation} (h : p.CheckedOutBy ops id t)
    (hout : (p.after (ops ++ [op])).stateOf? id = some .checkedOut) :
    p.CheckedOutBy (ops ++ [op]) id t := by
  obtain ⟨before, op', since, rfl, hasks, hidle, hsince⟩ := h
  refine ⟨before, op', since ++ [op], ?_, hasks, hidle, fun first rest hsplit => ?_⟩
  · simp only [List.append_assoc, List.cons_append]
  · rcases List.eq_nil_or_concat rest with rfl | ⟨rest, last, rfl⟩
    · rw [List.append_nil] at hsplit
      subst hsplit
      simpa only [List.append_assoc, List.cons_append] using hout
    · rw [List.concat_eq_append, ← List.append_assoc] at hsplit
      exact hsince first rest (List.append_inj_left' hsplit rfl)

theorem stateOf_of_idle (hp : p.Sound) (hid : id ∈ p.roll.ids) (hidle : p.roll.active id = false) :
    p.stateOf? id = some .checkedIn := by
  obtain ⟨h, hh, rfl⟩ := List.mem_map.mp hid
  have hfit := hp.books.fitting
  rw [roll_active hfit hh, decide_eq_false_iff_not] at hidle
  rcases idle_or_active hfit hh with ⟨hin, -⟩ | hout
  · exact (stateOf_of_find (find_of_mem hfit hh)).trans (congrArg some hin)
  · exact absurd hout hidle

theorem stateOf_of_active (hactive : p.roll.active id = true) :
    p.stateOf? id = some .checkedOut := by
  have hany : (p.find? id).any (·.state = .checkedOut) = true := hactive
  rw [Option.any_eq_true] at hany
  obtain ⟨h, hf, hout⟩ := hany
  exact (stateOf_of_find hf).trans (congrArg some (of_decide_eq_true hout))

/-- Who owns a handle at the end of a run is who checked it out. -/
theorem Settled.checked_out (hp : p.Settled) (hr : p.roll.Orderly)
    (hnobody : ∀ k, p.roll.owner k = none) (ops : List Operation)
    (ht : (p.after ops).roll.owner id = some t) : p.CheckedOutBy ops id t := by
  induction ops using List.reverseRecOn generalizing id t with
  | nil =>
    have hnone : p.roll.owner id = some t := ht
    rw [hnobody] at hnone
    cases hnone
  | append_singleton ops op ih =>
    have hlast := hp.after ops
    have hactive : (p.after (ops ++ [op])).stateOf? id = some .checkedOut := by
      refine stateOf_of_active ?_
      rw [← (hp.orderly hr (ops ++ [op])).owner_iff, ht, Option.isSome_some]
    obtain ⟨es, htale⟩ := op.tale hlast.sound
    rw [after_append] at ht
    rcases htale.owner (hp.orderly hr ops) ht with hbefore | ⟨hasks, hid, hidle⟩
    · exact (ih hbefore).snoc hactive
    · have hbefore := stateOf_of_idle hlast.sound hid hidle
      refine ⟨ops, op, [], rfl, hasks, hbefore, fun first rest hsplit => ?_⟩
      obtain ⟨rfl, rfl⟩ := List.append_eq_nil_iff.mp hsplit.symm
      exact hactive

/-- A handle that has gone does not come back. -/
theorem Settled.stays_gone (hp : p.Settled) (hr : p.roll.Orderly) (between since : List Operation)
    (hthere : p.find? id ≠ none) (hgone : (p.after between).find? id = none) :
    (p.after (between ++ since)).find? id = none := by
  by_contra hback
  have hbefore := hp.grows between
  have hsince := (hp.after between).grows since
  rw [after_append] at hback
  rcases hsince.mem id (mem_ids.mpr hback) with hold | hnew
  · exact mem_ids.mp hold hgone
  · have hlt := hr.lt_next id (mem_ids.mpr hthere)
    have hnext := hbefore.next
    omega

/-- After any operations of any threads the counters balance, ids go up and never come again, and
each handle in use is owned by the thread whose acquire checked it out. -/
theorem counters_balance {c : Config} {f : Factory} {ls : List Listener} {us : Units}
    (hb : build c f ls us = .ok (some p)) (ops : List Operation) : p.Balanced ops := by
  have hp := (fresh_of_build hb).settled
  obtain ⟨bus, hroll⟩ := roll_of_build hb
  have hr : p.roll.Orderly := hroll ▸ orderly_new c f ls us bus
  have hnobody : ∀ k, p.roll.owner k = none := fun k => by rw [hroll]; rfl
  have hnothing : p.counters.acquired = p.counters.returned + p.roll.held.length + 0 := by
    have hcounters : p.counters = (new c f ls us bus).counters := congrArg Roll.counters hroll
    rw [hcounters, hroll]
    rfl
  have hq := hp.after ops
  have hfit := hq.sound.books.fitting
  have horderly := hp.orderly hr ops
  have hbalanced := hp.balanced hr hnothing ops
  have hactive := (tallied_of_sound hq.sound ((fresh_of_build hb).cap_after ops)).active_eq
  rw [roll_held hfit, List.length_map, ← List.countP_eq_length_filter, ← hactive,
    Nat.zero_add] at hbalanced
  have hmade := horderly.made
  have hids : (p.after ops).roll.ids = (p.after ops).handles.map (·.id) := rfl
  rw [hids, List.length_map] at hmade
  have howner : ∀ h ∈ (p.after ops).handles,
      (p.after ops).roll.owner h.id = h.owner.map (·.thread) := fun h hh => by
    simp only [roll, find_of_mem hfit hh, Option.bind_some]
  have hascending := horderly.ascending
  rw [hids, List.pairwise_map] at hascending
  refine ⟨hmade, hbalanced, ?_, horderly.charged, hascending,
    ((fresh_of_build hb).conserved ops).handles_nodup, ?_, ?_, ?_⟩
  · rintro before op since - id hid
    have hm := hp.after before
    obtain ⟨es, htale⟩ := op.tale hm.sound
    rw [losses_eq hm.sound.books.fitting] at hid
    exact htale.may_end (hp.orderly hr before) hid
  · rintro before between since id rfl hthere hgone
    rw [after_append] at hgone ⊢
    exact (hp.after before).stays_gone (hp.orderly hr before) between since hthere hgone
  · intro h hh
    have hiff := horderly.owner_iff h.id
    rw [howner h hh, roll_active hfit hh, Option.isSome_map] at hiff
    rw [hiff, decide_eq_true_eq]
  · intro h hh o ho
    refine hp.checked_out hr hnobody ops ?_
    rw [howner h hh, ho, Option.map_some]

/-- One handle is lent and invalidated, the next is lent and still in use. -/
theorem one_lost_one_in_use :
    ∃ p, build {} {} [] {} = .ok (some p) ∧
      p.losses [.create, .acquire .background 0, .invalidate 0, .create, .acquire .background 0] =
        [⟨1⟩] ∧
      (p.after [.create, .acquire .background 0, .invalidate 0, .create,
        .acquire .background 0]).stats.active = 1 ∧
      p.Balanced [.create, .acquire .background 0, .invalidate 0, .create,
        .acquire .background 0] :=
  ⟨_, rfl, rfl, rfl, @counters_balance _ {} {} [] {} rfl _⟩

end Pool
end ConnPool
