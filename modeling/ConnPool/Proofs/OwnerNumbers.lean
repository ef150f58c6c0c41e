import ConnPool.Proofs.PairedOperations
import ConnPool.Proofs.SeparateOwners

namespace ConnPool

/-- The owner numbers from `first` on, under which somebody keeps lists by thread among all that
threads remembered for everybody at a moment before. -/
structure OwnerRange where
  first : Nat
  before : Recents

/-- Whoever has the first `n` numbers of a range lives. The lists of all others that live are as
they were before. -/
structure OwnerRange.Keeps (w : OwnerRange) (n : Nat) (r : Recents) : Prop where
  alive : ∀ i < n, w.first + i ∉ w.before.dead
  dead : r.dead = w.before.dead
  others : ∀ o, (∀ i < n, o ≠ w.first + i) → o ∉ w.before.dead → ∀ t, r.list o t = w.before.list o t

/-- Two ranges under which the same is remembered. -/
structure Recents.SameLists (n : Nat) (v w : OwnerRange) (r s : Recents) : Prop where
  left : v.Keeps n r
  right : w.Keeps n s
  own : ∀ i < n, ∀ t, s.list (w.first + i) t = r.list (v.first + i) t

namespace Recents

variable {n i : Nat} {v w : OwnerRange} {r s : Recents}

theorem keeps_set (h : w.Keeps n r) (hi : i < n) (t : Thread) (xs : List Nat) :
    w.Keeps n (r.set (w.first + i) t xs) where
  alive := h.alive
  dead := h.dead
  others o ho hd u := by
    have hspares : r.Spares o (r.set (w.first + i) t xs) := set_spares (ho i hi) (h.dead ▸ hd) t xs
    exact (hspares.list u).trans (h.others o ho hd u)

/-- Under one range, one list is changed. -/
theorem list_set_range (h : w.Keeps n r) (hi : i < n) {j : Nat} (hj : j < n) (t : Thread)
    (xs : List Nat) :
    (r.set (w.first + i) t xs).list (w.first + j) =
      if j = i then Function.update (r.list (w.first + i)) t xs else r.list (w.first + j) := by
  by_cases hji : j = i
  · subst hji
    rw [if_pos rfl, Stacks.list_set]
  · have hother : w.first + j ≠ w.first + i := by omega
    have hspares : r.Spares (w.first + j) (r.set (w.first + i) t xs) :=
      set_spares hother (h.dead ▸ h.alive j hj) t xs
    rw [if_neg hji]
    exact funext hspares.list

theorem SameLists.set (h : SameLists n v w r s) (hi : i < n) (t : Thread) (xs : List Nat) :
    SameLists n v w (r.set (v.first + i) t xs) (s.set (w.first + i) t xs) where
  left := keeps_set h.left hi t xs
  right := keeps_set h.right hi t xs
  own j hj u := by
    have hsame : ∀ k < n, s.list (w.first + k) = r.list (v.first + k) :=
      fun k hk => funext (h.own k hk)
    rw [list_set_range h.left hi hj, list_set_range h.right hi hj, hsame i hi, hsame j hj]

/-- From here on. -/
theorem SameLists.here (h : SameLists n v w r s) : SameLists n ⟨v.first, r⟩ ⟨w.first, s⟩ r s where
  left := ⟨fun i hi => h.left.dead ▸ h.left.alive i hi, rfl, fun _ _ _ _ => rfl⟩
  right := ⟨fun i hi => h.right.dead ▸ h.right.alive i hi, rfl, fun _ _ _ _ => rfl⟩
  own := h.own

/-- Others have been at work in both places. -/
theorem SameLists.elsewhere {f g : Nat} {r' s' : Recents} (h : SameLists n ⟨f, r⟩ ⟨g, s⟩ r s)
    (hleft : ∀ i < n, f + i ∉ r'.dead ∧ ∀ t, r'.list (f + i) t = r.list (f + i) t)
    (hright : ∀ i < n, g + i ∉ s'.dead ∧ ∀ t, s'.list (g + i) t = s.list (g + i) t) :
    SameLists n ⟨f, r'⟩ ⟨g, s'⟩ r' s' where
  left := ⟨fun i hi => (hleft i hi).1, rfl, fun _ _ _ _ => rfl⟩
  right := ⟨fun i hi => (hright i hi).1, rfl, fun _ _ _ _ => rfl⟩
  own i hi t := ((hright i hi).2 t).trans ((h.own i hi t).trans ((hleft i hi).2 t).symm)

end Recents

namespace Handoff

variable {α : Type}

/-- The container by another owner number. -/
def labelled (h : Handoff α) (o : Nat) : Handoff α :=
  match h with
  | bag b => bag { b with owner := o }
  | h => h

/-- The same container under two ranges, by the `i`th number of each. -/
structure SameLists (i n : Nat) (v w : OwnerRange) (x y : Handoff α × Recents) : Prop where
  mine : x.1.labelled (v.first + i) = x.1
  same : y.1 = x.1.labelled (w.first + i)
  recents : Recents.SameLists n v w x.2 y.2

variable {i n : Nat} {v w : OwnerRange} {x y : Handoff α × Recents}

theorem view_labelled (h : Handoff α) (o : Nat) : (h.labelled o).view = h.view := by
  cases h <;> rfl

theorem labelled_labelled (h : Handoff α) (o m : Nat) :
    (h.labelled o).labelled m = h.labelled m := by
  cases h <;> rfl

theorem labelled_new (s : Strategy) (o m : Nat) :
    (new s o : Handoff α).labelled m = new s m := by
  cases s <;> rfl

end Handoff

namespace Bag

variable {α : Type} {i n : Nat} {v w : OwnerRange} {r s : Recents} {b : Bag α}

/-- What two bags have come to that differ in their numbers only. -/
structure SameLists {β : Type} (i n : Nat) (v w : OwnerRange) (x y : β × Bag α × Recents) :
    Prop where
  answer : y.1 = x.1
  mine : x.2.1.owner = v.first + i
  same : y.2.1 = { x.2.1 with owner := w.first + i }
  recents : Recents.SameLists n v w x.2.2 y.2.2

theorem SameLists.cases {β : Type} {x y : β × Bag α × Recents} (h : SameLists i n v w x y) :
    ∃ a c r s, x = (a, c, r) ∧ y = (a, { c with owner := w.first + i }, s) ∧ c.owner = v.first + i ∧
      Recents.SameLists n v w r s :=
  ⟨x.1, x.2.1, x.2.2, y.2.2, rfl, Prod.ext h.answer (Prod.ext h.same rfl), h.mine, h.recents⟩

theorem tryTake_sameLists (hi : i < n) (hb : b.owner = v.first + i)
    (h : Recents.SameLists n v w r s) (t : Thread) :
    SameLists i n v w (b.tryTake r t) (tryTake { b with owner := w.first + i } s t) := by
  have hlist : s.list (w.first + i) t = r.list b.owner t := by rw [hb, h.own i hi]
  have hset : ∀ xs, Recents.SameLists n v w (r.set b.owner t xs) (s.set (w.first + i) t xs) := by
    intro xs
    rw [hb]
    exact h.set hi t xs
  have hhas : ∀ k, has { b with owner := w.first + i } k = b.has k := fun _ => rfl
  simp only [tryTake, hlist, hhas]
  split
  · exact ⟨rfl, hb, rfl, hset _⟩
  · split
    · exact ⟨rfl, hb, rfl, hset _⟩
    · exact ⟨rfl, hb, rfl, hset _⟩

theorem put_sameLists (hi : i < n) (hb : b.owner = v.first + i) (h : Recents.SameLists n v w r s)
    (t : Thread) (a : α) :
    SameLists i n v w (b.put r t a) (put { b with owner := w.first + i } s t a) := by
  have hlist : s.list (w.first + i) t = r.list b.owner t := by rw [hb, h.own i hi]
  have hpush : Recents.SameLists n v w (r.push b.owner t b.sequence)
      (s.push (w.first + i) t b.sequence) := by
    simp only [Recents.push, hlist, hb]
    exact h.set hi t _
  simp only [put]
  split
  · exact ⟨rfl, hb, rfl, h⟩
  · split
    · exact ⟨rfl, hb, rfl, hpush⟩
    · next x ws _ =>
      obtain ⟨z, c, r', s', hr, hs, hc, hlists⟩ := (tryTake_sameLists (b := { b with
        entries := b.entries ++ [(b.sequence, a)], sequence := b.sequence + 1 }) hi hb hpush
        x.thread).cases
      dsimp only at hr hs
      rw [hr, hs]
      cases z with
      | none => exact ⟨rfl, hc, rfl, hlists⟩
      | some y => exact ⟨rfl, hc, rfl, hlists⟩

theorem take_sameLists (hi : i < n) (hb : b.owner = v.first + i) (h : Recents.SameLists n v w r s)
    (t : Taker) (expired : Bool) :
    SameLists i n v w (b.take r t expired) (take { b with owner := w.first + i } s t expired) := by
  obtain ⟨z, c, r', s', hr, hs, hc, hlists⟩ := (tryTake_sameLists hi hb h t.thread).cases
  simp only [take, hr, hs]
  cases z with
  | some x => exact ⟨rfl, hc, rfl, hlists⟩
  | none =>
    simp only
    split
    · exact ⟨rfl, hc, rfl, hlists⟩
    · split
      · exact ⟨rfl, hc, rfl, hlists⟩
      · exact ⟨rfl, hc, rfl, hlists⟩

end Bag

namespace Handoff

variable {α : Type} {i n : Nat} {v w : OwnerRange} {k l : Handoff α} {r s : Recents}

theorem owner_of_labelled {b : Bag α} {o : Nat} (h : (bag b).labelled o = bag b) : b.owner = o :=
  (congrArg Bag.owner (Handoff.bag.inj h)).symm

/-- What two bags have come to, two containers have come to. -/
theorem sameLists_of_bag {β : Type} {x y : β × Bag α × Recents} (h : Bag.SameLists i n v w x y) :
    y.1 = x.1 ∧ SameLists i n v w (.bag x.2.1, x.2.2) (.bag y.2.1, y.2.2) := by
  obtain ⟨a, c, r, s, rfl, rfl, hc, hlists⟩ := h.cases
  exact ⟨rfl, congrArg (fun o => bag { c with owner := o }) hc.symm, rfl, hlists⟩

theorem SameLists.view (h : SameLists i n v w (k, r) (l, s)) : l.view = k.view :=
  (congrArg Handoff.view h.same).trans (view_labelled k _)

theorem SameLists.put (h : SameLists i n v w (k, r) (l, s)) (hi : i < n) (t : Thread) (a : α) :
    (l.put s t a).1 = (k.put r t a).1 ∧ SameLists i n v w (k.put r t a).2 (l.put s t a).2 := by
  obtain ⟨hmine, rfl, hlists⟩ := h
  cases k with
  | fifo q => exact ⟨rfl, rfl, rfl, hlists⟩
  | rendezvous z => exact ⟨rfl, rfl, rfl, hlists⟩
  | bag b => exact sameLists_of_bag (Bag.put_sameLists hi (owner_of_labelled hmine) hlists t a)

theorem SameLists.tryTake (h : SameLists i n v w (k, r) (l, s)) (hi : i < n) (t : Thread) :
    (l.tryTake s t).1 = (k.tryTake r t).1 ∧
    SameLists i n v w (k.tryTake r t).2 (l.tryTake s t).2 := by
  obtain ⟨hmine, rfl, hlists⟩ := h
  cases k with
  | fifo q => exact ⟨rfl, rfl, rfl, hlists⟩
  | rendezvous z => exact ⟨rfl, rfl, rfl, hlists⟩
  | bag b => exact sameLists_of_bag (Bag.tryTake_sameLists hi (owner_of_labelled hmine) hlists t)

theorem SameLists.take (h : SameLists i n v w (k, r) (l, s)) (hi : i < n) (t : Taker)
    (expired : Bool) :
    (l.take s t expired).1 = (k.take r t expired).1 ∧
      SameLists i n v w (k.take r t expired).2 (l.take s t expired).2 := by
  obtain ⟨hmine, rfl, hlists⟩ := h
  cases k with
  | fifo q => exact ⟨rfl, rfl, rfl, hlists⟩
  | rendezvous z => exact ⟨rfl, rfl, rfl, hlists⟩
  | bag b =>
    exact sameLists_of_bag (Bag.take_sameLists hi (owner_of_labelled hmine) hlists t expired)

theorem SameLists.withdraw (h : SameLists i n v w (k, r) (l, s)) (m : Nat) :
    SameLists i n v w (k.withdraw m, r) (l.withdraw m, s) := by
  obtain ⟨hmine, rfl, hlists⟩ := h
  cases k with
  | fifo q => exact ⟨rfl, rfl, hlists⟩
  | rendezvous z => exact ⟨rfl, rfl, hlists⟩
  | bag b => exact ⟨congrArg (·.withdraw m) hmine, rfl, hlists⟩

theorem SameLists.close (h : SameLists i n v w (k, r) (l, s)) :
    l.close.1 = k.close.1 ∧ l.close.2.1 = k.close.2.1 ∧
    SameLists i n v w (k.close.2.2, r) (l.close.2.2, s) := by
  obtain ⟨hmine, rfl, hlists⟩ := h
  cases k with
  | fifo q => exact ⟨rfl, rfl, rfl, rfl, hlists⟩
  | rendezvous z => exact ⟨rfl, rfl, rfl, rfl, hlists⟩
  | bag b => exact ⟨rfl, rfl, congrArg (·.close.2.2) hmine, rfl, hlists⟩

end Handoff

theorem Exchange.step_sameLists {α : Type} {i n : Nat} {v w : OwnerRange} {x y : Exchange α}
    (h : Handoff.SameLists i n v w (x.handoff, x.recents) (y.handoff, y.recents)) (hi : i < n)
    (r : Handoff.Request α) :
    (y.step r).1 = (x.step r).1 ∧
      Handoff.SameLists i n v w ((x.step r).2.handoff, (x.step r).2.recents)
      ((y.step r).2.handoff, (y.step r).2.recents) := by
  cases r with
  | put t a =>
    obtain ⟨hanswer, hlists⟩ := h.put hi t a
    exact ⟨congrArg Handoff.Effect.offered hanswer, hlists⟩
  | tryTake t =>
    obtain ⟨hanswer, hlists⟩ := h.tryTake hi t
    exact ⟨congrArg Handoff.Effect.found hanswer, hlists⟩
  | take t expired =>
    obtain ⟨hanswer, hlists⟩ := h.take hi t expired
    exact ⟨congrArg (Handoff.Effect.took t) hanswer, hlists⟩
  | expire id =>
    have hparked : y.handoff.parked = x.handoff.parked := congrArg (·.parked) h.view
    refine ⟨?_, h.withdraw id⟩
    simp only [step, hparked]
  | close =>
    obtain ⟨has, hts, hlists⟩ := h.close
    exact ⟨congrArg₂ Handoff.Effect.drained has hts, hlists⟩

namespace Pool

/-- The pool with its lists in another place. -/
def housed (p : Pool) (owner : Nat) (x : Handoff HandleId × Recents) : Pool :=
  { p with cacheOwner := owner, handoff := x.1, recents := x.2 }

/-- The same pool under two ranges. Its own lists by thread are under the first number of each,
those of its container under the next. -/
def Alike (e : OwnerRange × OwnerRange) (p q : Pool) : Prop :=
  ∃ x, q = p.housed e.2.first x ∧ p.cacheOwner = e.1.first ∧
    Handoff.SameLists 1 2 e.1 e.2 (p.handoff, p.recents) x

instance : PairRule Alike where
  around := by
    rintro e p _ ⟨x, rfl, -, -⟩
    rfl
  within := by
    rintro e p _ p' ⟨x, rfl, hown, hlists⟩ hsame
    have hplace : Alike e (p'.inPlaceOf p) (p'.inPlaceOf (p.housed e.2.first x)) :=
      ⟨x, rfl, hown, hlists⟩
    rwa [hsame] at hplace
  note := by
    rintro e p _ n - ⟨x, rfl, hown, hlists⟩
    exact ⟨x, rfl, hown, hlists⟩
  notify := by
    rintro e p _ k ⟨x, rfl, hown, hlists⟩
    exact ⟨x, rfl, hown, hlists⟩
  emit := by
    rintro e p _ k ⟨x, rfl, hown, hlists⟩
    exact ⟨x, rfl, hown, hlists⟩
  shut := by
    rintro e p _ ⟨x, rfl, hown, hlists⟩
    exact ⟨x, rfl, hown, hlists⟩
  list := by
    rintro e p _ t ⟨x, rfl, hown, hlists⟩
    exact (hlists.recents.own 0 (by decide) t).trans (congrArg (p.recents.list · t) hown.symm)
  set := by
    rintro e p _ t xs ⟨x, rfl, hown, hlists⟩
    have hset := hlists.recents.set (i := 0) (by decide) t xs
    rw [hown]
    exact ⟨(x.1, _), rfl, rfl, hlists.mine, hlists.same, hset⟩
  view := by
    rintro e p _ ⟨x, rfl, hown, hlists⟩
    exact hlists.view
  put := by
    rintro e p _ t id ⟨x, rfl, hown, hlists⟩
    obtain ⟨hanswer, hput⟩ := hlists.put (by decide) t id
    exact ⟨hanswer, _, rfl, hown, hput⟩
  tryTake := by
    rintro e p _ t ⟨x, rfl, hown, hlists⟩
    obtain ⟨hanswer, htaken⟩ := hlists.tryTake (by decide) t
    exact ⟨hanswer, _, rfl, hown, htaken⟩
  take := by
    rintro e p _ t expired ⟨x, rfl, hown, hlists⟩
    obtain ⟨hanswer, htaken⟩ := hlists.take (by decide) t expired
    exact ⟨hanswer, _, rfl, hown, htaken⟩
  withdraw := by
    rintro e p _ m ⟨x, rfl, hown, hlists⟩
    exact ⟨(_, x.2), rfl, hown, hlists.withdraw m⟩
  close := by
    rintro e p _ ⟨x, rfl, hown, hlists⟩
    obtain ⟨hids, htakers, hclosed⟩ := hlists.close
    exact ⟨hids, htakers, (_, x.2), rfl, hown, hclosed⟩

/-- From here on. -/
theorem Alike.here {e : OwnerRange × OwnerRange} {p q : Pool} (h : Alike e p q) :
    Alike (⟨p.cacheOwner, p.recents⟩, ⟨q.cacheOwner, q.recents⟩) p q := by
  obtain ⟨x, rfl, hown, hmine, hsame, hlists⟩ := h
  rw [hown]
  exact ⟨x, rfl, hown, hmine, hsame, hlists.here⟩

/-- Whatever goes on in a pool and around it goes on in the same way under other numbers. -/
theorem Turn.call_alike (t : Turn) : Act.Respects Alike t.call := by
  cases t with
  | operate op =>
    have hplain : ∀ op : Operation, (∀ ls bus, op ≠ .listen ls bus) →
        Act.Respects Alike (Turn.operate op).call := fun _ hop => Operation.call_respects hop
    cases op with
    | listen ls bus =>
      refine .bind (.update ?_) fun _ => .pure _
      rintro e p _ ⟨x, rfl, hown, hlists⟩
      exact ⟨x, rfl, hown, hlists⟩
    | _ => exact hplain _ fun _ _ => Operation.noConfusion
  | _ =>
    refine .apply ?_
    rintro e p _ ⟨x, rfl, hown, hlists⟩
    exact ⟨rfl, x, rfl, hown, hlists⟩

end Pool
end ConnPool
