import ConnPool.Handoff
import ConnPool.Proofs.Keyed
import Mathlib.Data.List.Perm.Basic
import Mathlib.Data.List.DropRight

namespace ConnPool

variable {α : Type}

namespace Bag

/-- Every entry has a number of its own, below that of the next put. -/
structure Numbered (b : Bag α) : Prop where
  nodup : (b.entries.map (·.1)).Nodup
  lt : ∀ e ∈ b.entries, e.1 < b.sequence

theorem numbered_put {b : Bag α} (hb : b.Numbered) (a : α) :
    Numbered { b with entries := b.entries ++ [(b.sequence, a)], sequence := b.sequence + 1 } := by
  constructor
  · rw [List.map_append]
    refine List.nodup_append.mpr ⟨hb.nodup, List.nodup_singleton _, ?_⟩
    intro n hn k hk he
    obtain ⟨e, hmem, rfl⟩ := List.mem_map.mp hn
    have hlt := hb.lt e hmem
    have hk' : k = b.sequence := List.mem_singleton.mp hk
    omega
  · simp only [List.forall_mem_append, List.forall_mem_singleton]
    exact ⟨fun e he => Nat.lt_succ_of_lt (hb.lt e he), Nat.lt_succ_self _⟩

/-- A number that the bag has stands for one of its entries. -/
theorem claim_of_has {b : Bag α} (hb : b.Numbered) {n : Nat} (hn : b.has n = true) :
    ∃ pre e post, b.entries = pre ++ e :: post ∧
      b.claim n = (some e.2, { b with entries := pre ++ post }) := by
  obtain ⟨e, he, hen⟩ := List.any_eq_true.mp hn
  have hkey : e.1 = n := by simpa using hen
  obtain ⟨pre, post, hbt⟩ := Keyed.exists_between hb.nodup he
  refine ⟨pre, e, post, hbt.eq, ?_⟩
  simp only [claim, hbt.find hkey, hbt.erase hkey, Option.map_some]

theorem tryTake_cases {b : Bag α} (hb : b.Numbered) (rs : Recents) (t : Thread) :
    ∃ rs', (b.entries = [] ∧ b.tryTake rs t = (none, b, rs')) ∨
      ∃ pre e post, b.entries = pre ++ e :: post ∧
        b.tryTake rs t = (some e.2, { b with entries := pre ++ post }, rs') := by
  simp only [tryTake]
  split
  · next n ns hdrop =>
    have hhas : b.has n = true := by
      have hne := List.head?_dropWhile_not (fun n => !b.has n) (rs.list b.owner t)
      rw [hdrop] at hne
      simpa using hne
    obtain ⟨pre, e, post, heq, hclaim⟩ := claim_of_has hb hhas
    exact ⟨rs.set b.owner t ns, Or.inr ⟨pre, e, post, heq, by rw [hclaim]⟩⟩
  · split
    · next hnil => exact ⟨rs.set b.owner t [], Or.inl ⟨hnil, rfl⟩⟩
    · next n a es hcons => exact ⟨rs.set b.owner t [], Or.inr ⟨[], (n, a), es, hcons, rfl⟩⟩

theorem Numbered.erase {b : Bag α} (hb : b.Numbered) {pre post : List (Nat × α)} {e : Nat × α}
    (heq : b.entries = pre ++ e :: post) : Numbered { b with entries := pre ++ post } := by
  have hsub : (pre ++ post).Sublist b.entries := by
    rw [heq]
    exact (List.sublist_cons_self _ _).append_left _
  exact ⟨hb.nodup.sublist (hsub.map _), fun x hx => hb.lt x (hsub.subset hx)⟩

end Bag

namespace Rendezvous

theorem parked_dropWhile (r : Rendezvous α) :
    r.parked =
      ((r.waiting.dropWhile (·.abandoned)).filter fun w => !w.abandoned).map (·.taker) := by
  simp only [parked]
  induction r.waiting with
  | nil => rfl
  | cons w ws ih =>
    by_cases h : w.abandoned
    · rw [List.filter_cons_of_neg (by simp [h]), List.dropWhile_cons_of_pos h]
      exact ih
    · rw [List.dropWhile_cons_of_neg h]

theorem parked_prune (r : Rendezvous α) : r.prune.parked = r.parked := by
  simp only [prune]
  split
  · rfl
  · simp only [parked, List.filter_filter, Bool.and_self]

theorem parked_withdraw (r : Rendezvous α) (id : Nat) :
    (r.withdraw id).parked = r.parked.filter (·.id ≠ id) := by
  simp only [withdraw, parked]
  induction r.waiting with
  | nil => rfl
  | cons w ws ih =>
    rw [List.map_cons]
    by_cases h : w.abandoned <;> by_cases hid : w.taker.id = id <;>
      simp [h, hid] <;> simpa using ih

end Rendezvous

namespace Handoff

/-- Only the free list numbers its entries. -/
def Numbered : Handoff α → Prop
  | .bag b => b.Numbered
  | _ => True

theorem numbered_new (s : Strategy) (owner : Nat) : (Handoff.new s owner : Handoff α).Numbered := by
  cases s with
  | fifo => trivial
  | rendezvous => trivial
  | bag => exact ⟨List.nodup_nil, fun e he => absurd he List.not_mem_nil⟩

/-- An entry is taken if there is one; the others stay. -/
theorem tryTake_cases {h : Handoff α} (hn : h.Numbered) (rs : Recents) (t : Thread) :
    ∃ h' rs', h'.Numbered ∧ h'.parked = h.parked ∧ h'.isClosed = h.isClosed ∧
      (h.toList = [] ∧ h'.toList = [] ∧ h.tryTake rs t = (none, h', rs') ∨
        ∃ a, h.toList.Perm (a :: h'.toList) ∧ h.tryTake rs t = (some a, h', rs')) := by
  cases h with
  | fifo q =>
    cases hq : q.queue with
    | nil =>
      refine ⟨.fifo q, rs, trivial, rfl, rfl, Or.inl ⟨hq, hq, ?_⟩⟩
      simp only [tryTake, Fifo.tryTake, hq]
    | cons x xs =>
      refine ⟨.fifo { q with queue := xs }, rs, trivial, rfl, rfl, Or.inr ⟨x, ?_, ?_⟩⟩
      · simp only [toList, hq]
        exact List.Perm.refl _
      · simp only [tryTake, Fifo.tryTake, hq]
  | rendezvous r =>
    cases hr : r.shared with
    | nil =>
      refine ⟨.rendezvous r, rs, trivial, rfl, rfl, Or.inl ⟨hr, hr, ?_⟩⟩
      simp only [tryTake, Rendezvous.tryTake, hr]
    | cons x xs =>
      refine ⟨.rendezvous { r with shared := xs }, rs, trivial, rfl, rfl, Or.inr ⟨x, ?_, ?_⟩⟩
      · simp only [toList, hr]
        exact List.Perm.refl _
      · simp only [tryTake, Rendezvous.tryTake, hr]
  | bag b =>
    obtain ⟨rs', ⟨hnil, htake⟩ | ⟨pre, e, post, heq, htake⟩⟩ := b.tryTake_cases hn rs t
    · refine ⟨.bag b, rs', hn, rfl, rfl, Or.inl ⟨?_, ?_, ?_⟩⟩
      · simp only [toList, hnil, List.map_nil]
      · simp only [toList, hnil, List.map_nil]
      · simp only [tryTake, htake]
    · refine ⟨.bag { b with entries := pre ++ post }, rs', hn.erase heq, rfl, rfl,
        Or.inr ⟨e.2, ?_, ?_⟩⟩
      · simp only [toList, heq, List.map_append, List.map_cons]
        exact List.perm_middle
      · simp only [tryTake, htake]

/-- An open container keeps what is put, or gives an entry to the first that waits. -/
theorem put_cases {h : Handoff α} (hn : h.Numbered) (ho : h.isClosed = false) (rs : Recents)
    (t : Thread) (a : α) :
    ∃ h' rs', h'.Numbered ∧ h'.isClosed = false ∧
      (h'.parked = h.parked ∧ h'.toList.Perm (a :: h.toList) ∧ h.put rs t a = (.kept, h', rs') ∨
        ∃ w x, h.parked = w :: h'.parked ∧ (x :: h'.toList).Perm (a :: h.toList) ∧
          h.put rs t a = (.served w x, h', rs')) := by
  cases h with
  | fifo q =>
    have hc : q.closed = false := ho
    cases hp : q.parked with
    | nil =>
      refine ⟨.fifo { q with queue := q.queue ++ [a] }, rs, trivial, hc, Or.inl ⟨rfl, ?_, ?_⟩⟩
      · exact List.perm_append_singleton a q.queue
      · simp [put, Fifo.put, hc, hp]
    | cons w ws =>
      obtain ⟨x, xs, hx⟩ := List.exists_cons_of_ne_nil (l := q.queue ++ [a]) (by simp)
      refine ⟨.fifo { q with queue := xs, parked := ws }, rs, trivial, hc,
        Or.inr ⟨w, x, hp, ?_, ?_⟩⟩
      · exact hx ▸ List.perm_append_singleton a q.queue
      · simp [put, Fifo.put, hc, hp, hx]
  | rendezvous r =>
    have hc : r.closed = false := ho
    have hp := r.parked_dropWhile
    cases hw : r.waiting.dropWhile (·.abandoned) with
    | nil =>
      rw [hw] at hp
      refine ⟨.rendezvous { r with waiting := [], shared := r.shared ++ [a] }, rs, trivial, hc,
        Or.inl ⟨hp.symm, ?_, ?_⟩⟩
      · exact List.perm_append_singleton a r.shared
      · simp [put, Rendezvous.put, hc, hw]
    | cons w ws =>
      have hfirst : w.abandoned = false := by
        have hne := List.head?_dropWhile_not (fun w : Registration => w.abandoned) r.waiting
        rw [hw] at hne
        simpa using hne
      rw [hw, List.filter_cons_of_pos (by simp [hfirst]), List.map_cons] at hp
      refine ⟨.rendezvous { r with waiting := ws }, rs, trivial, hc,
        Or.inr ⟨w.taker, a, hp, List.Perm.refl _, ?_⟩⟩
      simp [put, Rendezvous.put, hc, hw]
  | bag b =>
    have hc : b.closed = false := ho
    have hnum := Bag.numbered_put hn a
    cases hp : b.parked with
    | nil =>
      refine ⟨.bag { b with entries := b.entries ++ [(b.sequence, a)], sequence := b.sequence + 1 },
        rs.push b.owner t b.sequence, hnum, hc, Or.inl ⟨rfl, ?_, ?_⟩⟩
      · simp only [toList, List.map_append, List.map_cons, List.map_nil]
        exact List.perm_append_singleton a _
      · simp [put, Bag.put, hc, hp]
    | cons w ws =>
      obtain ⟨rs', ⟨hnil, -⟩ | ⟨pre, e, post, heq, htake⟩⟩ :=
        Bag.tryTake_cases hnum (rs.push b.owner t b.sequence) w.thread
      · exact absurd hnil (by simp)
      · refine ⟨.bag { b with entries := pre ++ post, sequence := b.sequence + 1, parked := ws },
          rs', ?_, hc, Or.inr ⟨w, e.2, hp, ?_, ?_⟩⟩
        · have := hnum.erase heq
          exact ⟨this.nodup, this.lt⟩
        · have hperm : (b.entries ++ [(b.sequence, a)]).map (·.2) =
              (pre ++ e :: post).map (·.2) := by rw [← heq]
          simp only [toList]
          simp only [List.map_append, List.map_cons, List.map_nil] at hperm ⊢
          exact (List.perm_middle.symm.trans (hperm ▸ List.perm_append_singleton a _))
        · simp only [hc, hp] at htake
          simp [put, Bag.put, hc, hp, htake]

/-- A closed container hands back what is put. -/
theorem put_closed {h : Handoff α} (hc : h.isClosed = true) (rs : Recents) (t : Thread) (a : α) :
    h.put rs t a = (.rejected a, h, rs) := by
  cases h with
  | fifo q => simp [put, Fifo.put, show q.closed = true from hc]
  | rendezvous r => simp [put, Rendezvous.put, show r.closed = true from hc]
  | bag b => simp [put, Bag.put, show b.closed = true from hc]

/-- A taker gets an entry, or an open container parks it behind the others. -/
theorem take_cases {h : Handoff α} (hn : h.Numbered) (ho : h.isClosed = false) (rs : Recents)
    (t : Taker) :
    ∃ h' rs', h'.Numbered ∧ h'.isClosed = false ∧
      (h.toList = [] ∧ h'.toList = [] ∧ h'.parked = h.parked ++ [t] ∧
          h.take rs t false = (.parked, h', rs') ∨
        ∃ a, h.toList.Perm (a :: h'.toList) ∧ h'.parked = h.parked ∧
          h.take rs t false = (.item a, h', rs')) := by
  cases h with
  | fifo q =>
    have hc : q.closed = false := ho
    cases hq : q.queue with
    | nil =>
      refine ⟨.fifo { q with parked := q.parked ++ [t] }, rs, trivial, hc,
        Or.inl ⟨hq, hq, rfl, ?_⟩⟩
      simp [take, Fifo.take, hq, hc]
    | cons x xs =>
      refine ⟨.fifo { q with queue := xs }, rs, trivial, hc, Or.inr ⟨x, ?_, rfl, ?_⟩⟩
      · simp only [toList, hq]
        exact List.Perm.refl _
      · simp [take, Fifo.take, hq]
  | rendezvous r =>
    have hc : r.closed = false := ho
    cases hr : r.shared with
    | nil =>
      refine ⟨.rendezvous { r.prune with waiting := r.prune.waiting ++ [⟨t, false⟩] }, rs, trivial,
        ?_, Or.inl ⟨hr, ?_, ?_, ?_⟩⟩
      · simp only [Rendezvous.prune]
        split
        · exact hc
        · exact hc
      · simp only [Rendezvous.prune]
        split
        · exact hr
        · exact hr
      · simp only [parked]
        rw [← r.parked_prune]
        simp [Rendezvous.parked]
      · simp [take, Rendezvous.take, hr, hc]
    | cons x xs =>
      refine ⟨.rendezvous { r with shared := xs }, rs, trivial, hc, Or.inr ⟨x, ?_, rfl, ?_⟩⟩
      · simp only [toList, hr]
        exact List.Perm.refl _
      · simp [take, Rendezvous.take, hr]
  | bag b =>
    have hc : b.closed = false := ho
    obtain ⟨rs', ⟨hnil, htake⟩ | ⟨pre, e, post, heq, htake⟩⟩ := b.tryTake_cases hn rs t.thread
    · refine ⟨.bag { b with parked := b.parked ++ [t] }, rs', ⟨hn.nodup, hn.lt⟩, hc,
        Or.inl ⟨?_, ?_, rfl, ?_⟩⟩
      · simp only [toList, hnil, List.map_nil]
      · simp only [toList, hnil, List.map_nil]
      · simp [take, Bag.take, htake, hc]
    · refine ⟨.bag { b with entries := pre ++ post }, rs', hn.erase heq, hc,
        Or.inr ⟨e.2, ?_, rfl, ?_⟩⟩
      · simp only [toList, heq, List.map_append, List.map_cons]
        exact List.perm_middle
      · simp [take, Bag.take, htake]

@[simp] theorem toList_withdraw (h : Handoff α) (id : Nat) : (h.withdraw id).toList = h.toList := by
  cases h <;> rfl

@[simp] theorem parked_withdraw (h : Handoff α) (id : Nat) :
    (h.withdraw id).parked = h.parked.filter (·.id ≠ id) := by
  cases h with
  | fifo q => rfl
  | rendezvous r => exact r.parked_withdraw id
  | bag b => rfl

@[simp] theorem isClosed_withdraw (h : Handoff α) (id : Nat) :
    (h.withdraw id).isClosed = h.isClosed := by
  cases h <;> rfl

theorem Numbered.withdraw {h : Handoff α} (hn : h.Numbered) (id : Nat) :
    (h.withdraw id).Numbered := by
  cases h with
  | fifo q => trivial
  | rendezvous r => trivial
  | bag b => exact ⟨hn.nodup, hn.lt⟩

/-- Closing hands out all entries and lets all takers go. -/
theorem close_cases (h : Handoff α) :
    ∃ h', h'.Numbered ∧ h'.isClosed = true ∧ h'.toList = [] ∧ h'.parked = [] ∧
      h.close = (h.toList, h.parked, h') := by
  cases h with
  | fifo q => exact ⟨.fifo q.close.2.2, trivial, rfl, rfl, rfl, rfl⟩
  | rendezvous r => exact ⟨.rendezvous r.close.2.2, trivial, rfl, rfl, rfl, rfl⟩
  | bag b =>
    refine ⟨.bag b.close.2.2, ?_, rfl, rfl, rfl, rfl⟩
    exact ⟨List.nodup_nil, fun e he => absurd he List.not_mem_nil⟩

end Handoff

end ConnPool
