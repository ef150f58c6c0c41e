import ConnPool.Proofs.Keyed
import Mathlib.Data.List.Induction

namespace ConnPool

variable {α : Type} {l : List α} {a b : α}

/-- A call of a longer history is its last one, or one of those before. -/
theorem snoc_eq_split {before later : List α} {x y : α} :
    l ++ [x] = before ++ y :: later ↔
      (before = l ∧ y = x ∧ later = []) ∨ ∃ rest, later = rest ++ [x] ∧
      l = before ++ y :: rest := by
  constructor
  · intro h
    rcases List.eq_nil_or_concat later with rfl | ⟨rest, z, rfl⟩
    · obtain ⟨rfl, hx⟩ := List.append_inj' h rfl
      exact Or.inl ⟨rfl, (List.singleton_inj.mp hx).symm, rfl⟩
    · rw [List.concat_eq_append, ← List.cons_append, ← List.append_assoc] at h
      obtain ⟨hl, hx⟩ := List.append_inj' h rfl
      exact Or.inr ⟨rest, by rw [List.concat_eq_append, List.singleton_inj.mp hx], hl⟩
  · rintro (⟨rfl, rfl, rfl⟩ | ⟨rest, rfl, rfl⟩)
    · rfl
    · rw [List.append_assoc, List.cons_append]

/-- What comes in by two stages and does not go out in either is there after both. -/
theorem perm_stages {i i' o o' l m n : List α} (h : (i ++ l).Perm (o ++ m))
    (k : (i' ++ m).Perm (o' ++ n)) : (i ++ i' ++ l).Perm (o ++ o' ++ n) := by
  classical
  rw [List.perm_iff_count] at h k ⊢
  intro b
  have hb := h b
  have kb := k b
  simp only [List.count_append] at hb kb ⊢
  omega

/-- One element less is counted, if it was counted. -/
theorem countP_erase_add [DecidableEq α] (h : a ∈ l) (p : α → Bool) :
    (l.erase a).countP p + (p a).toNat = l.countP p := by
  have hperm := (List.perm_cons_erase h).countP_eq p
  rw [hperm, List.countP_cons]
  cases p a <;> rfl

theorem countP_set_add {i : Nat} (h : l[i]? = some a) (p : α → Bool) :
    (l.set i b).countP p + (p a).toNat = l.countP p + (p b).toNat := by
  induction l generalizing i with
  | nil => cases h
  | cons x l ih =>
    cases i with
    | zero =>
      cases h
      simp only [List.set_cons_zero, Keyed.countP_first]
      omega
    | succ i =>
      have hrest := ih h
      simp only [List.set_cons_succ, Keyed.countP_first]
      omega

theorem count_cons_add (w v : Nat) (l : List Nat) :
    (w :: l).count v = l.count v + (decide (w = v)).toNat := by
  rw [List.count_cons]
  by_cases h : w = v <;> simp [h]

theorem count_concat_add (w v : Nat) (l : List Nat) :
    (l ++ [w]).count v = l.count v + (decide (w = v)).toNat := by
  rw [List.count_append, count_cons_add, List.count_nil, Nat.zero_add]

/-- A search for entries that a filter lets through finds what it finds without the filter. -/
theorem find_filter {f g : α → Bool} (h : ∀ x, f x = true → g x = true) :
    (l.filter g).find? f = l.find? f := by
  have hkeys : (fun x => decide (g x = true ∧ f x = true)) = f := by
    funext x
    cases hf : f x with
    | true => simp [h x hf]
    | false => simp
  rw [List.find?_filter, hkeys]

/-- The last number of a range comes last. -/
theorem filterMap_range_succ (f : Nat → Option α) (n : Nat) :
    (List.range (n + 1)).filterMap f = (List.range n).filterMap f ++ (f n).toList := by
  rw [List.range_succ, List.filterMap_append]
  cases h : f n with
  | none => rw [List.filterMap_cons_none h, List.filterMap_nil, Option.toList_none]
  | some a => rw [List.filterMap_cons_some h, List.filterMap_nil, Option.toList_some]

/-- A place in a list for each element that counts. -/
theorem length_filter_range (l : List α) (p : α → Bool) :
    ((List.range l.length).filter fun i => l[i]?.any p).length = l.countP p := by
  induction l using List.reverseRecOn with
  | nil => rfl
  | append_singleton l a ih =>
    have hsame : (List.range l.length).filter (fun i => (l ++ [a])[i]?.any p) =
        (List.range l.length).filter fun i => l[i]?.any p := by
      apply List.filter_congr
      intro i hi
      rw [List.getElem?_append_left (List.mem_range.mp hi)]
    rw [List.length_append, List.length_singleton, List.range_succ, List.filter_append, hsame,
      List.length_append, ih, List.countP_append, List.countP_singleton]
    simp only [List.filter_singleton, List.getElem?_concat_length, Option.any_some]
    cases p a <;> rfl

/-- In a falling list, what a search from the front finds is the greatest, and what it leaves are
all that are less. -/
theorem dropWhile_falling {l ns : List Nat} {n : Nat} {p : Nat → Bool} (hl : l.Pairwise (· > ·))
    (hd : l.dropWhile (fun m => !p m) = n :: ns) :
    n ∈ l ∧ p n = true ∧ (∀ m ∈ l, p m = true → m ≤ n) ∧ l.filter (· < n) = ns := by
  induction l with
  | nil => simp at hd
  | cons k l ih =>
    obtain ⟨hbelow, hl⟩ := List.pairwise_cons.mp hl
    by_cases hk : p k = true
    · rw [List.dropWhile_cons_of_neg (by simp [hk])] at hd
      cases hd
      refine ⟨List.mem_cons_self, hk, ?_, ?_⟩
      · intro m hm _
        rcases List.mem_cons.mp hm with rfl | hm
        · omega
        · have := hbelow m hm
          omega
      · rw [List.filter_cons_of_neg (by simp)]
        exact List.filter_eq_self.mpr fun m hm => by simpa using hbelow m hm
    · rw [List.dropWhile_cons_of_pos (by simp [hk])] at hd
      obtain ⟨hn, hp, hlast, hless⟩ := ih hl hd
      refine ⟨List.mem_cons_of_mem _ hn, hp, ?_, ?_⟩
      · intro m hm hpm
        rcases List.mem_cons.mp hm with rfl | hm
        · exact absurd hpm hk
        · exact hlast m hm hpm
      · have := hbelow n hn
        rw [List.filter_cons_of_neg (by simp; omega)]
        exact hless

/-- Of two members one stands before the other. -/
theorem pair_sublist_total (ha : a ∈ l) (hb : b ∈ l) (hne : a ≠ b) :
    [a, b].Sublist l ∨ [b, a].Sublist l := by
  obtain ⟨s, t, rfl⟩ := List.append_of_mem ha
  rcases List.mem_append.mp hb with hb | hb
  · refine Or.inr ?_
    have hfirst : [b].Sublist s := List.singleton_sublist.mpr hb
    exact hfirst.append (List.singleton_sublist.mpr List.mem_cons_self)
  · refine Or.inl (List.Sublist.trans ?_ (List.sublist_append_right s _))
    have hlast : b ∈ t := (List.mem_cons.mp hb).resolve_left hne.symm
    exact (List.singleton_sublist.mpr hlast).cons_cons a

/-- Without repetition neither stands on both sides of the other. -/
theorem pair_sublist_asymm (hn : l.Nodup) (hab : [a, b].Sublist l) : ¬ [b, a].Sublist l := by
  induction l with
  | nil => cases hab
  | cons x l ih =>
    intro hba
    obtain ⟨hx, hn⟩ := List.nodup_cons.mp hn
    cases hab with
    | cons _ hab =>
      cases hba with
      | cons _ hba => exact ih hn hab hba
      | cons_cons _ hba => exact hx (hab.subset (List.mem_cons_of_mem _ List.mem_cons_self))
    | cons_cons _ hab =>
      cases hba with
      | cons _ hba => exact hx (hba.subset (List.mem_cons_of_mem _ List.mem_cons_self))
      | cons_cons _ hba => exact hx (hab.subset List.mem_cons_self)

/-- Sorting by a number keeps the order of those that have the same one. -/
theorem mergeSort_stable (f : α → Nat) (hn : l.Nodup) :
    (l.mergeSort fun a b => f a ≤ f b).Pairwise fun a b =>
      f a < f b ∨ f a = f b ∧ [a, b].Sublist l := by
  have htrans : ∀ a b c : α, decide (f a ≤ f b) = true → decide (f b ≤ f c) = true →
      decide (f a ≤ f c) = true := by
    intro a b c hab hbc
    exact decide_eq_true (Nat.le_trans (of_decide_eq_true hab) (of_decide_eq_true hbc))
  have htotal : ∀ a b : α, (decide (f a ≤ f b) || decide (f b ≤ f a)) = true := by
    intro a b
    simp only [Bool.or_eq_true, decide_eq_true_eq]
    exact Nat.le_total _ _
  have hperm := List.mergeSort_perm l fun a b => decide (f a ≤ f b)
  have hsorted := List.pairwise_mergeSort htrans htotal l
  rw [List.pairwise_iff_forall_sublist] at hsorted ⊢
  intro a b hab
  have hle : f a ≤ f b := of_decide_eq_true (hsorted hab)
  rcases Nat.lt_or_eq_of_le hle with hlt | heq
  · exact Or.inl hlt
  · have hne : a ≠ b := fun h => List.nodup_iff_sublist.mp (hperm.nodup_iff.mpr hn) a (h ▸ hab)
    have ha : a ∈ l := hperm.mem_iff.mp (hab.subset List.mem_cons_self)
    have hb : b ∈ l := hperm.mem_iff.mp (hab.subset (List.mem_cons_of_mem _ List.mem_cons_self))
    refine Or.inr ⟨heq, (pair_sublist_total ha hb hne).resolve_right fun hba => ?_⟩
    have hkept :=
      List.pair_sublist_mergeSort htrans htotal (decide_eq_true (Nat.le_of_eq heq.symm)) hba
    exact pair_sublist_asymm (hperm.nodup_iff.mpr hn) hab hkept

end ConnPool
