import Mathlib.Data.List.Nodup

namespace ConnPool.Keyed

variable {α κ : Type} {key : α → κ}

/-- `x` stands in `l` between `pre` and `post`, and nothing else there has its key. -/
structure Between (key : α → κ) (l pre : List α) (x : α) (post : List α) : Prop where
  eq : l = pre ++ x :: post
  before : ∀ y ∈ pre, key y ≠ key x
  after : ∀ y ∈ post, key y ≠ key x

theorem exists_between {l : List α} (hn : (l.map key).Nodup) {x : α} (hx : x ∈ l) :
    ∃ pre post, Between key l pre x post := by
  obtain ⟨pre, post, rfl⟩ := List.append_of_mem hx
  rw [List.map_append, List.map_cons, List.nodup_append] at hn
  obtain ⟨-, hpost, hdisj⟩ := hn
  refine ⟨pre, post, rfl, ?_, ?_⟩
  · intro y hy
    exact hdisj _ (List.mem_map_of_mem hy) _ List.mem_cons_self
  · intro y hy he
    exact (List.nodup_cons.mp hpost).1 (he ▸ List.mem_map_of_mem hy)

/-- Two entries with one key are one. -/
theorem unique (key : α → κ) {l : List α} (hn : (l.map key).Nodup) {x y : α} (hx : x ∈ l)
    (hy : y ∈ l)
    (h : key x = key y) : x = y :=
  List.inj_on_of_nodup_map hn hx hy h

/-- An entry with a new key is put behind the others. -/
theorem nodup_append_new (key : α → κ) {l : List α} (hn : (l.map key).Nodup) {x : α}
    (h : ∀ y ∈ l, key y ≠ key x) : ((l ++ [x]).map key).Nodup := by
  rw [List.map_append, List.map_singleton, ← List.concat_eq_append]
  refine hn.concat fun hx => ?_
  obtain ⟨y, hy, hyx⟩ := List.mem_map.mp hx
  exact h y hy hyx

section

variable [DecidableEq κ]

theorem map_eq_self (key : α → κ) {l : List α} {k : κ} (f : α → α) (h : ∀ y ∈ l, key y ≠ k) :
    l.map (fun y => if key y = k then f y else y) = l := by
  conv_rhs => rw [← List.map_id l]
  exact List.map_congr_left fun y hy => if_neg (h y hy)

theorem filter_eq_self (key : α → κ) {l : List α} {k : κ} (h : ∀ y ∈ l, key y ≠ k) :
    l.filter (fun y => decide (key y ≠ k)) = l :=
  List.filter_eq_self.mpr fun y hy => by simpa using h y hy

/-- Whoever looks for one key misses nothing when another is gone. -/
theorem find_filter_of_ne (key : α → κ) (l : List α) {k j : κ} (h : k ≠ j) :
    (l.filter fun y => decide (key y ≠ j)).find? (fun y => decide (key y = k)) =
      l.find? fun y => decide (key y = k) := by
  rw [List.find?_filter]
  congr 1
  funext y
  by_cases hy : key y = k <;> simp [hy, h]

theorem find_filter_self (key : α → κ) (l : List α) (k : κ) :
    (l.filter fun y => decide (key y ≠ k)).find? (fun y => decide (key y = k)) = none :=
  List.find?_eq_none.mpr fun _ hy => by simpa using (List.mem_filter.mp hy).2

theorem map_key_replace {l : List α} {k : κ} {f : α → α} (hf : ∀ y, key (f y) = key y) :
    (l.map fun y => if key y = k then f y else y).map key = l.map key := by
  rw [List.map_map]
  refine List.map_congr_left fun y _ => ?_
  simp only [Function.comp]
  split
  · exact hf y
  · rfl

end

namespace Between

variable {l pre post : List α} {x : α}

theorem mem (h : Between key l pre x post) : x ∈ l := by
  rw [h.eq]
  exact List.mem_append_right _ List.mem_cons_self

/-- An entry that keeps its key keeps its place. -/
theorem renew (h : Between key l pre x post) {y : α} (hy : key y = key x) :
    Between key (pre ++ y :: post) pre y post :=
  ⟨rfl, hy ▸ h.before, hy ▸ h.after⟩

variable [DecidableEq κ]

theorem replace (h : Between key l pre x post) {k : κ} (hk : key x = k) (f : α → α) :
    l.map (fun y => if key y = k then f y else y) = pre ++ f x :: post := by
  subst hk
  rw [h.eq, List.map_append, List.map_cons, map_eq_self key f h.before,
    map_eq_self key f h.after, if_pos rfl]

theorem erase (h : Between key l pre x post) {k : κ} (hk : key x = k) :
    l.filter (fun y => decide (key y ≠ k)) = pre ++ post := by
  subst hk
  rw [h.eq, List.filter_append, List.filter_cons, filter_eq_self key h.before,
    filter_eq_self key h.after]
  simp

theorem find (h : Between key l pre x post) {k : κ} (hk : key x = k) :
    l.find? (fun y => decide (key y = k)) = some x := by
  subst hk
  have hpre : pre.find? (fun y => decide (key y = key x)) = none :=
    List.find?_eq_none.mpr fun y hy => by simpa using h.before y hy
  rw [h.eq, List.find?_append, hpre, Option.none_or, List.find?_cons_of_pos (by simp)]

end Between

theorem find_iff [DecidableEq κ] (key : α → κ) {l : List α} (hn : (l.map key).Nodup) {k : κ}
    {x : α} :
    l.find? (fun y => decide (key y = k)) = some x ↔ x ∈ l ∧ key x = k := by
  constructor
  · intro h
    exact ⟨List.mem_of_find?_eq_some h, by simpa using List.find?_some h⟩
  · rintro ⟨hx, hk⟩
    obtain ⟨pre, post, hb⟩ := exists_between hn hx
    exact hb.find hk

/-- What comes first is counted, or not. -/
theorem countP_first (p : α → Bool) (x : α) (l : List α) :
    (x :: l).countP p = l.countP p + (p x).toNat := by
  rw [List.countP_cons]
  cases p x <;> rfl

end ConnPool.Keyed
