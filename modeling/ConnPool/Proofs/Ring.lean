import ConnPool.Event.Bus
import ConnPool.Proofs.Keyed
import Mathlib.Algebra.Ring.Nat

namespace ConnPool.Bus

variable {b : Bus} {name n : String} {j k : Nat} {cs : List (String × Nat)}

theorem roundUp_eq_pow (n : Nat) : ∃ k, roundUp n = 2 ^ k := by
  unfold roundUp
  split
  · exact ⟨0, rfl⟩
  · exact ⟨_, Nat.one_shiftLeft _⟩

/-- No other power of two is nearer. -/
theorem roundUp_le_pow_iff : roundUp j ≤ 2 ^ k ↔ j ≤ 2 ^ k := by
  refine ⟨Nat.le_trans (le_roundUp j), fun h => ?_⟩
  unfold roundUp
  split
  · exact Nat.one_le_two_pow
  · have hlog : (j - 1).log2 < k := (Nat.log2_lt (by omega)).mpr (by omega)
    rw [Nat.one_shiftLeft]
    exact Nat.pow_le_pow_right (by decide) hlog

/-- The channel accepts a buffer of up to 2^56 events. -/
theorem open?_isSome_iff (buffer : Nat) : (open? buffer).isSome = true ↔ buffer ≤ 2 ^ 56 := by
  have hfits : roundUp buffer * slotBytes < UInt64.size / 2 ↔ roundUp buffer ≤ 2 ^ 56 := by
    obtain ⟨k, hk⟩ := roundUp_eq_pow buffer
    rw [hk]
    refine ⟨fun h => ?_, fun h => ?_⟩
    · refine Nat.not_lt.mp fun hover => ?_
      have hnext : 2 ^ 57 ≤ 2 ^ k :=
        Nat.pow_le_pow_right (by decide) ((Nat.pow_lt_pow_iff_right (by decide)).mp hover)
      have hsize : 2 ^ k * 80 < 2 ^ 63 := h
      omega
    · have hsize : 2 ^ k * 80 < 2 ^ 63 := by omega
      exact hsize
  rw [← roundUp_le_pow_iff, ← hfits]
  simp only [open?]
  split
  · next h => exact iff_of_true rfl h
  · next h => exact iff_of_false Bool.false_ne_true h

/-- Where a subscriber is in the sequence of all events. -/
def place? (b : Bus) (name : String) : Option (String × Nat) := b.cursors.find? (·.1 = name)

theorem find_moveCursor_of_ne (hne : n ≠ name) :
    (moveCursor n k cs).find? (·.1 = name) = cs.find? (·.1 = name) := by
  induction cs with
  | nil => rfl
  | cons c cs ih =>
    obtain ⟨m, j⟩ := c
    simp only [moveCursor]
    split
    · next hm =>
      have hmn : ¬ m = name := fun h => hne (hm.symm.trans h)
      simp only [List.find?_cons, hmn, decide_false]
    · simp only [List.find?_cons, ih]

theorem find_moveCursor_self {j : Nat} (h : cs.find? (·.1 = name) = some (name, j)) :
    (moveCursor name k cs).find? (·.1 = name) = some (name, k) := by
  induction cs with
  | nil => cases h
  | cons c cs ih =>
    obtain ⟨m, i⟩ := c
    simp only [moveCursor]
    split
    · next hm => simp only [List.find?_cons, hm, decide_true]
    · next hm =>
      simp only [List.find?_cons, hm, decide_false] at h ⊢
      exact ih h

theorem place_subscribe (b : Bus) (name : String) :
    (b.subscribe name).place? name = some (name, b.sent.size) :=
  List.find?_cons_of_pos (decide_eq_true rfl)

theorem place_subscribe_of_ne (hne : n ≠ name) : (b.subscribe n).place? name = b.place? name :=
  (List.find?_cons_of_neg (by simpa using hne)).trans (Keyed.find_filter_of_ne Prod.fst _ hne.symm)

theorem place_unsubscribe (b : Bus) (name : String) : (b.unsubscribe name).place? name = none :=
  Keyed.find_filter_self Prod.fst _ name

theorem place_unsubscribe_of_ne (hne : n ≠ name) : (b.unsubscribe n).place? name = b.place? name :=
  Keyed.find_filter_of_ne Prod.fst _ hne.symm

theorem isSome_place (b : Bus) (name : String) : (b.place? name).isSome = b.isSubscribed name :=
  Bool.eq_iff_iff.mpr (List.find?_isSome.trans List.any_eq_true.symm)

/-- Whoever receives only moves its own place. -/
theorem receive_moves {x : Received} {c : Bus} (h : b.receive? n = some (x, c)) :
    c = b ∨ ∃ i, c = { b with cursors := moveCursor n i b.cursors } := by
  obtain ⟨⟨m, j⟩, -, hnext⟩ := Option.map_eq_some_iff.mp h
  dsimp only at hnext
  split at hnext
  · cases hnext
    exact Or.inr ⟨_, rfl⟩
  · split at hnext
    · cases hnext
      exact Or.inr ⟨_, rfl⟩
    · cases hnext
      exact Or.inl rfl

theorem receive_keeps {x : Received} {c : Bus} (h : b.receive? n = some (x, c)) :
    c.sent = b.sent ∧ c.capacity = b.capacity ∧ ∀ name ≠ n, c.place? name = b.place? name := by
  rcases receive_moves h with rfl | ⟨i, rfl⟩
  · exact ⟨rfl, rfl, fun _ _ => rfl⟩
  · exact ⟨rfl, rfl, fun name hne => find_moveCursor_of_ne hne.symm⟩

theorem receive_isOpen {x : Received} {c : Bus} (h : b.receive? n = some (x, c)) :
    c.isOpen = b.isOpen := by
  rcases receive_moves h with rfl | ⟨i, rfl⟩ <;> rfl

end ConnPool.Bus
