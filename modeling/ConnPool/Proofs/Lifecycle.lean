import ConnPool.State
import Mathlib.Data.List.Count

namespace ConnPool

/-- A caller's try to move a cell from one state to another. -/
structure Attempt where
  caller : Nat
  source : State
  target : State
  deriving DecidableEq

namespace State

variable {s t m : State} {as bs : List Attempt}

/-- The cell after attempts that reached it in this order. -/
def after (s : State) : List Attempt → State
  | [] => s
  | a :: as => (s.move a.source a.target).2.after as

/-- The attempts that succeed, in their order. -/
def wins (s : State) : List Attempt → List Attempt
  | [] => []
  | a :: as =>
    match s.move a.source a.target with
    | (true, s) => a :: s.wins as
    | (false, s) => s.wins as

/-- A path of the lifecycle table. -/
def Path (s : State) : List Attempt → State → Prop
  | [], t => s = t
  | a :: as, t => a.source = s ∧ legal s a.target = true ∧ Path a.target as t

theorem move_cases (s : State) (a : Attempt) :
    a.source = s ∧ legal s a.target = true ∧ s.move a.source a.target = (true, a.target) ∨
      s.move a.source a.target = (false, s) := by
  by_cases h : legal a.source a.target = true ∧ s = a.source
  · exact Or.inl ⟨h.2.symm, h.2 ▸ h.1, if_pos h⟩
  · exact Or.inr (if_neg h)

theorem after_append (s : State) (as bs : List Attempt) :
    s.after (as ++ bs) = (s.after as).after bs := by
  induction as generalizing s with
  | nil => rfl
  | cons a as ih => exact ih _

theorem wins_append (s : State) (as bs : List Attempt) :
    s.wins (as ++ bs) = s.wins as ++ (s.after as).wins bs := by
  induction as generalizing s with
  | nil => rfl
  | cons a as ih =>
    simp only [List.cons_append, wins, after]
    split
    · next heq => rw [ih, heq, List.cons_append]
    · next heq => rw [ih, heq]

/-- The attempts that succeed lead from the first state to the last one. -/
theorem path_wins (s : State) (as : List Attempt) : Path s (s.wins as) (s.after as) := by
  induction as generalizing s with
  | nil => exact rfl
  | cons a as ih =>
    obtain ⟨hsource, hlegal, hwon⟩ | hlost := s.move_cases a
    · simp only [wins, after, hwon]
      exact ⟨hsource, hlegal, ih a.target⟩
    · simp only [wins, after, hlost]
      exact ih s

theorem Path.split (h : Path s (as ++ bs) t) : ∃ m, Path s as m ∧ Path m bs t := by
  induction as generalizing s with
  | nil => exact ⟨s, rfl, h⟩
  | cons a as ih =>
    obtain ⟨hsource, hlegal, hrest⟩ := h
    obtain ⟨m, hm, hlast⟩ := ih hrest
    exact ⟨m, ⟨hsource, hlegal, hm⟩, hlast⟩

/-- Moves into a state and moves out of it take turns. -/
theorem Path.balance (u : State) (h : Path s as t) :
    as.countP (·.source = u) + (decide (t = u)).toNat =
      as.countP (·.target = u) + (decide (s = u)).toNat := by
  induction as generalizing s with
  | nil =>
    cases h
    rfl
  | cons a as ih =>
    obtain ⟨rfl, -, hrest⟩ := h
    have hlater := ih hrest
    simp only [List.countP_cons, decide_eq_true_eq]
    by_cases hin : a.target = u <;> by_cases hout : a.source = u <;> simp_all <;> omega

/-- Nothing leaves the last state. -/
theorem Path.ended (h : Path .destroyed as t) : as = [] := by
  cases as with
  | nil => rfl
  | cons a as => exact absurd h.2.1 (by cases a.target <;> decide)

/-- What is to be destroyed can only be destroyed. -/
theorem Path.condemned (h : Path .toDestroy as t) :
    as = [] ∨ ∃ a, as = [a] ∧ a.source = .toDestroy ∧ a.target = .destroyed := by
  cases as with
  | nil => exact Or.inl rfl
  | cons a as =>
    obtain ⟨hsource, hlegal, hrest⟩ := h
    have htarget : a.target = .destroyed := by
      cases ht : a.target <;> rw [ht] at hlegal <;> first | rfl | cases hlegal
    rw [htarget] at hrest
    exact Or.inr ⟨a, congrArg _ hrest.ended, hsource, htarget⟩

/-- A state that no path comes back to is entered at most once. -/
theorem Path.once {u : State} (hu : ∀ bs t, Path u bs t → bs.countP (·.target = u) = 0)
    (h : Path s as t) : as.countP (·.target = u) ≤ 1 := by
  induction as generalizing s with
  | nil => exact Nat.zero_le 1
  | cons a as ih =>
    obtain ⟨-, -, hrest⟩ := h
    by_cases hin : a.target = u
    · have hnone := hu as t (hin ▸ hrest)
      simp [hin, hnone]
    · simpa [hin] using ih hrest

/-- What holds of a cell that started in `s` after these attempts. -/
structure Lawful (s : State) (as : List Attempt) : Prop where
  /-- An attempt succeeds if the table has its move and the cell is where it starts. -/
  decided : ∀ pre a post, as = pre ++ a :: post →
    (((s.after pre).move a.source a.target).1 = true ↔
      legal a.source a.target = true ∧ s.after pre = a.source)
  counted : ∀ pre a post, as = pre ++ a :: post →
    s.wins (pre ++ [a]) = s.wins pre ++ if ((s.after pre).move a.source a.target).1 then [a] else []
  /-- One that fails changes nothing. -/
  idle : ∀ pre a post, as = pre ++ a :: post → ((s.after pre).move a.source a.target).1 = false →
    s.after (pre ++ [a]) = s.after pre
  path : Path s (s.wins as) (s.after as)
  /-- Between any two moves into `checkedOut` there is one move more out of it than into it. -/
  turns : ∀ xs x ys y zs, s.wins as = xs ++ x :: (ys ++ y :: zs) → x.target = .checkedOut →
    y.target = .checkedOut →
    ys.countP (·.source = .checkedOut) = ys.countP (·.target = .checkedOut) + 1
  /-- Between one and the next there is exactly one move out. -/
  handed_back : ∀ xs x ys y zs, s.wins as = xs ++ x :: (ys ++ y :: zs) → x.target = .checkedOut →
    y.target = .checkedOut → (∀ z ∈ ys, z.target ≠ .checkedOut) →
    ys.countP (·.source = .checkedOut) = 1
  condemned_once : (s.wins as).countP (·.target = .toDestroy) ≤ 1
  destroyed_once : (s.wins as).countP (·.target = .destroyed) ≤ 1
  /-- After a move into `toDestroy` only the move into `destroyed` succeeds. -/
  doomed : ∀ xs x ys, s.wins as = xs ++ x :: ys → x.target = .toDestroy →
    ys = [] ∨ ∃ y, ys = [y] ∧ y.source = .toDestroy ∧ y.target = .destroyed

/-- From a move on, the successful attempts are a path that starts at its target. -/
theorem path_from {xs ys : List Attempt} {x : Attempt} (h : s.wins as = xs ++ x :: ys) :
    Path x.target ys (s.after as) := by
  have hpath := path_wins s as
  rw [h] at hpath
  obtain ⟨-, -, -, -, hrest⟩ := hpath.split
  exact hrest

/-- Between two moves into `checkedOut` all that was moved in is moved out again. -/
theorem turns_between {xs ys zs : List Attempt} {x y : Attempt}
    (h : s.wins as = xs ++ x :: (ys ++ y :: zs)) (hx : x.target = .checkedOut)
    (hy : y.target = .checkedOut) :
    ys.countP (·.source = .checkedOut) = ys.countP (·.target = .checkedOut) + 1 := by
  obtain ⟨m, hbefore, -, hlegal, -⟩ := (path_from h).split
  have hm : m ≠ .checkedOut := by
    rintro rfl
    rw [hy] at hlegal
    cases hlegal
  have hbalance := hbefore.balance .checkedOut
  simpa [hx, hm] using hbalance

/-- However many callers try to move a cell, and whatever they try: their successes are one walk
through the lifecycle, which is checked out by one at a time and destroyed at most once. -/
theorem moves_lawful (s : State) (as : List Attempt) : Lawful s as where
  decided _ _ _ _ := move_fst
  counted pre a _ _ := by
    rw [wins_append]
    simp only [wins]
    split
    · next heq => rw [heq, if_pos rfl]
    · next heq => rw [heq, if_neg Bool.false_ne_true]
  idle pre a _ _ hfail := by
    rw [after_append]
    exact move_snd_of_not_fst hfail
  path := path_wins s as
  turns _ _ _ _ _ h hx hy := turns_between h hx hy
  handed_back xs x ys y zs h hx hy hnone := by
    have hzero : ys.countP (·.target = .checkedOut) = 0 :=
      List.countP_eq_zero.mpr fun z hz => by simpa using hnone z hz
    rw [turns_between h hx hy, hzero]
  condemned_once := by
    refine (path_wins s as).once fun bs t hbs => ?_
    obtain rfl | ⟨a, rfl, -, ha⟩ := hbs.condemned
    · rfl
    · simp [ha]
  destroyed_once := by
    refine (path_wins s as).once fun bs t hbs => ?_
    rw [hbs.ended]
    rfl
  doomed xs x ys h hx := by
    have hrest := path_from h
    rw [hx] at hrest
    exact hrest.condemned

/-- Two callers try to check out, one gives back, and one who comes late destroys. -/
example : (checkedIn.wins [⟨0, .checkedIn, .checkedOut⟩, ⟨1, .checkedIn, .checkedOut⟩,
    ⟨0, .checkedOut, .checkedIn⟩, ⟨2, .checkedIn, .toDestroy⟩, ⟨1, .checkedIn, .checkedOut⟩]).map
      (·.caller) = [0, 0, 2] := by decide

end State
end ConnPool
