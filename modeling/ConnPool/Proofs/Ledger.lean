import ConnPool.Gauges
import ConnPool.Handle
import ConnPool.Proofs.Keyed
import Mathlib.Data.List.Perm.Basic
import Mathlib.Tactic.Linarith

namespace ConnPool

namespace Gauges

/-- The gauges of a pool in which every handle is idle or active. -/
def level (idle active peak : Nat) : Gauges :=
  { checkedIn := ⟨idle, 0⟩, checkedOut := ⟨active, 0⟩, maxUsed := peak }

theorem moved_out (i a m : Nat) :
    (level (i + 1) a m).moved .checkedIn .checkedOut = level i (a + 1) (max m (a + 1)) := rfl

theorem moved_in (i a m : Nat) :
    (level i (a + 1) m).moved .checkedOut .checkedIn = level (i + 1) a m := rfl

theorem leave_idle (i a m : Nat) : (level (i + 1) a m).leave .checkedIn = level i a m := rfl

theorem leave_active (i a m : Nat) : (level i (a + 1) m).leave .checkedOut = level i a m := rfl

end Gauges

/-- What a handle stands for: its state, and the number of the connection in its slot. -/
structure Account where
  id : HandleId
  state : State
  holds : Option Nat
  deriving DecidableEq

/-- A connection out on loan. -/
structure Loan where
  number : Nat
  handle : HandleId
  serial : Nat
  deriving DecidableEq

/-- A connection, and the handle that was made for it. -/
structure Birth where
  serial : Nat
  handle : HandleId
  deriving DecidableEq

/-- Where the connections of a pool are, and what the pool counts of them. -/
structure Ledger where
  cap : Nat
  accounts : List Account
  loans : List Loan
  closed : List Nat
  detached : List Nat
  inFlight : Nat
  size : Tally
  pending : Tally
  gauges : Gauges
  created : Nat
  destroyed : Nat
  attempts : Nat
  nextHandle : Nat
  nextLoan : Nat

namespace Ledger

def idle (l : Ledger) : Nat := l.accounts.countP (·.state = .checkedIn)

def active (l : Ledger) : Nat := l.accounts.countP (·.state = .checkedOut)

/-- The connections in all places, one after the other. -/
def serials (l : Ledger) : List Nat :=
  l.accounts.filterMap (·.holds) ++ l.loans.map (·.serial) ++ l.closed ++ l.detached

/-- What can happen to a ledger at once, with the connections that are born by it. -/
inductive Move : Ledger → List Birth → Ledger → Prop where
  | reserve {l : Ledger} (room : l.size.count < l.cap) :
    Move l [] { l with size := l.size.up, pending := l.pending.up, inFlight := l.inFlight + 1 }
  | miscarry {l : Ledger} {n k : Nat} (some_in_flight : l.inFlight = n + 1)
      (later : l.attempts ≤ k) :
    Move l []
      { l with size := l.size.down, pending := l.pending.down, inFlight := n, attempts := k }
  | born {l : Ledger} {n : Nat} (some_in_flight : l.inFlight = n + 1) :
    Move l [⟨l.attempts + 1, ⟨l.nextHandle⟩⟩]
      { l with
        accounts := l.accounts ++ [⟨⟨l.nextHandle⟩, .checkedIn, some (l.attempts + 1)⟩]
        inFlight := n
        pending := l.pending.down
        gauges := l.gauges.enter .checkedIn
        created := l.created + 1
        attempts := l.attempts + 1
        nextHandle := l.nextHandle + 1 }
  | stillborn {l : Ledger} {n : Nat} (some_in_flight : l.inFlight = n + 1) :
    Move l [⟨l.attempts + 1, ⟨l.nextHandle⟩⟩]
      { l with
        closed := (l.attempts + 1) :: l.closed
        inFlight := n
        size := l.size.down
        pending := l.pending.down
        created := l.created + 1
        destroyed := l.destroyed + 1
        attempts := l.attempts + 1
        nextHandle := l.nextHandle + 1 }
  | claim {l : Ledger} {pre post : List Account} {id : HandleId} {s : Nat}
    (idle : l.accounts = pre ++ ⟨id, .checkedIn, some s⟩ :: post) :
    Move l []
      { l with
        accounts := pre ++ ⟨id, .checkedOut, some s⟩ :: post
        gauges := l.gauges.moved .checkedIn .checkedOut }
  | lend {l : Ledger} {pre post : List Account} {id : HandleId} {s : Nat}
    (resting : l.accounts = pre ++ ⟨id, .checkedOut, some s⟩ :: post) :
    Move l []
      { l with
        accounts := pre ++ ⟨id, .checkedOut, none⟩ :: post
        loans := l.loans ++ [⟨l.nextLoan, id, s⟩]
        nextLoan := l.nextLoan + 1 }
  | giveUp {l : Ledger} {pre post : List Account} {before after : List Loan} {id : HandleId}
    {k s : Nat} (lent : l.accounts = pre ++ ⟨id, .checkedOut, none⟩ :: post)
    (loan : l.loans = before ++ ⟨k, id, s⟩ :: after) :
    Move l []
      { l with accounts := pre ++ ⟨id, .checkedOut, some s⟩ :: post, loans := before ++ after }
  | comeBack {l : Ledger} {pre post : List Account} {id : HandleId} {s : Nat}
    (resting : l.accounts = pre ++ ⟨id, .checkedOut, some s⟩ :: post) :
    Move l []
      { l with
        accounts := pre ++ ⟨id, .checkedIn, some s⟩ :: post
        gauges := l.gauges.moved .checkedOut .checkedIn }
  | expel {l : Ledger} {pre post : List Account} {id : HandleId} {state : State} {s : Nat}
    (full : l.accounts = pre ++ ⟨id, state, some s⟩ :: post) :
    Move l []
      { l with
        accounts := pre ++ post
        closed := s :: l.closed
        size := l.size.down
        gauges := l.gauges.leave state
        destroyed := l.destroyed + 1 }
  | detach {l : Ledger} {pre post : List Account} {before after : List Loan} {id : HandleId}
    {k s : Nat} (lent : l.accounts = pre ++ ⟨id, .checkedOut, none⟩ :: post)
    (loan : l.loans = before ++ ⟨k, id, s⟩ :: after) :
    Move l []
      { l with
        accounts := pre ++ post
        loans := before ++ after
        detached := s :: l.detached
        size := l.size.down
        gauges := l.gauges.leave .checkedOut
        destroyed := l.destroyed + 1 }

/-- Any number of moves, with all that is born by them. -/
inductive Moves : Ledger → List Birth → Ledger → Prop where
  | refl (l : Ledger) : Moves l [] l
  | step {l m n : Ledger} {bs cs : List Birth} (first : Move l bs m) (rest : Moves m cs n) :
    Moves l (bs ++ cs) n

theorem Moves.trans {l m n : Ledger} {bs cs : List Birth} (h : Moves l bs m) (k : Moves m cs n) :
    Moves l (bs ++ cs) n := by
  induction h with
  | refl l => exact k
  | step first rest ih =>
    rw [List.append_assoc]
    exact .step first (ih k)

theorem Move.moves {l m : Ledger} {bs : List Birth} (h : Move l bs m) : Moves l bs m := by
  simpa using Moves.step h (.refl m)

/-- Handles and loans fit each other: the slots that are empty are those of the handles on loan. -/
structure Fitting (l : Ledger) : Prop where
  ids_nodup : (l.accounts.map (·.id)).Nodup
  ids_lt : ∀ a ∈ l.accounts, a.id.val < l.nextHandle
  idle_or_active : ∀ a ∈ l.accounts, a.state = .checkedIn ∧ a.holds.isSome ∨ a.state = .checkedOut
  numbers_nodup : (l.loans.map (·.number)).Nodup
  numbers_lt : ∀ o ∈ l.loans, o.number < l.nextLoan
  lent : ((l.accounts.filter (·.holds.isNone)).map (·.id)).Perm (l.loans.map (·.handle))

/-- Every number that is kept is the number of what it counts, and none was taken below zero. -/
structure Counted (l : Ledger) : Prop where
  size_eq : l.size = ⟨l.accounts.length + l.inFlight, 0⟩
  pending_eq : l.pending = ⟨l.inFlight, 0⟩
  gauges_eq : l.gauges = .level l.idle l.active l.gauges.maxUsed
  size_le : l.accounts.length + l.inFlight ≤ l.cap
  active_le : l.active ≤ l.gauges.maxUsed
  peak_le : l.gauges.maxUsed ≤ l.cap
  created_eq : l.created = l.destroyed + l.accounts.length

structure Sound (l : Ledger) : Prop where
  fitting : l.Fitting
  counted : l.Counted

theorem idle_add_active_le (l : Ledger) : l.idle + l.active ≤ l.accounts.length := by
  simp only [idle, active]
  induction l.accounts with
  | nil => simp
  | cons a as ih =>
    simp only [List.countP_cons, List.length_cons, decide_eq_true_eq]
    cases h : a.state <;> simp <;> omega

private theorem forall_mem_middle {α : Type} {f : α → Prop} {pre post : List α} {x : α} :
    (∀ y ∈ pre ++ x :: post, f y) ↔ f x ∧ ∀ y ∈ pre ++ post, f y := by
  simp only [List.forall_mem_append, List.forall_mem_cons]
  exact and_left_comm

private theorem perm_cancel {xs ys as bs : List HandleId} {id : HandleId}
    (h : (xs ++ id :: ys).Perm (as ++ id :: bs)) : (xs ++ ys).Perm (as ++ bs) :=
  (List.perm_middle.symm.trans (h.trans List.perm_middle)).cons_inv

private theorem nodup_append_fresh {ns : List Nat} {n : Nat} (h : ns.Nodup)
    (hlt : ∀ k ∈ ns, k < n) :
    (ns ++ [n]).Nodup := by
  refine List.nodup_append.mpr ⟨h, List.nodup_singleton n, ?_⟩
  intro a ha b hb
  have ha' := hlt a ha
  have hb' : b = n := List.mem_singleton.mp hb
  omega

/-- A handle that gets its connection back ends the loan of it. -/
private theorem fitting_giveUp {l : Ledger} {pre post : List Account} {before after : List Loan}
    {id : HandleId} {k s : Nat} (hl : l.Fitting)
    (hacc : l.accounts = pre ++ ⟨id, .checkedOut, none⟩ :: post)
    (hloan : l.loans = before ++ ⟨k, id, s⟩ :: after) :
    Fitting { l with
      accounts := pre ++ ⟨id, .checkedOut, some s⟩ :: post, loans := before ++ after } := by
  obtain ⟨hi, hlt, hio, hn, hnlt, hlent⟩ := hl
  rw [hacc] at hi hlt hio hlent
  rw [hloan] at hn hnlt hlent
  have hothers := (forall_mem_middle.mp hio).2
  constructor
  · simpa using hi
  · exact forall_mem_middle.mpr (forall_mem_middle.mp hlt)
  · exact forall_mem_middle.mpr ⟨Or.inr rfl, hothers⟩
  · rw [List.map_append] at hn ⊢
    exact hn.sublist ((List.sublist_cons_self _ _).append_left _)
  · intro o ho
    exact hnlt o ((List.sublist_cons_self _ _).append_left _ |>.subset ho)
  · simp only [List.filter_append, List.filter_cons, List.map_append, Option.isNone_some,
      Option.isNone_none, if_true, Bool.false_eq_true, if_false, List.map_cons] at hlent ⊢
    exact perm_cancel hlent

/-- A handle with its connection in its slot can leave, whatever becomes of the connection. -/
private theorem fitting_remove {l : Ledger} {pre post : List Account} {id : HandleId}
    {state : State}
    {s : Nat} (hl : l.Fitting) (hacc : l.accounts = pre ++ ⟨id, state, some s⟩ :: post) :
    Fitting { l with accounts := pre ++ post } := by
  obtain ⟨hi, hlt, hio, hn, hnlt, hlent⟩ := hl
  rw [hacc] at hi hlt hio hlent
  have hsub : (pre ++ post).Sublist (pre ++ ⟨id, state, some s⟩ :: post) :=
    (List.sublist_cons_self _ _).append_left _
  refine ⟨hi.sublist (hsub.map _), fun a ha => hlt a (hsub.subset ha),
    fun a ha => hio a (hsub.subset ha), hn, hnlt, ?_⟩
  simpa [List.filter_append, List.filter_cons] using hlent

/-- A handle with its connection in its slot may become active or, as here, idle again. -/
private theorem fitting_restate {l : Ledger} {pre post : List Account} {id : HandleId}
    {state state' : State} {s : Nat} (hl : l.Fitting)
    (hacc : l.accounts = pre ++ ⟨id, state, some s⟩ :: post)
    (hs : state' = .checkedIn ∨ state' = .checkedOut) :
    Fitting { l with accounts := pre ++ ⟨id, state', some s⟩ :: post } := by
  obtain ⟨hi, hlt, hio, hn, hnlt, hlent⟩ := hl
  rw [hacc] at hi hlt hio hlent
  have hothers := (forall_mem_middle.mp hio).2
  refine ⟨by simpa using hi, ?_, ?_, hn, hnlt, ?_⟩
  · exact forall_mem_middle.mpr (forall_mem_middle.mp hlt)
  · exact forall_mem_middle.mpr ⟨hs.imp_left fun h => ⟨h, rfl⟩, hothers⟩
  · simpa [List.filter_append, List.filter_cons] using hlent

theorem Move.fitting {l m : Ledger} {bs : List Birth} (h : Move l bs m) (hl : l.Fitting) :
    m.Fitting := by
  have hparts := hl
  obtain ⟨hi, hlt, hio, hn, hnlt, hlent⟩ := hparts
  cases h with
  | reserve room => exact ⟨hi, hlt, hio, hn, hnlt, hlent⟩
  | miscarry some later => exact ⟨hi, hlt, hio, hn, hnlt, hlent⟩
  | born some =>
    refine ⟨?_, ?_, ?_, hn, hnlt, ?_⟩
    · rw [List.map_append]
      refine List.nodup_append.mpr ⟨hi, List.nodup_singleton _, ?_⟩
      intro x hx y hy he
      obtain ⟨a, ha, rfl⟩ := List.mem_map.mp hx
      have hnew : a.id = ⟨l.nextHandle⟩ := he.trans (List.mem_singleton.mp hy)
      exact Nat.lt_irrefl _ (hnew ▸ hlt a ha)
    · exact List.forall_mem_append.mpr ⟨fun a ha => Nat.lt_succ_of_lt (hlt a ha),
        List.forall_mem_singleton.mpr (Nat.lt_succ_self _)⟩
    · exact List.forall_mem_append.mpr ⟨hio, List.forall_mem_singleton.mpr (Or.inl ⟨rfl, rfl⟩)⟩
    · simpa using hlent
  | stillborn some =>
    exact ⟨hi, fun a ha => Nat.lt_succ_of_lt (hlt a ha), hio, hn, hnlt, hlent⟩
  | claim idle =>
    obtain ⟨gi, glt, gio, gn, gnlt, glent⟩ := fitting_restate hl idle (Or.inr rfl)
    exact ⟨gi, glt, gio, gn, gnlt, glent⟩
  | @lend pre post id s resting =>
    rw [resting] at hi hlt hio hlent
    have hothers := (forall_mem_middle.mp hio).2
    refine ⟨by simpa using hi, ?_, ?_, ?_, ?_, ?_⟩
    · exact forall_mem_middle.mpr (forall_mem_middle.mp hlt)
    · exact forall_mem_middle.mpr ⟨Or.inr rfl, hothers⟩
    · rw [List.map_append]
      exact nodup_append_fresh hn (List.forall_mem_map.mpr hnlt)
    · simp only [List.forall_mem_append, List.forall_mem_singleton]
      exact ⟨fun o ho => Nat.lt_succ_of_lt (hnlt o ho), Nat.lt_succ_self _⟩
    · simp only [List.filter_append, List.filter_cons, List.map_append, Option.isNone_some,
        Option.isNone_none, if_true, Bool.false_eq_true, if_false, List.map_cons] at hlent ⊢
      exact List.perm_middle.trans ((hlent.cons id).trans (List.perm_append_singleton _ _).symm)
  | giveUp lent loan => exact fitting_giveUp hl lent loan
  | comeBack resting =>
    obtain ⟨gi, glt, gio, gn, gnlt, glent⟩ := fitting_restate hl resting (Or.inl rfl)
    exact ⟨gi, glt, gio, gn, gnlt, glent⟩
  | expel full =>
    obtain ⟨gi, glt, gio, gn, gnlt, glent⟩ := fitting_remove hl full
    exact ⟨gi, glt, gio, gn, gnlt, glent⟩
  | detach lent loan =>
    -- the loan ends as if the connection had come back, and then the handle goes
    obtain ⟨gi, glt, gio, gn, gnlt, glent⟩ := fitting_remove (fitting_giveUp hl lent loan) rfl
    exact ⟨gi, glt, gio, gn, gnlt, glent⟩

private theorem countP_middle {pre post : List Account} {a : Account} (f : Account → Bool) :
    (pre ++ a :: post).countP f = (pre ++ post).countP f + if f a then 1 else 0 := by
  rw [List.countP_append, List.countP_cons, List.countP_append]
  omega

private theorem length_middle (pre post : List Account) (a : Account) :
    (pre ++ a :: post).length = (pre ++ post).length + 1 := by
  rw [List.length_append, List.length_cons, List.length_append]
  omega

/-- The numbers after a handle has left: every account but one is as before. -/
private theorem counted_remove {l : Ledger} {pre post : List Account} {a : Account}
    (hl : l.Counted) (hacc : l.accounts = pre ++ a :: post)
    (hs : a.state = .checkedIn ∨ a.state = .checkedOut) (loans : List Loan) (cs ds : List Nat) :
    Counted { l with
      accounts := pre ++ post
      loans := loans
      closed := cs
      detached := ds
      size := l.size.down
      gauges := l.gauges.leave a.state
      destroyed := l.destroyed + 1 } := by
  obtain ⟨hsize, hp, hg, hfit, ha, hpeak, hc⟩ := hl
  have hlen := hacc ▸ length_middle pre post a
  simp only [idle, active, hacc, countP_middle] at hg
  simp only [active, hacc, countP_middle] at ha
  rw [hlen] at hsize hfit hc
  have hleave : l.gauges.leave a.state = .level ((pre ++ post).countP (·.state = .checkedIn))
      ((pre ++ post).countP (·.state = .checkedOut)) l.gauges.maxUsed := by
    rcases hs with hs | hs
    · simp only [hs, decide_true, if_true, reduceCtorEq, decide_false, Bool.false_eq_true, if_false,
        Nat.add_zero] at hg ⊢
      rw [hg, Gauges.leave_idle]
      rfl
    · simp only [hs, decide_true, if_true, reduceCtorEq, decide_false, Bool.false_eq_true, if_false,
        Nat.add_zero] at hg ⊢
      rw [hg, Gauges.leave_active]
      rfl
  refine ⟨?_, hp, ?_, ?_, ?_, ?_, ?_⟩
  · rw [hsize, Nat.add_right_comm]
    rfl
  · rw [hleave]
    rfl
  · exact Nat.le_trans (by simp only; omega) hfit
  · rw [hleave]
    exact Nat.le_trans (Nat.le_add_right _ _) ha
  · rw [hleave]
    exact hpeak
  · simp only
    omega

/-- One account is another than before; the gauges must tell it, and all else is counted as
before. -/
private theorem counted_restate {l : Ledger} {pre post : List Account} {a b : Account} {g : Gauges}
    (hl : l.Counted) (hacc : l.accounts = pre ++ a :: post)
    (hg : g = .level ((pre ++ b :: post).countP (·.state = .checkedIn))
      ((pre ++ b :: post).countP (·.state = .checkedOut)) g.maxUsed)
    (ha : (pre ++ b :: post).countP (·.state = .checkedOut) ≤ g.maxUsed) (hpeak : g.maxUsed ≤ l.cap)
    (loans : List Loan) (n : Nat) :
    Counted
      { l with accounts := pre ++ b :: post, gauges := g, loans := loans, nextLoan := n } := by
  have hlen : l.accounts.length = (pre ++ b :: post).length := by
    rw [hacc, length_middle, length_middle]
  obtain ⟨hsize, hp, -, hfit, -, -, hc⟩ := hl
  rw [hlen] at hsize hfit hc
  exact ⟨hsize, hp, hg, hfit, ha, hpeak, hc⟩

/-- An account that keeps its state is counted as before. -/
private theorem counted_reslot {l : Ledger} {pre post : List Account} {a b : Account}
    (hl : l.Counted) (hacc : l.accounts = pre ++ a :: post) (hs : a.state = b.state)
    (loans : List Loan) (n : Nat) :
    Counted { l with accounts := pre ++ b :: post, loans := loans, nextLoan := n } := by
  have hsame : ∀ s : State,
      (pre ++ b :: post).countP (·.state = s) = l.accounts.countP (·.state = s) := by
    intro s
    rw [hacc, countP_middle, countP_middle, hs]
  refine counted_restate hl hacc ?_ ?_ hl.peak_le loans n
  · rw [hsame, hsame]
    exact hl.gauges_eq
  · rw [hsame]
    exact hl.active_le

theorem Move.counted {l m : Ledger} {bs : List Birth} (h : Move l bs m) (hf : l.Fitting)
    (hl : l.Counted) : m.Counted := by
  have ⟨hs, hp, hg, hfit, ha, hpeak, hc⟩ := hl
  cases h with
  | reserve room =>
    rw [hs] at room
    refine ⟨by simp only [hs]; rfl, by simp only [hp]; rfl, hg, ?_, ha, hpeak, hc⟩
    simp only at room ⊢
    omega
  | miscarry some later =>
    rw [some] at hs hp hfit
    refine ⟨by simp only [hs]; rfl, by simp only [hp]; rfl, hg, ?_, ha, hpeak, hc⟩
    simp only
    omega
  | born some =>
    rw [some] at hs hp hfit
    refine ⟨?_, by simp only [hp]; rfl, ?_, ?_, ?_, ?_, ?_⟩
    · simp only [hs, List.length_append, List.length_singleton, Nat.add_assoc, Nat.add_comm 1]
    · simp only [idle, active] at hg ⊢
      simp only [List.countP_append, List.countP_singleton, decide_true, if_true, reduceCtorEq,
        decide_false, Bool.false_eq_true, if_false, Nat.add_zero]
      rw [hg]
      rfl
    · simp only [List.length_append, List.length_singleton]
      omega
    · simp only [active] at ha ⊢
      simp only [List.countP_append, List.countP_singleton, reduceCtorEq, decide_false,
        Bool.false_eq_true, if_false, Nat.add_zero]
      exact ha
    · exact hpeak
    · simp only [List.length_append, List.length_singleton]
      omega
  | stillborn some =>
    rw [some] at hs hp hfit
    refine ⟨by simp only [hs]; rfl, by simp only [hp]; rfl, hg, ?_, ha, hpeak, ?_⟩
    · simp only
      omega
    · simp only
      omega
  | @claim pre post id s idle =>
    have hle := idle_add_active_le l
    simp only [Ledger.idle, active, idle, countP_middle, length_middle, decide_true, if_true,
      reduceCtorEq, decide_false, Bool.false_eq_true, if_false, Nat.add_zero] at hg hfit hle
    refine counted_restate hl idle ?_ ?_ ?_ l.loans l.nextLoan
    · simp only [countP_middle, decide_true, if_true, reduceCtorEq, decide_false,
        Bool.false_eq_true, if_false, Nat.add_zero]
      rw [hg]
      rfl
    · simp only [countP_middle, decide_true, if_true]
      rw [hg, Gauges.moved_out]
      exact Nat.le_max_right _ _
    · rw [hg, Gauges.moved_out]
      exact Nat.max_le.mpr ⟨hpeak, by omega⟩
  | lend resting => exact counted_reslot (b := ⟨_, .checkedOut, none⟩) hl resting rfl _ _
  | giveUp lent loan => exact counted_reslot (b := ⟨_, .checkedOut, some _⟩) hl lent rfl _ _
  | comeBack resting =>
    simp only [active, resting, countP_middle, decide_true, if_true] at ha
    simp only [idle, active, resting, countP_middle, decide_true, if_true, reduceCtorEq,
      decide_false, Bool.false_eq_true, if_false, Nat.add_zero] at hg
    refine counted_restate hl resting ?_ ?_ ?_ l.loans l.nextLoan
    · simp only [countP_middle, decide_true, if_true, reduceCtorEq, decide_false,
        Bool.false_eq_true, if_false, Nat.add_zero]
      rw [hg]
      rfl
    · simp only [countP_middle, reduceCtorEq, decide_false, Bool.false_eq_true, if_false,
        Nat.add_zero]
      rw [hg, Gauges.moved_in]
      exact Nat.le_of_succ_le ha
    · rw [hg, Gauges.moved_in]
      exact hpeak
  | @expel pre post id state s full =>
    have hst := hf.idle_or_active ⟨id, state, some s⟩ (by rw [full]; simp)
    exact counted_remove hl full (hst.imp_left And.left) _ _ _
  | detach lent loan => exact counted_remove hl lent (Or.inr rfl) _ _ _

theorem Move.sound {l m : Ledger} {bs : List Birth} (h : Move l bs m) (hl : l.Sound) : m.Sound :=
  ⟨h.fitting hl.fitting, h.counted hl.fitting hl.counted⟩

theorem Moves.sound {l m : Ledger} {bs : List Birth} (h : Moves l bs m) (hl : l.Sound) :
    m.Sound := by
  induction h with
  | refl l => exact hl
  | step first rest ih => exact ih (first.sound hl)

/-- What a ledger owes to the births so far: each connection is in one place, and the handle that
has it in its slot or out on loan is the one that was made for it. -/
structure Traced (bs : List Birth) (l : Ledger) : Prop where
  serials_nodup : (bs.map (·.serial)).Nodup
  serials_le : ∀ b ∈ bs, b.serial ≤ l.attempts
  handles_nodup : (bs.map (·.handle)).Nodup
  handles_lt : ∀ b ∈ bs, b.handle.val < l.nextHandle
  conserved : l.serials.Perm (bs.map (·.serial))
  held : ∀ a ∈ l.accounts, ∀ s, a.holds = some s → ⟨s, a.id⟩ ∈ bs
  lent : ∀ o ∈ l.loans, ⟨o.serial, o.handle⟩ ∈ bs

private theorem traced_birth {l : Ledger} {bs : List Birth} (hl : l.Traced bs) :
    let b : Birth := ⟨l.attempts + 1, ⟨l.nextHandle⟩⟩
    ((bs ++ [b]).map (·.serial)).Nodup ∧ (∀ c ∈ bs ++ [b], c.serial ≤ l.attempts + 1) ∧
      ((bs ++ [b]).map (·.handle)).Nodup ∧ ∀ c ∈ bs ++ [b], c.handle.val < l.nextHandle + 1 := by
  intro b
  refine ⟨?_, ?_, ?_, ?_⟩
  · rw [List.map_append]
    refine nodup_append_fresh hl.serials_nodup (List.forall_mem_map.mpr fun c hc => ?_)
    exact Nat.lt_succ_of_le (hl.serials_le c hc)
  · simp only [List.forall_mem_append, List.forall_mem_singleton]
    exact ⟨fun c hc => Nat.le_succ_of_le (hl.serials_le c hc), Nat.le_refl _⟩
  · rw [List.map_append]
    refine List.nodup_append.mpr ⟨hl.handles_nodup, List.nodup_singleton _, ?_⟩
    intro x hx y hy he
    obtain ⟨c, hc, rfl⟩ := List.mem_map.mp hx
    have hnew : c.handle = ⟨l.nextHandle⟩ := he.trans (List.mem_singleton.mp hy)
    exact Nat.lt_irrefl _ (hnew ▸ hl.handles_lt c hc)
  · simp only [List.forall_mem_append, List.forall_mem_singleton]
    exact ⟨fun c hc => Nat.lt_succ_of_lt (hl.handles_lt c hc), Nat.lt_succ_self _⟩

/-- Traces only ask which connections there are, and which handle has them or has lent them. -/
private theorem Traced.shift {l m : Ledger} {bs : List Birth} (hl : l.Traced bs)
    (ha : m.attempts = l.attempts) (hn : m.nextHandle = l.nextHandle)
    (hc : ∀ k, m.serials.count k = l.serials.count k)
    (hheld : ∀ a ∈ m.accounts, ∀ s, a.holds = some s → ⟨s, a.id⟩ ∈ bs)
    (hlent : ∀ o ∈ m.loans, ⟨o.serial, o.handle⟩ ∈ bs) : m.Traced (bs ++ []) := by
  rw [List.append_nil]
  exact ⟨hl.serials_nodup, ha ▸ hl.serials_le, hl.handles_nodup, hn ▸ hl.handles_lt,
    (List.perm_iff_count.mpr hc).trans hl.conserved, hheld, hlent⟩

theorem Move.traced {l m : Ledger} {bs cs : List Birth} (h : Move l cs m) (hl : l.Traced bs) :
    m.Traced (bs ++ cs) := by
  have ⟨hs, hsle, hh, hhlt, hc, hheld, hlent⟩ := hl
  cases h with
  | reserve room => exact hl.shift rfl rfl (fun _ => rfl) hheld hlent
  | miscarry some later =>
    rw [List.append_nil]
    exact ⟨hs, fun b hb => Nat.le_trans (hsle b hb) later, hh, hhlt, hc, hheld, hlent⟩
  | born some =>
    obtain ⟨gs, gsle, gh, ghlt⟩ := traced_birth hl
    refine ⟨gs, gsle, gh, ghlt, ?_, ?_, fun o ho => List.mem_append_left _ (hlent o ho)⟩
    · rw [List.map_append, List.perm_iff_count]
      intro k
      have hk := List.perm_iff_count.mp hc k
      simp only [serials, List.filterMap_append, List.filterMap_cons, List.filterMap_nil,
        List.count_append, List.map_cons, List.map_nil] at hk ⊢
      omega
    · simp only [List.forall_mem_append, List.forall_mem_singleton]
      refine ⟨fun a ha s hs => List.mem_append_left _ (hheld a ha s hs), ?_⟩
      rintro s ⟨⟩
      exact List.mem_append_right _ List.mem_cons_self
  | stillborn some =>
    obtain ⟨gs, gsle, gh, ghlt⟩ := traced_birth hl
    refine ⟨gs, gsle, gh, ghlt, ?_, fun a ha s hs => List.mem_append_left _ (hheld a ha s hs),
      fun o ho => List.mem_append_left _ (hlent o ho)⟩
    rw [List.map_append, List.perm_iff_count]
    intro k
    have hk := List.perm_iff_count.mp hc k
    simp only [serials, List.count_append, List.count_cons, List.map_cons, List.map_nil,
      List.count_nil] at hk ⊢
    omega
  | claim idle =>
    rw [idle] at hheld
    refine hl.shift rfl rfl ?_ (forall_mem_middle.mpr (forall_mem_middle.mp hheld)) hlent
    intro k
    simp only [serials, idle, List.filterMap_append, List.filterMap_cons]
  | lend resting =>
    rw [resting] at hheld
    obtain ⟨hown, hothers⟩ := forall_mem_middle.mp hheld
    refine hl.shift rfl rfl ?_ (forall_mem_middle.mpr ⟨by simp, hothers⟩) ?_
    · intro k
      simp only [serials, resting, List.filterMap_append, List.filterMap_cons, List.map_append,
        List.map_cons, List.map_nil, List.count_append, List.count_cons, List.count_nil]
      omega
    · simp only [List.forall_mem_append, List.forall_mem_singleton]
      exact ⟨hlent, hown _ rfl⟩
  | giveUp lent loan =>
    rw [lent] at hheld
    rw [loan] at hlent
    obtain ⟨-, hothers⟩ := forall_mem_middle.mp hheld
    obtain ⟨hown, hloans⟩ := forall_mem_middle.mp hlent
    refine hl.shift rfl rfl ?_ (forall_mem_middle.mpr ⟨?_, hothers⟩) hloans
    · intro k
      simp only [serials, lent, loan, List.filterMap_append, List.filterMap_cons, List.map_append,
        List.map_cons, List.count_append, List.count_cons]
      omega
    · rintro s ⟨⟩
      exact hown
  | comeBack resting =>
    rw [resting] at hheld
    refine hl.shift rfl rfl ?_ (forall_mem_middle.mpr (forall_mem_middle.mp hheld)) hlent
    intro k
    simp only [serials, resting, List.filterMap_append, List.filterMap_cons]
  | expel full =>
    rw [full] at hheld
    obtain ⟨-, hothers⟩ := forall_mem_middle.mp hheld
    refine hl.shift rfl rfl ?_ hothers hlent
    intro k
    simp only [serials, full, List.filterMap_append, List.filterMap_cons, List.count_append,
      List.count_cons]
    omega
  | detach lent loan =>
    rw [lent] at hheld
    rw [loan] at hlent
    obtain ⟨-, hothers⟩ := forall_mem_middle.mp hheld
    obtain ⟨-, hloans⟩ := forall_mem_middle.mp hlent
    refine hl.shift rfl rfl ?_ hothers hloans
    intro k
    simp only [serials, lent, loan, List.filterMap_append, List.filterMap_cons, List.map_append,
      List.map_cons, List.count_append, List.count_cons]
    omega

theorem Moves.traced {l m : Ledger} {bs cs : List Birth} (h : Moves l cs m) (hl : l.Traced bs) :
    m.Traced (bs ++ cs) := by
  induction h generalizing bs with
  | refl l =>
    rw [List.append_nil]
    exact hl
  | step first rest ih =>
    rw [← List.append_assoc]
    exact ih (first.traced hl)

end Ledger
end ConnPool
