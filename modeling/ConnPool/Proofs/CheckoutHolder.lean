import ConnPool.Proofs.CheckoutSteps
import ConnPool.Proofs.ReapRace

namespace ConnPool
namespace Pool
namespace Handling

/-- A connection lies in the slot of a handle that is checked out. -/
def unguarded (p : Pool) (id : HandleId) : Bool :=
  match p.cell id with
  | some (.checkedOut, some _) => true
  | _ => false

/-- A thread that knows a handle by its number only takes it up, while another thread takes the
checkout to be its own. -/
def usurps (h : Handling) (id : HandleId) : Move → Bool
  | .go s => s.byNumber && decide (s.handle = id) && unguarded h.pool id &&
      h.tasks.any fun u => u.claims && decide (u.handle = id)
  | _ => false

/-- Whether some step of a run does so. -/
def usurped (h : Handling) (id : HandleId) : List Move → Bool
  | [] => false
  | m :: ms => h.usurps id m || (h.step m).usurped id ms

/-- Threads without a lease that take the checkout of a handle to be their own. -/
def claimants (h : Handling) (id : HandleId) : Nat :=
  h.tasks.countP fun s => s.claims && decide (s.handle = id)

/-- Threads that have moved a handle to its end. -/
def enders (h : Handling) (id : HandleId) : Nat :=
  h.tasks.countP fun s => s.ends && decide (s.handle = id)

/-- What holds of a handle between any two steps, as long as nobody has usurped it: one alone takes
its checkout to be his, and while he has a lease its slot is empty. -/
structure Sole (h : Handling) (id : HandleId) : Prop where
  one : lent h.pool id + h.claimants id ≤ 1
  out : 0 < h.claimants id → ∃ c, h.pool.cell id = some (.checkedOut, c)
  bare : 0 < lent h.pool id → h.pool.cell id = some (.checkedOut, none)
  ending : 0 < h.enders id → ∀ s c, h.pool.cell id = some (s, c) → s = .toDestroy

variable {a b : Handling} {p : Pool} {id k : HandleId} {s : Task}

/-- A thread begins something. -/
theorem count_begun (l : List Task) (next : Option Task) (p : Task → Bool) :
    (next.toList ++ l).countP p = l.countP p + (next.any p).toNat := by
  cases next with
  | none => rfl
  | some u =>
    rw [Option.toList_some, List.singleton_append, Keyed.countP_first, Option.any_some]

/-- What is left of the tasks, and what comes after the one that was done. -/
theorem count_tasks {l : List Task} (hs : s ∈ l) (next : Option Task) (p : Task → Bool) :
    (next.toList ++ l.erase s).countP p + (p s).toNat = l.countP p + (next.any p).toNat := by
  have hless := countP_erase_add hs p
  rw [count_begun]
  omega

theorem Sole.mono (h : a.Sole id) (hcell : b.pool.cell id = a.pool.cell id)
    (hlent : lent b.pool id ≤ lent a.pool id) (hclaimants : b.claimants id ≤ a.claimants id)
    (henders : b.enders id ≤ a.enders id) : b.Sole id := by
  have hone := h.one
  refine ⟨by omega, fun hpos => ?_, fun hpos => ?_, fun hpos => ?_⟩
  · rw [hcell]
    exact h.out (by omega)
  · rw [hcell]
    exact h.bare (by omega)
  · rw [hcell]
    exact h.ending (by omega)

/-- A handle that is checked out is not being ended. -/
theorem Sole.not_ending (h : a.Sole id) {c : Option Connection}
    (hcell : a.pool.cell id = some (.checkedOut, c)) : a.enders id = 0 := by
  by_contra hne
  cases h.ending (Nat.pos_of_ne_zero hne) _ _ hcell

/-- A handle that is not checked out is nobody's. -/
theorem Sole.nobody (h : a.Sole id) (hcell : ∀ c, a.pool.cell id ≠ some (.checkedOut, c)) :
    lent a.pool id = 0 ∧ a.claimants id = 0 := by
  constructor
  · by_contra hne
    exact hcell _ (h.bare (Nat.pos_of_ne_zero hne))
  · by_contra hne
    obtain ⟨c, hc⟩ := h.out (Nat.pos_of_ne_zero hne)
    exact hcell c hc

/-- A connection that lies in the slot is on loan to nobody. -/
theorem Sole.free (h : a.Sole id) {c : Connection} {s : State}
    (hcell : a.pool.cell id = some (s, some c)) :
    lent a.pool id = 0 := by
  by_contra hne
  rw [h.bare (Nat.pos_of_ne_zero hne)] at hcell
  cases hcell

/-- A handle that nobody takes to be his own. -/
theorem Sole.of_free (hlent : lent b.pool id = 0) (hclaimants : b.claimants id = 0)
    (hending : 0 < b.enders id → ∀ s c, b.pool.cell id = some (s, c) → s = .toDestroy) :
    b.Sole id :=
  ⟨by omega, fun hpos => absurd hclaimants (by omega), fun hpos => absurd hlent (by omega), hending⟩

theorem Sole.of_lease (hlent : lent b.pool id ≤ 1) (hclaimants : b.claimants id = 0)
    (henders : b.enders id = 0) (hcell : b.pool.cell id = some (.checkedOut, none)) : b.Sole id :=
  ⟨by omega, fun hpos => absurd hclaimants (by omega),
    fun _ => hcell, fun hpos => absurd henders (by omega)⟩

theorem Sole.of_claim {c : Option Connection} (hlent : lent b.pool id = 0)
    (hclaimants : b.claimants id ≤ 1)
    (henders : b.enders id = 0) (hcell : b.pool.cell id = some (.checkedOut, c)) : b.Sole id :=
  ⟨by omega, fun _ => ⟨c, hcell⟩,
    fun hpos => absurd hlent (by omega), fun hpos => absurd henders (by omega)⟩

/-- What the thread that did a task leaves to be done. -/
def after (a : Handling) (s : Task) : Handling :=
  ⟨(goOn a.pool s).1, (goOn a.pool s).2.toList ++ a.tasks.erase s⟩

theorem claimants_after (hs : s ∈ a.tasks) (id : HandleId) :
    (a.after s).claimants id + (s.claims && decide (s.handle = id)).toNat =
      a.claimants id + ((goOn a.pool s).2.any fun u => u.claims && decide (u.handle = id)).toNat :=
  count_tasks hs _ _

theorem enders_after (hs : s ∈ a.tasks) (id : HandleId) :
    (a.after s).enders id + (s.ends && decide (s.handle = id)).toNat =
      a.enders id + ((goOn a.pool s).2.any fun u => u.ends && decide (u.handle = id)).toNat :=
  count_tasks hs _ _

theorem claimants_of_other (hs : s ∈ a.tasks) (hother : s.claims = false) (id : HandleId) :
    (a.after s).claimants id =
      a.claimants id +
      ((goOn a.pool s).2.any fun u => u.claims && decide (u.handle = id)).toNat := by
  have hclaimants := claimants_after hs id
  rwa [hother, Bool.false_and, Bool.toNat_false, Nat.add_zero] at hclaimants

theorem enders_of_other (hs : s ∈ a.tasks) (hother : s.ends = false) (id : HandleId) :
    (a.after s).enders id =
      a.enders id + ((goOn a.pool s).2.any fun u => u.ends && decide (u.handle = id)).toNat := by
  have henders := enders_after hs id
  rwa [hother, Bool.false_and, Bool.toNat_false, Nat.add_zero] at henders

/-- A task that leaves its handle as it is, and is followed by none or by one of its kind. -/
theorem Sole.wait (h : a.Sole id) (hs : s ∈ a.tasks) (hown : s.handle = id)
    (hcell : (goOn a.pool s).1.cell id = a.pool.cell id)
    (hlent : lent (goOn a.pool s).1 id = lent a.pool id)
    (hnext : ∀ u ∈ (goOn a.pool s).2, u.claims = s.claims ∧ u.ends = s.ends) :
      (a.after s).Sole id := by
  have hclaimants := claimants_after hs id
  have henders := enders_after hs id
  have hfew : ∀ f : Task → Bool, (∀ u ∈ (goOn a.pool s).2, f u = f s) →
      ((goOn a.pool s).2.any fun u => f u && decide (u.handle = id)).toNat ≤
        (f s && decide (s.handle = id)).toNat := by
    intro f hf
    apply Bool.toNat_le_toNat
    intro hany
    obtain ⟨u, hu, hfu⟩ := (Option.any_eq_true ..).mp hany
    rw [← hf u hu, hown, decide_eq_true rfl, Bool.and_true]
    exact (Bool.and_eq_true_iff.mp hfu).1
  have hclaims := hfew (·.claims) fun u hu => (hnext u hu).1
  have hends := hfew (·.ends) fun u hu => (hnext u hu).2
  exact h.mono hcell (Nat.le_of_eq hlent) (by omega) (by omega)

/-- What follows a move out of `checkedOut`: nothing, or the handle's end. -/
theorem afterReturn_cases (p : Pool) (id : HandleId) :
    ∀ u ∈ afterReturn p id, u = .empty id ∧ p.returnState = .toDestroy := by
  intro u hu
  simp only [afterReturn] at hu
  split at hu
  · next hend => exact ⟨(Option.mem_some.mp hu).symm, hend⟩
  · cases hu

theorem any_claims {next : Option Task} {t : State}
    (hnext : ∀ u ∈ next, u = .empty id ∧ t = .toDestroy) :
    (next.any fun u => u.claims && decide (u.handle = id)) = false ∧
      ((next.any fun u => u.ends && decide (u.handle = id)) = false ∨ t = .toDestroy) := by
  cases next with
  | none => exact ⟨rfl, .inl rfl⟩
  | some u =>
    obtain ⟨rfl, ht⟩ := hnext u rfl
    exact ⟨rfl, .inr ht⟩

/-- Who takes a checkout to be its own is alone in it. -/
theorem Sole.alone (h : a.Sole id) (hs : s ∈ a.tasks) (hown : s.handle = id)
    (hclaims : s.claims = true) :
    lent a.pool id = 0 ∧ a.claimants id = s.claims.toNat := by
  have hpos : 0 < a.claimants id := List.countP_pos_iff.mpr ⟨s, hs, by simp [hown, hclaims]⟩
  have hone := h.one
  rw [hclaims, Bool.toNat_true]
  omega

/-- A return or a retirement, by one beside whom nobody takes the checkout to be its own. -/
theorem Sole.part (h : a.Sole id) (hs : s ∈ a.tasks) (hown : s.handle = id) (hends : s.ends = false)
    {q : Pool} {t : State} {next : Option Task}
    (hgo : goOn a.pool s = moved q id .checkedOut t next)
    (hq : q.cell id = a.pool.cell id) (hsame : lent q id = lent a.pool id)
    (hnext : ∀ u ∈ next, u = .empty id ∧ t = .toDestroy)
    (hsole : ∀ c, a.pool.cell id = some (.checkedOut, c) →
      lent a.pool id = 0 ∧ a.claimants id = s.claims.toNat) : (a.after s).Sole id := by
  rcases moved_cases q id .checkedOut t next with hlost | ⟨⟨c, hout⟩, hwon⟩
  · exact h.wait hs hown (by rw [hgo, hlost]; exact hq) (by rw [hgo, hlost]; exact hsame)
      (by rw [hgo, hlost]; exact follows_nothing _)
  · rw [hq] at hout
    obtain ⟨hfree, hnobody⟩ := hsole c hout
    obtain ⟨hnoclaim, hend⟩ := any_claims hnext
    have hnone := h.not_ending hout
    have hclaimants := claimants_after hs id
    have henders := enders_of_other hs hends id
    rw [hgo, hwon, hnoclaim, Bool.toNat_false, hown, decide_eq_true rfl,
      Bool.and_true] at hclaimants
    rw [hgo, hwon] at henders
    have hlent : lent (a.after s).pool id = lent a.pool id := by
      simp only [after, hgo, hwon]
      exact hsame
    refine .of_free (hlent.trans hfree) (by omega) fun hpos s d hd => ?_
    simp only [after, hgo, hwon, cell_restate, if_true, hq, hout, Option.map_some] at hd
    cases hd
    refine hend.resolve_left fun hno => ?_
    rw [hno, Bool.toNat_false] at henders
    omega

/-- A connection goes out of its slot into a lease, by one beside whom nobody takes the checkout to
be its own. -/
theorem Sole.lend (h : a.Sole id) (hs : s ∈ a.tasks) (hown : s.handle = id) (hends : s.ends = false)
    {q : Pool} {c : Connection} {enlisted : Bool}
    (hgo : goOn a.pool s = ((q.lend id c enlisted).2, none))
    (hq : q.cell id = a.pool.cell id) (hsame : lent q id = lent a.pool id)
    (hcell : a.pool.cell id = some (.checkedOut, some c))
      (hnobody : a.claimants id = s.claims.toNat) :
    (a.after s).Sole id := by
  have hclaimants := claimants_after hs id
  have henders := enders_of_other hs hends id
  have hlent := lent_lend q id id c enlisted
  have hfree := h.free hcell
  have hnone := h.not_ending hcell
  rw [hgo, Option.any_none, Bool.toNat_false, hown, decide_eq_true rfl, Bool.and_true] at hclaimants
  rw [hgo, Option.any_none, Bool.toNat_false] at henders
  rw [decide_eq_true rfl, Bool.toNat_true] at hlent
  refine .of_lease (b := a.after s) ?_ (by omega) (by omega) ?_
  · simp only [after, hgo]
    omega
  · simp only [after, hgo, cell_lend, if_true, hq, hcell, Option.map_some]

/-- A caller takes the connection of the handle that it has claimed. -/
theorem Sole.take (h : a.Sole id) {t : Thread} {started : Nat} (hs : .take id t started ∈ a.tasks) :
    (a.after (.take id t started)).Sole id := by
  by_cases hfull : ∃ c, a.pool.cell id = some (.checkedOut, some c)
  · obtain ⟨c, hcell⟩ := hfull
    have hgo : goOn a.pool (.take id t started) = (((a.pool.assign t started id).lend id c
        ((a.pool.assign t started id).units.current t = some id)).2, none) := by
      simp only [goOn, hcell]
    exact h.lend hs rfl rfl hgo (cell_assign ..) rfl hcell (h.alone hs rfl rfl).2
  · have hgo : goOn a.pool (.take id t started) = (a.pool, some (.doubt id)) := by
      simp only [goOn]
      split
      · next c hcell => exact absurd ⟨c, hcell⟩ hfull
      · rfl
    exact h.wait hs rfl (by rw [hgo]) (by rw [hgo]) fun u hu => by
      rw [hgo] at hu
      cases hu
      exact ⟨rfl, rfl⟩

/-- Nobody takes to be his own what is taken up by its number. -/
theorem claimants_of_not_usurps (hnumber : s.byNumber = true) (hown : s.handle = id)
    (hno : a.usurps id (.go s) = false) {c : Connection}
    (hcell : a.pool.cell id = some (.checkedOut, some c)) : a.claimants id = 0 := by
  have hopen : unguarded a.pool id = true := by
    simp only [unguarded, hcell]
  simp only [usurps, hnumber, hown, hopen, decide_true, Bool.and_self, Bool.true_and,
    List.any_eq_false] at hno
  exact List.countP_eq_zero.mpr hno

/-- A unit of work has its handle lent again. -/
theorem Sole.borrow (h : a.Sole id) {t : Thread} (hs : .borrow id t ∈ a.tasks)
    (hno : a.usurps id (.go (.borrow id t)) = false) : (a.after (.borrow id t)).Sole id := by
  by_cases hfull : ∃ c, a.pool.cell id = some (.checkedOut, some c)
  · obtain ⟨c, hcell⟩ := hfull
    have hgo : goOn a.pool (.borrow id t) =
      ((((a.pool.touch id).log .debug "Reusing enlisted connection"
        [("handle", .shown id.label)]).lend id c true).2, none) := by
      simp only [goOn, hcell]
    exact h.lend hs rfl rfl hgo (cell_touch a.pool id id) rfl hcell
      (claimants_of_not_usurps rfl rfl hno hcell)
  · have hgo : (goOn a.pool (.borrow id t)).2 = none ∧
        (goOn a.pool (.borrow id t)).1.cell id = a.pool.cell id ∧
        lent (goOn a.pool (.borrow id t)).1 id = lent a.pool id := by
      simp only [goOn]
      split
      · next c hcell => exact absurd ⟨c, hcell⟩ hfull
      · exact ⟨rfl, rfl, rfl⟩
      · exact ⟨rfl, rfl, rfl⟩
    obtain ⟨hnext, hcell, hlent⟩ := hgo
    exact h.wait hs rfl hcell hlent (by rw [hnext]; exact follows_nothing _)

/-- A unit of work that is over gives up its handle. -/
theorem Sole.locked (h : a.Sole id) (hs : .locked id ∈ a.tasks)
    (hno : a.usurps id (.go (.locked id)) = false) : (a.after (.locked id)).Sole id := by
  by_cases hslot : ∃ s c, a.pool.cell id = some (s, some c)
  · obtain ⟨s, c, hcell⟩ := hslot
    have hgo : goOn a.pool (.locked id) =
      moved (((a.pool.disassociate id).clearOwner id).touch id) id
        .checkedOut a.pool.returnState (afterReturn a.pool id) := by
      simp only [goOn, hcell]
    refine h.part hs rfl rfl hgo (by simp) rfl (afterReturn_cases a.pool id) fun d hout => ?_
    rw [hcell] at hout
    cases hout
    exact ⟨h.free hcell, claimants_of_not_usurps rfl rfl hno hcell⟩
  · have hgo : goOn a.pool (.locked id) = (a.pool, none) := by
      simp only [goOn]
      split
      · next s c hcell => exact absurd ⟨s, c, hcell⟩ hslot
      · rfl
    exact h.wait hs rfl (by rw [hgo]) (by rw [hgo]) (by rw [hgo]; exact follows_nothing _)

/-- The connection of a handle that is to be ended is taken out, and closed. -/
theorem Sole.empty (h : a.Sole id) (hs : .empty id ∈ a.tasks) : (a.after (.empty id)).Sole id := by
  by_cases hslot : ∃ s c, a.pool.cell id = some (s, some c)
  swap
  · have hgo : goOn a.pool (.empty id) = (a.pool, some (.strike id)) := by
      simp only [goOn]
      split
      · next s c hcell => exact absurd ⟨s, c, hcell⟩ hslot
      · rfl
    exact h.wait hs rfl (by rw [hgo]) (by rw [hgo]) fun u hu => by
      rw [hgo] at hu
      cases hu
      exact ⟨rfl, rfl⟩
  obtain ⟨s, c, hcell⟩ := hslot
  have hgo : goOn a.pool (.empty id) = ((a.pool.emptySlot id).surrender c, some (.strike id)) := by
    simp only [goOn, hcell]
  have hpos : 0 < a.enders id := List.countP_pos_iff.mpr ⟨_, hs, by simp [Task.ends, Task.handle]⟩
  cases h.ending hpos _ _ hcell
  obtain ⟨hlent, hclaims⟩ := h.nobody (by simp [hcell])
  have hclaimants := claimants_of_other hs rfl id
  rw [hgo] at hclaimants
  change _ = _ + 0 at hclaimants
  refine .of_free (b := a.after (.empty id)) ?_ (by omega) fun _ s d hd => ?_
  · simp only [after, hgo, lent_surrender]
    exact hlent
  · simp only [after, hgo, cell_surrender, cell_emptySlot, if_true, hcell, Option.map_some] at hd
    cases hd
    rfl

/-- The handle is struck off. -/
theorem Sole.strike (h : a.Sole id) (hs : .strike id ∈ a.tasks) :
    (a.after (.strike id)).Sole id := by
  have hpos : 0 < a.enders id := List.countP_pos_iff.mpr ⟨_, hs, by simp [Task.ends, Task.handle]⟩
  obtain ⟨hlent, hclaims⟩ := h.nobody fun c hc => by cases h.ending hpos _ _ hc
  have hclaimants := claimants_of_other hs rfl id
  change _ = _ + 0 at hclaimants
  refine .of_free (b := a.after (.strike id)) ?_ (by omega) fun _ s d hd => ?_
  · exact (lent_strike a.pool id id).trans hlent
  · simp only [after, goOn, cell_strike, if_true] at hd
    cases hd

/-- A step that is about another handle. -/
theorem Sole.elsewhere (h : a.Sole id) (hs : s ∈ a.tasks) (hother : s.handle ≠ id) :
    (a.after s).Sole id := by
  obtain ⟨hcell, hlent, htask⟩ := goOn_elsewhere a.pool s hother
  have hclaimants := claimants_after hs id
  have henders := enders_after hs id
  have hnot : ∀ f : Task → Bool,
      ((goOn a.pool s).2.any fun u => f u && decide (u.handle = id)) = false := by
    intro f
    rw [Option.any_eq_false]
    intro u hu
    simp [htask u hu, hother]
  rw [hnot, Bool.toNat_false] at hclaimants henders
  exact h.mono hcell (Nat.le_of_eq hlent) (by omega) (by omega)

/-- A step of a thread that does not take up by its number what another takes to be his own. -/
theorem Sole.go (h : a.Sole id) (hs : s ∈ a.tasks) (hno : a.usurps id (.go s) = false) :
    (a.after s).Sole id := by
  by_cases hown : s.handle = id
  swap
  · exact h.elsewhere hs hown
  subst hown
  cases s with
  | take k t started => exact h.take hs
  | doubt k =>
    have hgo : (goOn a.pool (.doubt k)).1.cell k = a.pool.cell k ∧
        lent (goOn a.pool (.doubt k)).1 k = lent a.pool k ∧
        ∀ u ∈ (goOn a.pool (.doubt k)).2, u = .forget k := by
      simp only [goOn]
      split
      · exact ⟨rfl, rfl, fun u hu => (Option.mem_some.mp hu).symm⟩
      · exact ⟨rfl, rfl, follows_nothing _⟩
    exact h.wait hs rfl hgo.1 hgo.2.1 fun u hu => hgo.2.2 u hu ▸ ⟨rfl, rfl⟩
  | borrow k t => exact h.borrow hs hno
  | look k =>
    refine h.wait hs rfl rfl rfl fun u hu => ?_
    simp only [goOn] at hu
    split at hu
    · cases hu
      exact ⟨rfl, rfl⟩
    · cases hu
  | tidy k => exact h.wait hs rfl (by simp [goOn]) rfl fun u hu => by cases hu; exact ⟨rfl, rfl⟩
  | yield k =>
    exact h.part hs rfl rfl rfl rfl rfl (afterReturn_cases _ _) fun _ _ => h.alone hs rfl rfl
  | forget k => exact h.wait hs rfl rfl rfl fun u hu => by cases hu; exact ⟨rfl, rfl⟩
  | disown k => exact h.wait hs rfl (by simp [goOn]) rfl fun u hu => by cases hu; exact ⟨rfl, rfl⟩
  | condemn k =>
    exact h.part hs rfl rfl rfl rfl rfl (fun u hu => ⟨(Option.mem_some.mp hu).symm, rfl⟩) fun _ _ =>
      h.alone hs rfl rfl
  | empty k => exact h.empty hs
  | strike k => exact h.strike hs
  | locked k => exact h.locked hs hno

theorem Sole.repool (h : a.Sole id) {q : Pool} (hcell : q.cell id = a.pool.cell id)
    (hlent : lent q id ≤ lent a.pool id) : Sole ⟨q, a.tasks⟩ id :=
  h.mono hcell hlent (Nat.le_refl _) (Nat.le_refl _)

/-- Something begins that is not about the handle, or takes nothing to be its own. -/
theorem Sole.begun (h : a.Sole id) (next : Option Task) (htasks : b.tasks = next.toList ++ a.tasks)
    (hcell : b.pool.cell id = a.pool.cell id) (hlent : lent b.pool id ≤ lent a.pool id)
    (hnext : ∀ u ∈ next, u.handle = id → u.claims = false ∧ u.ends = false) : b.Sole id := by
  have hnone : ∀ f : Task → Bool, (∀ u ∈ next, u.handle = id → f u = false) →
      (next.any fun u => f u && decide (u.handle = id)) = false := by
    intro f hf
    rw [Option.any_eq_false]
    intro u hu
    by_cases hown : u.handle = id
    · simp [hf u hu hown]
    · simp [hown]
  refine h.mono hcell hlent ?_ ?_
  · rw [claimants, htasks, count_begun, hnone _ fun u hu hown => (hnext u hu hown).1]
    exact Nat.le_refl _
  · rw [enders, htasks, count_begun, hnone _ fun u hu hown => (hnext u hu hown).2]
    exact Nat.le_refl _

/-- Someone turns to a handle that it knows by its number only. -/
theorem Sole.numbered (h : a.Sole id) {u : Task} (hu : u.byNumber = true) :
    Sole ⟨a.pool, u :: a.tasks⟩ id := by
  have hkind : u.claims = false ∧ u.ends = false := by
    cases u <;> first | exact ⟨rfl, rfl⟩ | cases hu
  exact h.begun (b := ⟨a.pool, u :: a.tasks⟩) (some u) rfl rfl (Nat.le_refl _) fun v hv _ =>
    Option.mem_some.mp hv ▸ hkind

/-- The only one that takes a checkout to be its own begins with it. -/
theorem Sole.claimed {u : Task} (htasks : b.tasks = u :: a.tasks) (hclaims : u.claims = true)
    (hnobody : a.claimants id = 0) (henders : a.enders id = 0) (hlent : lent b.pool id = 0)
    {c : Option Connection} (hcell : b.pool.cell id = some (.checkedOut, c)) : b.Sole id := by
  have hends : u.ends = false := by
    cases u <;> first | rfl | cases hclaims
  refine .of_claim hlent ?_ ?_ hcell
  · rw [claimants, htasks, List.countP_cons]
    change a.claimants id + _ ≤ 1
    rw [hnobody]
    split <;> omega
  · rw [enders, htasks, List.countP_cons, hends]
    exact henders

/-- A caller claims an idle handle. -/
theorem Sole.claim (h : a.Sole id) (k : HandleId) (t : Thread) (started : Nat) :
    (a.step (.claim k t started)).Sole id := by
  have hstep : a.step (.claim k t started) =
      ⟨(moved a.pool k .checkedIn .checkedOut (some (.take k t started))).1,
        (moved a.pool k .checkedIn .checkedOut (some (.take k t started))).2.toList
          ++ a.tasks⟩ := rfl
  by_cases hk : k = id
  swap
  · obtain ⟨hcell, hlent, htask⟩ := moved_elsewhere a.pool (s := .checkedIn) (t := .checkedOut)
      (some (.take k t started)) hk fun u hu => (Option.mem_some.mp hu) ▸ rfl
    rw [hstep]
    exact h.begun _ rfl hcell (Nat.le_of_eq hlent)
      fun u hu hown => absurd ((htask u hu).symm.trans hown) hk
  subst hk
  rcases moved_cases a.pool k .checkedIn .checkedOut (some (.take k t started)) with
    hlost | ⟨⟨c, hcell⟩, hwon⟩
  · rw [hstep, hlost]
    exact h
  · obtain ⟨hlent, hclaimants⟩ := h.nobody (by simp [hcell])
    have henders : a.enders k = 0 := by
      by_contra hne
      cases h.ending (Nat.pos_of_ne_zero hne) _ _ hcell
    have hmoved : (a.pool.restate k .checkedIn .checkedOut).cell k = some (.checkedOut, c) := by
      rw [cell_restate, if_pos rfl, hcell]
      rfl
    rw [hstep, hwon]
    exact .claimed rfl rfl hclaimants henders hlent hmoved

/-- Who gives up a lease has one less. -/
theorem lent_ended {n : Nat} {l : Lease} (hl : p.lease? n = some l) :
    (p.leases.filter (·.number ≠ n)).countP (·.handle = l.handle) < lent p l.handle := by
  obtain ⟨hmem, hnumber⟩ := lease_mem hl
  obtain ⟨pre, post, hsplit⟩ := List.append_of_mem hmem
  have hgone : (p.leases.filter (·.number ≠ n)).Sublist (pre ++ post) := by
    rw [hsplit, List.filter_append, List.filter_cons_of_neg (by simp [hnumber])]
    exact List.filter_sublist.append List.filter_sublist
  have hfewer : (p.leases.filter (·.number ≠ n)).countP (·.handle = l.handle) ≤
      (pre ++ post).countP (·.handle = l.handle) := hgone.countP_le
  have hone : lent p l.handle = (pre ++ post).countP (·.handle = l.handle) + 1 := by
    rw [lent, hsplit, List.countP_append, List.countP_cons_of_pos (by simp), List.countP_append]
    rfl
  omega

/-- A lease ends: its holder has nothing more to do with the handle, or has still to give it up. -/
theorem Sole.giveUp (h : a.Sole id) {n : Nat} {l : Lease} (hl : a.pool.lease? n = some l)
    (hleases : b.pool.leases = a.pool.leases.filter (·.number ≠ n))
    (hother : id ≠ l.handle → b.pool.cell id = a.pool.cell id)
    (hown : id = l.handle → a.pool.cell id = some (.checkedOut, none) →
      ∃ c, b.pool.cell id = some (.checkedOut, c))
    (next : Option Task) (htasks : b.tasks = next.toList ++ a.tasks)
    (hnext : ∀ u ∈ next, u.claims = true ∧ u.handle = l.handle) : b.Sole id := by
  by_cases hid : id = l.handle
  swap
  · have hless : lent b.pool id ≤ lent a.pool id := by
      rw [lent, hleases]
      exact List.filter_sublist.countP_le
    exact h.begun next htasks (hother hid) hless
      fun u hu hown => absurd (hown.symm.trans (hnext u hu).2) hid
  have hless : lent b.pool id < lent a.pool id := by
    rw [lent, hleases, hid]
    exact lent_ended hl
  have hbare := h.bare (by omega)
  obtain ⟨c, hcell⟩ := hown hid hbare
  have henders := h.not_ending hbare
  have hone := h.one
  cases next with
  | none =>
    have hclaimants : b.claimants id = a.claimants id := by rw [claimants, htasks]; rfl
    have hsame : b.enders id = a.enders id := by rw [enders, htasks]; rfl
    exact .of_free (by omega) (by omega) fun hp => by omega
  | some u => exact .claimed htasks (hnext u rfl).1 (by omega) henders (by omega) hcell

/-- The connection is back in the slot, and the holder may still have to give up the handle. -/
theorem Sole.putBack (h : a.Sole id) {n : Nat} {l : Lease} (hl : a.pool.lease? n = some l)
    (hleases : b.pool.leases = a.pool.leases.filter (·.number ≠ n))
    (hback : b.pool.cell id = (a.pool.restore l.handle l.connection).cell id)
    (next : Option Task) (htasks : b.tasks = next.toList ++ a.tasks)
    (hnext : ∀ u ∈ next, u.claims = true ∧ u.handle = l.handle) : b.Sole id := by
  rw [cell_restore] at hback
  refine h.giveUp hl hleases (fun hk => ?_)
    (fun hk hbare => ⟨some l.connection, ?_⟩) next htasks hnext
  · rw [hback, if_neg hk]
  · rw [hback, if_pos hk, ← hk, hbare]
    rfl

/-- What anyone does to a handle that is not checked out. -/
theorem Sole.shift (h : a.Sole id) (k : HandleId) {s : State}
    (hs : s ≠ .checkedOut ∧ s ≠ .toDestroy)
    (t : State) : Sole ⟨(a.pool.transition k s t).2, a.tasks⟩ id := by
  rcases transition_cases a.pool k s t with hlost | ⟨-, hstate, hwon⟩
  · rw [hlost]
    exact h
  rw [hwon]
  obtain ⟨c, hcell⟩ := stateOf_iff.mp hstate
  by_cases hk : k = id
  swap
  · refine h.repool ?_ (Nat.le_refl _)
    rw [cell_restate, if_neg (Ne.symm hk)]
  subst hk
  obtain ⟨hlent, hclaimants⟩ := h.nobody fun d hd => hs.1 (by rw [hcell] at hd; cases hd; rfl)
  exact .of_free hlent hclaimants fun hpos => absurd (h.ending hpos _ _ hcell) hs.2

theorem Sole.begins (h : a.Sole id) (m : Move) (hm : ∀ s, m ≠ .go s) : (a.step m).Sole id := by
  have hstep : a.step m = ⟨(begin a.pool m).1, (begin a.pool m).2.toList ++ a.tasks⟩ := by
    cases m with
    | go s => exact absurd rfl (hm s)
    | _ => rfl
  rw [hstep]
  cases m with
  | claim k t started => exact h.claim k t started
  | reuse t =>
    simp only [begin]
    split
    · exact h
    · split
      · exact h.numbered rfl
      · exact h.repool rfl (Nat.le_refl _)
  | drop n =>
    cases hl : a.pool.lease? n with
    | none =>
      simp only [begin, endLease_none hl]
      exact h
    | some l =>
      simp only [begin, endLease, hl]
      refine h.putBack hl rfl rfl _ rfl fun u hu => ?_
      split at hu
      · cases hu
      · cases hu
        exact ⟨rfl, rfl⟩
  | invalidate n =>
    cases hl : a.pool.lease? n with
    | none =>
      simp only [begin, endLease_none hl]
      exact h
    | some l =>
      simp only [begin, endLease, hl]
      exact h.putBack hl rfl rfl (some (.forget l.handle)) rfl fun u hu => by
        cases hu
        exact ⟨rfl, rfl⟩
  | detach n =>
    cases hl : a.pool.lease? n with
    | none =>
      simp only [begin, endLease_none hl]
      exact h
    | some l =>
      simp only [begin, endLease, hl]
      exact h.giveUp hl rfl (fun _ => rfl)
        (fun _ hbare => ⟨none, hbare⟩) (some (.forget l.handle)) rfl
        fun u hu => by
          cases hu
          exact ⟨rfl, rfl⟩
  | releaseEnlisted k =>
    simp only [begin]
    split
    · exact h.numbered rfl
    · exact h.repool rfl (Nat.le_refl _)
  | shift k s t =>
    simp only [begin]
    split
    · exact h
    · next hopen =>
      simp only [not_or] at hopen
      exact h.shift k ⟨hopen.1, hopen.2.1⟩ t
  | go s => exact absurd rfl (hm s)

theorem Sole.step (h : a.Sole id) {m : Move} (hno : a.usurps id m = false) :
    (a.step m).Sole id := by
  by_cases hgo : ∃ s, m = .go s
  · obtain ⟨s, rfl⟩ := hgo
    simp only [Handling.step]
    split
    · next hs => exact h.go hs hno
    · exact h
  · exact h.begins m fun s hs => hgo ⟨s, hs⟩

theorem Sole.run {ms : List Move} (h : a.Sole id) (hno : a.usurped id ms = false) :
    (a.run ms).Sole id := by
  induction ms generalizing a with
  | nil => exact h
  | cons m ms ih =>
    obtain ⟨hfirst, hrest⟩ := Bool.or_eq_false_iff.mp hno
    exact ih (h.step hfirst) hrest

/-- Between two operations each handle is lent once at most. -/
theorem sole_alone (hp : p.ledger.Fitting) (id : HandleId) : Sole ⟨p, []⟩ id := by
  have hnodup : (p.leases.map (·.handle)).Nodup := by
    have hids := hp.lent.nodup_iff.mp ((List.filter_sublist.map _).nodup hp.ids_nodup)
    simp only [ledger, List.map_map] at hids
    exact hids
  have hcount : lent p id = (p.leases.map (·.handle)).count id := by
    rw [List.count, List.countP_map]
    exact List.countP_congr fun l _ => by simp
  refine ⟨?_, fun hpos => absurd hpos (Nat.lt_irrefl 0), fun hpos => ?_,
    fun hpos => absurd hpos (Nat.lt_irrefl 0)⟩
  · change lent p id + 0 ≤ 1
    rw [hcount]
    exact List.nodup_iff_count_le_one.mp hnodup id
  · obtain ⟨l, hl, hlid⟩ := List.countP_pos_iff.mp hpos
    obtain ⟨h, hf, hs, hslot⟩ := find_of_lease hp hl
    rw [← of_decide_eq_true hlid, cell, hf, Option.map_some, hs, hslot]

/-- What a lease has of its handle. -/
theorem Sole.of_lent (h : a.Sole id) {l : Lease} (hl : l ∈ a.pool.leases) (hid : l.handle = id) :
    a.pool.cell id = some (.checkedOut, none) ∧
      (∀ k ∈ a.pool.leases, k.handle = id → k = l) ∧ ∀ s ∈ a.tasks, s.handle = id →
      s.claims = false := by
  have hone := h.one
  have hpos : 0 < lent a.pool id := List.countP_pos_iff.mpr ⟨l, hl, decide_eq_true hid⟩
  refine ⟨h.bare hpos, fun k hk hkid => ?_, fun s hs hsid => ?_⟩
  · have honly : (a.pool.leases.filter (·.handle = id)).length = 1 := by
      rw [← List.countP_eq_length_filter]
      change lent a.pool id = 1
      omega
    obtain ⟨m, hm⟩ := List.length_eq_one_iff.mp honly
    have hall : ∀ j ∈ a.pool.leases, j.handle = id → j = m := fun j hj hjid => by
      have hin : j ∈ a.pool.leases.filter (·.handle = id) :=
        List.mem_filter.mpr ⟨hj, decide_eq_true hjid⟩
      rw [hm] at hin
      exact List.mem_singleton.mp hin
    rw [hall k hk hkid, hall l hl hid]
  · by_contra hclaims
    have hsome : 0 < a.claimants id :=
      List.countP_pos_iff.mpr ⟨s, hs, by simpa [hsid] using hclaims⟩
    omega

end Handling

variable {p : Pool}

/-- However the steps of any threads come between each other: unless a thread that knows the handle
by its number only takes it up while another has still to give it up, a lease's handle is checked
out, in the collection and without its connection, and nobody else has a lease of it or is about to
end the checkout. -/
theorem checkout_is_its_holders {c : Config} {f : Factory} {ls : List Listener} {us : Units}
    (hb : build c f ls us = .ok (some p)) (ops : List Operation) (ms : List Handling.Move)
    (id : HandleId)
    (hno : Handling.usurped ⟨p.after ops, []⟩ id ms = false) :
    let r := Handling.run ⟨p.after ops, []⟩ ms
    ∀ l ∈ r.pool.leases, l.handle = id →
      (∃ h, r.pool.find? id = some h ∧ h.state = .checkedOut ∧ h.slot = none) ∧
      (∀ k ∈ r.pool.leases, k.handle = id → k = l) ∧ ∀ s ∈ r.tasks, s.handle = id →
      s.claims = false := by
  intro r l hl hid
  have hfit := ((fresh_of_build hb).settled.after ops).sound.books.fitting
  obtain ⟨hcell, honly, hnobody⟩ := ((Handling.sole_alone hfit id).run hno).of_lent hl hid
  obtain ⟨h, hf, hh⟩ := Option.map_eq_some_iff.mp hcell
  exact ⟨⟨h, hf, (Prod.mk.inj hh).1, (Prod.mk.inj hh).2⟩, honly, hnobody⟩

/-- Thread A puts back the connection of its plain lease. Before A gives up the handle, another
thread releases it as one that a unit of work held, and B has it on loan. Then A returns B's handle;
or, had A begun to invalidate it, strikes it off. -/
theorem checkout_ended_by_another :
    ∃ p, build { minSize := 1, maxSize := 1 } {} [] {} = .ok (some p) ∧
      let start : Handling := ⟨p.after [.create, .acquire (.named "a") 9], []⟩
      let between : List Handling.Move := [.releaseEnlisted ⟨1⟩, .go (.locked ⟨1⟩),
        .claim ⟨1⟩ (.named "b") 0, .go (.take ⟨1⟩ (.named "b") 0)]
      let returned := start.run (.drop 0 :: between ++
        [.go (.look ⟨1⟩), .go (.tidy ⟨1⟩), .go (.yield ⟨1⟩)])
      let ended := start.run (.invalidate 0 :: between ++
        [.go (.forget ⟨1⟩), .go (.disown ⟨1⟩), .go (.condemn ⟨1⟩), .go (.empty ⟨1⟩),
        .go (.strike ⟨1⟩)])
      start.pool.leases.map (·.number) = [0] ∧
        returned.pool.leases.map (fun l => (l.number, l.handle)) = [(1, ⟨1⟩)] ∧
        returned.pool.stateOf? ⟨1⟩ = some .checkedIn ∧ returned.tasks = [] ∧
        ended.pool.leases.map (fun l => (l.number, l.handle)) = [(1, ⟨1⟩)] ∧
        ended.pool.find? ⟨1⟩ = none ∧ ended.tasks = [] :=
  ⟨_, rfl, by decide +kernel⟩

/-- The handle is released by its number while A has it on loan, in vain; A gives it up, and B has
it. -/
theorem checkout_passed_on :
    ∃ p, build { minSize := 1, maxSize := 1 } {} [] {} = .ok (some p) ∧
      let start : Handling := ⟨p.after [.create, .acquire (.named "a") 9], []⟩
      let ms : List Handling.Move :=
        [.releaseEnlisted ⟨1⟩, .go (.locked ⟨1⟩), .drop 0, .go (.look ⟨1⟩), .go (.tidy ⟨1⟩),
          .go (.yield ⟨1⟩), .claim ⟨1⟩ (.named "b") 0, .go (.take ⟨1⟩ (.named "b") 0)]
      let r := start.run ms
      start.usurped ⟨1⟩ ms = false ∧ r.pool.leases.map
        (fun l => (l.number, l.handle)) = [(1, ⟨1⟩)] ∧
        ∀ l ∈ r.pool.leases, l.handle = ⟨1⟩ →
          (∃ h, r.pool.find? ⟨1⟩ = some h ∧ h.state = .checkedOut ∧ h.slot = none) ∧
          (∀ k ∈ r.pool.leases, k.handle = ⟨1⟩ → k = l) ∧
          ∀ s ∈ r.tasks, s.handle = ⟨1⟩ → s.claims = false :=
  ⟨_, rfl, by decide +kernel, by decide +kernel,
    @checkout_is_its_holders _ { minSize := 1, maxSize := 1 } {} [] {} rfl
      [.create, .acquire (.named "a") 9] _ ⟨1⟩ (by decide +kernel)⟩

end Pool
end ConnPool
