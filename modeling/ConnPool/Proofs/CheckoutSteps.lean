import ConnPool.Proofs.GivingBack

namespace ConnPool
namespace Pool

/-- What one sees of a handle when one looks at its state and into its slot together. -/
def cell (p : Pool) (id : HandleId) : Option (State × Option Connection) :=
  (p.find? id).map fun h => (h.state, h.slot)

/-- What a thread has still to do with a handle. -/
inductive Task where
  -- it has claimed the handle, and takes its connection if there is one
  | take (id : HandleId) (t : Thread) (started : Nat)
  | doubt (id : HandleId)
  -- its unit of work has the handle
  | borrow (id : HandleId) (t : Thread)
  -- it has put the connection back, and returns the handle
  | look (id : HandleId)
  | tidy (id : HandleId)
  | yield (id : HandleId)
  -- it gives the handle up for good
  | forget (id : HandleId)
  | disown (id : HandleId)
  | condemn (id : HandleId)
  | empty (id : HandleId)
  | strike (id : HandleId)
  -- it releases the handle as one that a unit of work held, with the slot locked
  | locked (id : HandleId)
  deriving DecidableEq

namespace Task

def handle : Task → HandleId
  | take id _ _ | doubt id | borrow id _ | look id | tidy id | yield id | forget id | disown id
  | condemn id | empty id | strike id | locked id => id

/-- The thread takes the checkout to be its own, and has no lease. -/
def claims : Task → Bool
  | take _ _ _ | doubt _ | look _ | tidy _ | yield _ | forget _ | disown _ | condemn _ => true
  | _ => false

/-- The thread has moved the handle to its end. -/
def ends : Task → Bool
  | empty _ | strike _ => true
  | _ => false

/-- The thread knows the handle by its number only. -/
def byNumber : Task → Bool
  | borrow _ _ | locked _ => true
  | _ => false

end Task

/-- A pool with threads in the middle of taking and giving up handles. -/
structure Handling where
  pool : Pool
  tasks : List Task := []

namespace Handling

/-- One step that no other thread can come between. `shift` is what anyone does to a handle that is
not checked out. -/
inductive Move where
  | claim (id : HandleId) (t : Thread) (started : Nat)
  | reuse (t : Thread)
  | drop (lease : Nat)
  | invalidate (lease : Nat)
  | detach (lease : Nat)
  | releaseEnlisted (id : HandleId)
  | shift (id : HandleId) (source target : State)
  | go (s : Task)

/-- The handle moves, and the thread that moved it goes on; or the thread came too late. -/
def moved (p : Pool) (id : HandleId) (s t : State) (next : Option Task) : Pool × Option Task :=
  match p.transition id s t with
  | (true, q) => (q, next)
  | (false, q) => (q, none)

/-- After a return the handle is in, and what follows moves nothing that is checked out; or, with
the pool closed, the handle is to be ended. -/
def afterReturn (p : Pool) (id : HandleId) : Option Task :=
  if p.returnState = .toDestroy then some (.empty id) else none

def goOn (p : Pool) : Task → Pool × Option Task
  | .take id t started =>
    match p.cell id with
    | some (.checkedOut, some c) =>
      let q := p.assign t started id
      ((q.lend id c (q.units.current t = some id)).2, none)
    | _ => (p, some (.doubt id))
  | .doubt id =>
    if p.stateOf? id = some .checkedOut then
      (p.log .warn "Claimed handle has no connection" [("handle", .shown id.label)],
        some (.forget id))
    else (p, none)
  | .borrow id _ =>
    match p.cell id with
    | some (.checkedOut, some c) =>
      let q := (p.touch id).log .debug "Reusing enlisted connection" [("handle", .shown id.label)]
      ((q.lend id c true).2, none)
    | some (.checkedOut, none) => (p, none)
    | _ => (p.disassociate id, none)
  | .look id => (p, if p.stateOf? id = some .checkedOut then some (.tidy id) else none)
  | .tidy id => ((p.clearOwner id).touch id, some (.yield id))
  | .yield id => moved p id .checkedOut p.returnState (afterReturn p id)
  | .forget id => (p.disassociate id, some (.disown id))
  | .disown id => (p.clearOwner id, some (.condemn id))
  | .condemn id => moved p id .checkedOut .toDestroy (some (.empty id))
  | .empty id =>
    match p.cell id with
    | some (_, some c) => ((p.emptySlot id).surrender c, some (.strike id))
    | _ => (p, some (.strike id))
  | .strike id => (p.strike id false, none)
  | .locked id =>
    match p.cell id with
    | some (_, some _) =>
      moved (((p.disassociate id).clearOwner id).touch id) id .checkedOut p.returnState
        (afterReturn p id)
    | _ => (p, none)

def begin (p : Pool) : Move → Pool × Option Task
  | .claim id t started => moved p id .checkedIn .checkedOut (some (.take id t started))
  | .reuse t =>
    match p.units.current t with
    | none => (p, none)
    | some id =>
      if p.stateOf? id = some .checkedOut then (p, some (.borrow id t))
      else (p.disassociate id, none)
  | .drop n =>
    match p.endLease n with
    | (none, q) => (q, none)
    | (some l, q) =>
      (q.restore l.handle l.connection, if l.enlisted then none else some (.look l.handle))
  | .invalidate n =>
    match p.endLease n with
    | (none, q) => (q, none)
    | (some l, q) =>
      ((q.restore l.handle l.connection).log .debug "Connection invalidated"
        [("handle", .shown l.handle.label)], some (.forget l.handle))
  | .detach n =>
    match p.endLease n with
    | (none, q) => (q, none)
    | (some l, q) =>
      (Pool.log { q with detached := l.connection :: q.detached } .debug "Connection detached"
        [("handle", .shown l.handle.label)], some (.forget l.handle))
  | .releaseEnlisted id =>
    if p.stateOf? id = some .checkedOut then (p, some (.locked id)) else (p.disassociate id, none)
  | .shift id s t =>
    if s = .checkedOut ∨ s = .toDestroy ∨ t = .checkedOut then (p, none)
    else ((p.transition id s t).2, none)
  | .go _ => (p, none)

def step (h : Handling) : Move → Handling
  | .go s =>
    if s ∈ h.tasks then
      ⟨(goOn h.pool s).1, (goOn h.pool s).2.toList ++ h.tasks.erase s⟩
    else h
  | m => ⟨(begin h.pool m).1, (begin h.pool m).2.toList ++ h.tasks⟩

def run (h : Handling) (ms : List Move) : Handling := ms.foldl step h

variable {p : Pool} {id k : HandleId} {s : Task}

theorem cell_modify (p : Pool) (id : HandleId) {f : Handle → Handle}
    {g : State × Option Connection → State × Option Connection} (hf : ∀ h, (f h).id = h.id)
    (hg : ∀ h, ((f h).state, (f h).slot) = g (h.state, h.slot)) (k : HandleId) :
    (p.modifyHandle id f).cell k = if k = id then (p.cell id).map g else p.cell k := by
  split
  · next hk =>
    subst hk
    simp only [cell, find_modifyHandle p k f hf, Option.map_map]
    congr 1
    funext h
    exact hg h
  · next hk =>
    simp only [cell, find_modifyHandle_of_ne p f hf hk]

theorem cell_modify_same (p : Pool) (id : HandleId) {f : Handle → Handle}
    (hf : ∀ h, (f h).id = h.id ∧ ((f h).state, (f h).slot) = (h.state, h.slot)) (k : HandleId) :
    (p.modifyHandle id f).cell k = p.cell k :=
  map_find_modifyHandle p id (fun h => (h.state, h.slot)) f hf k

@[simp] theorem cell_clearOwner (p : Pool) (id k : HandleId) :
    (p.clearOwner id).cell k = p.cell k :=
  cell_modify_same p id (f := fun h => { h with owner := none }) (fun _ => ⟨rfl, rfl⟩) k

@[simp] theorem cell_touch (p : Pool) (id k : HandleId) : (p.touch id).cell k = p.cell k :=
  cell_modify_same p id (f := fun h => { h with lastAccess := p.clock }) (fun _ => ⟨rfl, rfl⟩) k

@[simp] theorem cell_disassociate (p : Pool) (id k : HandleId) :
    (p.disassociate id).cell k = p.cell k := rfl

@[simp] theorem cell_assign (p : Pool) (t : Thread) (started : Nat) (id k : HandleId) :
    (p.assign t started id).cell k = p.cell k := by
  have howner := cell_modify_same p id (f := fun h => { h with owner := some ⟨t, p.clock⟩ })
    (fun _ => ⟨rfl, rfl⟩) k
  rw [← howner]
  exact cell_touch _ id k

theorem cell_restate (p : Pool) (id k : HandleId) (s t : State) :
    (p.restate id s t).cell k = if k = id then (p.cell id).map fun x => (t, x.2) else p.cell k :=
  cell_modify p id (f := fun h => { h with state := t }) (g := fun x => (t, x.2)) (fun _ => rfl)
    (fun _ => rfl) k

theorem cell_restore (p : Pool) (id k : HandleId) (c : Connection) :
    (p.restore id c).cell k = if k = id then (p.cell id).map fun x => (x.1, some c) else p.cell k :=
  cell_modify p id (f := fun h => { h with slot := some c }) (g := fun x => (x.1, some c))
    (fun _ => rfl)
    (fun _ => rfl) k

theorem cell_emptySlot (p : Pool) (id k : HandleId) :
    (p.emptySlot id).cell k = if k = id then (p.cell id).map fun x => (x.1, none) else p.cell k :=
  cell_modify p id (f := fun h => { h with slot := none }) (g := fun x => (x.1, none))
    (fun _ => rfl)
    (fun _ => rfl) k

theorem cell_lend (p : Pool) (id k : HandleId) (c : Connection) (enlisted : Bool) :
    (p.lend id c enlisted).2.cell k =
      if k = id then (p.cell id).map fun x => (x.1, none) else p.cell k :=
  cell_modify p id (f := fun h => { h with slot := none }) (g := fun x => (x.1, none))
    (fun _ => rfl)
    (fun _ => rfl) k

theorem cell_strike (p : Pool) (id k : HandleId) (reserved : Bool) :
    (p.strike id reserved).cell k = if k = id then none else p.cell k := by
  have hmoved : k ≠ id → (p.transition id .toDestroy .destroyed).2.cell k = p.cell k := by
    intro hk
    rcases transition_cases p id .toDestroy .destroyed with hlost | ⟨-, -, hwon⟩
    · rw [hlost]
    · rw [hwon, cell_restate, if_neg hk]
  simp only [cell, find_strike]
  split
  · rfl
  · next hk => exact hmoved hk

theorem stateOf_iff {s : State} : p.stateOf? id = some s ↔ ∃ c, p.cell id = some (s, c) := by
  simp only [stateOf?, cell, Option.map_eq_some_iff, Prod.mk.injEq]
  constructor
  · rintro ⟨h, hf, rfl⟩
    exact ⟨h.slot, h, hf, rfl, rfl⟩
  · rintro ⟨c, h, hf, rfl, -⟩
    exact ⟨h, hf, rfl⟩

theorem moved_cases (p : Pool) (id : HandleId) (s t : State) (next : Option Task) :
    moved p id s t next = (p, none) ∨
      (∃ c, p.cell id = some (s, c)) ∧ moved p id s t next = (p.restate id s t, next) := by
  simp only [moved]
  rcases transition_cases p id s t with hlost | ⟨-, hs, hwon⟩
  · rw [hlost]
    exact .inl rfl
  · rw [hwon]
    exact .inr ⟨stateOf_iff.mp hs, rfl⟩

/-- Leases of a handle. -/
def lent (p : Pool) (id : HandleId) : Nat := p.leases.countP (·.handle = id)

theorem lent_lend (p : Pool) (id k : HandleId) (c : Connection) (enlisted : Bool) :
    lent (p.lend id c enlisted).2 k = lent p k + (decide (id = k)).toNat := by
  simp only [lent, lend, List.countP_append, Keyed.countP_first, List.countP_nil, Nat.zero_add]

theorem lent_surrender (p : Pool) (id : HandleId) (c : Connection) :
    lent (p.surrender c) id = lent p id := by
  simp only [lent, surrender]
  split <;> rfl

theorem lent_strike (p : Pool) (id k : HandleId) : lent (p.strike id false) k = lent p k := by
  have hleases : (p.strike id false).leases = (p.transition id .toDestroy .destroyed).2.leases :=
    rfl
  rw [lent, hleases]
  rcases transition_cases p id .toDestroy .destroyed with hlost | ⟨-, -, hwon⟩
  · rw [hlost]
    rfl
  · rw [hwon]
    rfl

@[simp] theorem cell_surrender (p : Pool) (c : Connection) (k : HandleId) :
    (p.surrender c).cell k = p.cell k := by
  simp only [cell, find?, surrender]
  split <;> rfl

/-- Nothing is left to be done. -/
theorem follows_nothing (q : Task → Prop) : ∀ u ∈ (none : Option Task), q u :=
  fun u hu => absurd hu (Option.not_mem_none u)

theorem moved_elsewhere (p : Pool) {s t : State} (next : Option Task) (hk : id ≠ k)
    (hnext : ∀ u ∈ next, u.handle = id) :
    (moved p id s t next).1.cell k = p.cell k ∧ lent (moved p id s t next).1 k = lent p k ∧
      ∀ u ∈ (moved p id s t next).2, u.handle = id := by
  rcases moved_cases p id s t next with hlost | ⟨-, hwon⟩
  · rw [hlost]
    exact ⟨rfl, rfl, follows_nothing _⟩
  · rw [hwon]
    refine ⟨?_, rfl, hnext⟩
    rw [cell_restate, if_neg (Ne.symm hk)]

theorem afterReturn_handle (p : Pool) (id : HandleId) : ∀ u ∈ afterReturn p id, u.handle = id := by
  intro u hu
  simp only [afterReturn] at hu
  split at hu
  · cases hu
    rfl
  · cases hu

/-- A task is about one handle: what it does leaves all others alone. -/
theorem goOn_elsewhere (p : Pool) (s : Task) (hk : s.handle ≠ k) :
    (goOn p s).1.cell k = p.cell k ∧ lent (goOn p s).1 k = lent p k ∧
      ∀ u ∈ (goOn p s).2, u.handle = s.handle := by
  have hnext : ∀ u : Task, ∀ v ∈ some u, v = u := fun u v hv => (Option.mem_some.mp hv).symm
  cases s with
  | take id t started =>
    change id ≠ k at hk
    simp only [goOn]
    split
    · refine ⟨?_, ?_, follows_nothing _⟩
      · rw [cell_lend, if_neg (Ne.symm hk), cell_assign]
      · rw [lent_lend, decide_eq_false hk]
        rfl
    · exact ⟨rfl, rfl, fun u hu => hnext _ u hu ▸ rfl⟩
  | doubt id =>
    simp only [goOn]
    split
    · exact ⟨rfl, rfl, fun u hu => hnext _ u hu ▸ rfl⟩
    · exact ⟨rfl, rfl, follows_nothing _⟩
  | borrow id t =>
    change id ≠ k at hk
    simp only [goOn]
    split
    · refine ⟨?_, ?_, follows_nothing _⟩
      · rw [cell_lend, if_neg (Ne.symm hk)]
        exact cell_touch p id k
      · rw [lent_lend, decide_eq_false hk]
        rfl
    · exact ⟨rfl, rfl, follows_nothing _⟩
    · exact ⟨rfl, rfl, follows_nothing _⟩
  | look id =>
    refine ⟨rfl, rfl, ?_⟩
    simp only [goOn]
    split
    · exact fun u hu => hnext _ u hu ▸ rfl
    · exact follows_nothing _
  | tidy id => exact ⟨by simp [goOn], rfl, fun u hu => hnext _ u hu ▸ rfl⟩
  | yield id => exact moved_elsewhere p _ hk (afterReturn_handle p id)
  | forget id => exact ⟨rfl, rfl, fun u hu => hnext _ u hu ▸ rfl⟩
  | disown id => exact ⟨by simp [goOn], rfl, fun u hu => hnext _ u hu ▸ rfl⟩
  | condemn id => exact moved_elsewhere p _ hk fun u hu => hnext _ u hu ▸ rfl
  | empty id =>
    change id ≠ k at hk
    simp only [goOn]
    split
    · refine ⟨?_, lent_surrender _ _ _, fun u hu => hnext _ u hu ▸ rfl⟩
      rw [cell_surrender, cell_emptySlot, if_neg (Ne.symm hk)]
    · exact ⟨rfl, rfl, fun u hu => hnext _ u hu ▸ rfl⟩
  | strike id =>
    change id ≠ k at hk
    refine ⟨?_, ?_, follows_nothing _⟩
    · simp only [goOn]
      rw [cell_strike, if_neg (Ne.symm hk)]
    · exact lent_strike p id k
  | locked id =>
    change id ≠ k at hk
    simp only [goOn]
    split
    · obtain ⟨hcell, hlent, htask⟩ := moved_elsewhere (((p.disassociate id).clearOwner id).touch id)
        (s := .checkedOut) (t := p.returnState) _ hk (afterReturn_handle p id)
      exact ⟨by rw [hcell]; simp, hlent, htask⟩
    · exact ⟨rfl, rfl, follows_nothing _⟩

theorem run_first {a b : Handling} {m : Move} (h : a.step m = b) (ms : List Move) :
    a.run (m :: ms) = b.run ms := by
  rw [run, List.foldl_cons, h, run]

theorem run_go (p : Pool) (s : Task) (ms : List Move) :
    run ⟨p, [s]⟩ (.go s :: ms) = run ⟨(goOn p s).1, (goOn p s).2.toList⟩ ms := by
  have hstep : step ⟨p, [s]⟩ (.go s) = ⟨(goOn p s).1, (goOn p s).2.toList⟩ := by
    simp only [step, List.mem_singleton, if_true, List.erase_cons_head, List.append_nil]
  exact run_first hstep ms

theorem moved_of {s t : State} (hl : State.legal s t = true) (hs : p.stateOf? id = some s)
    (next : Option Task) : moved p id s t next = (p.restate id s t, next) := by
  simp only [moved, transition_of hl hs]

theorem giveBack_alone (hs : p.stateOf? id = some .checkedOut) (t : Thread) (since : Nat) :
    (giveBack t id since).run p = (finishReturn t id p.returnState since).run
      (run ⟨p, [.look id]⟩ [.go (.look id), .go (.tidy id), .go (.yield id)]).pool := by
  have hlook : goOn p (.look id) = (p, some (.tidy id)) := by simp only [goOn, if_pos hs]
  have hyield : goOn ((p.clearOwner id).touch id) (.yield id) = _ :=
    moved_of (legal_return p) (stateOf_home hs) (afterReturn _ id)
  rw [giveBack_run hs, run_go, hlook]
  change _ = (finishReturn t id p.returnState since).run
    (run ⟨p, [.tidy id]⟩ [.go (.tidy id), .go (.yield id)]).pool
  rw [run_go]
  change _ = (finishReturn t id p.returnState since).run
    (run ⟨(p.clearOwner id).touch id, [.yield id]⟩ [.go (.yield id)]).pool
  rw [run_go, hyield]
  rfl

theorem retire_alone (hs : p.stateOf? id = some .checkedOut) (reason : DestroyReason) :
    (retire id reason).run p = (destroy id reason).run
      (run ⟨p, [.forget id]⟩ [.go (.forget id), .go (.disown id), .go (.condemn id)]).pool := by
  obtain ⟨h, hf, hh⟩ := find_of_stateOf hs
  have hstate : ((p.disassociate id).clearOwner id).stateOf? id = some .checkedOut :=
    (stateOf_of_find (find_retire hf)).trans (congrArg some hh)
  have hcondemn : goOn ((p.disassociate id).clearOwner id) (.condemn id) = _ :=
    moved_of rfl hstate (some (.empty id))
  rw [retire_run hf hh, run_go]
  change _ = (destroy id reason).run
    (run ⟨p.disassociate id, [.disown id]⟩ [.go (.disown id), .go (.condemn id)]).pool
  rw [run_go]
  change _ = (destroy id reason).run
    (run ⟨(p.disassociate id).clearOwner id, [.condemn id]⟩ [.go (.condemn id)]).pool
  rw [run_go, hcondemn]
  rfl

theorem active_restore (hp : p.ledger.Fitting) {n : Nat} {l : Lease} (hl : p.lease? n = some l) :
    ((p.endLease n).2.restore l.handle l.connection).stateOf? l.handle = some .checkedOut := by
  obtain ⟨hmem, rfl⟩ := lease_mem hl
  obtain ⟨h, hf, hs, -⟩ := find_of_lease hp hmem
  exact (stateOf_of_find (find_restore hf)).trans (congrArg some hs)

theorem release_alone (hp : p.ledger.Fitting) {n : Nat} {l : Lease} (hl : p.lease? n = some l)
    (hplain : l.enlisted = false) (t : Thread) :
    (release t n).run p = (finishReturn t l.handle p.returnState l.since).run (run ⟨p, []⟩
      [.drop n, .go (.look l.handle), .go (.tidy l.handle), .go (.yield l.handle)]).pool := by
  have hend : p.endLease n = (some l, (p.endLease n).2) := congrArg (·, (p.endLease n).2) hl
  have hdrop : step ⟨p, []⟩ (.drop n) =
      ⟨(p.endLease n).2.restore l.handle l.connection, [.look l.handle]⟩ := by
    simp only [step, begin, endLease, hl, hplain]
    rfl
  rw [release_run hend hplain, giveBack_alone (active_restore hp hl), run_first hdrop]
  rfl

theorem invalidate_alone (hp : p.ledger.Fitting) {n : Nat} {l : Lease} (hl : p.lease? n = some l) :
    (invalidate n).run p = (destroy l.handle .invalidated).run
      (run ⟨p, []⟩ [.invalidate n, .go (.forget l.handle), .go (.disown l.handle),
        .go (.condemn l.handle)]).pool := by
  let q := ((p.endLease n).2.restore l.handle l.connection).log .debug "Connection invalidated"
    [("handle", .shown l.handle.label)]
  have hactive : q.stateOf? l.handle = some .checkedOut := active_restore hp hl
  have hfirst : (invalidate n).run p = (retire l.handle .invalidated).run q := by
    simp only [invalidate, Act.run_bind, Act.run_apply, endLease, hl, Act.run_update]
    rfl
  have hbegin : step ⟨p, []⟩ (.invalidate n) = ⟨q, [.forget l.handle]⟩ := by
    simp only [step, begin, endLease, hl]
    rfl
  rw [hfirst, retire_alone hactive, run_first hbegin]

theorem detach_alone (hp : p.ledger.Fitting) {n : Nat} {l : Lease} (hl : p.lease? n = some l) :
    (detach n).run p = (some l.connection, ((destroy l.handle .detached).run
      (run ⟨p, []⟩ [.detach n, .go (.forget l.handle), .go (.disown l.handle),
        .go (.condemn l.handle)]).pool).2) := by
  let q := Pool.log { (p.endLease n).2 with detached := l.connection :: (p.endLease n).2.detached }
    .debug "Connection detached" [("handle", .shown l.handle.label)]
  obtain ⟨h, hf, hs, -⟩ := find_of_lease hp (lease_mem hl).1
  have hactive : q.stateOf? l.handle = some .checkedOut :=
    (stateOf_of_find hf).trans (congrArg some hs)
  have hfirst : (detach n).run p = (some l.connection, ((retire l.handle .detached).run q).2) := by
    simp only [detach, Act.run_bind, Act.run_apply, endLease, hl, Act.run_update, Act.run_pure]
    rfl
  have hbegin : step ⟨p, []⟩ (.detach n) = ⟨q, [.forget l.handle]⟩ := by
    simp only [step, begin, endLease, hl]
    rfl
  rw [hfirst, retire_alone hactive, run_first hbegin]

theorem releaseEnlisted_alone {h : Handle} {c : Connection} (hf : p.find? id = some h)
    (hs : h.state = .checkedOut) (hc : h.slot = some c) (t : Thread) :
    (releaseEnlisted t id).run p = (true, ((finishReturn t id p.returnState (p.outSince h)).run
      (run ⟨p, []⟩ [.releaseEnlisted id, .go (.locked id)]).pool).2) := by
  have hstate : p.stateOf? id = some .checkedOut := (stateOf_of_find hf).trans (congrArg some hs)
  have hactive : (p.disassociate id).stateOf? id = some .checkedOut := hstate
  have hmove := transition_of (legal_return p) (stateOf_home hactive)
  have hcell : p.cell id = some (.checkedOut, some c) := by rw [cell, hf, Option.map_some, hs, hc]
  have hbegin : step ⟨p, []⟩ (.releaseEnlisted id) = ⟨p, [.locked id]⟩ := by
    simp only [step, begin, if_pos hstate]
    rfl
  have hlocked : goOn p (.locked id) =
      ((((p.disassociate id).clearOwner id).touch id).restate id .checkedOut p.returnState,
        afterReturn p id) := by
    simp only [goOn, hcell]
    exact moved_of (legal_return p) (stateOf_home hactive) (afterReturn p id)
  rw [run_first hbegin, run_go, hlocked]
  obtain ⟨i, state, slot, last, owner, queued, cached⟩ := h
  obtain rfl : state = .checkedOut := hs
  obtain rfl : slot = some c := hc
  simp only [releaseEnlisted, Act.run_bind, Act.run_read, hf, Act.run_update, Act.run_apply, hmove,
    if_true, Act.run_pure]
  rfl

/-- A claimed handle whose connection is there is lent. -/
theorem checkOut_alone {c : Connection} (hc : p.cell id = some (.checkedOut, some c)) (t : Thread)
    (started : Nat) :
    (checkOut t started id).run p = (some p.nextLease,
      (run ⟨p, [.take id t started]⟩ [.go (.take id t started)]).pool) := by
  have hslot : (p.find? id).bind (·.slot) = some c := by
    obtain ⟨h, hf, hh⟩ := Option.map_eq_some_iff.mp hc
    rw [hf]
    exact (Prod.mk.inj hh).2
  rw [run_go]
  simp only [checkOut, Act.run_bind, Act.run_read, hslot, Act.run_update, Act.run_apply,
    Act.run_pure, goOn, hc]
  rfl

/-- A unit of work has what it holds lent again. -/
theorem reuse_alone {t : Thread} {c : Connection} (hu : p.units.current t = some id)
    (hc : p.cell id = some (.checkedOut, some c)) :
    (reuse t).run p =
      (.ok (some p.nextLease), (run ⟨p, []⟩ [.reuse t, .go (.borrow id t)]).pool) := by
  obtain ⟨h, hf, hh⟩ := Option.map_eq_some_iff.mp hc
  obtain ⟨hs, hslot⟩ := Prod.mk.inj hh
  have hbegin : step ⟨p, []⟩ (.reuse t) = ⟨p, [.borrow id t]⟩ := by
    simp only [step, begin, hu, if_pos (stateOf_iff.mpr ⟨_, hc⟩)]
    rfl
  rw [reuse_again hu hf hs hslot, run_first hbegin, run_go]
  simp only [goOn, hc]
  rfl

end Handling
end Pool
end ConnPool
