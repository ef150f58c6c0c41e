import ConnPool.Proofs.Capacity
import ConnPool.Proofs.Lists
import ConnPool.Proofs.NoGrowth

namespace ConnPool

namespace Tally

/-- What a tally stands for, below zero too. -/
def value (t : Tally) : Int := t.count - t.shortfalls

/-- What is read of a tally that is kept in a word of 64 bits. -/
def reading (t : Tally) : Nat := (t.value % 2 ^ 64).toNat

@[simp] theorem value_up (t : Tally) : t.up.value = t.value + 1 := by
  simp only [value, up]
  omega

@[simp] theorem value_down (t : Tally) : t.down.value = t.value - 1 := by
  simp only [value, down]
  split <;> simp only <;> omega

theorem reading_eq {t : Tally} (h : 0 ≤ t.value) (hword : t.value < 2 ^ 64) :
    (t.reading : Int) = t.value := by
  simp only [reading]
  omega

/-- Below zero the word shows more than any cap. -/
theorem reading_wraps {t : Tally} (h : t.value < 0) (hword : -(2 ^ 64) ≤ t.value) :
    (t.reading : Int) = 2 ^ 64 + t.value := by
  simp only [reading]
  omega

theorem value_lt {t : Tally} {n : Nat} (h : t.reading < n) (hword : t.value < 2 ^ 64) :
    t.value < n := by
  simp only [reading] at h
  omega

end Tally

namespace Pool

/-- What a thread has still to do after the step that it did last. A thread that closes a stale
handle has given back the handle's place before it tries to seize the handle, and takes the place
again if it came too late. Who moved a handle to `toDestroy` is the one to strike it off, with its
place or, if that is given back already, without. -/
inductive Errand where
  | seize (id : HandleId)
  | rollBack
  | strike (id : HandleId) (reserved : Bool)
  deriving DecidableEq

namespace Errand

/-- A place is given back that its handle, or its next step, still takes. -/
def owes : Errand → Bool
  | strike _ reserved => reserved
  | _ => true

def victim? : Errand → Option HandleId
  | strike id _ => some id
  | _ => none

end Errand

/-- A pool with threads in the middle of their work. -/
structure Race where
  pool : Pool
  errands : List Errand := []

namespace Race

/-- One step that no other thread can come between. A caller's claim is the shift from `checkedIn`
to `checkedOut`. -/
inductive Move where
  | giveBack (id : HandleId)
  | proceed (e : Errand)
  | reserve (limit : Nat) (acquirer : Option Nat)
  | shift (id : HandleId) (source target : State)
  | condemn (id : HandleId) (source : State)
  | complete (c : Connection)
  | miscarry

/-- How many places are given back that are still taken. -/
def owed (r : Race) : Nat := r.errands.countP (·.owes)

/-- Handles in the collection and creations in flight. -/
def load (r : Race) : Nat := r.pool.handles.length + r.pool.inFlight.length

def victims (r : Race) : List HandleId := r.errands.filterMap (·.victim?)

/-- Whether a reservation below this limit goes through. -/
def vacant (r : Race) (limit : Nat) : Bool := decide (r.pool.size.reading < min limit r.pool.cap)

/-- A thread does the next step of its errand. -/
def proceed (r : Race) : Errand → Race
  | .seize id =>
    let rest := r.errands.erase (.seize id)
    match r.pool.transition id .checkedIn .toDestroy with
    | (true, p) => ⟨p, .strike id true :: rest⟩
    | (false, p) => ⟨p, .rollBack :: rest⟩
  | .rollBack => ⟨{ r.pool with size := r.pool.size.up }, r.errands.erase .rollBack⟩
  | .strike id reserved => ⟨r.pool.strike id reserved, r.errands.erase (.strike id reserved)⟩

/-- A step that cannot be done now leaves all as it is. -/
def step (r : Race) : Move → Race
  | .giveBack id =>
    if r.pool.floor < r.pool.size.reading then
      ⟨{ r.pool with size := r.pool.size.down }, .seize id :: r.errands⟩
    else r
  | .proceed e => if e ∈ r.errands then r.proceed e else r
  | .reserve limit a => if r.vacant limit then { r with pool := r.pool.schedule a } else r
  | .shift id s t =>
    if t = .toDestroy ∨ t = .destroyed then r else { r with pool := (r.pool.transition id s t).2 }
  | .condemn id s =>
    match r.pool.transition id s .toDestroy with
    | (true, p) => ⟨p, .strike id false :: r.errands⟩
    | (false, _) => r
  | .complete c =>
    if r.pool.inFlight = [] then r else { r with pool := (r.pool.enroll c).endCreation }
  | .miscarry => if r.pool.inFlight = [] then r else { r with pool := r.pool.forgo.endCreation }

def run (r : Race) (ms : List Move) : Race := ms.foldl step r

/-- Whether a step takes a place for a new creation. -/
def reserves (r : Race) : Move → Bool
  | .reserve limit _ => r.vacant limit
  | _ => false

/-- The most places that were owed at a reservation of a run. -/
def overlap (r : Race) : List Move → Nat
  | [] => 0
  | m :: ms => max (if r.reserves m then r.owed else 0) ((r.step m).overlap ms)

/-- What holds between any two steps: the size lacks the places that are owed, and who is to be
struck off is there once. -/
structure Sound (r : Race) : Prop where
  ids_nodup : (r.pool.handles.map (·.id)).Nodup
  ids_lt : ∀ id ∈ r.pool.handles.map (·.id), id.val < r.pool.nextHandle
  victims_nodup : r.victims.Nodup
  victims_doomed : ∀ id ∈ r.victims, r.pool.stateOf? id = some .toDestroy
  balance : r.pool.size.value + r.owed = r.load

variable {r : Race} {p q : Pool} {id k : HandleId} {s t : State}

/-- Nothing leads back from `toDestroy`. -/
theorem doomed_restate (hl : State.legal s t = true) (hs : p.stateOf? id = some s)
    (ht : t ≠ .destroyed) (hk : p.stateOf? k = some .toDestroy) :
    k ≠ id ∧ (p.restate id s t).stateOf? k = some .toDestroy := by
  have hne : k ≠ id := by
    rintro rfl
    rw [hk] at hs
    cases hs
    cases t <;> first | exact absurd rfl ht | exact absurd hl (by decide)
  exact ⟨hne, (restate_stateOf_of_ne hne s t).trans hk⟩

theorem ids_restate : (p.restate id s t).handles.map (·.id) = p.handles.map (·.id) :=
  ids_modify id (fun h => { h with state := t }) fun _ => rfl

/-- A handle that is doomed can be struck off once, and with that it is gone. -/
theorem strike_doomed (hn : (p.handles.map (·.id)).Nodup) (h : p.stateOf? id = some .toDestroy)
    (reserved : Bool) :
    ((p.strike id reserved).handles.map (·.id)).Sublist (p.handles.map (·.id)) ∧
      (p.strike id reserved).handles.length + 1 = p.handles.length ∧
      (p.strike id reserved).size = (if reserved then p.size else p.size.down) ∧
      (p.strike id reserved).inFlight = p.inFlight := by
  obtain ⟨x, hf, hx⟩ := find_of_stateOf h
  obtain ⟨hmem, hid⟩ := mem_of_find hf
  obtain ⟨pre, post, hb⟩ := Keyed.exists_between hn hmem
  have hrest : p.handles.filter (·.id ≠ id) = pre ++ post := hb.erase hid
  have hlen : p.handles.length = (pre ++ x :: post).length := congrArg List.length hb.eq
  rw [strike_of hf hx reserved]
  refine ⟨List.filter_sublist.map _, ?_, rfl, rfl⟩
  simp only [hrest, hlen, List.length_append, List.length_cons]
  omega

theorem stateOf_strike (hf : p.stateOf? id = some .toDestroy) (reserved : Bool) (hk : k ≠ id) :
    (p.strike id reserved).stateOf? k = p.stateOf? k := by
  rw [stateOf?, find_strike, if_neg hk, transition_of rfl hf]
  exact restate_stateOf_of_ne hk .toDestroy .destroyed

/-- What is left of the errands when one of them goes on. -/
theorem owed_erase {e : Errand} (h : e ∈ r.errands) :
    (r.errands.erase e).countP (·.owes) + e.owes.toNat = r.owed :=
  countP_erase_add h (·.owes)

theorem victims_erase {e : Errand} (h : e ∈ r.errands) :
    (e.victim?.toList ++ (r.errands.erase e).filterMap (·.victim?)).Perm r.victims := by
  have hperm := (List.perm_cons_erase h).filterMap (·.victim?)
  rw [victims]
  refine List.Perm.trans ?_ hperm.symm
  cases hv : e.victim? <;> simp [hv]

/-- A step that leaves the collection's handles where they are. -/
theorem Sound.same {r' : Race} (h : r.Sound)
    (hids : r'.pool.handles.map (·.id) = r.pool.handles.map (·.id))
    (hnext : r'.pool.nextHandle = r.pool.nextHandle)
    (hdoomed : ∀ k, r.pool.stateOf? k = some .toDestroy → r'.pool.stateOf? k = some .toDestroy)
    (hvictims : r'.victims.Perm r.victims)
    (hbalance : r'.pool.size.value + r'.owed - r'.pool.inFlight.length =
      r.pool.size.value + r.owed - r.pool.inFlight.length) : r'.Sound := by
  have hlen : r'.pool.handles.length = r.pool.handles.length := by
    simpa using congrArg List.length hids
  have hold := h.balance
  refine ⟨hids ▸ h.ids_nodup, ?_, hvictims.nodup_iff.mpr h.victims_nodup,
    fun k hk => hdoomed k (h.victims_doomed k (hvictims.mem_iff.mp hk)), ?_⟩
  · rw [hids, hnext]
    exact h.ids_lt
  · simp only [load] at hold ⊢
    omega

/-- A handle that is moved to its end is one that no other thread is about to strike off. -/
theorem Sound.condemned (h : r.Sound) (hl : State.legal s .toDestroy = true)
    (hs : r.pool.stateOf? id = some s) {reserved : Bool} {es : List Errand}
    (hes : (es.filterMap (·.victim?)).Perm r.victims)
    (howed : es.countP (·.owes) + reserved.toNat = r.owed) :
    Race.Sound ⟨r.pool.restate id s .toDestroy, .strike id reserved :: es⟩ := by
  have hfresh : id ∉ es.filterMap (·.victim?) := fun hk =>
    (doomed_restate hl hs (by decide) (h.victims_doomed id (hes.mem_iff.mp hk))).1 rfl
  have hold := h.balance
  refine ⟨(ids_restate (p := r.pool)).symm ▸ h.ids_nodup, ?_, ?_, ?_, ?_⟩
  · rw [ids_restate]
    exact h.ids_lt
  · exact List.nodup_cons.mpr ⟨hfresh, hes.nodup_iff.mpr h.victims_nodup⟩
  · intro k hk
    rcases List.mem_cons.mp hk with rfl | hk
    · exact stateOf_restate hs _
    · exact (doomed_restate hl hs (by decide) (h.victims_doomed k (hes.mem_iff.mp hk))).2
  · have hlen : (r.pool.restate id s .toDestroy).handles.length = r.pool.handles.length :=
      List.length_map _
    have hcount : (es.countP (·.owes) + (Errand.strike id reserved).owes.toNat) =
        (Errand.strike id reserved :: es).countP (·.owes) := by
      rw [List.countP_cons]
      cases reserved <;> rfl
    change r.pool.size.value + ((Errand.strike id reserved :: es).countP (·.owes) : Nat) =
      ((r.pool.restate id s .toDestroy).handles.length + r.pool.inFlight.length : Nat)
    rw [← hcount, hlen]
    change _ + ((es.countP (·.owes) + reserved.toNat : Nat) : Int) = _
    rw [howed]
    exact hold

theorem Sound.seize (h : r.Sound) (he : Errand.seize id ∈ r.errands) :
    (r.proceed (.seize id)).Sound := by
  have howed : (r.errands.erase (.seize id)).countP (·.owes) + 1 = r.owed := owed_erase he
  have hvictims : ((r.errands.erase (.seize id)).filterMap (·.victim?)).Perm r.victims :=
    victims_erase he
  simp only [proceed]
  rcases transition_cases r.pool id .checkedIn .toDestroy with hlost | ⟨hl, hs, hwon⟩
  · rw [hlost]
    refine h.same rfl rfl (fun _ hk => hk) hvictims ?_
    have hcount : Race.owed ⟨r.pool, .rollBack :: r.errands.erase (.seize id)⟩ = r.owed := by
      rw [← howed]
      exact List.countP_cons_of_pos rfl
    rw [hcount]
  · rw [hwon]
    exact h.condemned hl hs hvictims howed

theorem Sound.rollBack (h : r.Sound) (he : Errand.rollBack ∈ r.errands) :
    (r.proceed .rollBack).Sound := by
  have howed : (r.errands.erase .rollBack).countP (·.owes) + 1 = r.owed := owed_erase he
  refine h.same rfl rfl (fun _ hk => hk) (victims_erase he) ?_
  simp only [proceed, Tally.value_up]
  simp only [owed] at howed ⊢
  omega

theorem Sound.strike (h : r.Sound) {reserved : Bool} (he : Errand.strike id reserved ∈ r.errands) :
    (r.proceed (.strike id reserved)).Sound := by
  have howed : (r.errands.erase (.strike id reserved)).countP (·.owes) + reserved.toNat = r.owed :=
    owed_erase he
  have hvictims :
      (id :: (r.errands.erase (.strike id reserved)).filterMap (·.victim?)).Perm r.victims :=
    victims_erase he
  obtain ⟨hother, hnodup⟩ := List.nodup_cons.mp (hvictims.nodup_iff.mpr h.victims_nodup)
  have hdoomed := h.victims_doomed id (hvictims.mem_iff.mp List.mem_cons_self)
  obtain ⟨hids, hlen, hsize, hflight⟩ := strike_doomed h.ids_nodup hdoomed reserved
  have hold := h.balance
  refine ⟨hids.nodup h.ids_nodup, fun k hk => ?_, hnodup, fun k hk => ?_, ?_⟩
  · have hnext : (r.pool.strike id reserved).nextHandle = r.pool.nextHandle := by
      obtain ⟨x, hx, hs⟩ := find_of_stateOf hdoomed
      rw [strike_of hx hs]
    exact hnext ▸ h.ids_lt k (hids.mem hk)
  · have hne : k ≠ id := fun heq => hother (heq ▸ hk)
    exact (stateOf_strike hdoomed reserved hne).trans
      (h.victims_doomed k (hvictims.mem_iff.mp (List.mem_cons_of_mem _ hk)))
  · simp only [proceed, owed, load, hsize, hflight] at howed hold ⊢
    cases reserved
    · simp only [Bool.toNat_false, Bool.false_eq_true, if_false, Tally.value_down] at howed ⊢
      omega
    · simp only [Bool.toNat_true, if_true] at howed ⊢
      omega

theorem Sound.complete (h : r.Sound) (hf : r.pool.inFlight ≠ []) (c : Connection) :
    Race.Sound { r with pool := (r.pool.enroll c).endCreation } := by
  have hids : (r.pool.enroll c).endCreation.handles.map (·.id) =
      r.pool.handles.map (·.id) ++ [⟨r.pool.nextHandle⟩] :=
    List.map_append
  refine ⟨?_, ?_, h.victims_nodup, ?_, ?_⟩
  · rw [hids]
    refine List.nodup_append.mpr ⟨h.ids_nodup, List.nodup_singleton _, fun k hk k' hk' hkk => ?_⟩
    have hlt := h.ids_lt k hk
    rw [hkk, List.mem_singleton.mp hk'] at hlt
    exact Nat.lt_irrefl _ hlt
  · rw [hids]
    intro k hk
    rcases List.mem_append.mp hk with hk | hk
    · exact Nat.lt_succ_of_lt (h.ids_lt k hk)
    · rw [List.mem_singleton.mp hk]
      exact Nat.lt_succ_self _
  · intro k hk
    obtain ⟨x, hx, hs⟩ := find_of_stateOf (h.victims_doomed k hk)
    have hfind : (r.pool.enroll c).endCreation.find? k = some x := by
      have hleft : (r.pool.handles ++ [r.pool.newHandle c]).find? (·.id = k) = some x := by
        rw [List.find?_append, show r.pool.handles.find? (·.id = k) = some x from hx]
        rfl
      exact hleft
    exact (stateOf_of_find hfind).trans (congrArg some hs)
  · have hold := h.balance
    have hlen := List.length_pos_iff.mpr hf
    simp only [load, owed, endCreation, enroll, List.length_append, List.length_singleton,
      List.length_tail] at hold ⊢
    omega

theorem Sound.giveBack (h : r.Sound) (id : HandleId) :
    Race.Sound ⟨{ r.pool with size := r.pool.size.down }, .seize id :: r.errands⟩ := by
  have hcount : Race.owed ⟨{ r.pool with size := r.pool.size.down }, .seize id :: r.errands⟩ =
      r.owed + 1 := List.countP_cons_of_pos rfl
  refine h.same rfl rfl (fun _ hk => hk) (List.Perm.refl _) ?_
  rw [hcount, Tally.value_down]
  change r.pool.size.value - 1 + (r.owed + 1 : Nat) - r.pool.inFlight.length = _
  omega

theorem Sound.reserve (h : r.Sound) (a : Option Nat) :
    Race.Sound { r with pool := r.pool.schedule a } := by
  refine h.same rfl rfl (fun _ hk => hk) (List.Perm.refl _) ?_
  simp only [schedule, Tally.value_up, List.length_append, List.length_singleton, owed]
  omega

theorem Sound.shift (h : r.Sound) (id : HandleId) (s : State) (ht : t ≠ .destroyed) :
    Race.Sound { r with pool := (r.pool.transition id s t).2 } := by
  rcases transition_cases r.pool id s t with hlost | ⟨hl, hs, hwon⟩
  · rw [hlost]
    exact h
  · rw [hwon]
    exact h.same ids_restate rfl (fun k hk => (doomed_restate hl hs ht hk).2) (List.Perm.refl _) rfl

theorem Sound.miscarry (h : r.Sound) (hf : r.pool.inFlight ≠ []) :
    Race.Sound { r with pool := r.pool.forgo.endCreation } := by
  have hlen := List.length_pos_iff.mpr hf
  refine h.same rfl rfl (fun _ hk => hk) (List.Perm.refl _) ?_
  simp only [endCreation, forgo, Tally.value_down, List.length_tail, owed]
  omega

theorem Sound.proceed (h : r.Sound) {e : Errand} (he : e ∈ r.errands) : (r.proceed e).Sound := by
  cases e with
  | seize id => exact h.seize he
  | rollBack => exact h.rollBack he
  | strike id reserved => exact h.strike he

theorem Sound.step (h : r.Sound) (m : Move) : (r.step m).Sound := by
  cases m with
  | giveBack id =>
    simp only [Race.step]
    split
    · exact h.giveBack id
    · exact h
  | proceed e =>
    simp only [Race.step]
    split
    · next he => exact h.proceed he
    · exact h
  | reserve limit a =>
    simp only [Race.step]
    split
    · exact h.reserve a
    · exact h
  | shift id s t =>
    simp only [Race.step]
    split
    · exact h
    · next ht => exact h.shift id s fun htt => ht (Or.inr htt)
  | condemn id s =>
    simp only [Race.step]
    rcases transition_cases r.pool id s .toDestroy with hlost | ⟨hl, hs, hwon⟩
    · rw [hlost]
      exact h
    · rw [hwon]
      exact h.condemned hl hs (List.Perm.refl _) rfl
  | complete c =>
    simp only [Race.step]
    split
    · exact h
    · next hf => exact h.complete hf c
  | miscarry =>
    simp only [Race.step]
    split
    · exact h
    · next hf => exact h.miscarry hf

theorem transition_keeps (p : Pool) (id : HandleId) (s t : State) :
    (p.transition id s t).2.handles.length + (p.transition id s t).2.inFlight.length =
      p.handles.length + p.inFlight.length ∧ (p.transition id s t).2.cap = p.cap := by
  rcases transition_cases p id s t with hlost | ⟨-, -, hwon⟩
  · rw [hlost]
    exact ⟨rfl, rfl⟩
  · rw [hwon]
    exact ⟨congrArg (· + p.inFlight.length) (List.length_map _), rfl⟩

theorem proceed_keeps (r : Race) (e : Errand) :
    (r.proceed e).load ≤ r.load ∧ (r.proceed e).pool.cap = r.pool.cap := by
  cases e with
  | seize id =>
    have hkept := transition_keeps r.pool id .checkedIn .toDestroy
    simp only [proceed]
    split
    all_goals
      next htr =>
      rw [htr] at hkept
      exact ⟨Nat.le_of_eq hkept.1, hkept.2⟩
  | rollBack => exact ⟨Nat.le_refl _, rfl⟩
  | strike id reserved =>
    obtain ⟨hload, hcap⟩ := transition_keeps r.pool id .toDestroy .destroyed
    have hfewer := List.length_filter_le (fun h : Handle => decide (h.id ≠ id))
      (r.pool.transition id .toDestroy .destroyed).2.handles
    exact ⟨(Nat.add_le_add_right hfewer _).trans (Nat.le_of_eq hload), hcap⟩

/-- Only a reservation adds to the load. -/
theorem step_keeps (r : Race) (m : Move) :
    (r.step m).load ≤ r.load + (r.reserves m).toNat ∧ (r.step m).pool.cap = r.pool.cap := by
  cases m with
  | giveBack id =>
    simp only [step]
    split <;> exact ⟨Nat.le_refl _, rfl⟩
  | proceed e =>
    simp only [step]
    split
    · exact proceed_keeps r e
    · exact ⟨Nat.le_refl _, rfl⟩
  | reserve limit a =>
    simp only [step, reserves]
    by_cases hv : r.vacant limit = true
    · rw [if_pos hv, hv]
      refine ⟨?_, rfl⟩
      simp only [load, schedule, List.length_append, List.length_singleton, Bool.toNat_true]
      omega
    · rw [if_neg hv]
      exact ⟨Nat.le_add_right _ _, rfl⟩
  | shift id s t =>
    obtain ⟨hload, hcap⟩ := transition_keeps r.pool id s t
    simp only [step]
    split
    · exact ⟨Nat.le_refl _, rfl⟩
    · exact ⟨Nat.le_of_eq hload, hcap⟩
  | condemn id s =>
    have hkept := transition_keeps r.pool id s .toDestroy
    simp only [step]
    split
    · next htr =>
      rw [htr] at hkept
      exact ⟨Nat.le_of_eq hkept.1, hkept.2⟩
    · exact ⟨Nat.le_refl _, rfl⟩
  | complete c =>
    simp only [step]
    split
    · exact ⟨Nat.le_refl _, rfl⟩
    · next hf =>
      have hlen := List.length_pos_iff.mpr hf
      refine ⟨?_, rfl⟩
      simp only [load, endCreation, enroll, List.length_append, List.length_singleton,
        List.length_tail]
      omega
  | miscarry =>
    simp only [step]
    split
    · exact ⟨Nat.le_refl _, rfl⟩
    · refine ⟨?_, rfl⟩
      simp only [load, endCreation, forgo, List.length_tail]
      omega

/-- Who reserves sees a size below the cap, which lacks the places that are owed. -/
theorem Sound.load_lt_of_reserves (h : r.Sound) {m : Move} (hr : r.reserves m = true)
    (hword : r.load < 2 ^ 64) : r.load < r.pool.cap + r.owed := by
  cases m with
  | reserve limit a =>
    have hseen : r.pool.size.reading < min limit r.pool.cap := of_decide_eq_true hr
    have hbalance := h.balance
    have hvalue := Tally.value_lt hseen (by omega)
    omega
  | _ => cases hr

/-- A run keeps within the cap but for the places that were owed at its reservations. -/
theorem Sound.run {n : Nat} {ms : List Move} (h : r.Sound) (hload : r.load ≤ r.pool.cap + n)
    (hlap : r.overlap ms ≤ n) (hword : r.pool.cap + n < 2 ^ 64) :
    (r.run ms).Sound ∧ (r.run ms).load ≤ r.pool.cap + n := by
  induction ms generalizing r with
  | nil => exact ⟨h, hload⟩
  | cons m ms ih =>
    obtain ⟨hle, hcap⟩ := step_keeps r m
    have hfirst := Nat.le_trans (Nat.le_max_left _ _) hlap
    have hrest := Nat.le_trans (Nat.le_max_right _ _) hlap
    have hnext : (r.step m).load ≤ r.pool.cap + n := by
      by_cases hr : r.reserves m = true
      · have hlt := h.load_lt_of_reserves hr (by omega)
        rw [if_pos hr] at hfirst
        rw [hr, Bool.toNat_true] at hle
        omega
      · rw [Bool.eq_false_iff.mpr hr, Bool.toNat_false] at hle
        omega
    have hall := ih (h.step m) (hcap.symm ▸ hnext) hrest (hcap.symm ▸ hword)
    rw [hcap] at hall
    exact hall

end Race

variable {p : Pool} {id : HandleId}

theorem reading_of_sound (hp : p.Sound) :
    p.size.value = p.size.count ∧ p.size.reading = p.size.count := by
  have hsize : p.size = ⟨(p.handles.map (·.account)).length + p.inFlight.length, 0⟩ :=
    hp.books.counted.size_eq
  have hle : (p.handles.map (·.account)).length + p.inFlight.length ≤ p.config.maxSize.toNat :=
    hp.books.counted.size_le
  have hword := p.config.maxSize.toNat_lt
  simp only [hsize, Tally.reading, Tally.value]
  omega

/-- Between two operations nobody is in the middle of anything. -/
theorem sound_alone (hp : p.Sound) : Race.Sound ⟨p, []⟩ := by
  obtain ⟨hvalue, -⟩ := reading_of_sound hp
  have hsize : p.size = ⟨(p.handles.map (·.account)).length + p.inFlight.length, 0⟩ :=
    hp.books.counted.size_eq
  refine ⟨ids_nodup hp.books.fitting, fun k hk => ?_, List.nodup_nil,
    fun k hk => absurd hk List.not_mem_nil, ?_⟩
  · obtain ⟨h, hh, rfl⟩ := List.mem_map.mp hk
    exact hp.books.fitting.ids_lt h.account (List.mem_map_of_mem hh)
  · change p.size.value + (0 : Nat) = (p.handles.length + p.inFlight.length : Nat)
    rw [hvalue, hsize, List.length_map]
    rfl

/-- The steps by which a stale handle is claimed are one, if no other thread comes between them. -/
theorem claimStale_alone (hp : p.Sound) (hopen : p.closed = false) {h : Handle}
    (hf : p.find? id = some h) (hstale : p.isStale h = true) :
    (Race.run ⟨p, []⟩ [.giveBack id, .proceed (.seize id), .proceed .rollBack]).pool =
      (p.claimStale id).2 := by
  obtain ⟨-, hreading⟩ := reading_of_sound hp
  have hguard : (p.closed || !p.isStale h || decide (p.size.count ≤ p.floor)) =
      decide (p.size.count ≤ p.floor) := by
    rw [hopen, hstale]
    rfl
  simp only [claimStale, hf, hguard, decide_eq_true_eq, Race.run, List.foldl_cons, List.foldl_nil]
  by_cases hfloor : p.size.count ≤ p.floor
  · have hshut : Race.step ⟨p, []⟩ (.giveBack id) = ⟨p, []⟩ :=
      if_neg (by rw [hreading]; exact Nat.not_lt.mpr hfloor)
    rw [if_pos hfloor, hshut]
    rfl
  · have hgiven : Race.step ⟨p, []⟩ (.giveBack id) =
        ⟨{ p with size := p.size.down }, [.seize id]⟩ :=
      if_pos (by rw [hreading]; exact Nat.lt_of_not_le hfloor)
    have hnext : Race.step ⟨{ p with size := p.size.down }, [.seize id]⟩ (.proceed (.seize id)) =
        Race.proceed ⟨{ p with size := p.size.down }, [.seize id]⟩ (.seize id) :=
      if_pos List.mem_cons_self
    rw [if_neg hfloor, hgiven, hnext]
    rcases htr :
      Pool.transition { p with size := p.size.down } id .checkedIn .toDestroy with ⟨_ | _, q⟩
    all_goals
      simp only [Race.proceed, List.erase_cons_head, htr]
      rfl

/-- A reservation that no other thread comes between is the one of `hasRoom` and `schedule`. -/
theorem reserve_alone (hp : p.Sound) (hopen : p.closed = false) (a : Option Nat) :
    (Race.step ⟨p, []⟩ (.reserve p.cap a)).pool = if p.hasRoom then p.schedule a else p := by
  obtain ⟨-, hreading⟩ := reading_of_sound hp
  have hsame : Race.vacant ⟨p, []⟩ p.cap = p.hasRoom := by
    simp only [Race.vacant, hasRoom, hreading, hopen, Nat.min_self, Bool.not_false, Bool.true_and]
  simp only [Race.step, hsame]
  split <;> rfl

/-- However the steps of any threads come between each other, the size lacks just the places that
are owed, and the pool has no more above its cap than places were owed at one of the reservations.
The word that holds the size shows it, as long as the pool has as much as is owed, and has wrapped
around if not. -/
theorem cap_but_for_overlap {c : Config} {f : Factory} {ls : List Listener} {us : Units}
    (hb : build c f ls us = .ok (some p)) (ops : List Operation) (ms : List Race.Move)
    (hword : c.maxSize.toNat + Race.overlap ⟨p.after ops, []⟩ ms < 2 ^ 64) :
    let r := Race.run ⟨p.after ops, []⟩ ms
    r.load ≤ c.maxSize.toNat + Race.overlap ⟨p.after ops, []⟩ ms ∧
      r.pool.size.value + r.owed = r.load ∧
      (r.owed ≤ r.load → r.pool.size.reading + r.owed = r.load) ∧
      (r.load < r.owed → r.owed ≤ 2 ^ 64 → r.pool.size.reading + r.owed = 2 ^ 64 + r.load) := by
  have hfresh := fresh_of_build hb
  have hsound := (hfresh.settled.after ops).sound
  have hcap := hfresh.cap_after ops
  have hstart : Race.load ⟨p.after ops, []⟩ ≤
      (p.after ops).cap + Race.overlap ⟨p.after ops, []⟩ ms := by
    have hle := hsound.books.counted.size_le
    simp only [ledger, List.length_map] at hle
    exact Nat.le_trans hle (Nat.le_add_right _ _)
  obtain ⟨hrun, hload⟩ := (sound_alone hsound).run hstart (Nat.le_refl _) (hcap.symm ▸ hword)
  change Race.load _ ≤ (p.after ops).cap + _ at hload
  rw [hcap] at hload
  have hbalance := hrun.balance
  refine ⟨hload, hbalance, fun hle => ?_, fun hlt howed => ?_⟩
  · have hread :=
      Tally.reading_eq (t := (Race.run ⟨p.after ops, []⟩ ms).pool.size) (by omega) (by omega)
    omega
  · have hread :=
      Tally.reading_wraps (t := (Race.run ⟨p.after ops, []⟩ ms).pool.size) (by omega) (by omega)
    omega

/-- A thread gives back the place of an idle handle that a caller then claims, another caller
reserves the place, and the thread, too late for the handle, takes it again. -/
theorem cap_overstepped :
    ∃ p, build { minSize := 0, maxSize := 1, prefill := .toMax, reapIdleTimeout := .zero }
        {} [] {} = .ok (some p) ∧ ((p.after [.create]).claimStale ⟨1⟩).1 = true ∧
      let r := Race.run ⟨p.after [.create], []⟩
        [.giveBack ⟨1⟩, .shift ⟨1⟩ .checkedIn .checkedOut, .reserve 1 (some 0),
        .proceed (.seize ⟨1⟩),
          .proceed .rollBack]
      r.pool.size.reading = 2 ∧ r.pool.handles.length + r.pool.inFlight.length = 2 ∧
        r.pool.cap = 1 :=
  ⟨_, rfl, by decide +kernel, by decide +kernel, by decide +kernel, rfl⟩

theorem cap_but_for_one_place :
    ∃ p, build { minSize := 0, maxSize := 1, prefill := .toMax, reapIdleTimeout := .zero }
        {} [] {} = .ok (some p) ∧
      let ms : List Race.Move :=
        [.giveBack ⟨1⟩, .shift ⟨1⟩ .checkedIn .checkedOut, .reserve 1 (some 0)]
      Race.overlap ⟨p.after [.create], []⟩ ms = 1 ∧
        (Race.run ⟨p.after [.create], []⟩ ms).load ≤ 1 + Race.overlap ⟨p.after [.create], []⟩ ms :=
  ⟨_, rfl, by decide +kernel,
    (@cap_but_for_overlap _
    { minSize := 0, maxSize := 1, prefill := .toMax, reapIdleTimeout := .zero }
      {} [] {} rfl [.create] _ (by decide +kernel)).1⟩

end Pool
end ConnPool
