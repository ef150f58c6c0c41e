import ConnPool.Proofs.GivingBack
import ConnPool.Proofs.HomeOperations

namespace ConnPool.Pool

namespace Operation

/-- An operation as a computation that can be held up. What calls no factory is done in one step. -/
def act : Operation → PoolAct Unit
  | acquire t deadline => do let _ ← Pool.acquire t deadline; return
  | resume acquirer => do let _ ← Pool.resume acquirer; return
  | release t lease => Pool.release t lease
  | invalidate lease => Pool.invalidate lease
  | detach lease => do let _ ← Pool.detach lease; return
  | releaseEnlisted t id => do let _ ← Pool.releaseEnlisted t id; return
  | sweep t s => do let _ ← Pool.sweep t s; return
  | execute t s id => do let _ ← Pool.execute t s id; return
  | create => Pool.create
  | close => Pool.close
  | vanish => Pool.vanish
  | op => .update fun p => op.run p

theorem act_run (op : Operation) (p : Pool) : (op.act.run p).2 = op.run p := by
  cases op <;> simp only [act, run, Act.run_bind, Act.run_pure, Act.run_update]

/-- The thread for which an operation looks for an idle handle. One whose enlisted handle is active
does not look, nor does one that was given a handle which is still idle. -/
def seeker? (p : Pool) : Operation → Option Thread
  | acquire t _ =>
    if p.closed || (p.units.current t).any (p.stateOf? · = some .checkedOut) then none else some t
  | resume n => (p.acquirers.find? (·.taker.id = n)).bind fun a =>
    match a.waiting with
    | .parked => some a.taker.thread
    | .served h => if p.stateOf? h = some .checkedIn then none else some a.taker.thread
    | .dismissed => none
  | _ => none

/-- The thread that by this operation gives a handle back to an open pool: it drops a plain lease,
or releases what a unit of work held. -/
def giver? (p : Pool) : Operation → Option (Thread × HandleId)
  | release t n => do
    let l ← p.lease? n
    if !l.enlisted && !p.closed && p.stateOf? l.handle = some .checkedOut then
      some (t, l.handle)
    else none
  | releaseEnlisted t id =>
    if !p.closed && ((Pool.releaseEnlisted t id).run p).1 then some (t, id) else none
  | _ => none

end Operation

/-- A thread gave a handle back, or it looked around for one while others were under validation. -/
inductive Mark where
  | returned (t : Thread) (id : HandleId)
  | looked (t : Thread) (busy : List HandleId)
  deriving DecidableEq

/-- A pool in the middle of operations, each with the thread that it seeks for if it does, and what
came to pass so far, latest first. -/
structure Overlap where
  pool : Pool
  underway : List (Option Thread × PoolAct Unit) := []
  past : List Mark := []

/-- An operation begins, or one of those underway goes on, until a call is held. -/
inductive Deed where
  | start (op : Operation) (held : Call → Bool)
  | goOn (n : Nat) (held : Call → Bool)

/-- The handles under validation. -/
def busy (p : Pool) : List HandleId := (p.handles.filter (·.state = .validation)).map (·.id)

/-- A thread that looks around does so among handles that are under validation or not. -/
def looks (p : Pool) (who : Option Thread) : List Mark := who.toList.map (.looked · p.busy)

/-- What is given back when an operation begins. -/
def gives (p : Pool) (op : Operation) : List Mark :=
  (op.giver? p).toList.map fun g => .returned g.1 g.2

namespace Overlap

/-- A computation goes on until a call is held. -/
def advance (o : Overlap) (who : Option Thread) (m : PoolAct Unit) (held : Call → Bool) :
    Overlap where
  pool := (m.advance held o.pool).2
  underway :=
    o.underway ++ [(who, (m.advance held o.pool).1)].filter fun e => e.2.heldAt?.isSome
  past := o.pool.looks who ++ o.past

def step (o : Overlap) : Deed → Overlap
  | .start op held =>
    { o with past := o.pool.gives op ++ o.past }.advance (op.seeker? o.pool) op.act held
  | .goOn n held =>
    match o.underway[n]? with
    | some (who, m) => { o with underway := o.underway.eraseIdx n }.advance who m held
    | none => o

end Overlap

/-- The pool in the middle of what is done to it. -/
def amid (p : Pool) (ds : List Deed) : Overlap := ds.foldl Overlap.step { pool := p }

/-- What a thread gave back, latest first. -/
def returns (t : Thread) (past : List Mark) : List HandleId :=
  past.filterMap fun
    | .returned s id => if s = t then some id else none
    | .looked _ _ => none

/-- The thread that gave a handle back last. -/
def returner? (past : List Mark) (id : HandleId) : Option Thread :=
  past.findSome? fun
    | .returned t k => if k = id then some t else none
    | .looked _ _ => none

variable {p q : Pool} {past new old : List Mark} {t u : Thread} {id : HandleId}

theorem mem_returns : id ∈ returns t past ↔ .returned t id ∈ past := by
  simp only [returns, List.mem_filterMap]
  constructor
  · rintro ⟨m, hm, hid⟩
    cases m with
    | returned s k =>
      by_cases hs : s = t
      · simp only [hs, if_true, Option.some.injEq] at hid
        exact hid ▸ hs ▸ hm
      · simp only [if_neg hs, reduceCtorEq] at hid
    | looked s ids => cases hid
  · exact fun h => ⟨_, h, if_pos rfl⟩

theorem returns_cons (past : List Mark) (t : Thread) (id : HandleId) :
    returns t (.returned t id :: past) = id :: returns t past :=
  List.filterMap_cons_some (if_pos rfl)

theorem returns_cons_of_ne (past : List Mark) {t u : Thread} (hu : u ≠ t) (id : HandleId) :
    returns t (.returned u id :: past) = returns t past :=
  List.filterMap_cons_none (if_neg hu)

theorem returner_cons_of_ne {m : Mark} (hm : ∀ s, m ≠ .returned s id) :
    returner? (m :: past) id = returner? past id := by
  cases m with
  | returned s k =>
    have hk : k ≠ id := fun hk => hm s (congrArg _ hk)
    simp only [returner?, List.findSome?_cons, if_neg hk]
  | looked s ids => rfl

theorem returner_cons (past : List Mark) (t : Thread) (id : HandleId) :
    returner? (.returned t id :: past) id = some t := by
  simp only [returner?, List.findSome?_cons, if_true]

theorem returner_of_none (hnone : ∀ s, .returned s id ∉ past) : returner? past id = none := by
  induction past with
  | nil => rfl
  | cons m past ih =>
    have hm : ∀ s, m ≠ .returned s id := fun s hs => hnone s (hs ▸ List.mem_cons_self)
    rw [returner_cons_of_ne hm]
    exact ih fun s hs => hnone s (List.mem_cons_of_mem m hs)

/-- Who gave a handle back last is known from its last return. -/
theorem returner_of_last (hnew : ∀ s, .returned s id ∉ new) :
    returner? (new ++ .returned t id :: old) id = some t := by
  induction new with
  | nil => exact returner_cons old t id
  | cons m new ih =>
    have hm : ∀ s, m ≠ .returned s id := fun s hs => hnew s (hs ▸ List.mem_cons_self)
    rw [List.cons_append, returner_cons_of_ne hm]
    exact ih fun s hs => hnew s (List.mem_cons_of_mem m hs)

/-- What is given back at all is given back last by somebody. -/
theorem last_of_mem (h : ∃ s, .returned s id ∈ past) :
    ∃ s new old, past = new ++ .returned s id :: old ∧ ∀ u, .returned u id ∉ new := by
  induction past with
  | nil =>
    obtain ⟨s, hs⟩ := h
    cases hs
  | cons m past ih =>
    by_cases hm : ∃ s, m = .returned s id
    · obtain ⟨s, rfl⟩ := hm
      exact ⟨s, [], past, rfl, fun _ => List.not_mem_nil⟩
    · obtain ⟨s, hs⟩ := h
      have hlater : .returned s id ∈ past :=
        (List.mem_cons.mp hs).resolve_left fun he => hm ⟨s, he.symm⟩
      obtain ⟨u, new, old, rfl, hnew⟩ := ih ⟨s, hlater⟩
      refine ⟨u, m :: new, old, rfl, fun v hv => ?_⟩
      rcases List.mem_cons.mp hv with rfl | hv
      · exact hm ⟨v, rfl⟩
      · exact hnew v hv

/-- Whatever is done for a thread that looks around, or for none, keeps to the rule for that. -/
def Moves : Option Thread → Pool → Pool → Prop
  | some t => Seeks t
  | none => Shifts

instance (who : Option Thread) : Act.Rule Orderly (Moves who) := by
  cases who with
  | none => exact inferInstanceAs (Act.Rule Orderly Shifts)
  | some t => exact inferInstanceAs (Act.Rule Orderly (Seeks t))

section

variable {α : Type} {R : Pool → Pool → Prop} {m : PoolAct α}

theorem answered_abides (h : m.Abides Orderly R (fun _ => Orderly) p) :
    Act.Abides Orderly R (fun _ => Orderly) (do let _ ← m; return) p :=
  .bind h fun _ _ hq => hq

theorem answered_keeps (h : Act.Keeps Orderly R m) : Act.Keeps Orderly R (do let _ ← m; return) :=
  fun p hp => answered_abides (h p hp)

theorem moves_of_still (h : m.Abides Orderly Still (fun _ => Orderly) p) :
    m.Abides Orderly (Moves none) (fun _ => Orderly) p :=
  h.mono (fun _ _ k => k.shifts) fun _ _ hq => hq

end

namespace Operation

variable {op : Operation}

theorem acquire_moves (t : Thread) (deadline : Nat) (hp : p.Orderly) :
    (acquire t deadline).act.Abides Orderly (Moves ((acquire t deadline).seeker? p))
    (fun _ => Orderly)
      p := by
  simp only [seeker?]
  split
  · next hno =>
    exact answered_abides
      (moves_of_still (acquire_abides t deadline hp (Bool.or_eq_true_iff.mp hno)))
  · exact answered_keeps (acquire_keeps (R := Seeks t) deadline) p hp

theorem resume_moves (n : Nat) (hp : p.Orderly) :
    (resume n).act.Abides Orderly (Moves ((resume n).seeker? p)) (fun _ => Orderly) p := by
  have hstill : (∀ a, p.acquirers.find? (·.taker.id = n) = some a → a.waiting ≠ .parked ∧
      ∀ h, a.waiting = .served h → p.stateOf? h = some .checkedIn) →
      (resume n).act.Abides Orderly (Moves none) (fun _ => Orderly) p :=
    fun hno => answered_abides (moves_of_still (resume_served n hp hno))
  simp only [seeker?]
  cases hf : p.acquirers.find? (·.taker.id = n) with
  | none => exact hstill fun a ha => by rw [hf] at ha; cases ha
  | some a =>
    have hone : ∀ b, p.acquirers.find? (·.taker.id = n) = some b → b = a :=
      fun b hb => Option.some.inj (hb.symm.trans hf)
    have hseek : (resume n).act.Abides Orderly (Moves (some a.taker.thread))
        (fun _ => Orderly) p := by
      refine answered_abides (R := Seeks a.taker.thread)
        (resume_abides (L := fun id p => p.Away id) hp
        fun b hb => ?_)
      rw [hone b hb]
      infer_instance
    simp only [Option.bind_some]
    split
    · exact hseek
    · next h hw =>
      split
      · next hidle =>
        refine hstill fun b hb => ?_
        rw [hone b hb, hw]
        refine ⟨nofun, fun k hk => ?_⟩
        cases hk
        exact hidle
      · exact hseek
    · next hw =>
      refine hstill fun b hb => ?_
      rw [hone b hb, hw]
      exact ⟨nofun, nofun⟩

/-- The rule for an operation that gives nothing back. -/
theorem abides (hp : p.Orderly) (hg : op.giver? p = none) :
    op.act.Abides Orderly (Moves (op.seeker? p)) (fun _ => Orderly) p := by
  cases op with
  | acquire t deadline => exact acquire_moves t deadline hp
  | resume n => exact resume_moves n hp
  | release t n =>
    refine moves_of_still (release_abides t n hp fun l hl hplain ho hs => ?_)
    simp [giver?, hl, hplain, ho, hs] at hg
  | releaseEnlisted t id =>
    refine moves_of_still (answered_abides (releaseEnlisted_abides t hp fun ho h c hf hs hc => ?_))
    have hyes := (releaseEnlisted_answers p id t).mpr ⟨h, c, hf, hs, hc⟩
    simp [giver?, ho, hyes] at hg
  | invalidate n => exact moves_of_still (invalidate_keeps n p hp)
  | detach n => exact moves_of_still (answered_keeps (detach_keeps n) p hp)
  | sweep t s => exact answered_keeps (sweep_keeps (R := Shifts) t s) p hp
  | execute t s id => exact answered_keeps (execute_keeps (R := Shifts) t s id) p hp
  | create => exact create_keeps (R := Shifts) p hp
  | close => exact close_keeps (R := Shifts) p hp
  | vanish => exact vanish_keeps (R := Shifts) p hp
  | topUp => exact topUp_keeps (R := Shifts) p hp
  | setFloor n =>
    exact moves_of_still (Act.Keeps.update (fun p _ => SettingRule.setFloor Orderly p n) p hp)
  | setPatience d =>
    exact moves_of_still (Act.Keeps.update (fun p _ => SettingRule.setPatience Orderly p d) p hp)
  | overtake n =>
    exact Act.Keeps.update (R := Shifts) (fun p _ => CreationRule.overtake Orderly p n) p hp
  | abandon n =>
    exact Act.Keeps.update (R := Shifts) (fun p _ => CreationRule.abandon Orderly p n) p hp
  | _ => exact moves_of_still (Act.Keeps.update (fun _ _ => .of_same rfl rfl) p hp)

/-- An operation by which a handle is given back does that before it can be held up. -/
theorem gives_back (hp : p.Orderly) (hg : op.giver? p = some (t, id)) (held : Call → Bool) :
    op.seeker? p = none ∧ Returned t id p (op.act.advance held p).2 ∧
      Act.Keeps Orderly Still (op.act.advance held p).1 := by
  cases op with
  | release u n =>
    simp only [giver?, Option.bind_eq_bind, Option.bind_eq_some_iff] at hg
    obtain ⟨l, hl, hgiven⟩ := hg
    split at hgiven
    · next hmay =>
      simp only [Bool.and_eq_true, Bool.not_eq_true', decide_eq_true_eq] at hmay
      obtain ⟨⟨hplain, ho⟩, hs⟩ := hmay
      cases hgiven
      obtain ⟨q, hq, hrest⟩ := release_returns hl hplain t hp ho hs
      obtain ⟨hstill, hkeeps⟩ :=
        (publish_keeps (R := Still) t l.handle q (hq.orderly hp)).advance (hq.orderly hp) held
      change _ ∧ Returned t l.handle p ((Pool.release t n).advance held p).2 ∧
        Act.Keeps Orderly Still ((Pool.release t n).advance held p).1
      rw [hrest held]
      exact ⟨rfl, hq.trans hstill, hkeeps⟩
    · cases hgiven
  | releaseEnlisted u k =>
    simp only [giver?] at hg
    split at hg
    · next hmay =>
      simp only [Bool.and_eq_true, Bool.not_eq_true'] at hmay
      obtain ⟨ho, hyes⟩ := hmay
      cases hg
      obtain ⟨h, c, hr⟩ := (releaseEnlisted_answers p id t).mp hyes
      obtain ⟨q, hq, hrest⟩ := releaseEnlisted_returns hr.find hr.active hr.full t hp ho
      have hafter := answered_keeps (publish_keeps (R := Still) t id)
      obtain ⟨hstill, hkeeps⟩ := (hafter q (hq.orderly hp)).advance (hq.orderly hp) held
      have hact : (releaseEnlisted t id).act.advance held p =
        (publish t id >>= fun _ => pure ()).advance held q := hrest Unit (fun _ => pure ()) held
      rw [hact]
      exact ⟨rfl, hq.trans hstill, hkeeps⟩
    · cases hg
  | _ => cases hg

end Operation

end ConnPool.Pool
