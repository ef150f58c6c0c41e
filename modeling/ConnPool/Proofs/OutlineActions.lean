import ConnPool.Proofs.Capacity
import ConnPool.Proofs.Outline
import ConnPool.Proofs.Reach

namespace ConnPool

/-- What is done to a pool by callers who do not wait. An acquire comes late: its deadline passed so
long ago. The creation that is let through is any of those in flight. -/
inductive Action where
  | acquire (t : Thread) (late : Nat)
  | release (t : Thread) (lease : Nat)
  | invalidate (lease : Nat)
  | detach (lease : Nat)
  | setFloor (n : Nat)
  | validate (t : Thread)
  | close
  | create (n : Nat)

/-- What an action is answered, but for the connection itself. -/
inductive Outcome where
  | replied (r : Pool.Reply)
  | ended (held : Bool)
  | ruled (r : Except Failure Unit)
  | probed (n : Nat)
  | silent

namespace Outline

/-- An acquire that may not wait. -/
def acquire (o : Outline) : Pool.Reply × Outline :=
  if o.closed then (.refused (.closed o.name), o)
  else if 0 < o.idle then (.granted o.nextLease, o.lend)
  else
    (.refused (.acquireTimeout o.name 0 o.active o.cap 0),
      (if o.size < o.cap then o.reserve 1 else o).timeOut)

/-- A lease ends, and its connection goes home. -/
def release (o : Outline) (n : Nat) : Outline :=
  if o.holds n then if o.closed then (o.drop n).lose else (o.drop n).takeBack else o

/-- A lease ends, and its connection leaves the pool. -/
def retire (o : Outline) (n : Nat) : Outline := if o.holds n then (o.drop n).lose.fill else o

def setFloor (o : Outline) (n : Nat) : Except Failure Unit × Outline :=
  if n > o.cap then (.error (Config.Fault.floorAboveCap n.toUInt64 o.maxSize).failure, o)
  else (.ok (), { o with floor := n }.fill)

/-- All that is idle is found good. -/
def validate (o : Outline) : Nat × Outline := if o.closed then (0, o) else (o.idle, o.fill)

def close (o : Outline) : Outline := if o.closed then o else { o with closed := true }.shed o.idle

def create (o : Outline) : Outline :=
  if o.inFlight = 0 then o
  else match o.factory.create (o.attempts + 1) with
  | .ok _ => o.tried.bear.endCreation
  | .error _ => o.tried.forgo.endCreation

def step (o : Outline) : Action → Outcome × Outline
  | .acquire _ _ => (.replied o.acquire.1, o.acquire.2)
  | .release _ n => (.ended (o.holds n), o.release n)
  | .invalidate n | .detach n => (.ended (o.holds n), o.retire n)
  | .setFloor n => (.ruled (o.setFloor n).1, (o.setFloor n).2)
  | .validate _ => (.probed o.validate.1, o.validate.2)
  | .close => (.silent, o.close)
  | .create _ => (.silent, o.create)

/-- The answers to a script, each with the numbers that the pool then reports. -/
def record (o : Outline) : List Action → List (Outcome × Stats)
  | [] => []
  | a :: as => ((o.step a).1, (o.step a).2.stats) :: (o.step a).2.record as

variable {o : Outline}

theorem Plain.fill (h : o.Plain) : o.fill.Plain := by
  simp only [Outline.fill]
  split
  · exact h
  · exact ⟨h.alone, h.free, h.loose, h.good⟩

theorem Plain.drop (h : o.Plain) (n : Nat) : (o.drop n).Plain :=
  ⟨h.alone, h.free, fun l hl => h.loose l (List.mem_filter.mp hl).1, h.good⟩

theorem Plain.lose (h : o.Plain) : o.lose.Plain := ⟨h.alone, h.free, h.loose, h.good⟩

theorem Plain.acquire (h : o.Plain) : o.acquire.2.Plain := by
  simp only [Outline.acquire]
  split
  · exact h
  · split
    · refine ⟨h.alone, h.free, fun l hl => ?_, h.good⟩
      rcases List.mem_append.mp hl with hl | hl
      · exact h.loose l hl
      · rw [List.mem_singleton.mp hl]
    · split <;> exact ⟨h.alone, h.free, h.loose, h.good⟩

theorem Plain.retire (h : o.Plain) (n : Nat) : (o.retire n).Plain := by
  simp only [Outline.retire]
  split
  · exact (h.drop n).lose.fill
  · exact h

theorem Plain.create (h : o.Plain) : o.create.Plain := by
  simp only [Outline.create]
  split
  · exact h
  · split
    · simp only [bear]
      split <;> exact ⟨h.alone, h.free, h.loose, h.good⟩
    · exact ⟨h.alone, h.free, h.loose, h.good⟩

theorem Plain.step (h : o.Plain) (a : Action) : (o.step a).2.Plain := by
  cases a with
  | acquire t late => exact h.acquire
  | release t n =>
    have hdrop := h.drop n
    simp only [Outline.step, release]
    split
    · split
      · exact hdrop.lose
      · exact ⟨hdrop.alone, hdrop.free, hdrop.loose, hdrop.good⟩
    · exact h
  | invalidate n => exact h.retire n
  | detach n => exact h.retire n
  | setFloor n =>
    simp only [Outline.step, setFloor]
    split
    · exact h
    · exact Plain.fill ⟨h.alone, h.free, h.loose, h.good⟩
  | validate t =>
    simp only [Outline.step, validate]
    split
    · exact h
    · exact h.fill
  | close =>
    simp only [Outline.step, close]
    split
    · exact h
    · exact ⟨h.alone, h.free, h.loose, h.good⟩
  | create n => exact h.create

end Outline

namespace Action

/-- The operations that an action comes to. -/
def operations (p : Pool) : Action → List Pool.Operation
  | acquire t late => [.acquire t (p.clock - late)]
  | release t n => [.release t n]
  | invalidate n => [.invalidate n]
  | detach n => [.detach n]
  | setFloor n => [.setFloor n]
  | validate t => [.sweep t .validation]
  | close => [.close]
  | create n => [.overtake n, .create]

def run (p : Pool) (a : Action) : Pool := p.after (a.operations p)

def outcome (p : Pool) : Action → Outcome
  | acquire t late => .replied ((Pool.acquire t (p.clock - late)).run p).1
  | release _ n | invalidate n => .ended (p.lease? n).isSome
  | detach n => .ended ((Pool.detach n).run p).1.isSome
  | setFloor n => .ruled (p.setFloor n).1
  | validate t => .probed ((Pool.sweep t .validation).run p).1
  | close | create _ => .silent

end Action

namespace Pool

variable {p q : Pool} {id : HandleId}

/-- The answers to a script, each with the numbers that the pool then reports. -/
def record (p : Pool) : List Action → List (Outcome × Stats)
  | [] => []
  | a :: as => (a.outcome p, (a.run p).stats) :: (a.run p).record as

theorem acquirers_of_plain (h : p.outline.Plain) : p.acquirers = [] :=
  List.map_eq_nil_iff.mp h.alone

theorem waiters_of_plain (hp : p.Lineup) (h : p.outline.Plain) : p.handoff.waiters = 0 := by
  rw [Handoff.waiters, hp.parked_eq, acquirers_of_plain h]
  rfl

theorem outline_stats (hp : p.Lineup) (h : p.outline.Plain) : p.outline.stats = p.stats := by
  have hwaiters := waiters_of_plain hp h
  have halone : p.outline.waiting.length = 0 := by
    rw [h.alone]
    rfl
  simp only [Outline.stats, stats, hwaiters, halone]
  rfl

theorem outline_idle (hp : p.Sound) : p.outline.idle = p.handles.countP (·.state = .checkedIn) :=
  (tallied_of_sound (c := p.config) hp rfl).idle_eq

theorem idle_pos_iff (hp : p.Sound) :
    0 < p.outline.idle ↔ ∃ h ∈ p.handles, h.state = .checkedIn := by
  simp only [outline_idle hp, List.countP_pos_iff, decide_eq_true_eq]

/-- A caller who does not wait is granted what he claims. -/
theorem granted_alike (hp : p.Sound) (h : p.outline.Plain) (claim : Claim none p id q) (t : Thread)
    (started : Nat) (c : Connection) (n : Nat) :
    q.nextLease = p.outline.nextLease ∧
      ((q.handOver t started id c).leave n).outline = p.outline.lend := by
  obtain ⟨x, hx, rfl⟩ := claim.outline hp
  have hfree : x.units.enlisting = .never := (congrArg Outline.enlisting hx).trans h.free
  have hlent : ((x.restate id .checkedIn .checkedOut).handOver t started id c).outline =
      x.outline.lend := outline_claimed hfree t started c
  rw [hx] at hlent
  refine ⟨congrArg Outline.nextLease hx, ?_⟩
  rw [outline_leave (hlent ▸ h.alone), hlent]

theorem quiet_of_plain (h : p.outline.Plain) : p.Quiet := by
  intro a ha
  rw [acquirers_of_plain h] at ha
  exact absurd ha List.not_mem_nil

theorem current_of_plain (h : p.outline.Plain) (t : Thread) : p.units.current t = none := by
  have hfree : p.units.enlisting = .never := h.free
  simp only [Units.current, hfree]

/-- A caller who may not wait gets what is idle, and only that. -/
theorem acquire_alike (hp : p.Settled) (h : p.outline.Plain) (t : Thread) (late : Nat) :
    (((acquire t (p.clock - late)).run p).1, ((acquire t (p.clock - late)).run p).2.outline) =
      p.outline.acquire := by
  simp only [Outline.acquire]
  by_cases hc : p.closed = true
  · rw [acquire_closed hc]
    exact (if_pos hc).symm
  · have ho : p.closed = false := by simpa using hc
    have hu := current_of_plain h t
    have hd : p.clock - late ≤ p.clock := Nat.sub_le _ _
    have hdraw : Step none p { p with nextTaker := p.nextTaker + 1 } := .draw
    have hready : Settled { p.notify .beforeAcquire with nextTaker := p.nextTaker + 1 } :=
      hp.steps (hdraw.steps.hush rfl)
    have hreached := reached_acquire hp ho hu hd
    -- nobody waits, so that nothing idle is promised to anyone
    have hiff := hreached.granted_iff (quiet_of_plain h)
    rw [← idle_pos_iff hp.sound] at hiff
    rw [if_neg (show ¬ p.outline.closed = true from hc)]
    rcases search_claims none hready.sound t p.clock p.handles.length with
      ⟨q, hs, hl, -⟩ | ⟨id, m, q, c, hs, hl, hclaim, -⟩
    · have hrun := (acquire_turn ho hu (p.clock - late)).trans
        (turn_none (a := p.newcomer t p.clock (p.clock - late)) hs)
      have hnone : ¬ 0 < p.outline.idle := by
        rw [← hiff, hrun]
        rintro ⟨n, hn⟩
        exact linger_reply _ _ n hn
      have hreply := hreached.timed_out fun k hk hidle =>
        hnone ((idle_pos_iff hp.sound).mpr ⟨k, hk, hidle⟩)
      have hq : q.outline = p.outline := hl.outline
      have hopen : q.closed = false := (congrArg Outline.closed hq).trans ho
      have hclock : q.clock = p.clock := hl.same ▸ rfl
      have hend := outline_linger (hq ▸ h.alone) hopen
        (a := p.newcomer t p.clock (p.clock - late)) rfl (hclock ▸ hd)
      rw [hq, ← hrun] at hend
      rw [waiters_of_plain hp.sound.lineup h] at hreply
      rw [if_neg hnone]
      exact Prod.ext hreply hend
    · obtain ⟨r, hrun, hr⟩ := turn_found (a := p.newcomer t p.clock (p.clock - late)) hs
      have hgranted := (acquire_turn ho hu (p.clock - late)).trans hrun
      have hpos : 0 < p.outline.idle := by
        rw [← hiff, hgranted]
        exact ⟨_, rfl⟩
      have hm : m.outline = p.outline := hl.outline
      obtain ⟨hlease, hend⟩ :=
        granted_alike (hl.steps.sound hready.sound) (hm.symm ▸ h) hclaim t p.clock c p.nextTaker
      rw [hm] at hlease hend
      rw [if_pos hpos, hgranted, hlease]
      exact Prod.ext rfl ((outline_of_muted hr).trans hend)

theorem outline_destroyNow {h : Handle} (hf : p.find? id = some h) (reason : DestroyReason) :
    ((destroyNow id reason false).run (p.restate id .checkedOut .toDestroy)).2.outline =
      p.outline.lose := by
  have hgone := destroyNow_muted (s := .checkedOut) hf (by decide) reason false
  have hlost : (p.remove { h with state := .checkedOut }).outline = p.outline.lose :=
    outline_remove_active rfl
  exact (outline_of_muted hgone).trans hlost

theorem outline_expel {h : Handle} (hf : p.find? id = some h) (reason : DestroyReason) :
    ((destroyNow id reason false).run (p.restate id .checkedIn .toDestroy)).2.outline =
      p.outline.shed 1 := by
  have hgone := destroyNow_muted (s := .checkedIn) hf (by decide) reason false
  have hshed : (p.remove { h with state := .checkedIn }).outline = p.outline.shed 1 :=
    outline_remove_idle rfl
  exact (outline_of_muted hgone).trans hshed

theorem outline_return (hp : p.Lineup) {h : Handle} (hf : p.find? id = some h) (t : Thread)
    (since : Nat) :
    ((finishReturn t id p.returnState since).run
      (((p.clearOwner id).touch id).restate id .checkedOut p.returnState)).2.outline =
      if p.closed then p.outline.lose else p.outline.takeBack := by
  simp only [returnState]
  split
  · simp only [finishReturn, if_true]
    exact outline_destroyNow (find_home hf) .shutdown
  · next hc =>
    have ho : p.closed = false := by simpa using hc
    have hback : ((finishReturn t id .checkedIn since).run
        (((p.clearOwner id).touch id).restate id .checkedOut .checkedIn)).2.muted =
        (p.comeBack t id).muted :=
      finishReturn_muted (p := ((p.clearOwner id).touch id).restate id .checkedOut .checkedIn)
        hp.numbered (hp.isClosed_eq.trans ho) t since
    exact (outline_of_muted hback).trans (outline_comeBack t)

theorem outline_giveBack (hp : p.Lineup) (hs : p.stateOf? id = some .checkedOut) (t : Thread)
    (since : Nat) :
    ((giveBack t id since).run p).2.outline =
      if p.closed then p.outline.lose else p.outline.takeBack := by
  obtain ⟨h, hf, -⟩ := find_of_stateOf hs
  rw [giveBack_run hs]
  exact outline_return hp hf t since

theorem outline_retire {h : Handle} (hf : p.find? id = some h) (hs : h.state = .checkedOut)
    (reason : DestroyReason) :
    ((retire id reason).run p).2.outline = p.outline.lose.fill := by
  have hapart : ((p.disassociate id).clearOwner id).outline = p.outline :=
    outline_disassociate (p := p)
  rw [retire_run hf hs]
  simp only [destroy, Act.run_bind, Act.run_update]
  rw [outline_topUp, outline_destroyNow (find_retire hf) reason, hapart]

/-- A lease has ended, and its handle goes with it. -/
theorem retire_alike {n : Nat} (hq : q.outline = p.outline.drop n) {h : Handle}
    (hf : q.find? id = some h) (hs : h.state = .checkedOut) (reason : DestroyReason) :
    ((retire id reason).run q).2.outline = (p.outline.drop n).lose.fill := by
  rw [outline_retire hf hs, hq]

theorem release_alike (hp : p.Sound) (h : p.outline.Plain) (t : Thread) (n : Nat) :
    ((release t n).run p).2.outline = p.outline.release n := by
  simp only [release, Outline.release, ← lease_isSome, Act.run_bind, Act.run_apply]
  rcases endLease_cases hp.books.fitting n with hnone | ⟨l, hmem, k, rfl, hfirst, hf, hs⟩
  · have hno : p.lease? n = none := congrArg Prod.fst hnone
    rw [hnone, hno]
    rfl
  · have hout : p.lease? l.number = some l := hfirst
    have hgive : Step none p ((p.endLease l.number).2.restore l.handle l.connection) := .giveUp hmem
    have hloose : l.enlisted = false := by
      have hshown : (l.number, l.enlisted) ∈ p.outline.held :=
        List.mem_map_of_mem (f := fun l : Lease => (l.number, l.enlisted)) hmem
      exact h.loose _ hshown
    have hback : ((p.endLease l.number).2.restore l.handle l.connection).stateOf? l.handle =
        some .checkedOut := by
      rw [stateOf_of_find (find_restore hf)]
      exact congrArg some hs
    have hended : ((p.endLease l.number).2.restore l.handle l.connection).outline =
        p.outline.drop l.number := outline_endLease (p := p) l.number
    simp only [hfirst, hout, hloose, Act.run_bind, Act.run_update, Bool.not_false, if_true,
      Option.isSome_some]
    rw [outline_giveBack (hgive.sound hp).lineup hback, hended]
    rfl

theorem invalidate_alike (hp : p.Sound) (n : Nat) :
    ((invalidate n).run p).2.outline = p.outline.retire n := by
  simp only [invalidate, Outline.retire, ← lease_isSome, Act.run_bind, Act.run_apply]
  rcases endLease_cases hp.books.fitting n with hnone | ⟨l, -, k, rfl, hfirst, hf, hs⟩
  · have hno : p.lease? n = none := congrArg Prod.fst hnone
    rw [hnone, hno]
    rfl
  · have hout : p.lease? l.number = some l := hfirst
    simp only [hfirst, hout, Act.run_bind, Act.run_update, Option.isSome_some, if_true]
    refine retire_alike (h := { k with slot := some l.connection }) ?_ ?_ hs .invalidated
    · exact outline_endLease (p := p) l.number
    · exact find_restore hf

theorem detach_alike (hp : p.Sound) (n : Nat) :
    ((detach n).run p).1.isSome = (p.lease? n).isSome ∧
      ((detach n).run p).2.outline = p.outline.retire n := by
  simp only [detach, Outline.retire, ← lease_isSome, Act.run_bind, Act.run_apply]
  rcases endLease_cases hp.books.fitting n with hnone | ⟨l, -, k, rfl, hfirst, hf, hs⟩
  · have hno : p.lease? n = none := congrArg Prod.fst hnone
    rw [hnone, hno]
    exact ⟨rfl, rfl⟩
  · have hout : p.lease? l.number = some l := hfirst
    simp only [hfirst, hout, Act.run_bind, Act.run_update, Act.run_pure, Option.isSome_some,
      if_true]
    refine ⟨trivial, retire_alike ?_ ?_ hs .detached⟩
    · exact outline_endLease (p := p) l.number
    · exact hf

theorem setFloor_alike (n : Nat) :
    ((p.setFloor n).1, (p.setFloor n).2.outline) = p.outline.setFloor n := by
  simp only [setFloor, Outline.setFloor]
  by_cases hn : n > p.cap
  · rw [if_pos hn]
    exact (if_pos hn).symm
  · rw [if_neg hn]
    simp only [outline_topUp]
    exact (if_neg hn).symm

/-- A probe that finds its handle good changes nothing that shows. -/
theorem validate_good (hp : p.Settled) (good : ∀ c, (p.factory.probe c).1 = true)
    (hidle : p.stateOf? id = some .checkedIn) (t : Thread) :
    ∃ q, (validate t id).run p = (true, q) ∧ q.outline = p.outline ∧
      ∀ k, q.stateOf? k = p.stateOf? k := by
  obtain ⟨h, hf, hs⟩ := find_of_stateOf hidle
  obtain ⟨hmem, -⟩ := mem_of_find hf
  obtain ⟨c, hc⟩ := slot_of_idle hp.sound.books.fitting hmem hs
  have hslot : ((p.restate id .checkedIn .validation).find? id).bind (·.slot) = some c := by
    rw [find_restate, hf]
    exact hc
  obtain ⟨q, hrun, hq⟩ := probe_run hslot
  have hgood : ((p.restate id .checkedIn .validation).factory.probe c).1 = true := good c
  have hpass := pass_muted hp.sound (open_of_idle hp.final hmem hs) hf hs
    (q := q.notify (.onValidation id true)) ((muted_notify _ _).trans hq) t
  simp only [validate, Act.run_bind, Act.run_apply, transition_of (t := .validation) rfl hidle,
    if_true, Act.run_update, Act.run_pure, hrun, hgood]
  refine ⟨_, rfl, (outline_of_muted hpass).trans (outline_modifyHandle _), fun k => ?_⟩
  have hstate := eq_of_muted (fun r : Pool => r.stateOf? k) (fun _ => rfl) hpass
  exact hstate.trans (stateOf_modifyHandle p id
    (fun h => { h with slot := some (p.factory.probe c).2 }) (fun _ => ⟨rfl, rfl⟩) k)

theorem validateAll_good (hp : p.Settled) (good : ∀ c, (p.factory.probe c).1 = true) (t : Thread)
    {ids : List HandleId} (hids : ∀ id ∈ ids, p.stateOf? id = some .checkedIn) :
    ∃ q, (executeAll t .validation ids).run p = (ids.length, q) ∧ q.outline = p.outline := by
  induction ids generalizing p with
  | nil => exact ⟨p, rfl, rfl⟩
  | cons id ids ih =>
    obtain ⟨hid, hrest⟩ := List.forall_mem_cons.mp hids
    obtain ⟨m, hrun, hm, hstates⟩ := validate_good hp good hid t
    have hsteps : Steps none p ((validate t id).run p).2 := steps_validate hp.sound hp.final t id
    rw [hrun] at hsteps
    have hfactory : m.factory = p.factory := congrArg Outline.factory hm
    obtain ⟨q, hall, hq⟩ := ih (hp.steps hsteps) (hfactory ▸ good) fun k hk =>
      (hstates k).trans (hrest k hk)
    refine ⟨q, ?_, hq.trans hm⟩
    simp only [executeAll, execute, Act.run_bind, hrun, hall, Act.run_pure]
    rfl

theorem validate_alike (hp : p.Settled) (h : p.outline.Plain) (t : Thread) :
    (((sweep t .validation).run p).1, ((sweep t .validation).run p).2.outline) =
      p.outline.validate := by
  simp only [Outline.validate]
  by_cases hc : p.closed = true
  · rw [sweep_closed hc]
    exact (if_pos hc).symm
  · have hplan : ∀ id ∈ p.plan .validation, p.stateOf? id = some .checkedIn := by
      intro id hid
      obtain ⟨k, hk, rfl⟩ := List.mem_map.mp hid
      obtain ⟨hmem, hs⟩ := List.mem_filter.mp hk
      rw [stateOf_of_find (find_of_mem hp.sound.books.fitting hmem)]
      exact congrArg some (of_decide_eq_true hs)
    have hcount : (p.plan .validation).length = p.outline.idle := by
      rw [outline_idle hp.sound, List.countP_eq_length_filter]
      exact List.length_map _
    have hfilled : Sweep.validation ≠ .leak := by decide
    obtain ⟨q, hrun, hq⟩ := validateAll_good hp h.good t hplan
    simp only [sweep, Act.run_bind, Act.run_read, hc, Bool.false_eq_true, if_false, hrun,
      if_pos hfilled, Act.run_update, Act.run_pure, hcount]
    rw [outline_topUp, hq]
    exact (if_neg hc).symm

/-- Of the handles that are to go each takes one from the idle ones, or was not idle. -/
theorem outline_destroyIdle (hp : p.Sound) (ids : List HandleId) :
    ∃ n ≤ p.outline.idle, ((destroyIdle ids).run p).2.outline = p.outline.shed n := by
  induction ids generalizing p with
  | nil => exact ⟨0, Nat.zero_le _, rfl⟩
  | cons id ids ih =>
    simp only [destroyIdle, Act.run_bind, Act.run_apply, Act.run_ite]
    by_cases hidle : p.stateOf? id = some .checkedIn
    · obtain ⟨h, hf, hs⟩ := find_of_stateOf hidle
      obtain ⟨hmem, -⟩ := mem_of_find hf
      obtain ⟨c, hc⟩ := slot_of_idle hp.books.fitting hmem hs
      have hsteps : Steps none p ((destroyNow id .shutdown false).run
          (p.restate id .checkedIn .toDestroy)).2 :=
        steps_destroyNow .shutdown hf hc hf hs (by decide) rfl
      have hone := outline_expel hf .shutdown
      have hpos := (idle_pos_iff hp).mpr ⟨h, hmem, hs⟩
      obtain ⟨n, hn, hrest⟩ := ih (hsteps.sound hp)
      rw [hone] at hn hrest
      have hless : n ≤ p.outline.idle - 1 := hn
      rw [transition_of rfl hidle]
      refine ⟨n + 1, by omega, ?_⟩
      simp only [if_true, hrest, Outline.shed, Nat.sub_sub, Nat.add_comm 1, Nat.add_assoc]
    · rw [transition_of_ne hidle]
      exact ih hp

theorem close_alike (hp : p.Settled) : (close.run p).2.outline = p.outline.close := by
  simp only [Outline.close]
  by_cases hc : p.closed = true
  · rw [close_again hc]
    exact (if_pos hc).symm
  · have ho : p.closed = false := by simpa using hc
    have hfinal := close_final hp.sound ho
    have hnow : (close.run p).2.Settled := hp.run .close
    obtain ⟨n, hn, hend⟩ : ∃ n ≤ p.outline.idle, (close.run p).2.outline =
        Outline.shed { p.outline with closed := true } n := by
      generalize hm :
        closeHandoff (({ p with closed := true } : Pool).log .info "Closing pool" []) = m
      have hshut : m.muted = p.shut.muted := by
        rw [← hm, muted_closeHandoff, muted_log, ← muted_closeHandoff]
        rfl
      have hsteps : Steps none p.shut m := .of_muted hshut
      have hlook : m.outline = { p.outline with closed := true } :=
        (outline_of_muted hshut).trans (outline_shut hp.sound.lineup)
      have hended := outline_destroyIdle (hsteps.sound (shut_sound hp.sound)) (m.handles.map (·.id))
      rw [hlook] at hended
      simp only [close, Act.run_bind, Act.run_read, ho, Bool.false_eq_true, if_false,
        Act.run_update, hm]
      exact hended
    -- nothing is idle in the end, so that all of it was among those that went
    have hall : p.outline.idle ≤ n := by
      have hnone : ¬ 0 < (close.run p).2.outline.idle := by
        rw [idle_pos_iff hnow.sound]
        rintro ⟨h, hh, hs⟩
        exact hfinal (congrArg Outline.closed hend) h hh hs
      rw [hend] at hnone
      have hleft : ¬ 0 < p.outline.idle - n := hnone
      omega
    rw [hend, Nat.le_antisymm hn hall]
    exact (if_neg hc).symm

theorem outline_overtake (n : Nat) : (p.overtake n).outline = p.outline := by
  obtain ⟨cs, hsame, heq⟩ := p.overtake_eq n
  rw [heq]
  simp only [outline, hsame.length_eq]
  rfl

theorem create_alike (hp : p.Sound) : (create.run p).2.outline = p.outline.create := by
  have hlet := create_letThrough hp
  generalize (create.run p).2 = q at hlet ⊢
  simp only [Outline.create]
  cases hlet with
  | idle empty => exact (if_pos (congrArg List.length empty)).symm
  | @miscarried c cs e _ first failed same =>
    have hsome : p.outline.inFlight = cs.length + 1 := congrArg List.length first
    have hmade : p.outline.factory.create (p.outline.attempts + 1) = .error e := failed
    rw [if_neg (by omega), hmade]
    exact (outline_of_muted same).trans (outline_miscarry c e)
  | @born c cs x _ first made same =>
    have hsome : p.outline.inFlight = cs.length + 1 := congrArg List.length first
    have hmade : p.outline.factory.create (p.outline.attempts + 1) = .ok x := made
    rw [if_neg (by omega), hmade]
    exact (outline_of_muted same).trans (outline_birth c x)

/-- Whatever is done to a pool, its outline tells how it answers and what becomes of the outline. -/
theorem step_alike (hp : p.Settled) (h : p.outline.Plain) (a : Action) :
    (a.outcome p, (a.run p).outline) = p.outline.step a := by
  cases a with
  | acquire t late =>
    have hsame := acquire_alike hp h t late
    exact congrArg (fun r : Reply × Outline => (Outcome.replied r.1, r.2)) hsame
  | release t n =>
    exact Prod.ext (congrArg Outcome.ended (lease_isSome n)) (release_alike hp.sound h t n)
  | invalidate n =>
    exact Prod.ext (congrArg Outcome.ended (lease_isSome n)) (invalidate_alike hp.sound n)
  | detach n =>
    obtain ⟨hheld, hend⟩ := detach_alike hp.sound n
    exact Prod.ext (congrArg Outcome.ended (hheld.trans (lease_isSome n))) hend
  | setFloor n =>
    have hsame := setFloor_alike (p := p) n
    exact congrArg (fun r : Except Failure Unit × Outline => (Outcome.ruled r.1, r.2)) hsame
  | validate t =>
    have hsame := validate_alike hp h t
    exact congrArg (fun r : Nat × Outline => (Outcome.probed r.1, r.2)) hsame
  | close => exact Prod.ext rfl (close_alike hp)
  | create n =>
    have hfirst : (Operation.overtake n).run p = p.overtake n := rfl
    have hsound := (hp.run (.overtake n)).sound
    rw [hfirst] at hsound
    have hend := create_alike hsound
    rw [outline_overtake] at hend
    exact Prod.ext rfl hend

theorem Settled.act (hp : p.Settled) (a : Action) : (a.run p).Settled := hp.after _

/-- Pools of one outline cannot be told apart. -/
theorem record_alike (hp : p.Settled) (h : p.outline.Plain) (as : List Action) :
    p.record as = p.outline.record as := by
  induction as generalizing p with
  | nil => rfl
  | cons a as ih =>
    have hstep := step_alike hp h a
    have hoi : a.outcome p = (p.outline.step a).1 := congrArg Prod.fst hstep
    have hend : (a.run p).outline = (p.outline.step a).2 := congrArg Prod.snd hstep
    have hnext : (a.run p).outline.Plain := hend ▸ h.step a
    simp only [record, Outline.record, hoi, ← hend, outline_stats (hp.act a).sound.lineup hnext,
      ih (hp.act a) hnext]

theorem outline_start :
    p.start.outline = (p.fillTo p.config.prefillTarget.toNat).outline := by
  have hnamed := foldl_log_muted (Sweep.all.filter fun s => (p.config.period s).isZero) p
  have hconfig := eq_of_muted Pool.config (fun _ => rfl) hnamed
  simp only [start]
  rw [outline_of_muted (muted_log _ _ _ _), outline_fillTo, outline_fillTo, outline_of_muted hnamed,
    hconfig]

/-- A pool looks the same at first whatever its strategy, and whether or not its threads remember
what they gave back. -/
theorem build_alike {c : Config} {f : Factory} {ls : List Listener} {us : Units}
    (hb : build c f ls us = .ok (some p)) (s : Strategy) (b : Bool) :
    ∃ q, build { c with strategy := s, threadAffinity := b } f ls us = .ok (some q) ∧
      q.outline = p.outline := by
  obtain ⟨haccepted, hname, bus, hopen, rfl⟩ := build_iff.mp hb
  refine ⟨_, build_iff.mpr ⟨haccepted, hname, bus, hopen, rfl⟩, ?_⟩
  rw [outline_start, outline_start, outline_fillTo, outline_fillTo]
  rfl

theorem plain_of_build {c : Config} {f : Factory} {ls : List Listener} {us : Units}
    (hb : build c f ls us = .ok (some p)) (free : us.enlisting = .never)
    (good : ∀ x, (f.probe x).1 = true) : p.outline.Plain := by
  obtain ⟨-, -, bus, -, rfl⟩ := build_iff.mp hb
  rw [outline_start, outline_fillTo]
  split
  · exact ⟨rfl, free, nofun, good⟩
  · exact ⟨rfl, free, nofun, good⟩

/-- What a caller who does not wait can see of a pool depends neither on the strategy of its handoff
nor on the lists of its threads: over any script all variants answer alike, and report the same
numbers after every action. -/
theorem variants_alike {c : Config} {f : Factory} {ls : List Listener} {us : Units}
    (hb : build c f ls us = .ok (some p)) (free : us.enlisting = .never)
    (good : ∀ x, (f.probe x).1 = true) (s : Strategy) (b : Bool) :
    ∃ q, build { c with strategy := s, threadAffinity := b } f ls us = .ok (some q) ∧
      q.stats = p.stats ∧ ∀ script, q.record script = p.record script := by
  obtain ⟨q, hq, hsame⟩ := build_alike hb s b
  have hp := (fresh_of_build hb).settled
  have hs := (fresh_of_build hq).settled
  have hplain := plain_of_build hb free good
  have hqplain := plain_of_build hq free good
  refine ⟨q, hq, ?_, fun script => ?_⟩
  · rw [← outline_stats hs.sound.lineup hqplain, ← outline_stats hp.sound.lineup hplain, hsame]
  · rw [record_alike hs hqplain, record_alike hp hplain, hsame]

/-- A queue without lists of threads does as a bag with them: its first connection is lent and comes
back. -/
theorem queue_like_bag :
    ∃ p, build {} {} [] {} = .ok (some p) ∧
      ((p.record [.create 0, .acquire .background 0, .release .background 0]).map
        fun r => (r.2.idle, r.2.active)) = [(1, 0), (0, 1), (1, 0)] ∧
      ∃ q, build { strategy := .fifo, threadAffinity := false } {} [] {} = .ok (some q) ∧
        q.stats = p.stats ∧ ∀ script, q.record script = p.record script :=
  ⟨_, rfl, rfl, @variants_alike _ {} {} [] {} rfl rfl (fun _ => rfl) .fifo false⟩

end Pool
end ConnPool
