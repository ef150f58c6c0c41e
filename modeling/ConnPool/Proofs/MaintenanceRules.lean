import ConnPool.Proofs.Operation
import ConnPool.Proofs.HeldRuns

namespace ConnPool

/-- A handle in this state has its connection in its slot. -/
def State.isHome : State → Bool
  | new | checkedIn | validation => true
  | _ => false

/-- The text of a warning. -/
def Hook.warning? : Hook → Option String
  | onWarning message => some message
  | _ => none

/-- A handle that is changed in nothing by which it is found or taken, and keeps its connection. -/
structure Handle.Spared (h k : Handle) : Prop where
  id : k.id = h.id
  state : k.state = h.state
  cachedBy : k.cachedBy = h.cachedBy
  slot : h.slot.isSome = true → k.slot.isSome = true

namespace Pool

/-- Who waits for a pool, what is created on whose behalf, what it was told to be like, and who
listens. -/
def desk (p : Pool) :
    List Creation × List Acquirer × Nat × Config × Nat × Nat × Bool × List Listener :=
  (p.inFlight, p.acquirers, p.nextTaker, p.config, p.floor, p.patience, p.closed, p.listeners)

/-- The desk and the handles, with all that handles are found, taken and lent by. -/
def core (p : Pool) :
    (List Creation × List Acquirer × Nat × Config × Nat × Nat × Bool × List Listener) ×
    List Handle × Handoff HandleId × Recents × Units × List Lease × Nat × Nat :=
  (p.desk, p.handles, p.handoff, p.recents, p.units, p.leases, p.nextHandle, p.cacheOwner)

/-- A rule that lets others be told, waiters be woken, creations be scheduled for the pool's own
needs, and the pool be closed. -/
class OutwardRule (I : Pool → Prop) (R : Pool → Pool → Prop) : Prop extends Act.Rule I R where
  note : ∀ (p : Pool) (n : Note), (∀ label h, n ≠ .hook label h) → R p (p.note n)
  notify : ∀ (p : Pool) (h : Hook), h.warning? = none → h ≠ .beforeAcquire → R p (p.notify h)
  schedule : ∀ p : Pool, R p (p.schedule none)
  rouse : ∀ (p : Pool) (f : Acquirer → Acquirer),
    (∀ a, (f a).taker = a.taker ∧ (f a).ticket = a.ticket) →
    R p { p with acquirers := p.acquirers.map f }
  shut : ∀ p : Pool, R p { p with closed := true }

/-- A rule that also lets idle handles be offered and anything but an active handle be ended. What
is known of a handle that is being ended holds for as long as the invariant does. -/
class MaintenanceRule (I : Pool → Prop) (R : Pool → Pool → Prop) :
    Prop extends OutwardRule I R where
  aside : ∀ {p q : Pool}, q.core = p.core → q.journal = p.journal → R p q
  empty : ∀ p : Pool, R p { p with handoff := p.handoff.close.2.2 }
  modify : ∀ (p : Pool) (id : HandleId) (f : Handle → Handle), (∀ h : Handle, h.Spared (f h)) →
    R p (p.modifyHandle id f)
  offer : ∀ (p : Pool) (t : Thread) (id : HandleId), I p → R p (p.offer t id).2
  condemn : ∀ (p : Pool) (id : HandleId) (s : State), I p → s ≠ .checkedOut →
    R p (p.transition id s .toDestroy).2
  emptySlot : ∀ (p : Pool) (id : HandleId), I p → p.stateOf? id = some .toDestroy →
    R p (p.emptySlot id)
  strike : ∀ (p : Pool) (id : HandleId), I p → p.stateOf? id = some .toDestroy →
    ∀ (q : Pool) (reserved : Bool), I q → R q (q.strike id reserved)

/-- A rule that also lets handles come, and move about at home. -/
class GrowthRule (I : Pool → Prop) (R : Pool → Pool → Prop) : Prop extends MaintenanceRule I R where
  enroll : ∀ (p : Pool) (c : Connection), R p (p.enroll c)
  move : ∀ (p : Pool) (id : HandleId) (s t : State), I p → s.isHome = true → t.isHome = true →
    R p (p.transition id s t).2

/-- A rule that also lets creations end, whoever they were for. -/
class CreationRule (I : Pool → Prop) (R : Pool → Pool → Prop) : Prop extends GrowthRule I R where
  tell : ∀ (p : Pool) (acquirer : Nat) (e : Option String), R p (p.tellAcquirer acquirer e)
  flight : ∀ (p : Pool) (cs : List Creation), R p { p with inFlight := cs }
  warn : ∀ (p : Pool) (message : String), R p (p.notify (.onWarning message))

/-- A rule that also lets the settings be changed. -/
class SettingRule (I : Pool → Prop) (R : Pool → Pool → Prop) :
    Prop extends MaintenanceRule I R where
  floor : ∀ (p : Pool) (n : Nat), R p { p with floor := n }
  patience : ∀ (p : Pool) (n : Nat), R p { p with patience := n }

variable {I : Pool → Prop} {R S : Pool → Pool → Prop} {α : Type} {m n : PoolAct α} {p q : Pool}
  {id : HandleId}

namespace MaintenanceRule

/-- What the stricter rule lets pass passes under the looser one. -/
theorem mono [MaintenanceRule I R] [Act.Rule I S] (h : ∀ p q, R p q → S p q) :
    MaintenanceRule I S where
  aside hc hj := h _ _ (aside I hc hj)
  note p n hn := h _ _ (OutwardRule.note I p n hn)
  notify p k hw hb := h _ _ (OutwardRule.notify I p k hw hb)
  schedule p := h _ _ (OutwardRule.schedule I p)
  rouse p f hf := h _ _ (OutwardRule.rouse I p f hf)
  shut p := h _ _ (OutwardRule.shut I p)
  empty p := h _ _ (empty I p)
  modify p id f hf := h _ _ (modify I p id f hf)
  offer p t id hp := h _ _ (offer p t id hp)
  condemn p id s hp hs := h _ _ (condemn p id s hp hs)
  emptySlot p id hp hs := h _ _ (emptySlot p id hp hs)
  strike p id hp hs q reserved hq := h _ _ (strike p id hp hs q reserved hq)

variable (I) [MaintenanceRule I R] (p : Pool)

include I

theorem log (level : Level) (message : String) (fields : List (String × Field)) :
    R p (p.log level message fields) :=
  OutwardRule.note I p _ fun _ _ => Note.noConfusion

theorem surrender (c : Connection) : R p (p.surrender c) := by
  simp only [Pool.surrender]
  split
  · exact aside I rfl rfl
  · have hnoted : R p (p.note (.close c)) := OutwardRule.note I p _ fun _ _ => Note.noConfusion
    exact Act.Rule.trans I hnoted (aside I rfl rfl)

theorem logCloseError (id : HandleId) (e : Option String) : R p (p.logCloseError id e) := by
  cases e with
  | none => exact Act.Rule.refl I p
  | some e => exact log I p _ _ _

theorem touch (id : HandleId) : R p (p.touch id) := by
  have hstamped : R p (p.modifyHandle id fun h => { h with lastAccess := p.clock }) :=
    modify I p id _ fun _ => ⟨rfl, rfl, rfl, fun hs => hs⟩
  exact Act.Rule.trans I hstamped (aside I rfl rfl)

theorem clearOwner (id : HandleId) : R p (p.clearOwner id) :=
  modify I p id _ fun _ => ⟨rfl, rfl, rfl, fun hs => hs⟩

theorem unqueue (id : HandleId) : R p (p.unqueue id) := by
  have hcleared : R p (p.modifyHandle id fun h => { h with queued := false }) :=
    modify I p id _ fun _ => ⟨rfl, rfl, rfl, fun hs => hs⟩
  exact Act.Rule.trans I hcleared (aside I rfl rfl)

theorem fillTo (target : Nat) : R p (p.fillTo target) := by
  have hrepeat : ∀ n : Nat, R p (n.repeat (Pool.schedule none) p) := by
    intro n
    induction n with
    | zero => exact Act.Rule.refl I p
    | succ n ih => exact Act.Rule.trans I ih (OutwardRule.schedule I _)
  simp only [Pool.fillTo]
  split
  · exact Act.Rule.refl I p
  · exact hrepeat _

theorem topUp : R p p.topUp := fillTo I p p.floor

theorem start : R p p.start := by
  have hnamed : ∀ (ws : List Sweep) (p : Pool),
      R p (ws.foldl (fun p s => p.log .debug "Sweep disabled" [("sweep", .text s.name)]) p) := by
    intro ws
    induction ws with
    | nil => exact fun p => Act.Rule.refl I p
    | cons w ws ih => exact fun p => Act.Rule.trans I (log I p _ _ _) (ih _)
  exact Act.Rule.trans I (Act.Rule.trans I (hnamed _ p) (fillTo I _ _)) (log I _ _ _ _)

theorem dismiss (takers : List Taker) : R p (p.dismiss takers) := by
  refine OutwardRule.rouse I p _ fun a => ?_
  split <;> exact ⟨rfl, rfl⟩

theorem closeHandoff : R p p.closeHandoff := by
  have hmarks : ∀ (ids : List HandleId) (p : Pool), R p (ids.foldl Pool.unqueue p) ∧
      (ids.foldl Pool.unqueue p).handoff = p.handoff := by
    intro ids
    induction ids with
    | nil => exact fun p => ⟨Act.Rule.refl I p, rfl⟩
    | cons id ids ih =>
      intro p
      obtain ⟨hrest, hsame⟩ := ih (p.unqueue id)
      exact ⟨Act.Rule.trans I (unqueue I p id) hrest, hsame⟩
  obtain ⟨hmarked, hkept⟩ := hmarks p.handoff.close.1 p
  have hemptied := Act.Rule.trans I hmarked (empty I _)
  rw [hkept] at hemptied
  exact Act.Rule.trans I hemptied (dismiss I _ _)

end MaintenanceRule

section

variable [MaintenanceRule I R]

/-- Where a handle stands after it was moved to its end. -/
theorem stateOf_condemned {s : State} (h : (p.transition id s .toDestroy).1 = true) :
    (p.transition id s .toDestroy).2.stateOf? id = some .toDestroy := by
  rcases transition_cases p id s .toDestroy with hlost | ⟨-, hin, hwon⟩
  · rw [hlost] at h
    cases h
  · rw [hwon]
    exact stateOf_restate hin .toDestroy

/-- Whoever moves a handle to its end goes on with it there. -/
theorem end_keeps {s : State} (hmove : ∀ p, I p → R p (p.transition id s .toDestroy).2)
    (hm : ∀ p, I p → p.stateOf? id = some .toDestroy → m.Abides I R (fun _ => I) p)
    (hn : Act.Keeps I R n) :
    Act.Keeps I R
      (Act.apply (·.transition id s .toDestroy) >>= fun moved => if moved then m else n) := by
  intro p hp
  have hkept : I (p.transition id s .toDestroy).2 := Act.Rule.keeps (hmove p hp) hp
  refine .apply_bind (hmove p hp) ?_
  split
  · next hwon => exact hm _ hkept (stateOf_condemned hwon)
  · exact hn _ hkept

theorem condemn_keeps {s : State} (hs : s ≠ .checkedOut)
    (hm : ∀ p, I p → p.stateOf? id = some .toDestroy → m.Abides I R (fun _ => I) p)
    (hn : Act.Keeps I R n) :
    Act.Keeps I R
      (Act.apply (·.transition id s .toDestroy) >>= fun moved => if moved then m else n) :=
  end_keeps (fun p hp => MaintenanceRule.condemn p id s hp hs) hm hn

theorem aside_keeps {f : Pool → Pool} (hf : ∀ p, (f p).core = p.core ∧ (f p).journal = p.journal) :
    Act.Keeps I R (Act.update f : PoolAct Unit) :=
  .update fun p _ => MaintenanceRule.aside I (hf p).1 (hf p).2

theorem log_keeps (level : Level) (message : String) (fields : List (String × Field)) :
    Act.Keeps I R (Act.update (·.log level message fields) : PoolAct Unit) :=
  .update fun p _ => MaintenanceRule.log I p level message fields

theorem notify_keeps {h : Hook} (hw : h.warning? = none) (hb : h ≠ .beforeAcquire) :
    Act.Keeps I R (Act.update (·.notify h) : PoolAct Unit) :=
  .update fun p _ => OutwardRule.notify I p h hw hb

theorem topUp_keeps : Act.Keeps I R (Act.update topUp : PoolAct Unit) :=
  .update fun p _ => MaintenanceRule.topUp I p

theorem closeConnection_keeps (c : Connection) : Act.Keeps I R (closeConnection c) := by
  refine .bind (.update fun p _ => MaintenanceRule.surrender I p c)
    fun _ => .read fun p => .ite ?_ ?_
  · exact .bind (.mark _) fun _ => .read fun _ => .pure _
  · exact .read fun _ => .pure _

theorem closeSlot_abides (hp : I p) (hs : p.stateOf? id = some .toDestroy) :
    (closeSlot id).Abides I R (fun _ => I) p := by
  refine .read_bind ?_
  split
  · next c _ =>
    have hempty : R p (p.emptySlot id) := MaintenanceRule.emptySlot p id hp hs
    refine .update_bind hempty ((closeConnection_keeps c _ (Act.Rule.keeps hempty hp)).bind
      fun e q hq => ?_)
    exact Act.Keeps.bind (.update fun p _ => MaintenanceRule.logCloseError I p id e)
      (fun _ => notify_keeps rfl Hook.noConfusion) q hq
  · exact hp

theorem destroyNow_abides (reason : DestroyReason) (reserved : Bool) (hp : I p)
    (hs : p.stateOf? id = some .toDestroy) :
    (destroyNow id reason reserved).Abides I R (fun _ => I) p := by
  refine (closeSlot_abides hp hs).bind fun _ q hq => ?_
  have hstruck : Act.Keeps I R (Act.update (·.strike id reserved) : PoolAct Unit) :=
    .update fun q hq => MaintenanceRule.strike p id hp hs q reserved hq
  have htold : Act.Keeps I R
    (Act.update fun p : Pool => p.emit (.destroyed p.name id reason) : PoolAct Unit) :=
    aside_keeps fun _ => ⟨rfl, rfl⟩
  exact Act.Keeps.bind hstruck (fun _ => .bind (log_keeps _ _ _) fun _ => htold) q hq

theorem destroy_abides (reason : DestroyReason) (hp : I p) (hs : p.stateOf? id = some .toDestroy) :
    (destroy id reason).Abides I R (fun _ => I) p :=
  (destroyNow_abides reason false hp hs).bind fun _ => topUp_keeps

theorem publish_keeps (t : Thread) (id : HandleId) : Act.Keeps I R (publish t id) := by
  refine .read fun p => .ite (.pure _) ?_
  refine .bind
    (.update fun p _ => MaintenanceRule.modify I p id _ fun _ => ⟨rfl, rfl, rfl, fun hs => hs⟩)
    fun _ => ?_
  refine .bind (.apply fun p hp => MaintenanceRule.offer p t id hp) fun _ => .ite (.pure _) ?_
  refine .bind (.update fun p _ => MaintenanceRule.unqueue I p id) fun _ => ?_
  exact condemn_keeps State.noConfusion (fun p hp hs => destroyNow_abides _ _ hp hs) (.pure _)

theorem reportLeak_keeps (id : HandleId) : Act.Keeps I R (reportLeak id) := by
  refine .apply fun p _ => ?_
  split
  · exact Act.Rule.refl I p
  · split
    · have hcounted : R p (p.count fun n => { n with leaksSuspected := n.leaksSuspected + 1 }) :=
        MaintenanceRule.aside I rfl rfl
      have hlogged :=
        Act.Rule.trans I hcounted (MaintenanceRule.log I _ .warn "Connection leak suspected"
        [("handle", .shown id.label)])
      have htold : ∀ (m : Pool) (t : Option Thread), R m (m.notify (.onLeak id t)) := fun m t =>
        OutwardRule.notify I m _ rfl Hook.noConfusion
      exact Act.Rule.trans I (Act.Rule.trans I hlogged (htold _ _))
        (MaintenanceRule.aside I rfl rfl)
    · exact Act.Rule.refl I p

/-- A stale handle that was claimed is at its end. -/
theorem claimStale_rule (id : HandleId) (hp : I p) : R p (p.claimStale id).2 ∧
    ((p.claimStale id).1 = true → (p.claimStale id).2.stateOf? id = some .toDestroy) := by
  have hdown : R p { p with size := p.size.down } := MaintenanceRule.aside I rfl rfl
  have hmoved := MaintenanceRule.condemn (R := R) { p with size := p.size.down } id .checkedIn
    (Act.Rule.keeps hdown hp) State.noConfusion
  have hend (h : (Pool.transition { p with size := p.size.down } id .checkedIn .toDestroy).1) :
      (Pool.transition { p with size := p.size.down } id .checkedIn .toDestroy).2.stateOf? id =
        some .toDestroy := stateOf_condemned h
  have hsame : R p p := Act.Rule.refl I p
  simp only [claimStale]
  split
  · exact ⟨hsame, fun h => absurd h Bool.false_ne_true⟩
  · split
    · exact ⟨hsame, fun h => absurd h Bool.false_ne_true⟩
    · split
      · next heq =>
        rw [heq] at hmoved hend
        exact ⟨Act.Rule.trans I hdown hmoved, hend⟩
      · next heq =>
        rw [heq] at hmoved
        refine ⟨Act.Rule.trans I (Act.Rule.trans I hdown hmoved) (MaintenanceRule.aside I rfl rfl),
          fun h => ?_⟩
        exact absurd h Bool.false_ne_true

theorem reap_keeps (id : HandleId) : Act.Keeps I R (reap id) := by
  intro p hp
  obtain ⟨hclaim, hend⟩ := claimStale_rule (R := R) id hp
  have hkept := Act.Rule.keeps hclaim hp
  refine .apply_bind hclaim ?_
  split
  · next hclaimed =>
    have hcounted : R (p.claimStale id).2
      ((p.claimStale id).2.count fun n => { n with reaped := n.reaped + 1 }) :=
      MaintenanceRule.aside I rfl rfl
    have htold := OutwardRule.notify (R := R) I ((p.claimStale id).2.count fun n =>
      { n with reaped := n.reaped + 1 }) (.onTimeout id) rfl Hook.noConfusion
    refine .update_bind hcounted (.update_bind htold ?_)
    exact (destroyNow_abides _ true (Act.Rule.keeps htold (Act.Rule.keeps hcounted hkept))
      (hend hclaimed)).bind
      fun _ _ hq => hq
  · exact hkept

theorem close_keeps : Act.Keeps I R close := by
  have hdestroy : ∀ ids, Act.Keeps I R (destroyIdle ids) := by
    intro ids
    induction ids with
    | nil => exact .pure _
    | cons id ids ih =>
      exact condemn_keeps State.noConfusion
        (fun p hp hs => (destroyNow_abides _ _ hp hs).bind fun _ => ih) ih
  have hclosing :
    ∀ p : Pool, R p (({ p with closed := true } : Pool).log .info "Closing pool" []) :=
    fun p => Act.Rule.trans I (OutwardRule.shut I p) (MaintenanceRule.log I _ _ _ _)
  refine .read fun p => .ite (.pure _) (.bind (.update fun p _ => hclosing p) fun _ => ?_)
  exact .bind (.update fun p _ => MaintenanceRule.closeHandoff I p)
    fun _ => .read fun p => hdestroy _

theorem vanish_keeps : Act.Keeps I R vanish :=
  .bind close_keeps fun _ => aside_keeps fun _ => ⟨rfl, rfl⟩

theorem probe_keeps (id : HandleId) : Act.Keeps I R (probe id) := by
  have hfilled :
    ∀ (p : Pool) (c : Connection), R p (p.modifyHandle id fun h => { h with slot := some c }) :=
    fun p c => MaintenanceRule.modify I p id _ fun _ => ⟨rfl, rfl, rfl, fun _ => rfl⟩
  refine .read fun p => ?_
  split
  · exact .pure _
  · next c _ =>
    have hnoted : ∀ p : Pool, R p (p.note (.probe c)) := fun p =>
      OutwardRule.note I p _ fun _ _ => Note.noConfusion
    refine .ite ?_ (.apply fun p _ => hfilled p _)
    exact .bind (.update fun p _ => hnoted p)
      fun _ => .bind (.mark _) fun _ => .apply fun p _ => hfilled p _

theorem fail_keeps (id : HandleId) : Act.Keeps I R (fail id) := by
  refine .bind (aside_keeps fun _ => ⟨rfl, rfl⟩) fun _ => .bind (log_keeps _ _ _) fun _ => ?_
  exact condemn_keeps State.noConfusion (fun p hp hs => destroy_abides _ hp hs) (.pure _)

end

section

variable [GrowthRule I R]

theorem pass_keeps (t : Thread) (id : HandleId) : Act.Keeps I R (pass t id) :=
  .bind (.apply fun p hp => GrowthRule.move p id _ _ hp rfl rfl)
    fun _ => .ite (publish_keeps t id) (.pure _)

theorem validate_keeps (t : Thread) (id : HandleId) : Act.Keeps I R (validate t id) := by
  refine .bind (.apply fun p hp => GrowthRule.move p id _ _ hp rfl rfl) fun _ => .ite ?_ (.pure _)
  refine .bind (probe_keeps id)
    fun valid => .bind (notify_keeps rfl Hook.noConfusion) fun _ => .ite ?_ ?_
  · exact .bind (pass_keeps t id) fun _ => .pure _
  · exact .bind (fail_keeps id) fun _ => .pure _

theorem execute_keeps (t : Thread) (s : Sweep) (id : HandleId) :
    Act.Keeps I R (execute t s id) := by
  cases s with
  | validation => exact validate_keeps t id
  | leak => exact reportLeak_keeps id
  | reap => exact reap_keeps id

theorem executeAll_keeps (t : Thread) (s : Sweep) (ids : List HandleId) :
    Act.Keeps I R (executeAll t s ids) := by
  induction ids with
  | nil => exact .pure _
  | cons id ids ih => exact .bind (execute_keeps t s id) fun _ => .bind ih fun _ => .pure _

theorem sweep_keeps (t : Thread) (s : Sweep) : Act.Keeps I R (sweep t s) := by
  refine .read fun p => .ite (.pure _) (.bind (executeAll_keeps t s _) fun _ => .ite ?_ (.pure _))
  exact .bind topUp_keeps fun _ => .pure _

theorem seat_keeps (id : HandleId) : Act.Keeps I R (seat id) := by
  refine .read fun p => .ite ?_ ?_
  · exact condemn_keeps State.noConfusion (fun p hp hs => destroyNow_abides _ _ hp hs) (.pure _)
  · refine .bind (.apply fun p hp => GrowthRule.move p id _ _ hp rfl rfl) fun _ => .ite ?_ (.pure _)
    exact .bind (.update fun p _ => MaintenanceRule.touch I p id)
      fun _ => publish_keeps .background id

theorem welcome_keeps (c : Connection) : Act.Keeps I R (welcome c) := by
  refine .read fun p => .bind (.update fun p _ => GrowthRule.enroll I p c) fun _ => ?_
  refine .bind (log_keeps _ _ _) fun _ => .bind (notify_keeps rfl Hook.noConfusion) fun _ => ?_
  exact .bind (aside_keeps fun _ => ⟨rfl, rfl⟩) fun _ => seat_keeps _

end

section

variable [CreationRule I R]

theorem lament_keeps (e : String) (acquirer : Option Nat) : Act.Keeps I R (lament e acquirer) := by
  refine .bind (aside_keeps fun _ => ⟨rfl, rfl⟩) fun _ => .bind (log_keeps _ _ _) fun _ => ?_
  refine .bind (notify_keeps rfl Hook.noConfusion)
    fun _ => .bind (aside_keeps fun _ => ⟨rfl, rfl⟩) fun _ => ?_
  cases acquirer with
  | none => exact .update fun p _ => CreationRule.warn I p _
  | some a => exact .update fun p _ => CreationRule.tell I p a _

theorem CreationRule.endCreation (I : Pool → Prop) [CreationRule I R] (p : Pool) :
    R p p.endCreation := by
  have hdown : R p { p with pending := p.pending.down } := MaintenanceRule.aside I rfl rfl
  exact Act.Rule.trans I hdown (flight I { p with pending := p.pending.down } p.inFlight.tail)

theorem create_keeps : Act.Keeps I R create := by
  refine .read fun p => ?_
  split
  · exact .pure _
  · next creation _ _ =>
    have hattempt : ∀ (p : Pool) (serial : Nat), R p (p.attempt serial) := by
      intro p serial
      have hnoted : R p (p.note (.create serial)) :=
        OutwardRule.note I p _ fun _ _ => Note.noConfusion
      exact Act.Rule.trans I hnoted (MaintenanceRule.aside I rfl rfl)
    refine .bind (notify_keeps rfl Hook.noConfusion) fun _ => .read fun p => ?_
    refine .bind (.update fun p _ => hattempt p _) fun _ => .read fun p => ?_
    split
    · refine .bind (welcome_keeps _) fun _ => .update fun p _ => ?_
      cases creation.acquirer with
      | none => exact CreationRule.endCreation I p
      | some a =>
        exact Act.Rule.trans I (CreationRule.tell I p a none) (CreationRule.endCreation I _)
    · exact .bind (lament_keeps _ _) fun _ => .update fun p _ => CreationRule.endCreation I p

theorem CreationRule.overtake (I : Pool → Prop) [CreationRule I R] (p : Pool) (n : Nat) :
    R p (p.overtake n) := by
  obtain ⟨cs, -, heq⟩ := p.overtake_eq n
  rw [heq]
  exact flight I p cs

theorem CreationRule.abandon (I : Pool → Prop) [CreationRule I R] (p : Pool) (n : Nat) :
    R p (p.abandon n) := by
  simp only [Pool.abandon]
  split
  · next creation _ _ =>
    have hdown : R p { p with size := p.size.down, pending := p.pending.down } :=
      MaintenanceRule.aside I rfl rfl
    have hback := Act.Rule.trans I hdown
      (flight I { p with size := p.size.down, pending := p.pending.down } (p.inFlight.eraseIdx n))
    cases creation.acquirer with
    | none => exact hback
    | some a => exact Act.Rule.trans I hback (tell I _ a _)
  · exact Act.Rule.refl I p

end

section

variable (I) [SettingRule I R]

include I

theorem SettingRule.setFloor (p : Pool) (n : Nat) : R p (p.setFloor n).2 := by
  simp only [Pool.setFloor]
  split
  · exact Act.Rule.refl I p
  · have hfloor : R p { p with floor := n } := floor I p n
    have hset := Act.Rule.trans I hfloor (MaintenanceRule.log I _ .debug "Minimum size changed"
      [("min_size", .number n)])
    exact Act.Rule.trans I hset (MaintenanceRule.topUp I _)

theorem SettingRule.setPatience (p : Pool) (d : Duration) : R p (p.setPatience d).2 := by
  simp only [Pool.setPatience]
  split
  · exact Act.Rule.refl I p
  · exact patience I p _

end

end Pool
end ConnPool
