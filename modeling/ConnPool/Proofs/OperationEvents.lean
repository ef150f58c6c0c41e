import ConnPool.Proofs.UnitOperations
import ConnPool.Proofs.Enlistment
import ConnPool.Proofs.HandleEvents

namespace ConnPool

/-- A bus that some more events were sent to, if anybody was there to receive them. -/
structure Bus.Carries (b : Bus) (es : List Event) (c : Bus) : Prop where
  capacity : c.capacity = b.capacity
  cursors : c.cursors = b.cursors
  sent : c.sent.toList = b.sent.toList ++ if b.hasSubscribers then es else []

theorem Bus.Carries.refl (b : Bus) : b.Carries [] b := by
  refine ⟨rfl, rfl, ?_⟩
  simp only [ite_self, List.append_nil]

theorem Bus.Carries.trans {a b c : Bus} {es fs : List Event} (h : a.Carries es b)
    (k : b.Carries fs c) : a.Carries (es ++ fs) c := by
  have hthere : b.hasSubscribers = a.hasSubscribers := by rw [hasSubscribers, h.cursors]; rfl
  refine ⟨k.capacity.trans h.capacity, k.cursors.trans h.cursors, ?_⟩
  rw [k.sent, h.sent, hthere, List.append_assoc]
  split <;> rfl

theorem Bus.carries_emit (b : Bus) (e : Event) : b.Carries [e] (b.emit e) := by
  simp only [Bus.emit]
  split
  · next hthere => exact ⟨rfl, rfl, by simp only [Array.toList_push, hthere, if_true]⟩
  · next hnobody => exact ⟨rfl, rfl, by rw [if_neg hnobody, List.append_nil]⟩

namespace Pool

/-- The roll of a pool. -/
def roll (p : Pool) : Roll where
  ids := p.handles.map (·.id)
  active := fun id => (p.find? id).any (·.state = .checkedOut)
  owner := fun id => ((p.find? id).bind (·.owner)).map (·.thread)
  next := p.nextHandle
  counters := p.counters

/-- Nothing has happened that a subscriber is told. -/
structure Silent (p q : Pool) : Prop where
  roll : q.roll = p.roll
  bus : q.bus = p.bus

/-- What has happened is what the subscribers were told. -/
structure Tells (p : Pool) (es : List Event) (q : Pool) : Prop where
  roll : p.roll.Tells es q.roll
  bus : p.bus.Carries es q.bus

/-- The subscribers were told what has happened, no handle has changed hands, and whoever has a
handle keeps it. -/
def Murmurs (p q : Pool) : Prop :=
  ∃ es, (∀ e ∈ es, e.isHandover = false) ∧ p.roll.Keeps q.roll ∧ p.Tells es q

variable {p q r : Pool} {id : HandleId} {es fs : List Event}

theorem Silent.refl (p : Pool) : Silent p p := ⟨rfl, rfl⟩

theorem Silent.trans (h : Silent p q) (k : Silent q r) : Silent p r :=
  ⟨k.roll.trans h.roll, k.bus.trans h.bus⟩

theorem Silent.tells (h : Silent p q) : p.Tells [] q :=
  ⟨h.roll ▸ .nil, h.bus ▸ .refl p.bus⟩

theorem Tells.trans (h : p.Tells es q) (k : q.Tells fs r) : p.Tells (es ++ fs) r :=
  ⟨h.roll.trans k.roll, h.bus.trans k.bus⟩

theorem Silent.murmurs (h : Silent p q) : Murmurs p q :=
  ⟨[], List.forall_mem_nil _, fun _ hk => h.roll.symm ▸ hk, h.tells⟩

theorem Murmurs.trans (h : Murmurs p q) (k : Murmurs q r) : Murmurs p r := by
  obtain ⟨es, hes, hkeeps, h⟩ := h
  obtain ⟨fs, hfs, hkeeps', k⟩ := k
  refine ⟨es ++ fs, fun e he => ?_, fun id hid => hkeeps' id (hkeeps id hid), h.trans k⟩
  rcases List.mem_append.mp he with he | he
  · exact hes e he
  · exact hfs e he

/-- An event is sent when what it says has happened. -/
theorem tells_emit {e : Event} (h : p.roll.Marks e q.roll) (hb : q.bus = p.bus) :
    p.Tells [e] (q.emit e) :=
  ⟨h.tells, hb ▸ p.bus.carries_emit e⟩

theorem murmurs_emit {e : Event} (h : p.roll.Marks e q.roll) (he : e.isHandover = false)
    (hstay : e.ends? = none) (hb : q.bus = p.bus) : Murmurs p (q.emit e) := by
  refine ⟨[e], fun _ hmem => List.mem_singleton.mp hmem ▸ he, h.keeps he fun id hid => ?_,
    tells_emit h hb⟩
  rw [hstay] at hid
  cases hid

theorem mem_roll {h : Handle} (hf : p.find? id = some h) : id ∈ p.roll.ids := by
  obtain ⟨hmem, hid⟩ := mem_of_find hf
  exact hid ▸ List.mem_map_of_mem hmem

theorem roll_active (hp : p.ledger.Fitting) {h : Handle} (hh : h ∈ p.handles) :
    p.roll.active h.id = decide (h.state = .checkedOut) := by
  simp only [roll, find_of_mem hp hh, Option.any_some]

theorem mem_roll_of_stateOf {s : State} (hs : p.stateOf? id = some s) : id ∈ p.roll.ids := by
  obtain ⟨h, hf, -⟩ := find_of_stateOf hs
  exact mem_roll hf

/-- A handle is changed: of the roll at most its own place. -/
theorem modifyHandle_roll (p : Pool) (id : HandleId) (f : Handle → Handle)
    (hf : ∀ h, (f h).id = h.id) :
    (p.modifyHandle id f).roll = { p.roll with
      active := Function.update p.roll.active id
        ((p.find? id).any fun h => (f h).state = .checkedOut)
      owner := Function.update p.roll.owner id
        (((p.find? id).bind fun h => (f h).owner).map (·.thread)) } := by
  have hfind := find_modifyHandle p id f hf
  refine Roll.ext ?_ (funext fun k => ?_) (funext fun k => ?_) rfl rfl
  · simp only [roll, modifyHandle, List.map_map]
    refine List.map_congr_left fun h _ => ?_
    simp only [Function.comp]
    split
    · exact hf h
    · rfl
  · by_cases hk : k = id
    · subst hk
      simp only [roll, Function.update_self, hfind, Option.any_map]
    · simp only [roll, Function.update_of_ne hk, find_modifyHandle_of_ne p f hf hk]
  · by_cases hk : k = id
    · subst hk
      simp only [roll, Function.update_self, hfind, Option.bind_map]
      rfl
    · simp only [roll, Function.update_of_ne hk, find_modifyHandle_of_ne p f hf hk]

theorem modify_silent (p : Pool) (id : HandleId) (f : Handle → Handle)
    (hf : ∀ h, (f h).id = h.id ∧ (f h).state = h.state ∧ (f h).owner = h.owner) :
    Silent p (p.modifyHandle id f) := by
  refine ⟨(modifyHandle_roll p id f fun h => (hf h).1).trans ?_, rfl⟩
  have hstate : (fun h => decide ((f h).state = .checkedOut)) =
      fun h => decide (h.state = .checkedOut) :=
    funext fun h => congrArg (fun s => decide (s = .checkedOut)) (hf h).2.1
  have howner : (fun h => (f h).owner) = Handle.owner := funext fun h => (hf h).2.2
  have hactive : (p.find? id).any (fun h => decide (h.state = .checkedOut)) = p.roll.active id :=
    rfl
  have hown : ((p.find? id).bind Handle.owner).map (·.thread) = p.roll.owner id := rfl
  rw [hstate, howner, hactive, hown, Function.update_eq_self, Function.update_eq_self]

theorem touch_silent (p : Pool) (id : HandleId) : Silent p (p.touch id) :=
  (modify_silent p id (fun h => { h with lastAccess := p.clock }) fun _ => ⟨rfl, rfl, rfl⟩).trans
    ⟨rfl, rfl⟩

theorem unqueue_silent (p : Pool) (id : HandleId) : Silent p (p.unqueue id) :=
  (modify_silent p id (fun h => { h with queued := false }) fun _ => ⟨rfl, rfl, rfl⟩).trans
    ⟨rfl, rfl⟩

/-- Of a handle that moves only whether it is active is told. -/
theorem restate_roll {s : State} (h : p.stateOf? id = some s) (t : State) :
    (p.restate id s t).roll =
      { p.roll with active := Function.update p.roll.active id (decide (t = .checkedOut)) } := by
  obtain ⟨k, hf, -⟩ := find_of_stateOf h
  have hmodify := modifyHandle_roll p id (fun h => { h with state := t }) fun _ => rfl
  have hown : ((p.find? id).bind Handle.owner).map (·.thread) = p.roll.owner id := rfl
  simp only [hf, Option.any_some, Option.bind_some] at hmodify
  rw [hf, Option.bind_some] at hown
  rw [hown, Function.update_eq_self] at hmodify
  exact hmodify

theorem active_of_stateOf {s : State} (h : p.stateOf? id = some s) :
    p.roll.active id = decide (s = .checkedOut) := by
  obtain ⟨k, hf, rfl⟩ := find_of_stateOf h
  simp only [roll, hf, Option.any_some]

theorem restate_silent {s : State} (t : State) (h : p.stateOf? id = some s) (hs : s ≠ .checkedOut)
    (ht : t ≠ .checkedOut) : Silent p (p.restate id s t) := by
  have hactive := active_of_stateOf h
  rw [decide_eq_false hs] at hactive
  refine ⟨(restate_roll h t).trans ?_, rfl⟩
  rw [decide_eq_false ht, ← hactive, Function.update_eq_self]

theorem transition_silent (p : Pool) (id : HandleId) {s t : State} (hs : s ≠ .checkedOut)
    (ht : t ≠ .checkedOut) : Silent p (p.transition id s t).2 := by
  rcases transition_cases p id s t with hlost | ⟨-, hin, hwon⟩
  · rw [hlost]
    exact .refl p
  · rw [hwon]
    exact restate_silent t hin hs ht

theorem offer_silent (p : Pool) (t : Thread) (id : HandleId) : Silent p (p.offer t id).2 := by
  simp only [offer]
  split <;> exact ⟨rfl, rfl⟩

theorem surrender_silent (p : Pool) (c : Connection) : Silent p (p.surrender c) := by
  simp only [surrender]
  split <;> exact ⟨rfl, rfl⟩

theorem logCloseError_silent (p : Pool) (id : HandleId) (e : Option String) :
    Silent p (p.logCloseError id e) := by
  cases e <;> exact ⟨rfl, rfl⟩

theorem notify_silent (p : Pool) (h : Hook) : Silent p (p.notify h) := ⟨rfl, rfl⟩

theorem closeSlot_silent (p : Pool) (id : HandleId) : Silent p ((closeSlot id).run p).2 := by
  simp only [closeSlot, Act.run_bind, Act.run_read]
  split
  · next c _ =>
    have hempty : Silent p (p.emptySlot id) :=
      modify_silent p id (fun h => { h with slot := none }) fun _ => ⟨rfl, rfl, rfl⟩
    simp only [Act.run_bind, Act.run_update, closeConnection_run]
    exact ((hempty.trans (surrender_silent _ c)).trans (logCloseError_silent _ id _)).trans
      (notify_silent _ _)
  · exact .refl p

/-- A handle is struck off the roll. -/
theorem strike_roll (p : Pool) (id : HandleId) (reserved : Bool) :
    (p.strike id reserved).roll = p.roll.without id := by
  have hmoved :=
    (transition_silent p id (s := .toDestroy) (t := .destroyed) (by decide) (by decide)).roll
  have hfind := fun k => find_strike p id k reserved
  rw [← hmoved]
  refine Roll.ext ?_ (funext fun k => ?_) (funext fun k => ?_) rfl ?_
  · simp only [roll, strike, Roll.without, List.filter_map]
    rfl
  · by_cases hk : k = id
    · subst hk
      simp only [roll, Roll.without, Function.update_self, hfind, if_true, Option.any_none]
    · simp only [roll, Roll.without, Function.update_of_ne hk, hfind, hk, if_false]
  · by_cases hk : k = id
    · subst hk
      simp only [roll, Roll.without, Function.update_self, hfind, if_true, Option.bind_none,
        Option.map_none]
    · simp only [roll, Roll.without, Function.update_of_ne hk, hfind, hk, if_false]
  · rfl

theorem strike_bus (p : Pool) (id : HandleId) (reserved : Bool) :
    (p.strike id reserved).bus = p.bus :=
  (transition_silent p id (s := .toDestroy) (t := .destroyed) (by decide) (by decide)).bus

/-- However a handle was changed, it can be struck off. -/
theorem without_modify (p : Pool) (id : HandleId) (f : Handle → Handle)
    (hf : ∀ h, (f h).id = h.id) :
    (p.modifyHandle id f).roll.without id = p.roll.without id := by
  rw [modifyHandle_roll p id f hf]
  simp only [Roll.without, Function.update_idem]

theorem without_restate (p : Pool) (id : HandleId) (s t : State) :
    (p.restate id s t).roll.without id = p.roll.without id :=
  without_modify p id (fun h => { h with state := t }) fun _ => rfl

/-- A handle is struck off, and this is told at last. -/
theorem destroyNow_run (q : Pool) (id : HandleId) (reason : DestroyReason) (reserved : Bool) :
    ∃ x : Pool, ((destroyNow id reason reserved).run q).2 = x.emit (.destroyed x.name id reason) ∧
      x.roll = q.roll.without id ∧ x.bus = q.bus := by
  have hclosed := closeSlot_silent q id
  simp only [destroyNow, Act.run_bind, Act.run_update]
  generalize ((closeSlot id).run q).2 = m at hclosed ⊢
  refine ⟨(m.strike id reserved).log .debug "Connection destroyed"
    [("handle", .shown id.label), ("reason", .shown reason.label)], rfl, ?_, ?_⟩
  · exact (strike_roll m id reserved).trans (congrArg (Roll.without · id) hclosed.roll)
  · exact (strike_bus m id reserved).trans hclosed.bus

/-- A handle that nobody has is ended. On the way there only what is struck off with it has
changed. -/
theorem destroyNow_murmurs {s : State} {reason : DestroyReason} (h : p.stateOf? id = some s)
    (hs : s ≠ .checkedOut) (hroll : q.roll.without id = (p.roll.count reason.charge).without id)
    (hbus : q.bus = p.bus) (reserved : Bool) :
    Murmurs p ((destroyNow id reason reserved).run q).2 := by
  obtain ⟨x, hx, hstruck, hsame⟩ := destroyNow_run q id reason reserved
  have hmarks : p.roll.Marks (.destroyed x.name id reason) x.roll := by
    rw [hstruck, hroll]
    exact .destroyed _ reason (mem_roll_of_stateOf h)
  have hidle : p.roll.active id = false := (active_of_stateOf h).trans (decide_eq_false hs)
  rw [hx]
  refine ⟨[.destroyed x.name id reason], fun e he => List.mem_singleton.mp he ▸ rfl,
    hmarks.keeps rfl fun k hk => ?_, tells_emit hmarks (hsame.trans hbus)⟩
  rw [← Option.mem_some.mp hk]
  exact hidle

theorem condemn_murmurs {s : State} {reason : DestroyReason} (h : p.stateOf? id = some s)
    (hs : s ≠ .checkedOut) (hcharge : reason.charge = fun n => n) (reserved : Bool) :
    Murmurs p ((destroyNow id reason reserved).run (p.restate id s .toDestroy)).2 := by
  refine destroyNow_murmurs (q := p.restate id s .toDestroy) h hs ?_ rfl reserved
  rw [without_restate, hcharge]
  rfl

theorem fillTo_silent (p : Pool) (n : Nat) : Silent p (p.fillTo n) := by
  have hrepeat : ∀ k : Nat, Silent p (k.repeat (schedule none) p) := by
    intro k
    induction k with
    | zero => exact .refl p
    | succ k ih => exact ih.trans ⟨rfl, rfl⟩
  simp only [fillTo]
  split
  · exact .refl p
  · exact hrepeat _

theorem topUp_silent (p : Pool) : Silent p p.topUp := fillTo_silent p p.floor

theorem publish_murmurs (p : Pool) (t : Thread) (id : HandleId) :
    Murmurs p ((publish t id).run p).2 := by
  simp only [publish, Act.run_bind, Act.run_read, Act.run_ite]
  split
  · exact (Silent.refl p).murmurs
  · have hmark : Silent p (p.modifyHandle id fun h => { h with queued := true }) :=
      modify_silent p id (fun h => { h with queued := true }) fun _ => ⟨rfl, rfl, rfl⟩
    have hoffer := hmark.trans (offer_silent _ t id)
    simp only [Act.run_update, Act.run_apply]
    split
    · exact hoffer.murmurs
    · generalize ((p.modifyHandle id fun h => { h with queued := true }).offer t id).2 = m at hoffer
      have hback := hoffer.trans (unqueue_silent m id)
      rcases transition_cases (m.unqueue id) id .checkedIn .toDestroy with hlost | ⟨-, hin, hwon⟩
      · rw [hlost]
        exact hback.murmurs
      · rw [hwon]
        exact hback.murmurs.trans (condemn_murmurs hin (by decide) rfl false)

theorem probe_silent (p : Pool) (id : HandleId) : Silent p ((probe id).run p).2 := by
  simp only [probe, Act.run_bind, Act.run_read]
  split
  · exact .refl p
  · next c _ =>
    have hprobed : ∀ m : Pool, Silent m (m.modifyHandle id fun h =>
        { h with slot := some (m.factory.probe c).2 }) :=
      fun m => modify_silent m id _ fun _ => ⟨rfl, rfl, rfl⟩
    have hnoted : Silent p (p.note (.probe c)) := ⟨rfl, rfl⟩
    simp only [Act.run_ite]
    split
    · exact hnoted.trans (hprobed _)
    · exact hprobed p

theorem pass_murmurs (p : Pool) (t : Thread) (id : HandleId) : Murmurs p ((pass t id).run p).2 := by
  simp only [pass, Act.run_bind, Act.run_apply, Act.run_ite]
  rcases transition_cases p id .validation .checkedIn with hlost | ⟨-, hin, hwon⟩
  · rw [hlost]
    exact (Silent.refl p).murmurs
  · rw [hwon]
    exact (restate_silent .checkedIn hin (by decide) (by decide)).murmurs.trans
      (publish_murmurs _ t id)

/-- A handle under validation goes, and its failure is counted. -/
theorem fail_murmurs (h : p.stateOf? id = some .validation) : Murmurs p ((fail id).run p).2 := by
  simp only [fail, Act.run_bind, Act.run_update, Act.run_apply]
  generalize hm : (p.count fun n => { n with validationFailures := n.validationFailures + 1 }).log
    .warn "Connection failed validation" [("handle", .shown id.label)] = m
  have hin : m.stateOf? id = some .validation := hm ▸ h
  have hroll : m.roll = p.roll.count DestroyReason.validationFailed.charge := hm ▸ rfl
  have hbus : m.bus = p.bus := hm ▸ rfl
  simp only [transition_of (t := .toDestroy) rfl hin, if_true, destroy, Act.run_bind,
    Act.run_update]
  refine Murmurs.trans ?_ (topUp_silent _).murmurs
  refine destroyNow_murmurs (q := m.restate id .validation .toDestroy) h (by decide) ?_ hbus false
  rw [without_restate, hroll]

theorem stateOf_probe (p : Pool) (id : HandleId) :
    ((probe id).run p).2.stateOf? id = p.stateOf? id := by
  simp only [probe, Act.run_bind, Act.run_read]
  split
  · rfl
  · next c _ =>
    have hprobed : ∀ m : Pool, (m.modifyHandle id fun h =>
        { h with slot := some (m.factory.probe c).2 }).stateOf? id = m.stateOf? id :=
      fun m => stateOf_modifyHandle m id (fun h => { h with slot := some (m.factory.probe c).2 })
        (fun _ => ⟨rfl, rfl⟩) id
    simp only [Act.run_ite]
    split
    · exact hprobed _
    · exact hprobed p

theorem validate_murmurs (p : Pool) (t : Thread) (id : HandleId) :
    Murmurs p ((validate t id).run p).2 := by
  simp only [validate, Act.run_bind, Act.run_apply, Act.run_ite]
  rcases transition_cases p id .checkedIn .validation with hlost | ⟨-, hin, hwon⟩
  · rw [hlost]
    exact (Silent.refl p).murmurs
  · rw [hwon]
    have hprobed :=
      (restate_silent .validation hin (by decide) (by decide)).trans (probe_silent _ id)
    have hunder := (stateOf_probe (p.restate id .checkedIn .validation) id).trans
      (stateOf_restate hin .validation)
    simp only [if_true, Act.run_update, Act.run_pure]
    generalize (probe id).run (p.restate id .checkedIn .validation) = x at hprobed hunder ⊢
    have hheard := (hprobed.trans (notify_silent _ (.onValidation id x.1))).murmurs
    split
    · exact hheard.trans (pass_murmurs _ t id)
    · exact hheard.trans (fail_murmurs hunder)

theorem reportLeak_murmurs (p : Pool) (id : HandleId) : Murmurs p ((reportLeak id).run p).2 := by
  simp only [reportLeak, Act.run_apply]
  split
  · exact (Silent.refl p).murmurs
  · next h hf =>
    split
    · next hsuspect =>
      have hactive : p.roll.active id = true := by
        simp only [isSuspect, Bool.and_eq_true] at hsuspect
        simp only [roll, hf, Option.any_some, hsuspect.1]
      exact murmurs_emit (.leakSuspected p.name _ hactive) rfl rfl rfl
    · exact (Silent.refl p).murmurs

theorem reap_murmurs (p : Pool) (id : HandleId) : Murmurs p ((reap id).run p).2 := by
  have hgiven : Silent p { p with size := p.size.down } := ⟨rfl, rfl⟩
  simp only [reap, claimStale, Act.run_bind, Act.run_apply, Act.run_ite]
  split
  · exact (Silent.refl p).murmurs
  · split
    · exact (Silent.refl p).murmurs
    · rcases transition_cases { p with size := p.size.down } id .checkedIn .toDestroy with
        hlost | ⟨-, hin, hwon⟩
      · rw [hlost]
        exact Silent.murmurs ⟨rfl, rfl⟩
      · rw [hwon]
        simp only [if_true, Act.run_update, Act.run_pure]
        generalize hm : (Pool.count (Pool.restate { p with size := p.size.down } id .checkedIn
          .toDestroy) fun n => { n with reaped := n.reaped + 1 }).notify (.onTimeout id) = m
        have hidle : p.stateOf? id = some .checkedIn := hin
        have hroll : m.roll.without id =
            (p.roll.count DestroyReason.idleTimeout.charge).without id := by
          have hmoved := without_restate { p with size := p.size.down } id .checkedIn .toDestroy
          rw [← hm]
          exact congrArg (fun r => Roll.count r DestroyReason.idleTimeout.charge) hmoved
        exact destroyNow_murmurs hidle (by decide) hroll (hm ▸ rfl) true

theorem execute_murmurs (p : Pool) (t : Thread) (s : Sweep) (id : HandleId) :
    Murmurs p ((execute t s id).run p).2 := by
  cases s with
  | validation => exact validate_murmurs p t id
  | leak => exact reportLeak_murmurs p id
  | reap => exact reap_murmurs p id

theorem executeAll_murmurs (p : Pool) (t : Thread) (s : Sweep) (ids : List HandleId) :
    Murmurs p ((executeAll t s ids).run p).2 := by
  induction ids generalizing p with
  | nil => exact (Silent.refl p).murmurs
  | cons id ids ih =>
    simp only [executeAll, Act.run_bind, Act.run_pure]
    exact (execute_murmurs p t s id).trans (ih _)

theorem sweep_murmurs (p : Pool) (t : Thread) (s : Sweep) : Murmurs p ((sweep t s).run p).2 := by
  have hall := executeAll_murmurs p t s (p.plan s)
  simp only [sweep, Act.run_bind, Act.run_read, Act.run_ite]
  split
  · exact (Silent.refl p).murmurs
  · split
    · exact hall.trans (topUp_silent _).murmurs
    · exact hall

/-- A handle is made, and nobody has it. -/
theorem enroll_roll (p : Pool) (c : Connection) : (p.enroll c).roll = p.roll.grown := by
  have hfind : ∀ k, (p.enroll c).find? k = (p.find? k).or ([p.newHandle c].find? (·.id = k)) :=
    fun k => List.find?_append
  have hnew : ∀ k h, [p.newHandle c].find? (·.id = k) = some h →
      h.state = .new ∧ h.owner = none := by
    intro k h hh
    rw [List.mem_singleton.mp (List.mem_of_find?_eq_some hh)]
    exact ⟨rfl, rfl⟩
  refine Roll.ext ?_ (funext fun k => ?_) (funext fun k => ?_) rfl rfl
  · simp only [roll, enroll, Roll.grown, List.map_append, List.map_cons, List.map_nil]
  · simp only [roll, Roll.grown, hfind]
    cases p.find? k with
    | some h => rfl
    | none =>
      cases hh : [p.newHandle c].find? (·.id = k) with
      | none => rfl
      | some h => simp only [Option.none_or, Option.any_some, Option.any_none, (hnew k h hh).1,
          reduceCtorEq, decide_false]
  · simp only [roll, Roll.grown, hfind]
    cases p.find? k with
    | some h => rfl
    | none =>
      cases hh : [p.newHandle c].find? (·.id = k) with
      | none => rfl
      | some h => simp only [Option.none_or, Option.bind_some, Option.bind_none, (hnew k h hh).2]

theorem seat_murmurs (p : Pool) (id : HandleId) : Murmurs p ((seat id).run p).2 := by
  simp only [seat, Act.run_bind, Act.run_read, Act.run_ite]
  split
  · simp only [Act.run_apply]
    rcases transition_cases p id .new .toDestroy with hlost | ⟨-, hin, hwon⟩
    · rw [hlost]
      exact (Silent.refl p).murmurs
    · rw [hwon]
      exact condemn_murmurs hin (by decide) rfl false
  · simp only [Act.run_apply, Act.run_update]
    rcases transition_cases p id .new .checkedIn with hlost | ⟨-, hin, hwon⟩
    · rw [hlost]
      exact (Silent.refl p).murmurs
    · rw [hwon]
      have hready :=
        (restate_silent .checkedIn hin (by decide) (by decide)).trans (touch_silent _ id)
      exact hready.murmurs.trans (publish_murmurs _ .background id)

theorem welcome_murmurs (p : Pool) (c : Connection) : Murmurs p ((welcome c).run p).2 := by
  simp only [welcome, Act.run_bind, Act.run_read, Act.run_update]
  generalize hm : ((p.enroll c).log .debug "Connection created"
    [("handle", .shown (HandleId.mk p.nextHandle).label)]).notify
      (.afterCreate (.ok ⟨p.nextHandle⟩)) = m
  have hroll : m.roll = p.roll.grown := hm ▸ enroll_roll p c
  have hbus : m.bus = p.bus := hm ▸ rfl
  have hcreated : p.roll.Marks (.created m.name ⟨p.nextHandle⟩ .zero) m.roll := by
    rw [hroll]
    exact .created _ _
  exact (murmurs_emit hcreated rfl rfl hbus).trans (seat_murmurs _ _)

theorem lament_murmurs (p : Pool) (e : String) (acquirer : Option Nat) :
    Murmurs p ((lament e acquirer).run p).2 := by
  have hfailed : p.roll.Marks (.creationFailed p.name e) (p.forgo.roll) := .creationFailed _ e
  have hsaid := murmurs_emit (q := (p.forgo.log .warn "Failed to create connection"
    [("error", .shown e)]).notify (.afterCreate (.error e))) hfailed rfl rfl rfl
  simp only [lament, Act.run_bind, Act.run_update]
  cases acquirer with
  | none => exact hsaid.trans (notify_silent _ _).murmurs
  | some a => exact hsaid.trans (Silent.murmurs ⟨rfl, rfl⟩)

theorem create_murmurs (p : Pool) : Murmurs p (create.run p).2 := by
  have hended : ∀ m : Pool, Silent m m.endCreation := fun m => ⟨rfl, rfl⟩
  simp only [create, Act.run_bind, Act.run_read]
  split
  · exact (Silent.refl p).murmurs
  · next creation _ _ =>
    simp only [Act.run_bind, Act.run_update, Act.run_read]
    generalize hm : (p.notify .beforeCreate).attempt ((p.notify .beforeCreate).attempts + 1) = m
    have htried : Silent p m := hm ▸ ⟨rfl, rfl⟩
    split
    · next c _ =>
      have htold : ∀ m : Pool,
          Silent m ((creation.acquirer.elim m (m.tellAcquirer · none)).endCreation) := by
        intro m
        cases creation.acquirer <;> exact ⟨rfl, rfl⟩
      simp only [Act.run_bind, Act.run_update]
      exact (htried.murmurs.trans (welcome_murmurs m c)).trans (htold _).murmurs
    · next e _ =>
      simp only [Act.run_bind, Act.run_update]
      exact (htried.murmurs.trans (lament_murmurs m e _)).trans (hended _).murmurs

theorem closeHandoff_silent (p : Pool) : Silent p p.closeHandoff := by
  simp only [closeHandoff]
  generalize p.handoff.close = r
  obtain ⟨ids, takers, h'⟩ := r
  have hcleared : Silent p (ids.foldl unqueue p) :=
    List.foldlRecOn ids unqueue (.refl p) fun q hq id _ => hq.trans (unqueue_silent q id)
  exact hcleared.trans ⟨rfl, rfl⟩

theorem destroyIdle_murmurs (p : Pool) (ids : List HandleId) :
    Murmurs p ((destroyIdle ids).run p).2 := by
  induction ids generalizing p with
  | nil => exact (Silent.refl p).murmurs
  | cons id ids ih =>
    simp only [destroyIdle, Act.run_bind, Act.run_apply, Act.run_ite]
    rcases transition_cases p id .checkedIn .toDestroy with hlost | ⟨-, hin, hwon⟩
    · rw [hlost]
      exact ih p
    · rw [hwon]
      exact (condemn_murmurs hin (by decide) rfl false).trans (ih _)

theorem close_murmurs (p : Pool) : Murmurs p (close.run p).2 := by
  simp only [close, Act.run_bind, Act.run_read, Act.run_ite]
  split
  · exact (Silent.refl p).murmurs
  · simp only [Act.run_update]
    have hsaid : Silent p (({ p with closed := true } : Pool).log .info "Closing pool" []) :=
      ⟨rfl, rfl⟩
    exact (hsaid.trans (closeHandoff_silent _)).murmurs.trans (destroyIdle_murmurs _ _)

theorem vanish_murmurs (p : Pool) : Murmurs p (vanish.run p).2 := by
  have hshut : ∀ m : Pool, m.Tells [] { m with gone := true, bus := m.bus.close } :=
    fun m => ⟨.nil, rfl, rfl, (Bus.Carries.refl m.bus).sent⟩
  simp only [vanish, Act.run_bind, Act.run_update]
  exact (close_murmurs p).trans ⟨[], List.forall_mem_nil _, fun _ hk => hk, hshut _⟩

theorem overtake_silent (p : Pool) (n : Nat) : Silent p (p.overtake n) := by
  obtain ⟨cs, -, heq⟩ := p.overtake_eq n
  rw [heq]
  exact ⟨rfl, rfl⟩

theorem abandon_silent (p : Pool) (n : Nat) : Silent p (p.abandon n) := by
  simp only [abandon]
  split
  · next creation _ _ => cases creation.acquirer <;> exact ⟨rfl, rfl⟩
  · exact .refl p

theorem setFloor_silent (p : Pool) (n : Nat) : Silent p (p.setFloor n).2 := by
  simp only [setFloor]
  split
  · exact .refl p
  · have hset : Silent p (({ p with floor := n } : Pool).log .debug "Minimum size changed"
        [("min_size", .number n)]) := ⟨rfl, rfl⟩
    exact hset.trans (topUp_silent _)

theorem setPatience_silent (p : Pool) (d : Duration) : Silent p (p.setPatience d).2 := by
  have hset : ∀ n, Silent p { p with patience := n } := fun _ => ⟨rfl, rfl⟩
  simp only [setPatience]
  split
  · exact .refl p
  · exact hset _

theorem start_silent (p : Pool) : Silent p p.start := by
  have hnamed : ∀ ws : List Sweep, Silent p
      (ws.foldl (fun p s => p.log .debug "Sweep disabled" [("sweep", .text s.name)]) p) :=
    fun ws => List.foldlRecOn ws _ (.refl p) fun q hq _ _ => hq.trans ⟨rfl, rfl⟩
  simp only [start]
  exact ((hnamed _).trans (fillTo_silent _ _)).trans ⟨rfl, rfl⟩

theorem orderly_new (c : Config) (f : Factory) (ls : List Listener) (us : Units) (bus : Bus) :
    (new c f ls us bus).roll.Orderly :=
  ⟨nofun, List.Pairwise.nil, nofun, fun _ => rfl, rfl, Nat.le_refl _⟩

/-- A pool that was just built has made no handles. -/
theorem roll_of_build {c : Config} {f : Factory} {ls : List Listener} {us : Units}
    (hb : build c f ls us = .ok (some p)) : ∃ bus, p.roll = (new c f ls us bus).roll := by
  obtain ⟨bus, rfl⟩ := build_eq hb
  exact ⟨bus, (start_silent _).roll⟩

end Pool
end ConnPool
