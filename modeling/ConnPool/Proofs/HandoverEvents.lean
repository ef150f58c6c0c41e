import ConnPool.Proofs.OperationEvents

namespace ConnPool

/-- What one operation comes to, if it is done for the threads that ask and may end some handles
that somebody has. -/
inductive Roll.Tale (asks : Thread → Prop) (ends : HandleId → Prop) (r : Roll) :
    List Event → Roll → Prop where
  | lent {id : HandleId} {t : Thread} (pool : String) (d : Duration) (ask : asks t)
      (mem : id ∈ r.ids)
    (idle : r.active id = false) : Tale asks ends r [.acquired pool id d] (r.lent id t)
  | returned {id : HandleId} (pool : String) (d : Duration) (active : r.active id = true) :
    Tale asks ends r [.returned pool id d] (r.returned id)
  | ended {id : HandleId} (pool : String) (reason : DestroyReason) (may : ends id)
      (mem : id ∈ r.ids)
    (active : r.active id = true) :
    Tale asks ends r [.destroyed pool id reason] ((r.count reason.charge).without id)
  | other {es : List Event} {q : Roll} (calm : ∀ e ∈ es, e.isHandover = false) (keeps : r.Keeps q)
    (tells : r.Tells es q) : Tale asks ends r es q

theorem Roll.Tale.tells {asks : Thread → Prop} {ends : HandleId → Prop} {r q : Roll}
    {es : List Event}
    (h : r.Tale asks ends es q) : r.Tells es q := by
  cases h with
  | lent pool d ask mem idle => exact (Marks.acquired pool _ d mem idle).tells
  | returned pool d active => exact (Marks.returned pool d active).tells
  | ended pool reason may mem active => exact (Marks.destroyed pool reason mem).tells
  | other calm keeps tells => exact tells

namespace Pool

/-- The subscribers were told what an operation has come to. -/
def Recounts (asks : Thread → Prop) (ends : HandleId → Prop) (p q : Pool) : Prop :=
  ∃ es, p.roll.Tale asks ends es q.roll ∧ p.bus.Carries es q.bus

/-- An operation that may end a handle that somebody has: its holder invalidates or detaches it, or
gives it back after the pool was closed. -/
def Operation.Ends (p : Pool) (id : HandleId) : Operation → Prop
  | invalidate n | detach n => ∃ l ∈ p.leases, l.number = n ∧ l.handle = id
  | release _ n => p.closed = true ∧ ∃ l ∈ p.leases, l.number = n ∧ l.handle = id
  | releaseEnlisted _ k => p.closed = true ∧ k = id
  | _ => False

variable {who : Option Nat} {p q r : Pool} {id : HandleId} {asks : Thread → Prop}
  {ends : HandleId → Prop}

theorem Murmurs.recounts (h : Murmurs p q) : Recounts asks ends p q := by
  obtain ⟨es, hes, hkeeps, htells⟩ := h
  exact ⟨es, .other hes hkeeps htells.roll, htells.bus⟩

theorem Silent.recounts (h : Silent p q) : Recounts asks ends p q := h.murmurs.recounts

theorem Silent.first (h : Silent p q) (k : Recounts asks ends q r) : Recounts asks ends p r := by
  obtain ⟨es, htale, hbus⟩ := k
  exact ⟨es, h.roll ▸ htale, h.bus ▸ hbus⟩

theorem Recounts.silently (h : Recounts asks ends p q) (k : Silent q r) :
    Recounts asks ends p r := by
  obtain ⟨es, htale, hbus⟩ := h
  exact ⟨es, k.roll.symm ▸ htale, k.bus.symm ▸ hbus⟩

theorem recounts_emit {e : Event} (h : p.roll.Tale asks ends [e] q.roll) (hb : q.bus = p.bus) :
    Recounts asks ends p (q.emit e) :=
  ⟨[e], h, hb ▸ p.bus.carries_emit e⟩

theorem Sifted.silent (h : Sifted p q) : Silent p q := by
  have hcounters : q.counters = p.counters := by rw [h.same]
  have hnext : q.nextHandle = p.nextHandle := by rw [h.same]
  have hbus : q.bus = p.bus := by rw [h.same]
  have hids : ∀ r : Pool, r.roll.ids = r.ledger.accounts.map (·.id) := by
    intro r
    exact (List.map_map (f := Handle.account) (g := fun a : Account => a.id)).symm
  have hactive : ∀ (r : Pool) (k : HandleId),
      r.roll.active k = (r.stateOf? k).any (· = .checkedOut) := by
    intro r k
    simp only [roll, stateOf?, Option.any_map]
  have howner : ∀ (r : Pool) (k : HandleId),
      r.roll.owner k = (((r.find? k).map (·.owner)).bind id).map (·.thread) := by
    intro r k
    simp only [roll, Option.bind_map, Function.id_comp]
  refine ⟨Roll.ext ?_ (funext fun k => ?_) (funext fun k => ?_) hnext hcounters, hbus⟩
  · rw [hids, hids, h.ledger]
  · rw [hactive, hactive, stateOf_of_ledger h.ledger]
  · rw [howner, howner, h.owners]

theorem lend_silent (p : Pool) (id : HandleId) (c : Connection) (e : Bool) :
    Silent p (p.lend id c e).2 :=
  (modify_silent p id (fun h => { h with slot := none }) fun _ => ⟨rfl, rfl, rfl⟩).trans ⟨rfl, rfl⟩

theorem own_roll {s : State} (h : p.stateOf? id = some s) (o : Option Owner) :
    (p.modifyHandle id fun h => { h with owner := o }).roll =
      { p.roll with owner := Function.update p.roll.owner id (o.map (·.thread)) } := by
  obtain ⟨k, hf, -⟩ := find_of_stateOf h
  have hown := modifyHandle_roll p id (fun h => { h with owner := o }) fun _ => rfl
  have hactive : (p.find? id).any (fun h => decide (h.state = .checkedOut)) = p.roll.active id :=
    rfl
  rw [hactive, Function.update_eq_self, hf] at hown
  exact hown

/-- Of a handle that is assigned its owner is told, and that it was acquired. -/
theorem assign_roll {s : State} (h : p.stateOf? id = some s) (t : Thread) (started : Nat) :
    (p.assign t started id).roll =
      Roll.count { p.roll with owner := Function.update p.roll.owner id (some t) }
        fun n => { n with acquired := n.acquired + 1 } :=
  (touch_silent _ id).roll.trans
    (congrArg (fun r => Roll.count r fun n => { n with acquired := n.acquired + 1 })
      (own_roll h (some ⟨t, p.clock⟩)))

/-- A handle that was idle is handed over. -/
theorem handOver_recounts (h : p.stateOf? id = some .checkedIn) (t : Thread) (started : Nat)
    (c : Connection) (ask : asks t) :
    Recounts asks ends p ((p.restate id .checkedIn .checkedOut).handOver t started id c) := by
  have hassigned := assign_roll (stateOf_restate h .checkedOut) t started
  have hroll : ((p.restate id .checkedIn .checkedOut).assign t started id).roll =
      p.roll.lent id t := by
    rw [hassigned, restate_roll h]
    rfl
  have hidle : p.roll.active id = false := active_of_stateOf h
  have htale : p.roll.Tale asks ends [.acquired p.name id (.ofNanos (p.clock - started))]
      ((p.restate id .checkedIn .checkedOut).assign t started id).roll := by
    rw [hroll]
    exact .lent _ _ ask (mem_roll_of_stateOf h) hidle
  have hbus := p.bus.carries_emit (.acquired p.name id (.ofNanos (p.clock - started)))
  have hacquired : Recounts asks ends p
      ((p.restate id .checkedIn .checkedOut).assign t started id) := ⟨_, htale, hbus⟩
  exact hacquired.silently (lend_silent _ _ _ _)

theorem conclude_silent (p : Pool) (e : Except Failure Nat) : Silent p ((conclude e).run p).2 := by
  cases e with
  | error f =>
    rw [conclude_refused]
    exact notify_silent _ _
  | ok n =>
    simp only [conclude, Act.run_bind, Act.run_read]
    split
    · exact notify_silent _ _
    · exact .refl p

theorem leave_silent (p : Pool) (n : Nat) : Silent p (p.leave n) := ⟨rfl, rfl⟩

theorem park_silent (p : Pool) (a : Acquirer) : Silent p (p.park a) := by
  simp only [park]
  split
  · exact ⟨rfl, rfl⟩
  · split <;> exact ⟨rfl, rfl⟩

theorem grow_silent (p : Pool) (a : Acquirer) : Silent p (grow a p).2 := by
  obtain ⟨hsame | ⟨-, hgrown⟩, -⟩ := grow_cases a p
  · rw [hsame]
    exact .refl p
  · rw [hgrown]
    exact ⟨rfl, rfl⟩

theorem timedOut_murmurs (p : Pool) (a : Acquirer) : Murmurs p (timedOut a p).2 := by
  have hcounted : p.roll.Marks (.acquireTimedOut p.name (.ofNanos (p.clock - a.started)))
      (p.count fun n => { n with timeouts := n.timeouts + 1 }).roll := .acquireTimedOut _ _
  exact (murmurs_emit hcounted rfl rfl rfl).trans (Silent.murmurs ⟨rfl, rfl⟩)

theorem linger_murmurs (p : Pool) (a : Acquirer) : Murmurs p ((linger a).run p).2 := by
  have hlingers := linger_cases a p
  have hgrow := grow_silent p a
  generalize (linger a).run p = r at hlingers ⊢
  cases hlingers with
  | told ticket => exact ((leave_silent p _).trans (conclude_silent _ _)).murmurs
  | @late b q untold grown past =>
    rw [grown] at hgrow
    exact ((hgrow.trans (leave_silent q _)).murmurs.trans (timedOut_murmurs _ b)).trans
      (conclude_silent _ _).murmurs
  | @away b q untold grown early shut =>
    rw [grown] at hgrow
    exact ((hgrow.trans (leave_silent q _)).trans (conclude_silent _ _)).murmurs
  | @parks b q untold grown early isOpen =>
    rw [grown] at hgrow
    exact (hgrow.trans (park_silent q b)).murmurs

/-- In its turn an acquirer is lent one handle that was idle, or none. -/
theorem turn_recounts (hp : p.Sound) (a : Acquirer) (hasks : asks a.taker.thread) :
    Recounts asks ends p ((turn a).run p).2 := by
  rcases search_claims none hp a.taker.thread a.started p.handles.length with
    ⟨q, hs, hl, -⟩ | ⟨id, m, q, c, hs, hl, hc, -⟩
  · rw [turn_none hs]
    exact hl.sifted.silent.first (linger_murmurs q a).recounts
  · obtain ⟨x, hx, rfl⟩ := hc.claimed (hl.steps.sound hp)
    have hlent : Recounts asks ends p
        ((x.restate id .checkedIn .checkedOut).handOver a.taker.thread a.started id c) :=
      (hl.sifted.silent.trans hx.silent).first
        (handOver_recounts hx.stateOf a.taker.thread a.started c hasks)
    simp only [turn, Act.run_bind, Act.run_read, hs, Act.run_update]
    exact hlent.silently ((leave_silent _ _).trans (conclude_silent _ _))

theorem reuse_silent (p : Pool) (t : Thread) : Silent p ((reuse t).run p).2 := by
  simp only [reuse, Act.run_bind, Act.run_read]
  split
  · exact .refl p
  · next id _ =>
    split
    · simp only [Act.run_bind, Act.run_update, Act.run_apply, Act.run_pure]
      have hsaid : ∀ m : Pool, Silent m (m.log .debug "Reusing enlisted connection"
          [("handle", .shown id.label)]) := fun m => ⟨rfl, rfl⟩
      exact ((touch_silent p id).trans (hsaid _)).trans (lend_silent _ _ _ _)
    · exact .refl p
    · exact ⟨rfl, rfl⟩

theorem acquire_recounts (hp : p.Sound) (t : Thread) (deadline : Nat) (hasks : asks t) :
    Recounts asks ends p ((acquire t deadline).run p).2 := by
  by_cases hc : p.closed = true
  · rw [acquire_closed hc]
    exact Silent.recounts ⟨rfl, rfl⟩
  · have ho : p.closed = false := by simpa using hc
    have hheard : Steps none p (p.notify .beforeAcquire) := .of_muted (muted_notify _ _)
    have hreuse : Steps none (p.notify .beforeAcquire)
        ((reuse t).run (p.notify .beforeAcquire)).2 :=
      reuse_steps (p := p.notify .beforeAcquire) ho t
    have hsilent := (notify_silent p .beforeAcquire).trans (reuse_silent _ t)
    have hsound : ((reuse t).run (p.notify .beforeAcquire)).2.Sound :=
      hreuse.sound (hheard.sound hp)
    rw [acquire_open ho]
    generalize (reuse t).run (p.notify .beforeAcquire) = x at hsilent hsound ⊢
    obtain ⟨f | _ | n, m⟩ := x
    · exact (hsilent.trans (conclude_silent _ _)).recounts
    · have hdraw : Step none m { m with nextTaker := m.nextTaker + 1 } := .draw
      have hdrawn : Silent m { m with nextTaker := m.nextTaker + 1 } := ⟨rfl, rfl⟩
      exact (hsilent.trans hdrawn).first
        (turn_recounts (hdraw.sound hsound) (m.newcomer t p.clock deadline) hasks)
    · exact (hsilent.trans (conclude_silent _ _)).recounts

/-- Who goes on is lent what he was served, if it is still idle, or has a turn. -/
theorem resume_recounts (hp : p.Sound) (n : Nat)
    (hasks : ∀ a ∈ p.acquirers, a.taker.id = n → asks a.taker.thread) :
    Recounts asks ends p ((resume n).run p).2 := by
  obtain ⟨a, ha, rfl, hgoes⟩ | ⟨-, hrun⟩ := resume_cases hp n
  · have ask := hasks a ha rfl
    generalize (resume a.taker.id).run p = r at hgoes ⊢
    cases hgoes with
    | away dismissed => exact ((leave_silent p _).trans (conclude_silent _ _)).recounts
    | @lent h q c served claim lend =>
      have hserved : Claim (some a.taker.id) p h q := .served rfl ha served claim
      obtain ⟨m, hm, rfl⟩ := hserved.claimed hp
      exact (hm.silent.first (handOver_recounts hm.stateOf a.taker.thread a.started c ask)).silently
        (conclude_silent _ _)
    | @turn q steps present unheard stale missed =>
      have hready : Silent p q := by
        rcases missed with rfl | ⟨h, rfl⟩
        · exact .refl q
        · exact (leave_silent p _).trans (unqueue_silent _ h)
      exact hready.first (turn_recounts (steps.sound hp) { a with waiting := .parked } ask)
  · rw [hrun]
    exact (Silent.refl p).recounts

theorem cacheLocally_silent (p : Pool) (t : Thread) (id : HandleId) :
    Silent p (p.cacheLocally t id) := by
  simp only [cacheLocally]
  split
  · have hcached : Silent p (p.modifyHandle id fun h => { h with cachedBy := some t }) :=
      modify_silent p id (fun h => { h with cachedBy := some t }) fun _ => ⟨rfl, rfl, rfl⟩
    exact hcached.trans ⟨rfl, rfl⟩
  · exact .refl p

theorem available_silent (p : Pool) (t : Thread) (id : HandleId) : Silent p (p.available t id) := by
  simp only [available]
  split
  · exact .refl p
  · exact (modify_silent p id (fun h => { h with queued := true }) fun _ => ⟨rfl, rfl, rfl⟩).trans
      (offer_silent _ t id)

/-- A handle that comes home belongs to nobody. -/
theorem home_roll (h : p.stateOf? id = some .checkedOut) :
    (((p.clearOwner id).touch id).restate id .checkedOut .checkedIn).roll =
      { p.roll with
        active := Function.update p.roll.active id false
        owner := Function.update p.roll.owner id none } := by
  have hcleared : (p.clearOwner id).roll =
      { p.roll with owner := Function.update p.roll.owner id none } :=
    own_roll h none
  rw [restate_roll (stateOf_home h), (touch_silent _ id).roll, hcleared]
  rfl

theorem home_without (p : Pool) (id : HandleId) (s : State) :
    (((p.clearOwner id).touch id).restate id .checkedOut s).roll.without id =
      p.roll.without id := by
  rw [without_restate, (touch_silent _ id).roll]
  exact without_modify p id (fun h => { h with owner := none }) fun _ => rfl

/-- A handle that somebody has is ended. -/
theorem destroyNow_recounts {reason : DestroyReason} (h : p.stateOf? id = some .checkedOut)
    (hends : ends id) (hroll : q.roll.without id = (p.roll.count reason.charge).without id)
    (hbus : q.bus = p.bus) (reserved : Bool) :
    Recounts asks ends p ((destroyNow id reason reserved).run q).2 := by
  obtain ⟨x, hx, hstruck, hsame⟩ := destroyNow_run q id reason reserved
  rw [hx]
  refine recounts_emit ?_ (hsame.trans hbus)
  rw [hstruck, hroll]
  exact .ended _ reason hends (mem_roll_of_stateOf h) (active_of_stateOf h)

/-- An active handle is returned while the pool is open, and ended once it is closed. -/
theorem return_recounts (hp : p.Lineup) (h : p.stateOf? id = some .checkedOut) (t : Thread)
    (since : Nat) (hends : p.closed = true → ends id) :
    Recounts asks ends p ((finishReturn t id p.returnState since).run
      (((p.clearOwner id).touch id).restate id .checkedOut p.returnState)).2 := by
  simp only [returnState]
  by_cases hc : p.closed = true
  · have hgone : (((p.clearOwner id).touch id).restate id .checkedOut .toDestroy).roll.without id =
        (p.roll.count DestroyReason.shutdown.charge).without id := home_without p id .toDestroy
    simp only [hc, if_true, finishReturn]
    exact destroyNow_recounts h (hends hc) hgone rfl false
  · have ho : p.closed = false := by simpa using hc
    have hhome := home_roll h
    have hhandoff : (((p.clearOwner id).touch id).restate id .checkedOut .checkedIn).handoff =
        p.handoff :=
      rfl
    have hbus : (((p.clearOwner id).touch id).restate id .checkedOut .checkedIn).bus = p.bus := rfl
    simp only [ho, Bool.false_eq_true, if_false, finishReturn, reduceCtorEq, Act.run_bind,
      Act.run_read, Act.run_update]
    generalize ((p.clearOwner id).touch id).restate id .checkedOut .checkedIn = m
      at hhome hhandoff hbus ⊢
    have hroll : ((m.count fun k => { k with returned := k.returned + 1 }).notify
        (.afterReturn id)).roll = p.roll.returned id :=
      congrArg (fun r => Roll.count r fun k => { k with returned := k.returned + 1 }) hhome
    have hreturned : Recounts asks ends p (((m.count fun k =>
      { k with returned := k.returned + 1 }).notify
        (.afterReturn id)).emit (.returned m.name id (.ofNanos (m.clock - since)))) := by
      refine recounts_emit ?_ hbus
      rw [hroll]
      exact .returned _ _ (active_of_stateOf h)
    generalize hn : ((m.count fun k => { k with returned := k.returned + 1 }).notify
      (.afterReturn id)).emit (.returned m.name id (.ofNanos (m.clock - since))) = n at hreturned ⊢
    have hsame : n.handoff = p.handoff := hn ▸ hhandoff
    have hcached := (cacheLocally_frame (p := n) t id).handoff.trans hsame
    rw [publish_run (hcached ▸ hp.numbered) (hcached ▸ hp.isClosed_eq.trans ho)]
    exact hreturned.silently ((cacheLocally_silent n t id).trans (available_silent _ t id))

theorem giveBack_recounts (hp : p.Lineup) (h : p.stateOf? id = some .checkedOut) (t : Thread)
    (since : Nat) (hends : p.closed = true → ends id) :
    Recounts asks ends p ((giveBack t id since).run p).2 := by
  rw [giveBack_run h]
  exact return_recounts hp h t since hends

theorem restore_silent (p : Pool) (n : Nat) (id : HandleId) (c : Connection) :
    Silent p ((p.endLease n).2.restore id c) :=
  have hended : Silent p (p.endLease n).2 := ⟨rfl, rfl⟩
  hended.trans (modify_silent _ id (fun h => { h with slot := some c }) fun _ => ⟨rfl, rfl, rfl⟩)

theorem release_recounts (hp : p.Sound) (t : Thread) (n : Nat)
    (hends : ∀ l ∈ p.leases, l.number = n → p.closed = true → ends l.handle) :
    Recounts asks ends p ((release t n).run p).2 := by
  simp only [release, Act.run_bind, Act.run_apply]
  rcases endLease_cases hp.books.fitting n with hnone | ⟨l, hmem, h, rfl, hfirst, hf, hs⟩
  · rw [hnone]
    exact (Silent.refl p).recounts
  · have hgive : Step none p ((p.endLease l.number).2.restore l.handle l.connection) := .giveUp hmem
    have hended := restore_silent p l.number l.handle l.connection
    have hactive := (stateOf_of_find (find_restore hf)).trans (congrArg some hs)
    simp only [hfirst, Act.run_bind, Act.run_update, Act.run_ite]
    split
    · exact hended.first
        (giveBack_recounts (hgive.sound hp).lineup hactive t l.since (hends l hmem rfl))
    · exact hended.recounts

/-- An active handle is ended at its holder's wish, for a reason that is not counted. -/
theorem retire_recounts {h : Handle} {reason : DestroyReason} (hf : p.find? id = some h)
    (hs : h.state = .checkedOut) (hends : ends id) (hcharge : reason.charge = fun n => n) :
    Recounts asks ends p ((retire id reason).run p).2 := by
  rw [retire_run hf hs]
  simp only [destroy, Act.run_bind, Act.run_update]
  have hactive : p.stateOf? id = some .checkedOut := (stateOf_of_find hf).trans (congrArg some hs)
  have hgone :
    (((p.disassociate id).clearOwner id).restate id .checkedOut .toDestroy).roll.without id =
      (p.roll.count reason.charge).without id := by
    rw [without_restate, hcharge]
    exact without_modify (p.disassociate id) id (fun h => { h with owner := none }) fun _ => rfl
  exact (destroyNow_recounts hactive hends hgone rfl false).silently (topUp_silent _)

theorem invalidate_recounts (hp : p.Sound) (n : Nat)
    (hends : ∀ l ∈ p.leases, l.number = n → ends l.handle) :
    Recounts asks ends p ((invalidate n).run p).2 := by
  simp only [invalidate, Act.run_bind, Act.run_apply]
  rcases endLease_cases hp.books.fitting n with hnone | ⟨l, hmem, h, rfl, hfirst, hf, hs⟩
  · rw [hnone]
    exact (Silent.refl p).recounts
  · have hended := restore_silent p l.number l.handle l.connection
    have hfound := find_restore hf
    simp only [hfirst, Act.run_bind, Act.run_update]
    generalize (p.endLease l.number).2.restore l.handle l.connection = m at hended hfound ⊢
    have hsaid : Silent m (m.log .debug "Connection invalidated"
      [("handle", .shown l.handle.label)]) :=
      ⟨rfl, rfl⟩
    exact (hended.trans hsaid).first (retire_recounts hfound hs (hends l hmem rfl) rfl)

theorem detach_recounts (hp : p.Sound) (n : Nat)
    (hends : ∀ l ∈ p.leases, l.number = n → ends l.handle) :
    Recounts asks ends p ((detach n).run p).2 := by
  simp only [detach, Act.run_bind, Act.run_apply]
  rcases endLease_cases hp.books.fitting n with hnone | ⟨l, hmem, h, rfl, hfirst, hf, hs⟩
  · rw [hnone]
    exact (Silent.refl p).recounts
  · simp only [hfirst, Act.run_bind, Act.run_update, Act.run_pure]
    generalize hm : Pool.log { (p.endLease l.number).2 with
      detached := l.connection :: (p.endLease l.number).2.detached } .debug "Connection detached"
      [("handle", .shown l.handle.label)] = m
    have hfound : m.find? l.handle = some h := hm ▸ hf
    have hsaid : Silent p m := hm ▸ ⟨rfl, rfl⟩
    exact hsaid.first (retire_recounts hfound hs (hends l hmem rfl) rfl)

theorem releaseEnlisted_recounts (hp : p.Sound) (t : Thread) (id : HandleId)
    (hends : p.closed = true → ends id) :
    Recounts asks ends p ((releaseEnlisted t id).run p).2 := by
  have happart : Silent p (p.disassociate id) := ⟨rfl, rfl⟩
  simp only [releaseEnlisted, Act.run_bind, Act.run_read]
  split
  · next hf =>
    have hregroup : Step none p (p.disassociate id) := .regroup _
    have hactive : (p.disassociate id).stateOf? id = some .checkedOut := stateOf_of_find hf
    simp only [Act.run_bind, Act.run_read, Act.run_update, Act.run_apply,
      transition_of (legal_return p) (stateOf_home hactive), if_true, Act.run_pure]
    exact happart.first (return_recounts (hregroup.sound hp).lineup hactive t _ hends)
  · exact (Silent.refl p).recounts
  · exact happart.recounts

theorem write_silent (p : Pool) (n : Nat) (text : String) : Silent p (p.write n text) := ⟨rfl, rfl⟩

/-- Every operation tells what it comes to, unless it puts another bus in the place of the old
one. -/
theorem Operation.recounts (hp : p.Sound) (op : Operation) (hbus : ∀ ls b, op ≠ .listen ls b) :
    Recounts (op.Asks p) (op.Ends p) p (op.run p) := by
  cases op with
  | acquire t deadline => exact acquire_recounts hp t deadline (Or.inl ⟨deadline, rfl⟩)
  | resume n => exact resume_recounts hp n fun a ha hid => Or.inr ⟨a, ha, hid ▸ rfl, rfl⟩
  | release t n => exact release_recounts hp t n fun l hl hn hc => ⟨hc, l, hl, hn, rfl⟩
  | invalidate n => exact invalidate_recounts hp n fun l hl hn => ⟨l, hl, hn, rfl⟩
  | detach n => exact detach_recounts hp n fun l hl hn => ⟨l, hl, hn, rfl⟩
  | write n text => exact (write_silent p n text).recounts
  | releaseEnlisted t id => exact releaseEnlisted_recounts hp t id fun hc => ⟨hc, rfl⟩
  | sweep t s => exact (sweep_murmurs p t s).recounts
  | execute t s id => exact (execute_murmurs p t s id).recounts
  | topUp => exact (topUp_silent p).recounts
  | setFloor n => exact (setFloor_silent p n).recounts
  | setPatience d => exact (setPatience_silent p d).recounts
  | create => exact (create_murmurs p).recounts
  | overtake n => exact (overtake_silent p n).recounts
  | abandon n => exact (abandon_silent p n).recounts
  | close => exact (close_murmurs p).recounts
  | vanish => exact (vanish_murmurs p).recounts
  | disown => exact Silent.recounts ⟨rfl, rfl⟩
  | wait n => exact Silent.recounts ⟨rfl, rfl⟩
  | regroup us => exact Silent.recounts ⟨rfl, rfl⟩
  | refit f => exact Silent.recounts ⟨rfl, rfl⟩
  | listen ls b => exact absurd rfl (hbus ls b)

/-- What an operation comes to on the roll, whoever is told of it. -/
theorem Operation.tale (hp : p.Sound) (op : Operation) :
    ∃ es, p.roll.Tale (op.Asks p) (op.Ends p) es (op.run p).roll := by
  by_cases hlisten : ∃ ls b, op = .listen ls b
  · obtain ⟨ls, b, rfl⟩ := hlisten
    exact ⟨[], .other (List.forall_mem_nil _) (fun _ hk => hk) .nil⟩
  · obtain ⟨es, htale, -⟩ := op.recounts hp fun ls b hop => hlisten ⟨ls, b, hop⟩
    exact ⟨es, htale⟩

end Pool
end ConnPool
