import ConnPool.Proofs.PoolLedger
import ConnPool.Proofs.Lineup

namespace ConnPool.Pool

/-- What can happen to a pool at once, but for claims, births and closing. `who` is the acquirer on
whose behalf it happens; only he changes his own place among the acquirers. -/
inductive Step (who : Option Nat) (p : Pool) : Pool → Prop where
  | hush {q : Pool} (same : q.muted = p.muted) : Step who p q
  | wait (n : Nat) : Step who p { p with clock := p.clock + n }
  | regroup (us : Units) : Step who p { p with units := us }
  | setFloor (n : Nat) (fits : n ≤ p.cap) : Step who p { p with floor := n }
  | setPatience (n : Nat) : Step who p { p with patience := n }
  | refit (f : Factory) : Step who p { p with factory := f }
  | part (owned gone : Bool) : Step who p { p with owned := owned, gone := gone }
  | draw : Step who p { p with nextTaker := p.nextTaker + 1 }
  | timeOut : Step who p (p.count fun n => { n with timeouts := n.timeouts + 1 })
  | suspect : Step who p (p.count fun n => { n with leaksSuspected := n.leaksSuspected + 1 })
  | touch (id : HandleId) : Step who p (p.touch id)
  | write (n : Nat) (text : String) : Step who p (p.write n text)
  | schedule (a : Option Nat) (room : p.hasRoom = true) : Step who p (p.schedule a)
  | forget {t : Thread} (nothing : (p.takeLocal t).1 = none) : Step who p (p.takeLocal t).2
  | exhaust {t : Thread} {h' : Handoff HandleId} {rs' : Recents}
    (take : p.handoff.tryTake p.recents t = (none, h', rs')) :
    Step who p { p with handoff := h', recents := rs' }
  | skip {t : Thread} {id : HandleId} {h' : Handoff HandleId} {rs' : Recents}
    (take : p.handoff.tryTake p.recents t = (some id, h', rs'))
    (stale : p.stateOf? id ≠ some .checkedIn) :
    Step who p ({ p with handoff := h', recents := rs' }.unqueue id)
  | leave {id : Nat} (self : who = some id)
    (unserved : ∀ a ∈ p.acquirers, a.taker.id = id → a.waiting.handle? = none) :
    Step who p (p.leave id)
  | miss {a : Acquirer} {id : HandleId} (self : who = some a.taker.id) (mem : a ∈ p.acquirers)
    (served : a.waiting = .served id) (stale : p.stateOf? id ≠ some .checkedIn) :
    Step who p ((p.leave a.taker.id).unqueue id)
  | park {a : Acquirer} (self : who = some a.taker.id) (isOpen : p.closed = false)
    (parked : a.waiting = .parked) (drawn : a.taker.id < p.nextTaker)
    (same : ∀ b ∈ p.acquirers, b.taker.id = a.taker.id → b.stance = a.stance) :
    Step who p (p.park a)
  | lend {id : HandleId} {h : Handle} {c : Connection} (e : Bool) (isOpen : p.closed = false)
    (find : p.find? id = some h) (active : h.state = .checkedOut) (full : h.slot = some c) :
    Step who p (p.lend id c e).2
  | giveUp {l : Lease} (mem : l ∈ p.leases) :
    Step who p ((p.endLease l.number).2.restore l.handle l.connection)
  | comeBack {id : HandleId} {h : Handle} {c : Connection} (t : Thread) (isOpen : p.closed = false)
    (find : p.find? id = some h) (active : h.state = .checkedOut) (full : h.slot = some c) :
    Step who p (p.comeBack t id)
  | expel {id : HandleId} {h : Handle} {c : Connection} (reason : DestroyReason)
    (find : p.find? id = some h) (full : h.slot = some c) :
    Step who p ((p.count reason.charge).remove h)
  | letGo {l : Lease} {h : Handle} (mem : l ∈ p.leases) (find : p.find? l.handle = some h) :
    Step who p (p.letGo l h)
  | probe {id : HandleId} {h : Handle} {c c' : Connection} (find : p.find? id = some h)
    (full : h.slot = some c) (same : c'.serial = c.serial) :
    Step who p (p.modifyHandle id fun h => { h with slot := some c' })
  | miscarry {c : Creation} {cs : List Creation} (e : String) (first : p.inFlight = c :: cs) :
    Step who p (p.miscarry c e)
  | abandon (n : Nat) : Step who p (p.abandon n)
  | reorder (cs : List Creation) (same : cs.Perm p.inFlight) : Step who p { p with inFlight := cs }

variable {who : Option Nat} {p q : Pool}

theorem charge_created (reason : DestroyReason) (n : Counters) :
    (reason.charge n).created = n.created := by
  cases reason <;> rfl

theorem charge_destroyed (reason : DestroyReason) (n : Counters) :
    (reason.charge n).destroyed = n.destroyed := by
  cases reason <;> rfl

theorem charge_ledger (reason : DestroyReason) : (p.count reason.charge).ledger = p.ledger := by
  simp only [ledger, count, charge_created, charge_destroyed]
  rfl

theorem probe_ledger (hp : p.ledger.Fitting) {id : HandleId} {h : Handle} {c c' : Connection}
    (hf : p.find? id = some h) (hc : h.slot = some c) (hs : c'.serial = c.serial) :
    (p.modifyHandle id fun h => { h with slot := some c' }).ledger = p.ledger := by
  obtain ⟨pre, post, hb, hid⟩ := between_of_find hp hf
  have hacc := ledger_accounts hb
  rw [modifyHandle_ledger hb hid]
  simp only [Handle.account, hc, hs, Option.map_some] at hacc ⊢
  rw [← hacc]

theorem reorder_ledger {cs : List Creation} (hs : cs.Perm p.inFlight) :
    { p with inFlight := cs }.ledger = p.ledger := by
  simp only [ledger, hs.length_eq]
  rfl

/-- What a step does to the ledger. -/
theorem Step.moves (h : Step who p q) (hp : p.ledger.Fitting) :
    Ledger.Moves p.ledger [] q.ledger := by
  have of_eq : ∀ {r : Pool}, r.ledger = p.ledger → Ledger.Moves p.ledger [] r.ledger :=
    fun heq => heq ▸ .refl _
  cases h with
  | hush same =>
    have hsame : q.muted.ledger = p.muted.ledger := congrArg ledger same
    exact of_eq hsame
  | wait n => exact .refl _
  | regroup us => exact .refl _
  | setFloor n fits => exact .refl _
  | setPatience n => exact .refl _
  | refit f => exact .refl _
  | part owned gone => exact .refl _
  | draw => exact .refl _
  | timeOut => exact .refl _
  | suspect => exact .refl _
  | touch id => exact of_eq (touch_ledger id)
  | write n text => exact of_eq (write_ledger n text)
  | schedule a room => exact (schedule_ledger room a).moves
  | @forget t nothing =>
    obtain ⟨rs, htake⟩ | ⟨n, rs, -, htake⟩ := p.takeLocal_cases t
    · rw [htake]
      exact .refl _
    · rw [htake] at nothing
      cases nothing
  | exhaust take => exact .refl _
  | skip take stale => exact of_eq (unqueue_ledger (p := { p with handoff := _, recents := _ }) _)
  | leave self unserved => exact .refl _
  | @miss a id self mem served stale => exact of_eq (unqueue_ledger (p := p.leave a.taker.id) id)
  | park self isOpen parked drawn same => exact of_eq (park_ledger _)
  | lend e isOpen find active full => exact (lend_ledger hp find active full e).moves
  | giveUp mem => exact (restore_ledger hp mem).moves
  | comeBack t isOpen find active full => exact (comeBack_ledger hp find active full t).moves
  | expel reason find full =>
    have hcharge := charge_ledger (p := p) reason
    have hmove := remove_expel (p := p.count reason.charge) (hcharge.symm ▸ hp) find full
    rw [hcharge] at hmove
    exact hmove.moves
  | letGo mem find => exact (letGo_ledger hp mem find).moves
  | probe find full same => exact of_eq (probe_ledger hp find full same)
  | miscarry e first => exact (miscarry_ledger first e).moves
  | abandon n => exact abandon_ledger n
  | reorder cs same => exact of_eq (reorder_ledger same)

theorem stances_tell (as : List Acquirer) (n : Nat) (e : Option String) :
    (as.map fun a => if a.taker.id = n ∧ a.ticket = some .inFlight then
      { a with ticket := some (.settled e) } else a).map (·.stance) = as.map (·.stance) := by
  rw [List.map_map]
  refine List.map_congr_left fun a _ => ?_
  simp only [Function.comp]
  split <;> rfl

theorem stances_conclude (c : Creation) (e : Option String) :
    (p.concludeCreation c e).acquirers.map (·.stance) = p.acquirers.map (·.stance) := by
  simp only [concludeCreation]
  cases c.acquirer with
  | none => rfl
  | some a => exact stances_tell p.acquirers a e

theorem frame_conclude (c : Creation) (e : Option String) : Frame p (p.concludeCreation c e) := by
  have hs := stances_conclude (p := p) c e
  simp only [concludeCreation] at hs ⊢
  cases hc : c.acquirer with
  | none =>
    exact ⟨rfl, rfl, rfl, Nat.le_refl _, Nat.le_refl _, Shadows.of_sublist (List.Sublist.refl _)⟩
  | some a =>
    rw [hc] at hs
    exact ⟨rfl, hs, rfl, Nat.le_refl _, Nat.le_refl _, Shadows.of_sublist (List.Sublist.refl _)⟩

/-- What all steps keep, beside the books. -/
structure Keeps (p q : Pool) : Prop where
  lineup : q.Lineup
  marked : q.Marked
  final : p.Final → q.Final
  closed : q.closed = p.closed

theorem Frame.keeps (hf : Frame p q) (hp : p.Sound) : Keeps p q where
  lineup := hp.lineup.frame hf
  marked := hp.marked.shadows hf.closed hf.handles
  final := fun h => h.shadows hf.closed hf.handles
  closed := hf.closed

theorem Frame.of_muted (h : q.muted = p.muted) : Frame p q := by
  have hhandles : q.muted.handles = p.muted.handles := congrArg Pool.handles h
  have hacq : q.muted.acquirers = p.muted.acquirers := congrArg Pool.acquirers h
  have hhandoff : q.muted.handoff = p.muted.handoff := congrArg Pool.handoff h
  have hclosed : q.muted.closed = p.muted.closed := congrArg Pool.closed h
  have hnext : q.muted.nextHandle = p.muted.nextHandle := congrArg Pool.nextHandle h
  have htaker : q.muted.nextTaker = p.muted.nextTaker := congrArg Pool.nextTaker h
  exact ⟨hhandoff, congrArg (List.map Acquirer.stance) hacq, hclosed, Nat.le_of_eq hnext.symm,
    Nat.le_of_eq htaker.symm, Shadows.of_sublist (hhandles ▸ List.Sublist.refl _)⟩

theorem Frame.trans {r : Pool} (h : Frame p q) (k : Frame q r) : Frame p r :=
  ⟨k.handoff.trans h.handoff, k.stances.trans h.stances, k.closed.trans h.closed,
    Nat.le_trans h.nextHandle k.nextHandle, Nat.le_trans h.nextTaker k.nextTaker,
    k.handles.trans h.handles⟩

/-- A mark may go from a handle that is not idle. -/
theorem Marked.unqueue (hfit : p.ledger.Fitting) (hp : p.Marked) {id : HandleId}
    (hs : p.stateOf? id ≠ some .checkedIn) : (p.unqueue id).Marked := by
  intro ho
  refine List.forall_mem_map.mpr fun h hh => ?_
  by_cases hid : h.id = id
  · intro hidle
    rw [if_pos hid] at hidle
    have hstate := stateOf_of_find (find_of_mem hfit hh)
    rw [hid] at hstate
    exact absurd (hstate.trans (congrArg _ hidle)) hs
  · rw [if_neg hid]
    exact hp ho h hh

theorem Final.unqueue (hp : p.Final) (id : HandleId) : (p.unqueue id).Final := by
  intro hc
  refine List.forall_mem_map.mpr fun h hh => ?_
  by_cases hid : h.id = id
  · rw [if_pos hid]
    exact hp hc h hh
  · rw [if_neg hid]
    exact hp hc h hh

theorem frame_modify (id : HandleId) (f : Handle → Handle)
    (hf : ∀ h, (f h).id = h.id ∧ (f h).queued = h.queued ∧
      ((f h).state = .checkedIn → h.state = .checkedIn)) : Frame p (p.modifyHandle id f) :=
  ⟨rfl, rfl, rfl, Nat.le_refl _, Nat.le_refl _, shadows_modify p id f hf⟩

theorem touch_frame (p : Pool) (id : HandleId) : Frame p (p.touch id) := by
  have hf := frame_modify (p := p) id (fun h => { h with lastAccess := p.clock })
    fun _ => ⟨rfl, rfl, fun hs => hs⟩
  exact ⟨hf.handoff, hf.stances, hf.closed, hf.nextHandle, hf.nextTaker, hf.handles⟩

theorem frame_abandon (n : Nat) : Frame p (p.abandon n) := by
  simp only [abandon]
  have still : Frame p p :=
    ⟨rfl, rfl, rfl, Nat.le_refl _, Nat.le_refl _, Shadows.of_sublist (List.Sublist.refl _)⟩
  split
  · next creation hclosed hn =>
    cases creation.acquirer with
    | none => exact ⟨rfl, rfl, rfl, Nat.le_refl _, Nat.le_refl _, still.handles⟩
    | some a =>
      exact ⟨rfl, stances_tell p.acquirers a _, rfl, Nat.le_refl _, Nat.le_refl _, still.handles⟩
  · exact still

theorem mem_of_modify {id : HandleId} {f : Handle → Handle} (hf : ∀ h, (f h).id = h.id) {h : Handle}
    (hh : h ∈ (p.modifyHandle id f).handles) (hid : h.id ≠ id) : h ∈ p.handles := by
  obtain ⟨k, hk, rfl⟩ := List.mem_map.mp hh
  by_cases hkid : k.id = id
  · rw [if_pos hkid] at hid
    exact absurd ((hf k).trans hkid) hid
  · rw [if_neg hkid]
    exact hk

/-- Who is made idle and published at once can be found again. -/
theorem Marked.available (hfit : p.ledger.Fitting) {id : HandleId} (t : Thread)
    (hp : p.closed = false → ∀ h ∈ p.handles, h.id ≠ id → h.state = .checkedIn → h.queued = true)
    (hc : (p.available t id).closed = p.closed) : (p.available t id).Marked := by
  intro ho
  rw [available_handles hfit t id]
  intro h hh hs
  by_cases hid : h.id = id
  · obtain ⟨k, -, rfl⟩ := List.mem_map.mp hh
    by_cases hk : k.id = id
    · rw [if_pos hk]
    · rw [if_neg hk] at hid
      exact absurd hid hk
  · have hmem := mem_of_modify (f := fun h => { h with queued := true }) (fun _ => rfl) hh hid
    exact hp (hc ▸ ho) h hmem hid hs

theorem closed_available (t : Thread) (id : HandleId) : (p.available t id).closed = p.closed := by
  unfold available Pool.offer
  split
  · rfl
  · split
    split <;> rfl

theorem cacheLocally_frame (t : Thread) (id : HandleId) : Frame p (p.cacheLocally t id) := by
  simp only [cacheLocally]
  split
  · have hf := frame_modify (p := p) id (fun h => { h with cachedBy := some t })
      fun _ => ⟨rfl, rfl, fun hs => hs⟩
    exact ⟨rfl, rfl, rfl, Nat.le_refl _, Nat.le_refl _, hf.handles⟩
  · exact ⟨rfl, rfl, rfl, Nat.le_refl _, Nat.le_refl _, Shadows.of_sublist (List.Sublist.refl _)⟩

theorem cacheLocally_mem {t : Thread} {id : HandleId} {h : Handle}
    (hh : h ∈ (p.cacheLocally t id).handles) (hid : h.id ≠ id) : h ∈ p.handles := by
  simp only [cacheLocally] at hh
  split at hh
  · exact mem_of_modify (f := fun h => { h with cachedBy := some t }) (fun _ => rfl) hh hid
  · exact hh

theorem homecoming_lineup (hp : p.Lineup) (t : Thread) (id : HandleId) :
    (p.homecoming t id).Lineup := by
  have hclear := frame_modify (p := p) id (fun h => { h with owner := none })
    fun _ => ⟨rfl, rfl, fun hs => hs⟩
  have hstart : ((p.clearOwner id).touch id).Lineup :=
    (hp.frame hclear).frame (touch_frame (p.clearOwner id) id)
  have hmoved := hstart.restate id .checkedOut .checkedIn
  refine Lineup.frame ?_ (cacheLocally_frame t id)
  exact hmoved.frame ⟨rfl, rfl, rfl, Nat.le_refl _, Nat.le_refl _,
    Shadows.of_sublist (List.Sublist.refl _)⟩

theorem homecoming_mem {t : Thread} {id : HandleId} {h : Handle}
    (hh : h ∈ (p.homecoming t id).handles) (hid : h.id ≠ id) : h ∈ p.handles := by
  have hmoved := cacheLocally_mem hh hid
  have htouched := mem_of_modify (p := (p.clearOwner id).touch id)
    (f := fun h => { h with state := .checkedIn }) (fun _ => rfl) hmoved hid
  have hcleared :=
    mem_of_modify (p := p.clearOwner id) (f := fun h => { h with lastAccess := p.clock })
    (fun _ => rfl) htouched hid
  exact mem_of_modify (p := p) (f := fun h => { h with owner := none }) (fun _ => rfl) hcleared hid

theorem homecoming_closed (t : Thread) (id : HandleId) : (p.homecoming t id).closed = p.closed :=
  (cacheLocally_frame t id).closed

theorem homecoming_fitting (hp : p.ledger.Fitting) {id : HandleId} {h : Handle} {c : Connection}
    (hf : p.find? id = some h) (hs : h.state = .checkedOut) (hc : h.slot = some c) (t : Thread) :
    (p.homecoming t id).ledger.Fitting := by
  have hmove := comeBack_ledger hp hf hs hc t
  rw [comeBack, available_ledger] at hmove
  exact hmove.fitting hp

/-- What comes back is published, so that it can be found again. -/
theorem comeBack_keeps (hp : p.Sound) {id : HandleId} {h : Handle} {c : Connection} (t : Thread)
    (ho : p.closed = false) (hf : p.find? id = some h) (hs : h.state = .checkedOut)
    (hc : h.slot = some c) : Keeps p (p.comeBack t id) := by
  have hfit := homecoming_fitting hp.books.fitting hf hs hc t
  have hlineup := homecoming_lineup hp.lineup t id
  have hclosed := homecoming_closed (p := p) t id
  have hend : (p.comeBack t id).closed = p.closed := (closed_available t id).trans hclosed
  simp only [comeBack] at hend ⊢
  refine ⟨hlineup.available hfit (hclosed.trans ho) t id, ?_, ?_, hend⟩
  · refine Marked.available hfit t ?_ (closed_available t id)
    intro _ k hk hid hidle
    exact hp.marked ho k (homecoming_mem hk hid) hidle
  · intro _ hcl
    rw [hend, ho] at hcl
    cases hcl

theorem park_handles (a : Acquirer) : (p.park a).handles = p.handles := by
  unfold park
  split
  · rfl
  · split
    split <;> rfl

theorem park_closed (a : Acquirer) : (p.park a).closed = p.closed := by
  unfold park
  split
  · rfl
  · split
    split <;> rfl

theorem Step.keeps (h : Step who p q) (hp : p.Sound) : Keeps p q := by
  have still : Shadows p p := Shadows.of_sublist (List.Sublist.refl _)
  cases h with
  | hush same => exact (Frame.of_muted same).keeps hp
  | draw => exact Frame.keeps ⟨rfl, rfl, rfl, Nat.le_refl _, Nat.le_succ _, still⟩ hp
  | touch id => exact (touch_frame p id).keeps hp
  | @forget t nothing =>
    obtain ⟨rs, htake⟩ | ⟨n, rs, -, htake⟩ := p.takeLocal_cases t
    · rw [htake]
      exact Frame.keeps ⟨rfl, rfl, rfl, Nat.le_refl _, Nat.le_refl _, still⟩ hp
    · rw [htake] at nothing
      cases nothing
  | exhaust take => exact ⟨(hp.lineup.exhaust take).1, hp.marked, fun h => h, rfl⟩
  | @skip t id h' rs' take stale =>
    exact ⟨(hp.lineup.take take).1, hp.marked.unqueue hp.books.fitting stale,
      fun h => h.unqueue id, rfl⟩
  | leave self unserved => exact ⟨hp.lineup.leave unserved, hp.marked, fun h => h, rfl⟩
  | @miss a id self mem served stale =>
    exact ⟨hp.lineup.leave_served mem served, hp.marked.unqueue hp.books.fitting stale,
      fun h => h.unqueue id, rfl⟩
  | @park a self isOpen parked drawn same =>
    have hsub : Shadows (p.park a) p :=
      Shadows.of_sublist (park_handles (p := p) a ▸ List.Sublist.refl _)
    exact ⟨hp.lineup.park isOpen parked drawn same, hp.marked.shadows (park_closed a) hsub,
      fun h => h.shadows (park_closed a) hsub, park_closed a⟩
  | @lend id h c e isOpen find active full =>
    have hf := frame_modify (p := p) id (fun h => { h with slot := none })
      fun _ => ⟨rfl, rfl, fun hs => hs⟩
    exact Frame.keeps ⟨rfl, rfl, rfl, Nat.le_refl _, Nat.le_refl _, hf.handles⟩ hp
  | @giveUp l mem =>
    have hf := frame_modify (p := p) l.handle (fun h => { h with slot := some l.connection })
      fun _ => ⟨rfl, rfl, fun hs => hs⟩
    exact Frame.keeps ⟨rfl, rfl, rfl, Nat.le_refl _, Nat.le_refl _, hf.handles⟩ hp
  | comeBack t isOpen find active full => exact comeBack_keeps hp t isOpen find active full
  | expel reason find full =>
    exact Frame.keeps ⟨rfl, rfl, rfl, Nat.le_refl _, Nat.le_refl _,
      Shadows.of_sublist List.filter_sublist⟩ hp
  | letGo mem find =>
    exact Frame.keeps ⟨rfl, rfl, rfl, Nat.le_refl _, Nat.le_refl _,
      Shadows.of_sublist List.filter_sublist⟩ hp
  | @probe id h c c' find full same =>
    exact (frame_modify id (fun h => { h with slot := some c' })
      fun _ => ⟨rfl, rfl, fun hs => hs⟩).keeps
      hp
  | @miscarry c cs e first =>
    have hf := frame_conclude (p := p.tried.forgo) c (some e)
    exact Frame.keeps
      ⟨hf.handoff, hf.stances, hf.closed, hf.nextHandle, hf.nextTaker, hf.handles⟩ hp
  | abandon n => exact (frame_abandon n).keeps hp
  | _ => exact Frame.keeps ⟨rfl, rfl, rfl, Nat.le_refl _, Nat.le_refl _, still⟩ hp

theorem Step.sound (h : Step who p q) (hp : p.Sound) : q.Sound :=
  have hk := h.keeps hp
  ⟨(h.moves hp.books.fitting).sound hp.books, hk.lineup, hk.marked⟩

end ConnPool.Pool
