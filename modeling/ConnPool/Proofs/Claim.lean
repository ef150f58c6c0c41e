import ConnPool.Proofs.Step

namespace ConnPool.Pool

/-- An idle handle is claimed: out of the thread's own list, by its entry in the handoff, or by the
entry that the acquirer was served with. -/
inductive Claim (who : Option Nat) (p : Pool) (id : HandleId) : Pool → Prop where
  | own {t : Thread} {q : Pool} (take : p.takeLocal t = (some id, q)) : Claim who p id q
  | queued {t : Thread} {h' : Handoff HandleId} {rs' : Recents} {q : Pool}
    (take : p.handoff.tryTake p.recents t = (some id, h', rs'))
    (claim : Pool.claim { p with handoff := h', recents := rs' } id = (true, q)) : Claim who p id q
  | served {a : Acquirer} {q : Pool} (self : who = some a.taker.id) (mem : a ∈ p.acquirers)
    (served : a.waiting = .served id) (claim : (p.leave a.taker.id).claim id = (true, q)) :
    Claim who p id q

/-- A claimed handle goes out on loan at once. -/
inductive Lend (who : Option Nat) (p : Pool) : Pool → Prop where
  | mk {id : HandleId} {m : Pool} {h : Handle} {c : Connection} (t : Thread) (started : Nat)
    (claim : Claim who p id m) (find : m.find? id = some h) (full : h.slot = some c) :
    Lend who p (m.handOver t started id c)

variable {who : Option Nat} {p q : Pool} {id : HandleId}

/-- The handle without its mark. -/
def unmarked (h : Handle) : Handle := { h with queued := false }

/-- The handles, whether or not there are entries for them. -/
def stock (p : Pool) : List Handle := p.handles.map unmarked

/-- Marks are not looked at. -/
theorem mark_stock (p : Pool) (id : HandleId) (b : Bool) :
    (p.modifyHandle id fun h => { h with queued := b }).stock = p.stock := by
  simp only [stock, modifyHandle, List.map_map]
  refine List.map_congr_left fun h _ => ?_
  simp only [Function.comp]
  split <;> rfl

theorem find_stock (p : Pool) (id : HandleId) :
    p.stock.find? (·.id = id) = (p.find? id).map unmarked :=
  List.find?_map ..

/-- Entries have gone, and perhaps somebody who waited. The handles are as they were but for their
marks. -/
structure Sifted (p q : Pool) : Prop where
  same : q = { p with
    handoff := q.handoff, recents := q.recents, acquirers := q.acquirers, handles := q.handles
    strays := q.strays }
  ledger : q.ledger = p.ledger
  stock : q.stock = p.stock
  acquirers : q.acquirers.Sublist p.acquirers

theorem Sifted.owners (h : Sifted p q) (id : HandleId) :
    (q.find? id).map (·.owner) = (p.find? id).map (·.owner) := by
  have howner : ∀ r : Pool, (r.find? id).map (·.owner) =
      (r.stock.find? (·.id = id)).map (·.owner) := by
    intro r
    rw [find_stock, Option.map_map]
    rfl
  rw [howner, howner, h.stock]

/-- A claim is a change of state after the entry, if any, has gone. -/
structure Claimed (p : Pool) (id : HandleId) (m : Pool) : Prop extends Sifted p m where
  lineup : m.Lineup
  others : ∀ h ∈ m.handles, h.id ≠ id → h ∈ p.handles
  idle : ∃ h, m.find? id = some h ∧ h.state = .checkedIn

theorem Claimed.closed {m : Pool} (h : Claimed p id m) : m.closed = p.closed := by rw [h.same]

theorem Claimed.inFlight {m : Pool} (h : Claimed p id m) : m.inFlight = p.inFlight := by rw [h.same]

/-- What can be claimed is idle. -/
theorem Claimed.stateOf {m : Pool} (h : Claimed p id m) : m.stateOf? id = some .checkedIn := by
  obtain ⟨k, hk, hks⟩ := h.idle
  rw [stateOf_of_find hk, hks]

theorem stateOf_of_isCached (hfit : p.ledger.Fitting) {t : Thread} {n : Nat}
    (h : p.isCached t n = true) : p.stateOf? ⟨n⟩ = some .checkedIn := by
  obtain ⟨k, hk, hn⟩ := List.any_eq_true.mp h
  simp only [decide_eq_true_eq] at hn
  obtain ⟨hid, -, hs⟩ := hn
  have hfind := find_of_mem hfit hk
  have hkid : k.id = ⟨n⟩ := by rw [← hid]
  rw [hkid] at hfind
  rw [stateOf_of_find hfind, hs]

/-- A claim that succeeded found its handle idle. -/
theorem claim_eq {q : Pool} (h : p.claim id = (true, q)) :
    ∃ k, (p.unqueue id).find? id = some k ∧ k.state = .checkedIn ∧
      q = (p.unqueue id).restate id .checkedIn .checkedOut := by
  simp only [claim] at h
  by_cases hs : (p.unqueue id).stateOf? id = some .checkedIn
  · rw [transition_of rfl hs] at h
    obtain ⟨k, hk, hks⟩ := find_of_stateOf hs
    exact ⟨k, hk, hks, (Prod.mk.inj h).2.symm⟩
  · rw [transition_of_ne hs] at h
    cases h

theorem stateOf_of_ledger (h : q.ledger = p.ledger) (k : HandleId) :
    q.stateOf? k = p.stateOf? k := by
  have hstate : ∀ r : Pool, r.stateOf? k =
      (r.ledger.accounts.find? (·.id = k)).map (·.state) := by
    intro r
    simp only [stateOf?, find?, ledger, List.find?_map, Option.map_map]
    rfl
  rw [hstate q, hstate p, h]

variable (p id) in
/-- What is the same of a changed handle is the same of every handle. -/
theorem map_find_modifyHandle {α : Type} (g : Handle → α) (f : Handle → Handle)
    (hf : ∀ h, (f h).id = h.id ∧ g (f h) = g h) (k : HandleId) :
    ((p.modifyHandle id f).find? k).map g = (p.find? k).map g := by
  by_cases hk : k = id
  · rw [hk, find_modifyHandle p id f fun h => (hf h).1, Option.map_map]
    congr 1
    funext h
    exact (hf h).2
  · rw [find_modifyHandle_of_ne p f (fun h => (hf h).1) hk]

variable (p id) in
theorem stateOf_modifyHandle (f : Handle → Handle)
    (hf : ∀ h, (f h).id = h.id ∧ (f h).state = h.state)
    (k : HandleId) : (p.modifyHandle id f).stateOf? k = p.stateOf? k :=
  map_find_modifyHandle p id Handle.state f hf k

/-- A claim that failed found its handle busy or gone. -/
theorem claim_miss {q : Pool} (h : p.claim id = (false, q)) :
    p.stateOf? id ≠ some .checkedIn ∧ q = p.unqueue id := by
  have hsame := stateOf_modifyHandle p id (fun h => { h with queued := false })
    (fun _ => ⟨rfl, rfl⟩) id
  rw [← hsame]
  simp only [claim] at h
  by_cases hs : (p.unqueue id).stateOf? id = some .checkedIn
  · rw [transition_of rfl hs] at h
    cases h
  · rw [transition_of_ne hs] at h
    exact ⟨hs, (Prod.mk.inj h).2.symm⟩

theorem Claim.claimed (h : Claim who p id q) (hp : p.Sound) :
    ∃ m, Claimed p id m ∧ q = m.restate id .checkedIn .checkedOut := by
  have hunqueued : ∀ {r : Pool} {h : Handle}, h ∈ (r.unqueue id).handles → h.id ≠ id →
    h ∈ r.handles :=
    fun hh hid => mem_of_modify (f := fun h => { h with queued := false }) (fun _ => rfl) hh hid
  cases h with
  | @own t q take =>
    obtain ⟨rs, hnone⟩ | ⟨n, rs, hcached, hsome⟩ := p.takeLocal_cases t
    · rw [take] at hnone
      cases hnone
    · rw [take] at hsome
      have hs := stateOf_of_isCached hp.books.fitting hcached
      rw [transition_of (p := { p with recents := rs }) rfl hs] at hsome
      obtain ⟨hid, hq⟩ := Prod.mk.inj hsome
      cases hid
      obtain ⟨k, hk, hks⟩ := find_of_stateOf hs
      refine ⟨{ p with recents := rs }, ⟨⟨rfl, rfl, rfl, List.Sublist.refl _⟩, ?_, fun h hh _ => hh,
        k, hk, hks⟩, hq⟩
      exact hp.lineup.frame ⟨rfl, rfl, rfl, Nat.le_refl _, Nat.le_refl _,
        Shadows.of_sublist (List.Sublist.refl _)⟩
  | @queued t h' rs' q take claim =>
    obtain ⟨k, hk, hks, hq⟩ := claim_eq claim
    refine ⟨unqueue { p with handoff := h', recents := rs' } id,
      ⟨⟨rfl, ?_, ?_, List.Sublist.refl _⟩, (hp.lineup.take take).1, ?_, k, hk, hks⟩, hq⟩
    · exact unqueue_ledger (p := { p with handoff := h', recents := rs' }) id
    · exact mark_stock { p with handoff := h', recents := rs' } id false
    · exact fun h hh hid => hunqueued (r := { p with handoff := h', recents := rs' }) hh hid
  | @served a q self mem served claim =>
    obtain ⟨k, hk, hks, hq⟩ := claim_eq claim
    refine ⟨(p.leave a.taker.id).unqueue id,
      ⟨⟨rfl, ?_, ?_, List.filter_sublist⟩, hp.lineup.leave_served mem served, ?_, k, hk, hks⟩, hq⟩
    · exact unqueue_ledger (p := p.leave a.taker.id) id
    · exact mark_stock (p.leave a.taker.id) id false
    · exact fun h hh hid => hunqueued (r := p.leave a.taker.id) hh hid

theorem Claimed.fitting {m : Pool} (h : Claimed p id m) (hp : p.Sound) : m.ledger.Fitting :=
  h.ledger.symm ▸ hp.books.fitting

theorem Claimed.move {m : Pool} (h : Claimed p id m) (hp : p.Sound) :
    Ledger.Move p.ledger [] (m.restate id .checkedIn .checkedOut).ledger := by
  obtain ⟨k, hk, hks⟩ := h.idle
  have hmove := restate_claim (h.fitting hp) hk hks
  rw [h.ledger] at hmove
  exact hmove

theorem Claimed.sound {m : Pool} (h : Claimed p id m) (hp : p.Sound) :
    (m.restate id .checkedIn .checkedOut).Sound := by
  refine ⟨(h.move hp).sound hp.books, h.lineup.restate id _ _, ?_⟩
  intro ho k hk hs
  by_cases hid : k.id = id
  · obtain ⟨x, -, rfl⟩ := List.mem_map.mp hk
    by_cases hx : x.id = id
    · rw [if_pos hx] at hs
      cases hs
    · rw [if_neg hx] at hid
      exact absurd hid hx
  · have hmem :=
      mem_of_modify (p := m) (f := fun h => { h with state := .checkedOut }) (fun _ => rfl)
      hk hid
    exact hp.marked (h.closed ▸ ho) k (h.others k hmem hid) hs

/-- Nothing can be claimed in a closed pool. -/
theorem Claimed.isOpen {m : Pool} (h : Claimed p id m) (hfinal : p.Final) : p.closed = false := by
  obtain ⟨k, hk, hks⟩ := h.idle
  have hacc : k.account ∈ p.ledger.accounts := h.ledger ▸ List.mem_map_of_mem (mem_of_find hk).1
  obtain ⟨x, hx, hxk⟩ := List.mem_map.mp hacc
  exact open_of_idle hfinal hx ((congrArg Account.state hxk).trans hks)

theorem Claimed.find {m : Pool} (h : Claimed p id m) :
    ∃ k, (m.restate id .checkedIn .checkedOut).find? id = some k ∧ k.state = .checkedOut := by
  obtain ⟨k, hk, -⟩ := h.idle
  refine ⟨{ k with state := .checkedOut }, ?_, rfl⟩
  rw [find_restate, hk, Option.map_some]

theorem assign_frame (t : Thread) (started : Nat) (id : HandleId) :
    Frame p (p.assign t started id) := by
  have hown := frame_modify (p := p) id (fun h => { h with owner := some ⟨t, p.clock⟩ })
    fun _ => ⟨rfl, rfl, fun hs => hs⟩
  have htouch := touch_frame (p.modifyHandle id fun h => { h with owner := some ⟨t, p.clock⟩ }) id
  have hf := hown.trans htouch
  exact ⟨hf.handoff, hf.stances, hf.closed, hf.nextHandle, hf.nextTaker, hf.handles⟩

theorem find_assign (t : Thread) (started : Nat) :
    (p.assign t started id).find? id =
      (p.find? id).map fun h => { h with owner := some ⟨t, p.clock⟩, lastAccess := p.clock } := by
  have hown := find_modifyHandle p id (fun h => { h with owner := some ⟨t, p.clock⟩ }) fun _ => rfl
  have htouch := find_touch (p.modifyHandle id fun h => { h with owner := some ⟨t, p.clock⟩ }) id
  rw [hown, Option.map_map] at htouch
  exact htouch

theorem assign_sound (hp : p.Sound) (t : Thread) (started : Nat) (id : HandleId) :
    (p.assign t started id).Sound := by
  have hk := (assign_frame t started id).keeps hp
  exact ⟨(assign_ledger t started id).symm ▸ hp.books, hk.lineup, hk.marked⟩

/-- A handle that was claimed is lent by a step. -/
theorem handOver_step {h : Handle} {c : Connection} (ho : p.closed = false)
    (hf : p.find? id = some h) (hs : h.state = .checkedOut) (hc : h.slot = some c) (t : Thread)
    (started : Nat) : Step who (p.assign t started id) (p.handOver t started id c) := by
  have hfind : (p.assign t started id).find? id =
      some { h with owner := some ⟨t, p.clock⟩, lastAccess := p.clock } := by
    rw [find_assign, hf, Option.map_some]
  have hopen : (p.assign t started id).closed = false := (assign_frame t started id).closed.trans ho
  exact .lend _ hopen hfind hs hc

/-- Lending leaves everything but the handle and the leases alone. -/
structure Untouched (p q : Pool) : Prop where
  closed : q.closed = p.closed
  gauges : q.gauges = p.gauges
  size : q.size = p.size
  pending : q.pending = p.pending
  inFlight : q.inFlight = p.inFlight
  acquirers : q.acquirers = p.acquirers

theorem lend_untouched (c : Connection) (e : Bool) : Untouched p (p.lend id c e).2 :=
  ⟨rfl, rfl, rfl, rfl, rfl, rfl⟩

theorem Untouched.trans {r : Pool} (h : Untouched p q) (k : Untouched q r) : Untouched p r :=
  ⟨k.closed.trans h.closed, k.gauges.trans h.gauges, k.size.trans h.size, k.pending.trans h.pending,
    k.inFlight.trans h.inFlight, k.acquirers.trans h.acquirers⟩

theorem modifyHandle_untouched (f : Handle → Handle) : Untouched p (p.modifyHandle id f) :=
  ⟨rfl, rfl, rfl, rfl, rfl, rfl⟩

theorem touch_untouched (id : HandleId) : Untouched p (p.touch id) :=
  ⟨rfl, rfl, rfl, rfl, rfl, rfl⟩

theorem assign_untouched (t : Thread) (started : Nat) : Untouched p (p.assign t started id) := by
  have hown : Untouched p (p.modifyHandle id fun h => { h with owner := some ⟨t, p.clock⟩ }) :=
    modifyHandle_untouched _
  have hsame := hown.trans (touch_untouched id)
  exact ⟨hsame.closed, hsame.gauges, hsame.size, hsame.pending, hsame.inFlight, hsame.acquirers⟩

theorem handOver_untouched (t : Thread) (started : Nat) (c : Connection) :
    Untouched p (p.handOver t started id c) := by
  simp only [handOver]
  exact (assign_untouched t started).trans (lend_untouched c _)

theorem handOver_stateOf (t : Thread) (started : Nat) (c : Connection) (k : HandleId) :
    (p.handOver t started id c).stateOf? k = p.stateOf? k := by
  have hlend := stateOf_modifyHandle (p.assign t started id) id
    (fun h => { h with slot := none }) (fun _ => ⟨rfl, rfl⟩) k
  have hassign := stateOf_of_ledger (assign_ledger (p := p) t started id) k
  exact hlend.trans hassign

/-- What lending comes to: one idle handle becomes active. -/
structure Lent (p q : Pool) : Prop where
  sound : q.Sound
  moves : Ledger.Moves p.ledger [] q.ledger
  isOpen : p.closed = false
  closed : q.closed = p.closed
  gauges : q.gauges = p.gauges.moved .checkedIn .checkedOut
  size : q.size = p.size
  pending : q.pending = p.pending
  inFlight : q.inFlight = p.inFlight
  acquirers : q.acquirers.Sublist p.acquirers
  states : ∃ id, p.stateOf? id = some .checkedIn ∧ q.stateOf? id = some .checkedOut ∧
    ∀ k, k ≠ id → q.stateOf? k = p.stateOf? k

theorem restate_stateOf_of_ne {k : HandleId} (hk : k ≠ id) (s t : State) :
    (p.restate id s t).stateOf? k = p.stateOf? k :=
  congrArg (Option.map Handle.state)
    (find_modifyHandle_of_ne p (fun h => { h with state := t }) (fun _ => rfl) hk)

theorem Lend.lent (h : Lend who p q) (hp : p.Sound) (hfinal : p.Final) : Lent p q := by
  obtain @⟨id, m, h, c, t, started, claim, find, full⟩ := h
  obtain ⟨m, hm, rfl⟩ := claim.claimed hp
  have hsound := assign_sound (hm.sound hp) t started id
  obtain ⟨k, hk, hks⟩ := hm.find
  rw [find] at hk
  cases hk
  have hopen : (m.restate id .checkedIn .checkedOut).closed = false :=
    hm.closed.trans (hm.isOpen hfinal)
  have hstep : Step who ((m.restate id .checkedIn .checkedOut).assign t started id)
      ((m.restate id .checkedIn .checkedOut).handOver t started id c) :=
    handOver_step hopen find hks full t started
  have hassign := assign_ledger (p := m.restate id .checkedIn .checkedOut) t started id
  have hlend := hstep.moves hsound.books.fitting
  rw [hassign] at hlend
  have hgauges : m.gauges = p.gauges := congrArg Ledger.gauges hm.ledger
  have hsame : Untouched (m.restate id .checkedIn .checkedOut)
      ((m.restate id .checkedIn .checkedOut).handOver t started id c) :=
    handOver_untouched t started c
  refine ⟨hstep.sound hsound, (hm.move hp).moves.trans hlend, hm.isOpen hfinal,
    hsame.closed.trans hm.closed, ?_, ?_, ?_, hsame.inFlight.trans hm.inFlight, ?_, id, ?_, ?_, ?_⟩
  · rw [hsame.gauges, ← hgauges]
    rfl
  · rw [hsame.size]
    exact congrArg Ledger.size hm.ledger
  · rw [hsame.pending]
    exact congrArg Ledger.pending hm.ledger
  · rw [hsame.acquirers]
    exact hm.acquirers
  · rw [← stateOf_of_ledger hm.ledger, hm.stateOf]
  · rw [handOver_stateOf, stateOf_of_find find, hks]
  · intro k hk
    rw [handOver_stateOf, restate_stateOf_of_ne hk, stateOf_of_ledger hm.ledger]

end ConnPool.Pool
