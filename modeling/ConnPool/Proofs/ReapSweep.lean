import ConnPool.Proofs.Floor
import ConnPool.Proofs.Lists
import ConnPool.Proofs.SweepReports

namespace ConnPool

namespace Pool

variable {p q : Pool} {id : HandleId}

/-- The idle handles that were not used for longer than the reap timeout. -/
def stale (p : Pool) : List Handle := p.handles.filter fun h => h.state = .checkedIn && p.isStale h

/-- Used longer ago than the other, or as long ago and before it in the collection. -/
def Precedes (p : Pool) (a b : Handle) : Prop :=
  a.lastAccess < b.lastAccess ∨ a.lastAccess = b.lastAccess ∧ [a, b].Sublist p.handles

theorem mem_stale {h : Handle} :
    h ∈ p.stale ↔ h ∈ p.handles ∧ h.state = .checkedIn ∧ p.isStale h = true := by
  simp only [stale, List.mem_filter, Bool.and_eq_true, decide_eq_true_eq]

/-- What a reap sweep picks out. -/
structure Picked (p : Pool) (hs : List Handle) : Prop where
  mem : ∀ h ∈ hs, h ∈ p.stale
  nodup : (hs.map (·.id)).Nodup
  length : hs.length = min p.stale.length (p.size.count - p.floor)
  ordered : hs.Pairwise p.Precedes
  first : ∀ a ∈ hs, ∀ b ∈ p.stale, b ∉ hs → p.Precedes a b

theorem picked_candidates (hp : p.ledger.Fitting) : Picked p p.reapCandidates := by
  have hstale : p.stale.Nodup := (handles_nodup hp).filter _
  have hperm := List.mergeSort_perm p.stale fun a b => decide (a.lastAccess ≤ b.lastAccess)
  have hordered := (mergeSort_stable Handle.lastAccess hstale).imp fun {a b} h =>
    show p.Precedes a b from h.imp_right fun ⟨heq, hsub⟩ => ⟨heq, hsub.trans List.filter_sublist⟩
  have htake : p.reapCandidates = (p.stale.mergeSort fun a b => a.lastAccess ≤ b.lastAccess).take
    (p.size.count - p.floor) := rfl
  generalize (p.stale.mergeSort fun a b => decide (a.lastAccess ≤ b.lastAccess)) = sorted at *
  have hmem : ∀ h ∈ p.reapCandidates, h ∈ p.stale := by
    intro h hh
    rw [htake] at hh
    exact hperm.mem_iff.mp (List.mem_of_mem_take hh)
  refine ⟨hmem, ?_, ?_, ?_, ?_⟩
  · rw [htake]
    have hids : (p.stale.map (·.id)).Nodup := (ids_nodup hp).sublist (List.filter_sublist.map _)
    exact ((hperm.map _).nodup_iff.mpr hids).sublist ((List.take_sublist _ _).map _)
  · rw [htake, List.length_take, hperm.length_eq, Nat.min_comm]
  · rw [htake]
    exact hordered.sublist (List.take_sublist _ _)
  · intro a ha b hb hout
    rw [← List.take_append_drop (p.size.count - p.floor) sorted] at hordered
    refine (List.pairwise_append.mp hordered).2.2 a (htake ▸ ha) b ?_
    have hin : b ∈ sorted := hperm.mem_iff.mpr hb
    rw [← List.take_append_drop (p.size.count - p.floor) sorted] at hin
    exact (List.mem_append.mp hin).resolve_left (htake ▸ hout)

/-- A stale idle handle is reaped while the pool is above its floor. -/
theorem reap_run {h : Handle} {c : Connection} (ho : p.closed = false)
    (hf : p.find? id = some h) (hs : h.state = .checkedIn) (hc : h.slot = some c)
    (hstale : p.isStale h = true) (hroom : p.floor < p.size.count) :
    ∃ q, (reap id).run p = (true, q) ∧
      q.muted = ((p.count DestroyReason.idleTimeout.charge).remove h).muted ∧
      p.Utters [.close c] [.destroyed p.name id .idleTimeout] q := by
  have hidle : Pool.stateOf? { p with size := p.size.down } id = some .checkedIn :=
    (stateOf_of_find hf).trans (congrArg some hs)
  have hclaim : p.claimStale id =
      (true, Pool.restate { p with size := p.size.down } id .checkedIn .toDestroy) := by
    have hkeep : ¬ (p.closed || !p.isStale h || decide (p.size.count ≤ p.floor)) = true := by
      rw [ho, hstale, decide_eq_false (Nat.not_le.mpr hroom)]
      exact Bool.false_ne_true
    simp only [claimStale, hf, if_neg hkeep]
    rw [transition_of rfl hidle]
  let m : Pool := Pool.notify (Pool.count { p with size := p.size.down }
    DestroyReason.idleTimeout.charge) (.onTimeout id)
  have hfm : m.find? id = some h := hf
  have hend := destroyNow_muted (s := .checkedIn) hfm (by decide) .idleTimeout true
  have hshown : { h with state := .checkedIn } = h := by rw [← hs]
  have hfull : ((m.restate id .checkedIn .toDestroy).find? id).bind (·.slot) = some c := by
    rw [find_restate, hfm]
    exact hc
  have hready : p.Utters [] [] (m.restate id .checkedIn .toDestroy) := by
    have hcount : p.Utters [] [] (Pool.count { p with size := p.size.down }
      DestroyReason.idleTimeout.charge) := .nothing rfl rfl rfl rfl
    exact (hcount.then (utters_notify _)).then (.nothing rfl rfl rfl rfl)
  refine ⟨((destroyNow id .idleTimeout true).run (m.restate id .checkedIn .toDestroy)).2,
    ?_, ?_, ?_⟩
  · simp only [reap, Act.run_bind, Act.run_apply, hclaim, if_true, Act.run_update,
      Act.run_pure]
    rfl
  · rw [hend, hshown]
    rfl
  · exact hready.after (utters_destroyNow hfull .idleTimeout true)

/-- Handles have left the pool one after the other because nobody used them. -/
structure Culled (p : Pool) (hs : List Handle) (q : Pool) : Prop where
  handles : q.handles = p.handles.filter fun h => h.id ∉ hs.map (·.id)
  leases : q.leases = p.leases
  closures : q.closures = (hs.filterMap (·.slot)).reverse ++ p.closures
  counters : q.counters = { p.counters with
    reaped := p.counters.reaped + hs.length
    destroyed := p.counters.destroyed + hs.length }
  size : q.size.count = p.size.count - hs.length
  floor : q.floor = p.floor
  cap : q.cap = p.cap
  closed : q.closed = p.closed
  heard : p.Utters ((hs.filterMap (·.slot)).map .close)
    (hs.map fun h => .destroyed p.name h.id .idleTimeout) q

theorem Culled.nil (p : Pool) : Culled p [] p := by
  refine ⟨?_, rfl, rfl, rfl, rfl, rfl, rfl, rfl, .refl p⟩
  exact (List.filter_eq_self.mpr fun h _ => by simp).symm

theorem Culled.cons {m : Pool} {h : Handle} {hs : List Handle} {c : Connection}
    (hc : h.slot = some c)
    (hm : m.muted = ((p.count DestroyReason.idleTimeout.charge).remove h).muted)
    (hsaid : p.Utters [.close c] [.destroyed p.name h.id .idleTimeout] m) (hq : Culled m hs q) :
    Culled p (h :: hs) q := by
  have hleft : ∀ {β : Type} (f : Pool → β), (∀ r : Pool, f r.muted = f r) →
      f m = f ((p.count DestroyReason.idleTimeout.charge).remove h) :=
    fun f hf => eq_of_muted f hf hm
  refine ⟨?_, ?_, ?_, ?_, ?_, ?_, ?_, ?_, ?_⟩
  · rw [hq.handles, hleft Pool.handles fun _ => rfl]
    simp only [remove, count, List.filter_filter]
    refine List.filter_congr fun k _ => ?_
    simp only [List.map_cons, List.mem_cons, not_or, Bool.decide_and, Bool.and_comm, ne_eq]
  · exact hq.leases.trans (hleft Pool.leases fun _ => rfl)
  · rw [hq.closures, hleft Pool.closures fun _ => rfl]
    simp only [remove, count, hc, List.filterMap_cons, List.reverse_cons, List.append_assoc,
      Option.toList_some]
  · rw [hq.counters, hleft Pool.counters fun _ => rfl]
    simp only [remove, count, DestroyReason.charge, List.length_cons, Nat.add_assoc,
      Nat.add_comm 1]
  · have hdown := Tally.count_down p.size
    rw [hq.size, hleft Pool.size fun _ => rfl]
    simp only [remove, count, hdown, List.length_cons]
    omega
  · exact hq.floor.trans (hleft Pool.floor fun _ => rfl)
  · exact hq.cap.trans (hleft Pool.cap fun _ => rfl)
  · exact hq.closed.trans (hleft Pool.closed fun _ => rfl)
  · have hall := hsaid.trans hq.heard
    rw [hsaid.name] at hall
    simp only [List.filterMap_cons, hc, List.map_cons]
    exact hall

/-- Who is stale still is when another has left. -/
theorem stale_remove {m : Pool} {h k : Handle}
    (hm : m.muted = ((p.count DestroyReason.idleTimeout.charge).remove h).muted) (hk : k ∈ p.stale)
    (hid : k.id ≠ h.id) : k ∈ m.stale := by
  obtain ⟨hmem, hidle, hstale⟩ := mem_stale.mp hk
  have hhandles : m.handles = p.handles.filter (·.id ≠ h.id) :=
    eq_of_muted (p := (p.count DestroyReason.idleTimeout.charge).remove h) Pool.handles
      (fun _ => rfl) hm
  have hsame : m.isStale k = p.isStale k :=
    eq_of_muted (p := (p.count DestroyReason.idleTimeout.charge).remove h)
      (fun r : Pool => r.isStale k) (fun _ => rfl) hm
  refine mem_stale.mpr ⟨?_, hidle, hsame.trans hstale⟩
  rw [hhandles]
  exact List.mem_filter.mpr ⟨hmem, decide_eq_true hid⟩

/-- Stale handles are all reaped, if they are not more than the pool has above its floor. -/
theorem reapAll_run (hp : p.Sound) (ho : p.closed = false) (t : Thread) {hs : List Handle}
    (hstale : ∀ h ∈ hs, h ∈ p.stale) (hnodup : (hs.map (·.id)).Nodup)
    (hroom : hs.length ≤ p.size.count - p.floor) :
    ∃ q, (executeAll t .reap (hs.map (·.id))).run p = (hs.length, q) ∧ Culled p hs q := by
  induction hs generalizing p with
  | nil => exact ⟨p, rfl, .nil p⟩
  | cons h hs ih =>
    obtain ⟨hmem, hidle, hold⟩ := mem_stale.mp (hstale h List.mem_cons_self)
    obtain ⟨c, hc⟩ := slot_of_idle hp.books.fitting hmem hidle
    obtain ⟨hfresh, hrest⟩ := List.nodup_cons.mp hnodup
    rw [List.length_cons] at hroom
    obtain ⟨m, hrun, hm, hsaid⟩ :=
      reap_run ho (find_of_mem hp.books.fitting hmem) hidle hc hold (by omega)
    have hsteps : Steps none p m := by
      have hreap : Steps none p ((reap h.id).run p).2 := steps_reap hp h.id
      rw [hrun] at hreap
      exact hreap
    have hleft : Culled p [h] m := .cons hc hm hsaid (.nil m)
    have hsize := hleft.size
    have hfloor := hleft.floor
    rw [List.length_singleton] at hsize
    have hstill : ∀ k ∈ hs, k ∈ m.stale := by
      intro k hk
      have hother : k.id ≠ h.id := fun hid => hfresh (List.mem_map.mpr ⟨k, hk, hid⟩)
      exact stale_remove hm (hstale k (List.mem_cons_of_mem _ hk)) hother
    obtain ⟨q, hall, hq⟩ := ih (hsteps.sound hp) (hleft.closed.trans ho) hstill hrest (by omega)
    refine ⟨q, ?_, .cons hc hm hsaid hq⟩
    simp only [List.map_cons, executeAll, execute, Act.run_bind, hrun, hall, Act.run_pure]
    rfl

/-- What a reap sweep comes to: the handles that went, how many they are, and the pool without
them. -/
structure Reaped (p : Pool) (gone : List Handle) (r : Nat × Pool) : Prop where
  picked : Picked p gone
  full : ∀ h ∈ gone, ∃ c, h.slot = some c
  count : r.1 = gone.length
  handles : r.2.handles = p.handles.filter fun h => h.id ∉ gone.map (·.id)
  leases : r.2.leases = p.leases
  closures : r.2.closures = (gone.filterMap (·.slot)).reverse ++ p.closures
  counters : r.2.counters = { p.counters with
    reaped := p.counters.reaped + r.1
    destroyed := p.counters.destroyed + r.1 }
  size : r.2.size.count = if p.floor ≤ p.size.count then p.size.count - r.1 else p.floor
  heard : p.Utters ((gone.filterMap (·.slot)).map .close)
    (gone.map fun h => .destroyed p.name h.id .idleTimeout) r.2

theorem reaped_sweep (hp : p.Sound) (ho : p.closed = false) (hfloor : p.floor ≤ p.cap)
    (t : Thread) :
    Reaped p p.reapCandidates ((sweep t .reap).run p) := by
  have hpicked := picked_candidates hp.books.fitting
  have hlength := hpicked.length
  obtain ⟨q, hrun, hq⟩ := reapAll_run hp ho t hpicked.mem hpicked.nodup (by omega)
  have hswept : (sweep t .reap).run p = (p.reapCandidates.length, q.topUp) := by
    rw [sweep_open ho t (by decide)]
    simp only [plan, hrun]
  have hsame := fillTo_same q q.floor
  have hsize := size_topUp (hq.closed.trans ho) (hq.floor.trans_le (hfloor.trans_eq hq.cap.symm))
  rw [hswept]
  refine ⟨hpicked, fun h hh => ?_, rfl, ?_, ?_, ?_, ?_, ?_, hq.heard.then utters_topUp⟩
  · obtain ⟨hmem, hidle, -⟩ := mem_stale.mp (hpicked.mem h hh)
    exact slot_of_idle hp.books.fitting hmem hidle
  · exact (congrArg Pool.handles hsame).trans hq.handles
  · exact (congrArg Pool.leases hsame).trans hq.leases
  · exact (congrArg Pool.closures hsame).trans hq.closures
  · exact (congrArg Pool.counters hsame).trans hq.counters
  · have hleft := hq.size
    have hfl := hq.floor
    change q.topUp.size.count = _
    split <;> omega

/-- Whatever was done to an open pool, a reap sweep takes away as many stale idle handles as there
are and as the pool has above its floor, those that were used longest ago. -/
theorem sweep_reaps_least_recent {c : Config} {f : Factory} {ls : List Listener} {us : Units}
    (hb : build c f ls us = .ok (some p)) (ops : List Operation) (ho : (p.after ops).closed = false)
    (t : Thread) :
    ∃ gone, Reaped (p.after ops) gone ((sweep t .reap).run (p.after ops)) :=
  ⟨_, reaped_sweep ((fresh_of_build hb).settled.after ops).sound ho (floor_le_cap hb ops) t⟩

/-- Of three idle connections two may go when one is to stay. -/
theorem two_of_three_reaped :
    ∃ p, build { minSize := 1, maxSize := 3, prefill := .toMax, reapIdleTimeout := .zero }
        {} [] {} = .ok (some p) ∧
      (p.after [.create, .create, .create]).closed = false ∧
      (p.after [.create, .create, .create]).stale.length = 3 ∧
      ∃ gone, Reaped (p.after [.create, .create, .create]) gone
          ((sweep .background .reap).run (p.after [.create, .create, .create])) ∧
        gone.length = 2 := by
  refine ⟨_, rfl, rfl, rfl, ?_⟩
  obtain ⟨gone, hgone⟩ := @sweep_reaps_least_recent _
    { minSize := 1, maxSize := 3, prefill := .toMax, reapIdleTimeout := .zero } {} [] {} rfl
    [.create, .create, .create] rfl .background
  exact ⟨gone, hgone, hgone.picked.length.trans rfl⟩

/-- Those of the collection that are among some of its members are as many as these. -/
theorem length_filter_ids (hp : p.ledger.Fitting) {gone : List Handle}
    (hmem : ∀ h ∈ gone, h ∈ p.handles)
    (hnodup : (gone.map (·.id)).Nodup) :
    (p.handles.filter fun h => h.id ∈ gone.map (·.id)).length = gone.length := by
  have hids : ((p.handles.filter fun h => h.id ∈ gone.map (·.id)).map (·.id)).Perm
      (gone.map (·.id)) := by
    have hsub := (ids_nodup hp).sublist ((List.filter_sublist (l := p.handles)
      (p := fun h => decide (h.id ∈ gone.map (·.id)))).map (·.id))
    refine (List.perm_ext_iff_of_nodup hsub hnodup).mpr fun id => ?_
    simp only [List.mem_map, List.mem_filter, decide_eq_true_eq]
    constructor
    · rintro ⟨h, ⟨-, k, hk, hid⟩, rfl⟩
      exact ⟨k, hk, hid⟩
    · rintro ⟨h, hh, rfl⟩
      exact ⟨h, ⟨hmem h hh, h, hh, rfl⟩, rfl⟩
  have hlength := hids.length_eq
  rw [List.length_map, List.length_map] at hlength
  exact hlength

/-- What a reap sweep leaves of the collection. A creation in flight counts as much as a handle. -/
structure Spared (p : Pool) (r : Nat × Pool) : Prop where
  left : r.2.handles.length =
    p.handles.length - min p.stale.length (p.handles.length + p.inFlight.length - p.floor)
  floor : min p.handles.length p.floor ≤ r.2.handles.length + p.inFlight.length
  settled : p.inFlight = [] → min p.handles.length p.floor ≤ r.2.handles.length

theorem Reaped.spared (hp : p.Sound) {gone : List Handle} {r : Nat × Pool} (h : Reaped p gone r) :
    Spared p r := by
  have hmem : ∀ k ∈ gone, k ∈ p.handles := fun k hk => (mem_stale.mp (h.picked.mem k hk)).1
  have hgone := length_filter_ids hp.books.fitting hmem h.picked.nodup
  have hsplit := List.length_eq_length_filter_add (l := p.handles) fun k => k.id ∈ gone.map (·.id)
  have hsize : p.size.count = (p.handles.map (·.account)).length + p.inFlight.length :=
    congrArg Tally.count hp.books.counted.size_eq
  have hpicked := h.picked.length
  have hkept : r.2.handles.length =
      (p.handles.filter fun k => !decide (k.id ∈ gone.map (·.id))).length := by
    rw [h.handles]
    simp only [decide_not]
  rw [List.length_map] at hsize
  have hleft : r.2.handles.length =
      p.handles.length - min p.stale.length (p.handles.length + p.inFlight.length - p.floor) := by
    omega
  refine ⟨hleft, by omega, fun hnone => ?_⟩
  rw [hnone, List.length_nil] at hleft
  omega

/-- A reap sweep leaves as many handles as the floor asks for, or all there were, but for those that
creations in flight may still bring. -/
theorem floor_kept_but_for_pending {c : Config} {f : Factory} {ls : List Listener} {us : Units}
    (hb : build c f ls us = .ok (some p)) (ops : List Operation) (ho : (p.after ops).closed = false)
    (t : Thread) : Spared (p.after ops) ((sweep t .reap).run (p.after ops)) := by
  have hp := ((fresh_of_build hb).settled.after ops).sound
  exact (reaped_sweep hp ho (floor_le_cap hb ops) t).spared hp

/-- The only idle connection is reaped for the sake of one that is never made. -/
theorem floor_missed :
    ∃ p, build { minSize := 1, maxSize := 2, prefill := .toMax, reapIdleTimeout := .zero }
        { creating := fun n => if n = 2 then .fails "down" else .works } [] {} = .ok (some p) ∧
      (p.after [.create]).closed = false ∧ (p.after [.create]).handles.length = 1 ∧
      (p.after [.create]).floor = 1 ∧
      ((sweep .background .reap).run (p.after [.create])).2.handles.length = 0 := by
  refine ⟨_, rfl, rfl, rfl, rfl, ?_⟩
  have hp := (@fresh_of_build _
    { minSize := 1, maxSize := 2, prefill := .toMax, reapIdleTimeout := .zero }
    { creating := fun n => if n = 2 then .fails "down" else .works } [] {}
    rfl).settled.after [.create]
  exact ((reaped_sweep hp.sound rfl (by decide) .background).spared hp.sound).left.trans rfl

theorem floor_kept_without_pending :
    ∃ p, build { minSize := 1, maxSize := 2, prefill := .toMax, reapIdleTimeout := .zero }
        {} [] {} = .ok (some p) ∧
      (p.after [.create, .create]).closed = false ∧
      Spared (p.after [.create, .create])
      ((sweep .background .reap).run (p.after [.create, .create])) ∧
      (p.after [.create, .create]).inFlight = [] :=
  ⟨_, rfl, rfl, @floor_kept_but_for_pending _
    { minSize := 1, maxSize := 2, prefill := .toMax, reapIdleTimeout := .zero } {} [] {} rfl
    [.create, .create] rfl .background, rfl⟩

end Pool
end ConnPool
