import ConnPool.Proofs.Floor
import ConnPool.Proofs.Obtaining
import ConnPool.Proofs.SweepReports

namespace ConnPool

namespace Factory

variable {f : Factory} {h k : Handle} {c : Connection}

/-- A handle after a probe of its connection; none if the connection is bad. -/
def verdict (f : Factory) (h : Handle) : Option Handle :=
  h.slot.bind fun c => if (f.probe c).1 then some { h with slot := some (f.probe c).2 } else none

/-- The connection that a probe finds bad, as the probe leaves it. -/
def rejected? (f : Factory) (h : Handle) : Option Connection :=
  h.slot.bind fun c => if (f.probe c).1 then none else some (f.probe c).2

/-- The calls for the sake of one handle: the probe, and the close of what it finds bad. -/
def examining (f : Factory) (h : Handle) : List Note :=
  h.slot.toList.map .probe ++ (f.rejected? h).toList.map .close

theorem verdict_good (hc : h.slot = some c) (hgood : (f.probe c).1 = true) :
    f.verdict h = some { h with slot := some (f.probe c).2 } ∧ f.rejected? h = none := by
  simp only [verdict, rejected?, hc, Option.bind_some, hgood, if_true, and_self]

theorem verdict_bad (hc : h.slot = some c) (hbad : (f.probe c).1 = false) :
    f.verdict h = none ∧ f.rejected? h = some (f.probe c).2 := by
  simp only [verdict, rejected?, hc, Option.bind_some, hbad, Bool.false_eq_true, if_false, and_self]

theorem verdict_id (hk : f.verdict h = some k) : k.id = h.id := by
  obtain ⟨c, -, hprobe⟩ := Option.bind_eq_some_iff.mp hk
  split at hprobe
  · rw [← Option.some.inj hprobe]
  · cases hprobe

/-- A handle that is not rejected keeps everything but what its connection reads. -/
theorem verdict_of_kept (hc : h.slot = some c) (hgood : f.rejected? h = none) :
    ∃ d, d.serial = c.serial ∧ f.verdict h = some { h with slot := some d } := by
  cases hprobe : (f.probe c).1 with
  | true => exact ⟨_, Pool.probe_serial f c, (verdict_good hc hprobe).1⟩
  | false => cases (verdict_bad hc hprobe).2.symm.trans hgood

end Factory

namespace Pool

variable {p q m : Pool} {id : HandleId} {h : Handle} {c : Connection} {hs ks : List Handle}

/-- The handles that wait to be used. -/
def idles (p : Pool) : List Handle := p.handles.filter (·.state = .checkedIn)

/-- Some handles have been probed one after the other. -/
structure Examined (p : Pool) (hs : List Handle) (q : Pool) : Prop where
  handles : q.handles = p.handles.filterMap fun h =>
    if h.id ∈ hs.map (·.id) then p.factory.verdict h else some h
  leases : q.leases = p.leases
  closures : q.closures = (hs.filterMap p.factory.rejected?).reverse ++ p.closures
  counters : q.counters = { p.counters with
    validationFailures := p.counters.validationFailures + (hs.filterMap p.factory.rejected?).length
    destroyed := p.counters.destroyed + (hs.filterMap p.factory.rejected?).length }
  size : max q.size.count p.floor =
    max (p.size.count - (hs.filterMap p.factory.rejected?).length) p.floor
  floor : q.floor = p.floor
  cap : q.cap = p.cap
  closed : q.closed = p.closed
  heard : p.Utters (hs.flatMap p.factory.examining)
    ((hs.filter fun h => (p.factory.rejected? h).isSome).map fun h =>
      .destroyed p.name h.id .validationFailed) q

theorem Examined.nil (p : Pool) : Examined p [] p := by
  refine ⟨?_, rfl, rfl, rfl, rfl, rfl, rfl, rfl, .refl p⟩
  simp only [List.map_nil, List.not_mem_nil, if_false]
  exact (List.filterMap_some).symm

theorem Examined.trans (h : Examined p hs m) (k : Examined m ks q)
    (hapart : ∀ h ∈ hs, h.id ∉ ks.map (·.id)) : Examined p (hs ++ ks) q := by
  have hfactory : m.factory = p.factory := h.heard.factory
  have hname : m.name = p.name := h.heard.name
  have hsize := h.size
  have hsize' := k.size
  have hsaid := h.heard.trans k.heard
  refine ⟨?_, k.leases.trans h.leases, ?_, ?_, ?_, k.floor.trans h.floor, k.cap.trans h.cap,
    k.closed.trans h.closed, ?_⟩
  · rw [k.handles, h.handles, List.filterMap_filterMap, hfactory]
    refine List.filterMap_congr fun x _ => ?_
    simp only [List.map_append, List.mem_append]
    by_cases hx : x.id ∈ hs.map (·.id)
    · have hout : x.id ∉ ks.map (·.id) := by
        obtain ⟨y, hy, hyx⟩ := List.mem_map.mp hx
        exact hyx ▸ hapart y hy
      simp only [hx, if_true, true_or]
      cases hv : p.factory.verdict x with
      | none => rfl
      | some y =>
        rw [← Factory.verdict_id hv] at hout
        simp only [Option.bind_some, hout, if_false]
    · simp only [hx, if_false, false_or, Option.bind_some]
  · rw [k.closures, h.closures, hfactory, List.filterMap_append, List.reverse_append,
      List.append_assoc]
  · rw [k.counters, h.counters, hfactory, List.filterMap_append, List.length_append]
    simp only [Nat.add_assoc]
  · rw [h.floor, hfactory] at hsize'
    rw [List.filterMap_append, List.length_append]
    omega
  · rw [hfactory, hname] at hsaid
    rw [List.flatMap_append, List.filter_append, List.map_append]
    exact hsaid

/-- Filling up afterwards is part of it, and then the floor is reached. -/
theorem Examined.topUp (h : Examined p hs q) (ho : p.closed = false) (hfloor : p.floor ≤ p.cap) :
    Examined p hs q.topUp ∧ p.floor ≤ q.topUp.size.count := by
  have hsame := fillTo_same q q.floor
  have hqfloor : q.floor = p.floor := h.floor
  have hqcap : q.cap = p.cap := h.cap
  have hsize : q.topUp.size.count = max q.size.count q.floor :=
    size_topUp (h.closed.trans ho) (by omega)
  have hleft := h.size
  refine ⟨⟨?_, ?_, ?_, ?_, by omega, ?_, ?_, ?_, h.heard.then utters_topUp⟩, by omega⟩
  · exact (congrArg Pool.handles hsame).trans h.handles
  · exact (congrArg Pool.leases hsame).trans h.leases
  · exact (congrArg Pool.closures hsame).trans h.closures
  · exact (congrArg Pool.counters hsame).trans h.counters
  · exact (congrArg Pool.floor hsame).trans h.floor
  · exact (congrArg Pool.cap hsame).trans h.cap
  · exact (congrArg Pool.closed hsame).trans h.closed

/-- One handle was found good. -/
theorem Examined.good (hp : p.ledger.Fitting) (hh : h ∈ p.handles) (hc : h.slot = some c)
    (hgood : (p.factory.probe c).1 = true)
    (hq : q.muted =
      (p.modifyHandle h.id fun h => { h with slot := some (p.factory.probe c).2 }).muted)
    (hsaid : p.Utters [.probe c] [] q) : Examined p [h] q := by
  obtain ⟨hverdict, hnone⟩ := Factory.verdict_good hc hgood
  have hend : ∀ {β : Type} (f : Pool → β), (∀ r : Pool, f r.muted = f r) →
      f q = f (p.modifyHandle h.id fun h => { h with slot := some (p.factory.probe c).2 }) :=
    fun f hf => eq_of_muted f hf hq
  have hcount : ([h].filterMap p.factory.rejected?) = [] := by
    rw [List.filterMap_cons, hnone]
    rfl
  refine ⟨?_, hend Pool.leases fun _ => rfl, ?_, ?_, ?_, hend Pool.floor fun _ => rfl,
    hend Pool.cap fun _ => rfl, hend Pool.closed fun _ => rfl, ?_⟩
  · rw [hend Pool.handles fun _ => rfl]
    simp only [modifyHandle]
    rw [← List.filterMap_eq_map]
    refine List.filterMap_congr fun x hx => ?_
    simp only [Function.comp, List.map_singleton, List.mem_singleton]
    split
    · next hid =>
      rw [Keyed.unique Handle.id (ids_nodup hp) hx hh hid, hverdict]
    · rfl
  · rw [hcount]
    exact hend Pool.closures fun _ => rfl
  · rw [hcount]
    exact hend Pool.counters fun _ => rfl
  · rw [hcount]
    exact congrArg (max · p.floor) (hend (fun r : Pool => r.size.count) fun _ => rfl)
  · simp only [List.flatMap_singleton, Factory.examining, hc, hnone, List.filter_cons,
      Option.isSome_none, Bool.false_eq_true, if_false, Option.toList_some, Option.toList_none]
    exact hsaid

/-- One handle was found bad. -/
theorem Examined.bad (hp : p.ledger.Fitting) (hh : h ∈ p.handles) (hc : h.slot = some c)
    (hbad : (p.factory.probe c).1 = false)
    (hm : m.muted = ((p.count DestroyReason.validationFailed.charge).remove
      { h with slot := some (p.factory.probe c).2 }).muted)
    (hsaid : p.Utters [.probe c, .close (p.factory.probe c).2]
      [.destroyed p.name h.id .validationFailed] m) : Examined p [h] m := by
  obtain ⟨hverdict, hsome⟩ := Factory.verdict_bad hc hbad
  have hend : ∀ {β : Type} (f : Pool → β), (∀ r : Pool, f r.muted = f r) →
      f m = f ((p.count DestroyReason.validationFailed.charge).remove
        { h with slot := some (p.factory.probe c).2 }) := fun f hf => eq_of_muted f hf hm
  have hcount : ([h].filterMap p.factory.rejected?) = [(p.factory.probe c).2] := by
    rw [List.filterMap_cons, hsome]
    rfl
  refine ⟨?_, hend Pool.leases fun _ => rfl, ?_, ?_, ?_, hend Pool.floor fun _ => rfl,
    hend Pool.cap fun _ => rfl, hend Pool.closed fun _ => rfl, ?_⟩
  · rw [hend Pool.handles fun _ => rfl]
    simp only [remove, count]
    rw [← List.filterMap_eq_filter]
    refine List.filterMap_congr fun x hx => ?_
    simp only [Option.guard, List.map_singleton, List.mem_singleton]
    by_cases hid : x.id = h.id
    · have hsame := Keyed.unique Handle.id (ids_nodup hp) hx hh hid
      subst hsame
      simp [hverdict]
    · simp [hid]
  · rw [hcount]
    exact hend Pool.closures fun _ => rfl
  · rw [hcount]
    exact hend Pool.counters fun _ => rfl
  · have hdown : m.size.count = p.size.count - 1 :=
      (hend (fun r : Pool => r.size.count) fun _ => rfl).trans (Tally.count_down p.size)
    rw [hcount, List.length_singleton, hdown]
  · simp only [List.flatMap_singleton, Factory.examining, hc, hsome, List.filter_cons,
      Option.isSome_some, if_true, Option.toList_some]
    exact hsaid

/-- Up to the verdict nothing is said but the probe. -/
theorem validate_probed (hf : p.find? id = some h) (hs : h.state = .checkedIn)
    (hc : h.slot = some c) (t : Thread) :
    ∃ q, q.muted = (p.probed id c).muted ∧ p.Utters [.probe c] [] q ∧
      (validate t id).run p = (true, if (p.factory.probe c).1 then ((pass t id).run q).2
        else ((fail id).run q).2) := by
  have hidle : p.stateOf? id = some .checkedIn := (stateOf_of_find hf).trans (congrArg some hs)
  have hslot : ((p.restate id .checkedIn .validation).find? id).bind (·.slot) = some c := by
    rw [find_restate, hf]
    exact hc
  have hmoved : p.Utters [] [] (p.restate id .checkedIn .validation) := .nothing rfl rfl rfl rfl
  have hsaid := hmoved.after (utters_probe hslot)
  obtain ⟨q, hrun, hq⟩ := probe_run hslot
  rw [hrun] at hsaid
  refine ⟨q.notify (.onValidation id (p.factory.probe c).1), (muted_notify _ _).trans hq,
    hsaid.then (utters_notify _), ?_⟩
  have hsame : (p.restate id .checkedIn .validation).factory = p.factory := rfl
  rw [hsame] at hrun
  simp only [validate, Act.run_bind, Act.run_apply, transition_of (t := .validation) rfl hidle,
    if_true, hrun, Act.run_update, Act.run_pure, Act.run_ite]
  split <;> rfl

/-- A bad handle goes, its connection closed, and then the pool is filled up. -/
theorem fail_run (hf : p.find? id = some h) (hs : h.state = .checkedIn)
    (hq : q.muted = (p.probed id c).muted) :
    ∃ m, ((fail id).run q).2 = m.topUp ∧
      m.muted = ((p.count DestroyReason.validationFailed.charge).remove
        { h with slot := some (p.factory.probe c).2 }).muted ∧
      q.Utters [.close (p.factory.probe c).2] [.destroyed q.name id .validationFailed] m := by
  obtain ⟨-, hid⟩ := mem_of_find hf
  simp only [fail, Act.run_bind, Act.run_update, Act.run_apply]
  generalize hr : (q.count fun n => { n with validationFailures := n.validationFailures + 1 }).log
    .warn "Connection failed validation" [("handle", .shown id.label)] = r
  have hsaid : q.Utters [] [] r := by
    have hcount : q.Utters [] [] (q.count fun n =>
        { n with validationFailures := n.validationFailures + 1 }) := .nothing rfl rfl rfl rfl
    exact hr ▸ hcount.then (utters_log _ _ _)
  obtain ⟨hrm, hfr⟩ := failed_muted hf hq hr
  have hfull : ((r.restate id .validation .toDestroy).find? id).bind (·.slot) =
      some (p.factory.probe c).2 := by
    rw [find_restate, hfr]
    rfl
  have hmoved : r.Utters [] [] (r.restate id .validation .toDestroy) := .nothing rfl rfl rfl rfl
  have hend := (hsaid.then hmoved).after (utters_destroyNow hfull .validationFailed false)
  rw [(hsaid.then hmoved).name] at hend
  simp only [transition_of (t := .toDestroy) rfl (stateOf_of_find hfr), if_true, destroy,
    Act.run_bind, Act.run_update]
  refine ⟨_, rfl, ?_, hend⟩
  have hgone := destroyNow_muted (s := .validation) hfr (by decide) .validationFailed false
  have hkept := remove_modify p (fun h => { h with slot := some (p.factory.probe c).2 })
    (fun _ => rfl) (h := { h with slot := some (p.factory.probe c).2 })
    (k := { h with slot := some (p.factory.probe c).2 }) hid hid rfl rfl rfl
  have hsame := (probed_remove hf hs c).trans hkept
  refine hgone.trans ((muted_remove hrm _).trans ?_)
  exact congrArg (fun x : Pool => (x.count DestroyReason.validationFailed.charge).muted) hsame

theorem examined_validate (hp : p.Sound) (ho : p.closed = false) (hfloor : p.floor ≤ p.cap)
    (hh : h ∈ p.handles) (hs : h.state = .checkedIn) (t : Thread) :
    ∃ q, (validate t h.id).run p = (true, q) ∧ Examined p [h] q := by
  have hf := find_of_mem hp.books.fitting hh
  obtain ⟨c, hc⟩ := slot_of_idle hp.books.fitting hh hs
  obtain ⟨q, hq, hsaid, hrun⟩ := validate_probed hf hs hc t
  rw [hrun]
  cases hverdict : (p.factory.probe c).1 with
  | true =>
    obtain ⟨hpass, hsame⟩ := pass_run hp ho hf hs hq t
    refine ⟨_, rfl, .good hp.books.fitting hh hc hverdict ?_ ?_⟩
    · simp only [if_true, hpass]
      exact hsame
    · simp only [if_true, hpass]
      exact hsaid.then (.nothing rfl rfl rfl rfl)
  | false =>
    obtain ⟨m, hfail, hm, hclosed⟩ := fail_run hf hs hq
    have hall := hsaid.trans hclosed
    rw [hsaid.name] at hall
    refine ⟨_, rfl, ?_⟩
    simp only [Bool.false_eq_true, if_false, hfail]
    exact (Examined.topUp (.bad hp.books.fitting hh hc hverdict hm hall) ho hfloor).1

/-- Idle handles are all probed, each once. -/
theorem examined_all (hp : p.Sound) (hfinal : p.Final) (ho : p.closed = false)
    (hfloor : p.floor ≤ p.cap) (t : Thread) (hidle : ∀ h ∈ hs, h ∈ p.handles ∧ h.state = .checkedIn)
    (hnodup : (hs.map (·.id)).Nodup) :
    ∃ q, (executeAll t .validation (hs.map (·.id))).run p = (hs.length, q) ∧ Examined p hs q := by
  induction hs generalizing p with
  | nil => exact ⟨p, rfl, .nil p⟩
  | cons h hs ih =>
    obtain ⟨hh, hstate⟩ := hidle h List.mem_cons_self
    obtain ⟨hfresh, hrest⟩ := List.nodup_cons.mp hnodup
    have hapart : ∀ k ∈ hs, k.id ≠ h.id := fun k hk hid => hfresh (List.mem_map.mpr ⟨k, hk, hid⟩)
    obtain ⟨m, hrun, hm⟩ := examined_validate hp ho hfloor hh hstate t
    have hsteps : Steps none p m := by
      have hvalidate : Steps none p ((validate t h.id).run p).2 := steps_validate hp hfinal t h.id
      rw [hrun] at hvalidate
      exact hvalidate
    have hstill : ∀ k ∈ hs, k ∈ m.handles ∧ k.state = .checkedIn := by
      intro k hk
      obtain ⟨hmem, hkstate⟩ := hidle k (List.mem_cons_of_mem _ hk)
      refine ⟨?_, hkstate⟩
      rw [hm.handles, List.mem_filterMap]
      exact ⟨k, hmem, if_neg (by simpa using hapart k hk)⟩
    have hmfloor : m.floor ≤ m.cap := by
      rw [hm.floor, hm.cap]
      exact hfloor
    obtain ⟨q, hall, hq⟩ := ih (hsteps.sound hp) (hsteps.final hp hfinal) (hm.closed.trans ho)
      hmfloor hstill hrest
    refine ⟨q, ?_, hm.trans hq fun k hk => ?_⟩
    · simp only [List.map_cons, executeAll, execute, Act.run_bind, hrun, hall, Act.run_pure]
      rfl
    · rw [List.mem_singleton.mp hk]
      exact hfresh

/-- What a validation sweep comes to: how many handles were probed, and the pool after it. -/
structure Validated (p : Pool) (r : Nat × Pool) : Prop where
  count : r.1 = p.idles.length
  heard : p.Utters (p.idles.flatMap p.factory.examining)
    ((p.idles.filter fun h => (p.factory.rejected? h).isSome).map fun h =>
      .destroyed p.name h.id .validationFailed) r.2
  full : ∀ h ∈ p.idles, ∃ c, h.slot = some c
  handles : r.2.handles = p.handles.filterMap fun h =>
    if h.state = .checkedIn then p.factory.verdict h else some h
  leases : r.2.leases = p.leases
  closures : r.2.closures = (p.idles.filterMap p.factory.rejected?).reverse ++ p.closures
  counters : r.2.counters = { p.counters with
    validationFailures :=
      p.counters.validationFailures + (p.idles.filterMap p.factory.rejected?).length
    destroyed := p.counters.destroyed + (p.idles.filterMap p.factory.rejected?).length }
  size : r.2.size.count =
    max (p.size.count - (p.idles.filterMap p.factory.rejected?).length) p.floor
  kept : ∀ h ∈ p.idles, p.factory.rejected? h = none →
    ∃ k ∈ r.2.handles, k.id = h.id ∧ k.state = .checkedIn ∧ k.lastAccess = h.lastAccess ∧
      k.slot.map (·.serial) = h.slot.map (·.serial) ∧ Obtainable r.2 h.id

theorem mem_idles : h ∈ p.idles ↔ h ∈ p.handles ∧ h.state = .checkedIn := by
  simp only [idles, List.mem_filter, decide_eq_true_eq]

/-- Where all idle handles were probed, these are the handles that are left. -/
theorem Examined.handles_left (h : Examined p p.idles q) (hp : p.ledger.Fitting) :
    q.handles = p.handles.filterMap fun h =>
      if h.state = .checkedIn then p.factory.verdict h else some h := by
  rw [h.handles]
  refine List.filterMap_congr fun k hk => ?_
  have hiff : k.id ∈ p.idles.map (·.id) ↔ k.state = .checkedIn := by
    rw [List.mem_map]
    constructor
    · rintro ⟨j, hj, hid⟩
      obtain ⟨hmem, hidle⟩ := mem_idles.mp hj
      rw [Keyed.unique Handle.id (ids_nodup hp) hk hmem hid.symm]
      exact hidle
    · intro hidle
      exact ⟨k, mem_idles.mpr ⟨hk, hidle⟩, rfl⟩
  simp only [hiff]

/-- What was found good is there as before, and can be had. -/
theorem Examined.kept (hq : Examined p p.idles q) (hp : p.Sound) (hsettled : q.Settled)
    (ho : p.closed = false) (hh : h ∈ p.idles) (hgood : p.factory.rejected? h = none) :
    ∃ k ∈ q.handles, k.id = h.id ∧ k.state = .checkedIn ∧ k.lastAccess = h.lastAccess ∧
      k.slot.map (·.serial) = h.slot.map (·.serial) ∧ Obtainable q h.id := by
  obtain ⟨hmem, hidle⟩ := mem_idles.mp hh
  obtain ⟨c, hc⟩ := slot_of_idle hp.books.fitting hmem hidle
  obtain ⟨d, hd, hverdict⟩ := Factory.verdict_of_kept hc hgood
  have hin : { h with slot := some d } ∈ q.handles := by
    rw [hq.handles_left hp.books.fitting, List.mem_filterMap]
    exact ⟨h, hmem, (if_pos hidle).trans hverdict⟩
  have hfound : q.stateOf? h.id = some .checkedIn :=
    (stateOf_of_find (find_of_mem hsettled.sound.books.fitting hin)).trans (congrArg some hidle)
  refine ⟨_, hin, rfl, hidle, rfl, ?_, obtainable_of_idle hsettled (hq.closed.trans ho) hfound⟩
  simp only [hc, Option.map_some, hd]

theorem validated_sweep (hp : p.Settled) (ho : p.closed = false) (hfloor : p.floor ≤ p.cap)
    (t : Thread) : Validated p ((sweep t .validation).run p) := by
  have hfit := hp.sound.books.fitting
  have hnodup : (p.idles.map (·.id)).Nodup := (ids_nodup hfit).sublist (List.filter_sublist.map _)
  have hdone : ((sweep t .validation).run p).2.Settled := hp.run (.sweep t .validation)
  obtain ⟨m, hrun, hm⟩ :=
    examined_all hp.sound hp.final ho hfloor t (fun _ hh => mem_idles.mp hh) hnodup
  have hswept : (sweep t .validation).run p = (p.idles.length, m.topUp) := by
    have hplan : p.plan .validation = p.idles.map (·.id) := rfl
    rw [sweep_open ho t (by decide), hplan, hrun]
  obtain ⟨hq, hfull⟩ := hm.topUp ho hfloor
  rw [hswept] at hdone ⊢
  refine ⟨rfl, hq.heard, fun h hh => ?_, hq.handles_left hfit, hq.leases, hq.closures, hq.counters,
    ?_, fun h hh hgood => hq.kept hp.sound hdone ho hh hgood⟩
  · obtain ⟨hmem, hidle⟩ := mem_idles.mp hh
    exact slot_of_idle hfit hmem hidle
  · have hleft := hq.size
    show m.topUp.size.count = _
    omega

/-- Whatever was done to an open pool and whatever its factory finds, a validation sweep probes the
idle handles and no others, keeps the good ones and replaces the bad ones as the floor asks. -/
theorem sweep_validates_idle {c : Config} {f : Factory} {ls : List Listener} {us : Units}
    (hb : build c f ls us = .ok (some p)) (ops : List Operation) (ho : (p.after ops).closed = false)
    (t : Thread) : Validated (p.after ops) ((sweep t .validation).run (p.after ops)) :=
  validated_sweep ((fresh_of_build hb).settled.after ops) ho (floor_le_cap hb ops) t

/-- Of three idle connections one is bad and the validator fails over another; one is made anew, as
two are to stay. -/
theorem one_of_three_valid :
    ∃ p, build { minSize := 2, maxSize := 3, prefill := .toMax }
        { probing := fun n => if n = 1 then .invalid else if n = 2 then .panics else .valid }
        [] {} = .ok (some p) ∧
      (p.after [.create, .create, .create]).closed = false ∧
      (p.after [.create, .create, .create]).idles.length = 3 ∧
      Validated (p.after [.create, .create, .create])
        ((sweep .background .validation).run (p.after [.create, .create, .create])) ∧
      ((sweep .background .validation).run (p.after [.create, .create, .create])).2.size.count
        = 2 := by
  refine ⟨_, rfl, rfl, rfl, ?_⟩
  have hvalid := @sweep_validates_idle _ { minSize := 2, maxSize := 3, prefill := .toMax }
    { probing := fun n => if n = 1 then .invalid else if n = 2 then .panics else .valid } [] {} rfl
    [.create, .create, .create] rfl .background
  exact ⟨hvalid, hvalid.size.trans rfl⟩

end Pool
end ConnPool
