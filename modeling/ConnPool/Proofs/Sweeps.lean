import ConnPool.Proofs.Course

namespace ConnPool

theorem Tally.up_down {t : Tally} (h : 0 < t.count) : t.down.up = t := by
  obtain ⟨n, k⟩ := t
  obtain ⟨m, rfl⟩ := Nat.exists_eq_succ_of_ne_zero (Nat.ne_of_gt h)
  rfl

namespace Pool

variable {who : Option Nat} {p q : Pool} {id : HandleId}

theorem modifyHandle_handles {pre post : List Handle} {h : Handle}
    (hb : Keyed.Between Handle.id p.handles pre h post) (hid : h.id = id) (f : Handle → Handle) :
    (p.modifyHandle id f).handles = pre ++ f h :: post :=
  hb.replace hid f

theorem between_modify {pre post : List Handle} {h : Handle}
    (hb : Keyed.Between Handle.id p.handles pre h post) (hid : h.id = id) {f : Handle → Handle}
    (hf : (f h).id = h.id) :
    Keyed.Between Handle.id (p.modifyHandle id f).handles pre (f h) post := by
  rw [modifyHandle_handles hb hid f]
  exact hb.renew hf

/-- A probe writes the probed connection back. -/
theorem probe_run {c : Connection} (hc : (p.find? id).bind (·.slot) = some c) :
    ∃ q, (probe id).run p = ((p.factory.probe c).1, q) ∧
      q.muted = (p.modifyHandle id
      fun h => { h with slot := some (p.factory.probe c).2 }).muted := by
  simp only [probe, Act.run_bind, Act.run_read, hc, Act.run_ite]
  by_cases hplain : p.factory.isPlain
  · refine ⟨_, by simp only [hplain, Bool.not_true, Bool.false_eq_true, if_false, Act.run_apply],
      rfl⟩
  · refine ⟨(p.note (.probe c)).modifyHandle id fun h =>
      { h with slot := some (p.factory.probe c).2 }, ?_, rfl⟩
    simp only [hplain, Bool.not_false, if_true, Act.run_update, Act.run_mark, Act.run_apply]
    rfl

theorem probe_serial (f : Factory) (c : Connection) : (f.probe c).2.serial = c.serial := by
  simp only [Factory.probe]
  split <;> rfl

/-- A handle under validation, its probe written back. -/
def probed (p : Pool) (id : HandleId) (c : Connection) : Pool :=
  (p.restate id .checkedIn .validation).modifyHandle id fun h =>
    { h with slot := some (p.factory.probe c).2 }

theorem find_probed {h : Handle} (hf : p.find? id = some h) (c : Connection) :
    (p.probed id c).find? id =
      some { h with state := .validation, slot := some (p.factory.probe c).2 } := by
  have hslot := find_modifyHandle (p.restate id .checkedIn .validation) id
    (fun h => { h with slot := some (p.factory.probe c).2 }) fun _ => rfl
  rw [find_restate, hf] at hslot
  exact hslot

theorem gauges_of_idle (hp : p.Sound) {h : Handle} (hh : h ∈ p.handles)
    (hs : h.state = .checkedIn) :
    ∃ n, p.gauges = .level (n + 1) p.ledger.active p.gauges.maxUsed := by
  have hpos : 0 < p.ledger.idle :=
    List.countP_pos_iff.mpr ⟨h.account, List.mem_map_of_mem hh, by simp [Handle.account, hs]⟩
  obtain ⟨n, hn⟩ := Nat.exists_eq_succ_of_ne_zero (Nat.ne_of_gt hpos)
  refine ⟨n, ?_⟩
  rw [← Nat.succ_eq_add_one, ← hn]
  exact hp.books.counted.gauges_eq

/-- A handle that is found good is as it was before, but for what the probe left on it. -/
theorem probed_back (hp : p.Sound) {h : Handle} (hf : p.find? id = some h)
    (hs : h.state = .checkedIn) (c : Connection) :
    (p.probed id c).restate id .validation .checkedIn =
      p.modifyHandle id fun h => { h with slot := some (p.factory.probe c).2 } := by
  obtain ⟨pre, post, hb, hid⟩ := between_of_find hp.books.fitting hf
  have hvalid := between_modify hb hid (f := fun h => { h with state := .validation }) rfl
  have hslot := between_modify (p := p.restate id .checkedIn .validation) hvalid hid
    (f := fun h => { h with slot := some (p.factory.probe c).2 }) rfl
  have hback := modifyHandle_handles (p := p.probed id c) hslot hid
    fun h => { h with state := .checkedIn }
  have honce := modifyHandle_handles hb hid fun h => { h with slot := some (p.factory.probe c).2 }
  have hhandles :
    ((p.probed id c).modifyHandle id fun h => { h with state := .checkedIn }).handles =
      (p.modifyHandle id fun h => { h with slot := some (p.factory.probe c).2 }).handles := by
    rw [hback, honce, hs]
  have hgauges : (p.probed id c).gauges.moved .validation .checkedIn = p.gauges := by
    obtain ⟨n, hn⟩ := gauges_of_idle hp hb.mem hs
    have hround := Gauges.moved_validation n p.ledger.active p.gauges.maxUsed
    rw [← hn] at hround
    exact hround
  have hparts : (p.probed id c).restate id .validation .checkedIn =
      { p with
        handles := ((p.probed id c).modifyHandle id fun h => { h with state := .checkedIn }).handles
        gauges := (p.probed id c).gauges.moved .validation .checkedIn } := rfl
  rw [hparts, hhandles, hgauges]
  rfl

/-- A handle that is found bad leaves as it would have left before. -/
theorem probed_remove {h : Handle} (hf : p.find? id = some h) (hs : h.state = .checkedIn)
    (c : Connection) :
    (p.probed id c).remove { h with state := .validation, slot := some (p.factory.probe c).2 } =
      (p.modifyHandle id fun h => { h with slot := some (p.factory.probe c).2 }).remove
        { h with slot := some (p.factory.probe c).2 } := by
  obtain ⟨-, hid⟩ := mem_of_find hf
  have hslot := filter_modify (p.restate id .checkedIn .validation).handles id
    (fun h => { h with slot := some (p.factory.probe c).2 }) fun _ => rfl
  have hstate := filter_modify p.handles id (fun h => { h with state := .validation }) fun _ => rfl
  have honce := filter_modify p.handles id
    (fun h => { h with slot := some (p.factory.probe c).2 }) fun _ => rfl
  have hgauges : (p.probed id c).gauges.leave .validation = p.gauges.leave .checkedIn :=
    Gauges.leave_moved (g := p.gauges) (s := .checkedIn) (t := .validation) (by decide)
      (by decide) rfl
  simp only [restate, modifyHandle] at hslot
  simp only [remove, hid, hs, hgauges]
  simp only [probed, restate, modifyHandle, hslot, hstate, honce]

/-- Nothing is published anew that has its entry. -/
theorem publish_queued {h : Handle} (hf : p.find? id = some h) (hq : h.queued = true) (t : Thread) :
    (publish t id).run p = ((), p) := by
  simp only [publish, Act.run_bind, Act.run_read, hf, Option.all_some, hq, if_true,
    Act.run_pure]

/-- A good handle is idle as before, and has its entry still. -/
theorem pass_run (hp : p.Sound) {h : Handle} {c : Connection} (hopen : p.closed = false)
    (hf : p.find? id = some h) (hs : h.state = .checkedIn) (hq : q.muted = (p.probed id c).muted)
    (t : Thread) :
    (pass t id).run q = ((), q.restate id .validation .checkedIn) ∧
      (q.restate id .validation .checkedIn).muted =
        (p.modifyHandle id fun h => { h with slot := some (p.factory.probe c).2 }).muted := by
  have hback : q.stateOf? id = some .validation :=
    stateOf_of_find ((muted_find hq id).trans (find_probed hf c))
  have hsame : (q.restate id .validation .checkedIn).muted =
      (p.modifyHandle id fun h => { h with slot := some (p.factory.probe c).2 }).muted := by
    rw [muted_restate hq, probed_back hp hf hs]
  have hfound := muted_find hsame id
  rw [find_modifyHandle p id (fun h => { h with slot := some (p.factory.probe c).2 }) fun _ => rfl,
    hf] at hfound
  refine ⟨?_, hsame⟩
  simp only [pass, Act.run_bind, Act.run_apply, transition_of (t := .checkedIn) rfl hback, if_true]
  exact publish_queued hfound (hp.marked hopen h (mem_of_find hf).1 hs) t

theorem pass_muted (hp : p.Sound) {h : Handle} {c : Connection} (hopen : p.closed = false)
    (hf : p.find? id = some h) (hs : h.state = .checkedIn) (hq : q.muted = (p.probed id c).muted)
    (t : Thread) :
    ((pass t id).run q).2.muted =
      (p.modifyHandle id fun h => { h with slot := some (p.factory.probe c).2 }).muted := by
  obtain ⟨hrun, hsame⟩ := pass_run hp hopen hf hs hq t
  rw [hrun]
  exact hsame

theorem steps_pass (hp : p.Sound) {h : Handle} {c : Connection} (hopen : p.closed = false)
    (hf : p.find? id = some h) (hs : h.state = .checkedIn) (hc : h.slot = some c)
    (hq : q.muted = (p.probed id c).muted) (t : Thread) : Steps who p ((pass t id).run q).2 := by
  have hkept :
    Step who p (p.modifyHandle id fun h => { h with slot := some (p.factory.probe c).2 }) :=
    .probe hf hc (probe_serial p.factory c)
  exact hkept.steps.hush (pass_muted hp hopen hf hs hq t)

/-- A failed probe is counted and noted down; its handle has not moved on yet. -/
theorem failed_muted {h : Handle} {c : Connection} {r : Pool} (hf : p.find? id = some h)
    (hq : q.muted = (p.probed id c).muted)
    (hr : (q.count fun n => { n with validationFailures := n.validationFailures + 1 }).log
      .warn "Connection failed validation" [("handle", .shown id.label)] = r) :
    r.muted = ((p.probed id c).count DestroyReason.validationFailed.charge).muted ∧
      r.find? id = some { h with state := .validation, slot := some (p.factory.probe c).2 } := by
  have hrm : r.muted = ((p.probed id c).count DestroyReason.validationFailed.charge).muted := by
    rw [← hr, muted_log]
    exact congrArg (fun x : Pool => x.count DestroyReason.validationFailed.charge) hq
  exact ⟨hrm, (muted_find hrm id).trans (find_probed hf c)⟩

theorem steps_fail {h : Handle} {c : Connection} (hf : p.find? id = some h)
    (hs : h.state = .checkedIn) (hc : h.slot = some c) (hq : q.muted = (p.probed id c).muted) :
    Steps who p ((fail id).run q).2 := by
  have hkept :
    Step who p (p.modifyHandle id fun h => { h with slot := some (p.factory.probe c).2 }) :=
    .probe hf hc (probe_serial p.factory c)
  simp only [fail, Act.run_bind, Act.run_update, Act.run_apply]
  generalize hr : (q.count fun n => { n with validationFailures := n.validationFailures + 1 }).log
    .warn "Connection failed validation" [("handle", .shown id.label)] = r
  obtain ⟨hrm, hfr⟩ := failed_muted hf hq hr
  have hout : r.stateOf? id = some .validation := stateOf_of_find hfr
  have hfkept := find_modifyHandle p id (fun h => { h with slot := some (p.factory.probe c).2 })
    fun _ => rfl
  rw [hf] at hfkept
  simp only [transition_of (t := .toDestroy) rfl hout, if_true]
  refine hkept.steps.trans (steps_destroy .validationFailed hfkept rfl hfr rfl State.noConfusion ?_)
  rw [muted_remove hrm]
  exact congrArg (fun x : Pool => (x.count DestroyReason.validationFailed.charge).muted)
    (probed_remove hf hs c)

/-- A validated handle stays as it is but for the mark of the probe, or goes. -/
theorem steps_validate (hp : p.Sound) (hfinal : p.Final) (t : Thread) (id : HandleId) :
    Steps who p ((validate t id).run p).2 := by
  simp only [validate, Act.run_bind, Act.run_apply, Act.run_ite]
  by_cases hidle : p.stateOf? id = some .checkedIn
  · obtain ⟨h, hf, hs⟩ := find_of_stateOf hidle
    obtain ⟨hmem, -⟩ := mem_of_find hf
    obtain ⟨c, hc⟩ := slot_of_idle hp.books.fitting hmem hs
    have hslot : ((p.restate id .checkedIn .validation).find? id).bind (·.slot) = some c := by
      rw [find_restate, hf]
      exact hc
    obtain ⟨q, hrun, hq⟩ := probe_run hslot
    rw [transition_of rfl hidle]
    simp only [if_true, Act.run_update, Act.run_pure, hrun]
    split
    · refine steps_pass hp (open_of_idle hfinal hmem hs) hf hs hc ?_ t
      exact (muted_notify _ _).trans hq
    · refine steps_fail hf hs hc ?_
      exact (muted_notify _ _).trans hq
  · rw [transition_of_ne hidle]
    exact .refl

/-- A suspicion is only counted. -/
theorem steps_reportLeak (id : HandleId) : Steps who p ((reportLeak id).run p).2 := by
  simp only [reportLeak, Act.run_apply]
  split
  · exact .refl
  · split
    · exact Step.suspect.steps.hush rfl
    · exact .refl

/-- A stale handle is claimed with its place given back; another leaves nothing changed. -/
theorem claimStale_cases (hp : p.Sound) (id : HandleId) :
    p.claimStale id = (false, p) ∨ ∃ h, p.find? id = some h ∧ h.state = .checkedIn ∧
      p.claimStale id =
        (true, Pool.restate { p with size := p.size.down } id .checkedIn .toDestroy) := by
  simp only [claimStale]
  split
  · exact Or.inl rfl
  · next h hf =>
    split
    · exact Or.inl rfl
    · have hback : p.size.down.up = p.size := by
        obtain ⟨hmem, -⟩ := mem_of_find hf
        refine Tally.up_down ?_
        have hsize : p.size.count = (p.handles.map (·.account)).length + p.inFlight.length :=
          congrArg Tally.count hp.books.counted.size_eq
        have hlen : 0 < p.handles.length := List.length_pos_of_mem hmem
        rw [List.length_map] at hsize
        omega
      by_cases hidle : p.stateOf? id = some .checkedIn
      · have hs : h.state = .checkedIn := by
          rw [stateOf_of_find hf] at hidle
          exact Option.some.inj hidle
        have hidle' : Pool.stateOf? { p with size := p.size.down } id = some .checkedIn := hidle
        exact Or.inr ⟨h, hf, hs, by rw [transition_of rfl hidle']⟩
      · have hidle' : Pool.stateOf? { p with size := p.size.down } id ≠ some .checkedIn := hidle
        refine Or.inl ?_
        rw [transition_of_ne hidle']
        simp only [hback]

theorem steps_reap (hp : p.Sound) (id : HandleId) : Steps who p ((reap id).run p).2 := by
  simp only [reap, Act.run_bind, Act.run_apply, Act.run_ite]
  rcases claimStale_cases hp id with hsame | ⟨h, hf, hs, hclaim⟩
  · rw [hsame]
    exact .refl
  · obtain ⟨hmem, -⟩ := mem_of_find hf
    obtain ⟨c, hc⟩ := slot_of_idle hp.books.fitting hmem hs
    have hgone : Step who p ((p.count DestroyReason.idleTimeout.charge).remove h) :=
      .expel .idleTimeout hf hc
    rw [hclaim]
    simp only [if_true, Act.run_update, Act.run_pure]
    let m : Pool := Pool.notify (Pool.count { p with size := p.size.down }
      fun n => { n with reaped := n.reaped + 1 }) (.onTimeout id)
    have hfm : m.find? id = some h := hf
    have hend := destroyNow_muted (s := .checkedIn) hfm (by decide) .idleTimeout true
    refine hgone.steps.hush (hend.trans ?_)
    have hshown : { h with state := .checkedIn } = h := by rw [← hs]
    rw [hshown]
    rfl

theorem steps_execute (hp : p.Sound) (hfinal : p.Final) (t : Thread) (s : Sweep) (id : HandleId) :
    Steps who p ((execute t s id).run p).2 := by
  cases s with
  | validation => exact steps_validate hp hfinal t id
  | leak => exact steps_reportLeak id
  | reap => exact steps_reap hp id

theorem steps_executeAll (hp : p.Sound) (hfinal : p.Final) (t : Thread) (s : Sweep)
    (ids : List HandleId) : Steps who p ((executeAll t s ids).run p).2 := by
  induction ids generalizing p with
  | nil => exact .refl
  | cons id ids ih =>
    have hfirst : Steps who p ((execute t s id).run p).2 := steps_execute hp hfinal t s id
    simp only [executeAll, Act.run_bind, Act.run_pure]
    exact hfirst.trans (ih (hfirst.sound hp) (hfirst.final hp hfinal))

theorem steps_sweep (hp : p.Sound) (hfinal : p.Final) (t : Thread) (s : Sweep) :
    Steps who p ((sweep t s).run p).2 := by
  have hall : Steps who p ((executeAll t s (p.plan s)).run p).2 :=
    steps_executeAll hp hfinal t s (p.plan s)
  simp only [sweep, Act.run_bind, Act.run_read, Act.run_ite]
  split
  · exact .refl
  · split
    · exact hall.trans steps_topUp
    · exact hall

/-- A closed pool is not swept. -/
theorem sweep_closed (hcl : p.closed = true) (t : Thread) (s : Sweep) :
    (sweep t s).run p = (0, p) := by
  simp only [sweep, Act.run_bind, Act.run_read, hcl, if_true, Act.run_pure]

/-- An open pool is filled up after a sweep that may have ended handles. -/
theorem sweep_open (ho : p.closed = false) (t : Thread) {s : Sweep} (hs : s ≠ .leak) :
    (sweep t s).run p =
      (((executeAll t s (p.plan s)).run p).1, ((executeAll t s (p.plan s)).run p).2.topUp) := by
  simp only [sweep, Act.run_bind, Act.run_read, ho, Bool.false_eq_true, if_false, ne_eq, hs,
    not_false_eq_true, if_true, Act.run_update, Act.run_pure]

end Pool
end ConnPool
