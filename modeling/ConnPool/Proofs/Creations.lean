import ConnPool.Proofs.Course

namespace ConnPool

theorem Factory.create_serial {f : Factory} {n : Nat} {c : Connection} (h : f.create n = .ok c) :
    c.serial = n := by
  simp only [create] at h
  split at h
  · cases h
    rfl
  · cases h
  · cases h

namespace Pool

variable {who : Option Nat} {p q : Pool}

theorem muted_bear (h : q.muted = p.muted) (c : Connection) :
    (q.bear c).muted = (p.bear c).muted := by
  simp only [bear]
  rw [muted_available, muted_available]
  exact congrArg (fun r : Pool => (((r.enroll c).restate ⟨r.nextHandle⟩ .new .checkedIn).touch
    ⟨r.nextHandle⟩).available .background ⟨r.nextHandle⟩) h

theorem muted_stillbear (h : q.muted = p.muted) (c : Connection) :
    (q.stillbear c).muted = (p.stillbear c).muted :=
  congrArg (fun r : Pool => r.stillbear c) h

theorem muted_concludeCreation (h : q.muted = p.muted) (c : Creation) (e : Option String) :
    (q.concludeCreation c e).muted = (p.concludeCreation c e).muted := by
  have hsame : ∀ r : Pool, (r.concludeCreation c e).muted = r.muted.concludeCreation c e := by
    intro r
    simp only [concludeCreation]
    cases c.acquirer <;> rfl
  rw [hsame, hsame, h]

/-- The new handle of a connection is found by its number. -/
theorem find_enroll (hp : ∀ h ∈ p.handles, h.id ≠ ⟨p.nextHandle⟩) (c : Connection) :
    (p.enroll c).find? ⟨p.nextHandle⟩ = some (p.newHandle c) :=
  (between_enroll hp c).find rfl

/-- A handle that arrives at a closed pool goes at once. -/
theorem seat_closed (hp : ∀ h ∈ p.handles, h.id ≠ ⟨p.nextHandle⟩) (hc : p.closed = true)
    {c : Connection} (hq : q.muted = (p.enroll c).muted) :
    ((seat ⟨p.nextHandle⟩).run q).2.muted = (p.stillbear c).muted := by
  have hfind : q.find? ⟨p.nextHandle⟩ = some (p.newHandle c) :=
    (muted_find hq _).trans (find_enroll hp c)
  have hclosed : q.muted.closed = (p.enroll c).muted.closed := congrArg Pool.closed hq
  have hqc : q.closed = true := hclosed.trans hc
  have hstate : q.stateOf? ⟨p.nextHandle⟩ = some .new := stateOf_of_find hfind
  simp only [seat, Act.run_bind, Act.run_read, hqc, if_true, Act.run_apply,
    transition_of (t := .toDestroy) rfl hstate]
  rw [destroyNow_muted hfind (by decide) .shutdown false]
  exact muted_remove hq (p.newHandle c)

/-- A handle that arrives at an open pool becomes idle and is published. -/
theorem seat_open (hp : p.Lineup) (hnew : ∀ h ∈ p.handles, h.id ≠ ⟨p.nextHandle⟩)
    (ho : p.closed = false) {c : Connection} (hq : q.muted = (p.enroll c).muted) :
    ((seat ⟨p.nextHandle⟩).run q).2.muted = (p.bear c).muted := by
  have hfind : q.find? ⟨p.nextHandle⟩ = some (p.newHandle c) :=
    (muted_find hq _).trans (find_enroll hnew c)
  have hclosed : q.muted.closed = (p.enroll c).muted.closed := congrArg Pool.closed hq
  have hqc : q.closed = false := hclosed.trans ho
  have hstate : q.stateOf? ⟨p.nextHandle⟩ = some .new := stateOf_of_find hfind
  have hhandoff : q.muted.handoff = (p.enroll c).muted.handoff := congrArg Pool.handoff hq
  have hh : q.handoff = p.handoff := hhandoff
  have hmoved : ((q.restate ⟨p.nextHandle⟩ .new .checkedIn).touch ⟨p.nextHandle⟩).muted =
      (p.arrival c).muted :=
    congrArg (fun r : Pool => (r.restate ⟨p.nextHandle⟩ .new .checkedIn).touch ⟨p.nextHandle⟩) hq
  simp only [seat, Act.run_bind, Act.run_read, hqc, Bool.false_eq_true, if_false, Act.run_apply,
    transition_of (t := .checkedIn) rfl hstate, if_true, Act.run_update]
  rw [publish_run]
  · simp only [bear]
    rw [muted_available, muted_available, hmoved]
    rfl
  · exact hh ▸ hp.numbered
  · exact hh ▸ hp.isClosed_eq.trans ho

theorem welcome_run (c : Connection) (p : Pool) :
    ∃ q, (welcome c).run p = (seat ⟨p.nextHandle⟩).run q ∧ q.muted = (p.enroll c).muted := by
  let m : Pool := ((p.enroll c).log .debug "Connection created"
    [("handle", .shown (HandleId.mk p.nextHandle).label)]).notify
    (.afterCreate (.ok ⟨p.nextHandle⟩))
  refine ⟨m.emit (.created m.name ⟨p.nextHandle⟩ .zero), ?_, rfl⟩
  simp only [welcome, Act.run_bind, Act.run_read, Act.run_update]
  rfl

theorem welcome_muted (hp : p.Lineup) (hnew : ∀ h ∈ p.handles, h.id ≠ ⟨p.nextHandle⟩)
    (c : Connection) :
    ((welcome c).run p).2.muted = (if p.closed then p.stillbear c else p.bear c).muted := by
  obtain ⟨q, hrun, hq⟩ := welcome_run c p
  rw [hrun]
  by_cases hc : p.closed = true
  · rw [if_pos hc]
    exact seat_closed hnew hc hq
  · rw [if_neg hc]
    exact seat_open hp hnew (by simpa using hc) hq

theorem muted_welcome (hp : p.Sound) (hq : q.muted = p.tried.muted) (c : Connection) :
    ((welcome c).run q).2.muted =
      (if p.closed then p.tried.stillbear c else p.tried.bear c).muted := by
  have hframe := Frame.of_muted hq
  have hhandles : q.muted.handles = p.tried.muted.handles := congrArg Pool.handles hq
  have hnext : q.muted.nextHandle = p.tried.muted.nextHandle := congrArg Pool.nextHandle hq
  have hfresh : ∀ h ∈ q.muted.handles, h.id ≠ ⟨q.muted.nextHandle⟩ := by
    rw [hhandles, hnext]
    exact id_ne_next (p := p) hp.books.fitting
  have hclosed : q.closed = p.closed := hframe.closed
  rw [welcome_muted (hp.lineup.tried.frame hframe) hfresh c, hclosed]
  split
  · exact muted_stillbear hq c
  · exact muted_bear hq c

theorem lament_muted (c : Creation) (e : String) :
    (((lament e c.acquirer).run p).2.endCreation).muted =
    (p.forgo.concludeCreation c (some e)).muted := by
  simp only [concludeCreation]
  cases c.acquirer with
  | none => rfl
  | some a => rfl

/-- The connection that the first creation in flight makes, if it makes one, with the handle that it
gets. -/
def nextBirth (p : Pool) : List Birth :=
  match p.inFlight, p.factory.create (p.attempts + 1) with
  | _ :: _, .ok c => [⟨c.serial, ⟨p.nextHandle⟩⟩]
  | _, _ => []

/-- How a creation that is let through ends: there is none, or it fails, or it comes to a birth. -/
inductive LetThrough (p : Pool) : Pool → Prop where
  | idle (empty : p.inFlight = []) : LetThrough p p
  | miscarried {c : Creation} {cs : List Creation} {e : String} {q : Pool}
    (first : p.inFlight = c :: cs) (failed : p.factory.create (p.attempts + 1) = .error e)
    (same : q.muted = (p.miscarry c e).muted) : LetThrough p q
  | born {c : Creation} {cs : List Creation} {x : Connection} {q : Pool}
    (first : p.inFlight = c :: cs) (made : p.factory.create (p.attempts + 1) = .ok x)
    (same : q.muted = (p.birth c x).muted) : LetThrough p q

theorem create_letThrough (hp : p.Sound) : LetThrough p (create.run p).2 := by
  simp only [create, Act.run_bind, Act.run_read]
  cases hflight : p.inFlight with
  | nil => exact .idle hflight
  | cons c cs =>
    generalize hm : (p.notify .beforeCreate).attempt (p.attempts + 1) = m
    have htried : m.muted = p.tried.muted := by
      rw [← hm]
      rfl
    have hfactory : m.factory = p.factory := by
      rw [← hm]
      rfl
    have hattempts : (p.notify .beforeCreate).attempts = p.attempts := rfl
    simp only [Act.run_bind, Act.run_update, Act.run_read, hattempts, hm, hfactory]
    cases hmade : p.factory.create (p.attempts + 1) with
    | error e =>
      simp only [Act.run_bind, Act.run_update]
      refine .miscarried hflight hmade ?_
      rw [lament_muted]
      have hforgone : m.forgo.muted = p.tried.forgo.muted :=
        congrArg (fun r : Pool => r.forgo) htried
      exact muted_concludeCreation hforgone c (some e)
    | ok x =>
      simp only [Act.run_bind, Act.run_update]
      exact .born hflight hmade (muted_concludeCreation (muted_welcome hp htried x) c none)

/-- A creation that is let through ends in a birth, or fails. -/
theorem course_create (hp : p.Sound) : Course who p p.nextBirth (create.run p).2 := by
  have hlet := create_letThrough hp
  generalize (create.run p).2 = q at hlet ⊢
  cases hlet with
  | idle empty =>
    simp only [nextBirth, empty]
    exact .calm .refl
  | @miscarried c cs e _ first failed same =>
    simp only [nextBirth, first, failed]
    exact .calm ((Step.miscarry e first).steps.hush same)
  | born first made same =>
    have hx := Factory.create_serial made
    simp only [nextBirth, first, made, hx]
    exact .birth .refl first hx (.of_muted same) (eq_of_muted Pool.gauges (fun _ => rfl) same)

end Pool
end ConnPool
