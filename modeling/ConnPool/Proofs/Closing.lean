import ConnPool.Proofs.Course

namespace ConnPool.Pool

variable {who : Option Nat} {p q : Pool}

theorem muted_closeHandoff (p : Pool) : (closeHandoff p).muted = closeHandoff p.muted := by
  simp only [closeHandoff, foldl_unqueue]
  rfl

/-- What ending the idle ones among some handles comes to. -/
structure Cleared (who : Option Nat) (p : Pool) (ids : List HandleId) (q : Pool) : Prop where
  steps : Steps who p q
  handles : q.handles.Sublist p.handles
  busy : ∀ h ∈ q.handles, h.id ∈ ids → h.state ≠ .checkedIn
  closures : ∀ c ∈ p.closures, c ∈ q.closures
  closed : ∀ h ∈ p.handles, h.id ∈ ids → h.state = .checkedIn → ∀ c, h.slot = some c →
    c ∈ q.closures
  handoff : q.handoff = p.handoff
  acquirers : q.acquirers = p.acquirers

theorem Cleared.nil (p : Pool) : Cleared who p [] p where
  steps := .refl
  handles := List.Sublist.refl _
  busy := fun _ _ hid => absurd hid List.not_mem_nil
  closures := fun _ hc => hc
  closed := fun _ _ hid => absurd hid List.not_mem_nil
  handoff := rfl
  acquirers := rfl

/-- A handle that is not idle is passed over. -/
theorem Cleared.pass (hp : p.Sound) {id : HandleId} {ids : List HandleId}
    (hs : p.stateOf? id ≠ some .checkedIn) (h : Cleared who p ids q) :
    Cleared who p (id :: ids) q := by
  have hbusy : ∀ k ∈ p.handles, k.id = id → k.state ≠ .checkedIn := by
    intro k hk hid hidle
    have hfind := find_of_mem hp.books.fitting hk
    rw [hid] at hfind
    exact hs ((stateOf_of_find hfind).trans (congrArg some hidle))
  refine ⟨h.steps, h.handles, ?_, h.closures, ?_, h.handoff, h.acquirers⟩
  · intro k hk hid
    rcases List.mem_cons.mp hid with hid | hid
    · exact hbusy k (h.handles.subset hk) hid
    · exact h.busy k hk hid
  · intro k hk hid hidle
    rcases List.mem_cons.mp hid with hid | hid
    · exact absurd hidle (hbusy k hk hid)
    · exact h.closed k hk hid hidle

/-- The one idle handle is ended, and the others after it. -/
theorem Cleared.expel {id : HandleId} {ids : List HandleId} {h : Handle} {m : Pool} (hp : p.Sound)
    (hf : p.find? id = some h) (hs : h.state = .checkedIn) (hm : m.muted = (p.remove h).muted)
    (hq : Cleared who m ids q) : Cleared who p (id :: ids) q := by
  obtain ⟨hmem, hid⟩ := mem_of_find hf
  obtain ⟨c, hc⟩ := slot_of_idle hp.books.fitting hmem hs
  have hhandles : m.handles = p.handles.filter (·.id ≠ h.id) := congrArg Pool.handles hm
  have hclosures : m.closures = h.slot.toList ++ p.closures := congrArg Pool.closures hm
  have hgone : Step who p (p.remove h) := .expel .shutdown hf hc
  refine ⟨(hgone.steps.hush hm).trans hq.steps, ?_, ?_, ?_, ?_, ?_, ?_⟩
  · exact hq.handles.trans (hhandles ▸ List.filter_sublist)
  · intro k hk hkid
    rcases List.mem_cons.mp hkid with hkid | hkid
    · have hin := hq.handles.subset hk
      rw [hhandles, List.mem_filter] at hin
      exact absurd (hkid.trans hid.symm) (by simpa using hin.2)
    · exact hq.busy k hk hkid
  · intro x hx
    refine hq.closures x ?_
    rw [hclosures]
    exact List.mem_append_right _ hx
  · intro k hk hkid hidle x hx
    by_cases hsame : k.id = id
    · have hfind := find_of_mem hp.books.fitting hk
      rw [hsame, hf] at hfind
      cases hfind
      refine hq.closures x ?_
      rw [hclosures, hx]
      exact List.mem_cons_self
    · have hlists : k ∈ m.handles := by
        rw [hhandles, List.mem_filter]
        exact ⟨hk, by simpa [hid] using hsame⟩
      exact hq.closed k hlists ((List.mem_cons.mp hkid).resolve_left hsame) hidle x hx
  · exact hq.handoff.trans (eq_of_muted (p := p.remove h) Pool.handoff (fun _ => rfl) hm)
  · exact hq.acquirers.trans (eq_of_muted (p := p.remove h) Pool.acquirers (fun _ => rfl) hm)

theorem destroyIdle_cleared (hp : p.Sound) (ids : List HandleId) :
    Cleared who p ids ((destroyIdle ids).run p).2 := by
  induction ids generalizing p with
  | nil => exact .nil p
  | cons id ids ih =>
    simp only [destroyIdle, Act.run_bind, Act.run_apply, Act.run_ite]
    by_cases hidle : p.stateOf? id = some .checkedIn
    · obtain ⟨h, hf, hs⟩ := find_of_stateOf hidle
      have hend := destroyNow_muted (s := .checkedIn) hf (by decide) .shutdown false
      have hshown : { h with state := .checkedIn } = h := by rw [← hs]
      rw [hshown] at hend
      obtain ⟨c, hc⟩ := slot_of_idle hp.books.fitting (mem_of_find hf).1 hs
      have hgone : Steps who p ((destroyNow id .shutdown false).run
          (p.restate id .checkedIn .toDestroy)).2 :=
        (Step.expel .shutdown hf hc).steps.hush hend
      rw [transition_of rfl hidle]
      simp only [if_true]
      exact .expel hp hf hs hend (ih (hgone.sound hp))
    · rw [transition_of_ne hidle]
      exact .pass hp hidle (ih hp)

theorem Cleared.of_muted {ids : List HandleId} {m : Pool} (hm : m.muted = p.muted)
    (hq : Cleared who m ids q) : Cleared who p ids q := by
  have hhandles : m.handles = p.handles := eq_of_muted Pool.handles (fun _ => rfl) hm
  have hclosures : m.closures = p.closures := eq_of_muted Pool.closures (fun _ => rfl) hm
  have hhandoff : m.handoff = p.handoff := eq_of_muted Pool.handoff (fun _ => rfl) hm
  have hacquirers : m.acquirers = p.acquirers := eq_of_muted Pool.acquirers (fun _ => rfl) hm
  exact ⟨(Steps.of_muted hm).trans hq.steps, hhandles ▸ hq.handles, hq.busy,
    hclosures ▸ hq.closures, hhandles ▸ hq.closed, hq.handoff.trans hhandoff,
    hq.acquirers.trans hacquirers⟩

theorem close_again (hc : p.closed = true) : close.run p = ((), p) := by
  simp only [close, Act.run_bind, Act.run_read, hc, if_true, Act.run_pure]

/-- Closing shuts the pool and ends all that is idle. -/
theorem close_cleared (hp : p.Sound) (ho : p.closed = false) :
    Cleared who p.shut (p.shut.handles.map (·.id)) (close.run p).2 := by
  generalize hm : closeHandoff (({ p with closed := true } : Pool).log .info "Closing pool" []) = m
  have hshut : m.muted = p.shut.muted := by
    rw [← hm, muted_closeHandoff, muted_log, ← muted_closeHandoff]
    rfl
  have hhandles : m.handles = p.shut.handles := eq_of_muted Pool.handles (fun _ => rfl) hshut
  have hsteps : Steps who p.shut m := .of_muted hshut
  have hsound : m.Sound := hsteps.sound (shut_sound hp)
  have hclear :
    Cleared who m (m.handles.map (·.id)) ((destroyIdle (m.handles.map (·.id))).run m).2 :=
    destroyIdle_cleared hsound _
  simp only [close, Act.run_bind, Act.run_read, ho, Bool.false_eq_true, if_false,
    Act.run_update, hm]
  rw [← hhandles]
  exact hclear.of_muted hshut

theorem close_final (hp : p.Sound) (ho : p.closed = false) : (close.run p).2.Final := by
  have hclear : Cleared none p.shut (p.shut.handles.map (·.id)) (close.run p).2 :=
    close_cleared hp ho
  intro _ h hh
  exact hclear.busy h hh (List.mem_map_of_mem (hclear.handles.subset hh))

theorem course_close (hp : p.Sound) : Course who p [] (close.run p).2 := by
  by_cases hc : p.closed = true
  · rw [close_again hc]
    exact .calm .refl
  · have ho : p.closed = false := by simpa using hc
    exact .closing .refl ho (close_cleared hp ho).steps (close_final hp ho)

end ConnPool.Pool
