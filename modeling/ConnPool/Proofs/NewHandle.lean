import ConnPool.Proofs.Step

namespace ConnPool

/-- Creations that are under way say nothing about handles and loans. -/
theorem Ledger.Fitting.of_pending {l : Ledger} {t : Tally} {n : Nat}
    (h : Ledger.Fitting { l with pending := t, inFlight := n }) : l.Fitting :=
  ⟨h.ids_nodup, h.ids_lt, h.idle_or_active, h.numbers_nodup, h.numbers_lt, h.lent⟩

namespace Pool

variable {p : Pool}

theorem stillbear_handles (hp : ∀ h ∈ p.handles, h.id ≠ ⟨p.nextHandle⟩) (x : Connection) :
    (p.stillbear x).handles = p.handles :=
  ((between_enroll hp x).erase rfl).trans (List.append_nil _)

/-- The way of a new handle up to its being published. -/
def arrival (p : Pool) (x : Connection) : Pool :=
  ((p.enroll x).restate ⟨p.nextHandle⟩ .new .checkedIn).touch ⟨p.nextHandle⟩

theorem arrival_lineup (hp : p.Lineup) (x : Connection) : (p.arrival x).Lineup := by
  have hmoved := (hp.enroll x).restate ⟨p.nextHandle⟩ .new .checkedIn
  exact hmoved.frame (touch_frame _ _)

theorem arrival_mem {x : Connection} {h : Handle} (hh : h ∈ (p.arrival x).handles)
    (hid : h.id ≠ ⟨p.nextHandle⟩) : h ∈ p.handles := by
  have hmoved := mem_of_modify (p := (p.enroll x).restate ⟨p.nextHandle⟩ .new .checkedIn)
    (f := fun h => { h with lastAccess := p.clock }) (fun _ => rfl) hh hid
  have henrolled := mem_of_modify (p := p.enroll x) (f := fun h => { h with state := .checkedIn })
    (fun _ => rfl) hmoved hid
  rcases List.mem_append.mp henrolled with hold | hnew
  · exact hold
  · have heq : h.id = ⟨p.nextHandle⟩ := congrArg Handle.id (List.mem_singleton.mp hnew)
    exact absurd heq hid

theorem bear_keeps (hp : p.Lineup) (hm : p.Marked) (ho : p.closed = false) (x : Connection)
    (hfit : (p.bear x).ledger.Fitting) : Keeps p (p.bear x) := by
  have hclosed : (p.bear x).closed = p.closed := closed_available _ _
  have harrived : (p.arrival x).ledger.Fitting := by
    simp only [bear] at hfit
    rw [available_ledger] at hfit
    exact hfit
  refine ⟨(arrival_lineup hp x).available harrived ho .background _, ?_, ?_, hclosed⟩
  · refine Marked.available harrived .background ?_ (closed_available _ _)
    intro _ h hh hid hs
    exact hm ho h (arrival_mem hh hid) hs
  · intro _ hcl
    rw [hclosed, ho] at hcl
    cases hcl

theorem birth_keeps (hp : p.Sound) {c : Creation} {cs : List Creation}
    (first : p.inFlight = c :: cs)
    {x : Connection} (serial : x.serial = p.attempts + 1) : Keeps p (p.birth c x) := by
  have hfit := (birth_ledger hp.books.fitting first serial).fitting hp.books.fitting
  simp only [birth] at hfit ⊢
  rw [endCreation_ledger] at hfit
  have hfit := hfit.of_pending
  split at hfit
  · next hcl =>
    have hfresh := id_ne_next hp.books.fitting
    have hsame := stillbear_handles (p := p.tried) hfresh x
    have hbirth : Frame p (p.tried.stillbear x) :=
      ⟨rfl, rfl, rfl, Nat.le_succ _, Nat.le_refl _, Shadows.of_sublist
        (hsame ▸ List.Sublist.refl _)⟩
    rw [if_pos hcl]
    exact (hbirth.trans (frame_conclude c none)).keeps hp
  · next hcl =>
    have ho : p.closed = false := by simpa using hcl
    have hk := bear_keeps hp.lineup.tried hp.marked ho x hfit
    have hend := frame_conclude (p := p.tried.bear x) c none
    rw [if_neg hcl]
    exact ⟨hk.lineup.frame hend, hk.marked.shadows hend.closed hend.handles,
      fun h => (hk.final h).shadows hend.closed hend.handles, hend.closed.trans hk.closed⟩

theorem birth_sound (hp : p.Sound) {c : Creation} {cs : List Creation}
    (first : p.inFlight = c :: cs)
    {x : Connection} (serial : x.serial = p.attempts + 1) : (p.birth c x).Sound :=
  have hk := birth_keeps hp first serial
  ⟨(birth_ledger hp.books.fitting first serial).sound hp.books, hk.lineup, hk.marked⟩

/-- The pool at the moment of its closing. -/
def shut (p : Pool) : Pool := closeHandoff { p with closed := true }

theorem shut_ledger (hp : p.Lineup) : p.shut.ledger = p.ledger := by
  obtain ⟨h', -, -, -, -, heq⟩ := closeHandoff_eq hp
  simp only [shut]
  rw [heq]
  have hmap : (p.handles.map fun h =>
      if h.id ∈ p.handoff.toList then { h with queued := false } else h).map (·.account) =
      p.handles.map (·.account) := by
    rw [List.map_map]
    refine List.map_congr_left fun h _ => ?_
    simp only [Function.comp]
    split <;> rfl
  simp only [ledger, hmap]
  rfl

theorem shut_closed (hp : p.Lineup) : p.shut.closed = true := by
  obtain ⟨h', -, -, -, -, heq⟩ := closeHandoff_eq hp
  simp only [shut]
  rw [heq]

theorem shut_sound (hp : p.Sound) : p.shut.Sound := by
  refine ⟨(shut_ledger hp.lineup).symm ▸ hp.books, hp.lineup.shut, fun ho => ?_⟩
  rw [shut_closed hp.lineup] at ho
  cases ho

end Pool
end ConnPool
