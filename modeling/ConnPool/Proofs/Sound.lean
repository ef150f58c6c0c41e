import ConnPool.Pool.Lifetime
import ConnPool.Pool.Acquire
import ConnPool.Pool.Return
import ConnPool.Proofs.Handoff
import ConnPool.Proofs.Ledger

namespace ConnPool

def Handle.account (h : Handle) : Account := ⟨h.id, h.state, h.slot.map (·.serial)⟩

def Lease.loan (l : Lease) : Loan := ⟨l.number, l.handle, l.connection.serial⟩

/-- The handle that an acquirer was served with and has not yet looked at. -/
def Waiting.handle? : Waiting → Option HandleId
  | served h => some h
  | _ => none

/-- Who an acquirer is and what it has come to, whatever its creation comes to. -/
def Acquirer.stance (a : Acquirer) : Taker × Waiting := (a.taker, a.waiting)

namespace Pool

def ledger (p : Pool) : Ledger where
  cap := p.cap
  accounts := p.handles.map (·.account)
  loans := p.leases.map (·.loan)
  closed := p.closures.map (·.serial)
  detached := p.detached.map (·.serial)
  inFlight := p.inFlight.length
  size := p.size
  pending := p.pending
  gauges := p.gauges
  created := p.counters.created
  destroyed := p.counters.destroyed
  attempts := p.attempts
  nextHandle := p.nextHandle
  nextLoan := p.nextLease

/-- The entries that still await an acquirer's look, in the handoff or just out of it. -/
def entries (p : Pool) : List HandleId :=
  p.handoff.toList ++ p.acquirers.filterMap (·.waiting.handle?)

/-- Marks of handles, entries and acquirers fit each other. -/
structure Lineup (p : Pool) : Prop where
  numbered : p.handoff.Numbered
  isClosed_eq : p.handoff.isClosed = p.closed
  entries_nodup : p.entries.Nodup
  entries_lt : ∀ id ∈ p.entries, id.val < p.nextHandle
  queued_iff : ∀ h ∈ p.handles, h.queued = true ↔ h.id ∈ p.entries
  takers_nodup : (p.acquirers.map (·.taker.id)).Nodup
  takers_lt : ∀ a ∈ p.acquirers, a.taker.id < p.nextTaker
  parked_eq : p.handoff.parked = (p.acquirers.filter (·.waiting = .parked)).map (·.taker)

/-- While the pool is open every idle handle has its entry. -/
def Marked (p : Pool) : Prop :=
  p.closed = false → ∀ h ∈ p.handles, h.state = .checkedIn → h.queued = true

/-- What holds of a pool between operations, and at most places within one. -/
structure Sound (p : Pool) : Prop where
  books : p.ledger.Sound
  lineup : p.Lineup
  marked : p.Marked

/-- Nothing is idle once the pool is closed. -/
def Final (p : Pool) : Prop := p.closed = true → ∀ h ∈ p.handles, h.state ≠ .checkedIn

theorem ids_nodup {p : Pool} (hp : p.ledger.Fitting) : (p.handles.map (·.id)).Nodup := by
  have h := hp.ids_nodup
  simp only [ledger, List.map_map] at h
  exact h

theorem handles_nodup {p : Pool} (hp : p.ledger.Fitting) : p.handles.Nodup := (ids_nodup hp).of_map

theorem mem_of_find {p : Pool} {id : HandleId} {h : Handle} (hf : p.find? id = some h) :
    h ∈ p.handles ∧ h.id = id :=
  ⟨List.mem_of_find?_eq_some hf, by simpa using List.find?_some hf⟩

theorem find_of_mem {p : Pool} (hp : p.ledger.Fitting) {h : Handle} (hh : h ∈ p.handles) :
    p.find? h.id = some h :=
  (Keyed.find_iff Handle.id (ids_nodup hp)).mpr ⟨hh, rfl⟩

theorem between_of_find {p : Pool} (hp : p.ledger.Fitting) {id : HandleId} {h : Handle}
    (hf : p.find? id = some h) :
    ∃ pre post, Keyed.Between Handle.id p.handles pre h post ∧ h.id = id := by
  obtain ⟨hmem, hid⟩ := mem_of_find hf
  obtain ⟨pre, post, hb⟩ := Keyed.exists_between (ids_nodup hp) hmem
  exact ⟨pre, post, hb, hid⟩

/-- A handle is idle with its connection in its slot, or active. -/
theorem idle_or_active {p : Pool} (hp : p.ledger.Fitting) {h : Handle} (hh : h ∈ p.handles) :
    h.state = .checkedIn ∧ (∃ c, h.slot = some c) ∨ h.state = .checkedOut := by
  rcases hp.idle_or_active h.account (List.mem_map_of_mem hh) with ⟨hs, hslot⟩ | hs
  · refine Or.inl ⟨hs, ?_⟩
    rw [← Option.isSome_iff_exists]
    simpa [Handle.account] using hslot
  · exact Or.inr hs

theorem slot_of_idle {p : Pool} (hp : p.ledger.Fitting) {h : Handle} (hh : h ∈ p.handles)
    (hs : h.state = .checkedIn) : ∃ c, h.slot = some c := by
  rcases idle_or_active hp hh with ⟨-, hc⟩ | ho
  · exact hc
  · rw [hs] at ho
    cases ho

theorem open_of_idle {p : Pool} (hp : p.Final) {h : Handle} (hh : h ∈ p.handles)
    (hs : h.state = .checkedIn) : p.closed = false := by
  by_contra hc
  exact hp (by simpa using hc) h hh hs

theorem stateOf_of_find {p : Pool} {id : HandleId} {h : Handle} (hf : p.find? id = some h) :
    p.stateOf? id = some h.state := by
  rw [stateOf?, hf, Option.map_some]

theorem find_of_stateOf {p : Pool} {id : HandleId} {s : State} (hs : p.stateOf? id = some s) :
    ∃ h, p.find? id = some h ∧ h.state = s :=
  Option.map_eq_some_iff.mp hs

/-- A handle moves as the lifecycle has it, and its gauges with it. -/
def restate (p : Pool) (id : HandleId) (s t : State) : Pool :=
  { p.modifyHandle id fun h => { h with state := t } with gauges := p.gauges.moved s t }

theorem transition_of {p : Pool} {id : HandleId} {s t : State} (hl : State.legal s t = true)
    (hs : p.stateOf? id = some s) :
    p.transition id s t = (true, p.restate id s t) :=
  if_pos ⟨hl, hs⟩

theorem transition_of_ne {p : Pool} {id : HandleId} {s t : State} (hs : p.stateOf? id ≠ some s) :
    p.transition id s t = (false, p) :=
  if_neg fun h => hs h.2

theorem transition_cases (p : Pool) (id : HandleId) (s t : State) :
    p.transition id s t = (false, p) ∨
      State.legal s t = true ∧ p.stateOf? id = some s ∧
      p.transition id s t = (true, p.restate id s t) := by
  by_cases h : State.legal s t ∧ p.stateOf? id = some s
  · exact Or.inr ⟨h.1, h.2, if_pos h⟩
  · exact Or.inl (if_neg h)

theorem find_modifyHandle (p : Pool) (id : HandleId) (f : Handle → Handle)
    (hf : ∀ h, (f h).id = h.id) : (p.modifyHandle id f).find? id = (p.find? id).map f := by
  simp only [find?, modifyHandle]
  rw [List.find?_map]
  have hsame : ((fun h : Handle => decide (h.id = id)) ∘ fun h => if h.id = id then f h else h) =
      fun h => decide (h.id = id) := by
    funext h
    simp only [Function.comp]
    split
    · rw [hf]
    · rfl
  rw [hsame]
  cases hfind : List.find? (fun h : Handle => decide (h.id = id)) p.handles with
  | none => rfl
  | some h =>
    have hid : h.id = id := by simpa using List.find?_some hfind
    simp only [Option.map_some, hid, if_true]

theorem find_modifyHandle_of_ne (p : Pool) {id k : HandleId} (f : Handle → Handle)
    (hf : ∀ h, (f h).id = h.id) (hk : k ≠ id) : (p.modifyHandle id f).find? k = p.find? k := by
  simp only [find?, modifyHandle]
  rw [List.find?_map]
  have hsame : ((fun h : Handle => decide (h.id = k)) ∘ fun h => if h.id = id then f h else h) =
      fun h => decide (h.id = k) := by
    funext h
    simp only [Function.comp]
    split
    · rw [hf]
    · rfl
  rw [hsame]
  cases hfind : List.find? (fun h : Handle => decide (h.id = k)) p.handles with
  | none => rfl
  | some h =>
    have hid : h.id = k := by simpa using List.find?_some hfind
    simp only [Option.map_some, hid, hk, if_false]

end Pool
end ConnPool
