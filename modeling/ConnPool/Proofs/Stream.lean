import ConnPool.Proofs.Audience
import ConnPool.Proofs.HandoverEvents
import ConnPool.Proofs.EventGrammar
import ConnPool.Proofs.Ring

namespace ConnPool

def Received.event? : Received → Option Event
  | event e => some e
  | _ => none

/-- The events among the answers that a subscriber gets. -/
def Received.events (rs : List Received) : List Event := rs.filterMap event?

namespace Bus

variable {b : Bus} {name n : String} {k : Nat} {e : Event} {cs : List (String × Nat)}

/-- Nothing that was sent has been overwritten. -/
def Roomy (b : Bus) : Prop := b.sent.size ≤ b.capacity

/-- The next event is received. -/
theorem receive_next (h : b.place? name = some (name, k)) (hroom : b.Roomy)
    (he : b.sent[k]? = some e) :
    b.receive? name = some (.event e, { b with cursors := moveCursor name (k + 1) b.cursors }) := by
  have hkept : ¬ b.sent.size - k > b.capacity :=
    Nat.not_lt.mpr (Nat.le_trans (Nat.sub_le _ _) hroom)
  have hfind : b.cursors.find? (·.1 = name) = some (name, k) := h
  simp only [receive?, hfind, Option.map_some, if_neg hkept, he]

/-- Nothing is left to receive. -/
theorem receive_last (h : b.place? name = some (name, k)) (he : b.sent[k]? = none) :
    b.receive? name = some (if b.isOpen then .empty else .closed, b) := by
  have hsize : b.sent.size ≤ k := Array.getElem?_eq_none_iff.mp he
  have hkept : ¬ b.sent.size - k > b.capacity := by omega
  have hfind : b.cursors.find? (·.1 = name) = some (name, k) := h
  simp only [receive?, hfind, Option.map_some, if_neg hkept, he]

theorem place_next (h : b.place? name = some (name, k)) :
    place? { b with cursors := moveCursor name (k + 1) b.cursors } name = some (name, k + 1) :=
  find_moveCursor_self h

/-- Who receives until nothing is left gets all events from its place on. -/
theorem events_drainFuel (h : b.place? name = some (name, k)) (hroom : b.Roomy)
    {fuel : Nat} (hfuel : b.sent.size - k < fuel) :
    Received.events (b.drainFuel name fuel).1 = b.sent.toList.drop k := by
  induction fuel generalizing b k with
  | zero => cases hfuel
  | succ fuel ih =>
    cases he : b.sent[k]? with
    | none =>
      have hnothing : b.sent.toList.drop k = [] :=
        List.drop_eq_nil_of_le (Array.getElem?_eq_none_iff.mp he)
      rw [hnothing]
      cases hopen : b.isOpen <;>
        simp [drainFuel, receive_last h he, hopen, Received.events, Received.event?]
    | some e =>
      obtain ⟨hk, hget⟩ := Array.getElem?_eq_some_iff.mp he
      have hrest := ih (place_next h) hroom (by
        change b.sent.size - (k + 1) < fuel
        omega)
      have hdrop : b.sent.toList.drop k = e :: b.sent.toList.drop (k + 1) := by
        rw [List.drop_eq_getElem_cons (by simpa using hk), ← hget]
        rfl
      simp only [drainFuel, receive_next h hroom he]
      rw [hdrop, ← hrest]
      exact List.filterMap_cons_some rfl

theorem events_drain (h : b.place? name = some (name, k)) (hroom : b.Roomy) :
    Received.events (b.drain name).1 = b.sent.toList.drop k :=
  events_drainFuel h hroom (by omega)

end Bus

namespace Pool

/-- What one turn brings a subscriber. -/
def Turn.received (name : String) (p : Pool) : Turn → List Received
  | receive n => if n = name then ((p.bus.receive? name).map (·.1)).toList else []
  | _ => []

/-- All that a subscriber gets in the course of some turns, and when it looks for the rest at the
end. -/
def stream (p : Pool) (name : String) : List Turn → List Received
  | [] => (p.bus.drain name).1
  | t :: ts => t.received name p ++ (t.run p).stream name ts

/-- Turns that leave a subscriber its place: it does not go, nobody else comes under its name, and
the pool keeps the bus that it was built with. -/
def Turn.Spares (name : String) : Turn → Prop
  | operate (.listen _ _) => False
  | subscribe n | unsubscribe n => n ≠ name
  | _ => True

variable {p q : Pool} {name : String} {r : Roll} {got : List Event}

theorem Settled.rebus (hp : p.Settled) (b : Bus) : { p with bus := b }.Settled := by
  have hsame : Steps none p { p with bus := b } := .of_muted rfl
  exact hp.steps hsame

theorem Settled.turn (hp : p.Settled) (t : Turn) : (t.run p).Settled := by
  cases t with
  | operate op => exact hp.run op
  | register l =>
    have hsame : Steps none p { p with listeners := p.listeners ++ [l] } := .of_muted rfl
    exact hp.steps hsame
  | subscribe n => exact hp.rebus _
  | unsubscribe n => exact hp.rebus _
  | receive n => exact hp.rebus _

theorem Settled.afterTurns (hp : p.Settled) (ts : List Turn) : (p.afterTurns ts).Settled := by
  induction ts generalizing p with
  | nil => exact hp
  | cons t ts ih => exact ih (hp.turn t)

theorem Turn.Spares.not_listen {op : Operation} (h : (Turn.operate op).Spares name)
    (ls : List Listener) (b : Bus) : op ≠ .listen ls b := by
  rintro rfl
  exact h

theorem bus_receive (p : Pool) (n : String) :
    ((Turn.receive n).run p).bus = p.bus ∨
      ∃ x, p.bus.receive? n = some (x, ((Turn.receive n).run p).bus) := by
  simp only [Turn.run]
  cases p.bus.receive? n with
  | none => exact Or.inl rfl
  | some o => exact Or.inr ⟨o.1, rfl⟩

/-- As long as a bus is not replaced it holds no less than before. -/
theorem Settled.roomy (hp : p.Settled) {t : Turn} (ht : t.Spares name) (h : (t.run p).bus.Roomy) :
    p.bus.Roomy := by
  cases t with
  | operate op =>
    obtain ⟨es, -, hcarries⟩ := op.recounts hp.sound ht.not_listen
    have hsent := congrArg List.length hcarries.sent
    rw [List.length_append, Array.length_toList, Array.length_toList] at hsent
    have hsize : p.bus.sent.size ≤ (op.run p).bus.sent.size := hsent ▸ Nat.le_add_right _ _
    exact Nat.le_trans hsize (hcarries.capacity ▸ h)
  | register l => exact h
  | subscribe n => exact h
  | unsubscribe n => exact h
  | receive n =>
    rcases bus_receive p n with hsame | ⟨x, hx⟩
    · exact hsame ▸ h
    · obtain ⟨hsent, hcapacity, -⟩ := Bus.receive_keeps hx
      rw [Bus.Roomy, hsent, hcapacity] at h
      exact h

theorem Settled.roomy_before (hp : p.Settled) {ts : List Turn} (hts : ∀ t ∈ ts, t.Spares name)
    (h : (p.afterTurns ts).bus.Roomy) : p.bus.Roomy := by
  induction ts generalizing p with
  | nil => exact h
  | cons t ts ih =>
    obtain ⟨ht, hrest⟩ := List.forall_mem_cons.mp hts
    exact hp.roomy ht (ih (hp.turn t) hrest h)

/-- A subscriber that was there from the beginning has received the first of all events. All of them
together tell how the roll came to be what it is. -/
structure Told (r : Roll) (name : String) (got : List Event) (p : Pool) : Prop where
  settled : p.Settled
  tells : r.Tells p.bus.sent.toList p.roll
  place : p.bus.place? name = some (name, got.length)
  first : got <+: p.bus.sent.toList

theorem Told.hasSubscribers (h : Told r name got p) : p.bus.hasSubscribers = true := by
  have hplace := h.place
  rw [Bus.hasSubscribers]
  cases hc : p.bus.cursors with
  | nil =>
    rw [Bus.place?, hc] at hplace
    cases hplace
  | cons c cs => rfl

/-- Only the places of subscribers are changed. -/
theorem Told.rebus {got' : List Event} {b : Bus} (h : Told r name got p)
    (hsent : b.sent = p.bus.sent) (hplace : b.place? name = some (name, got'.length))
    (hfirst : got' <+: p.bus.sent.toList) :
    Told r name got' { p with bus := b } where
  settled := h.settled.rebus b
  tells := hsent ▸ h.tells
  place := hplace
  first := hsent ▸ hfirst

theorem Told.operate (h : Told r name got p) {op : Operation} (ht : (Turn.operate op).Spares name) :
    Told r name got (op.run p) := by
  obtain ⟨es, htale, hcarries⟩ := op.recounts h.settled.sound ht.not_listen
  have hsent := hcarries.sent
  rw [if_pos h.hasSubscribers] at hsent
  refine ⟨h.settled.run op, ?_, ?_, ?_⟩
  · rw [hsent]
    exact h.tells.trans htale.tells
  · rw [Bus.place?, hcarries.cursors]
    exact h.place
  · rw [hsent]
    exact h.first.trans (List.prefix_append _ _)

/-- The next event is received, if there is one. -/
theorem Told.receive (h : Told r name got p) (hroom : p.bus.Roomy) :
    Told r name (got ++ Received.events ((Turn.receive name).received name p))
      ((Turn.receive name).run p) := by
  simp only [Turn.received, if_true, Turn.run]
  cases he : p.bus.sent[got.length]? with
  | none =>
    have hnothing : Received.events [if p.bus.isOpen then .empty else .closed] = [] := by
      cases p.bus.isOpen <;> rfl
    simp only [Bus.receive_last h.place he, Option.map_some, Option.toList_some, Option.getD_some,
      hnothing, List.append_nil]
    exact h
  | some e =>
    have hone : Received.events [.event e] = [e] := rfl
    simp only [Bus.receive_next h.place hroom he, Option.map_some, Option.toList_some,
      Option.getD_some, hone]
    refine h.rebus rfl ?_ ?_
    · rw [List.length_append, List.length_singleton]
      exact Bus.place_next h.place
    · obtain ⟨rest, hrest⟩ := h.first
      have hhead : rest[0]? = some e := by
        rw [← Array.getElem?_toList, ← hrest, List.getElem?_append_right (Nat.le_refl _),
          Nat.sub_self] at he
        exact he
      obtain ⟨rest, rfl⟩ : ∃ rest', rest = e :: rest' := by
        cases rest with
        | nil => cases hhead
        | cons x xs => exact ⟨xs, by cases hhead; rfl⟩
      exact ⟨rest, by rw [← hrest, List.append_assoc]; rfl⟩

theorem Told.turn (h : Told r name got p) {t : Turn} (ht : t.Spares name) (hroom : p.bus.Roomy) :
    Told r name (got ++ Received.events (t.received name p)) (t.run p) := by
  have hnothing : got ++ Received.events [] = got := List.append_nil got
  cases t with
  | operate op => exact hnothing.symm ▸ h.operate ht
  | register l => exact hnothing.symm ▸ ⟨h.settled.turn (.register l), h.tells, h.place, h.first⟩
  | subscribe n =>
    have hne : n ≠ name := ht
    exact hnothing.symm ▸ h.rebus rfl ((Bus.place_subscribe_of_ne hne).trans h.place) h.first
  | unsubscribe n =>
    exact hnothing.symm ▸ h.rebus rfl ((Bus.place_unsubscribe_of_ne ht).trans h.place) h.first
  | receive n =>
    by_cases hn : n = name
    · subst hn
      exact h.receive hroom
    · rw [Turn.received, if_neg hn, hnothing]
      rcases bus_receive p n with hsame | ⟨x, hx⟩
      · exact h.rebus (congrArg Bus.sent hsame)
          ((congrArg (Bus.place? · name) hsame).trans h.place) h.first
      · obtain ⟨hsent, -, hplace⟩ := Bus.receive_keeps hx
        exact h.rebus hsent ((hplace name (Ne.symm hn)).trans h.place) h.first

/-- In the end a subscriber has received everything. -/
theorem Told.run (h : Told r name got p) {ts : List Turn} (hts : ∀ t ∈ ts, t.Spares name)
    (hroom : (p.afterTurns ts).bus.Roomy) :
    got ++ Received.events (p.stream name ts) = (p.afterTurns ts).bus.sent.toList ∧
      r.Tells (p.afterTurns ts).bus.sent.toList (p.afterTurns ts).roll := by
  induction ts generalizing p got with
  | nil =>
    have hrest := Bus.events_drain h.place hroom
    refine ⟨?_, h.tells⟩
    rw [stream, hrest]
    exact List.prefix_iff_eq_append.mp h.first
  | cons t ts ih =>
    obtain ⟨ht, hrest⟩ := List.forall_mem_cons.mp hts
    have hnow := h.settled.roomy_before hts hroom
    have hnext := ih (h.turn ht hnow) hrest hroom
    have happend : Received.events (p.stream name (t :: ts)) =
        Received.events (t.received name p) ++ Received.events ((t.run p).stream name ts) :=
      List.filterMap_append
    rw [happend, ← List.append_assoc]
    exact hnext

/-- What the events that were sent say of a pool. -/
structure Reported (es : List Event) (p : Pool) : Prop where
  lives : ∀ id, Milestone.course es id = [] ∨ Milestone.course es id ∈ Milestone.life.matches'
  idle : ∀ h ∈ p.handles, h.state = .checkedIn →
    Milestone.course es h.id ∈ Milestone.idle.matches'
  active : ∀ h ∈ p.handles, h.state = .checkedOut →
    Milestone.course es h.id ∈ Milestone.active.matches'
  counted : p.counters = .tally es

theorem bus_of_build {c : Config} {f : Factory} {ls : List Listener} {us : Units}
    (hb : build c f ls us = .ok (some p)) : p.bus.sent = #[] := by
  obtain ⟨-, -, bus, hopen, rfl⟩ := build_iff.mp hb
  rw [(start_silent _).bus]
  simp only [Bus.open?] at hopen
  split at hopen
  · cases hopen
    rfl
  · cases hopen

/-- Who subscribes to a pool that was just built hears the life of each handle, and as many events
of each kind as are counted, whatever goes on and however it is interleaved with receiving. -/
theorem subscriber_hears_everything {c : Config} {f : Factory} {ls : List Listener} {us : Units}
    (hb : build c f ls us = .ok (some p)) (name : String) (ts : List Turn)
    (hts : ∀ t ∈ ts, t.Spares name) (hroom : (p.afterTurns (.subscribe name :: ts)).bus.Roomy) :
    Reported (Received.events (p.stream name (.subscribe name :: ts)))
      (p.afterTurns (.subscribe name :: ts)) := by
  obtain ⟨bus, hroll⟩ := roll_of_build hb
  have hnew : p.roll.Orderly := hroll ▸ orderly_new c f ls us bus
  have hnobody : ∀ id, p.roll.Lives id [] := fun id => by
    rw [hroll]
    exact ⟨fun _ => rfl, nofun, nofun, Or.inl rfl⟩
  have hsubscribed : Told p.roll name [] ((Turn.subscribe name).run p) := by
    have hsent : (p.bus.subscribe name).sent = #[] := bus_of_build hb
    refine ⟨(fresh_of_build hb).settled.turn (.subscribe name), ?_, ?_, List.nil_prefix⟩
    · change p.roll.Tells (p.bus.subscribe name).sent.toList p.roll
      rw [hsent]
      exact .nil
    · have hplace := p.bus.place_subscribe name
      rw [bus_of_build hb] at hplace
      exact hplace
  obtain ⟨hall, htells⟩ := hsubscribed.run hts hroom
  have hevents : Received.events (p.stream name (.subscribe name :: ts)) =
      (p.afterTurns (.subscribe name :: ts)).bus.sent.toList := hall
  have hfit := ((fresh_of_build hb).settled.afterTurns (.subscribe name :: ts)).sound.books.fitting
  have hlives := fun id => htells.lives hnew (hnobody id)
  have hcounters : p.roll.counters = {} := by
    rw [hroll]
    rfl
  rw [hevents]
  refine ⟨fun id => (hlives id).ever, fun h hh hs => ?_, fun h hh hs => ?_,
    htells.tallied hcounters⟩
  · refine (hlives h.id).idle (List.mem_map_of_mem hh) ((roll_active hfit hh).trans ?_)
    rw [hs]
    rfl
  · refine (hlives h.id).active ((roll_active hfit hh).trans ?_)
    rw [hs]
    rfl

/-- A handle is made, lent and invalidated while its life is being followed. -/
theorem life_heard_to_the_end :
    ∃ p, build {} {} [] {} = .ok (some p) ∧
      (∀ t ∈ ([.operate .create, .operate (.acquire .background 0), .receive "tap",
        .operate (.invalidate 0)] : List Turn), t.Spares "tap") ∧
      (p.afterTurns [.subscribe "tap", .operate .create, .operate (.acquire .background 0),
        .receive "tap", .operate (.invalidate 0)]).bus.Roomy ∧
      Milestone.course (Received.events (p.stream "tap" [.subscribe "tap", .operate .create,
        .operate (.acquire .background 0), .receive "tap", .operate (.invalidate 0)])) ⟨1⟩ =
          [.created, .acquired, .destroyed] ∧
      Reported (Received.events (p.stream "tap" [.subscribe "tap", .operate .create,
        .operate (.acquire .background 0), .receive "tap", .operate (.invalidate 0)]))
        (p.afterTurns [.subscribe "tap", .operate .create, .operate (.acquire .background 0),
          .receive "tap", .operate (.invalidate 0)]) := by
  have hspares : ∀ t ∈ ([.operate .create, .operate (.acquire .background 0), .receive "tap",
      .operate (.invalidate 0)] : List Turn), t.Spares "tap" := by
    simp [Turn.Spares]
  refine ⟨_, rfl, hspares, ?_, rfl,
    @subscriber_hears_everything _ {} {} [] {} rfl "tap" _ hspares ?_⟩
  · exact Nat.le_of_ble_eq_true rfl
  · exact Nat.le_of_ble_eq_true rfl

end Pool
end ConnPool
