import ConnPool.Proofs.PairedOperations

namespace ConnPool

/-- What is hidden: something of each listener, some notes of the journal, and something of the bus.
What is left of a listener makes of a hook what is not hidden of what it made before, and the notes
of the pool itself are never hidden. -/
structure Hiding where
  face : Listener → Listener
  shows : Note → Bool
  bus : Bus → Bus
  hear : ∀ pool h l, (Listener.hear pool h l).filter shows = (face l).hear pool h
  settled : ∀ h l, face (Listener.settled h l) = (face l).settled h
  brought : ∀ h l, (Listener.brought? h l).map face = (face l).brought? h
  line : ∀ level message name fields,
    shows (.line level message (("pool", .shown name) :: fields)) = true
  create : ∀ n, shows (.create n) = true
  probe : ∀ c, shows (.probe c) = true
  close : ∀ c, shows (.close c) = true
  emit : ∀ b e, bus (Bus.emit b e) = (bus b).emit e
  shut : ∀ b, bus (Bus.close b) = (bus b).close

namespace Hiding

/-- A pool with something hidden. -/
def hide (v : Hiding) (p : Pool) : Pool :=
  { p with
    listeners := p.listeners.map v.face
    journal := p.journal.filter v.shows
    bus := v.bus p.bus }

/-- The second pool is the first one with that hidden. -/
def Over (v : Hiding) (_ : Unit) (p q : Pool) : Prop := q = v.hide p

variable (v : Hiding)

theorem shows_own {n : Note} (hn : n.isOwn = true) : v.shows n = true := by
  unfold Note.isOwn at hn
  split at hn
  · exact v.create _
  · exact v.probe _
  · exact v.close _
  · exact v.line _ _ _ _
  · cases hn

theorem hide_notify (p : Pool) (h : Hook) : (v.hide p).notify h = v.hide (p.notify h) := by
  have hheard : (p.listeners.map v.face).flatMap (Listener.hear p.name h) =
      (p.listeners.flatMap (Listener.hear p.name h)).filter v.shows := by
    induction p.listeners with
    | nil => rfl
    | cons l ls ih => simp only [List.map_cons, List.flatMap_cons, List.filter_append, v.hear, ih]
  have hsettled : (p.listeners.map v.face).map (Listener.settled h) =
      (p.listeners.map (Listener.settled h)).map v.face := by
    simp only [List.map_map]
    exact List.map_congr_left fun l _ => (v.settled h l).symm
  have hbrought : (p.listeners.map v.face).filterMap (Listener.brought? h) =
      (p.listeners.filterMap (Listener.brought? h)).map v.face := by
    rw [List.filterMap_map, List.map_filterMap]
    exact List.filterMap_congr fun l _ => (v.brought h l).symm
  have hname : (v.hide p).name = p.name := rfl
  simp only [Pool.notify, hname]
  simp only [hide, hheard, hsettled, hbrought, List.filter_append, List.filter_reverse,
    List.map_append]

/-- A pool with something hidden is a twin of the pool itself. -/
instance : Pool.PairRule v.Over where
  around := by
    rintro _ p _ rfl
    rfl
  within := by
    rintro _ p _ p' rfl hsame
    exact congrArg v.hide hsame
  note := by
    rintro _ p _ n hn rfl
    simp only [Over, Pool.note, hide, List.filter_cons_of_pos (v.shows_own hn)]
  notify := by
    rintro _ p _ k rfl
    exact v.hide_notify p k
  emit := by
    rintro _ p _ e rfl
    simp only [Over, Pool.emit, hide, v.emit]
  shut := by
    rintro _ p _ rfl
    simp only [Over, hide, v.shut]
  list := by
    rintro _ p _ t rfl
    rfl
  set := by
    rintro _ p _ t xs rfl
    rfl
  view := by
    rintro _ p _ rfl
    rfl
  put := by
    rintro _ p _ t id rfl
    exact ⟨rfl, rfl⟩
  tryTake := by
    rintro _ p _ t rfl
    exact ⟨rfl, rfl⟩
  take := by
    rintro _ p _ t expired rfl
    exact ⟨rfl, rfl⟩
  withdraw := by
    rintro _ p _ n rfl
    rfl
  close := by
    rintro _ p _ rfl
    exact ⟨rfl, rfl, rfl⟩

theorem hide_run {α : Type} {m : PoolAct α} (hm : Act.Respects v.Over m) (p : Pool) :
    m.run (v.hide p) = ((m.run p).1, v.hide (m.run p).2) := by
  have hover : v.Over () p (v.hide p) := rfl
  obtain ⟨hanswer, hstate⟩ := hm.run hover
  exact Prod.ext hanswer hstate

end Hiding
end ConnPool
