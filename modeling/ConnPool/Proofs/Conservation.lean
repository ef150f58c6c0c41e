import ConnPool.Proofs.History

namespace ConnPool

/-- Where a connection can be. -/
inductive Place where
  | slot (h : HandleId)
  | lease (number : Nat) (h : HandleId)
  | detached
  | closed
  deriving DecidableEq

/-- A place of a handle is the place of no other. -/
def Place.Suits (h : HandleId) : Place → Prop
  | slot k => k = h
  | lease _ k => k = h
  | _ => True

namespace Pool

/-- All places where a connection with this number is found. -/
def places (p : Pool) (serial : Nat) : List Place :=
  (p.handles.filter fun h => h.slot.map (·.serial) = some serial).map (fun h => .slot h.id) ++
  (p.leases.filter (·.connection.serial = serial)).map (fun l => .lease l.number l.handle) ++
  (p.closures.filter (·.serial = serial)).map (fun _ => .closed) ++
  (p.detached.filter (·.serial = serial)).map (fun _ => .detached)

/-- Every connection that was born is in one place, which suits the handle that was made for it. -/
structure Conserved (bs : List Birth) (p : Pool) : Prop where
  serials_nodup : (bs.map (·.serial)).Nodup
  handles_nodup : (bs.map (·.handle)).Nodup
  placed : ∀ b ∈ bs, ∃ x, p.places b.serial = [x] ∧ x.Suits b.handle
  unborn : ∀ s, s ∉ bs.map (·.serial) → p.places s = []
  lent_once : (p.leases.map (·.connection.serial)).Nodup
  lent_own : ∀ l ∈ p.leases, ⟨l.connection.serial, l.handle⟩ ∈ bs
  lent_empty : ∀ l ∈ p.leases, ∃ h ∈ p.handles,
    h.id = l.handle ∧ h.state = .checkedOut ∧ h.slot = none
  closed_once : (p.closures.map (·.serial)).Nodup
  detached_open : ∀ c ∈ p.detached, c.serial ∉ p.closures.map (·.serial)

variable {p : Pool}

theorem length_places (p : Pool) (s : Nat) : (p.places s).length = p.ledger.serials.count s := by
  have hslots : (p.ledger.accounts.filterMap (·.holds)).count s =
      (p.handles.filter fun h => h.slot.map (·.serial) = some s).length := by
    rw [List.count_filterMap]
    change (p.handles.map (·.account)).countP _ = _
    rw [List.countP_map, List.countP_eq_length_filter]
    congr 1
    refine List.filter_congr fun h _ => Bool.eq_iff_iff.mpr ?_
    simp [Handle.account]
  have hmap : ∀ (α : Type) (f : α → Nat) (xs : List α),
      (xs.map f).count s = (xs.filter fun x => f x = s).length := by
    intro α f xs
    rw [List.count, List.countP_map, List.countP_eq_length_filter]
    rfl
  have hloans : (p.ledger.loans.map (·.serial)).count s =
      (p.leases.filter (·.connection.serial = s)).length := by
    simp only [ledger, List.map_map]
    exact hmap Lease (fun l => l.connection.serial) p.leases
  have hclosed : p.ledger.closed.count s = (p.closures.filter (·.serial = s)).length :=
    hmap Connection (·.serial) p.closures
  have hdetached : p.ledger.detached.count s = (p.detached.filter (·.serial = s)).length :=
    hmap Connection (·.serial) p.detached
  simp only [places, Ledger.serials, List.length_append, List.length_map, List.count_append, hslots,
    hloans, hclosed, hdetached]

/-- A connection in a slot or out on loan belongs to the handle there. -/
theorem suits_of_mem {bs : List Birth} (ht : p.ledger.Traced bs) {b : Birth} (hb : b ∈ bs)
    {x : Place}
    (hx : x ∈ p.places b.serial) : x.Suits b.handle := by
  have hown : ∀ k : HandleId, ⟨b.serial, k⟩ ∈ bs → k = b.handle := by
    intro k hk
    have hsame := Keyed.unique Birth.serial ht.serials_nodup hk hb rfl
    rw [← hsame]
  simp only [places, List.mem_append, List.mem_map, List.mem_filter, decide_eq_true_eq] at hx
  rcases hx with ((⟨h, ⟨hh, hs⟩, rfl⟩ | ⟨l, ⟨hl, hs⟩, rfl⟩) | ⟨c, -, rfl⟩) | ⟨c, -, rfl⟩
  · exact hown h.id (ht.held h.account (List.mem_map_of_mem hh) b.serial hs)
  · have hlent := ht.lent l.loan (List.mem_map_of_mem hl)
    exact hown l.handle (hs ▸ hlent)
  · trivial
  · trivial

theorem conserved_of_traced {bs : List Birth} (hf : p.ledger.Fitting) (ht : p.ledger.Traced bs) :
    Conserved bs p := by
  have hnodup : p.ledger.serials.Nodup := ht.conserved.nodup_iff.mpr ht.serials_nodup
  have hparts := hnodup
  simp only [Ledger.serials] at hparts
  obtain ⟨hrest, hdetached, hapart⟩ := List.nodup_append.mp hparts
  obtain ⟨hheld, hclosed, -⟩ := List.nodup_append.mp hrest
  obtain ⟨-, hloans, -⟩ := List.nodup_append.mp hheld
  simp only [ledger, List.map_map] at hloans
  refine ⟨ht.serials_nodup, ht.handles_nodup, ?_, ?_, hloans, ?_, ?_, hclosed, ?_⟩
  · intro b hb
    have hcount : p.ledger.serials.count b.serial = 1 :=
      List.count_eq_one_of_mem hnodup (ht.conserved.mem_iff.mpr (List.mem_map_of_mem hb))
    obtain ⟨x, hx⟩ := List.length_eq_one_iff.mp ((length_places p b.serial).trans hcount)
    exact ⟨x, hx, suits_of_mem ht hb (hx ▸ List.mem_singleton_self x)⟩
  · intro s hs
    have hcount : p.ledger.serials.count s = 0 :=
      List.count_eq_zero_of_not_mem fun hmem => hs (ht.conserved.mem_iff.mp hmem)
    exact List.eq_nil_of_length_eq_zero ((length_places p s).trans hcount)
  · intro l hl
    exact ht.lent l.loan (List.mem_map_of_mem hl)
  · intro l hl
    obtain ⟨h, hfind, hs, hnone⟩ := find_of_lease hf hl
    obtain ⟨hmem, hid⟩ := mem_of_find hfind
    exact ⟨h, hmem, hid, hs, hnone⟩
  · intro c hc hmem
    exact hapart c.serial (List.mem_append_right _ hmem) c.serial (List.mem_map_of_mem hc) rfl

/-- What a run does to a pool that was just built keeps each connection in one place. -/
theorem Fresh.conserved {c : Config} (h : Fresh c p) (ops : List Operation) :
    Conserved (p.births ops) (p.after ops) := by
  have htraced := (h.settled.moves ops).traced h.traced
  rw [List.nil_append] at htraced
  exact conserved_of_traced (h.settled.after ops).sound.books.fitting htraced

/-- Each connection that the factory has ever returned is in the slot of its own handle, in one
lease of that handle, with a caller who detached it, or closed. -/
theorem each_connection_in_one_place {c : Config} {f : Factory} {ls : List Listener} {us : Units}
    (hb : build c f ls us = .ok (some p)) (ops : List Operation) :
    Conserved (p.births ops) (p.after ops) :=
  (fresh_of_build hb).conserved ops

/-- A connection that is created and then lent is on loan from the first handle. -/
theorem first_connection_in_one_place :
    ∃ p, build {} {} [] {} = .ok (some p) ∧
      p.births [.create, .acquire .background 0] = [⟨1, ⟨1⟩⟩] ∧
      (p.after [.create, .acquire .background 0]).places 1 = [.lease 0 ⟨1⟩] ∧
      Conserved (p.births [.create, .acquire .background 0])
        (p.after [.create, .acquire .background 0]) :=
  ⟨_, rfl, rfl, rfl, @each_connection_in_one_place _ {} {} [] {} rfl _⟩

end Pool
end ConnPool
