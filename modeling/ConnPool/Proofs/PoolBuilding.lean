import ConnPool.Proofs.History
import ConnPool.Proofs.Ring

namespace ConnPool.Pool

variable {c : Config} {f : Factory} {ls : List Listener} {us : Units}

/-- Nothing of a configuration gets in the way of the construction. -/
def Buildable (c : Config) : Prop := '\x00' ∉ c.name.toList ∧ c.eventBuffer.toNat ≤ 2 ^ 56

theorem canName_iff : canName c = true ↔ '\x00' ∉ c.name.toList := by
  rw [canName, Bool.not_eq_true', ← Bool.not_eq_true, List.contains_iff_mem]

theorem build_refused {fault : Config.Fault} (hf : c.fault? = some fault) :
    build c f ls us = .error fault.failure := by
  simp only [build, hf]

theorem build_accepted (hc : c.Accepted) :
    build c f ls us = .ok (if canName c then
      (Bus.open? c.eventBuffer.toNat).map fun bus => (new c f ls us bus).start else none) := by
  have hnone : c.fault? = none := hc
  simp only [build, hnone]

theorem built_iff_buildable (hc : c.Accepted) :
    (∃ p, build c f ls us = .ok (some p)) ↔ Buildable c := by
  simp only [build_iff, Buildable, ← canName_iff, ← Bus.open?_isSome_iff, Option.isSome_iff_exists]
  exact ⟨fun ⟨_, _, hname, bus, hopen, _⟩ => ⟨hname, bus, hopen⟩,
    fun ⟨hname, bus, hopen⟩ => ⟨_, hc, hname, bus, hopen, rfl⟩⟩

/-- What comes of a configuration: it is refused as such exactly if there is a fault in it, and the
fault is named; it makes a pool exactly if nothing gets in the way of the construction either; and
it breaks down else. -/
structure Attempted (c : Config) (r : Except Failure (Option Pool)) : Prop where
  refused : ∀ e, r = .error e ↔ ∃ fault, c.fault? = some fault ∧ e = .configuration fault.message
  built : (∃ p, r = .ok (some p)) ↔ c.Accepted ∧ Buildable c
  broken : r = .ok none ↔ c.Accepted ∧ ¬ Buildable c

/-- The checks of a configuration cover its construction but for the name and the buffer. -/
theorem checks_cover_all_but_two (c : Config) (f : Factory) (ls : List Listener) (us : Units) :
    Attempted c (build c f ls us) := by
  cases hc : c.fault? with
  | some fault =>
    have hfaulty : ¬ c.Accepted := fun h => by cases hc.symm.trans h
    rw [build_refused hc]
    refine ⟨fun e => ⟨fun he => ?_, ?_⟩, ?_, ?_⟩
    · cases he
      exact ⟨fault, hc, rfl⟩
    · rintro ⟨fault', hsame, rfl⟩
      cases hc.symm.trans hsame
      rfl
    · exact iff_of_false (fun ⟨_, hp⟩ => by cases hp) fun h => hfaulty h.1
    · exact iff_of_false (fun hp => by cases hp) fun h => hfaulty h.1
  | none =>
    have hbuilt := @built_iff_buildable c f ls us hc
    have hok := @build_accepted c f ls us hc
    refine ⟨fun e => ⟨fun he => ?_, ?_⟩, ?_, ?_⟩
    · cases hok.symm.trans he
    · rintro ⟨fault, hsame, -⟩
      cases hc.symm.trans hsame
    · rw [hbuilt]
      exact (and_iff_right hc).symm
    · rw [← hbuilt, hok]
      generalize (if canName c then
        (Bus.open? c.eventBuffer.toNat).map fun bus => (new c f ls us bus).start else none) = r
      have haccepted : c.Accepted := hc
      cases r <;> simp [haccepted]

/-- A configuration that is in order breaks down over a buffer beyond what a channel can have. -/
theorem vast_buffer_breaks :
    ∃ c : Config, c.Accepted ∧ c.eventBuffer.toNat = 2 ^ 63 ∧ '\x00' ∉ c.name.toList ∧
      build c {} [] {} = .ok none :=
  ⟨{ eventBuffer := 9223372036854775808 }, by decide, by decide, by decide, rfl⟩

end ConnPool.Pool
