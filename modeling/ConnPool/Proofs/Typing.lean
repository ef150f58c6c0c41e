import ConnPool.Json.Stored

namespace ConnPool

/-- The name of a variant: as a string, or as the one key of an object that maps it to null. -/
def Json.Names (name : String) (j : Json) : Prop :=
  j = .str (some name) ∨ j = .obj [(some name, .null)]

/-- Seconds and nanoseconds, by key in either order or in an array. Nanoseconds may exceed a
second. -/
def Duration.Written (d : Duration) (j : Json) : Prop :=
  ∃ secs nanos, secs < UInt64.size ∧ nanos < UInt32.size ∧
    secs * 1000000000 + nanos = d.toNanos ∧
    (j = .object [("secs", .ofNat secs), ("nanos", .ofNat nanos)] ∨
      j = .object [("nanos", .ofNat nanos), ("secs", .ofNat secs)] ∨
      j = .arr [.ofNat secs, .ofNat nanos])

/-- An absent duration is written as null. -/
def Duration.WrittenOptional : Option Duration → Json → Prop
  | none, j => j = .null
  | some d, j => d.Written j

/-- The types of the fields of a configuration. -/
inductive Kind where
  | text
  | strategy
  | prefill
  | word
  | span
  | optionalSpan
  | flag

namespace Kind

def Value : Kind → Type
  | text => String
  | strategy => Strategy
  | prefill => Prefill
  | word => UInt64
  | span => Duration
  | optionalSpan => Option Duration
  | flag => Bool

/-- The JSON values that stand for a value. -/
def Written : (k : Kind) → k.Value → Json → Prop
  | text, s, j => j = .str (some s)
  | strategy, s, j => j.Names s.name
  | prefill, p, j => j.Names p.name
  | word, w, j => j = .ofNat w.toNat
  | span, d, j => d.Written j
  | optionalSpan, d, j => Duration.WrittenOptional d j
  | flag, b, j => j = .bool b

def read? : (k : Kind) → Json → Option k.Value
  | text => Json.string?
  | strategy => Strategy.ofJson?
  | prefill => Prefill.ofJson?
  | word => Json.word?
  | span => Duration.ofJson?
  | optionalSpan => Config.optionalOfJson?
  | flag => Json.bool?

end Kind

namespace Json

theorem nat?_eq_some {j : Json} {n : Nat} : j.nat? = some n ↔ j = .ofNat n := by
  constructor
  · intro h
    unfold nat? at h
    split at h
    · cases h
      rfl
    · cases h
  · rintro rfl
    rfl

theorem string?_eq_some {j : Json} {s : String} : j.string? = some s ↔ j = .str (some s) := by
  constructor
  · intro h
    unfold string? at h
    split at h
    · rw [h]
    · cases h
  · rintro rfl
    rfl

theorem bool?_eq_some {j : Json} {b : Bool} : j.bool? = some b ↔ j = .bool b := by
  constructor
  · intro h
    unfold bool? at h
    split at h
    · cases h
      rfl
    · cases h
  · rintro rfl
    rfl

theorem word?_eq_some {j : Json} {w : UInt64} : j.word? = some w ↔ j = .ofNat w.toNat := by
  constructor
  · intro h
    unfold word? at h
    split at h
    next n hn =>
      split at h
      next hfits =>
        cases h
        have hvalue : n.toUInt64.toNat = n := UInt64.toNat_ofNat_of_lt' hfits
        rw [hvalue]
        exact nat?_eq_some.mp hn
      next => cases h
    next => cases h
  · rintro rfl
    exact word?_ofNat w

theorem tag?_eq_some {j : Json} {s : String} : j.tag? = some s ↔ j.Names s := by
  constructor
  · intro h
    unfold tag? at h
    split at h
    · exact Or.inl (by rw [h])
    · cases h
      exact Or.inr rfl
    · cases h
  · rintro (rfl | rfl) <;> rfl

end Json

/-- Variants that are told apart by their names are read by them. -/
theorem Json.variant_eq_some {α : Type} {all : List α} {name : α → String}
    (distinct : ∀ a, all.find? (name · = name a) = some a) {j : Json} {a : α} :
    (j.tag?.bind fun s => all.find? (name · = s)) = some a ↔ j.Names (name a) := by
  rw [Option.bind_eq_some_iff]
  constructor
  · rintro ⟨s, htag, hfind⟩
    have hname : name a = s := by simpa using List.find?_some hfind
    rw [hname]
    exact tag?_eq_some.mp htag
  · intro h
    exact ⟨name a, tag?_eq_some.mpr h, distinct a⟩

theorem Strategy.ofJson?_eq_some {j : Json} {s : Strategy} :
    ofJson? j = some s ↔ j.Names s.name :=
  Json.variant_eq_some ofName?_name

theorem Prefill.ofJson?_eq_some {j : Json} {p : Prefill} :
    ofJson? j = some p ↔ j.Names p.name :=
  Json.variant_eq_some ofName?_name

namespace Duration

theorem ofParts?_eq_some {secs nanos : Nat} {d : Duration} :
    ofParts? secs nanos = some d ↔ secs * 1000000000 + nanos = d.toNanos := by
  have hnanos := d.nanos_lt
  constructor
  · intro h
    unfold ofParts? at h
    split at h
    next hfits =>
      cases h
      have hvalue : (secs + nanos / 1000000000).toUInt64.toNat = secs + nanos / 1000000000 :=
        UInt64.toNat_ofNat_of_lt' hfits
      simp only [toNanos, hvalue]
      omega
    next => cases h
  · intro h
    have hsum : (secs * 1000000000 + nanos) / 1000000000 = d.secs.toNat ∧
        (secs * 1000000000 + nanos) % 1000000000 = d.nanos := by
      rw [h, toNanos]
      omega
    have hsecs : secs + nanos / 1000000000 = d.secs.toNat := by omega
    have hrest : nanos % 1000000000 = d.nanos := by omega
    rw [← ofParts?_secs_nanos d]
    simp only [ofParts?, hsecs, hrest, Nat.div_eq_of_lt hnanos, Nat.mod_eq_of_lt hnanos,
      Nat.add_zero]

theorem ofWords?_eq_some {secs nanos : Json} {d : Duration} :
    ofWords? secs nanos = some d ↔ ∃ s n, secs = .ofNat s ∧ nanos = .ofNat n ∧
      s < UInt64.size ∧ n < UInt32.size ∧ s * 1000000000 + n = d.toNanos := by
  simp only [ofWords?, Option.bind_eq_bind, Option.bind_eq_some_iff, Json.nat?_eq_some]
  constructor
  · rintro ⟨s, hs, n, hn, h⟩
    split at h
    next hfits => exact ⟨s, n, hs, hn, hfits.1, hfits.2, ofParts?_eq_some.mp h⟩
    next => cases h
  · rintro ⟨s, n, hs, hn, hsfits, hnfits, h⟩
    refine ⟨s, hs, n, hn, ?_⟩
    rw [if_pos ⟨hsfits, hnfits⟩]
    exact ofParts?_eq_some.mpr h

theorem ofJson?_eq_some {j : Json} {d : Duration} : ofJson? j = some d ↔ d.Written j := by
  constructor
  · intro h
    unfold ofJson? at h
    split at h
    next =>
      obtain ⟨s, n, rfl, rfl, hs, hn, hsum⟩ := ofWords?_eq_some.mp h
      exact ⟨s, n, hs, hn, hsum, Or.inr (Or.inr rfl)⟩
    next =>
      obtain ⟨s, n, rfl, rfl, hs, hn, hsum⟩ := ofWords?_eq_some.mp h
      exact ⟨s, n, hs, hn, hsum, Or.inl rfl⟩
    next =>
      obtain ⟨s, n, rfl, rfl, hs, hn, hsum⟩ := ofWords?_eq_some.mp h
      exact ⟨s, n, hs, hn, hsum, Or.inr (Or.inl rfl)⟩
    next => cases h
  · rintro ⟨s, n, hs, hn, hsum, hj⟩
    have hwords : ofWords? (.ofNat s) (.ofNat n) = some d :=
      ofWords?_eq_some.mpr ⟨s, n, rfl, rfl, hs, hn, hsum⟩
    rcases hj with rfl | rfl | rfl <;> exact hwords

theorem not_written_null (d : Duration) : ¬ d.Written .null := by
  rintro ⟨_, _, -, -, -, h | h | h⟩ <;> cases h

end Duration

theorem Config.optionalOfJson?_eq_some {j : Json} {o : Option Duration} :
    optionalOfJson? j = some o ↔ Duration.WrittenOptional o j := by
  unfold optionalOfJson?
  split
  next =>
    cases o with
    | none => exact iff_of_true rfl rfl
    | some d => exact iff_of_false nofun d.not_written_null
  next hnull =>
    rw [Option.map_eq_some_iff]
    constructor
    · rintro ⟨d, hd, rfl⟩
      exact Duration.ofJson?_eq_some.mp hd
    · intro h
      cases o with
      | none => exact absurd h hnull
      | some d => exact ⟨d, Duration.ofJson?_eq_some.mpr h, rfl⟩

/-- A value is read from the JSON values that stand for it, and from no others. -/
theorem Kind.read?_eq_some {k : Kind} {j : Json} {v : k.Value} :
    k.read? j = some v ↔ k.Written v j := by
  cases k with
  | text => exact Json.string?_eq_some
  | strategy => exact Strategy.ofJson?_eq_some
  | prefill => exact Prefill.ofJson?_eq_some
  | word => exact Json.word?_eq_some
  | span => exact Duration.ofJson?_eq_some
  | optionalSpan => exact Config.optionalOfJson?_eq_some
  | flag => exact Json.bool?_eq_some

end ConnPool
