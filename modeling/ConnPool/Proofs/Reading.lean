import ConnPool.Proofs.Storage
import ConnPool.Proofs.Typing
import Mathlib.Data.List.Nodup

namespace ConnPool

namespace Json

section Members

variable {α : Type} {known : List String} {skip : Bool} {assign : String → Json → α → Option α}
  {ms : List (Option String × Json)} {seen : List String} {a b : α}

/-- What it takes to read on past one member. -/
theorem readMembers?_cons {m : Option String × Json}
    (h : readMembers? known skip assign (m :: ms) seen a = some b) :
    ∃ k, m.1 = some k ∧
      ((k ∈ known ∧ k ∉ seen ∧ ∃ a', assign k m.2 a = some a' ∧
          readMembers? known skip assign ms (k :: seen) a' = some b) ∨
        (k ∉ known ∧ readMembers? known skip assign ms seen a = some b)) := by
  obtain ⟨_ | k, j⟩ := m
  · cases h
  · refine ⟨k, rfl, ?_⟩
    simp only [readMembers?, List.contains_iff_mem] at h
    split at h
    next hknown =>
      split at h
      next => cases h
      next hseen =>
        obtain ⟨a', hassign, hrest⟩ := Option.bind_eq_some_iff.mp h
        exact Or.inl ⟨hknown, hseen, a', hassign, hrest⟩
    next hknown =>
      split at h
      next => exact Or.inr ⟨hknown, h⟩
      next => cases h

/-- In an object that is read, a known key comes once at most, and not at all after it was seen. -/
theorem readMembers?_once (h : readMembers? known skip assign ms seen a = some b) {k : String}
    (hk : k ∈ known) : (ms.map Prod.fst).count (some k) ≤ if k ∈ seen then 0 else 1 := by
  induction ms generalizing seen a with
  | nil => exact Nat.zero_le _
  | cons m ms ih =>
    obtain ⟨k', hkey, ⟨_, hseen, a', _, hrest⟩ | ⟨hunknown, hrest⟩⟩ := readMembers?_cons h
    · have hcount := ih hrest
      rw [List.map_cons, hkey, List.count_cons]
      by_cases heq : k' = k
      · subst heq
        simp only [List.mem_cons, true_or, if_true] at hcount
        simp only [beq_self_eq_true, if_true, hseen, if_false]
        omega
      · simpa [heq, Ne.symm heq] using hcount
    · have hcount := ih hrest
      have heq : k' ≠ k := by
        rintro rfl
        exact hunknown hk
      rw [List.map_cons, hkey, List.count_cons]
      simpa [heq] using hcount

/-- In an object that is read, every value under a known key has been assigned. -/
theorem readMembers?_assigned (h : readMembers? known skip assign ms seen a = some b) {k : String}
    (hk : k ∈ known) {j : Json} (hj : (some k, j) ∈ ms) : ∃ a₀ a₁, assign k j a₀ = some a₁ := by
  induction ms generalizing seen a with
  | nil => cases hj
  | cons m ms ih =>
    obtain ⟨k', hkey, ⟨_, _, a', hassign, hrest⟩ | ⟨hunknown, hrest⟩⟩ := readMembers?_cons h
    · rcases List.mem_cons.mp hj with rfl | hj
      · cases hkey
        exact ⟨a, a', hassign⟩
      · exact ih hrest hj
    · rcases List.mem_cons.mp hj with rfl | hj
      · cases hkey
        exact absurd hk hunknown
      · exact ih hrest hj

end Members

theorem load?_laid {α : Type} (ofJson? : Json → Option α) {j : Json} {text : List Char}
    (h : Laid j.tokens text) : load? ofJson? (String.ofList text) = ofJson? j := by
  rw [load?, parse?_laid h, Option.bind_some]

end Json

namespace Config

/-- The fields in the order of their declaration. -/
inductive Field where
  | name
  | strategy
  | prefill
  | minSize
  | maxSize
  | acquisitionTimeout
  | validationInterval
  | leakTimeout
  | leakSweepInterval
  | reapIdleTimeout
  | reapSweepInterval
  | threadAffinity
  | housekeepingThreads
  | eventBuffer
  deriving DecidableEq

namespace Field

def all : List Field := [
  name, strategy, prefill, minSize, maxSize, acquisitionTimeout, validationInterval, leakTimeout,
  leakSweepInterval, reapIdleTimeout, reapSweepInterval, threadAffinity, housekeepingThreads,
  eventBuffer]

def kind : Field → Kind
  | name => .text
  | strategy => .strategy
  | prefill => .prefill
  | minSize | maxSize | housekeepingThreads | eventBuffer => .word
  | acquisitionTimeout | validationInterval | leakTimeout | reapIdleTimeout => .span
  | leakSweepInterval | reapSweepInterval => .optionalSpan
  | threadAffinity => .flag

abbrev Value (f : Field) : Type := f.kind.Value

def key : Field → String
  | name => "name"
  | strategy => "strategy"
  | prefill => "prefill"
  | minSize => "min_size"
  | maxSize => "max_size"
  | acquisitionTimeout => "acquisition_timeout"
  | validationInterval => "validation_interval"
  | leakTimeout => "leak_timeout"
  | leakSweepInterval => "leak_sweep_interval"
  | reapIdleTimeout => "reap_idle_timeout"
  | reapSweepInterval => "reap_sweep_interval"
  | threadAffinity => "thread_affinity"
  | housekeepingThreads => "housekeeping_threads"
  | eventBuffer => "event_buffer"

theorem mem_all (f : Field) : f ∈ all := by cases f <;> decide

end Field

def get (c : Config) : (f : Field) → f.Value
  | .name => c.name
  | .strategy => c.strategy
  | .prefill => c.prefill
  | .minSize => c.minSize
  | .maxSize => c.maxSize
  | .acquisitionTimeout => c.acquisitionTimeout
  | .validationInterval => c.validationInterval
  | .leakTimeout => c.leakTimeout
  | .leakSweepInterval => c.leakSweepInterval
  | .reapIdleTimeout => c.reapIdleTimeout
  | .reapSweepInterval => c.reapSweepInterval
  | .threadAffinity => c.threadAffinity
  | .housekeepingThreads => c.housekeepingThreads
  | .eventBuffer => c.eventBuffer

def set (c : Config) : (f : Field) → f.Value → Config
  | .name, v => { c with name := v }
  | .strategy, v => { c with strategy := v }
  | .prefill, v => { c with prefill := v }
  | .minSize, v => { c with minSize := v }
  | .maxSize, v => { c with maxSize := v }
  | .acquisitionTimeout, v => { c with acquisitionTimeout := v }
  | .validationInterval, v => { c with validationInterval := v }
  | .leakTimeout, v => { c with leakTimeout := v }
  | .leakSweepInterval, v => { c with leakSweepInterval := v }
  | .reapIdleTimeout, v => { c with reapIdleTimeout := v }
  | .reapSweepInterval, v => { c with reapSweepInterval := v }
  | .threadAffinity, v => { c with threadAffinity := v }
  | .housekeepingThreads, v => { c with housekeepingThreads := v }
  | .eventBuffer, v => { c with eventBuffer := v }

theorem get_set_self (c : Config) (f : Field) (v : f.Value) : (c.set f v).get f = v := by
  cases f <;> rfl

theorem get_set_of_ne (c : Config) {f g : Field} (v : f.Value) (hne : g ≠ f) :
    (c.set f v).get g = c.get g := by
  cases f <;> cases g <;> first | rfl | exact absurd rfl hne

/-- The keys are those of the fields. -/
theorem keys_eq : keys = Field.all.map Field.key := rfl

theorem Field.key_mem (f : Field) : f.key ∈ keys := by
  rw [keys_eq]
  exact List.mem_map_of_mem f.mem_all

theorem Field.key_injective {f g : Field} (h : f.key = g.key) : f = g := by
  have hnodup : (all.map key).Nodup := by decide
  exact List.inj_on_of_nodup_map hnodup f.mem_all g.mem_all h

/-- Each field is replaced by what is read for its type. -/
theorem assign?_key (f : Field) (j : Json) (c : Config) :
    assign? f.key j c = (f.kind.read? j).map (c.set f) := by
  cases f <;> rfl

theorem assign?_written {f : Field} {v : f.Value} {j : Json} (h : f.kind.Written v j) (c : Config) :
    assign? f.key j c = some (c.set f v) := by
  rw [assign?_key, Kind.read?_eq_some.mpr h, Option.map_some]

/-- A value for one field. -/
structure Setting where
  field : Field
  value : field.Value

/-- A configuration is known by its fields. -/
theorem ext_get {c d : Config} (h : ∀ f, c.get f = d.get f) : c = d := by
  cases c
  cases d
  rw [mk.injEq]
  exact ⟨h .name, h .strategy, h .prefill, h .minSize, h .maxSize, h .acquisitionTimeout,
    h .validationInterval, h .leakTimeout, h .leakSweepInterval, h .reapIdleTimeout,
    h .reapSweepInterval, h .threadAffinity, h .housekeepingThreads, h .eventBuffer⟩

/-- The members of an object give these settings, each under its key and well typed, in this order
and among any members with unknown keys. -/
inductive Gives : List (Option String × Json) → List Setting → Prop
  | nil : Gives [] []
  | known {ms : List (Option String × Json)} {ss : List Setting} {s : Setting} {j : Json}
    (written : s.field.kind.Written s.value j) (rest : Gives ms ss) :
    Gives ((some s.field.key, j) :: ms) (s :: ss)
  | unknown {ms : List (Option String × Json)} {ss : List Setting} {k : String} {j : Json}
    (unknown : k ∉ keys) (rest : Gives ms ss) : Gives ((some k, j) :: ms) ss

/-- A configuration that has the settings, and is otherwise as another one. -/
structure Replaces (ss : List Setting) (base c : Config) : Prop where
  given : ∀ s ∈ ss, c.get s.field = s.value
  others : ∀ f, f ∉ ss.map Setting.field → c.get f = base.get f

theorem Replaces.nil (c : Config) : Replaces [] c c := ⟨nofun, fun _ _ => rfl⟩

/-- A field that is set first keeps its value as long as it is not given again. -/
theorem Replaces.cons {s : Setting} {ss : List Setting} {base c : Config}
    (hnew : s.field ∉ ss.map Setting.field)
    (h : Replaces ss (base.set s.field s.value) c) : Replaces (s :: ss) base c := by
  constructor
  · intro t ht
    rcases List.mem_cons.mp ht with rfl | ht
    · rw [h.others t.field hnew, get_set_self]
    · exact h.given t ht
  · intro f hf
    rw [List.map_cons, List.mem_cons, not_or] at hf
    rw [h.others f hf.2, get_set_of_ne base s.value hf.1]

theorem Replaces.unique {ss : List Setting} {base c d : Config} (hc : Replaces ss base c)
    (hd : Replaces ss base d) : c = d := by
  apply ext_get
  intro f
  by_cases hf : f ∈ ss.map Setting.field
  · obtain ⟨s, hs, rfl⟩ := List.mem_map.mp hf
    rw [hc.given s hs, hd.given s hs]
  · rw [hc.others f hf, hd.others f hf]

/-- Going through the members, every field that has not been seen yet can still be set. -/
theorem readMembers?_gives {ms : List (Option String × Json)} {ss : List Setting}
    (h : Gives ms ss) (hnodup : (ss.map Setting.field).Nodup) (seen : List String)
    (hnew : ∀ s ∈ ss, s.field.key ∉ seen) (base : Config) :
    ∃ c, Json.readMembers? keys true assign? ms seen base = some c ∧ Replaces ss base c := by
  induction h generalizing seen base with
  | nil => exact ⟨base, rfl, Replaces.nil base⟩
  | @known ms ss s j written _ ih =>
    obtain ⟨hfirst, hnodup⟩ := List.nodup_cons.mp hnodup
    obtain ⟨hseen, hnew⟩ := List.forall_mem_cons.mp hnew
    have hstill : ∀ t ∈ ss, t.field.key ∉ s.field.key :: seen := by
      intro t ht hmem
      rcases List.mem_cons.mp hmem with heq | hmem
      · apply hfirst
        rw [← Field.key_injective heq]
        exact List.mem_map_of_mem ht
      · exact hnew t ht hmem
    obtain ⟨c, hread, hc⟩ := ih hnodup (s.field.key :: seen) hstill (base.set s.field s.value)
    refine ⟨c, ?_, hc.cons hfirst⟩
    simp only [Json.readMembers?, List.contains_iff_mem, s.field.key_mem, if_true, hseen, if_false,
      assign?_written written, Option.bind_some, hread]
  | unknown hunknown _ ih =>
    obtain ⟨c, hread, hc⟩ := ih hnodup seen hnew base
    refine ⟨c, ?_, hc⟩
    simp only [Json.readMembers?, List.contains_iff_mem, hunknown, if_false, if_true, hread]

theorem ofJson?_gives {ms : List (Option String × Json)} {ss : List Setting} (h : Gives ms ss)
    (hnodup : (ss.map Setting.field).Nodup) :
    ∃ c, ofJson? (.obj ms) = some c ∧ Replaces ss {} c :=
  readMembers?_gives h hnodup [] (fun _ _ => List.not_mem_nil) {}

theorem ofJson?_repeated {ms : List (Option String × Json)} {f : Field}
    (h : 2 ≤ (ms.map Prod.fst).count (some f.key)) : ofJson? (.obj ms) = none := by
  apply Option.eq_none_iff_forall_ne_some.mpr
  intro c hc
  have honce := Json.readMembers?_once hc f.key_mem
  rw [if_neg List.not_mem_nil] at honce
  omega

theorem ofJson?_ill_typed {ms : List (Option String × Json)} {f : Field} {j : Json}
    (hj : (some f.key, j) ∈ ms) (h : ∀ v, ¬ f.kind.Written v j) : ofJson? (.obj ms) = none := by
  apply Option.eq_none_iff_forall_ne_some.mpr
  intro c hc
  obtain ⟨c₀, c₁, hassign⟩ := Json.readMembers?_assigned hc f.key_mem hj
  rw [assign?_key, Option.map_eq_some_iff] at hassign
  obtain ⟨v, hv, -⟩ := hassign
  exact h v (Kind.read?_eq_some.mp hv)

/-- Values in an array are assigned like members with the keys in turn. -/
theorem assignAll?_eq (ks : List String) (js : List Json) (c : Config)
    (hlen : js.length ≤ ks.length) :
    assignAll? ks js c = (ks.zip js).foldlM (fun c m => assign? m.1 m.2 c) c := by
  induction js generalizing ks c with
  | nil =>
    rw [List.zip_nil_right]
    cases ks <;> rfl
  | cons j js ih =>
    cases ks with
    | nil => exact absurd hlen (Nat.not_succ_le_zero _)
    | cons k ks =>
      rw [List.zip_cons_cons, List.foldlM_cons]
      show (c.assign? k j).bind _ = _
      congr 1
      funext d
      exact ih ks d (Nat.le_of_succ_le_succ hlen)

theorem ofJson?_arr {js : List Json} (hlen : js.length ≤ keys.length) :
    ofJson? (.arr js) = ofJson? (.object (keys.zip js)) := by
  simp only [ofJson?, Json.object]
  rw [assignAll?_eq keys js {} hlen, Json.readMembers?_zip assign? keys js [] {} (fun _ hk => hk)
    (fun _ _ => List.not_mem_nil) (by decide)]

/-- A configuration is what the members of an object say, and the default where they say nothing:
for settings of different fields in any order, among any unknown keys with any values, in any
layout. An object that has a known key twice, or has an ill-typed value under one, is refused.
Values in an array are read like members with the keys in turn. -/
theorem read_as_given :
    (∀ (settings : List Setting) (ms : List (Option String × Json)) (text : List Char),
      (settings.map Setting.field).Nodup → Gives ms settings →
      Json.Laid (Json.obj ms).tokens text →
        ∃ c, Json.load? ofJson? (String.ofList text) = some c ∧ Replaces settings {} c) ∧
    (∀ (ms : List (Option String × Json)) (text : List Char) (f : Field),
      Json.Laid (Json.obj ms).tokens text → 2 ≤ (ms.map Prod.fst).count (some f.key) →
        Json.load? ofJson? (String.ofList text) = none) ∧
    (∀ (ms : List (Option String × Json)) (text : List Char) (f : Field) (j : Json),
      Json.Laid (Json.obj ms).tokens text → (some f.key, j) ∈ ms →
      (∀ v, ¬ f.kind.Written v j) →
        Json.load? ofJson? (String.ofList text) = none) ∧
    ∀ (js : List Json) (list text : List Char),
      js.length ≤ keys.length → Json.Laid (Json.arr js).tokens list →
      Json.Laid (Json.object (keys.zip js)).tokens text →
        Json.load? ofJson? (String.ofList list) = Json.load? ofJson? (String.ofList text) := by
  refine ⟨?_, ?_, ?_, ?_⟩
  · intro settings ms text hnodup hgives hlaid
    rw [Json.load?_laid ofJson? hlaid]
    exact ofJson?_gives hgives hnodup
  · intro ms text f hlaid htwice
    rw [Json.load?_laid ofJson? hlaid]
    exact ofJson?_repeated htwice
  · intro ms text f j hlaid hj hill
    rw [Json.load?_laid ofJson? hlaid]
    exact ofJson?_ill_typed hj hill
  · intro js list text hlen hlist hobject
    rw [Json.load?_laid ofJson? hlist, Json.load?_laid ofJson? hobject]
    exact ofJson?_arr hlen

/-- Three fields out of order, around a key that no field has; then the refusals, and an array. -/
theorem orders_read_as_given :
    Json.load? ofJson?
    (" \x7b \"max_size\" : 4 , \"colour\" : [ null , \x7b \"name\" : 7 \x7d ] ," ++
        " \"strategy\" : \x7b \"rendezvous\" : null \x7d , \"name\" : \"orders\" \x7d") =
        some { name := "orders", strategy := .rendezvous, maxSize := 4 } ∧
      Json.load? ofJson? " \x7b \"min_size\" : 1 , \"min_size\" : 1 \x7d" = none ∧
      Json.load? ofJson? " \x7b \"min_size\" : true , \"colour\" : null \x7d" = none ∧
      Json.load? ofJson? " [ \"orders\" , \"bag\" ]" =
        Json.load? ofJson? " \x7b \"name\" : \"orders\" , \"strategy\" : \"bag\" \x7d" := by
  have hlaid : ∀ j : Json, (∀ t ∈ j.tokens, t.Plain) →
      Json.Laid j.tokens (j.tokens.flatMap fun t => [' '] ++ t.chars) :=
    fun _ hj => Json.laid_chars (List.forall_mem_singleton.mpr rfl) hj
  refine ⟨?_, ?_, ?_, ?_⟩
  · have hgives : Gives
        [(some "max_size", .ofNat 4),
          (some "colour", .arr [.null, .object [("name", .ofNat 7)]]),
          (some "strategy", .object [("rendezvous", .null)]),
          (some "name", .ofString "orders")]
        [⟨.maxSize, (4 : UInt64)⟩, ⟨.strategy, Strategy.rendezvous⟩, ⟨.name, "orders"⟩] := by
      refine .known (s := ⟨.maxSize, (4 : UInt64)⟩) ?_ (.unknown ?_
        (.known (s := ⟨.strategy, Strategy.rendezvous⟩) ?_
        (.known (s := ⟨.name, "orders"⟩) ?_ .nil)))
      · rfl
      · decide
      · exact Or.inr rfl
      · rfl
    have hreplaces : Replaces
        [⟨.maxSize, (4 : UInt64)⟩, ⟨.strategy, Strategy.rendezvous⟩, ⟨.name, "orders"⟩] {}
        { name := "orders", strategy := .rendezvous, maxSize := 4 } :=
      .cons (by decide) (.cons (by decide) (.cons (by decide) (.nil _)))
    obtain ⟨c, hread, hc⟩ := read_as_given.1 _ _ _ (by decide) hgives (hlaid _ (by decide))
    rw [← hc.unique hreplaces, ← hread]
    congr 1
  · exact read_as_given.2.1 [(some "min_size", .ofNat 1), (some "min_size", .ofNat 1)] _ .minSize
      (hlaid _ (by decide)) (by decide)
  · exact read_as_given.2.2.1 [(some "min_size", .bool true), (some "colour", .null)] _ .minSize
      (.bool true) (hlaid _ (by decide)) List.mem_cons_self (fun _ h => by cases h)
  · exact read_as_given.2.2.2 [.ofString "orders", .ofString "bag"] _ _ (by decide)
      (hlaid _ (by decide)) (hlaid _ (by decide))

end Config
end ConnPool
