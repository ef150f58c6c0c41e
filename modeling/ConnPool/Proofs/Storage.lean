import ConnPool.Json.Stored
import ConnPool.Proofs.Spelling

namespace ConnPool

namespace Json

/-- The value stored in a text. -/
def load? {α : Type} (ofJson? : Json → Option α) (text : String) : Option α :=
  (parse? text).bind ofJson?

theorem load?_render {α : Type} {ofJson? : Json → Option α} {j : Json} {a : α}
    (plain : ∀ t ∈ j.tokens, t.Plain) (reads : ofJson? j = some a) :
    load? ofJson? j.render = some a := by
  rw [load?, parse?_render plain, Option.bind_some, reads]

/-- Known keys that come once each are assigned in turn. -/
theorem readMembers?_zip {α : Type} {known : List String} {skip : Bool}
    (assign : String → Json → α → Option α) (ks : List String) (js : List Json) (seen : List String)
    (a : α) (hknown : ∀ k ∈ ks, k ∈ known) (hnew : ∀ k ∈ ks, k ∉ seen) (hnodup : ks.Nodup) :
    readMembers? known skip assign ((ks.zip js).map fun m => (some m.1, m.2)) seen a =
      (ks.zip js).foldlM (fun a m => assign m.1 m.2 a) a := by
  induction ks generalizing js seen a with
  | nil => rfl
  | cons k ks ih =>
    cases js with
    | nil => rfl
    | cons j js =>
      obtain ⟨hk, hknown⟩ := List.forall_mem_cons.mp hknown
      obtain ⟨hkseen, hnew⟩ := List.forall_mem_cons.mp hnew
      obtain ⟨hkks, hnodup⟩ := List.nodup_cons.mp hnodup
      simp only [List.zip_cons_cons, List.map_cons, readMembers?, List.contains_iff_mem, hk,
        if_true, hkseen, if_false, List.foldlM_cons]
      congr 1
      funext a
      refine ih js (k :: seen) a hknown (fun x hx hmem => ?_) hnodup
      rcases List.mem_cons.mp hmem with rfl | hmem
      · exact hkks hx
      · exact hnew x hx hmem

end Json

namespace Config

theorem optionalOfJson?_optionalJson (d : Option Duration) :
    optionalOfJson? (optionalJson d) = some d := by
  cases d with
  | none => rfl
  | some d =>
    have hd := Duration.ofJson?_toJson d
    simp only [optionalJson, Duration.toJson, Json.object] at hd ⊢
    simp only [optionalOfJson?, hd, Option.map_some]

/-- Every field is assigned what is stored of it. -/
theorem assigned_values (c : Config) :
    (keys.zip c.values).foldlM (fun d m => assign? m.1 m.2 d) ({} : Config) = some c := by
  simp [keys, values, assign?, Json.string?, Json.ofString, Json.bool?, Json.word?_ofNat,
    Strategy.ofJson?_toJson, Prefill.ofJson?_toJson, Duration.ofJson?_toJson,
    optionalOfJson?_optionalJson]

theorem ofJson?_toJson (c : Config) : ofJson? c.toJson = some c := by
  simp only [toJson, Json.object, ofJson?]
  rw [Json.readMembers?_zip assign? keys c.values [] {} (fun k hk => hk)
    (fun k _ => List.not_mem_nil)
    (by decide), assigned_values]

end Config

namespace Stats

theorem words?_ofNat {ns : List Nat} (hfits : ∀ n ∈ ns, n < UInt64.size) :
    words? (ns.map Json.ofNat) = some ns := by
  induction ns with
  | nil => rfl
  | cons n ns ih =>
    obtain ⟨hn, hns⟩ := List.forall_mem_cons.mp hfits
    have hrest := ih hns
    simp only [words?] at hrest ⊢
    simp [hn, hrest]

/-- The numbers are found by their keys in the order of the keys, wherever they stand. -/
theorem found_values (s : Stats) :
    keys.mapM (fun k => ((keys.zip (s.values.map Json.ofNat)).reverse.find? (·.1 = k)).map (·.2)) =
      some (s.values.map Json.ofNat) := rfl

theorem ofJson?_toJson {s : Stats} (hfits : s.Fits) : ofJson? s.toJson = some s := by
  have hfound : (keys.zip (s.values.map Json.ofNat)).foldlM (fun a m => some ((m.1, m.2) :: a))
      ([] : List (String × Json)) = some (keys.zip (s.values.map Json.ofNat)).reverse := rfl
  simp only [toJson, Json.object, ofJson?]
  rw [Json.readMembers?_zip (fun k j a => some ((k, j) :: a)) keys (s.values.map Json.ofNat) [] []
    (fun k hk => hk) (fun k _ => List.not_mem_nil) (by decide), hfound]
  simp only [Option.bind_eq_bind, Option.bind_some, found_values, words?_ofNat hfits,
    ofValues?_values]

end Stats

/-- The spelling of a stored value has numbers in plain digits and whole strings only. -/
theorem Json.plain_object {ms : List (String × Json)} (h : ∀ m ∈ ms, ∀ t ∈ m.2.tokens, t.Plain) :
    ∀ t ∈ (object ms).tokens, t.Plain := by
  have hrest : ∀ ms : List (String × Json), (∀ m ∈ ms, ∀ t ∈ m.2.tokens, t.Plain) →
      ∀ t ∈ memberTokens (ms.map fun m => (some m.1, m.2)), t.Plain := by
    intro ms
    induction ms with
    | nil => exact fun _ => List.forall_mem_singleton.mpr trivial
    | cons m ms ih =>
      intro h
      obtain ⟨hm, hms⟩ := List.forall_mem_cons.mp h
      simp only [List.map_cons, memberTokens, List.forall_mem_cons, List.forall_mem_append]
      exact ⟨trivial, rfl, trivial, hm, ih hms⟩
  cases ms with
  | nil => exact List.forall_mem_cons.mpr ⟨trivial, List.forall_mem_singleton.mpr trivial⟩
  | cons m ms =>
    obtain ⟨hm, hms⟩ := List.forall_mem_cons.mp h
    simp only [object, List.map_cons, tokens, List.forall_mem_cons, List.forall_mem_append]
    exact ⟨trivial, rfl, trivial, hm, hrest ms hms⟩

theorem Json.plain_ofNat (n : Nat) : ∀ t ∈ (ofNat n).tokens, t.Plain :=
  List.forall_mem_singleton.mpr ⟨rfl, rfl⟩

theorem Json.plain_ofString (s : String) : ∀ t ∈ (ofString s).tokens, t.Plain :=
  List.forall_mem_singleton.mpr rfl

theorem Duration.plain_toJson (d : Duration) : ∀ t ∈ d.toJson.tokens, t.Plain :=
  Json.plain_object (List.forall_mem_cons.mpr ⟨Json.plain_ofNat _,
    List.forall_mem_singleton.mpr (Json.plain_ofNat _)⟩)

theorem Config.plain_optionalJson (d : Option Duration) :
    ∀ t ∈ (optionalJson d).tokens, t.Plain := by
  cases d with
  | none => exact List.forall_mem_singleton.mpr trivial
  | some d => exact d.plain_toJson

theorem Config.plain_values (c : Config) : ∀ j ∈ c.values, ∀ t ∈ j.tokens, t.Plain := by
  simp only [values, List.forall_mem_cons]
  exact ⟨Json.plain_ofString _, Json.plain_ofString _, Json.plain_ofString _, Json.plain_ofNat _,
    Json.plain_ofNat _, Duration.plain_toJson _, Duration.plain_toJson _, Duration.plain_toJson _,
    plain_optionalJson _, Duration.plain_toJson _, plain_optionalJson _,
    List.forall_mem_singleton.mpr trivial, Json.plain_ofNat _, Json.plain_ofNat _,
    fun _ hj => absurd hj List.not_mem_nil⟩

theorem Config.plain_toJson (c : Config) : ∀ t ∈ c.toJson.tokens, t.Plain :=
  Json.plain_object fun _ hm => c.plain_values _ (List.of_mem_zip hm).2

theorem Stats.plain_toJson (s : Stats) : ∀ t ∈ s.toJson.tokens, t.Plain := by
  refine Json.plain_object fun m hm => ?_
  obtain ⟨n, -, hn⟩ := List.mem_map.mp (List.of_mem_zip hm).2
  rw [← hn]
  exact Json.plain_ofNat n

/-- Whatever is stored as text reads as it was: every configuration, every state, strategy and
prefill, and all numbers of a pool and all numbers of handles that fit a 64-bit word. -/
theorem stored_reads_back :
    (∀ c : Config, Json.load? Config.ofJson? c.toJson.render = some c) ∧
      (∀ s : Stats, s.Fits → Json.load? Stats.ofJson? s.toJson.render = some s) ∧
      (∀ s : State, Json.load? State.ofJson? s.toJson.render = some s) ∧
      (∀ h : HandleId, h.val < UInt64.size → Json.load? HandleId.ofJson? h.toJson.render = some h) ∧
      (∀ s : Strategy, Json.load? Strategy.ofJson? s.toJson.render = some s) ∧
      ∀ p : Prefill, Json.load? Prefill.ofJson? p.toJson.render = some p :=
  ⟨fun c => Json.load?_render c.plain_toJson c.ofJson?_toJson,
    fun s hs => Json.load?_render s.plain_toJson (Stats.ofJson?_toJson hs),
    fun s => Json.load?_render (Json.plain_ofString _) s.ofJson?_toJson,
    fun _ hh => Json.load?_render (Json.plain_ofNat _) (HandleId.ofJson?_toJson hh),
    fun s => Json.load?_render (Json.plain_ofString _) s.ofJson?_toJson,
    fun p => Json.load?_render (Json.plain_ofString _) p.ofJson?_toJson⟩

/-- The greatest numbers that fit are read back. -/
theorem greatest_reads_back :
    Stats.Fits { size := UInt64.size - 1, reaped := UInt64.size - 1 } ∧
      UInt64.size - 1 < UInt64.size ∧
      Json.load? Stats.ofJson?
        (Stats.toJson { size := UInt64.size - 1, reaped := UInt64.size - 1 }).render =
        some { size := UInt64.size - 1, reaped := UInt64.size - 1 } ∧
      Json.load? HandleId.ofJson? (HandleId.toJson ⟨UInt64.size - 1⟩).render =
        some ⟨UInt64.size - 1⟩ := by
  have hfits : Stats.Fits { size := UInt64.size - 1, reaped := UInt64.size - 1 } := by
    unfold Stats.Fits
    decide
  exact ⟨hfits, by decide, stored_reads_back.2.1 _ hfits, stored_reads_back.2.2.2.1 _ (by decide)⟩

end ConnPool
