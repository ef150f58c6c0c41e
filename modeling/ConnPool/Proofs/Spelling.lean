import ConnPool.Proofs.Layout
import Mathlib.Tactic.SplitIfs

namespace ConnPool.Json

namespace Machine

/-- No value begins with the token that closes an array. -/
theorem run?_itemOrClose (j : Json) (fs : List Frame) (ts : List Token) :
    run? ⟨fs, .itemOrClose⟩ (j.tokens ++ ts) = run? ⟨fs, .value⟩ (j.tokens ++ ts) := by
  match j with
  | .null | .bool _ | .num .. | .str _ | .arr [] | .arr (_ :: _) | .obj [] | .obj ((_, _) :: _) =>
      rfl

mutual

/-- The tokens of a value make the value, whatever is still open around it. -/
theorem run?_tokens (j : Json) (fs : List Frame) (ts : List Token) :
    run? ⟨fs, .value⟩ (j.tokens ++ ts) = run? (complete fs j) ts := by
  match j with
  | .null | .bool _ | .num .. | .str _ | .arr [] | .obj [] => rfl
  | .arr (j :: js) =>
    have hopen : run? ⟨fs, .value⟩ (tokens (.arr (j :: js)) ++ ts) =
        run? ⟨.arr [] :: fs, .itemOrClose⟩ (j.tokens ++ (itemTokens js ++ ts)) := by
      rw [← List.append_assoc]
      rfl
    rw [hopen, run?_itemOrClose, run?_tokens j]
    exact run?_itemTokens js [j] fs ts
  | .obj ((k, j) :: ms) =>
    have hopen : run? ⟨fs, .value⟩ (tokens (.obj ((k, j) :: ms)) ++ ts) =
        run? ⟨.obj [] k :: fs, .value⟩ (j.tokens ++ (memberTokens ms ++ ts)) := by
      rw [← List.append_assoc]
      rfl
    rw [hopen, run?_tokens j]
    exact run?_memberTokens ms [(k, j)] fs ts

theorem run?_itemTokens (js items : List Json) (fs : List Frame) (ts : List Token) :
    run? ⟨.arr items :: fs, .nextItem⟩ (itemTokens js ++ ts) =
      run? (complete fs (.arr (items.reverse ++ js))) ts := by
  match js with
  | [] =>
    rw [List.append_nil]
    rfl
  | j :: js =>
    have hnext : run? ⟨.arr items :: fs, .nextItem⟩ (itemTokens (j :: js) ++ ts) =
        run? ⟨.arr items :: fs, .value⟩ (j.tokens ++ (itemTokens js ++ ts)) := by
      rw [← List.append_assoc]
      rfl
    have hrest := run?_itemTokens js (j :: items) fs ts
    rw [List.reverse_cons, List.append_assoc, List.singleton_append] at hrest
    rw [hnext, run?_tokens j]
    exact hrest

theorem run?_memberTokens (ms members : List (Option String × Json)) (fs : List Frame)
    (ts : List Token) :
    run? ⟨fs, .nextMember members⟩ (memberTokens ms ++ ts) =
      run? (complete fs (.obj (members.reverse ++ ms))) ts := by
  match ms with
  | [] =>
    rw [List.append_nil]
    rfl
  | (k, j) :: ms =>
    have hnext : run? ⟨fs, .nextMember members⟩ (memberTokens ((k, j) :: ms) ++ ts) =
        run? ⟨.obj members k :: fs, .value⟩ (j.tokens ++ (memberTokens ms ++ ts)) := by
      rw [← List.append_assoc]
      rfl
    have hrest := run?_memberTokens ms ((k, j) :: members) fs ts
    rw [List.reverse_cons, List.append_assoc, List.singleton_append] at hrest
    rw [hnext, run?_tokens j]
    exact hrest

end

end Machine

theorem ofTokens?_tokens (j : Json) : ofTokens? j.tokens = some j := by
  have hrun := Machine.run?_tokens j [] []
  rw [List.append_nil] at hrun
  simp only [ofTokens?, Machine.start, hrun]
  rfl

/-- A text reads as the value whose tokens it holds. -/
theorem parse?_laid {j : Json} {cs : List Char} (h : Laid j.tokens cs) :
    parse? (String.ofList cs) = some j := by
  rw [parse?, tokens?_laid h, Option.bind_some, ofTokens?_tokens]

/-- A token that has one spelling only, and can be stored: a natural number in plain digits, a whole
string, a word or a mark. -/
def Token.Plain : Token → Prop
  | .num negative _ tail => negative = false ∧ tail = []
  | .str text => text.isSome
  | _ => True

instance : DecidablePred Token.Plain
  | .num negative _ tail => inferInstanceAs (Decidable (negative = false ∧ tail = []))
  | .str text => inferInstanceAs (Decidable (text.isSome = true))
  | .openObj | .closeObj | .openArr | .closeArr | .comma | .colon | .null | .bool _ =>
    isTrue trivial

theorem hexValue?_hexDigit {n : Nat} (hn : n < 16) : hexValue? (hexDigit n) = some n := by
  have hall : ∀ k, k < 16 → hexValue? (hexDigit k) = some k := by decide
  exact hall n hn

/-- A character that is printed inside quotes spells itself. -/
theorem unitSpelling_escapeChar (c : Char) : UnitSpelling c.toNat (escapeChar c) := by
  -- the two-character escapes, then the control characters that are left, then all that stand as
  -- they are
  unfold escapeChar
  split_ifs with hquote hslash hline hreturn htab hback hfeed hcontrol
  · exact .letter (by rw [hquote]; rfl)
  · exact .letter (by rw [hslash]; rfl)
  · exact .letter (by rw [hline]; rfl)
  · exact .letter (by rw [hreturn]; rfl)
  · exact .letter (by rw [htab]; rfl)
  · exact .letter (by rw [hback]; rfl)
  · exact .letter (by rw [hfeed]; rfl)
  · have hzero : hexValue? '0' = some 0 := rfl
    have hhigh : hexValue? (hexDigit (c.toNat / 16)) = some (c.toNat / 16) :=
      hexValue?_hexDigit (by omega)
    have hlow : hexValue? (hexDigit (c.toNat % 16)) = some (c.toNat % 16) :=
      hexValue?_hexDigit (by omega)
    have hvalue : ((0 * 16 + 0) * 16 + c.toNat / 16) * 16 + c.toNat % 16 = c.toNat := by omega
    have hdigits := UnitSpelling.digits hzero hzero hhigh hlow
    rw [hvalue] at hdigits
    exact hdigits
  · exact .plain hquote hslash (Nat.le_of_not_lt hcontrol)

/-- No character is half of a surrogate pair. -/
theorem joinHalves?_toNat (cs : List Char) : joinHalves? (cs.map Char.toNat) = some cs := by
  have hwhole : ∀ c : Char, isHighHalf c.toNat = false ∧ isLowHalf c.toNat = false := by
    intro c
    have hvalid : c.toNat < 0xD800 ∨ 0xDFFF < c.toNat ∧ c.toNat < 0x110000 := c.valid
    simp only [isHighHalf, isLowHalf, Bool.and_eq_false_iff, decide_eq_false_iff_not]
    omega
  induction cs with
  | nil => rfl
  | cons c cs ih =>
    obtain ⟨hhigh, hlow⟩ := hwhole c
    cases cs with
    | nil => simp [joinHalves?, hhigh, hlow, Char.ofNat_toNat]
    | cons d ds =>
      simp only [List.map_cons] at ih ⊢
      simp [joinHalves?, hhigh, hlow, ih, Char.ofNat_toNat]

/-- What is printed for a token is one of its spellings. -/
theorem Token.Plain.spelling {t : Token} (ht : t.Plain) : t.Spelling t.chars := by
  cases t with
  | num negative whole tail =>
    obtain ⟨-, rfl⟩ := ht
    exact ⟨⟨[], [], Or.inl rfl, Or.inl rfl, rfl⟩, rfl⟩
  | str text =>
    obtain ⟨s, rfl⟩ := Option.isSome_iff_exists.mp ht
    refine ⟨s.toList.map Char.toNat, s.toList.map escapeChar, ?_, ?_, ?_⟩
    · rw [List.forall₂_map_left_iff, List.forall₂_map_right_iff, List.forall₂_same]
      exact fun c _ => unitSpelling_escapeChar c
    · rw [joinHalves?_toNat, Option.map_some, String.ofList_toList]
    · rw [← List.flatMap_def]
      rfl
  | _ => exact rfl

/-- Tokens that are printed one after the other, with a gap of blanks before each. -/
theorem laid_chars {gap : List Char} (blank : ∀ b ∈ gap, isBlank b = true) {ts : List Token}
    (hts : ∀ t ∈ ts, t.Plain) : Laid ts (ts.flatMap fun t => gap ++ t.chars) := by
  induction ts with
  | nil => exact .nil nofun
  | cons t ts ih =>
    obtain ⟨ht, hts⟩ := List.forall_mem_cons.mp hts
    rw [List.flatMap_cons, List.append_assoc]
    exact .cons blank ht.spelling (ih hts)

/-- What is printed reads as what it was printed for. -/
theorem parse?_render {j : Json} (hj : ∀ t ∈ j.tokens, t.Plain) : parse? j.render = some j :=
  parse?_laid (@laid_chars [] nofun _ hj)

end ConnPool.Json
