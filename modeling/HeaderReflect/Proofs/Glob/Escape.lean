import HeaderReflect.Glob.Pattern
import Mathlib.Data.List.Basic

/-!
Patterns that are put together from literal text. Escaped text is read as tokens that each stand
for one character (`tokens?_escape`), so it matches itself and nothing else (`matches_exactly`). A
star in front of plain text matches the names that end with it (`matches_ending`).
-/

namespace HeaderReflect.Glob

/-- The characters that stand for others in a pattern. -/
def wildcards : List Char := ['?', '*', '[', ']']

/-- What an escaped character is read as. -/
def Token.exactly (c : Char) : Token :=
  if c ∈ wildcards then .oneOf [⟨c, c⟩] else .literal c

theorem escape_cons (c : Char) (text : List Char) :
    escape (c :: text) = (if c ∈ wildcards then ['[', c, ']'] else [c]) ++ escape text :=
  List.flatMap_cons

theorem escape_of_plain {text : List Char} (h : ∀ c ∈ text, c ∉ wildcards) :
    escape text = text := by
  induction text with
  | nil => rfl
  | cons c text ih =>
    rw [List.forall_mem_cons] at h
    rw [escape_cons, if_neg h.1, ih h.2, List.singleton_append]

theorem map_exactly_of_plain {text : List Char} (h : ∀ c ∈ text, c ∉ wildcards) :
    text.map Token.exactly = text.map .literal :=
  List.map_congr_left fun c hc => if_neg (h c hc)

/-! ## Reading -/

theorem tokens?_literal {c : Char} (hc : c ∉ wildcards) (fresh : Bool) (rest : List Char) :
    tokens? fresh (c :: rest) = (tokens? (c == '/') rest).map (.literal c :: ·) := by
  simp only [wildcards, List.mem_cons, List.not_mem_nil, or_false, not_or] at hc
  obtain ⟨hany, hstar, hopen, -⟩ := hc
  rw [tokens?] <;> simp [hany, hstar, hopen]

theorem tokens?_bracketed {c : Char} (hc : c ∈ wildcards) (fresh : Bool) (rest : List Char) :
    tokens? fresh ('[' :: c :: ']' :: rest) =
      (tokens? false rest).map (.oneOf [⟨c, c⟩] :: ·) := by
  have hne : c ≠ '!' := by
    rintro rfl
    exact absurd hc (by decide)
  rw [tokens?, classTokens?, if_pos rfl]
  · rfl
  · simp [hne]
  · simp [hne]

/-- Escaped text is read character by character, whatever follows it. Its last character decides
whether a name starts behind it. -/
theorem tokens?_escape (text rest : List Char) (fresh : Bool) :
    ∃ next, tokens? fresh (escape text ++ rest) =
      (tokens? next rest).map (text.map Token.exactly ++ ·) := by
  induction text generalizing fresh with
  | nil => exact ⟨fresh, by simp [escape]⟩
  | cons c text ih =>
    rw [escape_cons, List.append_assoc]
    by_cases hc : c ∈ wildcards
    · obtain ⟨next, hnext⟩ := ih false
      refine ⟨next, ?_⟩
      rw [if_pos hc, List.cons_append, List.cons_append, List.cons_append, List.nil_append,
        tokens?_bracketed hc, hnext, Option.map_map, List.map_cons, Token.exactly, if_pos hc]
      rfl
    · obtain ⟨next, hnext⟩ := ih (c == '/')
      refine ⟨next, ?_⟩
      rw [if_neg hc, List.singleton_append, tokens?_literal hc, hnext, Option.map_map,
        List.map_cons, Token.exactly, if_neg hc]
      rfl

theorem parse?_escape (text : List Char) :
    Pattern.parse? (escape text) = some (text.map Token.exactly) := by
  obtain ⟨next, hnext⟩ := tokens?_escape text [] true
  rw [List.append_nil] at hnext
  rw [Pattern.parse?, hnext, tokens?]
  simp

theorem tokens?_plain {text : List Char} (h : ∀ c ∈ text, c ∉ wildcards) (fresh : Bool) :
    tokens? fresh text = some (text.map .literal) := by
  obtain ⟨next, hnext⟩ := tokens?_escape text [] fresh
  rw [List.append_nil, escape_of_plain h, tokens?, map_exactly_of_plain h] at hnext
  simpa using hnext

/-- The pattern for names with an ending. -/
def Pattern.ending (text : List Char) : Pattern := .anyText :: text.map .literal

theorem parse?_ending {text : List Char} (h : ∀ c ∈ text, c ∉ wildcards) :
    Pattern.parse? ('*' :: text) = some (.ending text) := by
  have hstar : ∀ rest, text ≠ '*' :: rest := by
    rintro rest rfl
    exact h '*' (List.mem_cons_self ..) (by decide)
  rw [Pattern.parse?, tokens?, tokens?_plain h]
  · rfl
  · exact hstar []
  · exact fun rest => hstar ('/' :: rest)
  · exact hstar

/-! ## Matching -/

theorem CharRange.contains_single {c d : Char} :
    (CharRange.mk c c).contains d = true ↔ d = c := by
  simp only [CharRange.contains, Bool.and_eq_true, decide_eq_true_eq]
  constructor
  · rintro ⟨hle, hge⟩
    exact Char.le_antisymm hge hle
  · rintro rfl
    exact ⟨Char.le_refl _, Char.le_refl _⟩

theorem Token.accepts_exactly {c d : Char} : (Token.exactly c).accepts d = true ↔ d = c := by
  unfold Token.exactly
  split
  · simpa [Token.accepts] using CharRange.contains_single
  · simp [Token.accepts]

/-- **Escaped text matches only itself.** -/
theorem matches_exactly {text name : List Char} :
    Pattern.matches (text.map Token.exactly) name = true ↔ name = text := by
  induction text generalizing name with
  | nil => simp [Pattern.matches]
  | cons c text ih =>
    have hsingle : Token.exactly c ≠ .anyText ∧ Token.exactly c ≠ .anyPath := by
      unfold Token.exactly
      split <;> simp
    cases name with
    | nil =>
      rw [List.map_cons, Pattern.matches]
      · simp
      · exact hsingle.1
      · exact hsingle.2
    | cons d name =>
      rw [List.map_cons, Pattern.matches]
      · rw [Bool.and_eq_true, Token.accepts_exactly, ih, List.cons.injEq]
      · exact hsingle.1
      · exact hsingle.2

theorem anySuffix_iff {test : List Char → Bool} {cs : List Char} :
    anySuffix test cs = true ↔ ∃ rest, rest <:+ cs ∧ test rest = true := by
  induction cs with
  | nil => simp [anySuffix]
  | cons c cs ih =>
    rw [anySuffix, Bool.or_eq_true, ih]
    constructor
    · rintro (h | ⟨rest, hrest, h⟩)
      · exact ⟨_, List.suffix_refl _, h⟩
      · exact ⟨rest, hrest.trans (List.suffix_cons c cs), h⟩
    · rintro ⟨rest, hrest, h⟩
      rcases List.suffix_cons_iff.mp hrest with rfl | hrest
      · exact .inl h
      · exact .inr ⟨rest, hrest, h⟩

/-- **A star in front of plain text matches the names that end with the text.** -/
theorem matches_ending {text name : List Char} (h : ∀ c ∈ text, c ∉ wildcards) :
    (Pattern.ending text).matches name = true ↔ text <:+ name := by
  rw [Pattern.ending, Pattern.matches, anySuffix_iff, ← map_exactly_of_plain h]
  constructor
  · rintro ⟨rest, hrest, hmatch⟩
    exact matches_exactly.mp hmatch ▸ hrest
  · intro hsuffix
    exact ⟨text, hsuffix, matches_exactly.mpr rfl⟩

/-! ## Patterns of a whole name -/

/-- Escaped text without wildcards is found by its name. -/
theorem literal?_exactly (text : List Char) :
    (Pattern.literal? (text.map Token.exactly) = some text) ∨
      (Pattern.literal? (text.map Token.exactly) = none ∧ ∃ c ∈ text, c ∈ wildcards) := by
  induction text with
  | nil => exact .inl rfl
  | cons c text ih =>
    by_cases hc : c ∈ wildcards
    · refine .inr ⟨?_, c, List.mem_cons_self .., hc⟩
      rw [List.map_cons, Token.exactly, if_pos hc]
      rfl
    · have hcons : Pattern.literal? ((c :: text).map Token.exactly) =
          (Pattern.literal? (text.map Token.exactly)).map (c :: ·) := by
        rw [List.map_cons, Token.exactly, if_neg hc]
        rfl
      rcases ih with ih | ⟨ih, d, hd, hwild⟩
      · exact .inl (by rw [hcons, ih]; rfl)
      · exact .inr ⟨by rw [hcons, ih]; rfl, d, List.mem_cons_of_mem _ hd, hwild⟩

theorem isRecursive_exactly (text : List Char) :
    Pattern.isRecursive (text.map Token.exactly) = false := by
  rw [Pattern.isRecursive, beq_eq_false_iff_ne]
  cases text with
  | nil => simp
  | cons c text =>
    intro h
    have hhead : Token.exactly c = .anyPath := (List.cons.inj h).1
    unfold Token.exactly at hhead
    split at hhead <;> cases hhead

end HeaderReflect.Glob
