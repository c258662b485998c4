import HeaderReflect.Text.Blank
import HeaderReflect.Text.Pieces
import Mathlib.Data.List.TakeWhile

/-!
What taking text apart finds: a literal at the front or the end is there exactly if the text is put
together from it, no piece holds a character at which text was cut, and trimming does not see blanks
that were put around a text.
-/

namespace HeaderReflect.Text

theorem after?_eq_some_iff {lead cs rest : List Char} :
    after? lead cs = some rest ↔ cs = lead ++ rest := by
  induction lead generalizing cs with
  | nil => simp [after?]
  | cons l lead ih =>
    cases cs with
    | nil => simp [after?]
    | cons c cs =>
      by_cases h : l = c
      · simp [after?, h, ih]
      · simp [after?, h, Ne.symm h]

theorem beforeLast?_eq_some_iff {close : Char} {cs front : List Char} :
    beforeLast? close cs = some front ↔ cs = front ++ [close] := by
  unfold beforeLast?
  constructor
  · intro h
    split at h
    · rename_i hlast
      obtain ⟨ys, rfl⟩ := List.getLast?_eq_some_iff.mp hlast
      simpa using h
    · cases h
  · rintro rfl
    simp

/-- A piece holds none of the characters at which it was cut off. -/
theorem not_of_mem_splitOnP {p : Char → Bool} {cs piece : List Char}
    (h : piece ∈ cs.splitOnP p) : ∀ c ∈ piece, p c = false := by
  induction cs generalizing piece with
  | nil =>
    obtain rfl := List.mem_singleton.mp h
    nofun
  | cons c cs ih =>
    rw [List.splitOnP_cons_eq_if_modifyHead] at h
    split at h
    · rcases List.mem_cons.mp h with rfl | h
      · nofun
      · exact ih h
    · rename_i hc
      obtain ⟨head, tail, hsplit⟩ := List.exists_cons_of_ne_nil (List.splitOnP_ne_nil p cs)
      rw [hsplit] at h ih
      rcases List.mem_cons.mp h with rfl | h
      · exact List.forall_mem_cons.mpr ⟨by simpa using hc, ih (List.mem_cons_self ..)⟩
      · exact ih (List.mem_cons_of_mem _ h)

/-! ## Blanks -/

/-- Characters that are all blank. -/
def Blank (cs : List Char) : Prop := ∀ c ∈ cs, isBlank c = true

instance (cs : List Char) : Decidable (Blank cs) :=
  decidable_of_decidable_of_iff (List.all_eq_true (p := isBlank))

theorem dropBlanks_append_left {pad : List Char} (h : Blank pad) (cs : List Char) :
    dropBlanks (pad ++ cs) = dropBlanks cs :=
  List.dropWhile_append_of_pos h

theorem dropBlanksEnd_append_right {pad : List Char} (h : Blank pad) (cs : List Char) :
    dropBlanksEnd (cs ++ pad) = dropBlanksEnd cs := by
  have hreverse : Blank pad.reverse := fun c hc => h c (List.mem_reverse.mp hc)
  have hdrop := dropBlanks_append_left hreverse cs.reverse
  unfold dropBlanks at hdrop
  rw [dropBlanksEnd, List.reverse_append, hdrop, dropBlanksEnd]

theorem trimBlanks_of_blank {cs : List Char} (h : Blank cs) : trimBlanks cs = [] := by
  have hfront : dropBlanks cs = [] := List.dropWhile_eq_nil_iff.mpr h
  rw [trimBlanks, hfront]
  rfl

/-- Trimming does not see blanks around a text. -/
theorem trimBlanks_padded {before behind : List Char} (hbefore : Blank before)
    (hbehind : Blank behind) (cs : List Char) :
    trimBlanks (before ++ cs ++ behind) = trimBlanks cs := by
  by_cases hcs : Blank cs
  · have hall : Blank (before ++ cs ++ behind) := by
      simp only [Blank, List.mem_append]
      rintro c ((hc | hc) | hc)
      · exact hbefore c hc
      · exact hcs c hc
      · exact hbehind c hc
    rw [trimBlanks_of_blank hall, trimBlanks_of_blank hcs]
  · have hrest : (dropBlanks cs).isEmpty = false := by
      rw [List.isEmpty_eq_false_iff, dropBlanks, Ne, List.dropWhile_eq_nil_iff]
      exact hcs
    rw [trimBlanks, List.append_assoc, dropBlanks_append_left hbefore]
    unfold dropBlanks at hrest ⊢
    rw [List.dropWhile_append, hrest, if_neg Bool.false_ne_true,
      dropBlanksEnd_append_right hbehind]
    rfl

/-- A text with no blank at either end stays as it is. -/
theorem trimBlanks_of_ends {first last : Char} {cs : List Char} (hfirst : isBlank first = false)
    (hlast : isBlank last = false) :
    trimBlanks (first :: cs ++ [last]) = first :: cs ++ [last] := by
  simp [trimBlanks, dropBlanks, dropBlanksEnd, hfirst, hlast]

end HeaderReflect.Text
