import HeaderReflect.Fingerprint
import Mathlib.Data.List.Basic

/-!
What a fingerprint tells. The texts that go into it can be read back from the bytes that are
digested as long as none of them holds a zero byte (`fingerprintParts_eq_of_input_eq`), and then the
imprint of the renderer and all settings among them are the same.
-/

namespace HeaderReflect

/-- The text has no zero byte, so one behind it marks its end. -/
def Text.Plain (s : String) : Prop := 0 ∉ utf8 s

instance (s : String) : Decidable (Text.Plain s) := inferInstanceAs (Decidable (0 ∉ Text.utf8 s))

theorem Text.utf8_injective {s t : String} (h : utf8 s = utf8 t) : s = t := by
  have hs := ofUtf8?_utf8 s
  rw [h, ofUtf8?_utf8] at hs
  exact (Option.some.inj hs).symm

/-- Up to its first zero byte a string of bytes can be split in one way only. -/
theorem eq_of_append_zero {a b as bs : Bytes} (ha : 0 ∉ a) (hb : 0 ∉ b)
    (h : a ++ 0 :: as = b ++ 0 :: bs) : a = b ∧ as = bs := by
  induction a generalizing b with
  | nil =>
    cases b with
    | nil => exact ⟨rfl, (List.cons.inj h).2⟩
    | cons y b => exact absurd ((List.cons.inj h).1 ▸ List.mem_cons_self ..) hb
  | cons x a ih =>
    cases b with
    | nil => exact absurd ((List.cons.inj h).1 ▸ List.mem_cons_self ..) ha
    | cons y b =>
      obtain ⟨rfl, htail⟩ := List.cons.inj h
      have hxs : 0 ∉ a := fun hmem => ha (List.mem_cons_of_mem _ hmem)
      have hys : 0 ∉ b := fun hmem => hb (List.mem_cons_of_mem _ hmem)
      obtain ⟨rfl, hrest⟩ := ih hxs hys htail
      exact ⟨rfl, hrest⟩

theorem eq_of_flatMap_terminated {ps qs : List String} (hps : ∀ p ∈ ps, Text.Plain p)
    (hqs : ∀ q ∈ qs, Text.Plain q)
    (h : (ps.flatMap fun part => Text.utf8 part ++ [0]) =
      qs.flatMap fun part => Text.utf8 part ++ [0]) : ps = qs := by
  induction ps generalizing qs with
  | nil =>
    cases qs with
    | nil => rfl
    | cons q qs => simp at h
  | cons p ps ih =>
    cases qs with
    | nil => simp at h
    | cons q qs =>
      rw [List.forall_mem_cons] at hps hqs
      simp only [List.flatMap_cons, List.append_assoc, List.cons_append, List.nil_append] at h
      obtain ⟨hhead, hrest⟩ := eq_of_append_zero hps.1 hqs.1 h
      rw [Text.utf8_injective hhead, ih hps.2 hqs.2 hrest]

/-- The digested bytes tell the texts apart. -/
theorem fingerprintParts_eq_of_input_eq {r s : Renderer} {c d : Config}
    (hc : ∀ part ∈ fingerprintParts r c, Text.Plain part)
    (hd : ∀ part ∈ fingerprintParts s d, Text.Plain part)
    (h : fingerprintInput r c = fingerprintInput s d) :
    fingerprintParts r c = fingerprintParts s d :=
  eq_of_flatMap_terminated hc hd h

/-- Where the imprints are of one length, the texts tell all settings that they cover. -/
theorem settings_eq_of_parts_eq {r s : Renderer} {c d : Config}
    (hlength : r.imprint.length = s.imprint.length)
    (h : fingerprintParts r c = fingerprintParts s d) :
    r.imprint = s.imprint ∧ c.marker = d.marker ∧ c.memberPrefix = d.memberPrefix ∧
      c.clangArgs = d.clangArgs ∧ c.includeDir = d.includeDir := by
  simp only [fingerprintParts, Config.parserArgs, List.cons_append, List.nil_append,
    List.append_assoc, List.cons.injEq, true_and] at h
  obtain ⟨himprint, hsettings⟩ := List.append_inj h hlength
  obtain ⟨hmarker, hmember, hargs⟩ : c.marker = d.marker ∧ c.memberPrefix = d.memberPrefix ∧
      c.clangArgs ++ ["-I" ++ c.includeDir] = d.clangArgs ++ ["-I" ++ d.includeDir] := by
    simpa only [List.cons.injEq] using hsettings
  obtain ⟨hclang, hinclude⟩ := List.append_inj' hargs rfl
  refine ⟨himprint, hmarker, hmember, hclang, ?_⟩
  have hlist := congrArg String.toList (List.cons.inj hinclude).1
  rw [String.toList_append, String.toList_append] at hlist
  exact String.toList_injective (List.append_cancel_left hlist)

end HeaderReflect
