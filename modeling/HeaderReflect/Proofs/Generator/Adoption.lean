import HeaderReflect.Generator
import HeaderReflect.Proofs.Cache.Storage
import HeaderReflect.Proofs.Fingerprint
import Mathlib.Tactic.SplitIfs

/-!
Which generators take over a stored cache. The bytes that are digested into a fingerprint are the
same exactly if the sources of the templates and the settings that decide about the declarations
are (`fingerprintInput_eq_iff`), provided no text holds the character that marks its end. So, where
the digests do not collide, a cache is given up exactly if one of these has changed since it was
made.
-/

namespace HeaderReflect

/-! ## Texts and their bytes -/

namespace Text

theorem utf8_eq_flatMap (s : String) : utf8 s = s.toList.flatMap String.utf8EncodeChar := by
  rw [utf8, ← String.utf8Encode_toList, List.utf8Encode, List.data_toByteArray]

/-- Of all characters only NUL has a zero byte: any longer form has its high bits set. -/
theorem zero_mem_utf8EncodeChar_iff {c : Char} : 0 ∈ String.utf8EncodeChar c ↔ c = '\x00' := by
  constructor
  · intro h
    have hvalue : c.val.toNat = 0 := by
      simp only [String.utf8EncodeChar] at h
      split_ifs at h <;> simp only [List.mem_cons, List.not_mem_nil, or_false, ← UInt8.toNat_inj,
        UInt8.toNat_ofNat', UInt8.toNat_zero] at h <;> omega
    exact Char.ext (UInt32.toNat_inj.mp hvalue)
  · rintro rfl
    decide

theorem plain_iff {s : String} : Plain s ↔ '\x00' ∉ s.toList := by
  have hmem : 0 ∈ utf8 s ↔ '\x00' ∈ s.toList := by
    rw [utf8_eq_flatMap, List.mem_flatMap]
    simp only [zero_mem_utf8EncodeChar_iff, exists_eq_right]
  exact not_congr hmem

theorem hexDigit_injective {m n : Nat} (hm : m < 16) (hn : n < 16)
    (h : hexDigit m = hexDigit n) : m = n := by
  have hall : ∀ i < 16, ∀ j < 16, hexDigit i = hexDigit j → i = j := by decide
  exact hall m hm n hn h

/-- Bytes can be read off their digits. -/
theorem hex_injective {a b : Bytes} (h : hex a = hex b) : a = b := by
  have hchars := String.ofList_injective h
  clear h
  induction a generalizing b with
  | nil =>
    cases b with
    | nil => rfl
    | cons y b => simp at hchars
  | cons x a ih =>
    cases b with
    | nil => simp at hchars
    | cons y b =>
      simp only [List.flatMap_cons, List.cons_append, List.nil_append, List.cons.injEq] at hchars
      obtain ⟨hhigh, hlow, hrest⟩ := hchars
      have hx := x.toNat_lt
      have hy := y.toNat_lt
      have hhigh := hexDigit_injective (by omega) (by omega) hhigh
      have hlow := hexDigit_injective (by omega) (by omega) hlow
      have hxy : x = y := UInt8.toNat_inj.mp (by omega)
      rw [hxy, ih hrest]

end Text

/-! ## Templates -/

namespace TemplateSet

/-- The source of a template. -/
def source? (set : TemplateSet) (name : TemplateName) : Option String :=
  (set.find? name).map (·.source)

theorem source?_cons (t : CompiledTemplate) (set : TemplateSet) (name : TemplateName) :
    source? (t :: set) name = if t.name = name then some t.source else source? set name := by
  by_cases h : t.name = name
  · simp [source?, find?, h]
  · simp [source?, find?, h]

theorem source?_of_not_mem {set : TemplateSet} {name : TemplateName}
    (h : name ∉ set.map (·.name)) : set.source? name = none := by
  induction set with
  | nil => rfl
  | cons t set ih =>
    rw [List.map_cons, List.mem_cons, not_or] at h
    rw [source?_cons, if_neg (Ne.symm h.1), ih h.2]

theorem length_imprint (set : TemplateSet) : set.renderer.imprint.length = 2 * set.length := by
  simp [renderer, Nat.mul_comm]

section

variable {a b : TemplateSet} (hnames : a.map (·.name) = b.map (·.name))

include hnames

/-- Under the same names the imprint tells the sources in order. -/
theorem imprint_eq_iff :
    a.renderer.imprint = b.renderer.imprint ↔ a.map (·.source) = b.map (·.source) := by
  simp only [renderer]
  induction a generalizing b with
  | nil =>
    obtain rfl := List.map_eq_nil_iff.mp hnames.symm
    rfl
  | cons t a ih =>
    obtain ⟨u, b, rfl, hname, hrest⟩ := List.map_eq_cons_iff.mp hnames.symm
    simp [← hname, ih hrest.symm]

/-- Under the same names, each of them once, the templates have equal sources one by one exactly if
they have them in order. -/
theorem source?_eq_iff (hnodup : (a.map (·.name)).Nodup) :
    (∀ name, a.source? name = b.source? name) ↔ a.map (·.source) = b.map (·.source) := by
  induction a generalizing b with
  | nil =>
    obtain rfl := List.map_eq_nil_iff.mp hnames.symm
    simp
  | cons t a ih =>
    obtain ⟨u, b, rfl, hname, hrest⟩ := List.map_eq_cons_iff.mp hnames.symm
    obtain ⟨hnot, hnodup⟩ := List.nodup_cons.mp hnodup
    rw [List.map_cons, List.map_cons, List.cons.injEq, ← ih hrest.symm hnodup]
    simp only [source?_cons, hname]
    constructor
    · intro h
      refine ⟨by simpa using h t.name, fun name => ?_⟩
      by_cases hhere : t.name = name
      · -- The name stands in front, so it is not among the others.
        subst hhere
        rw [source?_of_not_mem hnot, source?_of_not_mem (hrest ▸ hnot)]
      · simpa [hhere] using h name
    · rintro ⟨hsource, h⟩ name
      rw [hsource, h name]

end

end TemplateSet

/-! ## Settings -/

/-- No text that goes into the fingerprint holds the character NUL. -/
structure FreeOfNul (set : TemplateSet) (c : Config) : Prop where
  sources : ∀ t ∈ set, '\x00' ∉ t.source.toList
  marker : '\x00' ∉ c.marker.toList
  memberPrefix : '\x00' ∉ c.memberPrefix.toList
  clangArgs : ∀ arg ∈ c.clangArgs, '\x00' ∉ arg.toList
  includeDir : '\x00' ∉ c.includeDir.toList

/-- The templates have the same sources, and the settings that decide about declarations agree. -/
structure SameSettings (a b : TemplateSet) (c d : Config) : Prop where
  sources : ∀ name, a.source? name = b.source? name
  marker : c.marker = d.marker
  memberPrefix : c.memberPrefix = d.memberPrefix
  clangArgs : c.clangArgs = d.clangArgs
  includeDir : c.includeDir = d.includeDir

section

variable {r s : Renderer} {a b : TemplateSet} {c d : Config}
  (hr : r.imprint = a.renderer.imprint) (hs : s.imprint = b.renderer.imprint)

include hr in
theorem FreeOfNul.plain (h : FreeOfNul a c) : ∀ part ∈ fingerprintParts r c, Text.Plain part := by
  have hlabel (name : TemplateName) : '\x00' ∉ name.label.toList := by cases name <;> decide
  intro part hpart
  rw [Text.plain_iff]
  simp only [fingerprintParts, hr, Config.parserArgs, TemplateSet.renderer, List.mem_append,
    List.mem_cons, List.not_mem_nil, or_false, List.mem_flatMap] at hpart
  rcases hpart with ((rfl | ⟨t, ht, rfl | rfl⟩) | rfl | rfl) | hpart | rfl
  · decide
  · exact hlabel t.name
  · exact h.sources t ht
  · exact h.marker
  · exact h.memberPrefix
  · exact h.clangArgs part hpart
  · rw [String.toList_append, List.mem_append, not_or]
    exact ⟨by decide, h.includeDir⟩

include hr hs

/-- The digested bytes tell exactly the sources of the templates and the settings. -/
theorem fingerprintInput_eq_iff (ha : a.map (·.name) = TemplateName.all)
    (hb : b.map (·.name) = TemplateName.all) (hc : FreeOfNul a c) (hd : FreeOfNul b d) :
    fingerprintInput r c = fingerprintInput s d ↔ SameSettings a b c d := by
  have hnames := ha.trans hb.symm
  have hsources : (∀ name, a.source? name = b.source? name) ↔ r.imprint = s.imprint := by
    rw [hr, hs, TemplateSet.imprint_eq_iff hnames]
    exact TemplateSet.source?_eq_iff hnames (ha ▸ by decide)
  constructor
  · intro h
    have hlength : r.imprint.length = s.imprint.length := by
      have hcount : a.length = b.length := by simpa using congrArg List.length hnames
      rw [hr, hs, TemplateSet.length_imprint, TemplateSet.length_imprint, hcount]
    have hparts := fingerprintParts_eq_of_input_eq (hc.plain hr) (hd.plain hs) h
    obtain ⟨himprint, hmarker, hmember, hargs, hinclude⟩ := settings_eq_of_parts_eq hlength hparts
    exact ⟨hsources.mpr himprint, hmarker, hmember, hargs, hinclude⟩
  · intro h
    simp only [fingerprintInput, fingerprintParts, Config.parserArgs, hsources.mp h.sources,
      h.marker, h.memberPrefix, h.clangArgs, h.includeDir]

end

namespace Generator

theorem startCache_of_stored {g : Generator} {w : World} {stored : Cache} (hforce : g.force = false)
    (hstored : Cache.ofLoaded (g.cachePlace.load cacheKey w).1 = .ok (some stored)) :
    (g.startCache w).1 = .ok (stored.adopt g.fingerprint, []) := by
  rw [startCache, hforce, if_neg Bool.false_ne_true]
  simp only [Cache.startFrom, hstored]

/-- **When a stored cache is given up.** The digested bytes of two generators that fill templates,
with any sources and whatever they make of them, are equal exactly if their ten template sources,
markers, member prefixes, parser arguments and include directories are. So unless the two digests
collide, the one starts from what the other has stored exactly if none of these differs, and from
nothing otherwise. -/
theorem cache_given_up_iff_changed {g h : Generator} {a b : TemplateSet}
    (ha : a.map (·.name) = TemplateName.all) (hb : b.map (·.name) = TemplateName.all)
    (hg : g.renderer.imprint = a.renderer.imprint) (hh : h.renderer.imprint = b.renderer.imprint)
    (hfree : FreeOfNul a g.config) (hfree' : FreeOfNul b h.config) :
    (fingerprintInput g.renderer g.config = fingerprintInput h.renderer h.config ↔
      SameSettings a b g.config h.config) ∧
    ((digest (fingerprintInput g.renderer g.config) =
          digest (fingerprintInput h.renderer h.config) →
        fingerprintInput g.renderer g.config = fingerprintInput h.renderer h.config) →
      ∀ (w : World) (stored : Cache), h.force = false →
        Cache.ofLoaded (h.cachePlace.load cacheKey w).1 = .ok (some stored) →
        stored.fingerprint = g.fingerprint →
          (SameSettings a b g.config h.config → (h.startCache w).1 = .ok (stored, [])) ∧
          (¬ SameSettings a b g.config h.config →
            (h.startCache w).1 = .ok (Cache.empty h.fingerprint, []))) := by
  have hinput : fingerprintInput g.renderer g.config = fingerprintInput h.renderer h.config ↔
      SameSettings a b g.config h.config :=
    fingerprintInput_eq_iff hg hh ha hb hfree hfree'
  refine ⟨hinput, fun hdigest w stored hforce hstored hfp => ?_⟩
  rw [startCache_of_stored hforce hstored, Cache.adopt, hfp]
  constructor
  · intro hsame
    have hfps : g.fingerprint = h.fingerprint := by
      rw [fingerprint, HeaderReflect.fingerprint, hinput.mpr hsame]
      rfl
    rw [if_pos hfps]
  · intro hchanged
    have hfps : g.fingerprint ≠ h.fingerprint := fun heq =>
      hchanged (hinput.mp (hdigest (Text.hex_injective heq)))
    rw [if_neg hfps]

end Generator

namespace Sample

/-- Templates that write nothing. One of them sets a variable. -/
def blankTemplates : TemplateSet :=
  TemplateName.all.map fun name =>
    { name, source := if name = .enumRefl then "\x7b% set x = 1 %\x7d" else "", body := [] }

/-- A generator that fills these templates. -/
def templated (memberPrefix reflOutputDir : String) : Generator where
  config := { (default : Config) with
    memberPrefix, reflOutputDir, marker := "REFL", clangArgs := ["-std=c++20"],
    includeDir := "engine" }
  renderer := blankTemplates.renderer
  cursors := fun path => .error path
  cachePlace := .inMemory

/-- What a run of such a generator over one header stores. -/
def oneEntry : Cache where
  fingerprint := (templated "m_" "refl").fingerprint
  entries := [("engine/a.hpp", ⟨⟨1, 0⟩, .emptyRoot⟩)]

def storing : World where
  files := default
  memory := { blobs := [(cacheKey, Blob.ofCache oneEntry)] }

theorem names_blankTemplates : blankTemplates.map (·.name) = TemplateName.all := rfl

theorem freeOfNul_templated (memberPrefix reflOutputDir : String)
    (h : '\x00' ∉ memberPrefix.toList) :
    FreeOfNul blankTemplates (templated memberPrefix reflOutputDir).config where
  sources := by decide
  marker := (by decide : '\x00' ∉ "REFL".toList)
  memberPrefix := h
  clangArgs := (by decide : ∀ arg ∈ ["-std=c++20"], '\x00' ∉ arg.toList)
  includeDir := (by decide : '\x00' ∉ "engine".toList)

theorem ofLoaded_storing :
    Cache.ofLoaded (CachePlace.inMemory.load cacheKey storing).1 = .ok (some oneEntry) := by
  have hsorted : oneEntry.entries.Sorted := List.pairwise_singleton ..
  have hshort : (Blob.ofCache oneEntry).length < UInt64.size := by decide +kernel
  have hnesting : oneEntry.nesting ≤ Blob.nestingLimit := by decide +kernel
  have hdecode := Blob.decode_ofCache_append hsorted hshort []
  rw [List.append_nil, if_pos hnesting] at hdecode
  have hload : (CachePlace.inMemory.load cacheKey storing).1 = .ok (Blob.ofCache oneEntry) := rfl
  rw [hload, Cache.ofLoaded_of_ne_nil oneEntry.ofCache_ne_nil, hdecode]
  rfl

end Sample

open Sample in
/-- A cache made with one member prefix is given up under another one, and kept where only the
output goes elsewhere. -/
theorem Generator.cache_given_up_iff_changed_member :
    ((templated "_" "refl").startCache storing).1 =
        .ok (Cache.empty (templated "_" "refl").fingerprint, []) ∧
      ((templated "m_" "refl2").startCache storing).1 = .ok (oneEntry, []) := by
  have hfree := freeOfNul_templated "m_" "refl" (by decide)
  constructor
  · have hdigest :
        digest (fingerprintInput (templated "m_" "refl").renderer
            (templated "m_" "refl").config) ≠
          digest (fingerprintInput (templated "_" "refl").renderer
            (templated "_" "refl").config) := by
      decide +kernel
    obtain ⟨-, hstart⟩ := cache_given_up_iff_changed names_blankTemplates names_blankTemplates
      (g := templated "m_" "refl") (h := templated "_" "refl") rfl rfl hfree
      (freeOfNul_templated _ _ (by decide))
    refine (hstart (fun h => absurd h hdigest) storing oneEntry rfl ofLoaded_storing rfl).2 ?_
    exact fun hsame => absurd hsame.memberPrefix (by decide)
  · obtain ⟨-, hstart⟩ := cache_given_up_iff_changed names_blankTemplates names_blankTemplates
      (g := templated "m_" "refl") (h := templated "m_" "refl2") rfl rfl hfree
      (freeOfNul_templated _ _ (by decide))
    refine (hstart (fun _ => rfl) storing oneEntry rfl ofLoaded_storing rfl).1 ?_
    exact ⟨fun _ => rfl, rfl, rfl, rfl, rfl⟩

end HeaderReflect
