import HeaderReflect.Proofs.Text
import HeaderReflect.Proofs.Visit.Documents

/-!
Which texts are annotations, and what they state. An annotation is `nickel(`, tags with commas
between them, and `)`, with blanks wherever they do no harm; it states what its set of tags does
(`parse_grammar`), and no other text states anything.
-/

namespace HeaderReflect.Attributes

open Text (Blank trimBlanks trimBlanks_padded)

/-- The wishes that tags state: each of the four by the tag of its name. -/
def ofTags (tags : List (List Char)) : Attributes where
  wantsReflection := decide ("refl".toList ∈ tags)
  forceNoReflection := decide ("norefl".toList ∈ tags)
  wantsScript := decide ("script".toList ∈ tags)
  forceNoScript := decide ("noscript".toList ∈ tags)

/-- The tags that mean something. -/
def knownTags : List (List Char) :=
  ["refl".toList, "norefl".toList, "script".toList, "noscript".toList]

theorem ofTags_congr {tags others : List (List Char)}
    (h : ∀ tag ∈ knownTags, tag ∈ tags ↔ tag ∈ others) : ofTags tags = ofTags others := by
  simp only [knownTags, List.forall_mem_cons] at h
  simp only [ofTags, h]

/-- Taking in tag after tag sets the flags of the tags that were met. -/
theorem foldl_addTag_eq_ofTags (tags : List (List Char)) :
    tags.foldl addTag none = ofTags tags := by
  obtain ⟨hrefl, hnorefl⟩ := foldl_addTag_flags tags none .reflection
  obtain ⟨hscript, hnoscript⟩ := foldl_addTag_flags tags none .script
  simp only [wants, vetoes, none, Stream.need, Stream.veto, Bool.false_or,
    List.contains_eq_mem] at hrefl hnorefl hscript hnoscript
  rw [ofTags, ← hrefl, ← hnorefl, ← hscript, ← hnoscript]
  rfl

/-! ## The body of an annotation -/

theorem body?_eq_some_iff {text body : List Char} :
    body? text = some body ↔ trimBlanks text = opening ++ body ++ [')'] := by
  rw [body?, Option.bind_eq_some_iff]
  constructor
  · rintro ⟨rest, hrest, hbody⟩
    rw [Text.after?_eq_some_iff] at hrest
    rw [Text.beforeLast?_eq_some_iff] at hbody
    rw [hrest, hbody, List.append_assoc]
  · intro h
    refine ⟨body ++ [')'], ?_, Text.beforeLast?_eq_some_iff.mpr rfl⟩
    rw [Text.after?_eq_some_iff, h, List.append_assoc]

theorem parse_of_body {text : String} {body : List Char}
    (h : trimBlanks text.toList = opening ++ body ++ [')']) : parse text = ofTags (tags body) := by
  rw [parse, body?_eq_some_iff.mpr h]
  exact foldl_addTag_eq_ofTags (tags body)

theorem parse_of_no_body {text : String}
    (h : ∀ body, trimBlanks text.toList ≠ opening ++ body ++ [')']) : parse text = none := by
  have hnone : body? text.toList = .none := by
    rw [Option.eq_none_iff_forall_ne_some]
    intro body hbody
    exact h body (body?_eq_some_iff.mp hbody)
  rw [parse, hnone]

/-! ## Annotations as they are written -/

abbrev Blanks := { cs : List Char // Blank cs }

/-- A tag with blanks around it. -/
structure PaddedTag where
  before : Blanks
  tag : List Char
  behind : Blanks
  noComma : ',' ∉ tag

namespace PaddedTag

def written (t : PaddedTag) : List Char := t.before.val ++ t.tag ++ t.behind.val

/-- The tag without blanks around it. -/
def trimmed (t : PaddedTag) : List Char := trimBlanks t.tag

theorem trimBlanks_written (t : PaddedTag) : trimBlanks t.written = t.trimmed :=
  trimBlanks_padded t.before.property t.behind.property t.tag

theorem noComma_written (t : PaddedTag) : ',' ∉ t.written := by
  have hblank (pad : Blanks) : ',' ∉ pad.val := by
    intro hmem
    exact absurd (pad.property ',' hmem) (by decide)
  simp only [written, List.mem_append, not_or]
  exact ⟨⟨hblank t.before, t.noComma⟩, hblank t.behind⟩

end PaddedTag

/-- The body of an annotation with the given tags. -/
def bodyOf (ts : List PaddedTag) : List Char :=
  List.intercalate [','] (ts.map (·.written))

/-- An annotation with the given tags, with blanks around it. -/
def annotationText (before : Blanks) (ts : List PaddedTag) (behind : Blanks) : String :=
  String.ofList (before.val ++ (opening ++ bodyOf ts ++ [')']) ++ behind.val)

theorem trimBlanks_annotationText (before : Blanks) (ts : List PaddedTag) (behind : Blanks) :
    trimBlanks (annotationText before ts behind).toList = opening ++ bodyOf ts ++ [')'] := by
  rw [annotationText, String.toList_ofList, trimBlanks_padded before.property behind.property]
  exact Text.trimBlanks_of_ends (by decide) (by decide)

/-- Where there are tags, those that are read are those that were written. -/
theorem tags_bodyOf {ts : List PaddedTag} (h : ts ≠ []) :
    tags (bodyOf ts) = ts.map (·.trimmed) := by
  have hnoComma : ∀ piece ∈ ts.map (·.written), ',' ∉ piece :=
    List.forall_mem_map.mpr fun t _ => t.noComma_written
  have hsplit : (bodyOf ts).splitOnP (· == ',') = ts.map (·.written) :=
    List.splitOn_intercalate ',' hnoComma (by simpa using h)
  rw [tags, hsplit, List.map_map]
  exact List.map_congr_left fun t _ => t.trimBlanks_written

theorem parse_annotationText (before : Blanks) (ts : List PaddedTag) (behind : Blanks) :
    parse (annotationText before ts behind) = ofTags (ts.map (·.trimmed)) := by
  rw [parse_of_body (trimBlanks_annotationText before ts behind)]
  by_cases h : ts = []
  · -- An empty body is read as one empty tag.
    subst h
    decide
  · rw [tags_bodyOf h]

/-- **Annotations and what they state.** A text that is `nickel(`, a body and `)` once it is trimmed
states what the trimmed pieces between the commas of its body do; every other text states nothing.
So what is stated by tags with blanks around each of them and around the whole is decided by which
of the known tags are there. -/
theorem parse_grammar :
    (∀ (text : String) (body : List Char), trimBlanks text.toList = opening ++ body ++ [')'] →
      parse text = ofTags ((body.splitOnP (· == ',')).map trimBlanks)) ∧
    (∀ text : String, (∀ body, trimBlanks text.toList ≠ opening ++ body ++ [')']) →
      parse text = none) ∧
    (∀ (before behind : Blanks) (ts : List PaddedTag),
      parse (annotationText before ts behind) = ofTags (ts.map (·.trimmed))) ∧
    ∀ (before behind before' behind' : Blanks) (ts us : List PaddedTag),
      (∀ tag ∈ knownTags, tag ∈ ts.map (·.trimmed) ↔ tag ∈ us.map (·.trimmed)) →
        parse (annotationText before ts behind) = parse (annotationText before' us behind') := by
  refine ⟨fun text body h => parse_of_body h, fun text h => parse_of_no_body h, ?_, ?_⟩
  · exact fun before behind ts => parse_annotationText before ts behind
  · intro before behind before' behind' ts us h
    rw [parse_annotationText, parse_annotationText, ofTags_congr h]

/-- A tag without blanks around it. -/
def Sample.bare (tag : String) (h : ',' ∉ tag.toList) : PaddedTag :=
  ⟨⟨[], by decide⟩, tag.toList, ⟨[], by decide⟩, h⟩

/-- A tag between a no-break and an ideographic space. -/
def Sample.spaced (tag : String) (h : ',' ∉ tag.toList) : PaddedTag :=
  ⟨⟨['\u00a0'], by decide⟩, tag.toList, ⟨['\u3000'], by decide⟩, h⟩

/-- Parentheses, empty pieces and foreign blanks in a body, a text without its last parenthesis, and
the same tags in another order, repeated and among unknown ones. -/
theorem parse_grammar_padded :
    parse "\u2003nickel( refl\u3000,x)y,,(norefl)\n,script)\t" =
        { wantsReflection := true, wantsScript := true } ∧
      parse " nickel(refl,script " = none ∧
      parse (annotationText ⟨[], by decide⟩
          [Sample.bare "refl" (by decide), Sample.bare "script" (by decide)] ⟨[], by decide⟩) =
        parse (annotationText ⟨[' ', '\n'], by decide⟩
          [Sample.spaced "script" (by decide), Sample.spaced "a)" (by decide),
            Sample.bare "refl" (by decide), Sample.spaced "script" (by decide)]
          ⟨['\t'], by decide⟩) := by
  obtain ⟨hbody, hother, -, hset⟩ := parse_grammar
  refine ⟨?_, ?_, hset _ _ _ _ _ _ (by decide)⟩
  · exact (hbody _ " refl\u3000,x)y,,(norefl)\n,script".toList (by decide)).trans (by decide)
  · apply hother
    intro body h
    have hlast := congrArg List.getLast? h
    rw [List.getLast?_concat] at hlast
    exact absurd hlast (by decide)

end HeaderReflect.Attributes
