import HeaderReflect.Proofs.Discovery.Pattern
import Mathlib.Data.String.Basic

/-!
The headers that are discovered. They are listed in strictly increasing order (`pairwise_inOrder`),
and they are exactly the files at any depth below the root with one of the endings
(`discoverHeaders_below`). Only a root that is written with a separator too many behind the dots in
front of it is not searched at all (`separator_behind_dot_hides_headers`).
-/

namespace HeaderReflect

/-! ## The order of paths -/

namespace Path

theorem Component.before_irrefl (a : Component) : a.before a = false := by
  cases a <;> simp [Component.before]

/-- What comes first is of a lower kind, or a name among names. -/
theorem Component.before_iff {a b : Component} :
    a.before b = true ↔ a.rank < b.rank ∨ ∃ s t, a = .name s ∧ b = .name t ∧ s < t := by
  cases a <;> cases b <;> simp [Component.before, Component.rank]

theorem Component.before_trans {a b c : Component} (hab : a.before b = true)
    (hbc : b.before c = true) : a.before c = true := by
  rw [before_iff] at hab hbc ⊢
  rcases hab with hab | ⟨s, t, rfl, rfl, hst⟩
  · rcases hbc with hbc | ⟨t, u, rfl, rfl, -⟩
    · exact .inl (hab.trans hbc)
    · exact .inl hab
  · rcases hbc with hbc | ⟨t', u, heq, rfl, htu⟩
    · exact .inl hbc
    · cases heq
      exact .inr ⟨s, u, rfl, rfl, hst.trans htu⟩

/-- Of two components one comes first, unless they are the same. -/
theorem Component.before_or_eq (a b : Component) :
    a.before b = true ∨ a = b ∨ b.before a = true := by
  cases a <;> cases b
  case name.name s t =>
    rcases lt_trichotomy s t with h | rfl | h
    · exact .inl (decide_eq_true h)
    · exact .inr (.inl rfl)
    · exact .inr (.inr (decide_eq_true h))
  all_goals simp [Component.before, Component.rank]

theorem componentsLe_cons {a b : Component} {as bs : List Component} :
    componentsLe (a :: as) (b :: bs) = true ↔
      a.before b = true ∨ a = b ∧ componentsLe as bs = true := by
  rw [componentsLe, Bool.or_eq_true, Bool.and_eq_true, beq_iff_eq]

theorem componentsLe_trans {as bs cs : List Component} (hab : componentsLe as bs = true)
    (hbc : componentsLe bs cs = true) : componentsLe as cs = true := by
  induction as generalizing bs cs with
  | nil => rfl
  | cons a as ih =>
    cases bs with
    | nil => cases hab
    | cons b bs =>
      cases cs with
      | nil => cases hbc
      | cons c cs =>
        rw [componentsLe_cons] at hab hbc ⊢
        rcases hab with hab | ⟨rfl, hab⟩
        · rcases hbc with hbc | ⟨rfl, -⟩
          · exact .inl (Component.before_trans hab hbc)
          · exact .inl hab
        · exact hbc.imp_right fun ⟨heq, hbc⟩ => ⟨heq, ih hab hbc⟩

theorem componentsLe_total (as bs : List Component) :
    (componentsLe as bs || componentsLe bs as) = true := by
  rw [Bool.or_eq_true]
  induction as generalizing bs with
  | nil => exact .inl rfl
  | cons a as ih =>
    cases bs with
    | nil => exact .inr rfl
    | cons b bs =>
      rw [componentsLe_cons, componentsLe_cons]
      rcases Component.before_or_eq a b with h | rfl | h
      · exact .inl (.inl h)
      · exact (ih bs).imp (fun h => .inr ⟨rfl, h⟩) fun h => .inr ⟨rfl, h⟩
      · exact .inr (.inl h)

theorem componentsLe_antisymm {as bs : List Component} (hab : componentsLe as bs = true)
    (hba : componentsLe bs as = true) : as = bs := by
  induction as generalizing bs with
  | nil =>
    cases bs with
    | nil => rfl
    | cons b bs => cases hba
  | cons a as ih =>
    cases bs with
    | nil => cases hab
    | cons b bs =>
      rw [componentsLe_cons] at hab hba
      have hirrefl := Component.before_irrefl a
      rcases hab with hab | ⟨rfl, hab⟩
      · rcases hba with hba | ⟨rfl, -⟩
        · rw [Component.before_trans hab hba] at hirrefl
          cases hirrefl
        · rw [hab] at hirrefl
          cases hirrefl
      · rcases hba with hba | ⟨-, hba⟩
        · rw [hba] at hirrefl
          cases hirrefl
        · rw [ih hab hba]

/-- The one path is the same place as the other one or comes before it. -/
abbrev Le (a b : String) : Prop := componentsLe (components a) (components b) = true

/-- The one path comes before the other one, which is another place. -/
def Precedes (a b : String) : Prop := Le a b ∧ components a ≠ components b

theorem Precedes.trans {a b c : String} (hab : Precedes a b) (hbc : Precedes b c) :
    Precedes a c := by
  refine ⟨componentsLe_trans hab.1 hbc.1, fun heq => ?_⟩
  have hba : componentsLe (components b) (components a) = true := heq ▸ hbc.1
  exact hab.2 (componentsLe_antisymm hab.1 hba)

theorem Precedes.asymm {a b : String} (hab : Precedes a b) : ¬ Precedes b a :=
  fun hba => hab.2 (componentsLe_antisymm hab.1 hba.1)

end Path

namespace Discovery

/-- In a list in order each place comes before the next one once repetitions are dropped. -/
theorem pairwise_go {last : String} {paths : List String}
    (h : (last :: paths).Pairwise Path.Le) :
    (last :: dropRepeated.go last paths).Pairwise Path.Precedes := by
  induction paths generalizing last with
  | nil => exact List.pairwise_singleton ..
  | cons path rest ih =>
    obtain ⟨hlast, hrest⟩ := List.pairwise_cons.mp h
    rw [dropRepeated.go]
    split
    · refine ih (List.pairwise_cons.mpr ⟨fun b hb => hlast b (List.mem_cons_of_mem _ hb), ?_⟩)
      exact (List.pairwise_cons.mp hrest).2
    · rename_i hne
      have hfirst : Path.Precedes last path :=
        ⟨hlast path (List.mem_cons_self ..), by simpa [Path.samePlace] using hne⟩
      have hmore := ih hrest
      refine List.pairwise_cons.mpr ⟨fun b hb => ?_, hmore⟩
      rcases List.mem_cons.mp hb with rfl | hb
      · exact hfirst
      · exact hfirst.trans ((List.pairwise_cons.mp hmore).1 b hb)

/-- **Paths in order go up strictly**, so that none is listed twice. -/
theorem pairwise_inOrder (paths : List String) : (inOrder paths).Pairwise Path.Precedes := by
  unfold inOrder
  have hsorted : (paths.mergeSort fun a b =>
      Path.componentsLe (Path.components a) (Path.components b)).Pairwise Path.Le := by
    apply List.pairwise_mergeSort
    · exact fun _ _ _ => Path.componentsLe_trans
    · exact fun _ _ => Path.componentsLe_total _ _
  revert hsorted
  cases paths.mergeSort fun a b => Path.componentsLe (Path.components a) (Path.components b) with
  | nil => exact fun _ => List.Pairwise.nil
  | cons path rest => exact pairwise_go

/-- What is in order already is not moved. -/
theorem inOrder_of_pairwise {paths : List String} (h : paths.Pairwise Path.Le) :
    inOrder paths = dropRepeated paths := by
  rw [inOrder, List.mergeSort_of_pairwise h]

/-- No place is written in two ways. -/
def SpelledOnce (paths : List String) : Prop :=
  ∀ a ∈ paths, ∀ b ∈ paths, Path.samePlace a b = true → a = b

theorem SpelledOnce.subset {paths fewer : List String} (h : SpelledOnce paths)
    (hfewer : fewer ⊆ paths) : SpelledOnce fewer :=
  fun a ha b hb => h a (hfewer ha) b (hfewer hb)

theorem mem_go {last : String} {paths : List String} (h : SpelledOnce (last :: paths))
    {path : String} : path ∈ last :: dropRepeated.go last paths ↔ path ∈ last :: paths := by
  induction paths generalizing last with
  | nil => rfl
  | cons next rest ih =>
    rw [dropRepeated.go]
    split
    · rename_i hsame
      obtain rfl := h last (by simp) next (by simp) hsame
      rw [ih (h.subset (List.subset_cons_self ..))]
      simp
    · rw [List.mem_cons, ih (h.subset (List.subset_cons_self ..)), ← List.mem_cons]

/-- Where places are written in one way only, every path is listed. -/
theorem mem_inOrder {paths : List String} (h : SpelledOnce paths) {path : String} :
    path ∈ inOrder paths ↔ path ∈ paths := by
  have hsame {other : String} : other ∈ paths.mergeSort (fun a b =>
      Path.componentsLe (Path.components a) (Path.components b)) ↔ other ∈ paths :=
    List.mem_mergeSort
  unfold inOrder
  revert hsame
  cases paths.mergeSort fun a b => Path.componentsLe (Path.components a) (Path.components b) with
  | nil => exact fun hsame => hsame
  | cons first rest =>
    intro hsame
    exact (mem_go (h.subset fun a ha => hsame.mp ha)).trans hsame

/-- Lists in order are fixed by what is in them. -/
theorem eq_of_pairwise_precedes {left right : List String} (hl : left.Pairwise Path.Precedes)
    (hr : right.Pairwise Path.Precedes) (h : ∀ path, path ∈ left ↔ path ∈ right) :
    left = right := by
  have hnodup {paths : List String} (hpaths : paths.Pairwise Path.Precedes) : paths.Nodup := by
    refine hpaths.imp fun {a b} hab => ?_
    rintro rfl
    exact hab.2 rfl
  have hperm := (List.perm_ext_iff_of_nodup (hnodup hl) (hnodup hr)).mpr h
  exact hperm.eq_of_pairwise (fun a b _ _ hab hba => absurd hba hab.asymm) hl hr

/-! ## All extensions -/

/-- If every pattern is well formed, the files of all of them are collected. -/
theorem collect_ok {fs : FileSystem} {root : String} {extensions : List String}
    {found : String → List String}
    (h : ∀ e ∈ extensions, Glob.files? fs (pattern root e) = some (found e)) :
    collect fs root extensions = .ok (extensions.flatMap found) := by
  induction extensions with
  | nil => rfl
  | cons e rest ih =>
    rw [List.forall_mem_cons] at h
    rw [collect, h.1, ih h.2]
    rfl

/-- The extensions are plain exactly if their endings are. -/
theorem isPlain_of_ending {e : String}
    (h : ∀ c ∈ ending e, c ∉ Glob.wildcards ∧ c ≠ '/') : IsPlain e := by
  intro c hc
  rw [← List.takeWhile_append_dropWhile (p := (· == '.')) (l := e.toList), List.mem_append] at hc
  rcases hc with hc | hc
  · obtain rfl : c = '.' := by simpa using List.mem_takeWhile_imp hc
    decide
  · exact h c (List.mem_cons_of_mem _ hc)

/-! ## Below a root -/

/-- A file below `d` whose name ends as one of the extensions says. -/
structure IsHeader (fs : FileSystem) (d : Location) (extensions : List String) (way : Location) :
    Prop where
  isFile : (fs.content? (d ++ way)).isSome = true
  hasEnding : ∃ e ∈ extensions, ending e <:+ (way.getLastD "").toList

/-- A relative root with an empty piece right behind the dots in front of it: `./`, `.//a`. -/
def IsLost (root : String) : Prop :=
  Path.isAbsolute root = false ∧ Glob.Strays (Path.pieces root)

instance (root : String) : Decidable (IsLost root) := inferInstanceAs (Decidable (_ ∧ _))

/-- How a search spells its root. -/
def base (root : String) : String := (route root).foldl Glob.extend (scope root)

/-- The path of what lies below a root. -/
def pathBelow (root : String) (way : Location) : String :=
  Glob.extend (base root) (Text.joinWith "/" way)

/-- What a pattern finds below the root. -/
def filesOf (fs : FileSystem) (root extension : String) : List String :=
  (Glob.search fs ((route root).map Glob.exactly ++
    [[.anyPath], Glob.Pattern.ending (ending extension)]) (scope root)).filter fs.isFile

theorem bare_eq (root : String) :
    Path.bare root =
      Path.bare (scope root) ++ (route root).filterMap Path.Component.ofPiece? := by
  unfold scope route
  cases habsolute : Path.isAbsolute root with
  | true =>
    have hslash : Path.bare "/" = [.root] := by decide
    have hlead : Path.lead root = [.root] := if_pos habsolute
    rw [if_pos rfl, if_pos rfl, hslash, Path.bare, Path.components_eq, hlead,
      Path.pieces_of_isAbsolute habsolute, List.filter_append, Path.filter_ofPiece?]
    rfl
  | false =>
    have hdot : Path.bare "." = [] := by decide
    rw [if_neg Bool.false_ne_true, if_neg Bool.false_ne_true, hdot, Path.bare_of_relative habsolute]
    rfl

section Below

variable {fs : FileSystem} {root : String} {d : Location} (hroot : Glob.Leads fs root d)

include hroot

/-- A root leads a search where it leads as a path, unless it is lost. -/
theorem goes_of_leads (hlost : ¬ IsLost root) : Glob.Goes fs (scope root) (route root) d := by
  obtain ⟨t, ht⟩ := hroot.directory
  have hfollow := hroot.locate
  rw [FileSystem.locate_of_ne (FileSystem.ne_empty_of_locate hfollow), Path.startFrom] at hfollow
  unfold scope route
  cases habsolute : Path.isAbsolute root with
  | true =>
    rw [habsolute, if_pos rfl] at hfollow
    obtain ⟨u, hu⟩ := FileSystem.directory_of_follow hfollow ht
    rw [Path.pieces_of_isAbsolute habsolute, ← List.singleton_append,
      FileSystem.follow_append] at hfollow
    have hslash : fs.locate "/" = .ok [] := FileSystem.follow_replicate_of_directory hu 2
    have hempty : fs.follow [] [""] = .ok [] := FileSystem.follow_replicate_of_directory hu 1
    rw [hempty] at hfollow
    rw [if_pos rfl, if_pos rfl, Path.pieces_of_isAbsolute habsolute]
    refine ⟨⟨[], ⟨hslash, u, hu⟩, hfollow⟩, hroot.directory, ?_, ?_⟩
    · exact fun piece hpiece => Path.noSeparator_of_mem_pieces hpiece
    · exact fun hhere => absurd hhere (by decide)
  | false =>
    rw [habsolute, if_neg Bool.false_ne_true] at hfollow
    obtain ⟨u, hu⟩ := FileSystem.directory_of_follow hfollow ht
    have hdot : fs.locate "." = .ok fs.working := by
      have hpieces : fs.locate "." = fs.follow fs.working ["."] := rfl
      rw [hpieces, FileSystem.follow, FileSystem.requireDirectory_eq_ok hu]
      rfl
    rw [if_neg Bool.false_ne_true, if_neg Bool.false_ne_true]
    refine ⟨⟨fs.working, ⟨hdot, u, hu⟩, hfollow⟩, hroot.directory, ?_, ?_⟩
    · exact fun piece hpiece => Path.noSeparator_of_mem_pieces hpiece
    · exact fun _ hstrays => hlost ⟨habsolute, hstrays⟩

theorem bare_base (hlost : ¬ IsLost root) : Path.bare (base root) = Path.bare root := by
  rw [base, (goes_of_leads hroot hlost).bare_foldl, bare_eq root]

variable (htree : fs.IsTree)

include htree

theorem mem_filesOf {e : String} (he : IsPlain e) {path : String} :
    path ∈ filesOf fs root e ↔
      ¬ IsLost root ∧ ∃ way content, fs.content? (d ++ way) = some content ∧
        path = pathBelow root way ∧ ending e <:+ (way.getLastD "").toList := by
  by_cases hlost : IsLost root
  · have hscope : scope root = "." := if_neg (by simp [hlost.1])
    have hroute : route root = Path.pieces root := if_neg (by simp [hlost.1])
    rw [filesOf, hscope, hroute, Glob.search_strays hlost.2]
    simp [hlost]
  · have hgoes := goes_of_leads hroot hlost
    rw [filesOf, List.mem_filter, Glob.mem_search_map_exactly hgoes, ← List.mem_filter,
      Glob.mem_search_ending htree hgoes.foldl fun c hc => (he.ending c hc).1]
    exact (and_iff_right hlost).symm

/-- The path of a header leads to it, and is that of the root with the way down behind it. -/
theorem locate_pathBelow (hlost : ¬ IsLost root) {way : Location} {content : Bytes}
    (hcontent : fs.content? (d ++ way) = some content) :
    fs.locate (pathBelow root way) = .ok (d ++ way) ∧
      Path.bare (pathBelow root way) = Path.bare root ++ way.map .name := by
  have hleads := (goes_of_leads hroot hlost).foldl
  have hway := hleads.ne_nil_of_content hcontent
  obtain ⟨e, he, -⟩ := Option.bind_eq_some_iff.mp hcontent
  refine ⟨Glob.locate_below htree hleads hway he, ?_⟩
  rw [← bare_base hroot hlost]
  exact Glob.bare_below htree hleads hway he

/-- What is found for plain extensions: each place under one path. -/
theorem spelledOnce_filesOf {extensions : List String} (hplain : ∀ e ∈ extensions, IsPlain e) :
    SpelledOnce (extensions.flatMap (filesOf fs root)) := by
  intro a ha b hb hsame
  obtain ⟨e, he, ha⟩ := List.mem_flatMap.mp ha
  obtain ⟨f, hf, hb⟩ := List.mem_flatMap.mp hb
  obtain ⟨hlost, way, content, hway, rfl, -⟩ := (mem_filesOf hroot htree (hplain e he)).mp ha
  obtain ⟨-, other, content', hother, rfl, -⟩ := (mem_filesOf hroot htree (hplain f hf)).mp hb
  have hcomponents : Path.bare (pathBelow root way) = Path.bare (pathBelow root other) := by
    rw [Path.bare, eq_of_beq hsame, Path.bare]
  rw [(locate_pathBelow hroot htree hlost hway).2, (locate_pathBelow hroot htree hlost hother).2,
    List.append_cancel_left_eq] at hcomponents
  have hnames : way = other :=
    List.map_injective_iff.mpr (fun _ _ h => Path.Component.name.inj h) hcomponents
  rw [hnames]

/-- What is found for all extensions together. -/
theorem mem_inOrder_filesOf {extensions : List String} (hplain : ∀ e ∈ extensions, IsPlain e)
    (path : String) :
    path ∈ inOrder (extensions.flatMap (filesOf fs root)) ↔
      ¬ IsLost root ∧ ∃ way, IsHeader fs d extensions way ∧ path = pathBelow root way := by
  rw [mem_inOrder (spelledOnce_filesOf hroot htree hplain), List.mem_flatMap]
  constructor
  · rintro ⟨e, he, hpath⟩
    obtain ⟨hlost, way, content, hway, rfl, hend⟩ :=
      (mem_filesOf hroot htree (hplain e he)).mp hpath
    exact ⟨hlost, way, ⟨by rw [hway]; rfl, e, he, hend⟩, rfl⟩
  · rintro ⟨hlost, way, ⟨hfile, e, he, hend⟩, rfl⟩
    obtain ⟨content, hway⟩ := Option.isSome_iff_exists.mp hfile
    exact ⟨e, he,
      (mem_filesOf hroot htree (hplain e he)).mpr ⟨hlost, way, content, hway, rfl, hend⟩⟩

end Below

/-- In a directory the headers are what was collected, in order. -/
theorem discoverHeaders_of_collect {fs : FileSystem} {root : String}
    (hroot : fs.isDirectory root = true) {extensions found : List String}
    (h : collect fs root extensions = .ok found) :
    discoverHeaders fs root extensions = .ok (inOrder found) := by
  rw [discoverHeaders, if_pos hroot, h]
  rfl

theorem discoverHeaders_eq {fs : FileSystem} {root : String} {d : Location}
    (hroot : Glob.Leads fs root d) {extensions : List String}
    (hplain : ∀ e ∈ extensions, IsPlain e) :
    discoverHeaders fs root extensions =
      .ok (inOrder (extensions.flatMap (filesOf fs root))) := by
  have hne := FileSystem.ne_empty_of_locate hroot.locate
  exact discoverHeaders_of_collect hroot.isDirectory
    (collect_ok fun e he => files?_pattern fs hne (hplain e he))

/-- Headers are told by the endings alone. -/
theorem isHeader_iff {fs : FileSystem} {d way : Location} {extensions : List String} :
    IsHeader fs d extensions way ↔ (fs.content? (d ++ way)).isSome = true ∧
      ∃ text ∈ extensions.map ending, text <:+ (way.getLastD "").toList := by
  have hends : (∃ text ∈ extensions.map ending, text <:+ (way.getLastD "").toList) ↔
      ∃ e ∈ extensions, ending e <:+ (way.getLastD "").toList := by
    simp
  rw [hends]
  exact ⟨fun h => ⟨h.isFile, h.hasEnding⟩, fun h => ⟨h.1, h.2⟩⟩

theorem isPlain_of_endings {extensions others : List String} (hplain : ∀ e ∈ extensions, IsPlain e)
    (h : ∀ text, text ∈ others.map ending ↔ text ∈ extensions.map ending) :
    ∀ e ∈ others, IsPlain e := by
  intro e he
  obtain ⟨f, hf, heq⟩ := List.mem_map.mp ((h (ending e)).mp (List.mem_map_of_mem he))
  exact isPlain_of_ending (heq ▸ (hplain f hf).ending)

/-- **Discovery is exact.** For any root, absolute or relative and however it is written, it lists
in strictly increasing order the paths of exactly the files at any depth below it whose names end
with a dot and one of the extensions. Each of these paths leads to its file and consists of the
root's components and the way down. Neither the order of the extensions, nor repetitions, nor dots
in front of them matter, since only the set of endings does. A root that is lost is the exception:
nothing is found below it. -/
theorem discoverHeaders_below {fs : FileSystem} (htree : fs.IsTree) {root : String}
    (hroot : fs.isDirectory root = true) {extensions : List String}
    (hplain : ∀ e ∈ extensions, IsPlain e) :
    ∃ d found, fs.locate root = .ok d ∧ discoverHeaders fs root extensions = .ok found ∧
      found.Pairwise Path.Precedes ∧
      (∀ path, path ∈ found ↔
        ¬ IsLost root ∧ ∃ way, IsHeader fs d extensions way ∧ path = pathBelow root way) ∧
      (¬ IsLost root → ∀ way, IsHeader fs d extensions way →
        fs.locate (pathBelow root way) = .ok (d ++ way) ∧
        Path.bare (pathBelow root way) = Path.bare root ++ way.map .name) ∧
      ∀ others : List String,
        (∀ text, text ∈ others.map ending ↔ text ∈ extensions.map ending) →
          discoverHeaders fs root others = .ok found := by
  obtain ⟨d, t, hd, ht⟩ := FileSystem.isDirectory_iff.mp hroot
  have hleads : Glob.Leads fs root d := ⟨hd, t, ht⟩
  have hfound {es : List String} (hes : ∀ e ∈ es, IsPlain e) (path : String) :=
    mem_inOrder_filesOf hleads htree hes path
  refine ⟨d, _, hd, discoverHeaders_eq hleads hplain, pairwise_inOrder _, hfound hplain,
    fun hlost way hway => ?_, fun others hothers => ?_⟩
  · obtain ⟨content, hcontent⟩ := Option.isSome_iff_exists.mp hway.isFile
    exact locate_pathBelow hleads htree hlost hcontent
  · have hplainOthers := isPlain_of_endings hplain hothers
    rw [discoverHeaders_eq hleads hplainOthers]
    refine congrArg _ ?_
    refine eq_of_pairwise_precedes (pairwise_inOrder _) (pairwise_inOrder _) fun path => ?_
    rw [hfound hplainOthers, hfound hplain]
    simp only [isHeader_iff, hothers]

/-- Two directories whose names differ only in brackets, and below the one with brackets a directory
that is called like a header. The working directory lies beside them. -/
def Sample.bracketed : FileSystem where
  entries :=
    [([], .directory 0), (["work"], .directory 0), (["engine1"], .directory 0),
     (["engine1", "x.hpp"], .file [] 0), (["engine[1]"], .directory 0),
     (["engine[1]", "a.tar.hpp"], .file [] 0), (["engine[1]", "odd.hpp"], .directory 0),
     (["engine[1]", "odd.hpp", "inner.hpp"], .file [] 0), (["engine[1]", "README"], .file [] 0)]
  working := ["work"]
  clock := 1

theorem Sample.isTree_bracketed : Sample.bracketed.IsTree :=
  ⟨by decide, by decide⟩

/-- The brackets in the root stand for themselves, the directory is not listed, and the dots of the
extension make no difference. The same headers are found under the absolute path of the root, also
where it has separators that mean nothing. -/
theorem discoverHeaders_below_bracketed :
    IsPlain "hpp" ∧
      discoverHeaders Sample.bracketed "./../engine[1]" [".hpp", "hpp", "..hpp"] =
        .ok ["../engine[1]/a.tar.hpp", "../engine[1]/odd.hpp/inner.hpp"] ∧
      discoverHeaders Sample.bracketed "/work//../engine[1]/" [".hpp", "hpp", "..hpp"] =
        .ok ["/work/../engine[1]/a.tar.hpp", "/work/../engine[1]/odd.hpp/inner.hpp"] := by
  have hplain : ∀ e ∈ ["hpp"], IsPlain e := by decide
  have hlisted {root : String} {paths : List String}
      (hroot : Sample.bracketed.isDirectory root = true)
      (hcollect : collect Sample.bracketed root ["hpp"] = .ok paths)
      (hsorted : paths.Pairwise Path.Le) (honce : dropRepeated paths = paths) :
      discoverHeaders Sample.bracketed root [".hpp", "hpp", "..hpp"] = .ok paths := by
    obtain ⟨d, found, -, hfound, -, -, -, hothers⟩ :=
      discoverHeaders_below Sample.isTree_bracketed hroot hplain
    rw [discoverHeaders_of_collect hroot hcollect, inOrder_of_pairwise hsorted, honce] at hfound
    exact (hothers [".hpp", "hpp", "..hpp"] (by simp [ending])).trans hfound.symm
  refine ⟨hplain "hpp" (List.mem_cons_self ..), hlisted (by decide) ?_ ?_ ?_,
    hlisted (by decide) ?_ ?_ ?_⟩
  all_goals decide +kernel

/-! ## A root that is lost -/

/-- A header in the working directory. -/
def Sample.engine : FileSystem where
  entries :=
    [([], .directory 0), (["engine"], .directory 0), (["engine", "player.hpp"], .file [] 0)]
  working := ["engine"]
  clock := 1

/-- The directory and its header are there, but nothing is found below the directory, unless the
root is written without the separator. -/
theorem separator_behind_dot_hides_headers :
    Sample.engine.isDirectory "./" = true ∧
      (Sample.engine.content? ["engine", "player.hpp"]).isSome = true ∧
      discoverHeaders Sample.engine "./" ["hpp"] = .ok [] ∧
      discoverHeaders Sample.engine "." ["hpp"] = .ok ["player.hpp"] := by
  have hroot : Sample.engine.isDirectory "./" = true := by decide
  have hnothing : collect Sample.engine "./" ["hpp"] = .ok [] := by decide +kernel
  have hheader : collect Sample.engine "." ["hpp"] = .ok ["player.hpp"] := by decide +kernel
  refine ⟨hroot, by decide, ?_, ?_⟩
  · rw [discoverHeaders_of_collect hroot hnothing, inOrder_of_pairwise .nil]
    rfl
  · rw [discoverHeaders_of_collect (by decide) hheader,
      inOrder_of_pairwise (List.pairwise_singleton ..)]
    rfl

end Discovery

end HeaderReflect
