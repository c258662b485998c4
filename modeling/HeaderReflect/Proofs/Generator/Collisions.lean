import HeaderReflect.Proofs.Generator.Artifacts
import HeaderReflect.Proofs.Generator.Outputs

/-!
Generated files that meet in one place. A run warns of two headers that derive the same identifier.
If it does not warn, no header takes the files of another one, and every file holds a text that is
known from its name and the two output directories (`texts_of_distinct_identifiers`). This is its own
text unless its name is one of the files that speak for all headers, or the two directories are one:
of that a run does not warn (`aggregate_replaces_header_file`).
-/

namespace HeaderReflect

/-! ## Warnings -/

/-- What an action warns of. -/
def Action.warning? : Action → Option Warning
  | .warn warning => some warning
  | _ => none

namespace Generator

theorem warnings_perform {g : Generator} {p q : Progress} {a : Action} (ha : a.IsOutput g)
    (h : g.perform p a = (q, none)) : q.warnings = p.warnings ++ a.warning?.toList := by
  obtain ⟨path, files, rfl, hfiles, rfl⟩ | ⟨warning, rfl, rfl⟩ |
    ⟨path, text, changed, files, rfl, hwrite, rfl⟩ := perform_cases ha h
  · simp [Action.warning?]
  · rfl
  · simp [Action.warning?]

/-- All warnings are given. -/
theorem warnings_performAll {g : Generator} {as : List Action} {p q : Progress}
    (has : ∀ a ∈ as, a.IsOutput g) (h : g.performAll p as = (q, none)) :
    q.warnings = p.warnings ++ as.filterMap (·.warning?) := by
  induction as generalizing p with
  | nil => cases h; simp
  | cons a rest ih =>
    unfold performAll at h
    split at h
    · rename_i r hr
      rw [ih (fun b hb => has b (List.mem_cons_of_mem _ hb)) h,
        warnings_perform (has a (List.mem_cons_self ..)) hr, List.append_assoc]
      cases ha : a.warning? <;> simp [ha]
    · cases h

/-- Where no warning is given, the identifiers are different, also from those taken before. -/
theorem nodup_of_not_warned {g : Generator} {changed : Bool} {owners : List (String × String)}
    {entries : Entries} (h : ∀ identifier first second,
      Action.warn (.sameIdentifier identifier first second) ∉ g.headerActions changed owners entries) :
    (entries.map fun e => (g.planEntry e.1 e.2.root).identifier).Nodup ∧
      ∀ e ∈ entries, owners.lookup (g.planEntry e.1 e.2.root).identifier = none := by
  induction entries generalizing owners with
  | nil => exact ⟨List.nodup_nil, nofun⟩
  | cons e rest ih =>
    obtain ⟨key, entry⟩ := e
    simp only [headerActions, List.mem_append, not_or] at h
    obtain ⟨hnodup, hfree⟩ := ih fun identifier first second => (h identifier first second).2
    have hhere : owners.lookup (g.planEntry key entry.root).identifier = none := by
      cases hlookup : owners.lookup (g.planEntry key entry.root).identifier with
      | none => rfl
      | some first =>
        refine absurd ?_ (h (g.planEntry key entry.root).identifier first key).1.1
        simp [warnIfTaken, hlookup]
    refine ⟨List.nodup_cons.mpr ⟨fun hmem => ?_, hnodup⟩, fun e he => ?_⟩
    · obtain ⟨e, he, heq⟩ := List.mem_map.mp hmem
      have hnone := hfree e he
      rw [heq, List.lookup_cons_self] at hnone
      cases hnone
    · rcases List.mem_cons.mp he with rfl | hrest
      · exact hhere
      · have hnone := hfree e hrest
        rw [List.lookup_cons] at hnone
        split at hnone
        · cases hnone
        · exact hnone

/-! ## The files of one header -/

/-- The two files of a header. -/
def headerFiles (g : Generator) (file : RenderedFile) : List OutputFile :=
  [⟨g.config.reflOutputDir, file.artifactName, file.reflection⟩,
   ⟨g.config.bindingOutputDir, file.artifactName, file.binding⟩]

theorem writeHeader_eq {g : Generator} {plan : FilePlan} {file : RenderedFile}
    (h : plan.render g.renderer = .ok file) :
    g.writeHeader plan = (g.headerFiles file).map (·.action) := by
  unfold writeHeader
  rw [h]
  rfl

theorem isFileName_artifactName (g : Generator) (key : String) (root : Decl) :
    Path.IsFileName (g.planEntry key root).artifactName :=
  (isOutputName_artifactName ..).toIsFileName

/-- Where both directories are one, it is the second file of a header that stays. -/
theorem leavesAll_writeHeader {g : Generator} {key : String} {root : Decl} {file : RenderedFile}
    (h : (g.planEntry key root).render g.renderer = .ok file) (home d : Location) :
    Action.leavesAll home (d ++ [file.artifactName]) (g.writeHeader (g.planEntry key root)) =
      if Path.directory home g.config.bindingOutputDir = d then some (Text.utf8 file.binding)
      else if Path.directory home g.config.reflOutputDir = d then some (Text.utf8 file.reflection)
      else none := by
  have hname : Path.IsFileName file.artifactName := by
    rw [artifactName_of_render h]
    exact isFileName_artifactName g key root
  rw [writeHeader_eq h]
  simp only [headerFiles, List.map_cons, List.map_nil, Action.leavesAll, Option.none_or]
  rw [OutputFile.leaves_action hname, OutputFile.leaves_action hname]
  split_ifs <;> simp_all

/-- Other names are left alone. -/
theorem leavesAll_writeHeader_ne {g : Generator} {key : String} {root : Decl} {name : String}
    (hne : (g.planEntry key root).artifactName ≠ name) (home d : Location) :
    Action.leavesAll home (d ++ [name]) (g.writeHeader (g.planEntry key root)) = none := by
  cases h : (g.planEntry key root).render g.renderer with
  | error e =>
    unfold writeHeader
    rw [h]
    rfl
  | ok file =>
    have hname := artifactName_of_render h
    rw [writeHeader_eq h]
    apply OutputFile.leavesAll_of_not_mem
    · intro f hf
      simp only [headerFiles, List.mem_cons, List.not_mem_nil, or_false] at hf
      rcases hf with rfl | rfl
      · exact hname ▸ isFileName_artifactName g key root
      · exact hname ▸ isFileName_artifactName g key root
    · simp [headerFiles, hname, Ne.symm hne]

theorem artifactName_ne {p q : FilePlan} (h : p.identifier ≠ q.identifier) :
    p.artifactName ≠ q.artifactName := by
  intro heq
  apply h
  rw [FilePlan.artifactName, FilePlan.artifactName] at heq
  exact (String.append_left_inj _).mp heq

/-- Under another name than theirs, headers leave nothing. -/
theorem leavesAll_headerActions_ne {g : Generator} {entries : Entries} {name : String}
    (hne : ∀ e ∈ entries, (g.planEntry e.1 e.2.root).artifactName ≠ name)
    (owners : List (String × String)) (home d : Location) :
    Action.leavesAll home (d ++ [name]) (g.headerActions true owners entries) = none := by
  induction entries generalizing owners with
  | nil => rfl
  | cons e rest ih =>
    obtain ⟨key, entry⟩ := e
    have hhere := leavesAll_writeHeader_ne (hne (key, entry) (List.mem_cons_self ..)) home d
    have hrest := ih fun e he => hne e (List.mem_cons_of_mem _ he)
    simp only [headerActions, Action.leavesAll_append, hrest, leavesAll_warnIfTaken, if_true, hhere]
    rfl

/-- **Headers with different identifiers do not take each other's files.** -/
theorem leavesAll_headerActions_of_mem {g : Generator} {entries : Entries}
    (hnodup : (entries.map fun e => (g.planEntry e.1 e.2.root).identifier).Nodup) {key : String}
    {entry : CacheEntry} (hmem : (key, entry) ∈ entries) (owners : List (String × String))
    (home d : Location) :
    Action.leavesAll home (d ++ [(g.planEntry key entry.root).artifactName])
        (g.headerActions true owners entries) =
      Action.leavesAll home (d ++ [(g.planEntry key entry.root).artifactName])
        (g.writeHeader (g.planEntry key entry.root)) := by
  induction entries generalizing owners with
  | nil => cases hmem
  | cons e rest ih =>
    obtain ⟨first, other⟩ := e
    obtain ⟨hnot, hrest⟩ := List.nodup_cons.mp hnodup
    simp only [headerActions, Action.leavesAll_append, leavesAll_warnIfTaken, Option.or_none,
      if_true]
    rcases List.mem_cons.mp hmem with heq | htail
    · cases heq
      rw [leavesAll_headerActions_ne, Option.none_or]
      intro e he
      apply artifactName_ne
      intro heq
      exact hnot (List.mem_map.mpr ⟨e, he, heq⟩)
    · have hne : (g.planEntry first other.root).artifactName ≠
          (g.planEntry key entry.root).artifactName := by
        apply artifactName_ne
        intro heq
        exact hnot (List.mem_map.mpr ⟨_, htail, heq.symm⟩)
      rw [ih hrest htail, leavesAll_writeHeader_ne hne, Option.or_none]

theorem mem_headerActions {g : Generator} {entries : Entries} {key : String} {entry : CacheEntry}
    (hmem : (key, entry) ∈ entries) {a : Action}
    (ha : a ∈ g.writeHeader (g.planEntry key entry.root)) (owners : List (String × String)) :
    a ∈ g.headerActions true owners entries := by
  induction entries generalizing owners with
  | nil => cases hmem
  | cons e rest ih =>
    obtain ⟨first, other⟩ := e
    simp only [headerActions, if_true]
    rcases List.mem_cons.mp hmem with heq | htail
    · cases heq
      exact List.mem_append_left _ (List.mem_append_right _ ha)
    · exact List.mem_append_right _ (ih htail _)

/-- What is to be written for a header is written in a run with changes. -/
theorem mem_outputActions {g : Generator} {entries : Entries} {key : String} {entry : CacheEntry}
    (hmem : (key, entry) ∈ emitted entries) {a : Action}
    (ha : a ∈ g.writeHeader (g.planEntry key entry.root)) : a ∈ g.outputActions true entries :=
  List.mem_append_left _ (List.mem_append_right _ (mem_headerActions hmem ha []))

/-! ## Files that meet -/

/-- Both output directories are one, with paths taken from `home`. -/
def SharesDirectory (g : Generator) (home : Location) : Prop :=
  Path.directory home g.config.reflOutputDir = Path.directory home g.config.bindingOutputDir

instance (g : Generator) (home : Location) : Decidable (g.SharesDirectory home) :=
  inferInstanceAs (Decidable (_ = _))

/-- What the reflection file of a header comes to hold. -/
def reflText (g : Generator) (home : Location) (all : RenderedAggregates) (file : RenderedFile) :
    String :=
  if file.artifactName = "refl_generate.hpp" then all.reflHeader
  else if g.SharesDirectory home then
    if file.artifactName = "script_binding.hpp" then all.bindingHeader else file.binding
  else file.reflection

/-- What the binding file of a header comes to hold. -/
def bindingText (g : Generator) (home : Location) (all : RenderedAggregates)
    (file : RenderedFile) : String :=
  if file.artifactName = "script_binding.hpp" then all.bindingHeader
  else if g.SharesDirectory home ∧ file.artifactName = "refl_generate.hpp" then all.reflHeader
  else file.binding

/-- Where nothing meets, both are the texts of the header. -/
theorem texts_of_apart {g : Generator} {home : Location} (hapart : ¬ g.SharesDirectory home)
    {file : RenderedFile} (hfree : file.artifactName ∉ aggregateNames)
    (all : RenderedAggregates) :
    g.reflText home all file = file.reflection ∧
      g.bindingText home all file = file.binding := by
  simp only [aggregateNames, List.mem_cons, List.not_mem_nil, or_false, not_or] at hfree
  simp [reflText, bindingText, hapart, hfree]

/-- Of the files that speak for all headers, only two can have the name of a file of a header. -/
theorem artifactName_mem_aggregateNames {plan : FilePlan} (h : plan.artifactName ∈ aggregateNames) :
    plan.artifactName = "refl_generate.hpp" ∨ plan.artifactName = "script_binding.hpp" := by
  have hthird : plan.artifactName.toList.reverse[2]? = some 'h' := by
    rw [FilePlan.artifactName, String.toList_append, List.reverse_append]
    rfl
  have hall : ∀ name ∈ aggregateNames, name.toList.reverse[2]? = some 'h' →
      name = "refl_generate.hpp" ∨ name = "script_binding.hpp" := by
    decide
  exact hall _ h hthird

/-- What the files that speak for all headers leave under the name of a file of a header. -/
theorem leavesAll_aggregateActions_artifactName {g : Generator} {identifiers : List String}
    {all : RenderedAggregates} (hall : renderAggregates g.renderer identifiers = .ok all)
    (plan : FilePlan) (home d : Location) :
    Action.leavesAll home (d ++ [plan.artifactName]) (g.aggregateActions identifiers) =
      if plan.artifactName = "refl_generate.hpp" then
        if Path.directory home g.config.reflOutputDir = d then some (Text.utf8 all.reflHeader)
        else none
      else if plan.artifactName = "script_binding.hpp" then
        if Path.directory home g.config.bindingOutputDir = d then
          some (Text.utf8 all.bindingHeader)
        else none
      else none := by
  have hfiles : ∀ f ∈ g.aggregateFiles all, Path.IsFileName f.name :=
    fun f => isFileName_aggregateFiles
  have hnodup := nodup_aggregateFiles g all
  have hheader : ⟨g.config.reflOutputDir, "refl_generate.hpp", all.reflHeader⟩ ∈
      g.aggregateFiles all := by
    simp [aggregateFiles]
  have hbinding : ⟨g.config.bindingOutputDir, "script_binding.hpp", all.bindingHeader⟩ ∈
      g.aggregateFiles all := by
    simp [aggregateFiles]
  rw [aggregateActions_eq hall]
  by_cases hfirst : plan.artifactName = "refl_generate.hpp"
  · rw [if_pos hfirst, hfirst]
    exact OutputFile.leavesAll_of_mem hfiles hnodup hheader home d
  rw [if_neg hfirst]
  by_cases hsecond : plan.artifactName = "script_binding.hpp"
  · rw [if_pos hsecond, hsecond]
    exact OutputFile.leavesAll_of_mem hfiles hnodup hbinding home d
  · rw [if_neg hsecond]
    apply OutputFile.leavesAll_of_not_mem hfiles
    rw [names_aggregateFiles]
    intro hmem
    exact (artifactName_mem_aggregateNames hmem).elim hfirst hsecond

section Texts

variable {g : Generator} {entries : Entries} {all : RenderedAggregates} {p q : Progress}
  {blob : Bytes} {after : World}
  (hall : renderAggregates g.renderer (g.identifiers entries) = .ok all)
  (hnodup : (g.identifiers entries).Nodup) {key : String} {entry : CacheEntry}
  (hmem : (key, entry) ∈ emitted entries) {file : RenderedFile}
  (hrender : (g.planEntry key entry.root).render g.renderer = .ok file)

include hall hnodup hmem hrender

/-- What all actions leave under the name of a file of a header. -/
theorem leavesAll_artifactName (home d : Location) :
    Action.leavesAll home (d ++ [file.artifactName]) (g.outputActions true entries) =
      (if file.artifactName = "refl_generate.hpp" then
        if Path.directory home g.config.reflOutputDir = d then some (Text.utf8 all.reflHeader)
        else none
      else if file.artifactName = "script_binding.hpp" then
        if Path.directory home g.config.bindingOutputDir = d then
          some (Text.utf8 all.bindingHeader)
        else none
      else none).or
        (if Path.directory home g.config.bindingOutputDir = d then some (Text.utf8 file.binding)
        else if Path.directory home g.config.reflOutputDir = d then
          some (Text.utf8 file.reflection)
        else none) := by
  have hname := artifactName_of_render hrender
  have hheader := leavesAll_writeHeader hrender home d
  rw [leavesAll_outputActions, if_pos rfl, output?, aggregate?, artifact?, hname,
    leavesAll_aggregateActions_artifactName hall, leavesAll_headerActions_of_mem hnodup hmem,
    ← hheader, hname]

/-- A header whose files are all written finds each of them with the text that is due there. -/
theorem read_headerFiles
    (hperformed : g.performAll p (g.outputActions true entries) = (q, none))
    (hsave : g.cachePlace.save cacheKey blob q.world = (.ok (), after)) :
    after.files.read (g.reflFile file.artifactName) =
        .ok (Text.utf8 (g.reflText p.world.files.working all file)) ∧
      after.files.read (g.bindingFile file.artifactName) =
        .ok (Text.utf8 (g.bindingText p.world.files.working all file)) := by
  have hname : Path.IsFileName file.artifactName := by
    rw [artifactName_of_render hrender]
    exact isFileName_artifactName g key entry.root
  have hwritten {f : OutputFile} (hf : f ∈ g.headerFiles file) :
      f.action ∈ g.outputActions true entries := by
    apply mem_outputActions hmem
    rw [writeHeader_eq hrender]
    exact List.mem_map_of_mem hf
  have hleaves := leavesAll_artifactName hall hnodup hmem hrender p.world.files.working
  constructor
  · apply read_of_saved hperformed hsave hname (hwritten (List.mem_cons_self ..))
    have hshares : g.SharesDirectory p.world.files.working ↔
        Path.directory p.world.files.working g.config.bindingOutputDir =
          Path.directory p.world.files.working g.config.reflOutputDir := eq_comm
    simp only [hleaves, reflText, hshares, if_true]
    split_ifs <;> rfl
  · apply read_of_saved hperformed hsave hname
      (hwritten (List.mem_cons_of_mem _ (List.mem_cons_self ..)))
    simp only [hleaves, bindingText, SharesDirectory, if_true]
    split_ifs <;> simp_all

end Texts

theorem rendered_of_mem {g : Generator} {entries : Entries} {p q : Progress}
    (hperformed : g.performAll p (g.outputActions true entries) = (q, none)) {key : String}
    {entry : CacheEntry} (hmem : (key, entry) ∈ emitted entries) :
    ∃ file, (g.planEntry key entry.root).render g.renderer = .ok file := by
  cases hrender : (g.planEntry key entry.root).render g.renderer with
  | ok file => exact ⟨file, rfl⟩
  | error e =>
    have hgives : .giveUp e ∈ g.writeHeader (g.planEntry key entry.root) := by
      simp [writeHeader, hrender]
    exact absurd (mem_outputActions hmem hgives) (not_giveUp_of_performAll hperformed e)

/-- **Every file holds the text that is due in its place**, after a run that writes them all and warns
of no identifier that is derived twice. The files that speak for all headers hold their own. So do
those of single headers, unless their name is `refl_generate.hpp` or `script_binding.hpp` or the
output directories are one. -/
theorem texts_of_distinct_identifiers {g : Generator} {w : World} {files : List String}
    {s : RunSummary} (hrun : (g.run w files).result = .ok s)
    (hchanged : 0 < s.visited ∨ 0 < s.dropped)
    (hdistinct : ∀ identifier first second,
      Warning.sameIdentifier identifier first second ∉ (g.run w files).warnings) :
    ∃ v warnings r all, g.Refreshed w files v warnings r none ∧
      g.cachePlace.blob? (g.run w files).world = some (Blob.ofCache ⟨g.fingerprint, r.entries⟩) ∧
      renderAggregates g.renderer (g.identifiers r.entries) = .ok all ∧
      g.HoldsAggregates all (g.run w files).world.files ∧
      ∀ key entry, (key, entry) ∈ emitted r.entries →
        ∃ file, (g.planEntry key entry.root).render g.renderer = .ok file ∧
          (g.run w files).world.files.read (g.reflFile file.artifactName) =
            .ok (Text.utf8 (g.reflText w.files.working all file)) ∧
          (g.run w files).world.files.read (g.bindingFile file.artifactName) =
            .ok (Text.utf8 (g.bindingText w.files.working all file)) ∧
          (¬ g.SharesDirectory w.files.working → file.artifactName ∉ aggregateNames →
            g.reflText w.files.working all file = file.reflection ∧
              g.bindingText w.files.working all file = file.binding) := by
  obtain ⟨v, warnings, r, q, hfinished⟩ := exists_finished hrun
  have hperformed := hfinished.performed
  rw [hfinished.changed.mpr hchanged] at hperformed
  have hquiet : ∀ identifier first second,
      Action.warn (.sameIdentifier identifier first second) ∉
        g.headerActions true [] (emitted r.entries) := by
    intro identifier first second hmem
    apply hdistinct identifier first second
    rw [hfinished.warned, warnings_performAll (fun a => isOutput_outputActions) hperformed]
    have hlisted := List.mem_append_left (g.aggregateActions (g.identifiers r.entries))
      (List.mem_append_right [.makeDirectory g.config.reflOutputDir,
        .makeDirectory g.config.bindingOutputDir] hmem)
    exact List.mem_append_right _ (List.mem_filterMap.mpr ⟨_, hlisted, rfl⟩)
  have hnodup : (g.identifiers r.entries).Nodup := (nodup_of_not_warned hquiet).1
  obtain ⟨all, hall⟩ := exists_rendered hperformed
  refine ⟨v, warnings, r, all, hfinished.refreshed, CachePlace.blob?_of_save hfinished.saved, hall,
    holdsAggregates_of_saved hperformed hfinished.saved hall, fun key entry hmem => ?_⟩
  obtain ⟨file, hfile⟩ := rendered_of_mem hperformed hmem
  have hworking : (begun w files v warnings r).world.files.working = w.files.working :=
    congrArg _ hfinished.refreshed.files_eq
  obtain ⟨hrefl, hbinding⟩ := read_headerFiles hall hnodup hmem hfile hperformed hfinished.saved
  rw [hworking] at hrefl hbinding
  exact ⟨file, hfile, hrefl, hbinding, fun hapart hfree => texts_of_apart hapart hfree all⟩

/-- Two headers and two directories: each file holds its own text. -/
theorem texts_of_distinct_identifiers_first :
    ∃ outcome, outcome = Sample.generator.run { files := Sample.headers 2 } Sample.paths ∧
      outcome.warnings = [] ∧
      ∃ v warnings r all,
        Sample.generator.Refreshed { files := Sample.headers 2 } Sample.paths v warnings r none ∧
        Sample.generator.HoldsAggregates all outcome.world.files ∧
        ∀ key entry, (key, entry) ∈ emitted r.entries →
          ∃ file, (Sample.generator.planEntry key entry.root).render Sample.generator.renderer =
              .ok file ∧
            (file.artifactName ∉ aggregateNames →
              outcome.world.files.read (Sample.generator.reflFile file.artifactName) =
                  .ok (Text.utf8 file.reflection) ∧
                outcome.world.files.read (Sample.generator.bindingFile file.artifactName) =
                  .ok (Text.utf8 file.binding)) := by
  have hapart : ¬ Sample.generator.SharesDirectory (Sample.headers 2).working := by decide
  have hquiet : (Sample.generator.run { files := Sample.headers 2 } Sample.paths).warnings = [] := by
    decide +kernel
  have hdistinct : ∀ identifier first second, Warning.sameIdentifier identifier first second ∉
      (Sample.generator.run { files := Sample.headers 2 } Sample.paths).warnings := by
    rw [hquiet]
    nofun
  obtain ⟨v, warnings, r, all, hrefreshed, -, -, hholds, htexts⟩ :=
    texts_of_distinct_identifiers Sample.run_empty (.inl Nat.two_pos) hdistinct
  refine ⟨_, rfl, hquiet, v, warnings, r, all, hrefreshed, hholds, fun key entry hmem => ?_⟩
  obtain ⟨file, hfile, hrefl, hbinding, hown⟩ := htexts key entry hmem
  refine ⟨file, hfile, fun hfree => ?_⟩
  obtain ⟨hreflText, hbindingText⟩ := hown hapart hfree
  exact ⟨hreflText ▸ hrefl, hbindingText ▸ hbinding⟩

end Generator

/-! ## A header with a name that is taken -/

/-- One header, called like the file that speaks for all. -/
def Sample.reserved : FileSystem where
  entries :=
    [([], .directory 0), (["work"], .directory 0),
     (["work", "refl_generate.h"], .file (Text.utf8 "REFL") 1)]
  working := ["work"]
  clock := 2

/-- A run that succeeds and warns of nothing has replaced the reflection file of a header. -/
theorem aggregate_replaces_header_file :
    (Sample.generator.run { files := Sample.reserved } ["refl_generate.h"]).result.toOption =
        some { visited := 1, written := 6 } ∧
      (Sample.generator.run { files := Sample.reserved } ["refl_generate.h"]).warnings = [] ∧
      ∃ root file, (Sample.generator.visit Sample.reserved "refl_generate.h").toOption = some root ∧
        ((Sample.generator.planEntry "refl_generate.h" root).render
          Sample.generator.renderer).toOption = some file ∧
        (Sample.generator.run { files := Sample.reserved } ["refl_generate.h"]).world.files.read
          (Sample.generator.reflFile file.artifactName) ≠ .ok (Text.utf8 file.reflection) := by
  obtain ⟨hresult, hquiet, hreplaced⟩ :
      (Sample.generator.run { files := Sample.reserved } ["refl_generate.h"]).result.toOption =
        some { visited := 1, written := 6 } ∧
      (Sample.generator.run { files := Sample.reserved } ["refl_generate.h"]).warnings = [] ∧
      ((Sample.generator.visit Sample.reserved "refl_generate.h").toOption.bind fun root =>
        ((Sample.generator.planEntry "refl_generate.h" root).render
          Sample.generator.renderer).toOption.map fun file =>
            decide ((Sample.generator.run { files := Sample.reserved }
              ["refl_generate.h"]).world.files.read
                (Sample.generator.reflFile file.artifactName) ≠ .ok (Text.utf8 file.reflection))) =
        some true := by
    decide +kernel
  obtain ⟨root, hroot, hplan⟩ := Option.bind_eq_some_iff.mp hreplaced
  obtain ⟨file, hfile, hne⟩ := Option.map_eq_some_iff.mp hplan
  exact ⟨hresult, hquiet, root, file, hroot, hfile, of_decide_eq_true hne⟩

end HeaderReflect
