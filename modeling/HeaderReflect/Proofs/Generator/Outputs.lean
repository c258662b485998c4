import HeaderReflect.Proofs.Generator.Remains
import HeaderReflect.Proofs.Generator.Run

/-!
What the generated files hold at the end of a run. A file is read as it was written last, also after
the cache is saved (`read_of_saved`). The four files that speak for all headers have names of their
own and are written last, so they always hold what was rendered for them (`holdsAggregates_of_saved`).
-/

namespace HeaderReflect

/-! ## Files by directory and name -/

/-- A file to be written. -/
structure OutputFile where
  dir : String
  name : String
  text : String

namespace OutputFile

def path (f : OutputFile) : String := Path.join f.dir f.name

def action (f : OutputFile) : Action := .write f.path f.text

/-- A file lies at a location of its own name, in its directory. -/
theorem leaves_action {f : OutputFile} (h : Path.IsFileName f.name) (home d : Location)
    (name : String) :
    f.action.leaves home (d ++ [name]) =
      if Path.directory home f.dir = d ∧ f.name = name then some (Text.utf8 f.text) else none := by
  have hiff : Path.location home f.path = d ++ [name] ↔
      Path.directory home f.dir = d ∧ f.name = name := by
    rw [path, Path.location_join home f.dir h]
    constructor
    · intro heq
      obtain ⟨hd, hname⟩ := List.append_inj' heq rfl
      exact ⟨hd, List.singleton_inj.mp hname⟩
    · rintro ⟨rfl, rfl⟩
      rfl
  simp only [action, Action.leaves, hiff]

/-- Files leave nothing under a name that is none of theirs. -/
theorem leavesAll_of_not_mem {files : List OutputFile}
    (hnames : ∀ f ∈ files, Path.IsFileName f.name) {name : String}
    (hnot : name ∉ files.map (·.name)) (home d : Location) :
    Action.leavesAll home (d ++ [name]) (files.map (·.action)) = none := by
  apply Action.leavesAll_eq_none
  intro a ha
  obtain ⟨f, hf, rfl⟩ := List.mem_map.mp ha
  rw [leaves_action (hnames f hf), if_neg]
  rintro ⟨-, rfl⟩
  exact hnot (List.mem_map_of_mem hf)

/-- Of files with different names each one leaves its own text. -/
theorem leavesAll_of_mem {files : List OutputFile}
    (hnames : ∀ f ∈ files, Path.IsFileName f.name) (hnodup : (files.map (·.name)).Nodup)
    {f : OutputFile} (hf : f ∈ files) (home d : Location) :
    Action.leavesAll home (d ++ [f.name]) (files.map (·.action)) =
      if Path.directory home f.dir = d then some (Text.utf8 f.text) else none := by
  induction files with
  | nil => cases hf
  | cons first rest ih =>
    obtain ⟨hnot, hrest⟩ := List.nodup_cons.mp hnodup
    have hothers : ∀ f ∈ rest, Path.IsFileName f.name :=
      fun f hf => hnames f (List.mem_cons_of_mem _ hf)
    have hfirst := leaves_action (hnames first (List.mem_cons_self ..)) home d
    rw [List.map_cons, Action.leavesAll]
    rcases List.mem_cons.mp hf with rfl | hmem
    · rw [leavesAll_of_not_mem hothers hnot, hfirst]
      simp
    · have hne : first.name ≠ f.name := by
        intro heq
        exact hnot (List.mem_map.mpr ⟨f, hmem, heq.symm⟩)
      rw [ih hothers hrest hmem, hfirst]
      simp [hne]

end OutputFile

namespace Generator

/-! ## Reading at the end -/

/-- A generated file is never where the blob is. -/
theorem location?_ne_of_isOutput {g : Generator} {path text : String}
    (h : (Action.write path text).IsOutput g) (home : Location) (place : CachePlace) :
    place.location? home ≠ some (Path.location home path) := by
  cases place with
  | inMemory => nofun
  | inDirectory base =>
    intro hplace
    obtain ⟨name, hname, rfl | rfl⟩ := h
    · exact location_ne_cacheFile hname home _ base (Option.some.inj hplace).symm
    · exact location_ne_cacheFile hname home _ base (Option.some.inj hplace).symm

variable {g : Generator} {changed : Bool} {entries : Entries} {p q : Progress} {after : World}
  {blob : Bytes}

/-- A file of the run is read as it was written last. -/
theorem read_of_saved (hperformed : g.performAll p (g.outputActions changed entries) = (q, none))
    (hsave : g.cachePlace.save cacheKey blob q.world = (.ok (), after)) {f : OutputFile}
    (hname : Path.IsFileName f.name) (hmem : f.action ∈ g.outputActions changed entries)
    {content : Bytes} (hlast : Action.leavesAll p.world.files.working
      (Path.directory p.world.files.working f.dir ++ [f.name]) (g.outputActions changed entries) =
        some content) :
    after.files.read f.path = .ok content := by
  rw [← Path.location_join _ f.dir hname] at hlast
  have hread := read_of_performAll (fun a => isOutput_outputActions) hperformed hmem hlast
  exact CachePlace.read_of_save hsave
    (location?_ne_of_isOutput (isOutput_outputActions hmem) _ g.cachePlace) hread

/-! ## Files that speak for all headers -/

/-- The files that speak for all headers. -/
def aggregateFiles (g : Generator) (all : RenderedAggregates) : List OutputFile :=
  [⟨g.config.reflOutputDir, "refl_generate.hpp", all.reflHeader⟩,
   ⟨g.config.reflOutputDir, "refl_generate.cpp", all.reflImpl⟩,
   ⟨g.config.bindingOutputDir, "script_binding.hpp", all.bindingHeader⟩,
   ⟨g.config.bindingOutputDir, "script_binding.cpp", all.bindingImpl⟩]

/-- All of them hold these texts. -/
def HoldsAggregates (g : Generator) (all : RenderedAggregates) (fs : FileSystem) : Prop :=
  ∀ f ∈ g.aggregateFiles all, fs.read f.path = .ok (Text.utf8 f.text)

theorem aggregateActions_eq {identifiers : List String} {all : RenderedAggregates}
    (hall : renderAggregates g.renderer identifiers = .ok all) :
    g.aggregateActions identifiers = (g.aggregateFiles all).map (·.action) := by
  unfold aggregateActions
  rw [hall]
  rfl

/-- Their names. -/
def aggregateNames : List String :=
  ["refl_generate.hpp", "refl_generate.cpp", "script_binding.hpp", "script_binding.cpp"]

theorem names_aggregateFiles (g : Generator) (all : RenderedAggregates) :
    (g.aggregateFiles all).map (·.name) = aggregateNames :=
  rfl

theorem isFileName_aggregateFiles {all : RenderedAggregates} {f : OutputFile}
    (hf : f ∈ g.aggregateFiles all) : Path.IsFileName f.name := by
  have hnames : ∀ name ∈ aggregateNames,
      name.toList.getLast? = some 'p' ∧ '/' ∉ name.toList := by
    decide
  have hmem : f.name ∈ aggregateNames :=
    names_aggregateFiles g all ▸ List.mem_map.mpr ⟨f, hf, rfl⟩
  obtain ⟨hend, hsep⟩ := hnames f.name hmem
  exact (isOutputName_of_end hend hsep).toIsFileName

theorem nodup_aggregateFiles (g : Generator) (all : RenderedAggregates) :
    ((g.aggregateFiles all).map (·.name)).Nodup := by
  rw [names_aggregateFiles]
  decide

theorem exists_rendered
    (hperformed : g.performAll p (g.outputActions changed entries) = (q, none)) :
    ∃ all, renderAggregates g.renderer (g.identifiers entries) = .ok all := by
  cases hall : renderAggregates g.renderer (g.identifiers entries) with
  | error e =>
    have hmem : .giveUp e ∈ g.outputActions changed entries := by
      simp [outputActions, aggregateActions, hall]
    exact absurd hmem (not_giveUp_of_performAll hperformed e)
  | ok all => exact ⟨all, rfl⟩

/-- **The files that speak for all headers are never lost**, whatever the others are called. -/
theorem holdsAggregates_of_saved
    (hperformed : g.performAll p (g.outputActions changed entries) = (q, none))
    (hsave : g.cachePlace.save cacheKey blob q.world = (.ok (), after)) {all : RenderedAggregates}
    (hall : renderAggregates g.renderer (g.identifiers entries) = .ok all) :
    g.HoldsAggregates all after.files := by
  intro f hf
  have hmem : f.action ∈ g.aggregateActions (g.identifiers entries) := by
    rw [aggregateActions_eq hall]
    exact List.mem_map_of_mem hf
  apply read_of_saved hperformed hsave (isFileName_aggregateFiles hf)
    (List.mem_append_right _ hmem)
  rw [outputActions, Action.leavesAll_append, aggregateActions_eq hall,
    OutputFile.leavesAll_of_mem (fun _ => isFileName_aggregateFiles) (nodup_aggregateFiles g all) hf,
    if_pos rfl]
  rfl

end Generator

end HeaderReflect
