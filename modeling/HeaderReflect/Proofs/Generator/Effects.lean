import HeaderReflect.Generator
import HeaderReflect.Proofs.FileSystem.Directories

/-!
What the actions of a run do to the files and to the stored blob. Generated files have names of
their own, so they never touch the blob, and performing them leaves at each location what was
written there last (`content?_performAll`).
-/

namespace HeaderReflect

/-! ## Names of generated files -/

theorem Path.mem_identifier {path : String} {c : Char} (h : c ∈ (Path.identifier path).toList) :
    isAsciiAlphanumeric c = true ∨ c = '_' := by
  have hchar (d : Char) : isAsciiAlphanumeric (identifierChar d) = true ∨ identifierChar d = '_' := by
    unfold identifierChar
    split_ifs with hd
    · simpa using hd
    · exact .inr rfl
  have hparts (parts : List Segment) :
      c ∈ List.intercalate ['_'] (parts.map (·.map identifierChar)) →
        isAsciiAlphanumeric c = true ∨ c = '_' := by
    induction parts with
    | nil => intro hc; simp at hc
    | cons part parts ih =>
      intro hc
      cases parts with
      | nil =>
        simp only [List.map_cons, List.map_nil, List.intercalate_singleton, List.mem_map] at hc
        obtain ⟨d, -, rfl⟩ := hc
        exact hchar d
      | cons next parts =>
        simp only [List.map_cons, List.intercalate_cons_cons, List.mem_append, List.mem_map,
          List.mem_singleton] at hc ih
        rcases hc with (⟨d, -, rfl⟩ | rfl) | hc
        · exact hchar d
        · exact .inr rfl
        · exact ih hc
  rw [identifier, String.toList_ofList] at h
  exact hparts _ h

/-- The name of the file that holds the blob. -/
def cacheFileName : String := cacheKey ++ ".cbor"

/-- A name that a generated file can have. -/
structure IsOutputName (name : String) : Prop extends Path.IsFileName name where
  ne_cache : name ≠ cacheFileName

theorem isOutputName_of_end {name : String} (hend : name.toList.getLast? = some 'p')
    (hsep : '/' ∉ name.toList) : IsOutputName name where
  ne_empty := by
    rintro rfl
    exact absurd hend (by decide)
  ne_here := by
    rintro rfl
    exact absurd hend (by decide)
  ne_up := by
    rintro rfl
    exact absurd hend (by decide)
  noSeparator := hsep
  ne_cache := by
    rintro rfl
    exact absurd hend (by decide)

theorem isOutputName_artifactName (memberPrefix path : String) (root : Decl) :
    IsOutputName (planFile memberPrefix path root).artifactName := by
  have hname : (planFile memberPrefix path root).artifactName.toList =
      (Path.identifier path).toList ++ ['.', 'h', 'p', 'p'] := by
    rw [FilePlan.artifactName, String.toList_append]
    rfl
  have hend : (planFile memberPrefix path root).artifactName.toList.getLast? = some 'p' := by
    rw [hname, List.getLast?_append]
    rfl
  refine isOutputName_of_end hend fun hc => ?_
  rw [hname, List.mem_append] at hc
  rcases hc with hc | hc
  · rcases Path.mem_identifier hc with hc | hc
    · exact absurd hc (by decide)
    · exact absurd hc (by decide)
  · exact absurd hc (by decide)

theorem isFileName_cacheFileName : Path.IsFileName cacheFileName where
  ne_empty := by decide
  ne_here := by decide
  ne_up := by decide
  noSeparator := by decide

/-- A generated file is never where the blob is. -/
theorem location_ne_cacheFile {name : String} (h : IsOutputName name) (home : Location)
    (dir base : String) :
    Path.location home (Path.join dir name) ≠
      Path.location home (CachePlace.fileOf base cacheKey) :=
  Path.location_join_ne h.toIsFileName isFileName_cacheFileName h.ne_cache home dir base

/-! ## Actions -/

namespace Action

/-- What an action that succeeds leaves at a location, with paths taken from `home`. -/
def leaves (home l : Location) : Action → Option Bytes
  | .write path text => if Path.location home path = l then some (Text.utf8 text) else none
  | _ => none

/-- What actions leave at a location: what is written there last. -/
def leavesAll (home l : Location) : List Action → Option Bytes
  | [] => none
  | a :: rest => (leavesAll home l rest).or (a.leaves home l)

theorem leavesAll_append (home l : Location) (first second : List Action) :
    leavesAll home l (first ++ second) =
      (leavesAll home l second).or (leavesAll home l first) := by
  induction first with
  | nil => simp [leavesAll]
  | cons a rest ih => rw [List.cons_append, leavesAll, ih, leavesAll, Option.or_assoc]

theorem leavesAll_eq_none {home l : Location} {as : List Action}
    (h : ∀ a ∈ as, a.leaves home l = none) : leavesAll home l as = none := by
  induction as with
  | nil => rfl
  | cons a rest ih =>
    rw [leavesAll, ih fun b hb => h b (List.mem_cons_of_mem _ hb), h a (List.mem_cons_self ..)]
    rfl

/-- Where actions leave nothing, a first part of them leaves nothing either. -/
theorem leavesAll_of_part {home l : Location} {done as : List Action} (h : done <+: as)
    (hnone : leavesAll home l as = none) : leavesAll home l done = none := by
  obtain ⟨rest, rfl⟩ := h
  rw [leavesAll_append, Option.or_eq_none_iff] at hnone
  exact hnone.2

/-- An action that has to do with the generated files of a generator only. -/
def IsOutput (g : Generator) : Action → Prop
  | .write path _ => ∃ name, IsOutputName name ∧ (path = g.reflFile name ∨ path = g.bindingFile name)
  | .saveCache _ => False
  | _ => True

theorem IsOutput.leaves_cacheFile {g : Generator} {a : Action} (h : a.IsOutput g)
    (home : Location) (base : String) :
    a.leaves home (Path.location home (CachePlace.fileOf base cacheKey)) = none := by
  cases a with
  | write path text =>
    obtain ⟨name, hname, rfl | rfl⟩ := h
    · exact if_neg (location_ne_cacheFile hname home _ base)
    · exact if_neg (location_ne_cacheFile hname home _ base)
  | makeDirectory path => rfl
  | warn warning => rfl
  | giveUp e => rfl
  | saveCache c => rfl

end Action

namespace Generator

/-- What an output action that succeeds has done. -/
theorem perform_cases {g : Generator} {p q : Progress} {a : Action} (ha : a.IsOutput g)
    (h : g.perform p a = (q, none)) :
    (∃ path files, a = .makeDirectory path ∧ p.world.files.ensureDirectory path = .ok files ∧
        q = { p with world := { p.world with files } }) ∨
      (∃ warning, a = .warn warning ∧ q = { p with warnings := p.warnings ++ [warning] }) ∨
      ∃ path text changed files, a = .write path text ∧
        p.world.files.writeIfChanged path (Text.utf8 text) = .ok (changed, files) ∧
        q = { p with
              world := { p.world with files }
              written := p.written + changed.toNat
              unchanged := p.unchanged + (!changed).toNat } := by
  cases a with
  | makeDirectory path =>
    simp only [perform] at h
    split at h
    · rename_i files hfiles
      cases h
      exact .inl ⟨path, files, rfl, hfiles, rfl⟩
    · cases h
  | warn warning =>
    cases h
    exact .inr (.inl ⟨warning, rfl, rfl⟩)
  | write path text =>
    simp only [perform] at h
    split at h
    · rename_i files hwrite
      cases h
      exact .inr (.inr ⟨path, text, true, files, rfl, hwrite, rfl⟩)
    · rename_i files hwrite
      cases h
      rcases FileSystem.writeIfChanged_cases hwrite with ⟨-, rfl, -⟩ | ⟨hfalse, -⟩
      · exact .inr (.inr ⟨path, text, false, _, rfl, hwrite, rfl⟩)
      · cases hfalse
    · cases h
  | giveUp e => cases h
  | saveCache c => exact ha.elim

/-- An output action that succeeds leaves what it says and changes no other content. -/
theorem perform_ok {g : Generator} {p q : Progress} {a : Action} (ha : a.IsOutput g)
    (h : g.perform p a = (q, none)) :
    q.world.memory = p.world.memory ∧
      p.world.files.KeepsDirectories q.world.files ∧
      ∀ l, q.world.files.content? l =
        (a.leaves p.world.files.working l).or (p.world.files.content? l) := by
  obtain ⟨path, files, rfl, hfiles, rfl⟩ | ⟨warning, rfl, rfl⟩ |
    ⟨path, text, changed, files, rfl, hwrite, rfl⟩ := perform_cases ha h
  · refine ⟨rfl, FileSystem.keepsDirectories_ensureDirectory hfiles, fun l => ?_⟩
    show files.content? l = _
    rw [FileSystem.content?_ensureDirectory hfiles]
    rfl
  · exact ⟨rfl, .refl _, fun l => rfl⟩
  · refine ⟨rfl, FileSystem.keepsDirectories_writeIfChanged hwrite, fun l => ?_⟩
    show files.content? l = _
    rw [FileSystem.puts_of_writeIfChanged hwrite l, Action.leaves]
    by_cases hl : l = Path.location p.world.files.working path
    · simp [hl]
    · simp [hl, Ne.symm hl]

/-- An output action that fails changes nothing. -/
theorem perform_failed {g : Generator} {p q : Progress} {a : Action} {e : RunError}
    (ha : a.IsOutput g) (h : g.perform p a = (q, some e)) : q = p := by
  cases a with
  | makeDirectory path =>
    simp only [perform] at h
    split at h <;> cases h
    rfl
  | warn warning => cases h
  | write path text =>
    simp only [perform] at h
    split at h <;> cases h
    rfl
  | giveUp e => cases h; rfl
  | saveCache c => exact ha.elim

/-- **Performing output actions leaves what was written last.** -/
theorem content?_performAll {g : Generator} {as : List Action} {p q : Progress}
    (has : ∀ a ∈ as, a.IsOutput g) (h : g.performAll p as = (q, none)) :
    q.world.memory = p.world.memory ∧
      p.world.files.KeepsDirectories q.world.files ∧
      ∀ l, q.world.files.content? l =
        (Action.leavesAll p.world.files.working l as).or (p.world.files.content? l) := by
  induction as generalizing p with
  | nil => cases h; exact ⟨rfl, .refl _, fun l => rfl⟩
  | cons a rest ih =>
    unfold performAll at h
    split at h
    · rename_i r hr
      obtain ⟨hmemory, hkeep, hcontent⟩ := perform_ok (has a (List.mem_cons_self ..)) hr
      obtain ⟨hmemories, hkeeps, hcontents⟩ :=
        ih (fun b hb => has b (List.mem_cons_of_mem _ hb)) h
      refine ⟨hmemories.trans hmemory, hkeep.trans hkeeps, fun l => ?_⟩
      rw [hcontents, hcontent, hkeep.working, Action.leavesAll, Option.or_assoc]
    · cases h

/-- Where output actions fail, those before the one that failed are performed and nothing else. -/
theorem performAll_failed {g : Generator} {as : List Action} {p q : Progress} {e : RunError}
    (has : ∀ a ∈ as, a.IsOutput g) (h : g.performAll p as = (q, some e)) :
    ∃ done, done <+: as ∧ g.performAll p done = (q, none) := by
  induction as generalizing p with
  | nil => cases h
  | cons a rest ih =>
    unfold performAll at h
    split at h
    · rename_i r hr
      obtain ⟨done, hdone, hperformed⟩ := ih (fun b hb => has b (List.mem_cons_of_mem _ hb)) h
      refine ⟨a :: done, List.cons_prefix_cons.mpr ⟨rfl, hdone⟩, ?_⟩
      simp only [performAll, hr, hperformed]
    · rename_i hr
      cases h
      obtain rfl := perform_failed (has a (List.mem_cons_self ..)) hr
      exact ⟨[], List.nil_prefix, rfl⟩

/-- Actions that all succeed give up nowhere. -/
theorem not_giveUp_of_performAll {g : Generator} {as : List Action} {p q : Progress}
    (h : g.performAll p as = (q, none)) (e : RenderError) : Action.giveUp e ∉ as := by
  induction as generalizing p with
  | nil => exact List.not_mem_nil
  | cons a rest ih =>
    unfold performAll at h
    split at h
    · rename_i r hr
      intro hmem
      rcases List.mem_cons.mp hmem with rfl | hrest
      · cases hr
      · exact ih h hrest
    · cases h

end Generator

/-! ## The stored blob -/

namespace CachePlace

/-- The location of the file with the blob, with paths taken from `home`. -/
def location? (home : Location) : CachePlace → Option Location
  | .inMemory => none
  | .inDirectory base => some (Path.location home (fileOf base cacheKey))

/-- The blob that is stored. -/
def blob? (w : World) : CachePlace → Option Bytes
  | .inMemory => w.memory.find? cacheKey
  | .inDirectory base =>
    w.files.content? (Path.location w.files.working (fileOf base cacheKey))

/-- Loading changes neither the files nor the blob, and what is loaded is the blob. -/
theorem load_spec (place : CachePlace) (w : World) :
    (place.load cacheKey w).2.files = w.files ∧
      place.blob? (place.load cacheKey w).2 = place.blob? w ∧
      ∀ blob, (place.load cacheKey w).1 = .ok blob → place.blob? w = some blob := by
  cases place with
  | inMemory =>
    refine ⟨rfl, ?_, fun blob h => ?_⟩
    · unfold load
      simp only [blob?, MemoryStore.load]
      split_ifs
      · rfl
      · split <;> rfl
    · unfold load at h
      simp only [MemoryStore.load] at h
      split_ifs at h
      split at h
      · rename_i found hfound
        cases h
        exact hfound
      · cases h
  | inDirectory base =>
    have hsame : ((CachePlace.inDirectory base).load cacheKey w).2 = w := by
      unfold load
      dsimp only
      split <;> rfl
    refine ⟨by rw [hsame], by rw [hsame], fun blob h => ?_⟩
    unfold load at h
    dsimp only at h
    split at h
    · rename_i found hfound
      cases h
      exact FileSystem.content?_of_read hfound
    · cases h
    · cases h

/-- What saving does to the files: it makes a directory, writes the blob there, or fails before. -/
theorem keepsDirectories_save (place : CachePlace) (blob : Bytes) (w : World) :
    w.files.KeepsDirectories (place.save cacheKey blob w).2.files := by
  cases place with
  | inMemory => exact .refl _
  | inDirectory base =>
    simp only [save, saveIn]
    split
    · exact .refl _
    · rename_i made hmade
      have hdir := FileSystem.keepsDirectories_ensureDirectory hmade
      split
      · exact hdir
      · rename_i written hwritten
        exact hdir.trans (FileSystem.keepsDirectories_write hwritten)

/-- Saving stores the blob or leaves the one before; all other contents stay. -/
theorem save_spec (place : CachePlace) (blob : Bytes) (w : World) :
    ((place.save cacheKey blob w).1 = .ok () ∧
        place.blob? (place.save cacheKey blob w).2 = some blob ∨
      (∃ e, (place.save cacheKey blob w).1 = .error e) ∧
        place.blob? (place.save cacheKey blob w).2 = place.blob? w) ∧
      ∀ l, place.location? w.files.working ≠ some l →
        (place.save cacheKey blob w).2.files.content? l = w.files.content? l := by
  cases place with
  | inMemory =>
    refine ⟨?_, fun l _ => rfl⟩
    simp only [save, blob?, MemoryStore.save]
    split_ifs
    · exact .inr ⟨⟨_, rfl⟩, rfl⟩
    · exact .inl ⟨rfl, by simp [MemoryStore.put, MemoryStore.find?]⟩
  | inDirectory base =>
    simp only [save, blob?, location?]
    cases hdir : w.files.ensureDirectory base with
    | error e =>
      have hsave : saveIn base cacheKey blob w = (.error (.io e), w) := by simp [saveIn, hdir]
      rw [hsave]
      exact ⟨.inr ⟨⟨_, rfl⟩, rfl⟩, fun l _ => rfl⟩
    | ok made =>
      have hmade := FileSystem.content?_ensureDirectory hdir
      have hworking := (FileSystem.keepsDirectories_ensureDirectory hdir).working
      cases hwrite : made.write (fileOf base cacheKey) blob with
      | error e =>
        have hsave : saveIn base cacheKey blob w = (.error (.io e), { w with files := made }) := by
          simp [saveIn, hdir, hwrite]
        rw [hsave]
        exact ⟨.inr ⟨⟨_, rfl⟩, by rw [hmade, hworking]⟩, fun l _ => congrFun hmade l⟩
      | ok written =>
        have hsave : saveIn base cacheKey blob w = (.ok (), { w with files := written }) := by
          simp [saveIn, hdir, hwrite]
        have hput := FileSystem.puts_of_write hwrite
        rw [hsave, ← hworking]
        refine ⟨.inl ⟨rfl, ?_⟩, fun m hm => ?_⟩
        · rw [(FileSystem.keepsDirectories_write hwrite).working, hput, if_pos rfl]
        · have hne : m ≠ Path.location made.working (fileOf base cacheKey) :=
            fun h => hm (by rw [h])
          rw [hput m, if_neg hne, hmade]

theorem blob?_of_save {place : CachePlace} {blob : Bytes} {w after : World}
    (hsave : place.save cacheKey blob w = (.ok (), after)) : place.blob? after = some blob := by
  obtain ⟨hsaved, -⟩ := place.save_spec blob w
  rw [hsave] at hsaved
  rcases hsaved with ⟨-, hstored⟩ | ⟨⟨e, herror⟩, -⟩
  · exact hstored
  · cases herror

end CachePlace

namespace Generator

/-- Output actions leave the blob alone, whether they fail or not. -/
theorem blob?_performAll {g : Generator} {as : List Action} {p q : Progress}
    {failure : Option RunError} (has : ∀ a ∈ as, a.IsOutput g)
    (h : g.performAll p as = (q, failure)) (place : CachePlace) :
    place.blob? q.world = place.blob? p.world := by
  have hdone (done : List Action) (hsub : ∀ a ∈ done, a.IsOutput g)
      (hperformed : g.performAll p done = (q, none)) :
      place.blob? q.world = place.blob? p.world := by
    obtain ⟨hmemory, hkeep, hcontent⟩ := content?_performAll hsub hperformed
    cases place with
    | inMemory => rw [CachePlace.blob?, hmemory]; rfl
    | inDirectory base =>
      rw [CachePlace.blob?, CachePlace.blob?, hkeep.working, hcontent,
        Action.leavesAll_eq_none fun a ha => (hsub a ha).leaves_cacheFile _ base]
      rfl
  cases failure with
  | none => exact hdone as has h
  | some e =>
    obtain ⟨done, hpart, hperformed⟩ := performAll_failed has h
    exact hdone done (fun a ha => has a (hpart.subset ha)) hperformed

end Generator

end HeaderReflect
