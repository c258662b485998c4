import HeaderReflect.FileSystem.Basic
import Mathlib.Tactic.SplitIfs

/-!
The file system seen as the contents of its files by location. A path that can be followed leads
to the location its pieces name (`Path.location`), so a write changes the content at one location,
known from the path and the working directory alone, where it can be read back (`read_of_write`),
and making directories changes no content.
-/

namespace HeaderReflect

/-! ## The location of a path -/

namespace Path

/-- Where the pieces of a path lead to if every step can be taken. -/
def walk : Location → List String → Location
  | location, [] => location
  | location, piece :: rest =>
    if piece = "" ∨ piece = "." then walk location rest
    else if piece = ".." then walk location.dropLast rest
    else walk (location ++ [piece]) rest

/-- The location that a path names, taken from `home`. -/
def location (home : Location) (path : String) : Location :=
  walk (startFrom home path) (pieces path)

theorem walk_append (location : Location) (front back : List String) :
    walk location (front ++ back) = walk (walk location front) back := by
  induction front generalizing location with
  | nil => rfl
  | cons piece front ih =>
    simp only [List.cons_append, walk]
    split_ifs
    · exact ih _
    · exact ih _
    · exact ih _

/-- A name that stands for a file of its directory. -/
structure IsFileName (name : String) : Prop where
  ne_empty : name ≠ ""
  ne_here : name ≠ "."
  ne_up : name ≠ ".."
  noSeparator : '/' ∉ name.toList

theorem IsFileName.walk {name : String} (h : IsFileName name) (location : Location) :
    walk location [name] = location ++ [name] := by
  simp [Path.walk, h.ne_empty, h.ne_here, h.ne_up]

theorem not_isAbsolute_of_noSeparator {name : String} (h : '/' ∉ name.toList) :
    isAbsolute name = false := by
  cases hname : name.toList with
  | nil => simp [isAbsolute, hname]
  | cons c cs =>
    have hc : c ≠ '/' := by
      rintro rfl
      exact h (by simp [hname])
    simp [isAbsolute, hname, hc]

theorem pieces_of_noSeparator {name : String} (h : '/' ∉ name.toList) : pieces name = [name] := by
  have hone : name.toList.splitOnP (· == '/') = [name.toList] :=
    List.splitOnP_eq_singleton fun c hc => by simpa using ne_of_mem_of_not_mem hc h
  simp [pieces, hone]

/-- The pieces of a directory as they stand in front of what lies below it. -/
def dirPieces (dir : String) : List String :=
  if dir = "" then []
  else if dir.toList.getLast? = some '/' then pieces (String.ofList dir.toList.dropLast)
  else pieces dir

theorem pieces_append_separator (front back : List Char) :
    pieces (String.ofList (front ++ '/' :: back)) =
      pieces (String.ofList front) ++ pieces (String.ofList back) := by
  simp only [pieces, String.toList_ofList, ← List.map_append]
  rw [List.splitOnP_append_cons _ _ (by decide)]

/-- What lies below a directory adds its own pieces to those of the directory. -/
theorem pieces_join (dir : String) {path : String} (h : isAbsolute path = false) :
    pieces (join dir path) = dirPieces dir ++ pieces path := by
  rw [join, h, if_neg Bool.false_ne_true, dirPieces]
  by_cases hempty : dir = ""
  · simp [hempty]
  by_cases hsep : dir.toList.getLast? = some '/'
  · rw [if_pos (.inr hsep), if_neg hempty, if_pos hsep]
    obtain ⟨front, hfront⟩ := List.getLast?_eq_some_iff.mp hsep
    have hpath : dir ++ path = String.ofList (front ++ '/' :: path.toList) := by
      rw [← String.toList_inj, String.toList_append, hfront]
      simp
    rw [hpath, pieces_append_separator, hfront, List.dropLast_concat, String.ofList_toList]
  · rw [if_neg (by simp [hempty, hsep]), if_neg hempty, if_neg hsep]
    have hpath : dir ++ "/" ++ path = String.ofList (dir.toList ++ '/' :: path.toList) := by
      rw [← String.toList_inj]
      simp
    rw [hpath, pieces_append_separator, String.ofList_toList, String.ofList_toList]

/-- The location of a directory as it stands in front of a name. -/
def directory (home : Location) (dir : String) : Location :=
  walk (startFrom home dir) (dirPieces dir)

theorem isAbsolute_join (dir : String) {path : String} (h : isAbsolute path = false) :
    isAbsolute (join dir path) = isAbsolute dir := by
  have hfront (front back : List Char) (hne : front ≠ []) :
      ((front ++ back).head? == some '/') = (front.head? == some '/') := by
    cases front with
    | nil => exact absurd rfl hne
    | cons c front => rfl
  rw [join, h, if_neg Bool.false_ne_true]
  by_cases hempty : dir = ""
  · rw [if_pos (.inl hempty), hempty, String.empty_append, h]
    rfl
  · have hne : dir.toList ≠ [] := by simpa using hempty
    split_ifs
    · rw [isAbsolute, String.toList_append, hfront _ _ hne, isAbsolute]
    · rw [isAbsolute, String.toList_append, String.toList_append, List.append_assoc,
        hfront _ _ hne, isAbsolute]

/-- A file lies directly in the location of its directory. -/
theorem location_join (home : Location) (dir : String) {name : String} (h : IsFileName name) :
    location home (join dir name) = directory home dir ++ [name] := by
  have hrelative := not_isAbsolute_of_noSeparator h.noSeparator
  rw [location, startFrom, isAbsolute_join dir hrelative, pieces_join dir hrelative,
    pieces_of_noSeparator h.noSeparator, walk_append, h.walk]
  rfl

/-- Files of different names lie in different places, whatever their directories are. -/
theorem location_join_ne {name other : String} (hname : IsFileName name) (hother : IsFileName other)
    (hne : name ≠ other) (home : Location) (dir place : String) :
    location home (join dir name) ≠ location home (join place other) := by
  rw [location_join home dir hname, location_join home place hother]
  intro h
  exact hne (List.singleton_inj.mp (List.append_inj_right' h rfl))

end Path

namespace FileSystem

/-- A path that can be followed leads where its pieces say. -/
theorem walk_of_follow {fs : FileSystem} {start l : Location} {pieces : List String}
    (h : fs.follow start pieces = .ok l) : Path.walk start pieces = l := by
  induction pieces generalizing start with
  | nil => cases h; rfl
  | cons piece rest ih =>
    unfold follow at h
    cases hdir : fs.requireDirectory start with
    | error e => rw [hdir] at h; cases h
    | ok u =>
      rw [hdir] at h
      simp only [Path.walk]
      change (if _ then _ else _) = _ at h
      split_ifs at h ⊢
      · exact ih h
      · exact ih h
      · exact ih h

theorem location_of_locate {fs : FileSystem} {path : String} {l : Location}
    (h : fs.locate path = .ok l) : Path.location fs.working path = l := by
  unfold locate at h
  split at h
  · cases h
  · exact walk_of_follow h

/-! ## Contents -/

end FileSystem

def FileEntry.content? : FileEntry → Option Bytes
  | .file content _ => some content
  | .directory _ => none

namespace FileSystem

/-- The content of the file at a location. -/
def content? (fs : FileSystem) (l : Location) : Option Bytes :=
  (fs.lookup? l).bind FileEntry.content?

@[simp] theorem content?_tick (fs : FileSystem) : fs.tick.content? = fs.content? := rfl

theorem content?_set (fs : FileSystem) (location l : Location) (e : FileEntry) :
    (fs.set location e).content? l = if l = location then e.content? else fs.content? l := by
  rw [content?, lookup?_set]
  split_ifs <;> rfl

@[simp] theorem content?_mark (fs : FileSystem) (location : Location) :
    (fs.mark location).content? = fs.content? := by
  funext l
  unfold mark
  split
  · rename_i t ht
    rw [content?_set]
    split_ifs with hl
    · rw [content?, hl, ht]
      rfl
    · rfl
  · rfl

theorem content?_add (fs : FileSystem) (location l : Location) (e : FileEntry) :
    (fs.add location e).content? l = if l = location then e.content? else fs.content? l := by
  rw [add, content?_tick, content?_mark, content?_set]

/-- After `fs` there is this content at the location, and everywhere else what was there before. -/
def Puts (fs after : FileSystem) (location : Location) (content : Bytes) : Prop :=
  ∀ l, after.content? l = if l = location then some content else fs.content? l

/-- A write that succeeds replaces the file at the location of its path, or adds one there. -/
theorem write_cases {fs after : FileSystem} {path : String} {content : Bytes}
    (h : fs.write path content = .ok after) :
    ∃ l, fs.locate path = .ok l ∧
      ((∃ old t, fs.lookup? l = some (.file old t) ∧
          after = (fs.set l (.file content fs.clock)).tick) ∨
        (fs.lookup? l = none ∧ after = fs.add l (.file content fs.clock))) := by
  unfold write at h
  split at h
  · cases hl : fs.locate (dropSeparators path) with
    | error e => rw [hl] at h; cases h
    | ok l => rw [hl] at h; cases h
  · cases hl : fs.locate path with
    | error e => rw [hl] at h; cases h
    | ok l =>
      rw [hl] at h
      refine ⟨l, rfl, ?_⟩
      simp only [bind, Except.bind] at h
      split at h
      · cases h
      · rename_i old t hold
        cases h
        exact .inl ⟨old, t, hold, rfl⟩
      · rename_i hnone
        cases h
        exact .inr ⟨hnone, rfl⟩

/-- A write changes the content at the location of its path. -/
theorem puts_of_write {fs after : FileSystem} {path : String} {content : Bytes}
    (h : fs.write path content = .ok after) :
    fs.Puts after (Path.location fs.working path) content := by
  obtain ⟨l, hl, hafter⟩ := write_cases h
  rw [location_of_locate hl]
  intro m
  rcases hafter with ⟨old, t, -, rfl⟩ | ⟨-, rfl⟩
  · rw [content?_tick, content?_set]
    rfl
  · rw [content?_add]
    rfl

/-- What is read lies where its path leads. -/
theorem locate_of_read {fs : FileSystem} {path : String} {content : Bytes}
    (h : fs.read path = .ok content) :
    ∃ l, fs.locate path = .ok l ∧ fs.content? l = some content := by
  unfold read stat at h
  cases hl : fs.locate path with
  | error e => rw [hl] at h; cases h
  | ok l =>
    rw [hl] at h
    refine ⟨l, rfl, ?_⟩
    simp only [bind, Except.bind] at h
    rw [content?]
    cases he : fs.lookup? l with
    | none => rw [he] at h; cases h
    | some e =>
      rw [he] at h
      cases e with
      | file c t => cases h; rfl
      | directory t => cases h

theorem content?_of_read {fs : FileSystem} {path : String} {content : Bytes}
    (h : fs.read path = .ok content) :
    fs.content? (Path.location fs.working path) = some content := by
  obtain ⟨l, hl, hcontent⟩ := locate_of_read h
  rw [location_of_locate hl, hcontent]

/-- A write to a file either finds the content there or takes place. -/
theorem writeIfChanged_cases {fs after : FileSystem} {path : String} {content : Bytes}
    {written : Bool} (h : fs.writeIfChanged path content = .ok (written, after)) :
    (written = false ∧ after = fs ∧ fs.read path = .ok content) ∨
      (written = true ∧ fs.write path content = .ok after) := by
  have hwritten (hw : writeIfChanged.written fs path content = .ok (written, after)) :
      written = true ∧ fs.write path content = .ok after := by
    unfold writeIfChanged.written at hw
    cases hr : fs.write path content with
    | error e => rw [hr] at hw; cases hw
    | ok made => rw [hr] at hw; cases hw; exact ⟨rfl, rfl⟩
  unfold writeIfChanged at h
  split at h
  · rename_i old hold
    split at h
    · rename_i heq
      cases h
      exact .inl ⟨rfl, rfl, heq ▸ hold⟩
    · exact .inr (hwritten h)
  · exact .inr (hwritten h)

/-- Also a write that finds its content in place leaves it there. -/
theorem puts_of_writeIfChanged {fs after : FileSystem} {path : String} {content : Bytes}
    {written : Bool} (h : fs.writeIfChanged path content = .ok (written, after)) :
    fs.Puts after (Path.location fs.working path) content := by
  rcases writeIfChanged_cases h with ⟨-, rfl, hread⟩ | ⟨-, hwrite⟩
  · intro m
    split_ifs with hm
    · rw [hm, content?_of_read hread]
    · rfl
  · exact puts_of_write hwrite

theorem content?_makeDirectory {fs after : FileSystem} {path : String}
    (h : fs.makeDirectory path = .ok after) : after.content? = fs.content? := by
  unfold makeDirectory at h
  cases hl : fs.locate (dropSeparators path) with
  | error e => rw [hl] at h; cases h
  | ok l =>
    rw [hl] at h
    simp only [bind, Except.bind] at h
    split at h
    · cases h
    · rename_i hnone
      cases h
      funext m
      rw [content?_add]
      split_ifs with hm
      · rw [hm, content?, hnone]
        rfl
      · rfl

theorem content?_makeDirectories {paths : List String} {fs after : FileSystem}
    (h : makeDirectories paths fs = .ok after) : after.content? = fs.content? := by
  induction paths generalizing fs after with
  | nil => cases h; rfl
  | cons path above ih =>
    unfold makeDirectories at h
    split at h
    · cases h; rfl
    split at h
    · rename_i made hmade
      cases h
      exact content?_makeDirectory hmade
    · cases habove : makeDirectories above fs with
      | error e => rw [habove] at h; cases h
      | ok below =>
        rw [habove] at h
        simp only [bind, Except.bind] at h
        split at h
        · rename_i made hmade
          cases h
          rw [content?_makeDirectory hmade, ih habove]
        · split_ifs at h
          cases h
          exact ih habove
    · split_ifs at h
      cases h
      rfl

theorem content?_ensureDirectory {fs after : FileSystem} {path : String}
    (h : fs.ensureDirectory path = .ok after) : after.content? = fs.content? :=
  content?_makeDirectories h

/-! ## Reading back -/

/-- What is a directory in the one file system is one in the other, and relative paths start in the
same place. -/
structure KeepsDirectories (fs after : FileSystem) : Prop where
  working : after.working = fs.working
  directory : ∀ l t, fs.lookup? l = some (.directory t) →
    ∃ u, after.lookup? l = some (.directory u)

theorem KeepsDirectories.trans {fs between after : FileSystem} (h : fs.KeepsDirectories between)
    (hmore : between.KeepsDirectories after) : fs.KeepsDirectories after where
  working := hmore.working.trans h.working
  directory l t hl := by
    obtain ⟨u, hu⟩ := h.directory l t hl
    exact hmore.directory l u hu

theorem KeepsDirectories.follow {fs after : FileSystem} (hkeep : fs.KeepsDirectories after)
    {start l : Location} {pieces : List String} (h : fs.follow start pieces = .ok l) :
    after.follow start pieces = .ok l := by
  induction pieces generalizing start with
  | nil => exact h
  | cons piece rest ih =>
    have hdir : fs.requireDirectory start = .ok () → after.requireDirectory start = .ok () := by
      unfold requireDirectory
      intro hstart
      split at hstart
      · rename_i t ht
        obtain ⟨u, hu⟩ := hkeep.directory start t ht
        rw [hu]
      · cases hstart
      · cases hstart
    unfold FileSystem.follow at h ⊢
    cases hstart : fs.requireDirectory start with
    | error e => rw [hstart] at h; cases h
    | ok u =>
      rw [hstart] at h
      rw [hdir hstart]
      change (if _ then _ else _) = _ at h
      change (if _ then _ else _) = _
      split_ifs at h ⊢
      · exact ih h
      · exact ih h
      · exact ih h

theorem KeepsDirectories.locate {fs after : FileSystem} (hkeep : fs.KeepsDirectories after)
    {path : String} {l : Location} (h : fs.locate path = .ok l) : after.locate path = .ok l := by
  unfold FileSystem.locate at h ⊢
  rw [hkeep.working]
  split_ifs at h ⊢
  exact hkeep.follow h

theorem keepsDirectories_set {fs : FileSystem} {l : Location} {e : FileEntry}
    (hnone : ∀ t, fs.lookup? l ≠ some (.directory t)) : fs.KeepsDirectories (fs.set l e) := by
  refine ⟨rfl, fun m t hm => ?_⟩
  have hne : m ≠ l := fun h => hnone t (h ▸ hm)
  exact ⟨t, by rw [lookup?_set, if_neg hne, hm]⟩

theorem keepsDirectories_mark (fs : FileSystem) (l : Location) :
    fs.KeepsDirectories (fs.mark l) := by
  unfold mark
  split
  · refine ⟨rfl, fun m t hm => ?_⟩
    rw [lookup?_set]
    split_ifs
    · exact ⟨_, rfl⟩
    · exact ⟨t, hm⟩
  · exact ⟨rfl, fun m t hm => ⟨t, hm⟩⟩

theorem keepsDirectories_tick (fs : FileSystem) : fs.KeepsDirectories fs.tick :=
  ⟨rfl, fun _ t h => ⟨t, h⟩⟩

theorem keepsDirectories_add {fs : FileSystem} {l : Location} {e : FileEntry}
    (hnone : fs.lookup? l = none) : fs.KeepsDirectories (fs.add l e) := by
  have hset : fs.KeepsDirectories (fs.set l e) :=
    keepsDirectories_set fun u hu => by rw [hnone] at hu; cases hu
  exact (hset.trans (keepsDirectories_mark _ _)).trans (keepsDirectories_tick _)

/-- A write takes no directory away. -/
theorem keepsDirectories_write {fs after : FileSystem} {path : String} {content : Bytes}
    (h : fs.write path content = .ok after) : fs.KeepsDirectories after := by
  obtain ⟨l, -, ⟨old, t, hold, rfl⟩ | ⟨hnone, rfl⟩⟩ := write_cases h
  · have hset : fs.KeepsDirectories (fs.set l (.file content fs.clock)) :=
      keepsDirectories_set fun u hu => by rw [hold] at hu; cases hu
    exact hset.trans (keepsDirectories_tick _)
  · exact keepsDirectories_add hnone

/-- The content at the location of a path is what is read there. -/
theorem read_of_content {fs : FileSystem} {path : String} {l : Location} {content : Bytes}
    (hl : fs.locate path = .ok l) (hcontent : fs.content? l = some content) :
    fs.read path = .ok content := by
  unfold content? at hcontent
  unfold read stat
  rw [hl]
  cases hfound : fs.lookup? l with
  | none => rw [hfound] at hcontent; cases hcontent
  | some e =>
    rw [hfound] at hcontent
    cases e with
    | file old t => cases hcontent; simp [bind, Except.bind, hfound]
    | directory t => cases hcontent

/-- **What was written is read back.** -/
theorem read_of_write {fs after : FileSystem} {path : String} {content : Bytes}
    (h : fs.write path content = .ok after) : after.read path = .ok content := by
  obtain ⟨l, hlocate, -⟩ := write_cases h
  apply read_of_content ((keepsDirectories_write h).locate hlocate)
  rw [puts_of_write h l, location_of_locate hlocate, if_pos rfl]

end FileSystem

end HeaderReflect
