import HeaderReflect.Proofs.FileSystem.Directories

/-!
Trees of files. In a file system where every entry lies in a directory and goes by a proper name,
the names on the way down to an entry can be followed from any directory above it
(`IsTree.follow_down`), so that what lies below a directory is what its paths lead to.
-/

namespace HeaderReflect

instance (name : String) : Decidable (Path.IsFileName name) :=
  decidable_of_iff (name ≠ "" ∧ name ≠ "." ∧ name ≠ ".." ∧ '/' ∉ name.toList)
    ⟨fun ⟨he, hh, hu, hs⟩ => ⟨he, hh, hu, hs⟩,
      fun h => ⟨h.ne_empty, h.ne_here, h.ne_up, h.noSeparator⟩⟩

namespace FileSystem

theorem mem_of_lookup? {fs : FileSystem} {l : Location} {e : FileEntry}
    (h : fs.lookup? l = some e) : (l, e) ∈ fs.entries := by
  obtain ⟨before, behind, hentries, -⟩ := List.lookup_eq_some_iff.mp h
  simp [hentries]

theorem exists_lookup? {fs : FileSystem} {l : Location} {e : FileEntry}
    (h : (l, e) ∈ fs.entries) : ∃ found, fs.lookup? l = some found := by
  cases hl : fs.lookup? l with
  | some found => exact ⟨found, rfl⟩
  | none => simpa using List.lookup_eq_none_iff.mp hl (l, e) h

theorem requireDirectory_eq_ok {fs : FileSystem} {l : Location} {t : Time}
    (h : fs.lookup? l = some (.directory t)) : fs.requireDirectory l = .ok () := by
  rw [requireDirectory, h]

theorem directory_of_requireDirectory {fs : FileSystem} {l : Location}
    (h : fs.requireDirectory l = .ok ()) : ∃ t, fs.lookup? l = some (.directory t) := by
  unfold requireDirectory at h
  split at h
  · exact ⟨_, by assumption⟩
  · cases h
  · cases h

/-- A path can only lead to a directory from one. -/
theorem directory_of_follow {fs : FileSystem} {start l : Location} {pieces : List String}
    (h : fs.follow start pieces = .ok l) {t : Time} (ht : fs.lookup? l = some (.directory t)) :
    ∃ u, fs.lookup? start = some (.directory u) := by
  cases pieces with
  | nil =>
    cases h
    exact ⟨t, ht⟩
  | cons piece rest =>
    rw [follow] at h
    cases hdir : fs.requireDirectory start with
    | error e => rw [hdir] at h; cases h
    | ok u => exact directory_of_requireDirectory hdir

/-- One step down. -/
theorem follow_name {fs : FileSystem} {l : Location} {t : Time}
    (h : fs.lookup? l = some (.directory t)) {name : String} (hname : Path.IsFileName name)
    (rest : List String) : fs.follow l (name :: rest) = fs.follow (l ++ [name]) rest := by
  rw [follow, requireDirectory_eq_ok h]
  simp [bind, Except.bind, hname.ne_empty, hname.ne_here, hname.ne_up]

/-- Every entry goes by proper names and lies in a directory. -/
structure IsTree (fs : FileSystem) : Prop where
  named : ∀ e ∈ fs.entries, ∀ name ∈ e.1, Path.IsFileName name
  grounded : ∀ e ∈ fs.entries, e.1 = [] ∨ fs.requireDirectory e.1.dropLast = .ok ()

namespace IsTree

variable {fs : FileSystem} (htree : fs.IsTree)

include htree

theorem isFileName {l : Location} {e : FileEntry} (h : fs.lookup? l = some e) {name : String}
    (hname : name ∈ l) : Path.IsFileName name :=
  htree.named _ (mem_of_lookup? h) name hname

/-- Whatever has something below it is a directory. -/
theorem directory_above {l way : Location} (hway : way ≠ []) {e : FileEntry}
    (h : fs.lookup? (l ++ way) = some e) : ∃ t, fs.lookup? l = some (.directory t) := by
  induction way using List.reverseRecOn generalizing e with
  | nil => exact absurd rfl hway
  | append_singleton front name ih =>
    have hparent : fs.requireDirectory (l ++ front) = .ok () := by
      have hgrounded := htree.grounded _ (mem_of_lookup? h)
      rw [← List.append_assoc, List.dropLast_concat] at hgrounded
      exact hgrounded.resolve_left (by simp)
    obtain ⟨t, ht⟩ := directory_of_requireDirectory hparent
    by_cases hfront : front = []
    · rw [hfront, List.append_nil] at ht
      exact ⟨t, ht⟩
    · exact ih hfront ht

/-- **The way down to an entry can be followed.** -/
theorem follow_down {l way : Location} {e : FileEntry} (h : fs.lookup? (l ++ way) = some e) :
    fs.follow l way = .ok (l ++ way) := by
  induction way generalizing l with
  | nil => rw [follow, List.append_nil]
  | cons name rest ih =>
    obtain ⟨t, ht⟩ := htree.directory_above (List.cons_ne_nil name rest) h
    have hname : Path.IsFileName name := htree.isFileName h (by simp)
    have hnext : l ++ name :: rest = l ++ [name] ++ rest := by simp
    rw [hnext] at h ⊢
    rw [follow_name ht hname, ih h]

end IsTree

/-- What lies below a location is what the entries hold there. -/
theorem mem_below {fs : FileSystem} {l way : Location} {e : FileEntry} :
    (way, e) ∈ fs.below l ↔ way ≠ [] ∧ (l ++ way, e) ∈ fs.entries := by
  unfold below
  rw [List.mem_filterMap]
  constructor
  · rintro ⟨⟨m, f⟩, hmem, h⟩
    simp only at h
    split at h
    · cases h
    · rename_i rest hne hrest
      rw [List.isPrefixOf?_eq_some_iff_append_eq] at hrest
      cases h
      exact ⟨fun hnil => hne hnil, hrest ▸ hmem⟩
    · cases h
  · rintro ⟨hne, hmem⟩
    have hrest : l.isPrefixOf? (l ++ way) = some way :=
      List.isPrefixOf?_eq_some_iff_append_eq.mpr rfl
    obtain ⟨name, rest, rfl⟩ := List.exists_cons_of_ne_nil hne
    exact ⟨_, hmem, by simp only [hrest]⟩

theorem mem_childrenOf {fs : FileSystem} {l : Location} {name : String} {e : FileEntry} :
    (name, e) ∈ fs.childrenOf l ↔ (l ++ [name], e) ∈ fs.entries := by
  unfold childrenOf
  rw [List.mem_filterMap]
  constructor
  · rintro ⟨⟨way, f⟩, hmem, h⟩
    simp only at h
    split at h
    · cases h
      exact (mem_below.mp hmem).2
    · cases h
  · intro hmem
    exact ⟨([name], e), mem_below.mpr ⟨List.cons_ne_nil name [], hmem⟩, rfl⟩

end FileSystem

end HeaderReflect
