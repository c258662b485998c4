import HeaderReflect.Proofs.Blob.Nesting
import HeaderReflect.Proofs.FileSystem.Content
import HeaderReflect.World

/-!
A cache that is saved and loaded again. It comes back as it was if its nesting stays within the
limit, and any deeper one counts as none (`Cache.load_saved`). A blob says by itself where it ends:
no part of it that is cut short passes for a cache, and what stands behind it makes no difference
(`Cache.blob_selfDelimiting`).
-/

namespace HeaderReflect

/-! ## Stores -/

theorem MemoryStore.find?_put (s : MemoryStore) (key : String) (blob : Bytes) :
    (s.put key blob).find? key = some blob := by
  rw [put, find?, List.lookup_cons_self]

/-- What saving has done where it succeeds: the store works and has put the blob, or the directory is
made and the file in it written. -/
theorem CachePlace.save_cases {place : CachePlace} {blob : Bytes} {w v : World}
    (hsave : place.save cacheKey blob w = (.ok (), v)) :
    (place = .inMemory ∧ w.memory.failSaves = false ∧
        v = { w with memory := { w.memory with saves := w.memory.saves + 1 }.put cacheKey blob }) ∨
      ∃ base made written, place = .inDirectory base ∧ w.files.ensureDirectory base = .ok made ∧
        made.write (fileOf base cacheKey) blob = .ok written ∧ v = { w with files := written } := by
  cases place with
  | inMemory =>
    simp only [save, MemoryStore.save] at hsave
    split_ifs at hsave with hfail
    · cases hsave
    · cases hsave
      exact .inl ⟨rfl, Bool.eq_false_iff.mpr hfail, rfl⟩
  | inDirectory base =>
    simp only [save, saveIn] at hsave
    split at hsave
    · cases hsave
    · rename_i made hmade
      split at hsave
      · cases hsave
      · rename_i written hwritten
        cases hsave
        exact .inr ⟨base, made, written, rfl, hmade, hwritten, rfl⟩

/-- What was saved is loaded. -/
theorem CachePlace.load_of_save {place : CachePlace} {blob : Bytes} {w v : World}
    (hsave : place.save cacheKey blob w = (.ok (), v))
    (hloads : place = .inMemory → v.memory.failLoads = false) :
    (place.load cacheKey v).1 = .ok blob := by
  obtain ⟨rfl, -, rfl⟩ | ⟨base, made, written, rfl, -, hwritten, rfl⟩ := save_cases hsave
  · simp only [load, MemoryStore.load]
    rw [if_neg (Bool.eq_false_iff.mp (hloads rfl)), MemoryStore.find?_put]
  · simp only [load, FileSystem.read_of_write hwritten]

/-! ## Caches -/

namespace Cache

theorem ofLoaded_of_ne_nil {blob : Bytes} (h : blob ≠ []) :
    ofLoaded (.ok blob) = ((Blob.decode blob).mapError .decode).map some := by
  cases blob with
  | nil => exact absurd rfl h
  | cons b rest => rfl

theorem startFrom_of_unreadable {blob : Bytes} (h : blob ≠ []) {fault : Blob.Fault}
    (hfault : Blob.decode blob = .error fault) (fingerprint : String) :
    startFrom fingerprint (.ok blob) = .ok (empty fingerprint, [.unreadableBlob]) := by
  rw [startFrom, ofLoaded_of_ne_nil h, hfault]
  rfl

theorem ofCache_ne_nil (c : Cache) : Blob.ofCache c ≠ [] :=
  List.ne_nil_of_length_pos (Blob.length_ofValue_pos _)

/-- **A saved cache is loaded as it was exactly if its nesting stays within the limit.** Any deeper
one is found too deep, and a run starts from nothing. The blob has to be addressable by words of 64
bits. -/
theorem load_saved {c : Cache} (hs : c.entries.Sorted)
    (hshort : (Blob.ofCache c).length < UInt64.size) {place : CachePlace} {w v : World}
    (hsave : place.save cacheKey (Blob.ofCache c) w = (.ok (), v))
    (hloads : place = .inMemory → v.memory.failLoads = false) :
    (ofLoaded (place.load cacheKey v).1 = .ok (some c) ↔ c.nesting ≤ Blob.nestingLimit) ∧
      (Blob.nestingLimit < c.nesting →
        ofLoaded (place.load cacheKey v).1 = .error (.decode .tooDeep) ∧
        ∀ fingerprint, startFrom fingerprint (place.load cacheKey v).1 =
          .ok (empty fingerprint, [.unreadableBlob])) := by
  have hdecode := Blob.decode_ofCache_append hs hshort []
  rw [List.append_nil] at hdecode
  rw [CachePlace.load_of_save hsave hloads, ofLoaded_of_ne_nil c.ofCache_ne_nil, hdecode]
  by_cases hdeep : c.nesting ≤ Blob.nestingLimit
  · rw [if_pos hdeep]
    exact ⟨iff_of_true rfl hdeep, fun h => absurd hdeep (Nat.not_le.mpr h)⟩
  · rw [if_neg hdeep] at hdecode ⊢
    refine ⟨iff_of_false (fun h => nomatch h) hdeep, fun _ => ⟨rfl, fun fingerprint => ?_⟩⟩
    exact startFrom_of_unreadable c.ofCache_ne_nil hdecode fingerprint

namespace Sample

/-- A class inside so many namespaces. -/
def nested : Nat → Decl
  | 0 => .classDecl "A" .none {} []
  | n + 1 => .namespaceDecl "n" .none [nested n]

/-- A cache of one header with such a tree. -/
def holding (n : Nat) : Cache := ⟨"f", [("a.h", ⟨⟨1, 0⟩, nested n⟩)]⟩

theorem sorted_holding (n : Nat) : (holding n).entries.Sorted :=
  List.pairwise_singleton ..

/-- A world without files in which the cache was saved. -/
def saved (c : Cache) : World :=
  (CachePlace.inMemory.save cacheKey (Blob.ofCache c) { files := .empty 0 }).2

theorem save_inMemory (c : Cache) :
    CachePlace.inMemory.save cacheKey (Blob.ofCache c) { files := .empty 0 } = (.ok (), saved c) :=
  rfl

theorem toValue_nested (n : Nat) :
    (nested (n + 1)).toValue =
      .object [("Namespace", .object
        [("name", .text "n"), ("attrs", Attributes.none.toValue),
         ("children", .list [(nested n).toValue])])] := by
  simp only [nested, Decl.toValue, Decl.body, Decl.toValues, Decl.kind, Kind.tag]

/-- Every namespace takes 106 bytes. -/
theorem length_nested (n : Nat) :
    (Blob.ofValue (nested n).toValue).length = 106 * n + (Blob.ofValue (nested 0).toValue).length := by
  induction n with
  | zero => rw [Nat.mul_zero, Nat.zero_add]
  | succ n ih =>
    have htag : (Blob.ofText "Namespace").length = 10 := by decide +kernel
    have hname : (Blob.ofText "name").length + (Blob.ofText "n").length = 7 := by decide +kernel
    have hattrs : (Blob.ofText "attrs").length +
        (Blob.ofValue Attributes.none.toValue).length = 77 := by decide +kernel
    have hchildren : (Blob.ofText "children").length = 9 := by decide +kernel
    rw [toValue_nested]
    simp (disch := decide) only [Blob.ofValue, Blob.ofNamedValues, Blob.ofFields, Blob.ofList,
      Blob.ofValues, Blob.length_head_of_lt, List.flatMap_cons, List.flatMap_nil, List.flatten_cons,
      List.flatten_nil, List.length_append, List.length_cons, List.length_nil, ih]
    omega

theorem length_holding (n : Nat) :
    (Blob.ofCache (holding n)).length = 54 + (Blob.ofValue (nested n).toValue).length := by
  have hfingerprint : (Blob.ofText "fingerprint").length + (Blob.ofText "f").length = 14 := by
    decide +kernel
  have hentries : (Blob.ofText "entries").length + (Blob.ofText "a.h").length = 12 := by
    decide +kernel
  have hstamp : (Blob.ofText "stamp").length +
      (Blob.ofValue (Stamp.toValue ⟨1, 0⟩)).length = 20 := by decide +kernel
  have hroot : (Blob.ofText "root").length = 5 := by decide +kernel
  simp (disch := decide) only [Blob.ofCache, holding, toValue, CacheEntry.toValue, List.map_cons,
    List.map_nil, Blob.ofValue, Blob.ofNamedValues, Blob.ofFields, Blob.length_head_of_lt,
    List.flatMap_cons, List.flatMap_nil, List.length_append, List.length_cons, List.length_nil]
  omega

theorem length_ofCache_holding_lt {n : Nat} (hn : n < 1000) :
    (Blob.ofCache (holding n)).length < UInt64.size := by
  have hinner : (Blob.ofValue (nested 0).toValue).length < 1000 := by decide +kernel
  have hsize : 1000000 < UInt64.size := by decide
  rw [length_holding, length_nested]
  omega

end Sample

open Sample

/-- A class inside of 83 namespaces is at the limit, and one more makes it too deep. -/
theorem load_saved_nested :
    (holding 83).nesting = Blob.nestingLimit ∧
      ofLoaded (CachePlace.inMemory.load cacheKey (saved (holding 83))).1 =
        .ok (some (holding 83)) ∧
      (holding 84).nesting = Blob.nestingLimit + 3 ∧
      ofLoaded (CachePlace.inMemory.load cacheKey (saved (holding 84))).1 =
        .error (.decode .tooDeep) ∧
      startFrom "g" (CachePlace.inMemory.load cacheKey (saved (holding 84))).1 =
        .ok (empty "g", [.unreadableBlob]) := by
  have hat : (holding 83).nesting = Blob.nestingLimit := by decide +kernel
  have hbeyond : (holding 84).nesting = Blob.nestingLimit + 3 := by decide +kernel
  have hread := load_saved (sorted_holding 83) (length_ofCache_holding_lt (by decide))
    (save_inMemory _) fun _ => rfl
  have hlost := load_saved (sorted_holding 84) (length_ofCache_holding_lt (by decide))
    (save_inMemory _) fun _ => rfl
  obtain ⟨herror, hstart⟩ := hlost.2 (by omega)
  exact ⟨hat, hread.1.mpr (Nat.le_of_eq hat), hbeyond, herror, hstart "g"⟩

/-- **A blob says by itself where it ends.** A store that holds less of it than the whole counts as
empty, and a whole one is read whatever stands behind it. -/
theorem blob_selfDelimiting {c : Cache} (hs : c.entries.Sorted) :
    (∀ (place : CachePlace) (w : World) (part : Bytes), part <+: Blob.ofCache c →
        part ≠ Blob.ofCache c → (place.load cacheKey w).1 = .ok part →
        ∀ fingerprint, startFrom fingerprint (place.load cacheKey w).1 =
          .ok (empty fingerprint, if part = [] then [] else [.unreadableBlob])) ∧
      ((Blob.ofCache c).length < UInt64.size → c.nesting ≤ Blob.nestingLimit →
        ∀ rest, Blob.decode (Blob.ofCache c ++ rest) = .ok c) := by
  refine ⟨fun place w part hpart hne hload fingerprint => ?_, fun hshort hdeep rest => ?_⟩
  · rw [hload]
    split_ifs with hnil
    · rw [hnil]
      rfl
    · have hcut : part.length < (Blob.ofCache c).length :=
        Nat.lt_of_le_of_ne hpart.length_le fun h => hne (hpart.eq_of_length h)
      obtain ⟨fault, hfault⟩ := Blob.decode_part hs hpart hcut
      exact startFrom_of_unreadable hnil hfault fingerprint
  · rw [Blob.decode_ofCache_append hs hshort, if_pos hdeep]

/-- A world without files in which only so many bytes of a blob are kept. -/
def Sample.keeping (count : Nat) : World where
  files := .empty 0
  memory := { blobs := [(cacheKey, (Blob.ofCache (holding 1)).take count)] }

/-- The first hundred bytes of a longer blob are no cache. -/
theorem blob_selfDelimiting_cut :
    (∀ fingerprint, startFrom fingerprint (CachePlace.inMemory.load cacheKey (keeping 100)).1 =
        .ok (empty fingerprint, [.unreadableBlob])) ∧
      Blob.decode (Blob.ofCache (holding 1) ++ [0xF6, 0xFF]) = .ok (holding 1) := by
  have hself := blob_selfDelimiting (sorted_holding 1)
  have hlength : 160 ≤ (Blob.ofCache (holding 1)).length := by
    rw [length_holding, length_nested]
    omega
  have hcut : ((Blob.ofCache (holding 1)).take 100).length = 100 := by
    rw [List.length_take]
    omega
  have hne : (Blob.ofCache (holding 1)).take 100 ≠ Blob.ofCache (holding 1) := fun h => by
    rw [h] at hcut
    omega
  refine ⟨fun fingerprint => ?_, ?_⟩
  · rw [hself.1 .inMemory (keeping 100) _ (List.take_prefix 100 _) hne rfl,
      if_neg (List.ne_nil_of_length_pos (by omega))]
  · exact hself.2 (length_ofCache_holding_lt (by decide)) (by decide +kernel) _

end Cache

end HeaderReflect
