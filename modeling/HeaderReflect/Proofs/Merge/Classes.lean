import HeaderReflect.Proofs.Merge.Depth
import HeaderReflect.Proofs.Plan.Classes

/-!
Merging neither loses nor doubles classes: as long as no class of one side has the path of a class
of the other, the classes of a merged declaration are those of both sides.
-/

namespace HeaderReflect

namespace Decl

/-- Uniting two declarations keeps all classes of both, if their paths differ. -/
def KeepsClasses (t i r : Decl) : Prop :=
  ∀ scopes, ((t.classes scopes ++ i.classes scopes).map PlacedClass.path).Nodup →
    (r.classes scopes).Perm (t.classes scopes ++ i.classes scopes)

theorem classesAll_placeWith {unite : Unite}
    (hunite : ∀ t i r, unite t i = .ok r → KeepsClasses t i r) {scopes : List String}
    {siblings : List Decl} {d : Decl} {out : List Decl}
    (h : placeWith unite siblings d = .ok out)
    (hnodup : ((classesAll scopes siblings ++ d.classes scopes).map PlacedClass.path).Nodup) :
    (classesAll scopes out).Perm (classesAll scopes siblings ++ d.classes scopes) := by
  obtain ⟨-, ⟨-, rfl⟩ | ⟨before, s, after, r, rfl, -, -, hu, rfl⟩⟩ := placeWith_cases h
  · simp [classesAll_append, classesAll]
  · simp only [classesAll_append, classesAll] at hnodup ⊢
    have hsub : (s.classes scopes ++ d.classes scopes).Sublist
        (classesAll scopes before ++ (s.classes scopes ++ classesAll scopes after)
          ++ d.classes scopes) := by
      refine List.Sublist.append ?_ (List.Sublist.refl _)
      exact (List.sublist_append_left ..).trans (List.sublist_append_right ..)
    have hr := hunite s d r hu scopes (hnodup.sublist (hsub.map _))
    -- The classes of `d` move past those of the siblings behind `s`.
    calc (classesAll scopes before ++ (r.classes scopes ++ classesAll scopes after)).Perm
          (classesAll scopes before ++
            ((s.classes scopes ++ d.classes scopes) ++ classesAll scopes after)) :=
          (hr.append_right _).append_left _
      _ = classesAll scopes before ++
            (s.classes scopes ++ (d.classes scopes ++ classesAll scopes after)) := by
          rw [List.append_assoc]
      _ |>.Perm (classesAll scopes before ++
            (s.classes scopes ++ (classesAll scopes after ++ d.classes scopes))) :=
          (List.perm_append_comm.append_left _).append_left _
      _ = classesAll scopes before ++ (s.classes scopes ++ classesAll scopes after)
            ++ d.classes scopes := by
          simp only [List.append_assoc]

theorem classesAll_placeAllWith {unite : Unite}
    (hunite : ∀ t i r, unite t i = .ok r → KeepsClasses t i r) {scopes : List String}
    {siblings ds out : List Decl} (h : placeAllWith unite siblings ds = .ok out)
    (hnodup : ((classesAll scopes siblings ++ classesAll scopes ds).map PlacedClass.path).Nodup) :
    (classesAll scopes out).Perm (classesAll scopes siblings ++ classesAll scopes ds) := by
  induction ds generalizing siblings with
  | nil => cases h; simp [classesAll]
  | cons d ds ih =>
    rw [placeAllWith_cons] at h
    cases hp : placeWith unite siblings d with
    | error e => rw [hp] at h; cases h
    | ok placed =>
      rw [hp] at h
      simp only [classesAll, ← List.append_assoc] at hnodup ⊢
      have hone := classesAll_placeWith hunite hp
        (hnodup.sublist ((List.sublist_append_left ..).map _))
      have hall := hone.append_right (classesAll scopes ds)
      exact (ih h ((hall.map _).nodup_iff.mpr hnodup)).trans hall

/-- **Merging keeps all classes of both sides.** -/
theorem keepsClasses_merge {t i r : Decl} (h : merge t i = .ok r) : KeepsClasses t i r := by
  refine merge_induction (P := KeepsClasses) ?_ h
  intro unite _ hunite t i r h scopes hnodup
  rcases mergeStep_ok_iff.mp h with ⟨n, a, b, cs, ds, es, rfl, rfl, hg, rfl⟩ |
    ⟨n, a, b, m, k, cs, ds, es, rfl, rfl, -, rfl⟩ | ⟨hleaf, rfl, rfl⟩
  · simp only [classes] at hnodup ⊢
    have hall : (classesAll (scopes ++ [n]) es).Perm
        (classesAll (scopes ++ [n]) [] ++ classesAll (scopes ++ [n]) (cs ++ ds)) :=
      classesAll_placeAllWith hunite hg (by simpa [classesAll, classesAll_append] using hnodup)
    simpa [classesAll, classesAll_append] using hall
  · -- Two classes of one name in one scope share their path.
    exfalso
    simp only [classes, List.map_append, List.map_cons, List.map_nil, List.append_assoc] at hnodup
    have hrest := (List.nodup_append.mp hnodup).2.1
    exact (List.nodup_cons.mp hrest).1 (by simp [PlacedClass.path])
  · cases r with
    | namespaceDecl | classDecl => cases hleaf
    | _ => exact List.Perm.refl _

end Decl

/-- Recording a declaration keeps all classes of its siblings and its own. -/
theorem classesAll_record {scopes : List String} {siblings : List Decl} {d : Decl}
    {out : List Decl} (h : record siblings d = .ok out)
    (hnodup : ((Decl.classesAll scopes siblings ++ d.classes scopes).map
      PlacedClass.path).Nodup) :
    (Decl.classesAll scopes out).Perm (Decl.classesAll scopes siblings ++ d.classes scopes) := by
  unfold record at h
  split at h
  · rename_i hempty
    cases h
    have hnone : d.classes scopes = [] := by
      cases d with
      | namespaceDecl n a cs =>
        cases cs with
        | nil => rfl
        | cons c cs => simp [Decl.isEmpty, Decl.children] at hempty
      | _ => simp [Decl.kind] at hempty
    rw [hnone, List.append_nil]
  · exact Decl.classesAll_placeWith (fun _ _ _ => Decl.keepsClasses_merge) h hnodup

end HeaderReflect
