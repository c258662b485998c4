import HeaderReflect.Cursor.Builder
import HeaderReflect.Proofs.Merge.Classes
import HeaderReflect.Proofs.Visit.Documents

/-!
From the cursors of a header to the class documents of its plan. Along the visit the classes of the
growing tree are the classes reached so far, up to some that want nothing; so where no two classes
share their path the plan holds exactly one document for each reachable class that is asked for
(`plan_classes_perm`).
-/

namespace HeaderReflect

open Decl (classesAll)

/-! ## Classes up to those that want nothing -/

/-- The first classes are the second ones, in some order, without some that want nothing. -/
def KeptOf (kept all : List PlacedClass) : Prop :=
  ∃ dropped, all.Perm (kept ++ dropped) ∧ ∀ p ∈ dropped, p.attrs.anyNeed = false

/-- No two classes share their path. -/
def Distinct (ps : List PlacedClass) : Prop := (ps.map PlacedClass.path).Nodup

theorem Distinct.sublist {ps qs : List PlacedClass} (h : Distinct qs) (hs : ps.Sublist qs) :
    Distinct ps :=
  List.Nodup.sublist (hs.map _) h

namespace KeptOf

theorem refl (ps : List PlacedClass) : KeptOf ps ps := ⟨[], by simp, by simp⟩

theorem of_perm {ps qs : List PlacedClass} (h : ps.Perm qs) : KeptOf ps qs :=
  ⟨[], by simpa using h.symm, by simp⟩

theorem of_dropped {ps : List PlacedClass} (qs : List PlacedClass)
    (h : ∀ p ∈ ps, p.attrs.anyNeed = false) : KeptOf qs (qs ++ ps) :=
  ⟨ps, List.Perm.refl _, h⟩

theorem trans {ps qs rs : List PlacedClass} (h : KeptOf ps qs) (h' : KeptOf qs rs) :
    KeptOf ps rs := by
  obtain ⟨ds, hqs, hds⟩ := h
  obtain ⟨es, hrs, hes⟩ := h'
  refine ⟨ds ++ es, ?_, ?_⟩
  · rw [← List.append_assoc]
    exact hrs.trans (hqs.append_right es)
  · intro p hp
    rcases List.mem_append.mp hp with hp | hp
    · exact hds p hp
    · exact hes p hp

theorem append {ps qs rs ss : List PlacedClass} (h : KeptOf ps qs) (h' : KeptOf rs ss) :
    KeptOf (ps ++ rs) (qs ++ ss) := by
  obtain ⟨ds, hqs, hds⟩ := h
  obtain ⟨es, hss, hes⟩ := h'
  refine ⟨ds ++ es, ?_, ?_⟩
  · calc (qs ++ ss).Perm ((ps ++ ds) ++ (rs ++ es)) := hqs.append hss
      _ = ps ++ ((ds ++ rs) ++ es) := by simp only [List.append_assoc]
      _ |>.Perm (ps ++ ((rs ++ ds) ++ es)) :=
          (List.perm_append_comm.append_right es).append_left ps
      _ = (ps ++ rs) ++ (ds ++ es) := by simp only [List.append_assoc]
  · intro p hp
    rcases List.mem_append.mp hp with hp | hp
    · exact hds p hp
    · exact hes p hp

theorem distinct {ps qs : List PlacedClass} (h : KeptOf ps qs) (hqs : Distinct qs) :
    Distinct ps := by
  obtain ⟨ds, hperm, -⟩ := h
  have hall : Distinct (ps ++ ds) := ((hperm.map _).nodup_iff).mp hqs
  exact hall.sublist (List.sublist_append_left ps ds)

theorem filter_perm {ps qs : List PlacedClass} (h : KeptOf ps qs) (s : Stream) :
    (ps.filter (·.attrs.wants s)).Perm (qs.filter (·.attrs.wants s)) := by
  obtain ⟨ds, hqs, hds⟩ := h
  have hnone : ds.filter (·.attrs.wants s) = [] := by
    refine List.filter_eq_nil_iff.mpr fun p hp hwants => ?_
    have hneed : p.attrs.anyNeed = true := Attributes.anyNeed_iff.mpr ⟨s, hwants⟩
    rw [hds p hp] at hneed
    cases hneed
  have hf := hqs.filter (·.attrs.wants s)
  rw [List.filter_append, hnone, List.append_nil] at hf
  exact hf.symm

end KeptOf

/-- Where all classes are distinct, the first ones are what is kept of them. -/
def Tracks (kept all : List PlacedClass) : Prop := Distinct all → KeptOf kept all

namespace Tracks

theorem refl (ps : List PlacedClass) : Tracks ps ps := fun _ => KeptOf.refl ps

/-- What is brought joins the siblings. -/
theorem join {siblings brought next reached : List PlacedClass} (hb : Tracks brought reached)
    (hn : Tracks next (siblings ++ brought)) : Tracks next (siblings ++ reached) := by
  intro hdistinct
  have hjoined : KeptOf (siblings ++ brought) (siblings ++ reached) :=
    (KeptOf.refl siblings).append
      (hb (hdistinct.sublist (List.sublist_append_right siblings reached)))
  exact (hn (hjoined.distinct hdistinct)).trans hjoined

/-- More follows what the siblings have become. -/
theorem followed {next all rest out : List PlacedClass} (hn : Tracks next all)
    (ho : Tracks out (next ++ rest)) : Tracks out (all ++ rest) := by
  intro hdistinct
  have hrest : KeptOf (next ++ rest) (all ++ rest) :=
    (hn (hdistinct.sublist (List.sublist_append_left all rest))).append (KeptOf.refl rest)
  exact (ho (hrest.distinct hdistinct)).trans hrest

end Tracks

theorem tracks_record {scopes : List String} {siblings : List Decl} {d : Decl}
    {out : List Decl} (h : record siblings d = .ok out) :
    Tracks (classesAll scopes out) (classesAll scopes siblings ++ d.classes scopes) :=
  fun hdistinct => KeptOf.of_perm (classesAll_record h hdistinct)

theorem tracks_recordIfNeeded {scopes : List String} {siblings : List Decl} {d : Decl}
    {out : List Decl} (h : recordIfNeeded siblings d = .ok out) :
    Tracks (classesAll scopes out) (classesAll scopes siblings ++ d.classes scopes) := by
  unfold recordIfNeeded at h
  split at h
  · exact tracks_record h
  · rename_i hneed
    cases h
    refine fun _ => KeptOf.of_dropped _ fun p hp => ?_
    cases hp' : p.attrs.anyNeed with
    | false => rfl
    | true => exact absurd (Decl.needsRecording_of_mem_classes d scopes p hp hp') hneed

/-! ## Along the visit -/

/-- The reached classes as they stand in the tree. -/
abbrev placedAll (rs : List ReachedClass) : List PlacedClass := rs.map ReachedClass.placed

/-- The names of scopes. -/
abbrev names (scopes : List Cursor) : List String := scopes.map (·.spelling)

theorem names_append (scopes : List Cursor) (i : CursorInfo) (cs : List Cursor) :
    names (scopes ++ [.node i cs]) = names scopes ++ [i.spelling] := by
  simp [names, Cursor.spelling, Cursor.info]

mutual

theorem tracks_classDeclOf (file : String) : ∀ (c : Cursor) (scopes : List Cursor) (d : Decl),
    classDeclOf file (wishes scopes) c = .ok d →
      Tracks (d.classes (names scopes)) (placedAll (classesFrom file scopes c))
  | .node i cs, scopes, d, h => by
    obtain ⟨children, hchildren, hd⟩ := ok_of_bind h
    cases hd
    rw [← wishes_append] at hchildren ⊢
    have hin := tracks_visitNested file cs (scopes ++ [.node i cs]) [] children hchildren
    rw [names_append] at hin
    intro hdistinct
    have hnested := hin (hdistinct.sublist (List.sublist_cons_self ..))
    have hown := hnested.append (KeptOf.refl [ReachedClass.placed ⟨scopes, .node i cs⟩])
    exact hown.trans (KeptOf.of_perm List.perm_append_comm)

theorem tracks_visitNested (file : String) : ∀ (cs : List Cursor) (scopes : List Cursor)
    (siblings out : List Decl), visitNested file (wishes scopes) siblings cs = .ok out →
      Tracks (classesAll (names scopes) out)
        (classesAll (names scopes) siblings ++ placedAll (nestedClasses file scopes cs))
  | [], scopes, siblings, out, h => by
    cases h
    simpa [nestedClasses] using Tracks.refl _
  | c :: rest, scopes, siblings, out, h => by
    simp only [visitNested] at h
    split at h
    · rename_i hc
      obtain ⟨d, hd, h⟩ := ok_of_bind h
      obtain ⟨next, hnext, hrest⟩ := ok_of_bind h
      simp only [nestedClasses, hc, ↓reduceIte, placedAll, List.map_append, ← List.append_assoc]
      have hjoin := (tracks_classDeclOf file c scopes d hd).join (tracks_recordIfNeeded hnext)
      exact hjoin.followed (tracks_visitNested file rest scopes next out hrest)
    · rename_i hc
      simp only [nestedClasses, hc, Bool.false_eq_true, ↓reduceIte, List.nil_append]
      exact tracks_visitNested file rest scopes siblings out h

end

mutual

theorem tracks_visitCursor (file : String) : ∀ (c : Cursor) (scopes : List Cursor)
    (siblings out : List Decl), visitCursor file (wishes scopes) siblings c = .ok out →
      Tracks (classesAll (names scopes) out)
        (classesAll (names scopes) siblings ++ placedAll (classesBelow file scopes c))
  | .node i cs, scopes, siblings, out, h => by
    have hdef : (Cursor.node i cs).isClassDefinition =
        ((i.kind = .classDecl || i.kind = .structDecl) && i.isDefinition) := rfl
    have hclass : ∀ {d : Decl}, classDeclOf file (wishes scopes) (.node i cs) = .ok d →
        recordIfNeeded siblings d = .ok out →
        Tracks (classesAll (names scopes) out) (classesAll (names scopes) siblings ++
          placedAll (classesFrom file scopes (.node i cs))) := fun hd hrec =>
      (tracks_classDeclOf file (.node i cs) scopes _ hd).join (tracks_recordIfNeeded hrec)
    have hsame : siblings = out → Tracks (classesAll (names scopes) out)
        (classesAll (names scopes) siblings ++ placedAll []) := by
      rintro rfl
      simpa using Tracks.refl _
    simp only [visitCursor] at h
    simp only [classesBelow, Cursor.kind, Cursor.info, hdef, Cursor.isTransparent]
    split at h
    · rename_i hfrom
      simp only [hfrom, ↓reduceIte]
      split at h
      · rename_i hkind
        obtain ⟨children, hchildren, hrec⟩ := ok_of_bind h
        rw [← wishes_append] at hchildren hrec
        have hin := tracks_visitCursors file cs (scopes ++ [.node i cs]) [] children hchildren
        simp only [names_append, classesAll, List.nil_append] at hin
        simpa [hkind] using hin.join (tracks_record hrec)
      · rename_i hkind
        split at h
        · rename_i hdefined
          obtain ⟨d, hd, hrec⟩ := ok_of_bind h
          simpa [hkind, hdefined] using hclass hd hrec
        · rename_i hdeclared
          cases h
          simpa [hkind, hdeclared] using hsame rfl
      · rename_i hkind
        split at h
        · rename_i hdefined
          obtain ⟨d, hd, hrec⟩ := ok_of_bind h
          simpa [hkind, hdefined] using hclass hd hrec
        · rename_i hdeclared
          cases h
          simpa [hkind, hdeclared] using hsame rfl
      · rename_i hkind
        split at h
        · have hrec : Tracks (classesAll (names scopes) out) _ := tracks_recordIfNeeded h
          simpa [hkind, Decl.classes] using hrec
        · cases h
          simpa [hkind] using hsame rfl
      · rename_i hns hcl hst hen
        have hall := tracks_visitCursors file cs scopes siblings out h
        have hk : i.kind ≠ .namespaceDecl ∧ i.kind ≠ .classDecl ∧ i.kind ≠ .structDecl ∧
            i.kind ≠ .enumDecl := ⟨hns, hcl, hst, hen⟩
        simpa [hk] using hall
    · rename_i hfrom
      simp only [hfrom, Bool.false_eq_true, ↓reduceIte]
      cases h
      exact hsame rfl

theorem tracks_visitCursors (file : String) : ∀ (cs : List Cursor) (scopes : List Cursor)
    (siblings out : List Decl), visitCursors file (wishes scopes) siblings cs = .ok out →
      Tracks (classesAll (names scopes) out)
        (classesAll (names scopes) siblings ++ placedAll (classesBelowAll file scopes cs))
  | [], scopes, siblings, out, h => by
    cases h
    simpa [classesBelowAll] using Tracks.refl _
  | c :: rest, scopes, siblings, out, h => by
    obtain ⟨next, hnext, hrest⟩ := ok_of_bind h
    simp only [classesBelowAll, placedAll, List.map_append, ← List.append_assoc]
    exact (tracks_visitCursor file c scopes siblings next hnext).followed
      (tracks_visitCursors file rest scopes next out hrest)

end

/-! ## The plan -/

/-- The documents of a stream are those of the classes that are asked for. -/
theorem docs_perm {α : Type} {ps : List PlacedClass} {rs : List ReachedClass} (s : Stream)
    (h : KeptOf ps (placedAll rs)) {docOf : PlacedClass → α} {doc : ReachedClass → α}
    (hdoc : ∀ r, docOf r.placed = doc r) :
    ((ps.filter (·.attrs.wants s)).map docOf).Perm
      ((rs.filter fun r => s.isAsked r.chain).map doc) := by
  have hwanted : (placedAll rs).filter (·.attrs.wants s) =
      placedAll (rs.filter fun r => s.isAsked r.chain) := by
    rw [List.filter_map]
    congr 2
    exact funext fun r => r.wants_placed s
  calc ((ps.filter (·.attrs.wants s)).map docOf).Perm
        (((placedAll rs).filter (·.attrs.wants s)).map docOf) := (h.filter_perm s).map docOf
    _ = (rs.filter fun r => s.isAsked r.chain).map doc := by
        rw [hwanted, List.map_map]
        exact List.map_congr_left fun r _ => hdoc r

/-- **The plan is faithful to the cursors.** If the visit of a header succeeds and no two reachable
classes have the same scopes and name, the plan holds exactly one document for each reachable class
that is asked for, and it is the one that can be read off the cursor. -/
theorem plan_classes_perm {cursors : CursorSource} {marker path source : String} {unit : Cursor}
    {root : Decl} (memberPrefix includedAs : String) (hmarker : hasMarker marker source = true)
    (hunit : cursors path = .ok unit) (hvisit : visitSource cursors marker path source = .ok root)
    (hdistinct : ((reachableClasses path unit).map ReachedClass.path).Nodup) :
    (planFile memberPrefix includedAs root).fragments.reflClasses.Perm
        (((reachableClasses path unit).filter fun r => Stream.reflection.isAsked r.chain).map
          (ReachedClass.reflDoc memberPrefix)) ∧
      (planFile memberPrefix includedAs root).fragments.bindingClasses.Perm
        (((reachableClasses path unit).filter fun r => Stream.script.isAsked r.chain).map
          (ReachedClass.bindingDoc memberPrefix)) := by
  obtain ⟨out, hout, rfl⟩ : ∃ out, visitCursors path Attributes.none [] unit.children = .ok out ∧
      root = .namespaceDecl "" Attributes.none out := by
    simp only [visitSource, hmarker, hunit, ↓reduceIte, visitUnit] at hvisit
    cases hv : visitCursors path Attributes.none [] unit.children with
    | error e => rw [hv] at hvisit; cases hvisit
    | ok out => rw [hv] at hvisit; cases hvisit; exact ⟨out, rfl, rfl⟩
  have htracks := tracks_visitCursors path unit.children [] [] out hout
  have hkept : KeptOf (classesAll [] out) (placedAll (reachableClasses path unit)) := by
    refine htracks ?_
    simpa [Distinct, classesAll, reachableClasses, Function.comp_def, ReachedClass.path_placed]
      using hdistinct
  obtain ⟨hrefl, hbinding⟩ := Plan.classDocs_walkScope memberPrefix out []
  constructor
  · have h := docs_perm .reflection hkept (ReachedClass.reflDocOf_placed memberPrefix)
    exact hrefl ▸ h
  · have h := docs_perm .script hkept (ReachedClass.bindingDocOf_placed memberPrefix)
    exact hbinding ▸ h

open Cursor in
/-- A header that opens one namespace twice, the second time below a cursor that is looked through.
A class nested in `Player` is ruled out there. -/
def reopenedUnit : Cursor :=
  let key := (ofKind .classDecl "Key").annotate "nickel(norefl)"
  let player := ((ofKind .structDecl "Player").annotate "nickel(refl,script)").append
    [field "m_hp" "int", key]
  let enemy := (ofKind .classDecl "Enemy").append [field "m_rank" "int"]
  let again := ((ofKind .namespaceDecl "game").annotate "nickel(refl)").append [enemy]
  ((unit "a.hpp").append
    [(ofKind .namespaceDecl "game").append [player], (ofKind .other "").append [again]]).located

/-- The plan of a header with a namespace that is opened twice. -/
theorem plan_classes_perm_reopened :
    ∃ root, hasMarker "REFL" "struct REFL(refl)" = true ∧
      visitSource (fun _ => .ok reopenedUnit) "REFL" "a.hpp" "struct REFL(refl)" = .ok root ∧
      ((reachableClasses "a.hpp" reopenedUnit).map ReachedClass.path).Nodup ∧
      (planFile "m_" "a.hpp" root).fragments.reflClasses.Perm
        (((reachableClasses "a.hpp" reopenedUnit).filter fun r =>
          Stream.reflection.isAsked r.chain).map (ReachedClass.reflDoc "m_")) ∧
      (planFile "m_" "a.hpp" root).fragments.bindingClasses.Perm
        (((reachableClasses "a.hpp" reopenedUnit).filter fun r =>
          Stream.script.isAsked r.chain).map (ReachedClass.bindingDoc "m_")) := by
  have hmarker : hasMarker "REFL" "struct REFL(refl)" = true := by decide
  have hdistinct : ((reachableClasses "a.hpp" reopenedUnit).map ReachedClass.path).Nodup := by
    decide
  obtain ⟨root, hvisit⟩ : ∃ root, visitSource (fun _ => .ok reopenedUnit) "REFL" "a.hpp"
      "struct REFL(refl)" = .ok root := ⟨_, rfl⟩
  exact ⟨root, hmarker, hvisit, hdistinct,
    plan_classes_perm "m_" "a.hpp" hmarker rfl hvisit hdistinct⟩

end HeaderReflect
