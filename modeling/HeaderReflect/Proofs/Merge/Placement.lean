import HeaderReflect.Tree.Merge

/-!
Placing declarations among their siblings, for any way `unite` of uniting two of one key. A
placement changes one sibling or adds one at the end, so placements under different keys commute,
and where `unite` is associative it makes no difference whether declarations are placed one by one
or are grouped among themselves first (`placeAllWith_regroup`).

Failures are compared up to their cause: `toOption` forgets which declaration did not fit.
-/

namespace HeaderReflect

@[simp] theorem toOption_ok {ε α : Type} (a : α) : (Except.ok a : Except ε α).toOption = some a :=
  rfl

@[simp] theorem toOption_error {ε α : Type} (e : ε) :
    (Except.error e : Except ε α).toOption = none := rfl

theorem toOption_bind {ε α β : Type} (x : Except ε α) (f : α → Except ε β) :
    (x >>= f).toOption = x.toOption.bind fun a => (f a).toOption := by
  cases x <;> rfl

theorem toOption_map {ε α β : Type} (x : Except ε α) (f : α → β) :
    (x.map f).toOption = x.toOption.map f := by
  cases x <;> rfl

theorem toOption_eq_some_iff {ε α : Type} {x : Except ε α} {a : α} :
    x.toOption = some a ↔ x = .ok a := by
  cases x <;> simp

theorem ok_of_bind {ε α β : Type} {x : Except ε α} {f : α → Except ε β} {b : β}
    (h : x >>= f = .ok b) : ∃ a, x = .ok a ∧ f a = .ok b := by
  cases x with
  | error e => cases h
  | ok a => exact ⟨a, rfl, h⟩

namespace Decl

abbrev Unite := Decl → Decl → Except MergeError Decl

/-- Places declarations one after another and stops at the first failure. -/
def placeAllWith (unite : Unite) : List Decl → List Decl → Except MergeError (List Decl)
  | siblings, [] => .ok siblings
  | siblings, d :: rest => do placeAllWith unite (← placeWith unite siblings d) rest

/-- Groups declarations by placing them one after another. -/
def coalesceWith (unite : Unite) (ds : List Decl) : Except MergeError (List Decl) :=
  placeAllWith unite [] ds

/-- The keys of siblings, in order. -/
def keys (ds : List Decl) : List (String × Kind) := ds.map key

@[simp] theorem keys_nil : keys [] = [] := rfl

@[simp] theorem keys_cons (d : Decl) (ds : List Decl) : keys (d :: ds) = d.key :: keys ds := rfl

@[simp] theorem keys_append (ds es : List Decl) : keys (ds ++ es) = keys ds ++ keys es :=
  List.map_append

theorem isScopeChild_of_key {d e : Decl} (h : d.key = e.key) : d.isScopeChild = e.isScopeChild := by
  have hk : d.kind = e.kind := congrArg Prod.snd h
  simp only [isScopeChild, hk]

/-- What is united keeps the key of the first. -/
def KeepsKey (unite : Unite) : Prop := ∀ a b r, unite a b = .ok r → r.key = a.key

/-- Uniting three declarations gives the same whichever two are united first. -/
def Associative (unite : Unite) : Prop :=
  ∀ a b c, ((unite a b).toOption.bind fun ab => (unite ab c).toOption) =
    (unite b c).toOption.bind fun bc => (unite a bc).toOption

/-! ## One placement -/

theorem placeWith_of_not_scopeChild (unite : Unite) (siblings : List Decl) {d : Decl}
    (h : d.isScopeChild = false) :
    placeWith unite siblings d = .error (.notAScopeChild d.name d.kind) := by
  simp [placeWith, h]

theorem placeWith_nil (unite : Unite) {d : Decl} (h : d.isScopeChild = true) :
    placeWith unite [] d = .ok [d] := by
  simp [placeWith, h, updateFirst?]

theorem placeWith_cons_of_key (unite : Unite) {s : Decl} (rest : List Decl) {d : Decl}
    (h : d.isScopeChild = true) (hk : s.key = d.key) :
    placeWith unite (s :: rest) d = (unite s d).map (· :: rest) := by
  simp [placeWith, h, updateFirst?, hk]

theorem placeWith_cons_of_ne (unite : Unite) {s : Decl} (rest : List Decl) {d : Decl}
    (h : d.isScopeChild = true) (hk : s.key ≠ d.key) :
    placeWith unite (s :: rest) d = (placeWith unite rest d).map (s :: ·) := by
  simp only [placeWith, h, updateFirst?, hk, ↓reduceIte, List.cons_append]
  cases updateFirst? d.key (unite · d) rest <;> rfl

/-- A placement either finds a sibling of the key and unites the two, or adds the declaration at
the end. -/
theorem placeWith_cases {unite : Unite} {siblings : List Decl} {d : Decl} {out : List Decl}
    (h : placeWith unite siblings d = .ok out) :
    d.isScopeChild = true ∧
      ((d.key ∉ keys siblings ∧ out = siblings ++ [d]) ∨
        ∃ before s after r, siblings = before ++ s :: after ∧ d.key ∉ keys before ∧
          s.key = d.key ∧ unite s d = .ok r ∧ out = before ++ r :: after) := by
  cases hd : d.isScopeChild with
  | false => rw [placeWith_of_not_scopeChild _ _ hd] at h; cases h
  | true =>
    refine ⟨rfl, ?_⟩
    induction siblings generalizing out with
    | nil =>
      rw [placeWith_nil _ hd] at h
      cases h
      exact .inl ⟨by simp, rfl⟩
    | cons s rest ih =>
      by_cases hk : s.key = d.key
      · rw [placeWith_cons_of_key _ _ hd hk] at h
        cases hu : unite s d with
        | error e => rw [hu] at h; cases h
        | ok r =>
          rw [hu] at h
          cases h
          exact .inr ⟨[], s, rest, r, rfl, by simp, hk, hu, rfl⟩
      · rw [placeWith_cons_of_ne _ _ hd hk] at h
        cases hp : placeWith unite rest d with
        | error e => rw [hp] at h; cases h
        | ok placed =>
          rw [hp] at h
          cases h
          rcases ih hp with ⟨habs, rfl⟩ | ⟨before, t, after, r, rfl, habs, ht, hu, rfl⟩
          · exact .inl ⟨by simpa [Ne.symm hk] using habs, rfl⟩
          · exact .inr ⟨s :: before, t, after, r, rfl, by simpa [Ne.symm hk] using habs, ht, hu, rfl⟩

theorem keys_placeWith {unite : Unite} (hkeep : KeepsKey unite) {siblings : List Decl} {d : Decl}
    {out : List Decl} (h : placeWith unite siblings d = .ok out) :
    keys out = if d.key ∈ keys siblings then keys siblings else keys siblings ++ [d.key] := by
  obtain ⟨-, ⟨habs, rfl⟩ | ⟨before, s, after, r, rfl, -, hs, hu, rfl⟩⟩ := placeWith_cases h
  · simp [habs]
  · have hr : r.key = s.key := hkeep s d r hu
    simp [hr, hs]

/-- Placing never takes a key away. -/
theorem mem_keys_placeWith {unite : Unite} (hkeep : KeepsKey unite) {siblings : List Decl}
    {d : Decl} {out : List Decl} (h : placeWith unite siblings d = .ok out)
    {k : String × Kind} : k ∈ keys out ↔ k ∈ keys siblings ∨ k = d.key := by
  rw [keys_placeWith hkeep h]
  split
  · rename_i hm
    exact ⟨.inl, fun h => h.elim id fun e => e ▸ hm⟩
  · simp

theorem nodup_keys_placeWith {unite : Unite} (hkeep : KeepsKey unite) {siblings : List Decl}
    {d : Decl} {out : List Decl} (h : placeWith unite siblings d = .ok out)
    (hs : (keys siblings).Nodup) : (keys out).Nodup := by
  rw [keys_placeWith hkeep h]
  split
  · exact hs
  · rename_i habs
    exact List.nodup_append.mpr ⟨hs, by simp, by
      rintro a ha b hb rfl
      exact habs (by simpa using (List.mem_singleton.mp hb) ▸ ha)⟩

/-- Placements under different keys commute, as long as the later one finds a sibling. -/
theorem placeWith_comm {unite : Unite} (hkeep : KeepsKey unite) (siblings : List Decl)
    {d e : Decl} (hne : e.key ≠ d.key) (hmem : d.key ∈ keys siblings) :
    ((placeWith unite siblings e).toOption.bind fun s => (placeWith unite s d).toOption) =
      (placeWith unite siblings d).toOption.bind fun s => (placeWith unite s e).toOption := by
  cases hd : d.isScopeChild with
  | false => simp [placeWith_of_not_scopeChild _ _ hd]
  | true =>
  cases he : e.isScopeChild with
  | false => simp [placeWith_of_not_scopeChild _ _ he]
  | true =>
  induction siblings with
  | nil => simp at hmem
  | cons s rest ih =>
    -- What a sibling becomes keeps its key, so the other placement still passes it by.
    have hpass : ∀ {x y : Decl}, y.isScopeChild = true → s.key ≠ y.key →
        ((unite s x).toOption.bind fun r => (placeWith unite (r :: rest) y).toOption) =
          (placeWith unite rest y).toOption.bind fun t =>
            (unite s x).toOption.map (· :: t) := by
      intro x y hy hsy
      rw [Option.bind_congr fun r hr => by
        rw [placeWith_cons_of_ne _ _ hy
          (by rw [hkeep s x r (toOption_eq_some_iff.mp hr)]; exact hsy), toOption_map]]
      simp only [Option.map_eq_bind]
      exact Option.bind_comm _ _
    by_cases hsd : s.key = d.key
    · have hse : s.key ≠ e.key := by rw [hsd]; exact Ne.symm hne
      rw [placeWith_cons_of_ne _ _ he hse, placeWith_cons_of_key _ _ hd hsd]
      simp only [toOption_map, Option.bind_map, Function.comp_def,
        placeWith_cons_of_key _ _ hd hsd]
      exact (hpass he hse).symm
    · have hrest : d.key ∈ keys rest := by simpa [Ne.symm hsd] using hmem
      by_cases hse : s.key = e.key
      · rw [placeWith_cons_of_key _ _ he hse, placeWith_cons_of_ne _ _ hd hsd]
        simp only [toOption_map, Option.bind_map, Function.comp_def,
          placeWith_cons_of_key _ _ he hse]
        exact hpass hd hsd
      · have h := congrArg (Option.map (s :: ·)) (ih hrest)
        simpa [placeWith_cons_of_ne _ _ he hse, placeWith_cons_of_ne _ _ hd hsd, toOption_map,
          Option.bind_map, Option.map_bind, Function.comp_def] using h

/-- Placing two declarations of one key comes to placing the two united. -/
theorem placeWith_unite {unite : Unite} (hkeep : KeepsKey unite) (hassoc : Associative unite)
    (siblings : List Decl) {d e : Decl} (hk : e.key = d.key) :
    ((placeWith unite siblings e).toOption.bind fun s => (placeWith unite s d).toOption) =
      (unite e d).toOption.bind fun r => (placeWith unite siblings r).toOption := by
  have hkey : ∀ r, (unite e d).toOption = some r → r.key = e.key := fun r hr =>
    hkeep e d r (toOption_eq_some_iff.mp hr)
  cases he : e.isScopeChild with
  | false =>
    have hnone : ((unite e d).toOption.bind fun r => (placeWith unite siblings r).toOption) =
        (unite e d).toOption.bind fun _ => none := by
      refine Option.bind_congr fun r hr => ?_
      rw [placeWith_of_not_scopeChild _ _ ((isScopeChild_of_key (hkey r hr)).trans he)]
      rfl
    rw [hnone]
    simp [placeWith_of_not_scopeChild _ _ he]
  | true =>
  have hd : d.isScopeChild = true := (isScopeChild_of_key hk).symm.trans he
  have hr : ∀ r, (unite e d).toOption = some r → r.isScopeChild = true := fun r h =>
    (isScopeChild_of_key (hkey r h)).trans he
  induction siblings with
  | nil =>
    calc ((placeWith unite [] e).toOption.bind fun s => (placeWith unite s d).toOption)
        = (unite e d).toOption.bind fun r => some [r] := by
          rw [placeWith_nil _ he, toOption_ok, Option.bind_some, placeWith_cons_of_key _ _ hd hk,
            toOption_map, Option.map_eq_bind]
          rfl
      _ = (unite e d).toOption.bind fun r => (placeWith unite [] r).toOption := by
          refine Option.bind_congr fun r h => ?_
          rw [placeWith_nil _ (hr r h), toOption_ok]
  | cons s rest ih =>
    by_cases hs : s.key = e.key
    · calc ((placeWith unite (s :: rest) e).toOption.bind fun t => (placeWith unite t d).toOption)
          = (unite s e).toOption.bind fun x => (unite x d).toOption.map (· :: rest) := by
            rw [placeWith_cons_of_key _ _ he hs, toOption_map, Option.bind_map]
            refine Option.bind_congr fun x hx => ?_
            have hxd : x.key = d.key := by
              rw [hkeep s e x (toOption_eq_some_iff.mp hx), hs, hk]
            rw [Function.comp_apply, placeWith_cons_of_key _ _ hd hxd, toOption_map]
        _ = (unite e d).toOption.bind fun r => (unite s r).toOption.map (· :: rest) := by
            have h := congrArg (Option.map (· :: rest)) (hassoc s e d)
            simpa [Option.map_bind, Function.comp_def] using h
        _ = (unite e d).toOption.bind fun r => (placeWith unite (s :: rest) r).toOption := by
            refine Option.bind_congr fun r h => ?_
            rw [placeWith_cons_of_key _ _ (hr r h) (hs.trans (hkey r h).symm), toOption_map]
    · have hsd : s.key ≠ d.key := hk ▸ hs
      calc ((placeWith unite (s :: rest) e).toOption.bind fun t => (placeWith unite t d).toOption)
          = (placeWith unite rest e).toOption.bind fun t =>
              (placeWith unite t d).toOption.map (s :: ·) := by
            rw [placeWith_cons_of_ne _ _ he hs, toOption_map, Option.bind_map]
            refine Option.bind_congr fun t _ => ?_
            rw [Function.comp_apply, placeWith_cons_of_ne _ _ hd hsd, toOption_map]
        _ = (unite e d).toOption.bind fun r => (placeWith unite rest r).toOption.map (s :: ·) := by
            have h := congrArg (Option.map (s :: ·)) ih
            simpa [Option.map_bind, Function.comp_def] using h
        _ = (unite e d).toOption.bind fun r => (placeWith unite (s :: rest) r).toOption := by
            refine Option.bind_congr fun r h => ?_
            have hsr : s.key ≠ r.key := by rw [hkey r h]; exact hs
            rw [placeWith_cons_of_ne _ _ (hr r h) hsr, toOption_map]

/-! ## Placing many -/

theorem placeAllWith_cons (unite : Unite) (siblings : List Decl) (d : Decl) (ds : List Decl) :
    placeAllWith unite siblings (d :: ds) =
      placeWith unite siblings d >>= fun s => placeAllWith unite s ds := rfl

theorem placeAllWith_singleton (unite : Unite) (siblings : List Decl) (d : Decl) :
    placeAllWith unite siblings [d] = placeWith unite siblings d := by
  rw [placeAllWith_cons]
  cases placeWith unite siblings d <;> rfl

theorem placeAllWith_append (unite : Unite) (siblings ds es : List Decl) :
    placeAllWith unite siblings (ds ++ es) =
      placeAllWith unite siblings ds >>= fun s => placeAllWith unite s es := by
  induction ds generalizing siblings with
  | nil => rfl
  | cons d ds ih =>
    simp only [List.cons_append, placeAllWith_cons]
    cases placeWith unite siblings d with
    | error e => rfl
    | ok s => exact ih s

theorem nodup_keys_placeAllWith {unite : Unite} (hkeep : KeepsKey unite) {siblings ds : List Decl}
    {out : List Decl} (h : placeAllWith unite siblings ds = .ok out)
    (hs : (keys siblings).Nodup) : (keys out).Nodup := by
  induction ds generalizing siblings with
  | nil => cases h; exact hs
  | cons d ds ih =>
    rw [placeAllWith_cons] at h
    cases hp : placeWith unite siblings d with
    | error e => rw [hp] at h; cases h
    | ok s =>
      rw [hp] at h
      exact ih h (nodup_keys_placeWith hkeep hp hs)

/-- A declaration whose key is there may be placed before or after others of different keys. -/
theorem placeAllWith_comm {unite : Unite} (hkeep : KeepsKey unite) (siblings ds : List Decl)
    {d : Decl} (hne : d.key ∉ keys ds) (hmem : d.key ∈ keys siblings) :
    ((placeAllWith unite siblings ds).toOption.bind fun s => (placeWith unite s d).toOption) =
      (placeWith unite siblings d).toOption.bind fun s => (placeAllWith unite s ds).toOption := by
  induction ds generalizing siblings with
  | nil => simp [placeAllWith]
  | cons e ds ih =>
    simp only [keys_cons, List.mem_cons, not_or] at hne
    calc ((placeAllWith unite siblings (e :: ds)).toOption.bind fun s =>
            (placeWith unite s d).toOption)
        = (placeWith unite siblings e).toOption.bind fun t =>
            (placeAllWith unite t ds).toOption.bind fun s => (placeWith unite s d).toOption := by
          rw [placeAllWith_cons, toOption_bind, Option.bind_assoc]
      _ = (placeWith unite siblings e).toOption.bind fun t =>
            (placeWith unite t d).toOption.bind fun s => (placeAllWith unite s ds).toOption := by
          refine Option.bind_congr fun t ht => ih t hne.2 ?_
          exact (mem_keys_placeWith hkeep (toOption_eq_some_iff.mp ht)).mpr (.inl hmem)
      _ = ((placeWith unite siblings d).toOption.bind fun t => (placeWith unite t e).toOption).bind
            fun s => (placeAllWith unite s ds).toOption := by
          rw [← Option.bind_assoc, placeWith_comm hkeep siblings (Ne.symm hne.1) hmem]
      _ = (placeWith unite siblings d).toOption.bind fun s =>
            (placeAllWith unite s (e :: ds)).toOption := by
          simp only [Option.bind_assoc, placeAllWith_cons, toOption_bind]

/-- A declaration may join a group before the group is placed. -/
theorem placeAllWith_placeWith {unite : Unite} (hkeep : KeepsKey unite)
    (hassoc : Associative unite) (siblings group : List Decl) (d : Decl)
    (hnodup : (keys group).Nodup) :
    ((placeAllWith unite siblings group).toOption.bind fun s => (placeWith unite s d).toOption) =
      (placeWith unite group d).toOption.bind fun g => (placeAllWith unite siblings g).toOption := by
  cases hd : d.isScopeChild with
  | false => simp [placeWith_of_not_scopeChild _ _ hd]
  | true =>
  induction group generalizing siblings with
  | nil => simp [placeWith_nil _ hd, placeAllWith, toOption_bind]
  | cons g rest ih =>
    simp only [keys_cons, List.nodup_cons] at hnodup
    by_cases hg : g.key = d.key
    · calc ((placeAllWith unite siblings (g :: rest)).toOption.bind fun s =>
              (placeWith unite s d).toOption)
          = (placeWith unite siblings g).toOption.bind fun t =>
              (placeAllWith unite t rest).toOption.bind fun s => (placeWith unite s d).toOption := by
            rw [placeAllWith_cons, toOption_bind, Option.bind_assoc]
        _ = (placeWith unite siblings g).toOption.bind fun t =>
              (placeWith unite t d).toOption.bind fun s =>
                (placeAllWith unite s rest).toOption := by
            refine Option.bind_congr fun t ht => placeAllWith_comm hkeep t rest (hg ▸ hnodup.1) ?_
            exact (mem_keys_placeWith hkeep (toOption_eq_some_iff.mp ht)).mpr (.inr hg.symm)
        _ = (unite g d).toOption.bind fun r => (placeWith unite siblings r).toOption.bind fun s =>
              (placeAllWith unite s rest).toOption := by
            rw [← Option.bind_assoc, placeWith_unite hkeep hassoc siblings hg, Option.bind_assoc]
        _ = (placeWith unite (g :: rest) d).toOption.bind fun g =>
              (placeAllWith unite siblings g).toOption := by
            simp only [placeWith_cons_of_key _ _ hd hg, toOption_map, Option.bind_map,
              Function.comp_def, placeAllWith_cons, toOption_bind]
    · calc ((placeAllWith unite siblings (g :: rest)).toOption.bind fun s =>
              (placeWith unite s d).toOption)
          = (placeWith unite siblings g).toOption.bind fun t =>
              (placeAllWith unite t rest).toOption.bind fun s => (placeWith unite s d).toOption := by
            rw [placeAllWith_cons, toOption_bind, Option.bind_assoc]
        _ = (placeWith unite siblings g).toOption.bind fun t =>
              (placeWith unite rest d).toOption.bind fun g => (placeAllWith unite t g).toOption := by
            exact Option.bind_congr fun t _ => ih t hnodup.2
        _ = (placeWith unite rest d).toOption.bind fun r =>
              (placeWith unite siblings g).toOption.bind fun t =>
                (placeAllWith unite t r).toOption := by
            exact Option.bind_comm _ _
        _ = (placeWith unite (g :: rest) d).toOption.bind fun g =>
              (placeAllWith unite siblings g).toOption := by
            simp only [placeWith_cons_of_ne _ _ hd hg, toOption_map, Option.bind_map,
              Function.comp_def, placeAllWith_cons, toOption_bind]

/-- It makes no difference whether declarations are placed one by one or first join a group. -/
theorem placeAllWith_regroup {unite : Unite} (hkeep : KeepsKey unite)
    (hassoc : Associative unite) (siblings group ds : List Decl) (hnodup : (keys group).Nodup) :
    ((placeAllWith unite siblings group).toOption.bind fun s =>
        (placeAllWith unite s ds).toOption) =
      (placeAllWith unite group ds).toOption.bind fun g =>
        (placeAllWith unite siblings g).toOption := by
  induction ds generalizing group with
  | nil => simp [placeAllWith]
  | cons d ds ih =>
    calc ((placeAllWith unite siblings group).toOption.bind fun s =>
            (placeAllWith unite s (d :: ds)).toOption)
        = ((placeAllWith unite siblings group).toOption.bind fun s =>
            (placeWith unite s d).toOption).bind fun s => (placeAllWith unite s ds).toOption := by
          simp only [placeAllWith_cons, toOption_bind, Option.bind_assoc]
      _ = (placeWith unite group d).toOption.bind fun g =>
            (placeAllWith unite siblings g).toOption.bind fun s =>
              (placeAllWith unite s ds).toOption := by
          rw [placeAllWith_placeWith hkeep hassoc siblings group d hnodup, Option.bind_assoc]
      _ = (placeWith unite group d).toOption.bind fun g =>
            (placeAllWith unite g ds).toOption.bind fun g =>
              (placeAllWith unite siblings g).toOption := by
          refine Option.bind_congr fun g hg => ih g ?_
          exact nodup_keys_placeWith hkeep (toOption_eq_some_iff.mp hg) hnodup
      _ = (placeAllWith unite group (d :: ds)).toOption.bind fun g =>
            (placeAllWith unite siblings g).toOption := by
          simp only [placeAllWith_cons, toOption_bind, Option.bind_assoc]

/-- Grouping is associative: groups may be grouped with more on either side. -/
theorem coalesceWith_assoc {unite : Unite} (hkeep : KeepsKey unite) (hassoc : Associative unite)
    (as bs cs : List Decl) :
    ((coalesceWith unite (as ++ bs)).toOption.bind fun abs =>
        (coalesceWith unite (abs ++ cs)).toOption) =
      (coalesceWith unite (bs ++ cs)).toOption.bind fun bcs =>
        (coalesceWith unite (as ++ bcs)).toOption := by
  have hagain : ∀ ds out, placeAllWith unite [] ds = .ok out → placeAllWith unite [] out = .ok out := by
    intro ds out h
    have hre := placeAllWith_regroup hkeep hassoc [] [] ds List.nodup_nil
    simp only [placeAllWith, toOption_ok, Option.bind_some, h] at hre
    exact toOption_eq_some_iff.mp hre.symm
  unfold coalesceWith
  calc ((placeAllWith unite [] (as ++ bs)).toOption.bind fun abs =>
          (placeAllWith unite [] (abs ++ cs)).toOption)
      = (placeAllWith unite [] (as ++ bs)).toOption.bind fun abs =>
          (placeAllWith unite abs cs).toOption := by
        refine Option.bind_congr fun abs h => ?_
        rw [placeAllWith_append, hagain _ _ (toOption_eq_some_iff.mp h)]
        rfl
    _ = (placeAllWith unite [] as).toOption.bind fun s =>
          (placeAllWith unite s (bs ++ cs)).toOption := by
        simp only [placeAllWith_append, toOption_bind, Option.bind_assoc]
    _ = (placeAllWith unite [] as).toOption.bind fun s =>
          (placeAllWith unite [] (bs ++ cs)).toOption.bind fun g =>
            (placeAllWith unite s g).toOption := by
        refine Option.bind_congr fun s _ => ?_
        simpa [placeAllWith] using
          placeAllWith_regroup hkeep hassoc s [] (bs ++ cs) List.nodup_nil
    _ = (placeAllWith unite [] (bs ++ cs)).toOption.bind fun bcs =>
          (placeAllWith unite [] (as ++ bcs)).toOption := by
        simp only [placeAllWith_append unite [] as, toOption_bind]
        exact Option.bind_comm _ _

end Decl

end HeaderReflect
