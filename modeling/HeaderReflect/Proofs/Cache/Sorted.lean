import HeaderReflect.Cache.Entries
import Mathlib.Data.String.Basic

/-!
Entries in the order of their keys. Putting entries in one after another keeps the order, in which
a list of entries is fixed by what can be found in it (`Entries.Sorted.ext`).
-/

namespace HeaderReflect.Entries

/-- The keys go up, so each occurs once. -/
def Sorted (entries : Entries) : Prop :=
  entries.Pairwise fun a b => a.1 < b.1

theorem mem_insert {key : String} {entry : CacheEntry} {entries : Entries}
    {e : String × CacheEntry} (h : e ∈ insert key entry entries) :
    e = (key, entry) ∨ e ∈ entries := by
  induction entries with
  | nil => exact .inl (List.mem_singleton.mp h)
  | cons f rest ih =>
    obtain ⟨k, old⟩ := f
    unfold insert at h
    split at h
    · exact List.mem_cons.mp h
    split at h
    · exact (List.mem_cons.mp h).imp_right (List.mem_cons_of_mem _)
    · rcases List.mem_cons.mp h with rfl | h
      · exact .inr (List.mem_cons_self ..)
      · exact (ih h).imp_right (List.mem_cons_of_mem _)

theorem Sorted.insert {entries : Entries} (hs : entries.Sorted) (key : String)
    (entry : CacheEntry) : (Entries.insert key entry entries).Sorted := by
  induction entries with
  | nil => exact List.pairwise_singleton ..
  | cons f rest ih =>
    obtain ⟨k, old⟩ := f
    obtain ⟨hk, hrest⟩ := List.pairwise_cons.mp hs
    unfold Entries.insert
    split
    · rename_i hlt
      refine List.pairwise_cons.mpr ⟨fun e he => ?_, hs⟩
      rcases List.mem_cons.mp he with rfl | he
      · exact hlt
      · exact lt_trans hlt (hk e he)
    split
    · rename_i heq
      exact List.pairwise_cons.mpr ⟨fun e he => heq ▸ hk e he, hrest⟩
    · rename_i hnlt hne
      refine List.pairwise_cons.mpr ⟨fun e he => ?_, ih hrest⟩
      rcases mem_insert he with rfl | he
      · exact lt_of_le_of_ne (not_lt.mp hnlt) (Ne.symm hne)
      · exact hk e he

/-- A key above all others goes to the end. -/
theorem insert_of_lt {key : String} {entry : CacheEntry} {entries : Entries}
    (h : ∀ e ∈ entries, e.1 < key) : insert key entry entries = entries ++ [(key, entry)] := by
  induction entries with
  | nil => rfl
  | cons f rest ih =>
    obtain ⟨k, old⟩ := f
    have hk : k < key := h (k, old) (List.mem_cons_self ..)
    have hrest := ih fun e he => h e (List.mem_cons_of_mem _ he)
    rw [insert, if_neg (lt_asymm hk), if_neg (ne_of_gt hk), hrest]
    rfl

/-- What is in sorted entries is what is found there. -/
theorem Sorted.mem_iff {entries : Entries} (hs : entries.Sorted) {key : String}
    {entry : CacheEntry} : (key, entry) ∈ entries ↔ entries.find? key = some entry := by
  induction entries with
  | nil => simp [find?]
  | cons f rest ih =>
    obtain ⟨k, old⟩ := f
    obtain ⟨hk, hrest⟩ := List.pairwise_cons.mp hs
    rw [find?_cons, List.mem_cons, ih hrest]
    by_cases heq : key = k
    · subst heq
      have hnone : (key, entry) ∉ rest := fun he => lt_irrefl key (hk _ he)
      rw [← ih hrest, if_pos rfl]
      simp [hnone, eq_comm]
    · simp [heq]

theorem Sorted.nodup {entries : Entries} (hs : entries.Sorted) : entries.Nodup := by
  refine hs.imp fun {a b} hlt => ?_
  rintro rfl
  exact lt_irrefl _ hlt

/-- **Sorted entries are fixed by what is found in them.** -/
theorem Sorted.ext {left right : Entries} (hl : left.Sorted) (hr : right.Sorted)
    (h : ∀ key, left.find? key = right.find? key) : left = right := by
  have hmem : ∀ e, e ∈ left ↔ e ∈ right := by
    rintro ⟨key, entry⟩
    rw [hl.mem_iff, hr.mem_iff, h]
  have hperm : left.Perm right := (List.perm_ext_iff_of_nodup hl.nodup hr.nodup).mpr hmem
  refine hperm.eq_of_pairwise (fun a b _ _ hab hba => ?_) hl hr
  exact absurd (lt_trans hab hba) (lt_irrefl _)

end HeaderReflect.Entries
