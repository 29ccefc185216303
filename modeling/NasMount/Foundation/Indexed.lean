import Mathlib.Data.List.AList
import Mathlib.Data.List.Perm.Basic

/-!
# Rows found by key

A list of rows beside a map from keys to positions. The map is right when it
leads to exactly the rows that have the key. Distinct keys that cover a list
divide it.
-/
namespace NasMount.Foundation

universe u v

open scoped List

variable {κ : Type u} {ρ : Type v} [DecidableEq κ] {key : ρ → Option κ} {rows : List ρ}
  {index : AList fun _ : κ => ℕ}

/-- The index leads to exactly the rows with the key. -/
def Indexed (key : ρ → Option κ) (rows : List ρ) (index : AList fun _ : κ => ℕ) : Prop :=
  ∀ k i, index.lookup k = some i ↔ ∃ row, rows[i]? = some row ∧ key row = some k

theorem indexed_nil (key : ρ → Option κ) : Indexed key [] ∅ := by
  intro k i
  simp

theorem getElem?_append_singleton {row found : ρ} {i : ℕ} :
    (rows ++ [row])[i]? = some found ↔
      rows[i]? = some found ∨ i = rows.length ∧ found = row := by
  rcases lt_trichotomy i rows.length with hlt | heq | hgt
  · rw [List.getElem?_append_left hlt]
    constructor
    · exact Or.inl
    · rintro (h | ⟨rfl, -⟩)
      · exact h
      · exact absurd hlt (lt_irrefl _)
  · subst heq
    simp [eq_comm]
  · have hout : (rows ++ [row]).length ≤ i := by
      rw [List.length_append, List.length_singleton]
      omega
    rw [List.getElem?_eq_none hout, List.getElem?_eq_none (Nat.le_of_lt hgt)]
    constructor
    · exact nofun
    · rintro (h | ⟨rfl, -⟩)
      · exact nomatch h
      · exact absurd hgt (lt_irrefl _)

/-- A row without a key needs no entry. -/
theorem Indexed.append_none (h : Indexed key rows index) {row : ρ} (hrow : key row = none) :
    Indexed key (rows ++ [row]) index := by
  intro k i
  rw [h k i]
  constructor
  · rintro ⟨found, hfound, hkey⟩
    exact ⟨found, getElem?_append_singleton.2 (Or.inl hfound), hkey⟩
  · rintro ⟨found, hfound, hkey⟩
    rcases getElem?_append_singleton.1 hfound with hold | ⟨-, rfl⟩
    · exact ⟨found, hold, hkey⟩
    · exact nomatch hrow.symm.trans hkey

/-- A row with a new key is entered with its position. -/
theorem Indexed.append_some (h : Indexed key rows index) {row : ρ} {new : κ}
    (hrow : key row = some new) (hnew : index.lookup new = none) :
    Indexed key (rows ++ [row]) (index.insert new rows.length) := by
  intro k i
  by_cases hk : k = new
  · subst hk
    rw [AList.lookup_insert, Option.some.injEq]
    constructor
    · rintro rfl
      exact ⟨row, getElem?_append_singleton.2 (Or.inr ⟨rfl, rfl⟩), hrow⟩
    · rintro ⟨found, hfound, hkey⟩
      rcases getElem?_append_singleton.1 hfound with hold | ⟨hi, -⟩
      · have hlookup := (h k i).2 ⟨found, hold, hkey⟩
        exact nomatch hnew.symm.trans hlookup
      · exact hi.symm
  · rw [AList.lookup_insert_ne hk, h k i]
    constructor
    · rintro ⟨found, hfound, hkey⟩
      exact ⟨found, getElem?_append_singleton.2 (Or.inl hfound), hkey⟩
    · rintro ⟨found, hfound, hkey⟩
      rcases getElem?_append_singleton.1 hfound with hold | ⟨-, rfl⟩
      · exact ⟨found, hold, hkey⟩
      · rw [hrow, Option.some.injEq] at hkey
        exact absurd hkey.symm hk

/-- A change of one row that keeps its key. -/
theorem Indexed.modify (h : Indexed key rows index) (i : ℕ) {change : ρ → ρ}
    (hkeep : ∀ row, key (change row) = key row) : Indexed key (rows.modify i change) index := by
  intro k j
  rw [h k j, List.getElem?_modify]
  constructor
  · rintro ⟨row, hrow, hkey⟩
    rw [hrow]
    split_ifs
    · exact ⟨change row, rfl, (hkeep row).trans hkey⟩
    · exact ⟨row, rfl, hkey⟩
  · rintro ⟨row, hrow, hkey⟩
    obtain ⟨old, hold, rfl⟩ := Option.map_eq_some_iff.1 hrow
    refine ⟨old, hold, ?_⟩
    split_ifs at hkey
    · rwa [hkeep] at hkey
    · exact hkey

/-- The rows, key by key. -/
theorem perm_flatMap_filter {f : ρ → κ} {keys : List κ} (hkeys : keys.Nodup)
    (h : ∀ row ∈ rows, f row ∈ keys) :
    rows.Perm (keys.flatMap fun k => rows.filter fun row => f row = k) := by
  induction keys generalizing rows with
  | nil =>
    have hnone : rows = [] := List.eq_nil_iff_forall_not_mem.2 fun row hrow => nomatch h row hrow
    rw [hnone]
    exact List.Perm.nil
  | cons k keys ih =>
    obtain ⟨hk, hkeys⟩ := List.nodup_cons.1 hkeys
    have hothers : ∀ row ∈ rows.filter fun row => !decide (f row = k), f row ∈ keys := by
      intro row hrow
      obtain ⟨hrow, hne⟩ := List.mem_filter.1 hrow
      exact (List.mem_cons.1 (h row hrow)).resolve_left (by simpa using hne)
    have hsame : ∀ k' ∈ keys, ((rows.filter fun row => !decide (f row = k)).filter
        fun row => f row = k').Perm (rows.filter fun row => f row = k') := by
      intro k' hk'
      have hne : k' ≠ k := fun heq => hk (heq ▸ hk')
      rw [List.filter_filter]
      apply List.Perm.of_eq
      apply List.filter_congr
      intro row _
      by_cases hrow : f row = k'
      · simp [hrow, hne]
      · simp [hrow]
    calc rows
        _ ~ (rows.filter fun row => f row = k) ++ rows.filter fun row => !decide (f row = k) :=
          (List.filter_append_perm _ _).symm
        _ ~ (rows.filter fun row => f row = k) ++
            keys.flatMap fun k' => rows.filter fun row => f row = k' :=
          ((ih hkeys hothers).trans (List.Perm.flatMap_left _ hsame)).append_left _

end NasMount.Foundation
