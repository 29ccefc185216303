import NasMount.Foundation.Indexed
import Mathlib.Data.List.Induction

/-!
# Tables kept through an index

Rows are appended, and later changed in place where an index finds them. What a
sequence of such steps leaves is a join: every row beside the items of its key,
and behind the rows the items that found none.
-/
namespace NasMount.Foundation

universe u v w

structure Table (κ : Type u) (ρ : Type v) where
  rows : List ρ := []
  index : AList fun _ : κ => ℕ := ∅

namespace Table

variable {κ : Type u} {ρ : Type v} {α : Type w} [DecidableEq κ]

/-- The position that the index has for a key. Nothing is found without one. -/
def find (t : Table κ ρ) (k : Option κ) : Option ℕ := k.bind t.index.lookup

def modify (t : Table κ ρ) (i : ℕ) (change : ρ → ρ) : Table κ ρ :=
  { t with rows := t.rows.modify i change }

/-- Add a row, and enter its key if it has one. -/
def append (key : ρ → Option κ) (t : Table κ ρ) (row : ρ) : Table κ ρ where
  rows := t.rows ++ [row]
  index :=
    match key row with
    | none => t.index
    | some k => t.index.insert k t.rows.length

/-- Change the row that an item finds. -/
def adjust (itemKey : α → Option κ) (update : α → ρ → ρ) (t : Table κ ρ) (a : α) : Table κ ρ :=
  match t.find (itemKey a) with
  | some i => t.modify i (update a)
  | none => t

/-- Change the row that an item finds, or add one. -/
def put (key : ρ → Option κ) (itemKey : α → Option κ) (update : α → ρ → ρ) (make : α → ρ)
    (t : Table κ ρ) (a : α) : Table κ ρ :=
  match t.find (itemKey a) with
  | some i => t.modify i (update a)
  | none => t.append key (make a)

/-- The index leads to exactly the rows with the key. -/
def Sound (key : ρ → Option κ) (t : Table κ ρ) : Prop := Indexed key t.rows t.index

/-- The item has the key of the row. -/
def meets (key : ρ → Option κ) (itemKey : α → Option κ) (row : ρ) (a : α) : Bool :=
  (itemKey a).isSome && key row = itemKey a

/-- The row beside the items of its key, in their order. -/
def settle (key : ρ → Option κ) (itemKey : α → Option κ) (update : α → ρ → ρ) (items : List α)
    (row : ρ) : ρ :=
  (items.filter (meets key itemKey row)).foldl (fun row a => update a row) row

/-- The items that no row has the key of. -/
def unmatched (key : ρ → Option κ) (itemKey : α → Option κ) (rows : List ρ) (items : List α) :
    List α :=
  items.filter fun a => !rows.any fun row => meets key itemKey row a

section Rules

variable {key : ρ → Option κ} {itemKey : α → Option κ} {update : α → ρ → ρ} {make : α → ρ}
  {t : Table κ ρ} {items : List α} {row : ρ} {rows : List ρ} {a : α} {k : κ} {i : ℕ}

theorem sound_empty (key : ρ → Option κ) : Sound key ({} : Table κ ρ) := indexed_nil key

/-- No key is at two rows. -/
theorem Sound.keys_nodup (h : Sound key t) : (t.rows.filterMap key).Nodup := by
  rw [List.Nodup, List.pairwise_filterMap, List.pairwise_iff_getElem]
  rintro i j hi hj hlt a ha b hb rfl
  have hfirst := (h a i).2 ⟨_, List.getElem?_eq_getElem hi, ha⟩
  have hsecond := (h a j).2 ⟨_, List.getElem?_eq_getElem hj, hb⟩
  rw [hfirst, Option.some.injEq] at hsecond
  omega

theorem meets_eq_true : meets key itemKey row a = true ↔
    ∃ k, itemKey a = some k ∧ key row = some k := by
  unfold meets
  cases itemKey a with
  | none => simp
  | some k => simp

theorem Sound.find_eq_none (h : Sound key t) :
    t.find (itemKey a) = none ↔ t.rows.any (fun row => meets key itemKey row a) = false := by
  rw [find, List.any_eq_false]
  constructor
  · intro hnone row hrow hmeets
    obtain ⟨k, hitem, hkey⟩ := meets_eq_true.1 hmeets
    obtain ⟨i, hi⟩ := List.mem_iff_getElem?.1 hrow
    rw [hitem, Option.bind_some, (h k i).2 ⟨row, hi, hkey⟩] at hnone
    exact nomatch hnone
  · intro hno
    cases hitem : itemKey a with
    | none => rfl
    | some k =>
      rw [Option.bind_some, Option.eq_none_iff_forall_ne_some]
      intro i hlookup
      obtain ⟨row, hrow, hkey⟩ := (h k i).1 hlookup
      exact hno row (List.mem_of_getElem? hrow) (meets_eq_true.2 ⟨k, hitem, hkey⟩)

/-- A change where the index leads to is a change of the rows with the key. -/
theorem Sound.modify_eq_map (h : Sound key t) (hfind : t.find (itemKey a) = some i) :
    t.rows.modify i (update a) =
      t.rows.map fun row => if meets key itemKey row a then update a row else row := by
  cases hitem : itemKey a with
  | none => simp [find, hitem] at hfind
  | some k =>
    rw [find, hitem, Option.bind_some] at hfind
    apply List.ext_getElem?
    intro j
    rw [List.getElem?_modify, List.getElem?_map]
    cases hrow : t.rows[j]? with
    | none => rfl
    | some row =>
      have hmeets : meets key itemKey row a = true ↔ i = j := by
        rw [meets_eq_true]
        constructor
        · rintro ⟨k', hitem', hkey⟩
          rw [hitem, Option.some.injEq] at hitem'
          subst hitem'
          have hlookup := (h k j).2 ⟨row, hrow, hkey⟩
          rwa [hfind, Option.some.injEq] at hlookup
        · rintro rfl
          obtain ⟨found, hfound, hkey⟩ := (h k i).1 hfind
          rw [hrow, Option.some.injEq] at hfound
          exact ⟨k, hitem, hfound ▸ hkey⟩
      by_cases hij : i = j
      · simp [hij, hmeets.2 hij]
      · simp [hij, mt hmeets.1 hij]

theorem Sound.modify (h : Sound key t) (hkeep : ∀ a row, key (update a row) = key row) (i : ℕ)
    (a : α) :
    Sound key (t.modify i (update a)) := Indexed.modify h i (hkeep a)

/-- Rows with distinct keys can be added. -/
theorem Sound.append (h : Sound key t) (hnew : ∀ k, key row = some k → t.index.lookup k = none) :
    Sound key (t.append key row) := by
  unfold Sound Table.append
  cases hkey : key row with
  | none => exact Indexed.append_none h hkey
  | some k => exact Indexed.append_some h hkey (hnew k hkey)

theorem settle_cons (hkeep : ∀ a row, key (update a row) = key row) (a : α) (items : List α)
    (row : ρ) :
    settle key itemKey update (a :: items) row =
      settle key itemKey update items (if meets key itemKey row a then update a row else row) := by
  unfold settle
  cases hmeets : meets key itemKey row a with
  | false =>
    rw [List.filter_cons_of_neg (by simp [hmeets])]
    rfl
  | true =>
    have hsame : meets key itemKey (update a row) = meets key itemKey row := by
      funext b
      rw [meets, meets, hkeep]
    rw [List.filter_cons_of_pos hmeets, List.foldl_cons, if_pos rfl, hsame]

theorem key_settle (hkeep : ∀ a row, key (update a row) = key row) (items : List α) (row : ρ) :
    key (settle key itemKey update items row) = key row := by
  induction items generalizing row with
  | nil => rfl
  | cons a items ih =>
    rw [settle_cons hkeep, ih]
    split_ifs
    · exact hkeep a row
    · rfl

/-- No item of the row's key changes it. -/
theorem settle_of_no_meet (h : ∀ a ∈ items, meets key itemKey row a = false) :
    settle key itemKey update items row = row := by
  rw [settle, List.filter_eq_nil_iff.2 fun a ha => by simp [h a ha]]
  rfl

/-- What every change keeps, all of them keep. -/
theorem settle_induction {P : ρ → Prop} (hstep : ∀ a row, P row → P (update a row)) (h : P row) :
    P (settle key itemKey update items row) := by
  unfold settle
  generalize items.filter (meets key itemKey row) = changes
  induction changes generalizing row with
  | nil => exact h
  | cons a changes ih => exact ih (hstep a row h)

theorem adjust_spec (hkeep : ∀ a row, key (update a row) = key row) (h : Sound key t) (a : α) :
    Sound key (adjust itemKey update t a) ∧ (adjust itemKey update t a).rows =
      t.rows.map fun row => if meets key itemKey row a then update a row else row := by
  unfold adjust
  cases hfind : t.find (itemKey a) with
  | some i => exact ⟨h.modify hkeep i a, h.modify_eq_map hfind⟩
  | none =>
    refine ⟨h, ?_⟩
    have hno := List.any_eq_false.1 (h.find_eq_none.1 hfind)
    symm
    apply (List.map_congr_left fun row hrow => ?_).trans (List.map_id _)
    rw [if_neg (hno row hrow)]
    rfl

/-- A sequence of changes is a change of every row by the items of its key. -/
theorem foldl_adjust (hkeep : ∀ a row, key (update a row) = key row) (h : Sound key t)
    (items : List α) :
    (items.foldl (adjust itemKey update) t).rows =
      t.rows.map (settle key itemKey update items) := by
  induction items generalizing t with
  | nil => exact (List.map_id _).symm
  | cons a items ih =>
    obtain ⟨hsound, hrows⟩ := adjust_spec hkeep h a
    rw [List.foldl_cons, ih hsound, hrows, List.map_map]
    apply List.map_congr_left
    intro row _
    rw [settle_cons hkeep]
    rfl

theorem unmatched_cons (rows : List ρ) (a : α) (items : List α) :
    unmatched key itemKey rows (a :: items) =
      if rows.any (fun row => meets key itemKey row a) then unmatched key itemKey rows items
      else a :: unmatched key itemKey rows items := by
  rw [unmatched, List.filter_cons]
  cases rows.any fun row => meets key itemKey row a <;> rfl

/-- Only the keys of the rows decide which items find one. -/
theorem unmatched_congr {rows' : List ρ} (h : rows'.map key = rows.map key) (items : List α) :
    unmatched key itemKey rows' items = unmatched key itemKey rows items := by
  have hany : ∀ (rows : List ρ) (a : α), rows.any (fun row => meets key itemKey row a) =
      (rows.map key).any fun k => (itemKey a).isSome && k = itemKey a := by
    intro rows a
    rw [List.any_map]
    rfl
  unfold unmatched
  apply List.filter_congr
  intro a _
  rw [hany, hany, h]

theorem unmatched_append (h : ∀ a ∈ items, meets key itemKey row a = false) :
    unmatched key itemKey (rows ++ [row]) items = unmatched key itemKey rows items := by
  unfold unmatched
  apply List.filter_congr
  intro a ha
  simp [h a ha]

/-- Of items with distinct keys no later one finds the row that the first one made. -/
theorem no_meet_of_distinct (hkey : key row = itemKey a)
    (hdistinct : ((a :: items).filterMap itemKey).Nodup) :
    ∀ b ∈ items, meets key itemKey row b = false := by
  intro b hb
  rw [Bool.eq_false_iff]
  intro hmeets
  obtain ⟨k, hitem, hrow⟩ := meets_eq_true.1 hmeets
  rw [hkey] at hrow
  rw [List.filterMap_cons_some hrow, List.nodup_cons] at hdistinct
  exact hdistinct.1 (List.mem_filterMap.2 ⟨b, hb, hitem⟩)

omit [DecidableEq κ] in
theorem distinct_tail (hdistinct : ((a :: items).filterMap itemKey).Nodup) :
    (items.filterMap itemKey).Nodup := by
  cases hitem : itemKey a with
  | none => rwa [List.filterMap_cons_none hitem] at hdistinct
  | some k =>
    rw [List.filterMap_cons_some hitem, List.nodup_cons] at hdistinct
    exact hdistinct.2

theorem Sound.append_of_miss (h : Sound key t) (hkey : key row = itemKey a)
    (hfind : t.find (itemKey a) = none) : Sound key (t.append key row) := by
  apply h.append
  intro k hk
  rw [hkey] at hk
  rwa [find, hk, Option.bind_some] at hfind

/-- What one item does to the rows and to the rest of the items. -/
theorem put_spec (hkeep : ∀ a row, key (update a row) = key row)
    (hmake : ∀ a, key (make a) = itemKey a)
    (h : Sound key t) (hdistinct : ((a :: items).filterMap itemKey).Nodup) :
    Sound key (put key itemKey update make t a) ∧
      unmatched key itemKey (put key itemKey update make t a).rows items =
        unmatched key itemKey t.rows items := by
  unfold put
  cases hfind : t.find (itemKey a) with
  | some i =>
    refine ⟨h.modify hkeep i a, ?_⟩
    apply unmatched_congr
    have hrows : (t.modify i (update a)).rows =
        t.rows.map fun row => if meets key itemKey row a then update a row else row :=
      h.modify_eq_map hfind
    rw [hrows, List.map_map]
    apply List.map_congr_left
    intro row _
    dsimp only [Function.comp_apply]
    split_ifs
    · exact hkeep a row
    · rfl
  | none =>
    exact ⟨h.append_of_miss (hmake a) hfind,
      unmatched_append (no_meet_of_distinct (hmake a) hdistinct)⟩

/-- Items with distinct keys are joined to the rows, and the ones that found no row
stand behind them. -/
theorem foldl_put (hkeep : ∀ a row, key (update a row) = key row)
    (hmake : ∀ a, key (make a) = itemKey a)
    (h : Sound key t) (hdistinct : (items.filterMap itemKey).Nodup) :
    Sound key (items.foldl (put key itemKey update make) t) ∧
      (items.foldl (put key itemKey update make) t).rows =
        t.rows.map (settle key itemKey update items) ++
          (unmatched key itemKey t.rows items).map make := by
  induction items generalizing t with
  | nil =>
    refine ⟨h, ?_⟩
    rw [unmatched, List.filter_nil, List.map_nil, List.append_nil]
    exact (List.map_id _).symm
  | cons a items ih =>
    obtain ⟨hsound, hunmatched⟩ := put_spec hkeep hmake h hdistinct
    obtain ⟨hfinal, hrows⟩ := ih hsound (distinct_tail hdistinct)
    refine ⟨hfinal, ?_⟩
    rw [List.foldl_cons, hrows, hunmatched, unmatched_cons]
    unfold put
    cases hfind : t.find (itemKey a) with
    | some i =>
      have hhit : t.rows.any (fun row => meets key itemKey row a) = true := by
        cases hany : t.rows.any (fun row => meets key itemKey row a) with
        | true => rfl
        | false => exact nomatch hfind.symm.trans (h.find_eq_none.2 hany)
      have hmodified : (t.modify i (update a)).rows =
          t.rows.map fun row => if meets key itemKey row a then update a row else row :=
        h.modify_eq_map hfind
      rw [if_pos hhit]
      dsimp only
      rw [hmodified, List.map_map]
      congr 1
      apply List.map_congr_left
      intro row _
      rw [settle_cons hkeep]
      rfl
    | none =>
      have hmiss := h.find_eq_none.1 hfind
      have happended : (t.append key (make a)).rows = t.rows ++ [make a] := rfl
      rw [hmiss, if_neg Bool.false_ne_true]
      dsimp only
      rw [happended, List.map_append, List.map_singleton,
        settle_of_no_meet (no_meet_of_distinct (hmake a) hdistinct), List.map_cons,
        List.append_assoc, List.singleton_append]
      congr 1
      apply List.map_congr_left
      intro row hrow
      rw [settle_cons hkeep, if_neg (List.any_eq_false.1 hmiss row hrow)]

/-- Rows with distinct keys fill an empty table as they are. -/
theorem foldl_append (hdistinct : (rows.filterMap key).Nodup) :
    Sound key (rows.foldl (append key) ({} : Table κ ρ)) ∧
      (rows.foldl (append key) ({} : Table κ ρ)).rows = rows := by
  induction rows using List.reverseRecOn with
  | nil => exact ⟨sound_empty key, rfl⟩
  | append_singleton rows row ih =>
    rw [List.filterMap_append, List.nodup_append] at hdistinct
    obtain ⟨hfirst, -, hapart⟩ := hdistinct
    obtain ⟨hsound, hrows⟩ := ih hfirst
    rw [List.foldl_append, List.foldl_cons, List.foldl_nil]
    constructor
    · apply hsound.append
      intro k hk
      rw [Option.eq_none_iff_forall_ne_some]
      intro i hlookup
      obtain ⟨found, hfound, hkey⟩ := (hsound k i).1 hlookup
      rw [hrows] at hfound
      apply hapart k (List.mem_filterMap.2 ⟨found, List.mem_of_getElem? hfound, hkey⟩) k _ rfl
      rw [List.filterMap_cons_some hk]
      exact List.mem_cons_self
    · rw [append, hrows]

/-- With distinct keys at most one item meets a row. -/
theorem settle_of_meet (hkeep : ∀ a row, key (update a row) = key row)
    (hdistinct : (items.filterMap itemKey).Nodup) (ha : a ∈ items)
    (hmeets : meets key itemKey row a = true) :
    settle key itemKey update items row = update a row := by
  obtain ⟨k, hitem, hkey⟩ := meets_eq_true.1 hmeets
  induction items with
  | nil => exact absurd ha List.not_mem_nil
  | cons b items ih =>
    rw [settle_cons hkeep]
    rcases List.mem_cons.1 ha with rfl | hlater
    · rw [if_pos hmeets]
      apply settle_of_no_meet
      apply no_meet_of_distinct _ hdistinct
      rw [hkeep, hkey, hitem]
    · have hno : meets key itemKey row b = false := by
        rw [Bool.eq_false_iff]
        intro hb
        have hrow : key row = itemKey b := by
          obtain ⟨k', hitem', hkey'⟩ := meets_eq_true.1 hb
          rw [hitem', hkey']
        rw [no_meet_of_distinct hrow hdistinct a hlater] at hmeets
        exact nomatch hmeets
      rw [if_neg (by simp [hno])]
      exact ih (distinct_tail hdistinct) hlater

end Rules

end Table

end NasMount.Foundation
