import Mathlib.Data.List.TakeWhile
import Mathlib.Tactic

/-!
# Anchored patterns

Patterns built from fixed text, runs of characters of one class, sequences and
alternatives, matched against a whole text. The matcher returns everything a
pattern can leave over of a text, so that it decides the relation that says what
the pattern means.
-/
namespace NasMount.Foundation

/-- A pattern over characters. A run has a least length and possibly a greatest. -/
inductive Pattern
  | text (s : List Char)
  | run (cls : Char → Bool) (least : ℕ) (greatest : Option ℕ)
  | seq (p q : Pattern)
  | alt (p q : Pattern)
  /-- The alternative of no alternatives. -/
  | none

namespace Pattern

/-- The texts a pattern stands for. -/
def Matches : Pattern → List Char → Prop
  | text s, w => w = s
  | run cls least greatest, w =>
    (∀ c ∈ w, cls c = true) ∧ least ≤ w.length ∧ ∀ n ∈ greatest, w.length ≤ n
  | seq p q, w => ∃ u v, w = u ++ v ∧ p.Matches u ∧ q.Matches v
  | alt p q, w => p.Matches w ∨ q.Matches w
  | none, _ => False

/-- One of several alternatives. -/
def oneOf (ps : List Pattern) : Pattern := ps.foldr alt none

/-- A pattern or nothing: `(?:p)?`. -/
def opt (p : Pattern) : Pattern := alt p (text [])

/-- One or more characters of a class. -/
def some (cls : Char → Bool) : Pattern := run cls 1 Option.none

section Rules

variable {p q : Pattern} {ps : List Pattern} {s w : List Char} {cls : Char → Bool}

@[simp] theorem matches_text : (text s).Matches w ↔ w = s := Iff.rfl

@[simp] theorem matches_alt : (alt p q).Matches w ↔ p.Matches w ∨ q.Matches w := Iff.rfl

@[simp] theorem matches_opt : (opt p).Matches w ↔ p.Matches w ∨ w = [] := Iff.rfl

@[simp] theorem matches_oneOf : (oneOf ps).Matches w ↔ ∃ p ∈ ps, p.Matches w := by
  induction ps with
  | nil => simp [oneOf, Matches]
  | cons p ps ih => simp [oneOf, ← ih]

@[simp] theorem matches_text_seq : (seq (text s) q).Matches w ↔ ∃ v, w = s ++ v ∧ q.Matches v := by
  constructor
  · rintro ⟨u, v, rfl, rfl, hv⟩
    exact ⟨v, rfl, hv⟩
  · rintro ⟨v, rfl, hv⟩
    exact ⟨s, v, rfl, rfl, hv⟩

@[simp] theorem matches_seq_text : (seq p (text s)).Matches w ↔ ∃ u, w = u ++ s ∧ p.Matches u := by
  constructor
  · rintro ⟨u, v, rfl, hu, rfl⟩
    exact ⟨u, rfl, hu⟩
  · rintro ⟨u, rfl, hu⟩
    exact ⟨u, s, rfl, hu, rfl⟩

@[simp] theorem matches_some : (some cls).Matches w ↔ w ≠ [] ∧ ∀ c ∈ w, cls c = true := by
  rw [some, Matches, Nat.one_le_iff_ne_zero, Ne, List.length_eq_zero_iff]
  simp [and_comm]

end Rules

/-- One pattern after another. Fixed text is joined with the fixed text before it. -/
def join : Pattern → Pattern → Pattern
  | text s, text t => text (s ++ t)
  | text s, seq (text t) q => seq (text (s ++ t)) q
  | seq p q, r => seq p (join q r)
  | p, q => seq p q

theorem matches_join {p q : Pattern} {w : List Char} :
    (join p q).Matches w ↔ (seq p q).Matches w := by
  induction p, q using join.induct generalizing w with
  | case1 s t => simp [join]
  | case2 s t q =>
    simp only [join, matches_text_seq]
    constructor
    · rintro ⟨v, rfl, hv⟩
      exact ⟨t ++ v, List.append_assoc _ _ _, v, rfl, hv⟩
    · rintro ⟨v, rfl, v', rfl, hv'⟩
      exact ⟨v', (List.append_assoc _ _ _).symm, hv'⟩
  | case3 p q r ih =>
    simp only [join, Matches, ih]
    constructor
    · rintro ⟨u, v, rfl, hu, u', v', rfl, hu', hv'⟩
      exact ⟨u ++ u', v', (List.append_assoc _ _ _).symm, ⟨u, u', rfl, hu, hu'⟩, hv'⟩
    · rintro ⟨u, v, rfl, ⟨u', u'', rfl, hu', hu''⟩, hv⟩
      exact ⟨u', u'' ++ v, List.append_assoc _ _ _, hu', u'', v, rfl, hu'', hv⟩
  | case4 p q htexts htext hseq => rw [join.eq_4 p q hseq htexts htext]

/-- The patterns without alternatives that a pattern stands for, by their last parts
first. -/
def alternatives : Pattern → List Pattern
  | text s => [text s]
  | run cls least greatest => [run cls least greatest]
  | seq p q => q.alternatives.flatMap fun last => p.alternatives.map (·.join last)
  | alt p q => p.alternatives ++ q.alternatives
  | none => []

theorem matches_alternatives {p : Pattern} {w : List Char} :
    p.Matches w ↔ ∃ a ∈ p.alternatives, a.Matches w := by
  induction p generalizing w with
  | text s => simp [alternatives]
  | run cls least greatest => simp [alternatives]
  | none => simp [alternatives, Matches]
  | alt p q ihp ihq =>
    simp only [alternatives, List.mem_append, matches_alt, ihp, ihq, or_and_right, exists_or]
  | seq p q ihp ihq =>
    simp only [alternatives, List.mem_flatMap, List.mem_map]
    constructor
    · rintro ⟨u, v, rfl, hu, hv⟩
      obtain ⟨first, hfirst, hu⟩ := ihp.mp hu
      obtain ⟨last, hlast, hv⟩ := ihq.mp hv
      exact ⟨_, ⟨last, hlast, first, hfirst, rfl⟩, matches_join.mpr ⟨u, v, rfl, hu, hv⟩⟩
    · rintro ⟨_, ⟨last, hlast, first, hfirst, rfl⟩, hjoined⟩
      obtain ⟨u, v, rfl, hu, hv⟩ := matches_join.mp hjoined
      exact ⟨u, v, rfl, ihp.mpr ⟨first, hfirst, hu⟩, ihq.mpr ⟨last, hlast, hv⟩⟩

/-- The fixed text that every text of a pattern ends with, where the pattern shows
one. -/
def endText : Pattern → Option (List Char)
  | text s => Option.some s
  | seq _ q => q.endText
  | run _ _ _ | alt _ _ | none => Option.none

theorem suffix_of_endText {p : Pattern} {s w : List Char} (hend : p.endText = Option.some s)
    (h : p.Matches w) : ∃ u, w = u ++ s := by
  induction p generalizing w with
  | text t => exact ⟨[], by rw [h, List.nil_append, Option.some.inj hend]⟩
  | seq p q _ ihq =>
    obtain ⟨u, v, rfl, -, hv⟩ := h
    obtain ⟨v', rfl⟩ := ihq hend hv
    exact ⟨u ++ v', (List.append_assoc _ _ _).symm⟩
  | run cls least greatest => exact nomatch hend
  | alt p q _ _ => exact nomatch hend
  | none => exact nomatch hend

/-- Everything a text can leave over when a pattern matches its beginning. -/
def rests : Pattern → List Char → List (List Char)
  | text s, w => if s.isPrefixOf w then [w.drop s.length] else []
  | run cls least greatest, w =>
    let longest := (w.takeWhile cls).length
    let lengths := (List.range (longest + 1)).filter fun n => least ≤ n ∧ ∀ m ∈ greatest, n ≤ m
    lengths.map w.drop
  | seq p q, w => (p.rests w).flatMap q.rests
  | alt p q, w => p.rests w ++ q.rests w
  | none, _ => []

/-- A prefix of the longest run of a class is one whose characters are in it. -/
theorem take_mem_cls {cls : Char → Bool} {w : List Char} {n : ℕ}
    (h : n ≤ (w.takeWhile cls).length) : ∀ c ∈ w.take n, cls c = true := by
  intro c hc
  have hsame : w.take n = (w.takeWhile cls).take n := by
    have htake := List.prefix_iff_eq_take.mp (List.takeWhile_prefix cls (l := w))
    rw [htake, List.take_take, Nat.min_eq_left h]
  rw [hsame] at hc
  exact List.mem_takeWhile_imp (List.mem_of_mem_take hc)

/-- What is left over is what stands after a text the pattern stands for. -/
theorem mem_rests {p : Pattern} {w rest : List Char} :
    rest ∈ p.rests w ↔ ∃ u, w = u ++ rest ∧ p.Matches u := by
  induction p generalizing w rest with
  | text s =>
    rw [rests]
    constructor
    · intro h
      split_ifs at h with hprefix
      · obtain ⟨v, rfl⟩ := List.isPrefixOf_iff_prefix.mp hprefix
        obtain rfl := List.mem_singleton.mp h
        exact ⟨s, by simp, rfl⟩
      · exact absurd h List.not_mem_nil
    · rintro ⟨u, rfl, rfl⟩
      rw [if_pos (List.isPrefixOf_iff_prefix.mpr (List.prefix_append _ _))]
      simp
  | run cls least greatest =>
    simp only [rests, List.mem_map, List.mem_filter, List.mem_range, decide_eq_true_eq, Matches]
    constructor
    · rintro ⟨n, ⟨hn, hleast, hgreatest⟩, rfl⟩
      have hlength : (w.take n).length = n := by
        have htake := (List.takeWhile_prefix cls (l := w)).length_le
        rw [List.length_take]
        omega
      refine ⟨w.take n, (List.take_append_drop n w).symm, take_mem_cls (by omega), ?_, ?_⟩
      · rwa [hlength]
      · rwa [hlength]
    · rintro ⟨u, rfl, hcls, hleast, hgreatest⟩
      refine ⟨u.length, ⟨?_, hleast, hgreatest⟩, by simp⟩
      rw [List.takeWhile_append_of_pos hcls, List.length_append]
      omega
  | seq p q ihp ihq =>
    simp only [rests, List.mem_flatMap, ihp, ihq, Matches]
    constructor
    · rintro ⟨v, ⟨u, rfl, hu⟩, u', rfl, hu'⟩
      exact ⟨u ++ u', by simp, u, u', rfl, hu, hu'⟩
    · rintro ⟨t, rfl, u, u', rfl, hu, hu'⟩
      exact ⟨u' ++ rest, ⟨u, by simp, hu⟩, u', rfl, hu'⟩
  | alt p q ihp ihq =>
    simp only [rests, List.mem_append, ihp, ihq, Matches]
    constructor
    · rintro (⟨u, rfl, hu⟩ | ⟨u, rfl, hu⟩)
      · exact ⟨u, rfl, Or.inl hu⟩
      · exact ⟨u, rfl, Or.inr hu⟩
    · rintro ⟨u, rfl, hu | hu⟩
      · exact Or.inl ⟨u, rfl, hu⟩
      · exact Or.inr ⟨u, rfl, hu⟩
  | none => simp [rests, Matches]

/-- The matcher, against the whole text. -/
def accepts (p : Pattern) (w : List Char) : Bool := decide ([] ∈ p.rests w)

@[simp] theorem accepts_iff {p : Pattern} {w : List Char} : p.accepts w = true ↔ p.Matches w := by
  simp [accepts, mem_rests]

end Pattern

end NasMount.Foundation
