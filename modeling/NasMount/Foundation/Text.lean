import Mathlib.Data.Char
import Mathlib.Data.List.DropRight
import Mathlib.Data.List.Lex
import Mathlib.Data.Nat.Digits.Lemmas
import Mathlib.Tactic

/-!
# Text as lists of characters

The string operations of the program, over lists of Unicode characters:
splitting at a separator, prefixes and suffixes, trimming, replacement of a
doubled character, and decimal numbers. Unpaired surrogates, which no character
list can hold, are outside this model.
-/
namespace NasMount.Foundation

/-- A string of the program. -/
abbrev QString := List Char

/-- The text of a string literal. -/
abbrev qs (s : String) : QString := s.toList

/-- Equality of texts, and of lists of them, is lawful: named here, so that every
membership test of the project carries the same proof. -/
instance instLawfulBEqText : LawfulBEq (List Char) := List.instLawfulBEq

instance instLawfulBEqTexts : LawfulBEq (List (List Char)) := List.instLawfulBEq

theorem qs_append (s t : String) : qs s ++ qs t = qs (s ++ t) := String.toList_append.symm

namespace QString

/-- `QString::split(sep)`, keeping empty parts. -/
def split (sep : Char) : QString → List QString
  | [] => [[]]
  | c :: cs =>
    if c = sep then [] :: split sep cs
    else
      match split sep cs with
      | [] => [[c]]
      | part :: parts => (c :: part) :: parts

/-- `QString::split(sep, Qt::SkipEmptyParts)`. -/
def splitSkipEmpty (sep : Char) (s : QString) : List QString :=
  (split sep s).filter fun part => part ≠ []

theorem split_ne_nil (sep : Char) (s : QString) : split sep s ≠ [] := by
  cases s with
  | nil => simp [split]
  | cons c cs =>
    rw [split]
    split_ifs
    · simp
    · cases split sep cs <;> simp

theorem split_of_notMem {sep : Char} {s : QString} (h : sep ∉ s) : split sep s = [s] := by
  induction s with
  | nil => rfl
  | cons c cs ih =>
    simp only [List.mem_cons, not_or] at h
    rw [split, if_neg (Ne.symm h.1), ih h.2]

/-- A part without separators is split off whole. -/
theorem split_append_sep {sep : Char} {part : QString} (h : sep ∉ part) (rest : QString) :
    split sep (part ++ sep :: rest) = part :: split sep rest := by
  induction part with
  | nil => simp [split]
  | cons c cs ih =>
    simp only [List.mem_cons, not_or] at h
    rw [List.cons_append, split, if_neg (Ne.symm h.1), ih h.2]

/-- Text on either side of a separator is split on its own. -/
theorem split_append (sep : Char) (s t : QString) :
    split sep (s ++ sep :: t) = split sep s ++ split sep t := by
  induction s with
  | nil => simp [split]
  | cons c cs ih =>
    rw [List.cons_append, split, split, ih]
    split_ifs
    · rfl
    · cases hparts : split sep cs with
      | nil => exact absurd hparts (split_ne_nil sep cs)
      | cons part parts => rfl

theorem splitSkipEmpty_append (sep : Char) (s t : QString) :
    splitSkipEmpty sep (s ++ sep :: t) = splitSkipEmpty sep s ++ splitSkipEmpty sep t := by
  rw [splitSkipEmpty, split_append, List.filter_append]
  rfl

/-- Splitting what was joined with the same separator. -/
theorem split_intercalate {sep : Char} {parts : List QString} (h : ∀ part ∈ parts, sep ∉ part)
    (hne : parts ≠ []) : split sep ([sep].intercalate parts) = parts := by
  induction parts with
  | nil => exact absurd rfl hne
  | cons part rest ih =>
    have hpart := h part List.mem_cons_self
    cases rest with
    | nil => simpa using split_of_notMem hpart
    | cons next rest =>
      have hrest := ih (fun p hp => h p (List.mem_cons_of_mem _ hp)) (by simp)
      rw [List.intercalate_cons_cons, List.append_assoc, List.singleton_append,
        split_append_sep hpart, hrest]

theorem mem_of_mem_split {sep c : Char} {s part : QString} (h : part ∈ split sep s)
    (hc : c ∈ part) :
    c ∈ s := by
  induction s generalizing part with
  | nil =>
    obtain rfl := List.mem_singleton.mp h
    exact hc
  | cons d ds ih =>
    rw [split] at h
    split_ifs at h with hsep
    · rcases List.mem_cons.mp h with rfl | h
      · exact absurd hc List.not_mem_nil
      · exact List.mem_cons_of_mem _ (ih h hc)
    · cases hs : split sep ds with
      | nil => exact absurd hs (split_ne_nil sep ds)
      | cons first parts =>
        rw [hs] at h ih
        rcases List.mem_cons.mp h with rfl | h
        · rcases List.mem_cons.mp hc with rfl | hc
          · exact List.mem_cons_self ..
          · exact List.mem_cons_of_mem _ (ih (List.mem_cons_self ..) hc)
        · exact List.mem_cons_of_mem _ (ih (List.mem_cons_of_mem _ h) hc)

theorem mem_intercalate {sep c : Char} {parts : List QString} (h : c ∈ [sep].intercalate parts) :
    c = sep ∨ ∃ part ∈ parts, c ∈ part := by
  induction parts with
  | nil => exact absurd h List.not_mem_nil
  | cons part rest ih =>
    cases rest with
    | nil => exact Or.inr ⟨part, List.mem_cons_self .., by simpa using h⟩
    | cons next rest =>
      rw [List.intercalate_cons_cons, List.mem_append, List.mem_append, List.mem_singleton] at h
      rcases h with (h | h) | h
      · exact Or.inr ⟨part, List.mem_cons_self .., h⟩
      · exact Or.inl h
      · rcases ih h with h | ⟨other, hother, h⟩
        · exact Or.inl h
        · exact Or.inr ⟨other, List.mem_cons_of_mem _ hother, h⟩

/-- Joined parts end as the last one does. -/
theorem getLast?_intercalate {sep : Char} {parts : List QString} {last : QString}
    (hlast : parts.getLast? = some last) (hne : last ≠ []) :
    ([sep].intercalate parts).getLast? = last.getLast? := by
  obtain ⟨front, rfl⟩ := List.getLast?_eq_some_iff.mp hlast
  clear hlast
  induction front with
  | nil => simp
  | cons part front ih =>
    have hrest : [sep].intercalate (front ++ [last]) ≠ [] := by
      intro hnil
      rw [hnil] at ih
      exact hne (List.getLast?_eq_none_iff.mp ih.symm)
    obtain ⟨next, rest, hcons⟩ : ∃ next rest, front ++ [last] = next :: rest :=
      List.exists_cons_of_ne_nil (by simp)
    rw [List.cons_append, hcons, List.intercalate_cons_cons, ← hcons,
      List.getLast?_append_of_ne_nil _ hrest, ih]

theorem notMem_of_mem_split {sep : Char} {s part : QString} (h : part ∈ split sep s) :
    sep ∉ part := by
  induction s generalizing part with
  | nil => simp_all [split]
  | cons c cs ih =>
    rw [split] at h
    split_ifs at h with hc
    · rcases List.mem_cons.mp h with rfl | h
      · simp
      · exact ih h
    · cases hs : split sep cs with
      | nil => exact absurd hs (split_ne_nil sep cs)
      | cons q qs' =>
        rw [hs] at h ih
        rcases List.mem_cons.mp h with rfl | h
        · simp only [List.mem_cons, not_or]
          exact ⟨Ne.symm hc, ih (List.mem_cons_self ..)⟩
        · exact ih (List.mem_cons_of_mem _ h)

/-- Lines, each ended by a line feed. -/
def unlines (lines : List QString) : QString := lines.flatMap fun line => line ++ ['\n']

@[simp] theorem unlines_nil : unlines [] = [] := rfl

@[simp] theorem unlines_cons (line : QString) (lines : List QString) :
    unlines (line :: lines) = line ++ '\n' :: unlines lines := by simp [unlines]

theorem unlines_append (xs ys : List QString) : unlines (xs ++ ys) = unlines xs ++ unlines ys := by
  simp [unlines]

theorem split_unlines {lines : List QString} (h : ∀ line ∈ lines, '\n' ∉ line) :
    split '\n' (unlines lines) = lines ++ [[]] := by
  induction lines with
  | nil => rfl
  | cons line lines ih =>
    rw [unlines_cons, split_append_sep (h line (List.mem_cons_self ..)),
      ih fun l hl => h l (List.mem_cons_of_mem _ hl), List.cons_append]

/-- The text after a given prefix, if the string starts with it. -/
def stripPrefix? : QString → QString → Option QString
  | [], s => some s
  | _ :: _, [] => none
  | p :: ps, c :: cs => if p = c then stripPrefix? ps cs else none

@[simp] theorem stripPrefix?_append (p s : QString) : stripPrefix? p (p ++ s) = some s := by
  induction p with
  | nil => cases s <;> rfl
  | cons c cs ih => simp [stripPrefix?, ih]

theorem stripPrefix?_eq_some {p s rest : QString} :
    stripPrefix? p s = some rest ↔ s = p ++ rest := by
  constructor
  · intro h
    induction p generalizing s with
    | nil => simpa [stripPrefix?] using h
    | cons c cs ih =>
      cases s with
      | nil => simp [stripPrefix?] at h
      | cons d ds =>
        rw [stripPrefix?] at h
        split_ifs at h with hc
        rw [hc, List.cons_append, ih h]
  · rintro rfl
    exact stripPrefix?_append p rest

theorem stripPrefix?_append_left (p q s : QString) :
    stripPrefix? (p ++ q) (p ++ s) = stripPrefix? q s := by
  induction p with
  | nil => rfl
  | cons c cs ih => simp [stripPrefix?, ih]

/-- Two different words ended by the same mark are told apart by it. -/
theorem stripPrefix?_word_ne {mark : Char} {v w s : QString} (hv : mark ∉ v) (hw : mark ∉ w)
    (hne : v ≠ w) : stripPrefix? (v ++ [mark]) (w ++ mark :: s) = none := by
  induction v generalizing w with
  | nil =>
    cases w with
    | nil => exact absurd rfl hne
    | cons d ds =>
      simp only [List.mem_cons, not_or] at hw
      simp [stripPrefix?, hw.1]
  | cons c cs ih =>
    simp only [List.mem_cons, not_or] at hv
    cases w with
    | nil => simp [stripPrefix?, Ne.symm hv.1]
    | cons d ds =>
      simp only [List.mem_cons, not_or] at hw
      by_cases hcd : c = d
      · subst hcd
        simpa [stripPrefix?] using ih hv.2 hw.2 fun h => hne (by rw [h])
      · simp [stripPrefix?, hcd]

/-- `QString::startsWith`. -/
def startsWith (s p : QString) : Bool := (stripPrefix? p s).isSome

@[simp] theorem startsWith_append (p s : QString) : startsWith (p ++ s) p = true := by
  simp [startsWith]

/-- `QString::endsWith(QLatin1Char)`. -/
def endsWithChar (s : QString) (c : Char) : Bool := s.getLast? == some c

/-- Drop every trailing occurrence of a character: the `chop(1)` loop. -/
def chopTrailing (c : Char) (s : QString) : QString := s.rdropWhile (· = c)

theorem mem_of_mem_chopTrailing {c d : Char} {s : QString} (h : d ∈ chopTrailing c s) : d ∈ s :=
  (List.rdropWhile_prefix _ _).subset h

@[simp] theorem chopTrailing_idem (c : Char) (s : QString) :
    chopTrailing c (chopTrailing c s) = chopTrailing c s :=
  List.rdropWhile_idempotent _ _

/-- What `chopTrailing` takes off is all that character, and what stays does not end in it. -/
theorem chopTrailing_trailing (c : Char) (s : QString) :
    (∃ rest : QString, (∀ d ∈ rest, d = c) ∧ s = chopTrailing c s ++ rest) ∧
      (chopTrailing c s).getLast? ≠ some c := by
  constructor
  · refine ⟨s.rtakeWhile (· = c), ?_, (List.rdropWhile_append_rtakeWhile ..).symm⟩
    intro d hd
    simpa using List.mem_rtakeWhile_imp hd
  · intro hlast
    have hne : chopTrailing c s ≠ [] := by
      intro hnil
      rw [hnil] at hlast
      exact nomatch hlast
    have hkept := List.rdropWhile_last_not (fun d => decide (d = c)) s hne
    rw [List.getLast?_eq_some_getLast hne] at hlast
    exact hkept (decide_eq_true (Option.some.inj hlast))

/-- A text that does not end in `c` is what is left when every `c` after it goes. -/
theorem chopTrailing_append {c : Char} {s rest : QString} (hs : s.getLast? ≠ some c)
    (hrest : ∀ d ∈ rest, d = c) : chopTrailing c (s ++ rest) = s := by
  induction rest using List.reverseRecOn with
  | nil =>
    rw [List.append_nil, chopTrailing, List.rdropWhile_eq_self_iff]
    intro hne hlast
    apply hs
    rw [List.getLast?_eq_some_getLast hne, of_decide_eq_true hlast]
  | append_singleton rest d ih =>
    have hd : d = c := hrest d (by simp)
    rw [chopTrailing, ← List.append_assoc,
      List.rdropWhile_concat_pos (fun e => decide (e = c)) (s ++ rest) d (decide_eq_true hd)]
    exact ih fun e he => hrest e (by simp [he])

/-- `QChar::isSpace`: the Unicode separators and the ASCII white space. -/
def isSpace (c : Char) : Bool :=
  let n := c.toNat
  n == 0x20 || (0x09 ≤ n && n ≤ 0x0D) || n == 0x85 || n == 0xA0 || n == 0x1680 ||
    (0x2000 ≤ n && n ≤ 0x200A) || n == 0x2028 || n == 0x2029 || n == 0x202F || n == 0x205F ||
    n == 0x3000

/-- `QString::trimmed`. -/
def trimmed (s : QString) : QString := (s.dropWhile isSpace).rdropWhile isSpace

/-- Replace each single `c` by two of them: `replace('%', "%%")`. -/
def double (c : Char) (s : QString) : QString := s.flatMap fun d => if d = c then [c, c] else [d]

/-- Replace each adjacent pair of `c`, from the left, by one: `replace("%%", "%")`. -/
def undouble (c : Char) : QString → QString
  | [] => []
  | [d] => [d]
  | d :: e :: rest => if d = c ∧ e = c then c :: undouble c rest else d :: undouble c (e :: rest)

theorem undouble_cons_ne {c d : Char} (h : d ≠ c) (s : QString) :
    undouble c (d :: s) = d :: undouble c s := by
  cases s <;> simp [undouble, h]

/-- Undoing a doubling gives the original text back. -/
@[simp] theorem undouble_double (c : Char) (s : QString) : undouble c (double c s) = s := by
  induction s with
  | nil => rfl
  | cons d ds ih =>
    by_cases h : d = c
    · subst h
      simpa [double, undouble] using ih
    · simpa [double, h, undouble_cons_ne h] using ih

theorem mem_double {c d : Char} {s : QString} : d ∈ double c s ↔ d ∈ s := by
  simp only [double, List.mem_flatMap]
  constructor
  · rintro ⟨e, he, hd⟩
    split_ifs at hd with h <;> simp_all
  · intro h
    refine ⟨d, h, ?_⟩
    split_ifs with hc <;> simp [hc]

/-- `QString::toHtmlEscaped`. -/
def toHtmlEscaped (s : QString) : QString :=
  s.flatMap fun c =>
    if c = '<' then qs "&lt;"
    else if c = '>' then qs "&gt;"
    else if c = '&' then qs "&amp;"
    else if c = '\"' then qs "&quot;"
    else [c]

/-- `QString::arg` with several arguments: one pass over the template, so that
a place marker inside a substituted value stays text. -/
def multiArg (args : List QString) : QString → QString
  | [] => []
  | [c] => [c]
  | c :: d :: rest =>
    if c = '%' ∧ '1' ≤ d ∧ d.toNat - 49 < args.length then
      args.getD (d.toNat - 49) [] ++ multiArg args rest
    else c :: multiArg args (d :: rest)

theorem multiArg_of_notMem {args : List QString} {s : QString} (h : '%' ∉ s) :
    multiArg args s = s := by
  fun_induction multiArg args s with
  | case1 => rfl
  | case2 => rfl
  | case3 c d rest hplace => simp [hplace.1] at h
  | case4 c d rest _ ih =>
    rw [ih fun hm => h (List.mem_cons_of_mem _ hm)]

/-- A template can be read piecewise when no piece ends inside a marker. -/
theorem multiArg_append {args : List QString} {s : QString} (h : s.getLast? ≠ some '%')
    (t : QString) : multiArg args (s ++ t) = multiArg args s ++ multiArg args t := by
  fun_induction multiArg args s with
  | case1 => rfl
  | case2 c =>
    have hc : c ≠ '%' := by simpa using h
    cases t <;> simp [multiArg, hc]
  | case3 c d rest hplace ih =>
    have hlast : rest.getLast? ≠ some '%' := by
      cases rest with
      | nil => simp
      | cons e es => simpa using h
    rw [List.cons_append, List.cons_append, multiArg, if_pos hplace, ih hlast, List.append_assoc]
  | case4 c d rest hplace ih =>
    have hlast : (d :: rest).getLast? ≠ some '%' := by simpa using h
    rw [List.cons_append, List.cons_append, multiArg, if_neg hplace, ← List.cons_append,
      ih hlast, List.cons_append]

/-- The number of UTF-8 bytes: `toUtf8().size()`. -/
def utf8Size (s : QString) : ℕ := (s.map Char.utf8Size).sum

theorem utf8Size_cons (c : Char) (s : QString) : utf8Size (c :: s) = c.utf8Size + utf8Size s := rfl

@[simp] theorem utf8Size_append (s t : QString) : utf8Size (s ++ t) = utf8Size s + utf8Size t := by
  simp [utf8Size]

/-- `QString::number`, in base ten. -/
def number (n : ℕ) : QString :=
  if n = 0 then ['0'] else (Nat.digits 10 n).reverse.map Nat.digitChar

/-- `QString::arg` of a number in base eight. -/
def octal (n : ℕ) : QString :=
  if n = 0 then ['0'] else (Nat.digits 8 n).reverse.map Nat.digitChar

/-- An ASCII decimal digit. -/
def isDigit (c : Char) : Bool := '0' ≤ c && c ≤ '9'

/-- The value of a string of decimal digits. -/
def digitsValue (s : QString) : ℕ := Nat.ofDigits 10 (s.reverse.map fun c => c.toNat - 48)

/-- `toUInt`/`toULongLong` on a non-empty digit string: fails from `limit` on. -/
def toUnsigned? (limit : ℕ) (s : QString) : Option ℕ :=
  if s ≠ [] ∧ s.all isDigit ∧ digitsValue s < limit then some (digitsValue s) else none

theorem digitChar_isDigit {d : ℕ} (h : d < 10) : isDigit (Nat.digitChar d) = true := by
  interval_cases d <;> decide

theorem digitChar_value {d : ℕ} (h : d < 10) : (Nat.digitChar d).toNat - 48 = d := by
  interval_cases d <;> decide

theorem number_ne_nil (n : ℕ) : number n ≠ [] := by
  unfold number
  split_ifs with h
  · simp
  · simpa using Nat.digits_ne_nil_iff_ne_zero.mpr h

theorem number_isDigit {n : ℕ} {c : Char} (h : c ∈ number n) : isDigit c = true := by
  unfold number at h
  split_ifs at h with hn
  · simp only [List.mem_singleton] at h
    subst h
    decide
  · simp only [List.mem_map, List.mem_reverse] at h
    obtain ⟨d, hd, rfl⟩ := h
    exact digitChar_isDigit (Nat.digits_lt_base (by norm_num) hd)

@[simp] theorem digitsValue_number (n : ℕ) : digitsValue (number n) = n := by
  unfold digitsValue number
  split_ifs with hn
  · subst hn
    decide
  · have hmap : (Nat.digits 10 n).map ((fun c => c.toNat - 48) ∘ Nat.digitChar) =
        Nat.digits 10 n := by
      conv_rhs => rw [← List.map_id (Nat.digits 10 n)]
      exact List.map_congr_left fun d hd =>
        digitChar_value (Nat.digits_lt_base (by norm_num) hd)
    rw [← List.map_reverse, List.reverse_reverse, List.map_map, hmap, Nat.ofDigits_digits]

/-- Reading back a printed number below the limit. -/
theorem toUnsigned?_number {limit n : ℕ} (h : n < limit) :
    toUnsigned? limit (number n) = some n := by
  have hall : (number n).all isDigit = true := by
    rw [List.all_eq_true]
    exact fun c hc => number_isDigit hc
  rw [toUnsigned?, if_pos ⟨number_ne_nil n, hall, by simpa using h⟩, digitsValue_number]

/-- Text without white space has nothing to trim. -/
theorem trimmed_eq_self {s : QString} (h : ∀ c ∈ s, isSpace c = false) : trimmed s = s := by
  have hdrop : s.dropWhile isSpace = s := by
    cases s with
    | nil => rfl
    | cons c cs => simp [h c (List.mem_cons_self ..)]
  rw [trimmed, hdrop, List.rdropWhile_eq_self_iff]
  exact fun hne => by simp [h _ (List.getLast_mem hne)]

theorem isSpace_of_isDigit {c : Char} (h : isDigit c = true) : isSpace c = false := by
  simp only [isDigit, Bool.and_eq_true, decide_eq_true_eq, Char.le_def, UInt32.le_iff_toNat_le] at h
  obtain ⟨hlow, hhigh⟩ : 48 ≤ c.toNat ∧ c.toNat ≤ 57 := h
  simp only [isSpace, Bool.or_eq_false_iff, Bool.and_eq_false_iff, beq_eq_false_iff_ne,
    decide_eq_false_iff_not]
  omega

theorem trimmed_number (n : ℕ) : trimmed (number n) = number n :=
  trimmed_eq_self fun _ hc => isSpace_of_isDigit (number_isDigit hc)

theorem stripPrefix?_plus_number (n : ℕ) : stripPrefix? ['+'] (number n) = none := by
  cases hstrip : stripPrefix? ['+'] (number n) with
  | none => rfl
  | some rest =>
    have hmem : '+' ∈ number n := by simp [stripPrefix?_eq_some.mp hstrip]
    exact absurd (number_isDigit hmem) (by decide)

theorem utf8Size_number_le {n k : ℕ} (hk : 0 < k) (h : n < 10 ^ k) : utf8Size (number n) ≤ k := by
  have hone : ∀ c ∈ number n, c.utf8Size = 1 := by
    intro c hc
    have hdigit := number_isDigit hc
    simp only [isDigit, Bool.and_eq_true, decide_eq_true_eq, Char.le_def] at hdigit
    rw [Char.utf8Size]
    exact if_pos (UInt32.le_trans hdigit.2 (by decide))
  have hlen : (number n).length ≤ k := by
    unfold number
    split_ifs
    · exact hk
    · simpa using (Nat.digits_length_le_iff (by norm_num) n).mpr h
  rw [utf8Size, List.map_congr_left hone]
  simpa using hlen

/-- `QString::number` of a signed number. -/
def integer (n : ℤ) : QString := if n < 0 then '-' :: number n.natAbs else number n.natAbs

/-- `QString::toLongLong`: white space around the number and a sign are allowed. -/
def toLongLong? (s : QString) : Option ℤ :=
  match trimmed s with
  | '-' :: digits => (toUnsigned? (2 ^ 63 + 1) digits).map fun n => -(n : ℤ)
  | '+' :: digits => (toUnsigned? (2 ^ 63) digits).map Int.ofNat
  | digits => (toUnsigned? (2 ^ 63) digits).map Int.ofNat

theorem integer_ne_nil (n : ℤ) : integer n ≠ [] := by
  unfold integer
  split_ifs
  · exact List.cons_ne_nil _ _
  · exact number_ne_nil _

theorem mem_integer {n : ℤ} {c : Char} (h : c ∈ integer n) : c = '-' ∨ isDigit c = true := by
  unfold integer at h
  split_ifs at h
  · exact (List.mem_cons.mp h).imp id number_isDigit
  · exact Or.inr (number_isDigit h)

/-- Reading back a printed 64-bit number. -/
theorem toLongLong?_integer {n : ℤ} (hlow : -2 ^ 63 ≤ n) (hhigh : n < 2 ^ 63) :
    toLongLong? (integer n) = some n := by
  have htrimmed : trimmed (integer n) = integer n := by
    apply trimmed_eq_self
    intro c hc
    rcases mem_integer hc with rfl | hdigit
    · decide
    · exact isSpace_of_isDigit hdigit
  rw [toLongLong?, htrimmed, integer]
  split_ifs with hsign
  · have hunsigned : toUnsigned? (2 ^ 63 + 1) (number n.natAbs) = some n.natAbs :=
      toUnsigned?_number (by omega)
    have hvalue : -(n.natAbs : ℤ) = n := by omega
    change (toUnsigned? (2 ^ 63 + 1) (number n.natAbs)).map (fun n => -(n : ℤ)) = some n
    rw [hunsigned]
    exact congrArg some hvalue
  · have hunsigned : toUnsigned? (2 ^ 63) (number n.natAbs) = some n.natAbs :=
      toUnsigned?_number (by omega)
    cases hdigits : number n.natAbs with
    | nil => exact absurd hdigits (number_ne_nil _)
    | cons c cs =>
      have hdigit : isDigit c = true := number_isDigit (hdigits ▸ List.mem_cons_self ..)
      split
      · next hcons =>
        obtain ⟨rfl, -⟩ := List.cons_eq_cons.mp hcons
        exact absurd hdigit (by decide)
      · next hcons =>
        obtain ⟨rfl, -⟩ := List.cons_eq_cons.mp hcons
        exact absurd hdigit (by decide)
      · rw [← hdigits, hunsigned, Option.map_some, Int.ofNat_eq_natCast, Int.natCast_natAbs]
        exact congrArg some (abs_of_nonneg (not_lt.mp hsign))

section Replace

variable {before after s t : QString} {mark : Char}

/-- `QString::replace`, with this many characters of the last match to pass over. -/
def replaceFrom (before after : QString) : ℕ → QString → QString
  | _, [] => []
  | skip + 1, _ :: cs => replaceFrom before after skip cs
  | 0, c :: cs =>
    if startsWith (c :: cs) before then after ++ replaceFrom before after (before.length - 1) cs
    else c :: replaceFrom before after 0 cs

/-- `QString::replace(before, after)`: every occurrence, from left to right. -/
def replaceAll (before after s : QString) : QString := replaceFrom before after 0 s

@[simp] theorem replaceAll_nil : replaceAll before after [] = [] := rfl

theorem replaceFrom_append (skipped : QString) :
    replaceFrom before after skipped.length (skipped ++ s) = replaceAll before after s := by
  induction skipped with
  | nil => rfl
  | cons c cs ih => exact ih

theorem replaceAll_cons_of_not (c : Char) (h : startsWith (c :: s) before = false) :
    replaceAll before after (c :: s) = c :: replaceAll before after s := by
  rw [replaceAll, replaceFrom, h]
  rfl

/-- An occurrence is replaced, and the search goes on behind it. -/
theorem replaceAll_append :
    replaceAll (mark :: t) after (mark :: t ++ s) = after ++ replaceAll (mark :: t) after s := by
  have hmatch : startsWith (mark :: (t ++ s)) (mark :: t) = true := startsWith_append (mark :: t) s
  rw [replaceAll, List.cons_append, replaceFrom, if_pos hmatch]
  exact congrArg (after ++ ·) (replaceFrom_append t)

/-- Text without the first character of the pattern is passed over. -/
theorem replaceAll_append_of_notMem {passed : QString} (h : mark ∉ passed) :
    replaceAll (mark :: t) after (passed ++ s) = passed ++ replaceAll (mark :: t) after s := by
  induction passed with
  | nil => rfl
  | cons c cs ih =>
    rw [List.mem_cons, not_or] at h
    have hno : startsWith (c :: (cs ++ s)) (mark :: t) = false := by
      rw [startsWith, stripPrefix?, if_neg h.1]
      rfl
    rw [List.cons_append, replaceAll_cons_of_not _ hno, ih h.2, List.cons_append]

/-- Another word of the same length is no occurrence. -/
theorem replaceAll_append_of_ne {word : QString} (hlength : word.length = t.length)
    (hne : word ≠ t) (hmark : mark ∉ word) :
    replaceAll (mark :: t) after (mark :: word ++ s) =
      mark :: word ++ replaceAll (mark :: t) after s := by
  have hno : startsWith (mark :: (word ++ s)) (mark :: t) = false := by
    rw [startsWith, Option.isSome_eq_false_iff, Option.isNone_iff_eq_none]
    cases hstrip : stripPrefix? (mark :: t) (mark :: (word ++ s)) with
    | none => rfl
    | some rest =>
      have heq := List.cons.inj (stripPrefix?_eq_some.mp hstrip)
      exact absurd (List.append_inj_left heq.2 hlength) hne
  rw [List.cons_append, replaceAll_cons_of_not _ hno, replaceAll_append_of_notMem hmark,
    List.cons_append]

/-- Replacement in a text of separate words: no occurrence reaches over the end of one. -/
theorem replaceAll_flatMap {word : Char → QString} (s : QString)
    (h : ∀ c ∈ s, mark ∉ word c ∨
      ∃ rest, word c = mark :: rest ∧ rest.length = t.length ∧ mark ∉ rest) :
    replaceAll (mark :: t) after (s.flatMap word) =
      s.flatMap fun c => if word c = mark :: t then after else word c := by
  induction s with
  | nil => rfl
  | cons c cs ih =>
    have hcs := ih fun d hd => h d (List.mem_cons_of_mem _ hd)
    rw [List.flatMap_cons, List.flatMap_cons, ← hcs]
    rcases h c (List.mem_cons_self ..) with hplain | ⟨rest, hword, hlength, hrest⟩
    · have hno : word c ≠ mark :: t := fun heq => hplain (by simp [heq])
      rw [if_neg hno, replaceAll_append_of_notMem hplain]
    · rw [hword]
      by_cases heq : rest = t
      · rw [if_pos (by rw [heq]), heq, replaceAll_append]
      · rw [if_neg (by simpa using heq), replaceAll_append_of_ne hlength heq hrest]

end Replace

end QString
end NasMount.Foundation
