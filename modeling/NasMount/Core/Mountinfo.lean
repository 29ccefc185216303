import NasMount.Core.World

/-!
# The mount table

`/proc/self/mountinfo`, one line a mount: six fixed fields, any number of
optional ones, a lone dash, then type, source and options. White space and
backslashes in the names are escaped, so that the fields can be split at spaces.
-/
namespace NasMount.Core

open NasMount.Foundation QString

def unescapeMountinfoField (field : QString) : QString :=
  let out := replaceAll (qs "\\040") (qs " ") field
  let out := replaceAll (qs "\\011") (qs "\t") out
  let out := replaceAll (qs "\\012") (qs "\n") out
  -- Backslash last: earlier it could fabricate one of the patterns above.
  replaceAll (qs "\\134") (qs "\\") out

/-- The first lone dash from the seventh field on. -/
def sepIndex? (fields : List QString) : Option ℕ :=
  ((fields.drop 6).findIdx? fun field => field = qs "-").map (· + 6)

/-- One line, if it is not malformed. -/
def parseMountinfoLine (line : QString) : Option MountEntry :=
  let fields := splitSkipEmpty ' ' line
  match sepIndex? fields with
  | none => none
  | some sepIndex =>
    if fields.length ≤ sepIndex + 2 ∨ fields.length ≤ 4 then none
    else
      match toLongLong? (fields.getD 0 []), toLongLong? (fields.getD 1 []) with
      | some mountId, some parentId =>
        some
          { mountId := mountId
            parentId := parentId
            mountPoint := unescapeMountinfoField (fields.getD 4 [])
            filesystemType := fields.getD (sepIndex + 1) []
            mountSource := unescapeMountinfoField (fields.getD (sepIndex + 2) []) }
      | _, _ => none

def parseMountinfo (content : QString) : List MountEntry :=
  (splitSkipEmpty '\n' content).filterMap parseMountinfoLine

section Escapes

/-- The octal escape the kernel prints for a character of a name. -/
def escapeChar (c : Char) : QString :=
  if c = ' ' then qs "\\040"
  else if c = '\t' then qs "\\011"
  else if c = '\n' then qs "\\012"
  else if c = '\\' then qs "\\134"
  else [c]

def escapeMountinfoField (name : QString) : QString := name.flatMap escapeChar

theorem escapeMountinfoField_ne_nil {name : QString} (h : name ≠ []) :
    escapeMountinfoField name ≠ [] := by
  cases name with
  | nil => exact absurd rfl h
  | cons c cs =>
    rw [escapeMountinfoField, List.flatMap_cons]
    apply List.append_ne_nil_of_left_ne_nil
    unfold escapeChar
    split_ifs <;> exact List.cons_ne_nil _ _

theorem notMem_escapeChar {c d : Char} (hd : d = ' ' ∨ d = '\n') : d ∉ escapeChar c := by
  unfold escapeChar
  rcases hd with rfl | rfl
  · split_ifs with hspace
    · decide
    · decide
    · decide
    · decide
    · simpa using Ne.symm hspace
  · split_ifs with _ _ hnewline
    · decide
    · decide
    · decide
    · decide
    · simpa using Ne.symm hnewline

/-- An escaped name has no character the splitting looks for. -/
theorem notMem_escapeMountinfoField {name : QString} {d : Char} (hd : d = ' ' ∨ d = '\n') :
    d ∉ escapeMountinfoField name := by
  intro hmem
  obtain ⟨c, -, hc⟩ := List.mem_flatMap.mp hmem
  exact notMem_escapeChar hd hc

/-- A word that a replacement takes whole or passes over whole. -/
def EscapeWord (word : QString) : Prop :=
  '\\' ∉ word ∨ ∃ rest, word = '\\' :: rest ∧ rest.length = 3 ∧ '\\' ∉ rest

theorem escapeWord_escapeChar (c : Char) : EscapeWord (escapeChar c) := by
  unfold escapeChar
  split_ifs with _ _ _ hbackslash
  · exact Or.inr ⟨qs "040", by decide, by decide, by decide⟩
  · exact Or.inr ⟨qs "011", by decide, by decide, by decide⟩
  · exact Or.inr ⟨qs "012", by decide, by decide, by decide⟩
  · exact Or.inr ⟨qs "134", by decide, by decide, by decide⟩
  · exact Or.inl (by simpa using Ne.symm hbackslash)

theorem EscapeWord.replaced {word after : QString} (h : EscapeWord word) (t : QString)
    (hafter : '\\' ∉ after) : EscapeWord (if word = '\\' :: t then after else word) := by
  split_ifs
  · exact Or.inl hafter
  · exact h

/-- One of the four replacements on an escaped name. -/
theorem replaceAll_words {t after name : QString} {word : Char → QString} (ht : t.length = 3)
    (h : ∀ c, EscapeWord (word c)) :
    replaceAll ('\\' :: t) after (name.flatMap word) =
      name.flatMap fun c => if word c = '\\' :: t then after else word c := by
  apply replaceAll_flatMap
  intro c _
  rw [ht]
  exact h c

/-- The four replacements, one after the other, on the word of one character. -/
theorem undo_escapeChar (c : Char) :
    (let out := if escapeChar c = '\\' :: qs "040" then qs " " else escapeChar c
      let out := if out = '\\' :: qs "011" then qs "\t" else out
      let out := if out = '\\' :: qs "012" then qs "\n" else out
      if out = '\\' :: qs "134" then qs "\\" else out) = [c] := by
  unfold escapeChar
  by_cases hspace : c = ' '
  · subst hspace
    decide
  by_cases htab : c = '\t'
  · subst htab
    decide
  by_cases hnewline : c = '\n'
  · subst hnewline
    decide
  by_cases hbackslash : c = '\\'
  · subst hbackslash
    decide
  · have hword : ∀ t : QString, [c] ≠ '\\' :: t := fun t h => hbackslash (List.cons.inj h).1
    simp only [if_neg hspace, if_neg htab, if_neg hnewline, if_neg hbackslash, if_neg (hword _)]

/-- Nothing is decoded twice: a name may hold the text of an escape. -/
theorem unescape_escape (name : QString) :
    unescapeMountinfoField (escapeMountinfoField name) = name := by
  have hspace := fun c => escapeWord_escapeChar c
  have htab := fun c => (hspace c).replaced (qs "040") (show '\\' ∉ qs " " by decide)
  have hnewline := fun c => (htab c).replaced (qs "011") (show '\\' ∉ qs "\t" by decide)
  have hbackslash := fun c => (hnewline c).replaced (qs "012") (show '\\' ∉ qs "\n" by decide)
  rw [unescapeMountinfoField, escapeMountinfoField]
  change replaceAll ('\\' :: qs "134") _ (replaceAll ('\\' :: qs "012") _
    (replaceAll ('\\' :: qs "011") _ (replaceAll ('\\' :: qs "040") _ _))) = name
  rw [replaceAll_words rfl hspace, replaceAll_words rfl htab, replaceAll_words rfl hnewline,
    replaceAll_words rfl hbackslash]
  exact (List.flatMap_congr fun c _ => undo_escapeChar c).trans (List.flatMap_singleton' name)

end Escapes

section Lines

variable {line : QString} {fields : List QString}

/-- The words of a line that names a mount. -/
structure LineWords where
  mountId : QString
  parentId : QString
  device : QString
  root : QString
  mountPoint : QString
  options : QString
  optional : List QString
  filesystemType : QString
  mountSource : QString
  rest : List QString

def LineWords.fixed (words : LineWords) : List QString :=
  [words.mountId, words.parentId, words.device, words.root, words.mountPoint, words.options]

def LineWords.all (words : LineWords) : List QString :=
  words.fixed ++ (words.optional ++ qs "-" :: words.filesystemType :: words.mountSource ::
    words.rest)

/-- A line with all its parts and two 64-bit numbers. -/
def WellFormedLine (line : QString) : Prop :=
  ∃ words : LineWords, splitSkipEmpty ' ' line = words.all ∧ qs "-" ∉ words.optional ∧
    (toLongLong? words.mountId).isSome ∧ (toLongLong? words.parentId).isSome

/-- The dash that is found ends the optional fields. -/
theorem sepIndex?_eq_some {i : ℕ} :
    sepIndex? fields = some i ↔
      ∃ fixed optional rest, fields = fixed ++ (optional ++ qs "-" :: rest) ∧ fixed.length = 6 ∧
        qs "-" ∉ optional ∧ i = optional.length + 6 := by
  rw [sepIndex?, Option.map_eq_some_iff]
  constructor
  · rintro ⟨n, hfind, rfl⟩
    obtain ⟨hn, hdash, hbefore⟩ := List.findIdx?_eq_some_iff_getElem.mp hfind
    have hlength : (fields.take 6).length = 6 := by
      rw [List.length_take]
      rw [List.length_drop] at hn
      omega
    refine ⟨fields.take 6, (fields.drop 6).take n, (fields.drop 6).drop (n + 1), ?_,
      hlength, ?_, ?_⟩
    · have hdash' : (fields.drop 6)[n] = qs "-" := of_decide_eq_true hdash
      rw [← hdash', ← List.drop_eq_getElem_cons hn, List.take_append_drop, List.take_append_drop]
    · intro hmem
      obtain ⟨j, hj, heq⟩ := List.mem_iff_getElem.mp hmem
      rw [List.length_take, lt_min_iff] at hj
      rw [List.getElem_take] at heq
      exact hbefore j hj.1 (decide_eq_true heq)
    · rw [List.length_take, min_eq_left hn.le]
  · rintro ⟨fixed, optional, rest, rfl, hfixed, hoptional, rfl⟩
    refine ⟨optional.length, ?_, rfl⟩
    rw [← hfixed, List.drop_left, List.findIdx?_append]
    have hnone : optional.findIdx? (fun field => field = qs "-") = none := by
      rw [List.findIdx?_eq_none_iff]
      intro field hmem
      exact decide_eq_false fun heq => hoptional (heq ▸ hmem)
    simp [hnone, List.findIdx?_cons]

/-- What a line with all its parts is read as. -/
theorem parseMountinfoLine_of_words {words : LineWords}
    (hline : splitSkipEmpty ' ' line = words.all)
    (hoptional : qs "-" ∉ words.optional) :
    parseMountinfoLine line =
      match toLongLong? words.mountId, toLongLong? words.parentId with
      | some mountId, some parentId =>
        some ⟨mountId, parentId, unescapeMountinfoField words.mountPoint, words.filesystemType,
          unescapeMountinfoField words.mountSource⟩
      | _, _ => none := by
  have hsep : sepIndex? words.all = some (words.optional.length + 6) :=
    sepIndex?_eq_some.mpr ⟨words.fixed, words.optional, _, rfl, rfl, hoptional, rfl⟩
  have hlength : words.all.length = words.optional.length + 9 + words.rest.length := by
    simp [LineWords.all, LineWords.fixed]
    omega
  have htype : words.all.getD (words.optional.length + 6 + 1) [] = words.filesystemType := by
    simp [LineWords.all, LineWords.fixed]
  have hsource : words.all.getD (words.optional.length + 6 + 2) [] = words.mountSource := by
    simp [LineWords.all, LineWords.fixed]
  simp only [parseMountinfoLine, hline, hsep, hlength, htype, hsource]
  rw [if_neg (by omega)]
  rfl

/-- A line that is not well formed is skipped. -/
theorem parseMountinfoLine_malformed (h : ¬ WellFormedLine line) :
    parseMountinfoLine line = none := by
  by_contra hsome
  apply h
  obtain ⟨entry, hentry⟩ := Option.ne_none_iff_exists'.mp hsome
  cases hsep : sepIndex? (splitSkipEmpty ' ' line) with
  | none => simp [parseMountinfoLine, hsep] at hentry
  | some i =>
    obtain ⟨fixed, optional, rest, hfields, hfixed, hoptional, rfl⟩ := sepIndex?_eq_some.mp hsep
    have hrest : 2 ≤ rest.length := by
      by_contra hshort
      have hlength : (splitSkipEmpty ' ' line).length ≤ optional.length + 6 + 2 := by
        rw [hfields]
        simp [hfixed]
        omega
      simp [parseMountinfoLine, hsep, hlength] at hentry
    match fixed, hfixed, rest, hrest with
    | [mountId, parentId, device, root, mountPoint, options], _,
        filesystemType :: mountSource :: rest, _ =>
      let words : LineWords := ⟨mountId, parentId, device, root, mountPoint, options, optional,
        filesystemType, mountSource, rest⟩
      have hwords : splitSkipEmpty ' ' line = words.all := hfields
      refine ⟨words, hwords, hoptional, ?_⟩
      rw [parseMountinfoLine_of_words hwords hoptional] at hentry
      split at hentry
      · next hmount hparent => exact ⟨by rw [hmount]; rfl, by rw [hparent]; rfl⟩
      · exact nomatch hentry

end Lines

section Rendering

/-- A field of a line: what splitting at spaces gives back whole. -/
def IsField (field : QString) : Prop := field ≠ [] ∧ ' ' ∉ field ∧ '\n' ∉ field

/-- One mount as the kernel prints it. -/
structure MountLine where
  entry : MountEntry
  device : QString
  root : QString
  options : QString
  optional : List QString
  superOptions : QString

namespace MountLine

variable (mount : MountLine)

def fields : List QString :=
  [integer mount.entry.mountId, integer mount.entry.parentId, mount.device, mount.root,
    escapeMountinfoField mount.entry.mountPoint, mount.options] ++
  (mount.optional ++ [qs "-", mount.entry.filesystemType,
    escapeMountinfoField mount.entry.mountSource])

def render : QString := (mount.fields.flatMap fun field => field ++ [' ']) ++ mount.superOptions

/-- What the format promises of the other parts of a line. -/
structure Proper : Prop where
  mountId : -2 ^ 63 ≤ mount.entry.mountId ∧ mount.entry.mountId < 2 ^ 63
  parentId : -2 ^ 63 ≤ mount.entry.parentId ∧ mount.entry.parentId < 2 ^ 63
  device : IsField mount.device
  root : IsField mount.root
  options : IsField mount.options
  optional : ∀ field ∈ mount.optional, IsField field ∧ field ≠ qs "-"
  filesystemType : IsField mount.entry.filesystemType
  mountSource : mount.entry.mountSource ≠ []
  superOptions : '\n' ∉ mount.superOptions

end MountLine

theorem isField_integer (n : ℤ) : IsField (integer n) := by
  refine ⟨integer_ne_nil n, ?_, ?_⟩
  · intro hmem
    rcases mem_integer hmem with h | h <;> exact absurd h (by decide)
  · intro hmem
    rcases mem_integer hmem with h | h <;> exact absurd h (by decide)

theorem isField_escape {name : QString} (h : name ≠ []) : IsField (escapeMountinfoField name) :=
  ⟨escapeMountinfoField_ne_nil h, notMem_escapeMountinfoField (Or.inl rfl),
    notMem_escapeMountinfoField (Or.inr rfl)⟩

/-- Splitting gives the fields back, whatever follows them. -/
theorem splitSkipEmpty_fields {fields : List QString} (hfields : ∀ field ∈ fields, IsField field)
    (rest : QString) :
    splitSkipEmpty ' ' ((fields.flatMap fun field => field ++ [' ']) ++ rest) =
      fields ++ splitSkipEmpty ' ' rest := by
  induction fields with
  | nil => rfl
  | cons field fields ih =>
    obtain ⟨hne, hspace, -⟩ := hfields field (List.mem_cons_self ..)
    have hfields' := ih fun other hmem => hfields other (List.mem_cons_of_mem _ hmem)
    rw [splitSkipEmpty] at hfields' ⊢
    rw [List.flatMap_cons, List.append_assoc, List.append_assoc, List.singleton_append,
      split_append_sep hspace, List.filter_cons_of_pos (by simpa using hne), hfields']
    rfl

namespace MountLine

variable {mount : MountLine}

theorem Proper.isField (h : mount.Proper) (hmountPoint : mount.entry.mountPoint ≠ []) :
    ∀ field ∈ mount.fields, IsField field := by
  intro field hmem
  simp only [fields, List.mem_append, List.mem_cons, List.not_mem_nil, or_false] at hmem
  rcases hmem with (rfl | rfl | rfl | rfl | rfl | rfl) | hoptional | rfl | rfl | rfl
  · exact isField_integer _
  · exact isField_integer _
  · exact h.device
  · exact h.root
  · exact isField_escape hmountPoint
  · exact h.options
  · exact (h.optional field hoptional).1
  · exact ⟨by decide, by decide, by decide⟩
  · exact h.filesystemType
  · exact isField_escape h.mountSource

/-- Reading one printed mount. -/
theorem parse_render (h : mount.Proper) (hmountPoint : mount.entry.mountPoint ≠ []) :
    parseMountinfoLine mount.render = some mount.entry := by
  have hline : splitSkipEmpty ' ' mount.render = LineWords.all
      ⟨integer mount.entry.mountId, integer mount.entry.parentId, mount.device, mount.root,
        escapeMountinfoField mount.entry.mountPoint, mount.options, mount.optional,
        mount.entry.filesystemType, escapeMountinfoField mount.entry.mountSource,
        splitSkipEmpty ' ' mount.superOptions⟩ := by
    rw [render, splitSkipEmpty_fields (h.isField hmountPoint), fields, LineWords.all,
      LineWords.fixed, List.append_assoc, List.append_assoc]
    rfl
  have hoptional : qs "-" ∉ mount.optional := fun hmem => (h.optional _ hmem).2 rfl
  rw [parseMountinfoLine_of_words hline hoptional, toLongLong?_integer h.mountId.1 h.mountId.2,
    toLongLong?_integer h.parentId.1 h.parentId.2]
  simp only [unescape_escape]

theorem Proper.notMem_render (h : mount.Proper) (hmountPoint : mount.entry.mountPoint ≠ []) :
    '\n' ∉ mount.render := by
  intro hmem
  rw [render, List.mem_append] at hmem
  rcases hmem with hfield | hsuper
  · obtain ⟨field, hfield, hin⟩ := List.mem_flatMap.mp hfield
    rw [List.mem_append, List.mem_singleton] at hin
    rcases hin with hin | hin
    · exact (h.isField hmountPoint field hfield).2.2 hin
    · exact absurd hin (by decide)
  · exact h.superOptions hsuper

end MountLine

/-- The table is read line by line. -/
theorem parseMountinfo_unlines {lines : List QString} (h : ∀ line ∈ lines, '\n' ∉ line) :
    parseMountinfo (unlines lines) = lines.filterMap parseMountinfoLine := by
  rw [parseMountinfo, splitSkipEmpty, split_unlines h, List.filter_append]
  induction lines with
  | nil => rfl
  | cons line lines ih =>
    have hlines := ih fun other hmem => h other (List.mem_cons_of_mem _ hmem)
    cases line with
    | nil => exact hlines
    | cons c cs =>
      rw [List.filter_cons_of_pos (by simp), List.cons_append, List.filterMap_cons,
        List.filterMap_cons, hlines]

/-- A line of the table: a printed mount, or text that is no mount. -/
inductive TableLine
  | mount (printed : MountLine)
  | other (text : QString)

namespace TableLine

def text : TableLine → QString
  | .mount printed => printed.render
  | .other text => text

def entry? : TableLine → Option MountEntry
  | .mount printed => some printed.entry
  | .other _ => none

/-- A printed mount with a name, or a malformed line. -/
def Expected : TableLine → Prop
  | .mount printed => printed.Proper ∧ printed.entry.mountPoint ≠ []
  | .other text => '\n' ∉ text ∧ ¬ WellFormedLine text

theorem Expected.notMem {line : TableLine} (h : line.Expected) : '\n' ∉ line.text := by
  cases line with
  | mount printed => exact h.1.notMem_render h.2
  | other text => exact h.1

theorem Expected.parse {line : TableLine} (h : line.Expected) :
    parseMountinfoLine line.text = line.entry? := by
  cases line with
  | mount printed => exact MountLine.parse_render h.1 h.2
  | other text => exact parseMountinfoLine_malformed h.2

end TableLine

/-- Reading the printed table gives its mounts back in order, none lost or
decoded twice, and malformed lines between them change nothing. -/
theorem parse_printed_table (table : List TableLine) (h : ∀ line ∈ table, line.Expected) :
    parseMountinfo (unlines (table.map TableLine.text)) = table.filterMap TableLine.entry? := by
  have hlines : ∀ line ∈ table.map TableLine.text, '\n' ∉ line := by
    intro line hmem
    obtain ⟨entry, hentry, rfl⟩ := List.mem_map.mp hmem
    exact (h entry hentry).notMem
  rw [parseMountinfo_unlines hlines, List.filterMap_map]
  exact List.filterMap_congr fun line hmem => (h line hmem).parse

/-- A share under a name with a space, a backslash and the text of an escape. -/
def sampleMount : MountLine where
  entry := ⟨98, 49, qs "/mnt/a b\\040", qs "cifs", qs "//nas/my share"⟩
  device := qs "0:56"
  root := qs "/"
  options := qs "rw,relatime"
  optional := [qs "shared:882", qs "master:2"]
  superOptions := qs "rw,vers=2.1"

theorem sampleMount_proper : sampleMount.Proper where
  mountId := by decide
  parentId := by decide
  device := ⟨by decide, by decide, by decide⟩
  root := ⟨by decide, by decide, by decide⟩
  options := ⟨by decide, by decide, by decide⟩
  optional := by
    intro field hmem
    rcases List.mem_cons.mp hmem with rfl | hmem
    · exact ⟨⟨by decide, by decide, by decide⟩, by decide⟩
    · obtain rfl := List.mem_singleton.mp hmem
      exact ⟨⟨by decide, by decide, by decide⟩, by decide⟩
  filesystemType := ⟨by decide, by decide, by decide⟩
  mountSource := by decide
  superOptions := by decide

theorem parse_printed_table_sample :
    parseMountinfo (unlines [sampleMount.render, sampleMount.render]) =
      [sampleMount.entry, sampleMount.entry] :=
  parse_printed_table [.mount sampleMount, .mount sampleMount] fun line hmem => by
    have hline : line = .mount sampleMount := by simpa using hmem
    exact hline ▸ ⟨sampleMount_proper, by decide⟩

/-- A mount without a name prints an empty field, which the splitting skips: the
options are then taken for the name. -/
theorem unnamed_mount_misread :
    let mount := { sampleMount with entry := { sampleMount.entry with mountPoint := [] } }
    mount.Proper ∧ parseMountinfo (unlines [mount.render]) ≠ [mount.entry] ∧
      (parseMountinfo (unlines [mount.render])).map MountEntry.mountPoint = [qs "rw,relatime"] := by
  refine ⟨⟨sampleMount_proper.mountId, sampleMount_proper.parentId, sampleMount_proper.device,
    sampleMount_proper.root, sampleMount_proper.options, sampleMount_proper.optional,
    sampleMount_proper.filesystemType, sampleMount_proper.mountSource,
    sampleMount_proper.superOptions⟩, ?_⟩
  decide +kernel

end Rendering

end NasMount.Core
