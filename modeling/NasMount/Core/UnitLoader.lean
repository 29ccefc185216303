import NasMount.Core.Recognition

/-!
# What systemd reads from an accepted unit

systemd's loader reads the whole file line by line: lines are stripped, comments
are passed over, any `[...]` line opens a section and any other `key=value` line
is an assignment in it. The body validators look at some sections only and have
a stricter idea of a header. Both readings are run side by side here, so that
what the loader reads splits into what the validator examined and the rest.
-/
namespace NasMount.Core

open NasMount.Foundation QString

/-- White space, as the loader strips it. -/
def loaderSpace (c : Char) : Bool := c == ' ' || c == '\t' || c == '\n' || c == '\r'

def strip (line : QString) : QString := (line.dropWhile loaderSpace).rdropWhile loaderSpace

/-- A section and a key of it. -/
abbrev Directive := QString × QString

inductive LoaderLine
  | ignored
  | header (name : QString)
  | assignment (key : QString)
  deriving DecidableEq

/-- How the loader takes one line. -/
def loaderLine (line : QString) : LoaderLine :=
  let stripped := strip line
  if startsWith stripped ['#'] || startsWith stripped [';'] then .ignored
  else if startsWith stripped ['['] && endsWithChar stripped ']' then
    .header (stripped.drop 1).dropLast
  else if '=' ∈ stripped then .assignment (strip (stripped.takeWhile (· ≠ '=')))
  else .ignored

/-- The section after a line, and the assignment read from it. An assignment
before the first header is in no section. -/
def readLine (current : Option QString) (line : QString) : Option QString × Option Directive :=
  match loaderLine line with
  | .ignored => (current, none)
  | .header name => (some name, none)
  | .assignment key => (current, current.map fun name => (name, key))

/-- The assignments read from the lines, starting in a section. -/
def readLines (current : Option QString) : List QString → List Directive
  | [] => []
  | line :: lines => (readLine current line).2.toList ++ readLines (readLine current line).1 lines

/-- The assignments systemd reads from a unit file. -/
def loaderDirectives (content : QString) : List Directive := readLines none (split '\n' content)

/-- The validator's section after a line: only an exact header changes it. -/
def validatorSection (current : Option QString) (line : QString) : Option QString :=
  (sectionHeader line).or current

/-- The loader's assignments, each with the section the validator is in there. -/
def taggedReads (checked current : Option QString) : List QString →
    List (Option QString × Directive)
  | [] => []
  | line :: lines =>
    ((readLine current line).2.map fun d => (validatorSection checked line, d)).toList ++
      taggedReads (validatorSection checked line) (readLine current line).1 lines

def tagged (content : QString) : List (Option QString × Directive) :=
  taggedReads none none (split '\n' content)

/-- The assignments on lines the validator examines, for its sections. -/
def examined (sections : List QString) (content : QString) : List Directive :=
  ((tagged content).filter fun d => d.1.any (· ∈ sections)).map Prod.snd

/-- The assignments on lines the validator passes over. -/
def passedOver (sections : List QString) (content : QString) : List Directive :=
  ((tagged content).filter fun d => !d.1.any (· ∈ sections)).map Prod.snd

theorem map_snd_taggedReads (checked current : Option QString) (lines : List QString) :
    (taggedReads checked current lines).map Prod.snd = readLines current lines := by
  induction lines generalizing checked current with
  | nil => rfl
  | cons line lines ih =>
    rw [taggedReads, readLines, List.map_append, ih]
    cases (readLine current line).2 <;> rfl

/-- What systemd reads is what was examined and what was passed over. -/
theorem loaderDirectives_perm (sections : List QString) (content : QString) :
    (loaderDirectives content).Perm (examined sections content ++ passedOver sections content) := by
  rw [loaderDirectives, ← map_snd_taggedReads none none, examined, passedOver, ← List.map_append]
  exact (List.filter_append_perm _ _).symm.map _

section Lines

theorem strip_eq_self {line : QString} (hhead : line.head?.all (!loaderSpace ·) = true)
    (hlast : line.getLast?.all (!loaderSpace ·) = true) : strip line = line := by
  cases line with
  | nil => rfl
  | cons c cs =>
    have hc : loaderSpace c = false := by simpa using hhead
    have hdrop : (c :: cs).dropWhile loaderSpace = c :: cs := by simp [hc]
    rw [strip, hdrop]
    refine List.rdropWhile_eq_self_iff.mpr fun hne => ?_
    rw [List.getLast?_eq_some_getLast hne] at hlast
    simpa using hlast

/-- An exact header is a header for the loader too. -/
theorem loaderLine_header {line name : QString} (h : sectionHeader line = some name) :
    loaderLine line = .header name := by
  unfold sectionHeader at h
  split at h
  · rename_i rest
    split_ifs at h with hshape
    obtain ⟨hlast, hne, -⟩ := hshape
    obtain rfl := Option.some.inj h
    have hrest : rest ≠ [] := by
      rintro rfl
      exact hne rfl
    have hlast' : rest.getLast? = some ']' := by simpa [endsWithChar] using hlast
    have hend : ('[' :: rest).getLast? = some ']' := by
      rw [List.getLast?_cons, hlast']
      rfl
    have hstrip : strip ('[' :: rest) = '[' :: rest :=
      strip_eq_self (by simp [loaderSpace]) (by simp [hend, loaderSpace])
    simp [loaderLine, hstrip, startsWith, stripPrefix?, endsWithChar, hend]
  · exact absurd h (by simp)

theorem readLine_header {line name : QString} (h : sectionHeader line = some name)
    (current : Option QString) : readLine current line = (some name, none) := by
  simp [readLine, loaderLine_header h]

/-- A line of white space is ignored, whatever Unicode spaces it holds. -/
theorem readLine_blank {line : QString} (h : trimmed line = []) (current : Option QString) :
    readLine current line = (current, none) := by
  have hspace : ∀ c ∈ strip line, isSpace c = true := by
    intro c hc
    by_contra hno
    have hline : c ∈ line :=
      (List.dropWhile_sublist _).subset ((List.rdropWhile_prefix _ _).subset hc)
    exact trimmed_ne_nil hline (by simpa using hno) h
  have hstart : ∀ c, isSpace c = false → startsWith (strip line) [c] = false := by
    intro c hc
    cases hs : strip line with
    | nil => rfl
    | cons d ds =>
      have hd := hspace d (by simp [hs])
      have hne : c ≠ d := by
        rintro rfl
        rw [hd] at hc
        exact absurd hc (by decide)
      simp [startsWith, stripPrefix?, hne]
  have heq : '=' ∉ strip line := fun hm => absurd (hspace _ hm) (by decide)
  simp [readLine, loaderLine, hstart '#' (by decide), hstart ';' (by decide),
    hstart '[' (by decide), heq]

theorem isLetter_not_loaderSpace {c : Char} (h : isLetter c = true ∨ isDigit c = true) :
    loaderSpace c = false := by
  by_contra hspace
  simp only [loaderSpace, Bool.not_eq_false, Bool.or_eq_true, beq_iff_eq] at hspace
  rcases hspace with ((rfl | rfl) | rfl) | rfl <;> rcases h with h | h <;>
    exact absurd h (by decide)

theorem rdropWhile_append_cons {p : Char → Bool} {c : Char} (hc : p c = false) (xs ys : QString) :
    (xs ++ c :: ys).rdropWhile p = xs ++ c :: ys.rdropWhile p := by
  rw [List.rdropWhile, List.rdropWhile, List.reverse_append, List.reverse_cons, List.append_assoc,
    List.dropWhile_append]
  cases hdrop : ys.reverse.dropWhile p with
  | nil => simp [hc]
  | cons d ds => simp

/-- A strict assignment is one for the loader, with the same key. -/
theorem readLine_assignment {line key value : QString} (h : assignment line = some (key, value))
    (current : Option QString) :
    readLine current line = (current, current.map fun name => (name, key)) := by
  obtain ⟨rfl, hkey⟩ := assignment_eq_some h
  obtain ⟨c, cs, rfl⟩ : ∃ c cs, key = c :: cs := by
    cases key with
    | nil => simp [isKey] at hkey
    | cons c cs => exact ⟨c, cs, rfl⟩
  have hchars := fun d hd => isKey_chars hkey (c := d) hd
  have hletter : isLetter c = true := by
    simp only [isKey, Bool.and_eq_true] at hkey
    exact hkey.1
  have hstrip : strip (c :: cs ++ '=' :: value) =
      c :: cs ++ '=' :: value.rdropWhile loaderSpace := by
    have hc := isLetter_not_loaderSpace (Or.inl hletter)
    rw [strip, List.cons_append, List.dropWhile_cons_of_neg (by simp [hc]), ← List.cons_append,
      rdropWhile_append_cons (by decide)]
  have hne : ∀ d, isLetter d = false →
      startsWith (c :: cs ++ '=' :: value.rdropWhile loaderSpace) [d] = false := by
    intro d hd
    have hdc : d ≠ c := by
      rintro rfl
      rw [hletter] at hd
      exact absurd hd (by decide)
    simp [startsWith, stripPrefix?, hdc]
  have htake : (c :: cs ++ '=' :: value.rdropWhile loaderSpace).takeWhile (· ≠ '=') = c :: cs := by
    rw [List.takeWhile_append_of_pos]
    · simp
    · intro d hd
      rw [decide_eq_true_eq]
      rintro rfl
      rcases hchars _ hd with h | h <;> exact absurd h (by decide)
  have hself : strip (c :: cs) = c :: cs := by
    refine strip_eq_self ?_ ?_
    · simp [isLetter_not_loaderSpace (Or.inl hletter)]
    · rw [List.getLast?_eq_some_getLast (by simp)]
      simpa using isLetter_not_loaderSpace (hchars _ (List.getLast_mem (by simp)))
  unfold readLine loaderLine
  simp only [hstrip, hne '#' (by decide), hne ';' (by decide), hne '[' (by decide), htake, hself]
  simp

end Lines

section Scan

variable {name : QString} {allowed : List QString} {scan scan' : SectionScan}

/-- Everything one turn of the section scan can do. -/
theorem scanSectionLine_cases {line : QString}
    (h : scanSectionLine name allowed scan line = .ok scan') :
    (∃ header, sectionHeader line = some header ∧ scan'.inSection = decide (header = name) ∧
        scan'.values = scan.values) ∨
      (sectionHeader line = none ∧ (scan.inSection = false ∨ trimmed line = []) ∧ scan' = scan) ∨
      (sectionHeader line = none ∧ scan.inSection = true ∧ ∃ key value,
        assignment line = some (key, value) ∧ key ∈ allowed ∧ scan.values.lookup key = none ∧
        scan' = { scan with values := scan.values ++ [(key, value)] }) := by
  unfold scanSectionLine at h
  cases hheader : sectionHeader line with
  | some header =>
    simp only [hheader, Except.ok.injEq] at h
    subst h
    exact Or.inl ⟨header, rfl, rfl, rfl⟩
  | none =>
    refine Or.inr ?_
    simp only [hheader] at h
    split_ifs at h with hskip
    · rw [Bool.or_eq_true, Bool.not_eq_true', decide_eq_true_eq] at hskip
      exact Or.inl ⟨rfl, hskip, (Except.ok.inj h).symm⟩
    · rw [Bool.or_eq_true, Bool.not_eq_true', decide_eq_true_eq, not_or, Bool.not_eq_false] at hskip
      cases hassign : assignment line with
      | none => simp [hassign] at h
      | some pair =>
        obtain ⟨key, value⟩ := pair
        simp only [hassign] at h
        split_ifs at h with hallowed hseen
        exact Or.inr ⟨rfl, hskip.1, key, value, rfl, hallowed,
          Option.not_isSome_iff_eq_none.mp hseen,
          (Except.ok.inj h).symm⟩

/-- An assignment the section scan has collected stands on some line. -/
theorem line_of_scan {lines : List QString}
    (h : lines.foldlM (scanSectionLine name allowed) scan = .ok scan') {key value : QString}
    (hmem : (key, value) ∈ scan'.values) :
    (key, value) ∈ scan.values ∨ key ++ '=' :: value ∈ lines := by
  induction lines generalizing scan with
  | nil =>
    obtain rfl := Except.ok.inj h
    exact Or.inl hmem
  | cons line lines ih =>
    rw [List.foldlM_cons, bind_eq_ok] at h
    obtain ⟨next, hstep, hrest⟩ := h
    rcases ih hrest with hnext | hlater
    · rcases scanSectionLine_cases hstep with ⟨_, -, -, hvalues⟩ | ⟨-, -, rfl⟩ |
        ⟨-, -, key', value', hassign, -, -, rfl⟩
      · exact Or.inl (hvalues ▸ hnext)
      · exact Or.inl hnext
      · rw [List.mem_append, List.mem_singleton] at hnext
        rcases hnext with hold | hnew
        · exact Or.inl hold
        · obtain ⟨rfl, rfl⟩ := Prod.mk.inj hnew
          exact Or.inr ((assignment_eq_some hassign).1 ▸ List.mem_cons_self ..)
    · exact Or.inr (List.mem_cons_of_mem _ hlater)

/-- The loader's assignments on the lines a validator examines for one section. -/
def readsIn (name : QString) (content : QString) : List Directive :=
  ((tagged content).filter fun d => d.1 = some name).map Prod.snd

/-- The scan collects the keys the loader reads while the validator is in its
section. The invariant: there, the loader is in that section too. -/
theorem taggedReads_of_scan {lines : List QString} {checked current : Option QString}
    (h : lines.foldlM (scanSectionLine name allowed) scan = .ok scan')
    (hin : scan.inSection = decide (checked = some name))
    (hsame : checked = some name → current = some name) :
    ∃ keys, scan'.values.map Prod.fst = scan.values.map Prod.fst ++ keys ∧
      ((taggedReads checked current lines).filter fun d => d.1 = some name).map Prod.snd =
        keys.map fun key => (name, key) := by
  induction lines generalizing scan checked current with
  | nil =>
    obtain rfl := Except.ok.inj h
    exact ⟨[], by simp, rfl⟩
  | cons line lines ih =>
    rw [List.foldlM_cons, bind_eq_ok] at h
    obtain ⟨next, hstep, hrest⟩ := h
    rcases scanSectionLine_cases hstep with ⟨header, hheader, hnext, hvalues⟩ |
      ⟨hheader, hskip, rfl⟩ | ⟨hheader, hinside, key, value, hassign, -, -, rfl⟩
    · obtain ⟨keys, hkeys, hreads⟩ := @ih _ (some header) (some header) hrest (by simp [hnext]) id
      refine ⟨keys, by rw [hkeys, hvalues], ?_⟩
      simpa [taggedReads, validatorSection, hheader, readLine_header hheader] using hreads
    · have hvalidator : validatorSection checked line = checked := by
        simp [validatorSection, hheader]
      rcases hskip with houtside | hblank
      · have hchecked : checked ≠ some name := by
          simpa [houtside, eq_comm] using hin
        obtain ⟨keys, hkeys, hreads⟩ := @ih _ checked (readLine current line).1 hrest hin
          fun heq => absurd heq hchecked
        refine ⟨keys, hkeys, ?_⟩
        rw [taggedReads, hvalidator, List.filter_append, List.map_append, hreads]
        cases (readLine current line).2 <;> simp [hchecked]
      · obtain ⟨keys, hkeys, hreads⟩ := @ih _ checked current hrest hin hsame
        refine ⟨keys, hkeys, ?_⟩
        simpa [taggedReads, hvalidator, readLine_blank hblank] using hreads
    · have hvalidator : validatorSection checked line = checked := by
        simp [validatorSection, hheader]
      have hchecked : checked = some name := by
        simpa [hinside, eq_comm] using hin
      obtain ⟨keys, hkeys, hreads⟩ := @ih _ checked current hrest hin hsame
      refine ⟨key :: keys, by simpa using hkeys, ?_⟩
      have hread : readLine current line = (current, some (name, key)) := by
        rw [readLine_assignment hassign, hsame hchecked]
        rfl
      rw [taggedReads, hvalidator, hread, List.filter_append, List.map_append, hreads, hchecked]
      simp

theorem readsIn_of_extract {content : QString} {values : List (QString × QString)}
    (h : extractSectionAssignments content name allowed = .ok values) :
    readsIn name content = (values.map Prod.fst).map fun key => (name, key) := by
  simp only [extractSectionAssignments, bind_eq_ok] at h
  obtain ⟨final, hscan, hfinal⟩ := h
  split_ifs at hfinal
  obtain rfl := pure_eq_ok.mp hfinal
  obtain ⟨keys, hkeys, hreads⟩ := @taggedReads_of_scan _ _ _ _ _ none none hscan (by simp) (by simp)
  rw [readsIn, tagged, hreads, hkeys]
  rfl

/-- The keys a scan has collected are distinct and allowed. -/
theorem keys_of_scan {lines : List QString}
    (h : lines.foldlM (scanSectionLine name allowed) scan = .ok scan')
    (hkeys : (scan.values.map Prod.fst).Nodup ∧ ∀ key ∈ scan.values.map Prod.fst, key ∈ allowed) :
    (scan'.values.map Prod.fst).Nodup ∧ ∀ key ∈ scan'.values.map Prod.fst, key ∈ allowed := by
  induction lines generalizing scan with
  | nil =>
    obtain rfl := Except.ok.inj h
    exact hkeys
  | cons line lines ih =>
    rw [List.foldlM_cons, bind_eq_ok] at h
    obtain ⟨next, hstep, hrest⟩ := h
    rcases scanSectionLine_cases hstep with ⟨header, -, -, hvalues⟩ | ⟨-, -, rfl⟩ |
      ⟨-, -, key, value, -, hallowed, hnew, rfl⟩
    · exact ih hrest (hvalues ▸ hkeys)
    · exact ih hrest hkeys
    · refine ih hrest ⟨?_, ?_⟩
      · rw [List.map_append, List.nodup_append]
        refine ⟨hkeys.1, by simp, ?_⟩
        intro a ha b hb
        obtain rfl : b = key := by simpa using hb
        rintro rfl
        obtain ⟨pair, hpair, rfl⟩ := List.mem_map.mp ha
        rw [List.lookup_eq_none_iff] at hnew
        simpa using hnew pair hpair
      · intro k hk
        rw [List.map_append, List.mem_append] at hk
        rcases hk with hk | hk
        · exact hkeys.2 k hk
        · obtain rfl : k = key := by simpa using hk
          exact hallowed

end Scan

section Template

variable {content : QString} {marker : Marker} {mountPoint : QString}

def description : Directive := (qs "Unit", qs "Description")

/-- The directives a generated `.mount` unit is made of. -/
def mountDirectives : List Directive := mountKeys.map fun key => (qs "Mount", key)

/-- The directives a generated `.automount` unit is made of. -/
def automountDirectives : List Directive :=
  (automountKeys.map fun key => (qs "Automount", key)) ++
    [(qs "Unit", qs "ConditionPathIsDirectory")]

/-- systemd reads exactly one assignment of each template directive, and beyond
them at most one `Description` in `[Unit]`. -/
def MatchesTemplate (template : List Directive) (content : QString) : Prop :=
  (loaderDirectives content).Perm template ∨
    (loaderDirectives content).Perm (template ++ [description])

instance (template : List Directive) (content : QString) :
    Decidable (MatchesTemplate template content) :=
  inferInstanceAs (Decidable (_ ∨ _))

/-- The lines a validator passes over hold no assignment, or a single
`Description` in `[Unit]` that no examined line gives already. -/
def OnlyDescriptionPassedOver (sections : List QString) (content : QString) : Prop :=
  passedOver sections content = [] ∨
    passedOver sections content = [description] ∧ description ∉ examined sections content

theorem extract_keys {values : List (QString × QString)} {name : QString} {allowed : List QString}
    (h : extractSectionAssignments content name allowed = .ok values) :
    (values.map Prod.fst).Nodup ∧ ∀ key ∈ values.map Prod.fst, key ∈ allowed := by
  simp only [extractSectionAssignments, bind_eq_ok] at h
  obtain ⟨final, hscan, hfinal⟩ := h
  split_ifs at hfinal
  obtain rfl := pure_eq_ok.mp hfinal
  exact keys_of_scan hscan ⟨List.nodup_nil, fun key hkey => absurd hkey List.not_mem_nil⟩

theorem mem_keys_of_requireKeys {values : List (QString × QString)} {name : QString}
    {required : List QString} (h : requireKeys name required values = .ok ()) {key : QString}
    (hkey : key ∈ required) : key ∈ values.map Prod.fst := by
  unfold requireKeys at h
  split at h
  · exact absurd h (by simp)
  · rename_i hfind
    have hsome := List.find?_eq_none.mp hfind key hkey
    by_contra hno
    refine hsome ?_
    rw [Option.isNone_iff_eq_none, List.lookup_eq_none_iff]
    intro pair hpair
    rw [bne_iff_ne]
    exact fun heq => hno (heq ▸ List.mem_map_of_mem hpair)

theorem examined_singleton (name content : QString) :
    examined [name] content = readsIn name content := by
  have hsame : (fun d : Option QString × Directive => d.1.any (· ∈ [name])) =
      fun d => decide (d.1 = some name) := by
    funext d
    cases d.1 <;> simp
  rw [examined, readsIn, hsame]

theorem examined_pair {first second : QString} (hne : first ≠ second) (content : QString) :
    (examined [first, second] content).Perm (readsIn first content ++ readsIn second content) := by
  rw [examined, readsIn, readsIn, ← List.map_append]
  have hfirst : (fun d : Option QString × Directive =>
      decide (d.1 = some first) && d.1.any (· ∈ [first, second])) =
        fun d => decide (d.1 = some first) := by
    funext d
    cases d.1 with
    | none => simp
    | some name => by_cases h : name = first <;> simp [h]
  have hsecond : (fun d : Option QString × Directive =>
      !decide (d.1 = some first) && d.1.any (· ∈ [first, second])) =
        fun d => decide (d.1 = some second) := by
    funext d
    cases d.1 with
    | none => simp
    | some name => by_cases h : name = first <;> simp [h, hne]
  have hsplit := List.filter_append_perm (fun d : Option QString × Directive => d.1 = some first)
    ((tagged content).filter fun d => d.1.any (· ∈ [first, second]))
  rw [List.filter_filter, List.filter_filter, hfirst, hsecond] at hsplit
  exact hsplit.symm.map _

/-- With the template's directives examined, and at most a description, the file
matches the template exactly when nothing but a description is passed over. -/
theorem matchesTemplate_iff {template extra : List Directive} {sections : List QString}
    (hexamined : (examined sections content).Perm (template ++ extra))
    (hextra : extra = [] ∨ extra = [description]) (htemplate : description ∉ template) :
    MatchesTemplate template content ↔ OnlyDescriptionPassedOver sections content := by
  have hreads : (loaderDirectives content).Perm
      (template ++ (extra ++ passedOver sections content)) := by
    rw [← List.append_assoc]
    exact (loaderDirectives_perm sections content).trans (hexamined.append_right _)
  have hmatch : MatchesTemplate template content ↔
      extra ++ passedOver sections content = [] ∨
        extra ++ passedOver sections content = [description] := by
    refine or_congr ⟨fun h => ?_, fun h => ?_⟩ ⟨fun h => ?_, fun h => ?_⟩
    · have hperm := hreads.symm.trans h
      rw [← List.append_nil template, List.append_assoc, List.nil_append,
        List.perm_append_left_iff] at hperm
      exact List.perm_nil.mp hperm
    · simpa [h] using hreads
    · exact List.perm_singleton.mp ((List.perm_append_left_iff _).mp (hreads.symm.trans h))
    · rw [h] at hreads
      exact hreads
  have hmem : description ∈ examined sections content ↔ description ∈ extra := by
    rw [hexamined.mem_iff, List.mem_append, or_iff_right htemplate]
  rw [hmatch, OnlyDescriptionPassedOver, hmem]
  rcases hextra with rfl | rfl <;> simp

theorem examined_mount {what : QString}
    (h : validateMountUnitBody content marker mountPoint = .ok what) :
    (examined [qs "Mount"] content).Perm mountDirectives := by
  obtain ⟨-, values, hextract, hrequired, -⟩ := validateMountUnitBody_eq_ok.mp h
  obtain ⟨hnodup, hallowed⟩ := extract_keys hextract
  have hkeys : (values.map Prod.fst).Perm mountKeys :=
    (List.perm_ext_iff_of_nodup hnodup (by decide)).mpr fun key =>
      ⟨hallowed key, mem_keys_of_requireKeys hrequired⟩
  rw [examined_singleton, readsIn_of_extract hextract]
  exact hkeys.map _

theorem examined_automount
    (h : validateAutomountUnitBody content marker mountPoint = .ok ()) :
    ∃ extra, (extra = [] ∨ extra = [description]) ∧
      (examined [qs "Automount", qs "Unit"] content).Perm (automountDirectives ++ extra) := by
  obtain ⟨-, values, unitValues, hextract, hrequired, hunit, hunitRequired, -⟩ :=
    validateAutomountUnitBody_eq_ok.mp h
  obtain ⟨hnodup, hallowed⟩ := extract_keys hextract
  obtain ⟨hunitNodup, hunitAllowed⟩ := extract_keys hunit
  have hkeys : (values.map Prod.fst).Perm automountKeys :=
    (List.perm_ext_iff_of_nodup hnodup (by decide)).mpr fun key =>
      ⟨hallowed key, mem_keys_of_requireKeys hrequired⟩
  have hcondition : qs "ConditionPathIsDirectory" ∈ unitValues.map Prod.fst :=
    mem_keys_of_requireKeys hunitRequired (List.mem_singleton.mpr rfl)
  have hexamined := (examined_pair (by decide : qs "Automount" ≠ qs "Unit") content)
  rw [readsIn_of_extract hextract, readsIn_of_extract hunit] at hexamined
  by_cases hdescription : qs "Description" ∈ unitValues.map Prod.fst
  · have hunitKeys : (unitValues.map Prod.fst).Perm
        [qs "ConditionPathIsDirectory", qs "Description"] := by
      refine (List.perm_ext_iff_of_nodup hunitNodup (by decide)).mpr fun key => ⟨fun hk => ?_, ?_⟩
      · have := hunitAllowed key hk
        simp only [unitKeys, List.mem_cons, List.not_mem_nil, or_false] at this ⊢
        exact this.symm
      · simp only [List.mem_cons, List.not_mem_nil, or_false]
        rintro (rfl | rfl) <;> assumption
    refine ⟨[description], Or.inr rfl, hexamined.trans ?_⟩
    rw [automountDirectives, List.append_assoc]
    exact (hkeys.map _).append (hunitKeys.map _)
  · have hunitKeys : (unitValues.map Prod.fst).Perm [qs "ConditionPathIsDirectory"] := by
      refine (List.perm_ext_iff_of_nodup hunitNodup (by decide)).mpr fun key => ⟨fun hk => ?_, ?_⟩
      · have := hunitAllowed key hk
        simp only [unitKeys, List.mem_cons, List.not_mem_nil, or_false] at this
        rcases this with rfl | rfl
        · exact absurd hk hdescription
        · exact List.mem_singleton.mpr rfl
      · rw [List.mem_singleton]
        rintro rfl
        exact hcondition
    refine ⟨[], Or.inl rfl, hexamined.trans ?_⟩
    rw [automountDirectives, List.append_nil]
    exact (hkeys.map _).append (hunitKeys.map _)

/-- An accepted body holds the template's directives and nothing more exactly
when the lines the validator passes over add at most a description. -/
theorem accepted_matchesTemplate_iff (content : QString) (marker : Marker) (mountPoint : QString) :
    (∀ what, validateMountUnitBody content marker mountPoint = .ok what →
      (MatchesTemplate mountDirectives content ↔
        OnlyDescriptionPassedOver [qs "Mount"] content)) ∧
    (validateAutomountUnitBody content marker mountPoint = .ok () →
      (MatchesTemplate automountDirectives content ↔
        OnlyDescriptionPassedOver [qs "Automount", qs "Unit"] content)) := by
  refine ⟨fun what h => ?_, fun h => ?_⟩
  · exact matchesTemplate_iff (by simpa using examined_mount h) (Or.inl rfl) (by decide)
  · obtain ⟨extra, hextra, hperm⟩ := examined_automount h
    exact matchesTemplate_iff hperm hextra (by decide)

/-- A guest share's mount unit with further lines in its `[Unit]` section. -/
def sampleMountUnit (unitLines : List QString) : QString := unlines <|
  markerLines sampleMarker ++ [qs "[Unit]"] ++ unitLines ++
    [qs "[Mount]", qs "What=//nas/share", qs "Where=/mnt/a", qs "Type=cifs",
      qs "Options=guest,nosuid,nodev,forceuid,forcegid,uid=1000,gid=1000,nounix," ++
        qs "iocharset=utf8,file_mode=0600,dir_mode=0700",
      qs "TimeoutSec=30"]

/-- Its automount unit with further lines at the end. -/
def sampleAutomountUnit (lastLines : List QString) : QString := unlines <|
  markerLines sampleMarker ++
    [qs "[Unit]", qs "ConditionPathIsDirectory=/mnt/a", qs "[Automount]", qs "Where=/mnt/a",
      qs "TimeoutIdleSec=60", qs "DirectoryMode=0700"] ++ lastLines

theorem sampleUnits_matchTemplate :
    MatchesTemplate mountDirectives (sampleMountUnit [qs "Description=nas"]) ∧
      MatchesTemplate automountDirectives (sampleAutomountUnit []) :=
  ⟨((accepted_matchesTemplate_iff _ sampleMarker (qs "/mnt/a")).1 (qs "//nas/share")
      (by decide +kernel)).mpr (Or.inr (by decide +kernel)),
    ((accepted_matchesTemplate_iff _ sampleMarker (qs "/mnt/a")).2 (by decide +kernel)).mpr
      (Or.inl (by decide +kernel))⟩

/-- Both validators accept a unit with a directive beyond the template: one in a
section the validator never looks at, one below a header only systemd sees. -/
theorem accepted_beyond_template :
    validateMountUnitBody (sampleMountUnit [qs "Requires=other.service"]) sampleMarker
        (qs "/mnt/a") = .ok (qs "//nas/share") ∧
      ¬MatchesTemplate mountDirectives (sampleMountUnit [qs "Requires=other.service"]) ∧
      validateAutomountUnitBody
        (sampleAutomountUnit [qs "[Install]", qs " [Automount]", qs "DirectoryMode=0777"])
        sampleMarker (qs "/mnt/a") = .ok () ∧
      ¬MatchesTemplate automountDirectives
        (sampleAutomountUnit [qs "[Install]", qs " [Automount]", qs "DirectoryMode=0777"]) := by
  decide +kernel

end Template

end NasMount.Core
