import NasMount.Core.Verify

/-!
# What is generated is recognised

The generated unit contents, read back by the marker parser, by the body
validators, by the strict inspection and by the light scan. Every value is
written on one line, so the readers are run line by line.
-/
namespace NasMount.Core

open NasMount.Foundation QString

section Lines

theorem endsWithChar_append {t : QString} (ht : t ≠ []) (s : QString) (c : Char) :
    endsWithChar (s ++ t) c = endsWithChar t c := by
  simp [endsWithChar, List.getLast?_append_of_ne_nil s ht]

/-- A replacement of characters that keeps which texts end in `c`. -/
theorem endsWithChar_flatMap {f : Char → QString} {c : Char}
    (hf : ∀ d, f d ≠ [] ∧ (endsWithChar (f d) c = true → d = c)) {s : QString}
    (h : endsWithChar s c = false) : endsWithChar (s.flatMap f) c = false := by
  induction s using List.reverseRecOn with
  | nil => rfl
  | append_singleton s d _ =>
    rw [List.flatMap_append, List.flatMap_singleton, endsWithChar_append (hf d).1]
    rw [endsWithChar_append (by simp)] at h
    by_contra hlast
    have hd : d = c := (hf d).2 (by simpa using hlast)
    simp [endsWithChar, hd] at h

theorem double_notEndsWith {s : QString} (h : endsWithChar s '\\' = false) :
    endsWithChar (double '%' s) '\\' = false := by
  refine endsWithChar_flatMap (fun d => ?_) h
  split_ifs with hd
  · exact ⟨by simp, by simp [endsWithChar]⟩
  · exact ⟨by simp, by simp [endsWithChar]⟩

theorem toHtmlEscaped_notEndsWith {s : QString} (h : endsWithChar s '\\' = false) :
    endsWithChar (toHtmlEscaped s) '\\' = false := by
  refine endsWithChar_flatMap (fun d => ?_) h
  split_ifs with h1 h2 h3 h4
  · exact ⟨by simp [qs], by simp [endsWithChar, qs]⟩
  · exact ⟨by simp [qs], by simp [endsWithChar, qs]⟩
  · exact ⟨by simp [qs], by simp [endsWithChar, qs]⟩
  · exact ⟨by simp [qs], by simp [endsWithChar, qs]⟩
  · exact ⟨by simp, by simp [endsWithChar]⟩

theorem newline_notMem_toHtmlEscaped {s : QString} (h : '\n' ∉ s) : '\n' ∉ toHtmlEscaped s := by
  simp only [toHtmlEscaped, List.mem_flatMap, not_exists, not_and]
  intro d hd
  have hne : '\n' ≠ d := fun heq => h (heq ▸ hd)
  split_ifs <;> simp [qs, hne]

/-- One line of a unit file that does not continue on the next. -/
def CleanLine (line : QString) : Prop := '\n' ∉ line ∧ endsWithChar line '\\' = false

theorem cleanLine_assignmentLine {key value : QString} (hkey : '\n' ∉ key)
    (hvalue : CleanLine value) :
    CleanLine (assignmentLine (key, value)) := by
  refine ⟨by simp [assignmentLine, hkey, hvalue.1], ?_⟩
  show endsWithChar (key ++ ('=' :: value)) '\\' = false
  rw [endsWithChar_append (by simp)]
  cases value with
  | nil => simp [endsWithChar]
  | cons c cs =>
    rw [← List.singleton_append, endsWithChar_append (by simp)]
    exact hvalue.2

theorem cleanLine_encoded {value encoded : QString} (h : encodeUnitValue value = .ok encoded) :
    CleanLine encoded := by
  refine ⟨encodeUnitValue_notMem h (by decide), ?_⟩
  obtain ⟨rfl, -, -, -, hlast⟩ := encodeUnitValue_ok h
  exact double_notEndsWith hlast

theorem cleanLine_description {value encoded : QString} (h : encodeUnitValue value = .ok encoded)
    {intro : QString} (hintro : '\n' ∉ intro) (hlast : endsWithChar intro '\\' = false) :
    CleanLine (intro ++ toHtmlEscaped value) := by
  obtain ⟨-, hcontrol, -, -, hvalue⟩ := encodeUnitValue_ok h
  have hnewline := newline_notMem_toHtmlEscaped
    (notMem_of_not_hasControlChars hcontrol (by decide : ('\n').toNat < 0x20))
  refine ⟨by simp [hintro, hnewline], ?_⟩
  by_cases hempty : toHtmlEscaped value = []
  · rw [hempty, List.append_nil]
    exact hlast
  · rw [endsWithChar_append hempty]
    exact toHtmlEscaped_notEndsWith hvalue

theorem hasLineContinuation_unlines {lines : List QString} (h : ∀ line ∈ lines, CleanLine line) :
    hasLineContinuation (unlines lines) = false := by
  rw [hasLineContinuation, split_unlines fun line hl => (h line hl).1, List.any_eq_false]
  intro line hline
  rw [List.mem_append, List.mem_singleton] at hline
  rcases hline with hline | rfl
  · simp [(h line hline).2]
  · simp [endsWithChar]

theorem cleanLine_markerLines {marker : Marker} {line : QString} (h : line ∈ markerLines marker) :
    CleanLine line := by
  refine ⟨notMem_markerLines h (Or.inl rfl), ?_⟩
  rw [endsWithChar, beq_eq_false_iff_ne]
  exact fun hlast => notMem_markerLines h (Or.inr rfl) (List.mem_of_getLast? hlast)

end Lines

section Sections

variable {name : QString} {allowed : List QString} {scan : SectionScan}

theorem trimmed_ne_nil {s : QString} {c : Char} (hc : c ∈ s) (hspace : isSpace c = false) :
    trimmed s ≠ [] := by
  intro h
  rw [trimmed, List.rdropWhile_eq_nil_iff] at h
  have hmem : c ∈ s.dropWhile isSpace := by
    rw [← List.takeWhile_append_dropWhile (p := isSpace) (l := s), List.mem_append] at hc
    refine hc.resolve_left fun htake => ?_
    rw [List.mem_takeWhile_imp htake] at hspace
    exact absurd hspace (by decide)
  rw [h c hmem] at hspace
  exact absurd hspace (by decide)

theorem isKey_chars {key : QString} (h : isKey key = true) {c : Char} (hc : c ∈ key) :
    isLetter c = true ∨ isDigit c = true := by
  cases key with
  | nil => simp at hc
  | cons d ds =>
    simp only [isKey, Bool.and_eq_true, List.all_eq_true, Bool.or_eq_true] at h
    rcases List.mem_cons.mp hc with rfl | hc
    · exact Or.inl h.1
    · exact h.2 c hc

theorem assignment_assignmentLine {key value : QString} (hkey : isKey key = true) :
    assignment (assignmentLine (key, value)) = some (key, value) := by
  have hne : ∀ c ∈ key, decide (c ≠ '=') = true := by
    intro c hc
    rw [decide_eq_true_eq]
    rintro rfl
    rcases isKey_chars hkey hc with h | h <;> exact absurd h (by decide)
  have htake : (assignmentLine (key, value)).takeWhile (· ≠ '=') = key := by
    rw [assignmentLine, List.takeWhile_append_of_pos hne]
    simp
  have hdrop : (assignmentLine (key, value)).dropWhile (· ≠ '=') = '=' :: value := by
    rw [assignmentLine, List.dropWhile_append_of_pos hne]
    simp
  simp only [assignment, hdrop, htake, hkey, if_true]

theorem assignment_eq_some {line key value : QString} (h : assignment line = some (key, value)) :
    line = key ++ '=' :: value ∧ isKey key = true := by
  unfold assignment at h
  split at h
  · exact absurd h (by simp)
  · rename_i c rest hdrop
    have hc : c = '=' := by
      have hhead := List.head?_dropWhile_not (· ≠ '=') line
      rw [hdrop] at hhead
      simpa using hhead
    subst hc
    dsimp only at h
    split_ifs at h with hkey
    obtain ⟨rfl, rfl⟩ := Prod.mk.inj (Option.some.inj h)
    exact ⟨by rw [← hdrop, List.takeWhile_append_dropWhile], hkey⟩

theorem sectionHeader_assignmentLine {key value : QString} (hkey : isKey key = true) :
    sectionHeader (assignmentLine (key, value)) = none := by
  cases key with
  | nil => simp [isKey] at hkey
  | cons c cs =>
    have hletter : isLetter c = true := by
      simp only [isKey, Bool.and_eq_true] at hkey
      exact hkey.1
    have hc : c ≠ '[' := by
      rintro rfl
      exact absurd hletter (by decide)
    unfold sectionHeader
    split
    · rename_i heq
      exact absurd (List.cons.inj heq).1 hc
    · rfl

theorem scanSectionLine_outside {line : QString} (hheader : sectionHeader line = none)
    (hin : scan.inSection = false) : scanSectionLine name allowed scan line = .ok scan := by
  simp [scanSectionLine, hheader, hin]

theorem scanSectionLine_assignmentLine {key value : QString} (hkey : isKey key = true)
    (hin : scan.inSection = true) (hallowed : key ∈ allowed)
    (hnew : scan.values.lookup key = none) :
    scanSectionLine name allowed scan (assignmentLine (key, value)) =
      .ok { scan with values := scan.values ++ [(key, value)] } := by
  have hblank : trimmed (assignmentLine (key, value)) ≠ [] :=
    trimmed_ne_nil (by simp [assignmentLine] : '=' ∈ assignmentLine (key, value)) (by decide)
  simp [scanSectionLine, sectionHeader_assignmentLine hkey, hin, hblank,
    assignment_assignmentLine hkey, hallowed, hnew]

/-- Inside its section the loop collects distinct allowed assignments in order. -/
theorem foldlM_assignmentLines {pairs : List (QString × QString)} (hin : scan.inSection = true)
    (hkeys : ∀ key ∈ pairs.map Prod.fst, isKey key = true ∧ key ∈ allowed)
    (hnodup : (pairs.map Prod.fst).Nodup)
    (hnew : ∀ key ∈ pairs.map Prod.fst, scan.values.lookup key = none) :
    (pairs.map assignmentLine).foldlM (scanSectionLine name allowed) scan =
      .ok { scan with values := scan.values ++ pairs } := by
  induction pairs generalizing scan with
  | nil => simp [pure, Except.pure]
  | cons pair pairs ih =>
    obtain ⟨key, value⟩ := pair
    rw [List.map_cons, List.nodup_cons] at hnodup
    rw [List.map_cons, List.forall_mem_cons] at hkeys hnew
    rw [List.map_cons, List.foldlM_cons,
      scanSectionLine_assignmentLine hkeys.1.1 hin hkeys.1.2 hnew.1]
    refine (@ih { scan with values := scan.values ++ [(key, value)] } hin hkeys.2 hnodup.2
      fun k hk => ?_).trans ?_
    · have hne : k ≠ key := fun heq => hnodup.1 (heq ▸ hk)
      simp [List.lookup_append, hnew.2 k hk, List.lookup_cons, beq_false_of_ne hne]
    · simp

/-- The loop outside its section passes over anything that is no header. -/
theorem foldlM_outside {lines : List QString} (hin : scan.inSection = false)
    (h : ∀ line ∈ lines, sectionHeader line = none) :
    lines.foldlM (scanSectionLine name allowed) scan = .ok scan :=
  foldlM_skip fun line hl => scanSectionLine_outside (h line hl) hin

theorem sectionHeader_preamble {marker : Marker} {line : QString}
    (h : line ∈ [headerLine] ++ markerLines marker) : sectionHeader line = none := by
  rw [List.mem_append, List.mem_singleton] at h
  rcases h with rfl | h
  · rfl
  · obtain ⟨field, -, rfl⟩ := List.mem_map.mp h
    rfl

end Sections

section Generated

variable {marker : Marker} {unc mountPoint what whereValue options content : QString}

/-- The lines of a generated `.mount` unit. -/
def mountLines (marker : Marker) (unc what whereValue options : QString) : List QString :=
  [headerLine] ++ markerLines marker ++ mountBodyLines unc what whereValue options

/-- The lines of a generated `.automount` unit. -/
def automountLines (marker : Marker) (mountPoint whereValue : QString) : List QString :=
  [headerLine] ++ markerLines marker ++ automountBodyLines mountPoint whereValue

theorem cleanLine_mountLines (hwhat : encodeUnitValue unc = .ok what)
    (hwhere : encodeUnitValue mountPoint = .ok whereValue)
    (hoptions : encodeUnitValue (mountOptionsFor marker) = .ok options) :
    ∀ line ∈ mountLines marker unc what whereValue options, CleanLine line := by
  intro line hline
  simp only [mountLines, mountBodyLines, mountAssignments, List.mem_append, List.map_cons,
    List.map_nil, List.mem_cons, List.not_mem_nil, or_false] at hline
  rcases hline with (rfl | hline) | (rfl | rfl | rfl | rfl) | rfl | rfl | rfl | rfl | rfl
  · exact ⟨by decide, by decide⟩
  · exact cleanLine_markerLines hline
  · exact ⟨by decide, by decide⟩
  · exact cleanLine_assignmentLine (by decide)
      (cleanLine_description hwhat (by decide) (by decide))
  · exact ⟨by decide, by decide⟩
  · exact ⟨by decide, by decide⟩
  · exact cleanLine_assignmentLine (by decide) (cleanLine_encoded hwhat)
  · exact cleanLine_assignmentLine (by decide) (cleanLine_encoded hwhere)
  · exact ⟨by decide, by decide⟩
  · exact cleanLine_assignmentLine (by decide) (cleanLine_encoded hoptions)
  · exact ⟨by decide, by decide⟩

theorem cleanLine_automountLines (hwhere : encodeUnitValue mountPoint = .ok whereValue) :
    ∀ line ∈ automountLines marker mountPoint whereValue, CleanLine line := by
  intro line hline
  simp only [automountLines, automountBodyLines, automountAssignments, List.mem_append,
    List.map_cons, List.map_nil, List.mem_cons, List.not_mem_nil, or_false] at hline
  rcases hline with (rfl | hline) | (rfl | rfl | rfl | rfl | rfl) | rfl | rfl | rfl
  · exact ⟨by decide, by decide⟩
  · exact cleanLine_markerLines hline
  · exact ⟨by decide, by decide⟩
  · exact cleanLine_assignmentLine (by decide)
      (cleanLine_description hwhere (by decide) (by decide))
  · exact cleanLine_assignmentLine (by decide) (cleanLine_encoded hwhere)
  · exact ⟨by decide, by decide⟩
  · exact ⟨by decide, by decide⟩
  · exact cleanLine_assignmentLine (by decide) (cleanLine_encoded hwhere)
  · exact ⟨by decide, by decide⟩
  · exact ⟨by decide, by decide⟩

theorem mountBodyLines_notMarker {line : QString}
    (h : line ∈ mountBodyLines unc what whereValue options) :
    startsWith line markerPrefix = false := by
  simp only [mountBodyLines, mountAssignments, List.mem_append, List.map_cons, List.map_nil,
    List.mem_cons, List.not_mem_nil, or_false] at h
  rcases h with (rfl | rfl | rfl | rfl) | rfl | rfl | rfl | rfl | rfl <;> rfl

theorem automountBodyLines_notMarker {line : QString}
    (h : line ∈ automountBodyLines mountPoint whereValue) :
    startsWith line markerPrefix = false := by
  simp only [automountBodyLines, automountAssignments, List.mem_append, List.map_cons,
    List.map_nil, List.mem_cons, List.not_mem_nil, or_false] at h
  rcases h with (rfl | rfl | rfl | rfl | rfl) | rfl | rfl | rfl <;> rfl

theorem headerLine_notMarker : startsWith headerLine markerPrefix = false := by decide

theorem parseMarker_mountLines
    (h : ∀ line ∈ mountLines marker unc what whereValue options, CleanLine line) :
    parseMarker (unlines (mountLines marker unc what whereValue options)) = .ok marker := by
  refine parseMarker_unlines marker (fun line hline => ?_) fun line hline => ?_
  · obtain rfl := List.mem_singleton.mp hline
    exact ⟨by decide, headerLine_notMarker⟩
  · exact ⟨(h line (List.mem_append_right _ hline)).1, mountBodyLines_notMarker hline⟩

theorem parseMarker_automountLines
    (h : ∀ line ∈ automountLines marker mountPoint whereValue, CleanLine line) :
    parseMarker (unlines (automountLines marker mountPoint whereValue)) = .ok marker := by
  refine parseMarker_unlines marker (fun line hline => ?_) fun line hline => ?_
  · obtain rfl := List.mem_singleton.mp hline
    exact ⟨by decide, headerLine_notMarker⟩
  · exact ⟨(h line (List.mem_append_right _ hline)).1, automountBodyLines_notMarker hline⟩

theorem foldlM_preamble (marker : Marker) (name : QString) (allowed : List QString) :
    ([headerLine] ++ markerLines marker).foldlM (scanSectionLine name allowed) {} = .ok {} :=
  foldlM_outside rfl fun _ hl => sectionHeader_preamble hl

theorem extract_mountLines
    (h : ∀ line ∈ mountLines marker unc what whereValue options, CleanLine line) :
    extractSectionAssignments (unlines (mountLines marker unc what whereValue options))
      (qs "Mount") mountKeys = .ok (mountAssignments what whereValue options) := by
  have hopen : [qs "[Unit]",
    assignmentLine (qs "Description", qs "nasmount: " ++ toHtmlEscaped unc),
      [], qs "[Mount]"].foldlM (scanSectionLine (qs "Mount") mountKeys) {} =
        .ok { inSection := true, sectionSeen := true } := rfl
  have hbody : ((mountAssignments what whereValue options).map assignmentLine).foldlM
      (scanSectionLine (qs "Mount") mountKeys) { inSection := true, sectionSeen := true } =
        .ok { inSection := true, sectionSeen := true
              values := mountAssignments what whereValue options } :=
    foldlM_assignmentLines rfl
      (by decide : ∀ key ∈ mountKeys, isKey key = true ∧ key ∈ mountKeys)
      (by decide : mountKeys.Nodup) fun _ _ => rfl
  rw [extractSectionAssignments, split_unlines fun line hl => (h line hl).1, mountLines,
    mountBodyLines, List.append_assoc _ _ [[]], foldlM_append_ok (foldlM_preamble marker _ _),
    List.append_assoc, foldlM_append_ok hopen, foldlM_append_ok hbody]
  rfl
theorem extract_automountLines
    (h : ∀ line ∈ automountLines marker mountPoint whereValue, CleanLine line) :
    extractSectionAssignments (unlines (automountLines marker mountPoint whereValue))
      (qs "Automount") automountKeys = .ok (automountAssignments whereValue) := by
  have hopen : [qs "[Unit]",
      assignmentLine (qs "Description", qs "nasmount automount: " ++ toHtmlEscaped mountPoint),
      assignmentLine (qs "ConditionPathIsDirectory", whereValue), [], qs "[Automount]"].foldlM
        (scanSectionLine (qs "Automount") automountKeys) {} =
        .ok { inSection := true, sectionSeen := true } := rfl
  have hbody : ((automountAssignments whereValue).map assignmentLine).foldlM
      (scanSectionLine (qs "Automount") automountKeys) { inSection := true, sectionSeen := true } =
        .ok { inSection := true, sectionSeen := true, values := automountAssignments whereValue } :=
    foldlM_assignmentLines rfl
      (by decide : ∀ key ∈ automountKeys, isKey key = true ∧ key ∈ automountKeys)
      (by decide : automountKeys.Nodup) fun _ _ => rfl
  rw [extractSectionAssignments, split_unlines fun line hl => (h line hl).1, automountLines,
    automountBodyLines, List.append_assoc _ _ [[]], foldlM_append_ok (foldlM_preamble marker _ _),
    List.append_assoc, foldlM_append_ok hopen, foldlM_append_ok hbody]
  rfl

/-- The `[Unit]` assignments of a generated `.automount` unit. -/
def unitAssignments (mountPoint whereValue : QString) : List (QString × QString) :=
  [(qs "Description", qs "nasmount automount: " ++ toHtmlEscaped mountPoint),
    (qs "ConditionPathIsDirectory", whereValue)]

theorem extract_unitLines
    (h : ∀ line ∈ automountLines marker mountPoint whereValue, CleanLine line) :
    extractSectionAssignments (unlines (automountLines marker mountPoint whereValue))
      (qs "Unit") unitKeys = .ok (unitAssignments mountPoint whereValue) := by
  have hopen : [qs "[Unit]"].foldlM (scanSectionLine (qs "Unit") unitKeys) {} =
      .ok { inSection := true, sectionSeen := true } := rfl
  have hbody : ((unitAssignments mountPoint whereValue).map assignmentLine).foldlM
      (scanSectionLine (qs "Unit") unitKeys) { inSection := true, sectionSeen := true } =
        .ok { inSection := true, sectionSeen := true
              values := unitAssignments mountPoint whereValue } :=
    foldlM_assignmentLines rfl
      (by decide : ∀ key ∈ unitKeys, isKey key = true ∧ key ∈ unitKeys)
      (by decide : unitKeys.Nodup) fun _ _ => rfl
  have hclose : [[], qs "[Automount]"].foldlM (scanSectionLine (qs "Unit") unitKeys)
      { inSection := true, sectionSeen := true, values := unitAssignments mountPoint whereValue } =
        .ok { inSection := false, sectionSeen := true
              values := unitAssignments mountPoint whereValue } := rfl
  have hrest : ((automountAssignments whereValue).map assignmentLine ++ [[]]).foldlM
      (scanSectionLine (qs "Unit") unitKeys)
      { inSection := false, sectionSeen := true, values := unitAssignments mountPoint whereValue } =
        .ok { inSection := false, sectionSeen := true
              values := unitAssignments mountPoint whereValue } := by
    refine foldlM_outside rfl fun line hline => ?_
    simp only [automountAssignments, List.map_cons, List.map_nil, List.mem_append, List.mem_cons,
      List.not_mem_nil, or_false] at hline
    rcases hline with (rfl | rfl | rfl) | rfl <;> rfl
  have hlines : automountLines marker mountPoint whereValue ++ [[]] =
      ([headerLine] ++ markerLines marker) ++ ([qs "[Unit]"] ++
        ((unitAssignments mountPoint whereValue).map assignmentLine ++ ([[], qs "[Automount]"] ++
          ((automountAssignments whereValue).map assignmentLine ++ [[]])))) := by
    simp [automountLines, automountBodyLines, unitAssignments]
  rw [extractSectionAssignments, split_unlines fun line hl => (h line hl).1, hlines,
    foldlM_append_ok (foldlM_preamble marker _ _), foldlM_append_ok hopen, foldlM_append_ok hbody,
    foldlM_append_ok hclose, hrest]
  rfl

theorem validateMountUnitBody_mountLines
    (h : ∀ line ∈ mountLines marker unc what whereValue options, CleanLine line)
    (hunc : validateUnc unc = .ok unc) (hwhat : encodeUnitValue unc = .ok what)
    (hwhere : encodeUnitValue mountPoint = .ok whereValue)
    (hoptions : encodeUnitValue (mountOptionsFor marker) = .ok options) :
    validateMountUnitBody (unlines (mountLines marker unc what whereValue options)) marker
      mountPoint = .ok unc := by
  obtain ⟨rfl, -⟩ := encodeUnitValue_ok hwhat
  obtain ⟨rfl, -⟩ := encodeUnitValue_ok hwhere
  exact validateMountUnitBody_eq_ok.mpr ⟨hasLineContinuation_unlines h, _,
    extract_mountLines h, rfl,
    rfl, rfl, undouble_double '%' mountPoint, ⟨unc, hunc⟩, hoptions, undouble_double '%' unc⟩

theorem validateAutomountUnitBody_automountLines
    (h : ∀ line ∈ automountLines marker mountPoint whereValue, CleanLine line)
    (hwhere : encodeUnitValue mountPoint = .ok whereValue) :
    validateAutomountUnitBody (unlines (automountLines marker mountPoint whereValue)) marker
      mountPoint = .ok () :=
  validateAutomountUnitBody_eq_ok.mpr ⟨hasLineContinuation_unlines h, _, _,
    extract_automountLines h, rfl, extract_unitLines h, rfl, hwhere, rfl, rfl, rfl⟩

theorem extractAssignment_lines {body : List QString} {key : QString}
    (h : ∀ line ∈ [headerLine] ++ markerLines marker ++ body, CleanLine line)
    (hkey : key.head? ≠ some '#') (hne : key ≠ []) :
    extractAssignment (unlines ([headerLine] ++ markerLines marker ++ body)) key =
      (body ++ [[]]).foldl (fun found line => (stripPrefix? (key ++ ['=']) line).or found)
        none := by
  have hskip : ∀ lines : List QString, (∀ line ∈ lines, line.head? = some '#') →
      lines.foldl (fun found line => (stripPrefix? (key ++ ['=']) line).or found) none = none := by
    intro lines hlines
    induction lines with
    | nil => rfl
    | cons line lines ih =>
      have hnone : stripPrefix? (key ++ ['=']) line = none := by
        obtain ⟨c, cs, rfl⟩ := List.exists_cons_of_ne_nil hne
        have hhead := hlines line (List.mem_cons_self ..)
        cases line with
        | nil => simp at hhead
        | cons d ds =>
          have hcd : c ≠ d := by
            rintro rfl
            exact hkey hhead
          simp [stripPrefix?, hcd]
      rw [List.foldl_cons, hnone, Option.none_or]
      exact ih fun l hl => hlines l (List.mem_cons_of_mem _ hl)
  rw [extractAssignment, split_unlines fun line hl => (h line hl).1, List.append_assoc,
    List.foldl_append, hskip]
  intro line hline
  rw [List.mem_append, List.mem_singleton] at hline
  rcases hline with rfl | hline
  · rfl
  · obtain ⟨field, -, rfl⟩ := List.mem_map.mp hline
    rfl

theorem extractAssignment_mountLines
    (h : ∀ line ∈ mountLines marker unc what whereValue options, CleanLine line) :
    extractAssignment (unlines (mountLines marker unc what whereValue options)) (qs "Where") =
        some whereValue ∧
      extractAssignment (unlines (mountLines marker unc what whereValue options)) (qs "What") =
        some what :=
  ⟨(extractAssignment_lines h (by decide : (qs "Where").head? ≠ some '#') (by decide)).trans rfl,
    (extractAssignment_lines h (by decide : (qs "What").head? ≠ some '#') (by decide)).trans rfl⟩

theorem extractAssignment_automountLines
    (h : ∀ line ∈ automountLines marker mountPoint whereValue, CleanLine line) :
    extractAssignment (unlines (automountLines marker mountPoint whereValue)) (qs "Where") =
      some whereValue :=
  (extractAssignment_lines h (by decide : (qs "Where").head? ≠ some '#') (by decide)).trans rfl

theorem scanHalf_mountLines {w : World} {base : UnitName} {onlyUid : Option UInt32}
    (h : ∀ line ∈ mountLines marker unc what whereValue options, CleanLine line)
    (hwhat : encodeUnitValue unc = .ok what) (hwhere : encodeUnitValue mountPoint = .ok whereValue)
    (hprobe : probeUnitFile w base.mount =
      .ok (unlines (mountLines marker unc what whereValue options)))
    (howner : onlyUid.any (· ≠ marker.ownerUid) = false) :
    scanHalf w onlyUid base.mount =
      some { key := base.mount, marker := marker, whereValue := mountPoint, what := unc } := by
  obtain ⟨hwhereLine, hwhatLine⟩ := extractAssignment_mountLines h
  obtain ⟨rfl, -⟩ := encodeUnitValue_ok hwhat
  obtain ⟨rfl, -⟩ := encodeUnitValue_ok hwhere
  unfold scanHalf
  simp only [hprobe, parseMarker_mountLines h, howner, hwhereLine, hwhatLine, Option.map_some,
    undouble_double, Bool.false_eq_true, if_false]
  simp [UnitName.mount]

theorem scanHalf_automountLines {w : World} {base : UnitName} {onlyUid : Option UInt32}
    (h : ∀ line ∈ automountLines marker mountPoint whereValue, CleanLine line)
    (hwhere : encodeUnitValue mountPoint = .ok whereValue)
    (hprobe : probeUnitFile w base.automount =
      .ok (unlines (automountLines marker mountPoint whereValue)))
    (howner : onlyUid.any (· ≠ marker.ownerUid) = false) :
    scanHalf w onlyUid base.automount =
      some { key := base.automount, marker := marker, whereValue := mountPoint, what := [] } := by
  have hwhereLine := extractAssignment_automountLines h
  obtain ⟨rfl, -⟩ := encodeUnitValue_ok hwhere
  unfold scanHalf
  simp only [hprobe, parseMarker_automountLines h, howner, hwhereLine, Option.map_some,
    undouble_double, Bool.false_eq_true, if_false]
  rfl

/-- The two generated files, as an inspection and a scan meet them: safe files
with the generated contents and no drop-in. -/
structure GeneratedFiles (w : World) (base : UnitName) (mountContent automountContent : QString) :
    Prop where
  mount : probeUnitFile w base.mount = .ok mountContent
  automount : probeUnitFile w base.automount = .ok automountContent
  noDropIn : ∀ half, w.dropIns ⟨base, half⟩ = false

theorem inspectDefinition_pair {w : World} {base : UnitName}
    {mountContent automountContent : QString}
    (hfiles : GeneratedFiles w base mountContent automountContent)
    (hmount : parseMarker mountContent = .ok marker)
    (hautomount : parseMarker automountContent = .ok marker)
    (hmountBody : validateMountUnitBody mountContent marker mountPoint = .ok unc)
    (hautomountBody : validateAutomountUnitBody automountContent marker mountPoint = .ok ()) :
    inspectDefinition w base marker.ownerUid mountPoint =
      { state := .pair, marker := some marker, canonicalMountPoint := mountPoint,
        what := unc } := by
  have hm : evaluateMountSide (probeUnitFile w base.mount) marker.ownerUid mountPoint =
      .valid marker unc :=
    evaluateSide_eq_valid.mpr ⟨_, hfiles.mount, hmount, rfl, hmountBody⟩
  have ha : evaluateAutomountSide (probeUnitFile w base.automount) marker.ownerUid mountPoint =
      .valid marker [] :=
    evaluateSide_eq_valid.mpr ⟨_, hfiles.automount, hautomount, rfl, by rw [hautomountBody]; rfl⟩
  have howned : OwnedHalves w base marker.ownerUid mountPoint marker := by
    refine ⟨hfiles.noDropIn, fun half => ?_, ⟨.mount, fun hnone => ?_⟩⟩
    · cases half
      · exact Or.inr ⟨unc, hm⟩
      · exact Or.inr ⟨[], ha⟩
    · have hmissing := probeUnitFile_eq_missing.mpr hnone
      rw [← UnitName.mount, hfiles.mount] at hmissing
      exact nomatch hmissing
  rw [inspectDefinition_of_ownedHalves howned]
  show combineSides (evaluateMountSide _ _ _) (evaluateAutomountSide _ _ _) _ = _
  rw [hm, ha]
  simp [combineSides]

/-- A generated `.mount` unit carries its marker, whatever the share. -/
theorem parseMarker_buildMountUnitContent {marker : Marker} {unc mountPoint content : QString}
    (h : buildMountUnitContent marker unc mountPoint = .ok content) :
    parseMarker content = .ok marker := by
  obtain ⟨what, whereValue, options, hwhat, hwhere, hoptions, rfl⟩ := buildMountUnitContent_ok h
  exact parseMarker_mountLines (cleanLine_mountLines hwhat hwhere hoptions)

theorem parseMarker_buildAutomountUnitContent {marker : Marker} {mountPoint content : QString}
    (h : buildAutomountUnitContent marker mountPoint = .ok content) :
    parseMarker content = .ok marker := by
  obtain ⟨whereValue, hwhere, rfl⟩ := buildAutomountUnitContent_ok h
  exact parseMarker_automountLines (cleanLine_automountLines hwhere)

theorem validateMountUnitBody_buildMountUnitContent {marker : Marker}
    {rawUnc unc mountPoint content : QString} (hunc : validateUnc rawUnc = .ok unc)
    (h : buildMountUnitContent marker unc mountPoint = .ok content) :
    validateMountUnitBody content marker mountPoint = .ok unc := by
  obtain ⟨what, whereValue, options, hwhat, hwhere, hoptions, rfl⟩ := buildMountUnitContent_ok h
  exact validateMountUnitBody_mountLines (cleanLine_mountLines hwhat hwhere hoptions)
    (validateUnc_normalised hunc) hwhat hwhere hoptions

theorem validateAutomountUnitBody_buildAutomountUnitContent {marker : Marker}
    {mountPoint content : QString} (h : buildAutomountUnitContent marker mountPoint = .ok content) :
    validateAutomountUnitBody content marker mountPoint = .ok () := by
  obtain ⟨whereValue, hwhere, rfl⟩ := buildAutomountUnitContent_ok h
  exact validateAutomountUnitBody_automountLines (cleanLine_automountLines hwhere) hwhere

end Generated

end NasMount.Core
