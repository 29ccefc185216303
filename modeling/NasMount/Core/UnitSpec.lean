import NasMount.Core.UnitValue

/-!
# Mount points, shares and the unit template

Validation of a share address and of a mount point, the fixed option list, and
the generation and validation halves of the unit template. A validator's result
is the decoded value or the error text the program reports.
-/
namespace NasMount.Core

open NasMount.Foundation QString

/-- Roots below which a mount point is permitted, in addition to the home. -/
def staticAllowedRoots : List QString := [qs "/mnt", qs "/media"]

def isHostChar (c : Char) : Bool :=
  isDigit c || ('A' ≤ c && c ≤ 'Z') || ('a' ≤ c && c ≤ 'z') || c == '.' || c == '_' || c == '-'

/-- The captures of `^//([A-Za-z0-9._-]+)/([^/].*)$`: host and share path. -/
def uncCaptures (value : QString) : Option (QString × QString) :=
  match value with
  | '/' :: '/' :: rest =>
    let host := rest.takeWhile isHostChar
    match rest.dropWhile isHostChar with
    | '/' :: c :: path => if host ≠ [] ∧ c ≠ '/' then some (host, c :: path) else none
    | _ => none
  | _ => none

/-- Validate a `//host/share[/subdir]` path; the result has no trailing slash. -/
def validateUnc (unc : QString) : Except QString QString :=
  if hasControlChars unc then .error (qs "UNC path contains control characters")
  -- A comma would end the value and start a new mount option.
  else if ',' ∈ unc then .error (qs "UNC path may not contain a comma")
  else
    let value := chopTrailing '/' unc
    match uncCaptures value with
    | none =>
      .error (qs "not a valid UNC path: " ++ unc ++ qs " (expected //host/share)")
    | some (_, path) =>
      if qs ".." ∈ split '/' path then .error (qs "share path may not contain '..'")
      else .ok value

theorem validateUnc_ok {raw unc : QString} (h : validateUnc raw = .ok unc) :
    unc = chopTrailing '/' raw ∧ hasControlChars raw = false ∧ ',' ∉ raw ∧
      ∃ captures, uncCaptures unc = some captures ∧ qs ".." ∉ split '/' captures.2 := by
  unfold validateUnc at h
  split_ifs at h with hcontrol hcomma
  dsimp only at h
  split at h
  · exact absurd h (by simp)
  · rename_i host path hcaptures
    split_ifs at h with hdots
    obtain rfl := Except.ok.inj h
    exact ⟨rfl, by simpa using hcontrol, hcomma, (host, path), hcaptures, hdots⟩

theorem hasControlChars_chopTrailing {c : Char} {s : QString} (h : hasControlChars s = false) :
    hasControlChars (chopTrailing c s) = false := by
  simp only [hasControlChars, List.any_eq_false] at h ⊢
  exact fun d hd => h d (mem_of_mem_chopTrailing hd)

/-- A normalised address is accepted again, unchanged. -/
theorem validateUnc_normalised {raw unc : QString} (h : validateUnc raw = .ok unc) :
    validateUnc unc = .ok unc := by
  obtain ⟨rfl, hcontrol, hcomma, captures, hcaptures, hdots⟩ := validateUnc_ok h
  have hcomma' : ',' ∉ chopTrailing '/' raw := fun hm => hcomma (mem_of_mem_chopTrailing hm)
  simp only [validateUnc, hasControlChars_chopTrailing hcontrol, hcomma', chopTrailing_idem,
    hcaptures, hdots, Bool.false_eq_true, if_false]

/-- An authorized mount point: the allowed root and the components below it. -/
structure MountpointPlan where
  path : QString
  root : QString
  suffix : List QString
  deriving DecidableEq

/-- Lexical normalisation of path components, innermost first in the first
argument; a `..` that has nothing to remove stays. -/
def cleanSegments : List QString → List QString → List QString
  | stack, [] => stack.reverse
  | stack, part :: parts =>
    if part = [] ∨ part = qs "." then cleanSegments stack parts
    else if part = qs ".." then
      match stack with
      | [] => cleanSegments [part] parts
      | top :: below =>
        if top = qs ".." then cleanSegments (part :: stack) parts else cleanSegments below parts
    else cleanSegments (part :: stack) parts

/-- `QDir::cleanPath`. -/
def cleanPath (path : QString) : QString :=
  let segments := cleanSegments [] (split '/' path)
  if path = [] then []
  else if startsWith path ['/'] then '/' :: ['/'].intercalate segments
  else if segments = [] then qs "." else ['/'].intercalate segments

/-- Segments of a clean path: no empty or `.` segment, and `..` only in front. -/
structure CleanSegments (segments : List QString) : Prop where
  ordinary : ∀ part ∈ segments, part ≠ [] ∧ part ≠ qs "." ∧ '/' ∉ part
  upwards : segments.Pairwise fun a b => b = qs ".." → a = qs ".."

theorem cleanSegments_clean (parts : List QString) :
    ∀ stack : List QString, CleanSegments stack.reverse → (∀ part ∈ parts, '/' ∉ part) →
      CleanSegments (cleanSegments stack parts) := by
  induction parts with
  | nil => exact fun stack h _ => h
  | cons part parts ih =>
    intro stack hstack hparts
    have hrest : ∀ p ∈ parts, '/' ∉ p := fun p hp => hparts p (List.mem_cons_of_mem _ hp)
    have hpush : part ≠ [] → part ≠ qs "." → (part = qs ".." → ∀ s ∈ stack, s = qs "..") →
        CleanSegments (part :: stack).reverse := by
      intro hne hdot hup
      rw [List.reverse_cons]
      refine ⟨fun p hp => ?_, List.pairwise_append.mpr ⟨hstack.upwards, by simp, ?_⟩⟩
      · rcases List.mem_append.mp hp with hp | hp
        · exact hstack.ordinary p hp
        · obtain rfl := List.mem_singleton.mp hp
          exact ⟨hne, hdot, hparts p List.mem_cons_self⟩
      · intro a ha b hb hbup
        obtain rfl := List.mem_singleton.mp hb
        exact hup hbup a (List.mem_reverse.mp ha)
    unfold cleanSegments
    split_ifs with hskip hup
    · exact ih stack hstack hrest
    · obtain ⟨hne, hdot⟩ := not_or.mp hskip
      cases stack with
      | nil => exact ih [part] (hpush hne hdot fun _ => by simp) hrest
      | cons top below =>
        dsimp only
        split_ifs with htop
        · refine ih _ (hpush hne hdot fun _ s hs => ?_) hrest
          rcases List.mem_cons.mp hs with rfl | hs
          · exact htop
          · have hpairs := hstack.upwards
            rw [List.reverse_cons, List.pairwise_append] at hpairs
            exact hpairs.2.2 s (List.mem_reverse.mpr hs) top List.mem_cons_self htop
        · refine ih below ⟨fun p hp => hstack.ordinary p ?_, ?_⟩ hrest
          · simp only [List.mem_reverse] at hp ⊢
            exact List.mem_cons_of_mem _ hp
          · have hpairs := hstack.upwards
            rw [List.reverse_cons, List.pairwise_append] at hpairs
            exact hpairs.1
    · obtain ⟨hne, hdot⟩ := not_or.mp hskip
      exact ih _ (hpush hne hdot fun h => absurd h hup) hrest

theorem cleanSegments_fixed (parts : List QString) :
    ∀ stack : List QString, CleanSegments (stack.reverse ++ parts) →
      cleanSegments stack parts = stack.reverse ++ parts := by
  induction parts with
  | nil => exact fun stack _ => by simp [cleanSegments]
  | cons part parts ih =>
    intro stack h
    have hpush : cleanSegments (part :: stack) parts = stack.reverse ++ part :: parts := by
      simpa using ih (part :: stack) (by simpa using h)
    obtain ⟨hne, hdot, -⟩ := h.ordinary part (by simp)
    unfold cleanSegments
    rw [if_neg (by simp [hne, hdot])]
    split_ifs with hup
    · cases stack with
      | nil => exact hpush
      | cons top below =>
        have htop : top = qs ".." := by
          have := (List.pairwise_append.mp h.upwards).2.2 top (by simp) part List.mem_cons_self
          exact this hup
        rw [htop] at hpush ⊢
        exact hpush
    · exact hpush

/-- Cleaning a path twice is cleaning it once. -/
theorem cleanPath_idem (path : QString) : cleanPath (cleanPath path) = cleanPath path := by
  by_cases hempty : path = []
  · subst hempty
    rfl
  have hclean : CleanSegments (cleanSegments [] (split '/' path)) :=
    cleanSegments_clean _ [] ⟨by simp, by simp⟩ fun part hpart => notMem_of_mem_split hpart
  have hcleanPath : cleanPath path =
      if startsWith path ['/'] then '/' :: ['/'].intercalate (cleanSegments [] (split '/' path))
      else if cleanSegments [] (split '/' path) = [] then qs "."
      else ['/'].intercalate (cleanSegments [] (split '/' path)) := if_neg hempty
  generalize hsegments : cleanSegments [] (split '/' path) = segments at hclean hcleanPath
  have hfixed : cleanSegments [] segments = segments := cleanSegments_fixed segments [] hclean
  have hslash : ∀ part ∈ segments, '/' ∉ part := fun part hpart => (hclean.ordinary part hpart).2.2
  have hstrip : ∀ parts, cleanSegments [] ([] :: parts) = cleanSegments [] parts := fun _ => rfl
  rw [hcleanPath]
  split_ifs with habsolute hnone
  · have hsplit : cleanSegments [] (split '/' ('/' :: ['/'].intercalate segments)) = segments := by
      rw [split, if_pos rfl, hstrip]
      by_cases hnone : segments = []
      · subst hnone
        rfl
      · rw [split_intercalate hslash hnone, hfixed]
    rw [cleanPath, if_neg (by simp), hsplit, if_pos (by simp [startsWith, stripPrefix?])]
  · decide
  · obtain ⟨first, rest, rfl⟩ := List.exists_cons_of_ne_nil hnone
    obtain ⟨hne, -, hfirst⟩ := hclean.ordinary first List.mem_cons_self
    obtain ⟨c, cs, rfl⟩ := List.exists_cons_of_ne_nil hne
    have hc : c ≠ '/' := fun h => hfirst (h ▸ List.mem_cons_self)
    obtain ⟨tail, htail⟩ : ∃ tail, ['/'].intercalate ((c :: cs) :: rest) = c :: tail := by
      cases rest with
      | nil => exact ⟨cs, by simp⟩
      | cons next rest => exact ⟨_, by rw [List.intercalate_cons_cons]; rfl⟩
    have hrelative : startsWith (c :: tail) ['/'] = false := by
      simp [startsWith, stripPrefix?, Ne.symm hc]
    have hsplit : cleanSegments [] (split '/' (c :: tail)) = (c :: cs) :: rest := by
      rw [← htail, split_intercalate hslash hnone, hfixed]
    rw [htail, cleanPath, if_neg (by simp), hsplit, hrelative, if_neg (by simp),
      if_neg hnone, htail]

/-- One turn of the loop over the allowed roots; `none` tries the next root. -/
def planBelow (clean root : QString) : Option (Except QString MountpointPlan) :=
  if clean = root then some (.error (qs "refusing to mount directly onto " ++ root))
  else
    match stripPrefix? (root ++ ['/']) clean with
    | none => none
    | some below =>
      let suffix := splitSkipEmpty '/' below
      if suffix = [] then some (.error (qs "refusing to mount directly onto " ++ root))
      else if qs ".." ∈ suffix then some (.error (qs "mount point may not contain '..'"))
      else some (.ok { path := clean, root := root, suffix := suffix })

/-- Purely lexical authorization of a mount point. -/
def validateMountpoint (rawPath homeDir : QString) : Except QString MountpointPlan :=
  if hasControlChars rawPath then .error (qs "mount point contains control characters")
  else if !startsWith rawPath ['/'] then .error (qs "mount point must be an absolute path")
  else if endsWithChar rawPath '\\' then .error (qs "mount point may not end with a backslash")
  else if rawPath ≠ trimmed rawPath then
    .error (qs "mount point may not begin or end with whitespace")
  else
    let allowed := staticAllowedRoots ++ if homeDir = [] then [] else [cleanPath homeDir]
    match allowed.findSome? (planBelow (cleanPath rawPath)) with
    | some verdict => verdict
    | none =>
      .error (qs "mount point must be below one of: " ++ (qs ", ").intercalate allowed)

theorem planBelow_ok {clean root : QString} {plan : MountpointPlan}
    (h : planBelow clean root = some (.ok plan)) :
    ∃ below, clean = root ++ '/' :: below ∧
      plan = { path := clean, root := root, suffix := splitSkipEmpty '/' below } ∧
      splitSkipEmpty '/' below ≠ [] ∧ qs ".." ∉ splitSkipEmpty '/' below := by
  unfold planBelow at h
  split_ifs at h
  · simp at h
  · split at h
    · exact nomatch h
    · rename_i below hbelow
      dsimp only at h
      split_ifs at h with hnone hdots
      · simp at h
      · simp at h
      · refine ⟨below, ?_, (Except.ok.inj (Option.some.inj h)).symm, hnone, hdots⟩
        simpa using stripPrefix?_eq_some.mp hbelow

/-- An authorized plan is one below some root. -/
theorem validateMountpoint_ok {rawPath homeDir : QString} {plan : MountpointPlan}
    (h : validateMountpoint rawPath homeDir = .ok plan) :
    ∃ root, planBelow (cleanPath rawPath) root = some (.ok plan) := by
  unfold validateMountpoint at h
  split_ifs at h
  all_goals
    dsimp only at h
    split at h
    · rename_i verdict hverdict
      obtain ⟨root, -, hroot⟩ := List.exists_of_findSome?_eq_some hverdict
      exact ⟨root, h ▸ hroot⟩
    · exact nomatch h

/-- The fixed option list for one owner, credential path and access mode. An
empty credential path selects `guest`. -/
def mountOptions (uid gid : UInt32) (credPath : QString) (access : AccessMode) : QString :=
  [','].intercalate <|
    [if credPath = [] then qs "guest" else qs "credentials=" ++ credPath,
      qs "nosuid", qs "nodev", qs "forceuid", qs "forcegid", qs "uid=" ++ number uid.toNat,
      qs "gid=" ++ number gid.toNat, qs "nounix", qs "iocharset=utf8"] ++
    match access with
    | .readWrite => [qs "file_mode=0600", qs "dir_mode=0700"]
    | .readOnly => [qs "ro", qs "file_mode=0400", qs "dir_mode=0500"]
    | .readWriteExecutable => [qs "file_mode=0700", qs "dir_mode=0700"]

def credentialDirectory : QString := qs "/etc/nasmount"

def credentialPathFor (id : ShareId) : QString :=
  credentialDirectory ++ '/' :: id.text ++ qs ".cred"

/-- The complete `Options=` value: fully determined by the marker. -/
def mountOptionsFor (marker : Marker) : QString :=
  mountOptions marker.ownerUid marker.ownerGid
    (match marker.authentication with
      | .guest => []
      | .credentials => credentialPathFor marker.id)
    marker.access

section Generation

def headerLine : QString :=
  qs "# Managed by nasmount — do not edit by hand; use the KCM or the dialog."

def mountTemplate : QString :=
  headerLine ++ qs "\n%1" ++ qs "[Unit]\nDescription=nasmount: %2" ++ qs "\n\n[Mount]\nWhat=%3" ++
    qs "\nWhere=%4" ++ qs "\nType=cifs\nOptions=%5" ++ qs "\nTimeoutSec=30\n"

def automountTemplate : QString :=
  headerLine ++ qs "\n%1" ++ qs "[Unit]\nDescription=nasmount automount: %2" ++
    qs "\nConditionPathIsDirectory=%3" ++ qs "\n\n[Automount]\nWhere=%3" ++
    qs "\nTimeoutIdleSec=60\nDirectoryMode=0700\n"

/-- Build the complete `.mount` unit content. -/
def buildMountUnitContent (marker : Marker) (unc mountPoint : QString) :
    Except QString QString := do
  let what ← encodeUnitValue unc
  let whereValue ← encodeUnitValue mountPoint
  let options ← encodeUnitValue (mountOptionsFor marker)
  return multiArg [markerComment marker, toHtmlEscaped unc, what, whereValue, options]
    mountTemplate

/-- Build the complete `.automount` unit content. -/
def buildAutomountUnitContent (marker : Marker) (mountPoint : QString) :
    Except QString QString := do
  let whereValue ← encodeUnitValue mountPoint
  return multiArg [markerComment marker, toHtmlEscaped mountPoint, whereValue] automountTemplate

/-- The line `<key>=<value>`. -/
def assignmentLine (pair : QString × QString) : QString := pair.1 ++ '=' :: pair.2

/-- The assignments of a generated `[Mount]` section. -/
def mountAssignments (what whereValue options : QString) : List (QString × QString) :=
  [(qs "What", what), (qs "Where", whereValue), (qs "Type", qs "cifs"), (qs "Options", options),
    (qs "TimeoutSec", qs "30")]

/-- The assignments of a generated `[Automount]` section. -/
def automountAssignments (whereValue : QString) : List (QString × QString) :=
  [(qs "Where", whereValue), (qs "TimeoutIdleSec", qs "60"), (qs "DirectoryMode", qs "0700")]

/-- The lines of a generated `.mount` unit below its marker block. -/
def mountBodyLines (unc what whereValue options : QString) : List QString :=
  [qs "[Unit]", assignmentLine (qs "Description", qs "nasmount: " ++ toHtmlEscaped unc), [],
    qs "[Mount]"] ++ (mountAssignments what whereValue options).map assignmentLine

/-- The lines of a generated `.automount` unit below its marker block. -/
def automountBodyLines (mountPoint whereValue : QString) : List QString :=
  [qs "[Unit]", assignmentLine (qs "Description",
    qs "nasmount automount: " ++ toHtmlEscaped mountPoint),
    assignmentLine (qs "ConditionPathIsDirectory", whereValue), [], qs "[Automount]"] ++
  (automountAssignments whereValue).map assignmentLine

theorem multiArg_mountTemplate (lines : List QString) (unc what whereValue options : QString) :
    multiArg [unlines lines, toHtmlEscaped unc, what, whereValue, options] mountTemplate =
      unlines ([headerLine] ++ lines ++ mountBodyLines unc what whereValue options) := by
  unfold mountTemplate
  iterate 6 rw [multiArg_append (by decide)]
  rw [multiArg_of_notMem (by decide : '%' ∉ headerLine)]
  simp [multiArg, qs, unlines_append, mountBodyLines, mountAssignments, assignmentLine]

theorem multiArg_automountTemplate (lines : List QString) (mountPoint whereValue : QString) :
    multiArg [unlines lines, toHtmlEscaped mountPoint, whereValue] automountTemplate =
      unlines ([headerLine] ++ lines ++ automountBodyLines mountPoint whereValue) := by
  unfold automountTemplate
  iterate 5 rw [multiArg_append (by decide)]
  rw [multiArg_of_notMem (by decide : '%' ∉ headerLine)]
  simp [multiArg, qs, unlines_append, automountBodyLines, automountAssignments, assignmentLine]

/-- Everything a successful generation of a `.mount` unit says. -/
theorem buildMountUnitContent_ok {marker : Marker} {unc mountPoint content : QString}
    (h : buildMountUnitContent marker unc mountPoint = .ok content) :
    ∃ what whereValue options, encodeUnitValue unc = .ok what ∧
      encodeUnitValue mountPoint = .ok whereValue ∧
      encodeUnitValue (mountOptionsFor marker) = .ok options ∧
      content = unlines ([headerLine] ++ markerLines marker ++
        mountBodyLines unc what whereValue options) := by
  simp only [buildMountUnitContent, bind_eq_ok, pure_eq_ok] at h
  obtain ⟨what, hwhat, whereValue, hwhere, options, hoptions, rfl⟩ := h
  exact ⟨what, whereValue, options, hwhat, hwhere, hoptions, multiArg_mountTemplate _ _ _ _ _⟩

/-- Everything a successful generation of an `.automount` unit says. -/
theorem buildAutomountUnitContent_ok {marker : Marker} {mountPoint content : QString}
    (h : buildAutomountUnitContent marker mountPoint = .ok content) :
    ∃ whereValue, encodeUnitValue mountPoint = .ok whereValue ∧
      content = unlines ([headerLine] ++ markerLines marker ++
        automountBodyLines mountPoint whereValue) := by
  simp only [buildAutomountUnitContent, bind_eq_ok, pure_eq_ok] at h
  obtain ⟨whereValue, hwhere, rfl⟩ := h
  exact ⟨whereValue, hwhere, multiArg_automountTemplate _ _ _⟩

end Generation

section Validation

def hasLineContinuation (content : QString) : Bool :=
  (split '\n' content).any fun line => endsWithChar line '\\'

def isLetter (c : Char) : Bool := ('A' ≤ c && c ≤ 'Z') || ('a' ≤ c && c ≤ 'z')

/-- The capture of `^\[([A-Za-z]+)\]$`. -/
def sectionHeader (line : QString) : Option QString :=
  match line with
  | '[' :: rest =>
    if endsWithChar rest ']' ∧ rest.dropLast ≠ [] ∧ rest.dropLast.all isLetter then
      some rest.dropLast
    else none
  | _ => none

/-- Whether a text matches `[A-Za-z][A-Za-z0-9]*`. -/
def isKey (key : QString) : Bool :=
  match key with
  | [] => false
  | c :: rest => isLetter c && rest.all fun d => isLetter d || isDigit d

/-- The captures of `^([A-Za-z][A-Za-z0-9]*)=(.*)$`. -/
def assignment (line : QString) : Option (QString × QString) :=
  match line.dropWhile (· ≠ '=') with
  | [] => none
  | _ :: value =>
    let key := line.takeWhile (· ≠ '=')
    if isKey key then some (key, value) else none

/-- The variables of the section scan. Keys of `values` are never repeated. -/
structure SectionScan where
  inSection : Bool := false
  sectionSeen : Bool := false
  values : List (QString × QString) := []

/-- One turn of the loop of `extractSectionAssignments`. -/
def scanSectionLine (sectionName : QString) (allowedKeys : List QString) (scan : SectionScan)
    (line : QString) : Except QString SectionScan :=
  match sectionHeader line with
  | some name =>
    let inSection := decide (name = sectionName)
    .ok { scan with inSection := inSection, sectionSeen := scan.sectionSeen || inSection }
  | none =>
    if !scan.inSection || trimmed line = [] then .ok scan
    else
      match assignment line with
      | none => .error (qs "unparseable line in [" ++ sectionName ++ qs "]: " ++ line)
      | some (key, value) =>
        if key ∉ allowedKeys then
          .error (qs "unknown directive in [" ++ sectionName ++ qs "]: " ++ key)
        else if (scan.values.lookup key).isSome then
          .error (qs "duplicate assignment in [" ++ sectionName ++ qs "]: " ++ key)
        else .ok { scan with values := scan.values ++ [(key, value)] }

/-- Every `Key=Value` line found textually inside `[sectionName]`. -/
def extractSectionAssignments (content sectionName : QString) (allowedKeys : List QString) :
    Except QString (List (QString × QString)) := do
  let scan ← (split '\n' content).foldlM (scanSectionLine sectionName allowedKeys) {}
  if scan.sectionSeen then return scan.values
  else throw (qs "missing [" ++ sectionName ++ qs "] section")

def mountKeys : List QString :=
  [qs "What", qs "Where", qs "Type", qs "Options", qs "TimeoutSec"]

def automountKeys : List QString := [qs "Where", qs "TimeoutIdleSec", qs "DirectoryMode"]

def unitKeys : List QString := [qs "Description", qs "ConditionPathIsDirectory"]

/-- `QMap::value`: the default is the empty text. -/
def valueOf (values : List (QString × QString)) (key : QString) : QString :=
  (values.lookup key).getD []

/-- Refuse the first key of the list that has no value. -/
def requireKeys (sectionName : QString) (keys : List QString)
    (values : List (QString × QString)) : Except QString Unit :=
  match keys.find? fun key => (values.lookup key).isNone with
  | some key => .error (qs "missing [" ++ sectionName ++ qs "] directive: " ++ key)
  | none => .ok ()

/-- Validate the body of a `.mount` unit against the template for the marker;
the result is the decoded share address. -/
def validateMountUnitBody (content : QString) (marker : Marker) (canonicalMountPoint : QString) :
    Except QString QString := do
  require (!hasLineContinuation content) (qs "line continuation is not permitted")
  let values ← extractSectionAssignments content (qs "Mount") mountKeys
  requireKeys (qs "Mount") mountKeys values
  require (valueOf values (qs "Type") = qs "cifs") (qs "not a CIFS mount")
  require (valueOf values (qs "TimeoutSec") = qs "30") (qs "unexpected TimeoutSec=")
  require (undouble '%' (valueOf values (qs "Where")) = canonicalMountPoint)
    (qs "Where= disagrees with the mount point")
  let decodedUnc := undouble '%' (valueOf values (qs "What"))
  let _ ← (validateUnc decodedUnc).mapError fun e => qs "invalid What=: " ++ e
  let expectedOptions ← (encodeUnitValue (mountOptionsFor marker)).mapError fun e =>
    qs "internal error deriving expected options: " ++ e
  require (valueOf values (qs "Options") = expectedOptions)
    (qs "Options= does not match the fixed template for this share's mode/authentication/access/id")
  return decodedUnc

/-- Validate the body of an `.automount` unit: every value is fully determined,
so the marker is not used. -/
def validateAutomountUnitBody (content : QString) (_marker : Marker)
    (canonicalMountPoint : QString) : Except QString Unit := do
  require (!hasLineContinuation content) (qs "line continuation is not permitted")
  let values ← extractSectionAssignments content (qs "Automount") automountKeys
  requireKeys (qs "Automount") automountKeys values
  let unitValues ← extractSectionAssignments content (qs "Unit") unitKeys
  requireKeys (qs "Unit") [qs "ConditionPathIsDirectory"] unitValues
  let expectedWhere ← (encodeUnitValue canonicalMountPoint).mapError fun e =>
    qs "internal error encoding mount point: " ++ e
  require (valueOf values (qs "Where") = expectedWhere) (qs "Where= disagrees with the mount point")
  require (valueOf unitValues (qs "ConditionPathIsDirectory") = expectedWhere)
    (qs "ConditionPathIsDirectory= disagrees with the mount point")
  require (valueOf values (qs "TimeoutIdleSec") = qs "60") (qs "unexpected TimeoutIdleSec=")
  require (valueOf values (qs "DirectoryMode") = qs "0700") (qs "unexpected DirectoryMode=")

/-- The checks of an accepted `.mount` body. -/
theorem validateMountUnitBody_eq_ok {content : QString} {marker : Marker}
    {mountPoint what : QString} :
    validateMountUnitBody content marker mountPoint = .ok what ↔
      hasLineContinuation content = false ∧
      ∃ values, extractSectionAssignments content (qs "Mount") mountKeys = .ok values ∧
        requireKeys (qs "Mount") mountKeys values = .ok () ∧
        valueOf values (qs "Type") = qs "cifs" ∧ valueOf values (qs "TimeoutSec") = qs "30" ∧
        undouble '%' (valueOf values (qs "Where")) = mountPoint ∧
        (∃ unc, validateUnc what = .ok unc) ∧
        encodeUnitValue (mountOptionsFor marker) = .ok (valueOf values (qs "Options")) ∧
        undouble '%' (valueOf values (qs "What")) = what := by
  simp only [validateMountUnitBody, bind_eq_ok, require_eq_ok, mapError_eq_ok, pure_eq_ok,
    decide_eq_true_eq, Bool.not_eq_true']
  constructor
  · rintro ⟨-, hcont, values, hextract, _, hkeys, -, htype, -, htimeout, -, hwhere, unc, hunc,
      options, hoptions, -, heq, hwhat⟩
    exact ⟨hcont, values, hextract, hkeys, htype, htimeout, hwhere, ⟨unc, hwhat ▸ hunc⟩,
      heq ▸ hoptions, hwhat⟩
  · rintro ⟨hcont, values, hextract, hkeys, htype, htimeout, hwhere, ⟨unc, hunc⟩, hoptions, hwhat⟩
    exact ⟨(), hcont, values, hextract, (), hkeys, (), htype, (), htimeout, (), hwhere, unc,
      hwhat ▸ hunc, _, hoptions, (), rfl, hwhat⟩

/-- The checks of an accepted `.automount` body. -/
theorem validateAutomountUnitBody_eq_ok {content : QString} {marker : Marker}
    {mountPoint : QString} :
    validateAutomountUnitBody content marker mountPoint = .ok () ↔
      hasLineContinuation content = false ∧
      ∃ values unitValues,
        extractSectionAssignments content (qs "Automount") automountKeys = .ok values ∧
        requireKeys (qs "Automount") automountKeys values = .ok () ∧
        extractSectionAssignments content (qs "Unit") unitKeys = .ok unitValues ∧
        requireKeys (qs "Unit") [qs "ConditionPathIsDirectory"] unitValues = .ok () ∧
        encodeUnitValue mountPoint = .ok (valueOf values (qs "Where")) ∧
        valueOf unitValues (qs "ConditionPathIsDirectory") = valueOf values (qs "Where") ∧
        valueOf values (qs "TimeoutIdleSec") = qs "60" ∧
        valueOf values (qs "DirectoryMode") = qs "0700" := by
  simp only [validateAutomountUnitBody, bind_eq_ok, require_eq_ok, mapError_eq_ok,
    decide_eq_true_eq, Bool.not_eq_true']
  constructor
  · rintro ⟨-, hcont, values, hextract, _, hkeys, unitValues, hunit, _, hunitKeys, expected,
      hencode, -, hwhere, -, hcondition, -, hidle, hmode⟩
    exact ⟨hcont, values, unitValues, hextract, hkeys, hunit, hunitKeys, hwhere ▸ hencode,
      hcondition.trans hwhere.symm, hidle, hmode⟩
  · rintro ⟨hcont, values, unitValues, hextract, hkeys, hunit, hunitKeys, hencode,
      hcondition, hidle, hmode⟩
    exact ⟨(), hcont, values, hextract, (), hkeys, unitValues, hunit, (), hunitKeys, _, hencode, (),
      rfl, (), hcondition, (), hidle, hmode⟩

end Validation

end NasMount.Core
