import NasMount.Foundation.Checks
import NasMount.Foundation.Text

/-!
# Unit values and the managed marker

The encoder every generated value goes through, the marker block written into
both unit halves, and its parser. Error texts are the program's own.
-/
namespace NasMount.Core

open NasMount.Foundation QString

/-- A newline in a caller-supplied value would inject unit directives. -/
def hasControlChars (value : QString) : Bool :=
  value.any fun c => c.toNat < 0x20 || c.toNat == 0x7F

theorem notMem_of_not_hasControlChars {value : QString} (h : hasControlChars value = false)
    {c : Char} (hc : c.toNat < 0x20) : c ∉ value := by
  intro hm
  simp only [hasControlChars, List.any_eq_false, Bool.or_eq_true, decide_eq_true_eq] at h
  exact h c hm (Or.inl hc)

/-- Encode one value of a `Key=value` line: `%` is doubled, and anything the unit
parser could take for a continuation, a quote or white space is refused. -/
def encodeUnitValue (value : QString) : Except QString QString :=
  if hasControlChars value then .error (qs "value contains control characters")
  else if value ≠ trimmed value then
    .error (qs "value may not begin or end with whitespace")
  else if value = [] then .error (qs "value is empty")
  else if endsWithChar value '\\' then .error (qs "value may not end with a backslash")
  else if startsWith value ['"'] || startsWith value ['\''] then
    .error (qs "value may not begin with a quote mark")
  else .ok (double '%' value)

/-- Everything a successful encoding says about its input. -/
theorem encodeUnitValue_ok {value encoded : QString} (h : encodeUnitValue value = .ok encoded) :
    encoded = double '%' value ∧ hasControlChars value = false ∧ value = trimmed value ∧
      value ≠ [] ∧ endsWithChar value '\\' = false := by
  unfold encodeUnitValue at h
  split_ifs at h with hcontrol htrim hempty hbackslash hquote
  exact ⟨(Except.ok.inj h).symm, by simpa using hcontrol, not_not.mp htrim, hempty,
    by simpa using hbackslash⟩

theorem encodeUnitValue_notMem {value encoded : QString} (h : encodeUnitValue value = .ok encoded)
    {c : Char} (hc : c.toNat < 0x20) : c ∉ encoded := by
  obtain ⟨rfl, hcc, -⟩ := encodeUnitValue_ok h
  rw [mem_double]
  exact notMem_of_not_hasControlChars hcc hc

inductive AuthenticationKind
  | credentials
  | guest
  deriving DecidableEq, Repr

inductive AccessMode
  | readWrite
  | readOnly
  | readWriteExecutable
  deriving DecidableEq, Repr

/-- The one spelling of an access mode. -/
def accessModeToString : AccessMode → QString
  | .readOnly => qs "readonly"
  | .readWriteExecutable => qs "readwrite-executable"
  | .readWrite => qs "readwrite"

/-- Strict inverse of `accessModeToString`; callers decide what absence means. -/
def accessModeFromString (text : QString) : Option AccessMode :=
  if text = qs "readwrite" then some .readWrite
  else if text = qs "readonly" then some .readOnly
  else if text = qs "readwrite-executable" then some .readWriteExecutable
  else none

@[simp] theorem accessModeFromString_toString (access : AccessMode) :
    accessModeFromString (accessModeToString access) = some access := by
  cases access <;> decide

def isLowerHex (c : Char) : Bool := isDigit c || ('a' ≤ c && c ≤ 'f')

/-- Exactly 32 lowercase hexadecimal characters. -/
def isValidShareId (id : QString) : Bool := id.length == 32 && id.all isLowerHex

/-- A stable share id, the only text a credential file name is built from. -/
structure ShareId where
  text : QString
  valid : isValidShareId text = true
  deriving DecidableEq

theorem ShareId.ext_text {a b : ShareId} (h : a.text = b.text) : a = b := by
  cases a
  cases b
  simpa using h

/-- The marker fields: a value exists only once the complete block has parsed. -/
structure Marker where
  ownerUid : UInt32
  ownerGid : UInt32
  id : ShareId
  authentication : AuthenticationKind := .credentials
  access : AccessMode := .readWrite
  deriving DecidableEq

/-- An id and a marker for concrete runs. -/
def sampleId : ShareId := ⟨qs "00112233445566778899aabbccddeeff", by decide⟩

def sampleMarker : Marker where
  ownerUid := 1000
  ownerGid := 1000
  id := sampleId
  authentication := .guest

def markerPrefix : QString := qs "# X-Nasmount-"

def authenticationText : AuthenticationKind → QString
  | .guest => qs "guest"
  | .credentials => qs "credentials"

/-- The fields of a marker, in the order they are written. Read-write emits no
access field: that keeps the bytes of every share written before it existed. -/
def markerFields (marker : Marker) : List (QString × QString) :=
  [(qs "Managed", qs "1"), (qs "Owner-Uid", number marker.ownerUid.toNat),
    (qs "Owner-Gid", number marker.ownerGid.toNat), (qs "Id", marker.id.text),
    (qs "Mode", qs "system"), (qs "Authentication", authenticationText marker.authentication)] ++
  match marker.access with
  | .readWrite => []
  | .readOnly => [(qs "Access", qs "readonly")]
  | .readWriteExecutable => [(qs "Access", qs "readwrite-executable")]

/-- The line `# X-Nasmount-<key>=<value>` of one field. -/
def fieldLine (field : QString × QString) : QString := markerPrefix ++ (field.1 ++ '=' :: field.2)

def markerLines (marker : Marker) : List QString := (markerFields marker).map fieldLine

/-- The marker comment block written into both generated files. -/
def markerComment (marker : Marker) : QString := unlines (markerLines marker)

/-- Whether any line lies in the managed marker namespace, well formed or not. -/
def hasMarker (content : QString) : Bool :=
  (split '\n' content).any fun line => startsWith line markerPrefix

/-- One field of the managed namespace: its key, the values its anchored pattern
accepts, and whether the parser insists on it. -/
structure FieldSpec where
  key : QString
  accepts : QString → Bool
  required : Bool := true

/-- The captured value, when the whole line matches the field's pattern. -/
def FieldSpec.pattern (spec : FieldSpec) (line : QString) : Option QString :=
  match stripPrefix? (markerPrefix ++ (spec.key ++ ['='])) line with
  | some value => if spec.accepts value then some value else none
  | none => none

def isNumber (value : QString) : Bool := value ≠ [] && value.all isDigit

def fieldSpecs : List FieldSpec :=
  [{ key := qs "Managed", accepts := (· == qs "1") },
    { key := qs "Owner-Uid", accepts := isNumber },
    { key := qs "Owner-Gid", accepts := isNumber },
    { key := qs "Id", accepts := isValidShareId },
    { key := qs "Mode", accepts := (· == qs "system") },
    { key := qs "Authentication", accepts := fun v => v == qs "credentials" || v == qs "guest" },
    { key := qs "Access", required := false,
      accepts := fun v => v == qs "readwrite-executable" || v == qs "readwrite" ||
        v == qs "readonly" }]

/-- The parser's variables: the fields seen and the values captured so far. -/
structure MarkerScan where
  seen : List QString := []
  ownerUid : QString := []
  ownerGid : QString := []
  id : QString := []
  auth : QString := []
  access : QString := []
  deriving DecidableEq

def MarkerScan.record (scan : MarkerScan) (key value : QString) : MarkerScan :=
  let scan := { scan with seen := key :: scan.seen }
  if key = qs "Owner-Uid" then { scan with ownerUid := value }
  else if key = qs "Owner-Gid" then { scan with ownerGid := value }
  else if key = qs "Id" then { scan with id := value }
  else if key = qs "Authentication" then { scan with auth := value }
  else if key = qs "Access" then { scan with access := value }
  else scan

/-- The first field whose pattern matches the line, with the captured value. -/
def matchField (line : QString) : Option (QString × QString) :=
  fieldSpecs.findSome? fun spec => (spec.pattern line).map fun value => (spec.key, value)

/-- One turn of the parser's loop. -/
def scanMarkerLine (scan : MarkerScan) (line : QString) : Except QString MarkerScan :=
  if startsWith line markerPrefix then
    match matchField line with
    | none => .error (qs "unknown or malformed marker field: " ++ line)
    | some (key, value) =>
      if key ∈ scan.seen then .error (qs "duplicate marker field: " ++ key)
      else .ok (scan.record key value)
  else .ok scan

/-- The checks after the loop: required fields, then the conversions. -/
def MarkerScan.finish (scan : MarkerScan) : Except QString Marker :=
  match fieldSpecs.find? fun spec => spec.required && spec.key ∉ scan.seen with
  | some spec => .error (qs "missing marker field: " ++ spec.key)
  | none =>
    match toUnsigned? (2 ^ 32) scan.ownerUid, toUnsigned? (2 ^ 32) scan.ownerGid with
    | none, _ => .error (qs "invalid Owner-Uid")
    | _, none => .error (qs "invalid Owner-Gid")
    | some uid, some gid =>
      if valid : isValidShareId scan.id then
        let authentication := if scan.auth = qs "guest" then .guest else .credentials
        if scan.access = [] then
          .ok { ownerUid := uid.toUInt32, ownerGid := gid.toUInt32, id := ⟨scan.id, valid⟩,
                authentication := authentication, access := .readWrite }
        else
          match accessModeFromString scan.access with
          | none => .error (qs "invalid Access")
          | some access =>
            .ok { ownerUid := uid.toUInt32, ownerGid := gid.toUInt32, id := ⟨scan.id, valid⟩,
                  authentication := authentication, access := access }
      -- The id pattern has already refused such a value.
      else .error (qs "missing marker field: Id")

/-- Parse the marker block: every required field exactly once, nothing else in
the managed namespace. -/
def parseMarker (content : QString) : Except QString Marker := do
  let scan ← (split '\n' content).foldlM scanMarkerLine {}
  scan.finish

section RoundTrip

theorem FieldSpec.pattern_fieldLine (spec : FieldSpec) {value : QString}
    (haccept : spec.accepts value = true) :
    spec.pattern (fieldLine (spec.key, value)) = some value := by
  have hstrip : stripPrefix? (spec.key ++ ['=']) (spec.key ++ '=' :: value) = some value := by
    rw [stripPrefix?_append_left]
    simp [stripPrefix?]
  simp only [FieldSpec.pattern, fieldLine, stripPrefix?_append_left, hstrip, if_pos haccept]

theorem FieldSpec.pattern_fieldLine_ne {spec : FieldSpec} {key : QString} (hspec : '=' ∉ spec.key)
    (hkey : '=' ∉ key) (hne : spec.key ≠ key) (value : QString) :
    spec.pattern (fieldLine (key, value)) = none := by
  simp only [FieldSpec.pattern, fieldLine, stripPrefix?_append_left,
    stripPrefix?_word_ne hspec hkey hne]

theorem fieldSpecs_keys_nodup : (fieldSpecs.map FieldSpec.key).Nodup := by decide

theorem eq_notMem_key {spec : FieldSpec} (h : spec ∈ fieldSpecs) : '=' ∉ spec.key := by
  have hall : ∀ key ∈ fieldSpecs.map FieldSpec.key, '=' ∉ key := by decide
  exact hall _ (List.mem_map_of_mem h)

/-- The field written on a line is the one the parser reads from it. -/
theorem matchField_fieldLine {spec : FieldSpec} (hspec : spec ∈ fieldSpecs) {value : QString}
    (haccept : spec.accepts value = true) :
    matchField (fieldLine (spec.key, value)) = some (spec.key, value) := by
  obtain ⟨before, after, hsplit⟩ := List.append_of_mem hspec
  rw [matchField, List.findSome?_eq_some_iff]
  refine ⟨before, spec, after, hsplit, by rw [spec.pattern_fieldLine haccept]; rfl, ?_⟩
  intro other hother
  have hmem : other ∈ fieldSpecs := by simp [hsplit, hother]
  have hne : other.key ≠ spec.key := by
    have hnodup := fieldSpecs_keys_nodup
    rw [hsplit, List.map_append, List.nodup_append] at hnodup
    exact hnodup.2.2 _ (List.mem_map_of_mem hother) _ (by simp)
  rw [FieldSpec.pattern_fieldLine_ne (eq_notMem_key hmem) (eq_notMem_key hspec) hne]
  rfl

@[simp] theorem MarkerScan.record_seen (scan : MarkerScan) (key value : QString) :
    (scan.record key value).seen = key :: scan.seen := by
  unfold MarkerScan.record
  dsimp only
  split_ifs <;> rfl

theorem scanMarkerLine_skip {line : QString} (h : startsWith line markerPrefix = false)
    (scan : MarkerScan) : scanMarkerLine scan line = .ok scan := by
  simp [scanMarkerLine, h]

/-- A field the parser knows, with a value its pattern accepts. -/
def WellFormedField (field : QString × QString) : Prop :=
  ∃ spec ∈ fieldSpecs, spec.key = field.1 ∧ spec.accepts field.2 = true

theorem scanMarkerLine_fieldLine {field : QString × QString} (hfield : WellFormedField field)
    {scan : MarkerScan} (hseen : field.1 ∉ scan.seen) :
    scanMarkerLine scan (fieldLine field) = .ok (scan.record field.1 field.2) := by
  obtain ⟨key, value⟩ := field
  obtain ⟨spec, hspec, rfl, haccept⟩ := hfield
  have hmarked : startsWith (fieldLine (spec.key, value)) markerPrefix = true :=
    startsWith_append _ _
  simp only [scanMarkerLine, hmarked, if_true, matchField_fieldLine hspec haccept, if_neg hseen]

/-- The loop reads distinct well-formed fields one by one. -/
theorem foldlM_fieldLines {fields : List (QString × QString)}
    (hfields : ∀ field ∈ fields, WellFormedField field) (hkeys : (fields.map Prod.fst).Nodup)
    {scan : MarkerScan} (hseen : ∀ field ∈ fields, field.1 ∉ scan.seen) :
    (fields.map fieldLine).foldlM scanMarkerLine scan =
      .ok (fields.foldl (fun s field => s.record field.1 field.2) scan) := by
  induction fields generalizing scan with
  | nil => rfl
  | cons field fields ih =>
    rw [List.map_cons, List.nodup_cons] at hkeys
    rw [List.map_cons, List.foldlM_cons, scanMarkerLine_fieldLine
      (hfields field (List.mem_cons_self ..)) (hseen field (List.mem_cons_self ..))]
    refine ih (fun f hf => hfields f (List.mem_cons_of_mem _ hf)) hkeys.2 fun f hf => ?_
    rw [MarkerScan.record_seen, List.mem_cons, not_or]
    refine ⟨fun heq => hkeys.1 ?_, hseen f (List.mem_cons_of_mem _ hf)⟩
    exact heq ▸ List.mem_map_of_mem hf

theorem isNumber_number (n : ℕ) : isNumber (number n) = true := by
  simp only [isNumber, Bool.and_eq_true, decide_eq_true_eq, List.all_eq_true]
  exact ⟨number_ne_nil n, fun c hc => number_isDigit hc⟩

theorem wellFormedField_spec {i : ℕ} (h : i < fieldSpecs.length) {field : QString × QString}
    (hkey : (fieldSpecs.get ⟨i, h⟩).key = field.1)
    (haccept : (fieldSpecs.get ⟨i, h⟩).accepts field.2 = true) : WellFormedField field :=
  ⟨_, List.get_mem _ _, hkey, haccept⟩

theorem wellFormedField_of_mem {marker : Marker} {field : QString × QString}
    (h : field ∈ markerFields marker) : WellFormedField field := by
  obtain ⟨uid, gid, id, authentication, access⟩ := marker
  rw [markerFields, List.mem_append] at h
  rcases h with h | h
  · simp only [List.mem_cons, List.not_mem_nil, or_false] at h
    rcases h with rfl | rfl | rfl | rfl | rfl | rfl
    · exact wellFormedField_spec (by decide : 0 < _) rfl rfl
    · exact wellFormedField_spec (by decide : 1 < _) rfl (isNumber_number _)
    · exact wellFormedField_spec (by decide : 2 < _) rfl (isNumber_number _)
    · exact wellFormedField_spec (by decide : 3 < _) rfl id.valid
    · exact wellFormedField_spec (by decide : 4 < _) rfl rfl
    · exact wellFormedField_spec (by decide : 5 < _) rfl (by cases authentication <;> rfl)
  · cases access with
    | readWrite => simp at h
    | readOnly =>
      obtain rfl := List.mem_singleton.mp h
      exact wellFormedField_spec (by decide : 6 < _) rfl rfl
    | readWriteExecutable =>
      obtain rfl := List.mem_singleton.mp h
      exact wellFormedField_spec (by decide : 6 < _) rfl rfl

theorem markerFields_keys_nodup (marker : Marker) :
    ((markerFields marker).map Prod.fst).Nodup := by
  obtain ⟨uid, gid, id, authentication, access⟩ := marker
  cases access <;> simp only [markerFields, List.map_append, List.map] <;> decide

/-- What the loop has read after the block of a marker. -/
def scanOf (marker : Marker) : MarkerScan where
  seen := ((markerFields marker).map Prod.fst).reverse
  ownerUid := number marker.ownerUid.toNat
  ownerGid := number marker.ownerGid.toNat
  id := marker.id.text
  auth := authenticationText marker.authentication
  access :=
    match marker.access with
    | .readWrite => []
    | access => accessModeToString access

theorem scan_markerFields (marker : Marker) :
    (markerFields marker).foldl (fun s field => s.record field.1 field.2) {} = scanOf marker := by
  obtain ⟨uid, gid, id, authentication, access⟩ := marker
  cases access <;> rfl

theorem finish_scanOf (marker : Marker) : (scanOf marker).finish = .ok marker := by
  obtain ⟨uid, gid, id, authentication, access⟩ := marker
  have hrequired : fieldSpecs.find? (fun spec =>
      spec.required && spec.key ∉ (scanOf ⟨uid, gid, id, authentication, access⟩).seen) = none := by
    cases access <;> rfl
  have huid : toUnsigned? (2 ^ 32) (number uid.toNat) = some uid.toNat :=
    toUnsigned?_number uid.toNat_lt
  have hgid : toUnsigned? (2 ^ 32) (number gid.toNat) = some gid.toNat :=
    toUnsigned?_number gid.toNat_lt
  simp only [MarkerScan.finish, hrequired]
  simp only [scanOf, huid, hgid, id.valid, dif_pos, UInt32.ofNat_toNat]
  cases authentication <;> cases access <;> rfl

/-- The loop over a text with a marker block, and no other managed line. -/
theorem foldlM_markerLines {before after : List QString} (marker : Marker)
    (hbefore : ∀ line ∈ before, startsWith line markerPrefix = false)
    (hafter : ∀ line ∈ after, startsWith line markerPrefix = false) :
    (before ++ markerLines marker ++ after).foldlM scanMarkerLine {} = .ok (scanOf marker) := by
  have hskip : before.foldlM scanMarkerLine {} = .ok {} :=
    foldlM_skip fun line h => scanMarkerLine_skip (hbefore line h) _
  have hfields : (markerLines marker).foldlM scanMarkerLine {} = .ok (scanOf marker) := by
    rw [← scan_markerFields]
    exact foldlM_fieldLines (fun f h => wellFormedField_of_mem h) (markerFields_keys_nodup marker)
      fun f _ => List.not_mem_nil
  rw [List.append_assoc, foldlM_append_ok hskip, foldlM_append_ok hfields]
  exact foldlM_skip fun line h => scanMarkerLine_skip (hafter line h) _

def isFieldChar (c : Char) : Bool := isDigit c || ('a' ≤ c && c ≤ 'z') || c == '-'

theorem isFieldChar_of_accepts {spec : FieldSpec} (hspec : spec ∈ fieldSpecs) {value : QString}
    (haccept : spec.accepts value = true) {c : Char} (hc : c ∈ value) : isFieldChar c = true := by
  have hword : ∀ word ∈ [qs "1", qs "system", qs "credentials", qs "guest",
      qs "readwrite-executable", qs "readwrite", qs "readonly"],
      word.all isFieldChar = true := by decide
  have hnumber : isNumber value = true → isFieldChar c = true := by
    intro h
    simp only [isNumber, Bool.and_eq_true, List.all_eq_true] at h
    simp [isFieldChar, h.2 c hc]
  simp only [fieldSpecs, List.mem_cons, List.not_mem_nil, or_false] at hspec
  rcases hspec with rfl | rfl | rfl | rfl | rfl | rfl | rfl
  · obtain rfl := beq_iff_eq.mp haccept
    exact List.all_eq_true.mp (hword _ (by decide)) c hc
  · exact hnumber haccept
  · exact hnumber haccept
  · simp only [isValidShareId, Bool.and_eq_true, List.all_eq_true] at haccept
    have hhex := haccept.2 c hc
    simp only [isLowerHex, isFieldChar, Bool.or_eq_true, Bool.and_eq_true, decide_eq_true_eq]
      at hhex ⊢
    rcases hhex with h | h
    · exact Or.inl (Or.inl h)
    · exact Or.inl (Or.inr ⟨h.1, Char.le_trans h.2 (by decide)⟩)
  · obtain rfl := beq_iff_eq.mp haccept
    exact List.all_eq_true.mp (hword _ (by decide)) c hc
  · simp only [Bool.or_eq_true, beq_iff_eq] at haccept
    rcases haccept with rfl | rfl <;> exact List.all_eq_true.mp (hword _ (by decide)) c hc
  · simp only [Bool.or_eq_true, beq_iff_eq] at haccept
    rcases haccept with (rfl | rfl) | rfl <;> exact List.all_eq_true.mp (hword _ (by decide)) c hc

theorem notMem_markerLines {marker : Marker} {line : QString} (h : line ∈ markerLines marker)
    {c : Char} (hc : c = '\n' ∨ c = '\\') : c ∉ line := by
  obtain ⟨⟨key, value⟩, hfield, rfl⟩ := List.mem_map.mp h
  obtain ⟨spec, hspec, rfl, haccept⟩ := wellFormedField_of_mem hfield
  have hkeys : ∀ key ∈ fieldSpecs.map FieldSpec.key, '\n' ∉ key ∧ '\\' ∉ key := by decide
  have hkey := hkeys _ (List.mem_map_of_mem hspec)
  have hvalue := fun d hd => isFieldChar_of_accepts hspec haccept (c := d) hd
  simp only [fieldLine, List.mem_append, List.mem_cons, not_or]
  rcases hc with rfl | rfl
  · exact ⟨by decide, hkey.1, by decide, fun hm => absurd (hvalue _ hm) (by decide)⟩
  · exact ⟨by decide, hkey.2, by decide, fun hm => absurd (hvalue _ hm) (by decide)⟩

/-- A marker block on its own lines parses back to its marker. -/
theorem parseMarker_unlines {before after : List QString} (marker : Marker)
    (hbefore : ∀ line ∈ before, '\n' ∉ line ∧ startsWith line markerPrefix = false)
    (hafter : ∀ line ∈ after, '\n' ∉ line ∧ startsWith line markerPrefix = false) :
    parseMarker (unlines (before ++ markerLines marker ++ after)) = .ok marker := by
  have hlines : ∀ line ∈ before ++ markerLines marker ++ after, '\n' ∉ line := by
    intro line hline
    rw [List.mem_append, List.mem_append] at hline
    rcases hline with (hline | hline) | hline
    · exact (hbefore line hline).1
    · exact notMem_markerLines hline (Or.inl rfl)
    · exact (hafter line hline).1
  rw [parseMarker, split_unlines hlines, List.append_assoc _ after]
  rw [foldlM_markerLines marker (fun l h => (hbefore l h).2)]
  · exact finish_scanOf marker
  · intro line hline
    rw [List.mem_append, List.mem_singleton] at hline
    rcases hline with hline | rfl
    · exact (hafter line hline).2
    · rfl

/-- A file whose marker parses is in the managed namespace. -/
theorem hasMarker_of_parseMarker {content : QString} {marker : Marker}
    (h : parseMarker content = .ok marker) : hasMarker content = true := by
  by_contra hno
  rw [hasMarker, Bool.not_eq_true, List.any_eq_false] at hno
  have hskip : (split '\n' content).foldlM scanMarkerLine {} = .ok {} :=
    foldlM_skip fun line hl => scanMarkerLine_skip (by simpa using hno line hl) _
  rw [parseMarker, hskip] at h
  have hfinish : MarkerScan.finish {} ≠ .ok marker := by
    rw [show MarkerScan.finish {} = .error (qs "missing marker field: Managed") from rfl]
    exact fun hne => nomatch hne
  exact hfinish h

end RoundTrip

end NasMount.Core
