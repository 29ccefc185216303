import NasMount.Core.UnitLoader

/-!
# The encoder between the validators and the unit files

Which validated values the encoder takes, and which raw values of an accepted
`[Mount]` section it could have written. Decoding is not injective: a doubled and
a lone percent sign both decode to one.
-/
namespace NasMount.Core

open NasMount.Foundation QString

section Percents

/-- Every run of percent signs has an even length. -/
def percentsDoubled : QString → Bool
  | [] => true
  | [c] => c ≠ '%'
  | c :: d :: rest =>
    if c = '%' then d = '%' && percentsDoubled rest else percentsDoubled (d :: rest)

theorem double_undouble_iff (raw : QString) :
    raw = double '%' (undouble '%' raw) ↔ percentsDoubled raw = true := by
  fun_induction percentsDoubled raw with
  | case1 => simp [undouble, double]
  | case2 c =>
    by_cases hc : c = '%'
    · simp [undouble, double, hc]
    · simp [undouble, double, hc]
  | case3 d rest ih =>
    by_cases hd : d = '%'
    · subst hd
      simpa [undouble, double] using ih
    · simp [undouble, double, hd]
  | case4 c d rest hc ih =>
    rw [undouble_cons_ne hc]
    simpa [double, hc] using ih

theorem undouble_ne_nil {raw : QString} (h : raw ≠ []) : undouble '%' raw ≠ [] := by
  fun_cases undouble '%' raw with
  | case1 => exact absurd rfl h
  | case2 => exact List.cons_ne_nil _ _
  | case3 => exact List.cons_ne_nil _ _
  | case4 => exact List.cons_ne_nil _ _

/-- Decoding keeps the last character. -/
theorem getLast?_undouble (raw : QString) : (undouble '%' raw).getLast? = raw.getLast? := by
  fun_induction undouble '%' raw with
  | case1 => rfl
  | case2 => rfl
  | case3 c d rest hpair ih =>
    obtain ⟨rfl, rfl⟩ := hpair
    cases rest with
    | nil => rfl
    | cons e rest =>
      rw [List.getLast?_cons_of_ne_nil (undouble_ne_nil (List.cons_ne_nil _ _)), ih]
      rfl
  | case4 c d rest hpair ih =>
    rw [List.getLast?_cons_of_ne_nil (undouble_ne_nil (List.cons_ne_nil _ _)), ih]
    rfl

end Percents

section Encoder

variable {value raw : QString}

/-- A value the encoder takes. -/
structure EncodableValue (value : QString) : Prop where
  control : hasControlChars value = false
  trimmed : value = trimmed value
  nonempty : value ≠ []
  backslash : endsWithChar value '\\' = false
  quote : startsWith value ['"'] = false ∧ startsWith value ['\''] = false

/-- The encoder refuses or doubles the percent signs. -/
theorem encodeUnitValue_eq_ok :
    encodeUnitValue value = .ok raw ↔ EncodableValue value ∧ raw = double '%' value := by
  unfold encodeUnitValue
  constructor
  · intro h
    split_ifs at h with hcontrol htrimmed hempty hbackslash hquote
    rw [Bool.or_eq_true, not_or, Bool.not_eq_true, Bool.not_eq_true] at hquote
    exact ⟨⟨by simpa using hcontrol, not_not.mp htrimmed, hempty, by simpa using hbackslash,
      hquote⟩, (Except.ok.inj h).symm⟩
  · rintro ⟨⟨hcontrol, htrimmed, hempty, hbackslash, hquote, hquote'⟩, rfl⟩
    simp [hcontrol, ← htrimmed, hempty, hbackslash, hquote, hquote']

theorem encodeUnitValue_isOk : (∃ raw, encodeUnitValue value = .ok raw) ↔ EncodableValue value := by
  constructor
  · rintro ⟨raw, h⟩
    exact (encodeUnitValue_eq_ok.mp h).1
  · intro h
    exact ⟨_, encodeUnitValue_eq_ok.mpr ⟨h, rfl⟩⟩

/-- The last character is neither white space nor a backslash. -/
def EndsPlain (value : QString) : Prop :=
  ∀ c ∈ value.getLast?, isSpace c = false ∧ c ≠ '\\'

instance (value : QString) : Decidable (EndsPlain value) :=
  decidable_of_iff (value.getLast?.all (fun c => !isSpace c && c ≠ '\\') = true) (by
    simp [EndsPlain, Option.all_eq_true])

/-- Text with a plain first character fails the encoder by its end alone. -/
theorem encodableValue_iff_endsPlain {first : Char} {rest : QString}
    (hcontrol : hasControlChars (first :: rest) = false) (hspace : isSpace first = false)
    (hquote : first ≠ '"' ∧ first ≠ '\'') :
    EncodableValue (first :: rest) ↔ EndsPlain (first :: rest) := by
  have hlast : ∀ p : Char → Prop, (∀ c ∈ (first :: rest).getLast?, p c) ↔
      p ((first :: rest).getLast (List.cons_ne_nil _ _)) := by
    intro p
    rw [List.getLast?_eq_some_getLast (List.cons_ne_nil _ _)]
    simp
  have htrimmed : first :: rest = trimmed (first :: rest) ↔
      isSpace ((first :: rest).getLast (List.cons_ne_nil _ _)) = false := by
    have hdrop : (first :: rest).dropWhile isSpace = first :: rest :=
      List.dropWhile_cons_of_neg (by simp [hspace])
    rw [eq_comm, trimmed, hdrop, List.rdropWhile_eq_self_iff]
    simp
  have hbackslash : endsWithChar (first :: rest) '\\' = false ↔
      (first :: rest).getLast (List.cons_ne_nil _ _) ≠ '\\' := by
    rw [endsWithChar, List.getLast?_eq_some_getLast (List.cons_ne_nil _ _)]
    simp
  rw [EndsPlain, hlast]
  constructor
  · intro h
    exact ⟨htrimmed.mp h.trimmed, hbackslash.mp h.backslash⟩
  · rintro ⟨hplain, hend⟩
    refine ⟨hcontrol, htrimmed.mpr hplain, List.cons_ne_nil _ _, hbackslash.mpr hend, ?_, ?_⟩
    · simp [startsWith, stripPrefix?, Ne.symm hquote.1]
    · simp [startsWith, stripPrefix?, Ne.symm hquote.2]

theorem encodableValue_of_slash (hcontrol : hasControlChars value = false)
    (hslash : startsWith value ['/'] = true) : EncodableValue value ↔ EndsPlain value := by
  obtain ⟨rest, hrest⟩ := Option.isSome_iff_exists.mp hslash
  obtain rfl := stripPrefix?_eq_some.mp hrest
  exact encodableValue_iff_endsPlain hcontrol (by decide) (by decide)

end Encoder

section Validated

variable {raw unc home : QString} {plan : MountpointPlan} {marker : Marker}

theorem hasControlChars_eq_false {value : QString} :
    hasControlChars value = false ↔ ∀ c ∈ value, ¬ (c.toNat < 0x20 ∨ c.toNat = 0x7F) := by
  simp [hasControlChars]

theorem hasControlChars_intercalate {sep : Char} {parts : List QString}
    (hsep : ¬ (sep.toNat < 0x20 ∨ sep.toNat = 0x7F))
    (h : ∀ part ∈ parts, hasControlChars part = false) :
    hasControlChars ([sep].intercalate parts) = false := by
  rw [hasControlChars_eq_false]
  intro c hc
  rcases mem_intercalate hc with rfl | ⟨part, hpart, hc⟩
  · exact hsep
  · exact hasControlChars_eq_false.mp (h part hpart) c hc

theorem mem_cleanSegments {part : QString} {stack parts : List QString}
    (h : part ∈ cleanSegments stack parts) : part ∈ stack ∨ part ∈ parts := by
  induction parts generalizing stack with
  | nil => exact Or.inl (List.mem_reverse.mp h)
  | cons next parts ih =>
    have hpush : part ∈ cleanSegments (next :: stack) parts →
        part ∈ stack ∨ part ∈ next :: parts := by
      intro hmem
      rcases ih hmem with hstack | hparts
      · exact (List.mem_cons.mp hstack).elim
          (fun heq => Or.inr (heq ▸ List.mem_cons_self ..)) Or.inl
      · exact Or.inr (List.mem_cons_of_mem _ hparts)
    unfold cleanSegments at h
    split_ifs at h with hskip hup
    · exact (ih h).imp_right (List.mem_cons_of_mem _)
    · cases stack with
      | nil => exact hpush h
      | cons top below =>
        dsimp only at h
        split_ifs at h
        · exact hpush h
        · exact (ih h).imp (List.mem_cons_of_mem _) (List.mem_cons_of_mem _)
    · exact hpush h

/-- Cleaning an absolute path keeps it absolute and brings in no character. -/
theorem cleanPath_control (hslash : startsWith raw ['/'] = true)
    (hcontrol : hasControlChars raw = false) :
    startsWith (cleanPath raw) ['/'] = true ∧ hasControlChars (cleanPath raw) = false := by
  have hne : raw ≠ [] := by
    rintro rfl
    exact absurd hslash (by decide)
  have hclean : cleanPath raw = '/' :: ['/'].intercalate (cleanSegments [] (split '/' raw)) := by
    rw [cleanPath, if_neg hne, if_pos hslash]
  have hsegments : ∀ part ∈ cleanSegments [] (split '/' raw), hasControlChars part = false := by
    intro part hpart
    rcases mem_cleanSegments hpart with hno | hsplit
    · exact absurd hno List.not_mem_nil
    · rw [hasControlChars_eq_false] at hcontrol ⊢
      exact fun c hc => hcontrol c (mem_of_mem_split hsplit hc)
  constructor
  · rw [hclean]
    rfl
  · have hjoined := hasControlChars_intercalate (by decide : ¬ (('/').toNat < 0x20 ∨ _)) hsegments
    rw [hasControlChars_eq_false] at hjoined ⊢
    rw [hclean]
    intro c hc
    rcases List.mem_cons.mp hc with rfl | hc
    · decide
    · exact hjoined c hc

/-- An accepted address fails the encoder by its end alone, -/
theorem encodable_of_validateUnc (h : validateUnc raw = .ok unc) :
    EncodableValue raw ↔ EndsPlain raw := by
  obtain ⟨rfl, hcontrol, -, captures, hcaptures, -⟩ := validateUnc_ok h
  apply encodableValue_of_slash hcontrol
  unfold uncCaptures at hcaptures
  split at hcaptures
  · next rest heq =>
    obtain ⟨slashes, hraw⟩ : chopTrailing '/' raw <+: raw := List.rdropWhile_prefix _ _
    rw [← hraw, heq]
    rfl
  · exact nomatch hcaptures

/-- and so does the address it is normalised to. -/
theorem encodable_unc (h : validateUnc raw = .ok unc) : EncodableValue unc ↔ EndsPlain unc :=
  encodable_of_validateUnc (validateUnc_normalised h)

theorem plan_path (h : validateMountpoint raw home = .ok plan) : plan.path = cleanPath raw := by
  obtain ⟨root, hplan⟩ := validateMountpoint_ok h
  obtain ⟨below, -, rfl, -⟩ := planBelow_ok hplan
  rfl

/-- So does an accepted mount point. -/
theorem encodable_mountPoint (h : validateMountpoint raw home = .ok plan) :
    EncodableValue plan.path ↔ EndsPlain plan.path := by
  have hraw : startsWith raw ['/'] = true ∧ hasControlChars raw = false := by
    unfold validateMountpoint at h
    split_ifs at h with hcontrol hslash
    all_goals exact ⟨by simpa using hslash, by simpa using hcontrol⟩
  obtain ⟨hslash, hcontrol⟩ := cleanPath_control hraw.1 hraw.2
  rw [plan_path h]
  exact encodableValue_of_slash hcontrol hslash

theorem hasControlChars_append {a b : QString} :
    hasControlChars (a ++ b) = (hasControlChars a || hasControlChars b) := List.any_append

theorem hasControlChars_number (n : ℕ) : hasControlChars (number n) = false := by
  rw [hasControlChars_eq_false]
  intro c hc
  have hdigit := number_isDigit hc
  simp only [isDigit, Bool.and_eq_true, decide_eq_true_eq, Char.le_def, UInt32.le_iff_toNat_le]
    at hdigit
  obtain ⟨hlow, hhigh⟩ : 48 ≤ c.toNat ∧ c.toNat ≤ 57 := hdigit
  omega

theorem hasControlChars_shareId (id : ShareId) : hasControlChars id.text = false := by
  rw [hasControlChars_eq_false]
  intro c hc
  have hvalid := id.valid
  simp only [isValidShareId, Bool.and_eq_true, List.all_eq_true] at hvalid
  have hhex := hvalid.2 c hc
  simp only [isLowerHex, isDigit, Bool.or_eq_true, Bool.and_eq_true, decide_eq_true_eq, Char.le_def,
    UInt32.le_iff_toNat_le] at hhex
  have hrange : (48 ≤ c.toNat ∧ c.toNat ≤ 57) ∨ (97 ≤ c.toNat ∧ c.toNat ≤ 102) := hhex
  omega

theorem hasControlChars_credentialPath (id : ShareId) :
    hasControlChars (credentialPathFor id) = false := by
  change hasControlChars (credentialDirectory ++ (['/'] ++ id.text) ++ qs ".cred") = false
  rw [hasControlChars_append, hasControlChars_append, hasControlChars_append,
    hasControlChars_shareId]
  decide

/-- The fixed option list is always one the encoder takes. -/
theorem encodable_mountOptions (marker : Marker) : EncodableValue (mountOptionsFor marker) := by
  obtain ⟨uid, gid, id, authentication, access⟩ := marker
  have hcontrol : hasControlChars (mountOptionsFor ⟨uid, gid, id, authentication, access⟩) =
      false := by
    apply hasControlChars_intercalate (by decide)
    intro part hpart
    rw [List.mem_append] at hpart
    rcases hpart with hpart | hpart
    · simp only [List.mem_cons, List.not_mem_nil, or_false] at hpart
      rcases hpart with rfl | rfl | rfl | rfl | rfl | rfl | rfl | rfl | rfl
      · cases authentication with
        | guest => exact (by decide : hasControlChars (qs "guest") = false)
        | credentials =>
          rw [if_neg (by simp [credentialPathFor]), hasControlChars_append,
            hasControlChars_credentialPath]
          decide
      · decide
      · decide
      · decide
      · decide
      · rw [hasControlChars_append, hasControlChars_number]
        decide
      · rw [hasControlChars_append, hasControlChars_number]
        decide
      · decide
      · decide
    · cases access with
      | readWrite =>
        exact (by decide : ∀ part ∈ [qs "file_mode=0600", qs "dir_mode=0700"],
          hasControlChars part = false) part hpart
      | readOnly =>
        exact (by decide : ∀ part ∈ [qs "ro", qs "file_mode=0400", qs "dir_mode=0500"],
          hasControlChars part = false) part hpart
      | readWriteExecutable =>
        exact (by decide : ∀ part ∈ [qs "file_mode=0700", qs "dir_mode=0700"],
          hasControlChars part = false) part hpart
  have hends : EndsPlain (mountOptionsFor ⟨uid, gid, id, authentication, access⟩) := by
    have hlast : (mountOptionsFor ⟨uid, gid, id, authentication, access⟩).getLast? = some '0' := by
      cases access with
      | readWrite => exact @getLast?_intercalate ',' _ (qs "dir_mode=0700") rfl (by decide)
      | readOnly => exact @getLast?_intercalate ',' _ (qs "dir_mode=0500") rfl (by decide)
      | readWriteExecutable =>
        exact @getLast?_intercalate ',' _ (qs "dir_mode=0700") rfl (by decide)
    intro c hc
    obtain rfl := Option.some.inj (hlast.symm.trans hc)
    decide
  cases authentication with
  | guest =>
    obtain ⟨rest, hrest⟩ : ∃ rest, mountOptionsFor ⟨uid, gid, id, .guest, access⟩ = 'g' :: rest :=
      ⟨_, rfl⟩
    rw [hrest] at hcontrol hends ⊢
    exact (encodableValue_iff_endsPlain hcontrol (by decide) (by decide)).mpr hends
  | credentials =>
    obtain ⟨rest, hrest⟩ :
        ∃ rest, mountOptionsFor ⟨uid, gid, id, .credentials, access⟩ = 'c' :: rest := ⟨_, rfl⟩
    rw [hrest] at hcontrol hends ⊢
    exact (encodableValue_iff_endsPlain hcontrol (by decide) (by decide)).mpr hends

theorem buildMountUnitContent_isOk {mountPoint : QString} :
    (∃ content, buildMountUnitContent marker unc mountPoint = .ok content) ↔
      EncodableValue unc ∧ EncodableValue mountPoint := by
  rw [← encodeUnitValue_isOk, ← encodeUnitValue_isOk]
  simp only [buildMountUnitContent, bind_eq_ok, pure_eq_ok]
  constructor
  · rintro ⟨content, what, hwhat, whereValue, hwhere, -⟩
    exact ⟨⟨what, hwhat⟩, whereValue, hwhere⟩
  · rintro ⟨⟨what, hwhat⟩, whereValue, hwhere⟩
    obtain ⟨options, hoptions⟩ := encodeUnitValue_isOk.mpr (encodable_mountOptions marker)
    exact ⟨_, what, hwhat, whereValue, hwhere, options, hoptions, rfl⟩

theorem buildAutomountUnitContent_isOk {mountPoint : QString} :
    (∃ content, buildAutomountUnitContent marker mountPoint = .ok content) ↔
      EncodableValue mountPoint := by
  rw [← encodeUnitValue_isOk]
  simp only [buildAutomountUnitContent, bind_eq_ok, pure_eq_ok]
  constructor
  · rintro ⟨content, whereValue, hwhere, -⟩
    exact ⟨whereValue, hwhere⟩
  · rintro ⟨whereValue, hwhere⟩
    exact ⟨_, whereValue, hwhere, rfl⟩

/-- Validated input passes the encoder exactly if neither value ends in white
space or a backslash: the address is never checked for that, the mount point
only before it is cleaned. -/
theorem validated_encodable_iff {rawUnc rawPath : QString} (marker : Marker)
    (hunc : validateUnc rawUnc = .ok unc) (hmount : validateMountpoint rawPath home = .ok plan) :
    ((∃ content, buildMountUnitContent marker unc plan.path = .ok content) ∧
      ∃ content, buildAutomountUnitContent marker plan.path = .ok content) ↔
      EndsPlain (chopTrailing '/' rawUnc) ∧ EndsPlain (cleanPath rawPath) := by
  rw [buildMountUnitContent_isOk, buildAutomountUnitContent_isOk, encodable_unc hunc,
    encodable_mountPoint hmount, plan_path hmount, (validateUnc_ok hunc).1]
  constructor
  · exact fun h => h.1
  · exact fun h => ⟨h, h.2⟩

def planBelowMnt (path name : QString) : MountpointPlan where
  path := path
  root := qs "/mnt"
  suffix := [name]

theorem validated_encodable_sample :
    ∃ content, buildMountUnitContent sampleMarker (qs "//nas/data") (qs "/mnt/a b") = .ok content :=
  ((validated_encodable_iff sampleMarker
    (by decide +kernel : validateUnc (qs "//nas/data/") = .ok _)
    (by decide +kernel : validateMountpoint (qs "/mnt//a b/") [] =
      .ok (planBelowMnt (qs "/mnt/a b") (qs "a b")))).mpr ⟨by decide +kernel, by decide +kernel⟩).1

/-- A validated address that ends in a space, and a mount point whose slash hid
the space before it: neither is encoded. -/
theorem validated_not_encodable :
    validateUnc (qs "//nas/data ") = .ok (qs "//nas/data ") ∧
      validateMountpoint (qs "/mnt/a") [] = .ok (planBelowMnt (qs "/mnt/a") (qs "a")) ∧
      (buildMountUnitContent sampleMarker (qs "//nas/data ") (qs "/mnt/a")).isOk = false ∧
      validateMountpoint (qs "/mnt/a /") [] = .ok (planBelowMnt (qs "/mnt/a ") (qs "a ")) ∧
      (buildAutomountUnitContent sampleMarker (qs "/mnt/a ")).isOk = false := by
  decide +kernel

end Validated

section Decoded

variable {content what mountPoint : QString} {marker : Marker}

/-- The text of a key in the `[Mount]` section, as it stands in the file. -/
def mountValue (content key : QString) : QString :=
  match extractSectionAssignments content (qs "Mount") mountKeys with
  | .ok values => valueOf values key
  | .error _ => []

theorem mem_of_lookup {values : List (QString × QString)} {key value : QString}
    (h : values.lookup key = some value) : (key, value) ∈ values := by
  induction values with
  | nil => exact nomatch h
  | cons pair values ih =>
    rw [List.lookup_cons] at h
    split at h
    · next heq =>
      obtain rfl := Option.some.inj h
      rw [beq_iff_eq.mp heq]
      exact List.mem_cons_self ..
    · exact List.mem_cons_of_mem _ (ih h)

/-- No collected value ends in a backslash. -/
theorem valueOf_notEndsWith {name : QString} {allowed : List QString}
    {values : List (QString × QString)} (hcontinues : hasLineContinuation content = false)
    (hextract : extractSectionAssignments content name allowed = .ok values) (key : QString) :
    endsWithChar (valueOf values key) '\\' = false := by
  cases hlookup : values.lookup key with
  | none => rw [valueOf, hlookup]; rfl
  | some value =>
    have hvalue : valueOf values key = value := by rw [valueOf, hlookup]; rfl
    rw [hvalue]
    simp only [extractSectionAssignments, bind_eq_ok] at hextract
    obtain ⟨final, hscan, hfinal⟩ := hextract
    split_ifs at hfinal
    obtain rfl := pure_eq_ok.mp hfinal
    have hline := (line_of_scan hscan (mem_of_lookup hlookup)).resolve_left List.not_mem_nil
    rw [hasLineContinuation, List.any_eq_false] at hcontinues
    have hend := hcontinues _ hline
    rw [Bool.not_eq_true] at hend
    cases value with
    | nil => rfl
    | cons c cs =>
      rw [endsWithChar, List.getLast?_append_of_ne_nil _ (List.cons_ne_nil _ _),
        List.getLast?_cons_of_ne_nil (List.cons_ne_nil _ _)] at hend
      exact hend

/-- The raw values of an accepted section are the encoder's own exactly if their
percent signs are doubled, the address has no white space at its end, and the
mount point is one the encoder takes. -/
theorem accepted_encoded_iff (h : validateMountUnitBody content marker mountPoint = .ok what) :
    (encodeUnitValue what = .ok (mountValue content (qs "What")) ∧
      encodeUnitValue mountPoint = .ok (mountValue content (qs "Where"))) ↔
      percentsDoubled (mountValue content (qs "What")) = true ∧
      percentsDoubled (mountValue content (qs "Where")) = true ∧
      (∀ c ∈ (mountValue content (qs "What")).getLast?, isSpace c = false) ∧
      EncodableValue mountPoint := by
  obtain ⟨hcontinues, values, hextract, -, -, -, rfl, ⟨unc, hunc⟩, -, rfl⟩ :=
    validateMountUnitBody_eq_ok.mp h
  have hvalue : ∀ key, mountValue content key = valueOf values key := by
    intro key
    rw [mountValue, hextract]
  rw [hvalue, hvalue]
  have hwhat : EncodableValue (undouble '%' (valueOf values (qs "What"))) ↔
      ∀ c ∈ (valueOf values (qs "What")).getLast?, isSpace c = false := by
    have hend := valueOf_notEndsWith hcontinues hextract (qs "What")
    rw [encodable_of_validateUnc hunc, EndsPlain, getLast?_undouble]
    constructor
    · exact fun hplain c hc => (hplain c hc).1
    · intro hspace c hc
      refine ⟨hspace c hc, ?_⟩
      rintro rfl
      rw [endsWithChar, Option.mem_def.mp hc] at hend
      exact absurd hend (by decide)
  rw [encodeUnitValue_eq_ok, encodeUnitValue_eq_ok, double_undouble_iff, double_undouble_iff, hwhat]
  constructor
  · rintro ⟨⟨hspace, hdoubled⟩, hencodable, hdoubled'⟩
    exact ⟨hdoubled, hdoubled', hspace, hencodable⟩
  · rintro ⟨hdoubled, hdoubled', hspace, hencodable⟩
    exact ⟨⟨hspace, hdoubled⟩, hencodable, hdoubled'⟩

/-- A guest share's mount unit for one address and one mount point. -/
def unitWithValues (whatRaw whereRaw : QString) : QString := unlines <|
  markerLines sampleMarker ++ [qs "[Mount]", assignmentLine (qs "What", whatRaw),
    assignmentLine (qs "Where", whereRaw), qs "Type=cifs",
    assignmentLine (qs "Options", mountOptionsFor sampleMarker), qs "TimeoutSec=30"]

theorem accepted_encoded_sample :
    encodeUnitValue (qs "//nas/50%") =
      .ok (mountValue (unitWithValues (qs "//nas/50%%") (qs "/mnt/a")) (qs "What")) := by
  have hlast : (mountValue (unitWithValues (qs "//nas/50%%") (qs "/mnt/a")) (qs "What")).getLast? =
      some '%' := by
    decide +kernel
  refine ((accepted_encoded_iff (by decide +kernel :
    validateMountUnitBody (unitWithValues (qs "//nas/50%%") (qs "/mnt/a")) sampleMarker
      (qs "/mnt/a") = .ok (qs "//nas/50%"))).mpr ⟨by decide +kernel, by decide +kernel, ?_,
        encodeUnitValue_isOk.mp ⟨qs "/mnt/a", by decide +kernel⟩⟩).1
  rw [hlast]
  rintro c hc
  obtain rfl := Option.some.inj hc
  decide

/-- A lone percent sign in `What=` or in `Where=` passes the validator. -/
theorem lone_percent_accepted :
    validateMountUnitBody (unitWithValues (qs "//nas/50%") (qs "/mnt/50%")) sampleMarker
        (qs "/mnt/50%") = .ok (qs "//nas/50%") ∧
      encodeUnitValue (qs "//nas/50%") ≠
        .ok (mountValue (unitWithValues (qs "//nas/50%") (qs "/mnt/50%")) (qs "What")) ∧
      encodeUnitValue (qs "/mnt/50%") ≠
        .ok (mountValue (unitWithValues (qs "//nas/50%") (qs "/mnt/50%")) (qs "Where")) := by
  decide +kernel

end Decoded

end NasMount.Core
