import NasMount.Core.UnitValue

/-!
# The grammar of the marker block

The parser accepts a text exactly when the lines of the managed namespace are,
in some order, one well-formed line for each required field and at most one
access line.
-/
namespace NasMount.Core

open NasMount.Foundation QString

/-- The lines of the managed namespace, in the order of the text. -/
def markedLines (content : QString) : List QString :=
  (split '\n' content).filter fun line => startsWith line markerPrefix

/-- The fields of a marker with its numbers and its access spelled in some way. -/
def spelledFields (marker : Marker) (uid gid : QString) (access : Option QString) :
    List (QString × QString) :=
  [(qs "Managed", qs "1"), (qs "Owner-Uid", uid), (qs "Owner-Gid", gid), (qs "Id", marker.id.text),
    (qs "Mode", qs "system"), (qs "Authentication", authenticationText marker.authentication)] ++
  access.toList.map fun text => (qs "Access", text)

/-- Digits that denote the number. -/
def Denotes (digits : QString) (n : ℕ) : Prop := isNumber digits = true ∧ digitsValue digits = n

/-- No access line means read-write. -/
def SpellsAccess (access : Option QString) (mode : AccessMode) : Prop :=
  access = none ∧ mode = .readWrite ∨ access = some (accessModeToString mode)

/-- The lines are the block of the marker, in any order and spelling. -/
def MarkerGrammar (lines : List QString) (marker : Marker) : Prop :=
  ∃ uid gid access, Denotes uid marker.ownerUid.toNat ∧ Denotes gid marker.ownerGid.toNat ∧
    SpellsAccess access marker.access ∧
    lines.Perm ((spelledFields marker uid gid access).map fieldLine)

/-- The call with its out-parameter: the flag it returns and the marker after it. -/
def parseMarkerInto (content : QString) (marker : Marker) : Bool × Marker :=
  match parseMarker content with
  | .ok result => (true, result)
  | .error _ => (false, marker)

section Loop

variable {line key value : QString} {lines : List QString} {scan scan' : MarkerScan}
  {fields : List (QString × QString)}

/-- The field the parser reads from a line is the one written on it. -/
theorem matchField_eq_some (h : matchField line = some (key, value)) :
    line = fieldLine (key, value) ∧ WellFormedField (key, value) := by
  rw [matchField, List.findSome?_eq_some_iff] at h
  obtain ⟨before, spec, after, hspecs, hpattern, -⟩ := h
  obtain ⟨value', hvalue, heq⟩ := Option.map_eq_some_iff.mp hpattern
  obtain ⟨rfl, rfl⟩ := Prod.mk.inj heq
  rw [FieldSpec.pattern] at hvalue
  cases hstrip : stripPrefix? (markerPrefix ++ (spec.key ++ ['='])) line with
  | none => simp [hstrip] at hvalue
  | some rest =>
    simp only [hstrip] at hvalue
    split_ifs at hvalue with haccept
    obtain rfl := Option.some.inj hvalue
    refine ⟨?_, spec, by simp [hspecs], rfl, haccept⟩
    rw [stripPrefix?_eq_some.mp hstrip, fieldLine]
    simp

theorem scanMarkerLine_marked (hmarked : startsWith line markerPrefix = true)
    (h : scanMarkerLine scan line = .ok scan') :
    ∃ field : QString × QString, line = fieldLine field ∧ WellFormedField field ∧
      field.1 ∉ scan.seen ∧
      scan' = scan.record field.1 field.2 := by
  rw [scanMarkerLine, if_pos hmarked] at h
  cases hfield : matchField line with
  | none => simp [hfield] at h
  | some field =>
    simp only [hfield] at h
    split_ifs at h with hseen
    obtain ⟨hline, hwell⟩ := matchField_eq_some hfield
    exact ⟨field, hline, hwell, hseen, (Except.ok.inj h).symm⟩

/-- The loop passes over the other lines. -/
theorem foldlM_filter_marked (lines : List QString) (scan : MarkerScan) :
    lines.foldlM scanMarkerLine scan =
      (lines.filter fun line => startsWith line markerPrefix).foldlM scanMarkerLine scan := by
  induction lines generalizing scan with
  | nil => rfl
  | cons line lines ih =>
    cases hmarked : startsWith line markerPrefix with
    | false =>
      rw [List.filter_cons_of_neg (by simp [hmarked]), List.foldlM_cons,
        scanMarkerLine_skip hmarked]
      exact ih scan
    | true =>
      rw [List.filter_cons_of_pos (by simp [hmarked]), List.foldlM_cons, List.foldlM_cons]
      exact congrArg _ (funext ih)

/-- A run of the loop that succeeds has read distinct well-formed fields. -/
theorem fields_of_foldlM (hmarked : ∀ line ∈ lines, startsWith line markerPrefix = true)
    (h : lines.foldlM scanMarkerLine scan = .ok scan') :
    ∃ fields : List (QString × QString), lines = fields.map fieldLine ∧
      (∀ field ∈ fields, WellFormedField field) ∧
      (fields.map Prod.fst).Nodup ∧ (∀ field ∈ fields, field.1 ∉ scan.seen) ∧
      scan' = fields.foldl (fun s field => s.record field.1 field.2) scan := by
  induction lines generalizing scan with
  | nil =>
    obtain rfl := Except.ok.inj h
    exact ⟨[], rfl, fun _ hno => absurd hno List.not_mem_nil, List.nodup_nil,
      fun _ hno => absurd hno List.not_mem_nil, rfl⟩
  | cons line lines ih =>
    rw [List.foldlM_cons, bind_eq_ok] at h
    obtain ⟨next, hstep, hrest⟩ := h
    obtain ⟨field, rfl, hwell, hseen, rfl⟩ :=
      scanMarkerLine_marked (hmarked line (List.mem_cons_self ..)) hstep
    obtain ⟨fields, rfl, hfields, hkeys, hfresh, rfl⟩ :=
      ih (fun other hmem => hmarked other (List.mem_cons_of_mem _ hmem)) hrest
    have hapart : ∀ other ∈ fields, other.1 ≠ field.1 ∧ other.1 ∉ scan.seen := by
      intro other hmem
      have hno := hfresh other hmem
      rw [MarkerScan.record_seen, List.mem_cons, not_or] at hno
      exact hno
    refine ⟨field :: fields, rfl, ?_, ?_, ?_, rfl⟩
    · intro other hmem
      rcases List.mem_cons.mp hmem with rfl | hmem
      · exact hwell
      · exact hfields other hmem
    · rw [List.map_cons, List.nodup_cons]
      refine ⟨fun hmem => ?_, hkeys⟩
      obtain ⟨other, hother, heq⟩ := List.mem_map.mp hmem
      exact (hapart other hother).1 heq
    · intro other hmem
      rcases List.mem_cons.mp hmem with rfl | hmem
      · exact hseen
      · exact (hapart other hmem).2

/-- What the parser does with a text, on the fields of its marked lines. -/
theorem parseMarker_eq_ok {content : QString} {marker : Marker} :
    parseMarker content = .ok marker ↔
      ∃ fields : List (QString × QString), markedLines content = fields.map fieldLine ∧
        (∀ field ∈ fields, WellFormedField field) ∧ (fields.map Prod.fst).Nodup ∧
        (fields.foldl (fun (s : MarkerScan) field => s.record field.1 field.2) {}).finish =
          .ok marker := by
  rw [parseMarker, bind_eq_ok]
  constructor
  · rintro ⟨scan, hloop, hfinish⟩
    rw [foldlM_filter_marked] at hloop
    have hmarked : ∀ line ∈ markedLines content, startsWith line markerPrefix = true :=
      fun line hmem => (List.mem_filter.mp hmem).2
    obtain ⟨fields, hlines, hfields, hkeys, -, rfl⟩ := fields_of_foldlM hmarked hloop
    exact ⟨fields, hlines, hfields, hkeys, hfinish⟩
  · rintro ⟨fields, hlines, hfields, hkeys, hfinish⟩
    refine ⟨_, ?_, hfinish⟩
    rw [foldlM_filter_marked]
    change (markedLines content).foldlM scanMarkerLine {} = _
    rw [hlines]
    exact foldlM_fieldLines hfields hkeys fun _ _ => List.not_mem_nil

end Loop

section Values

variable {fields : List (QString × QString)} {slot : QString} {scan : MarkerScan}

/-- Where a value of the scan comes from: the one field recorded under its key. -/
theorem foldl_record_slot {get : MarkerScan → QString}
    (hget : ∀ scan key value, get (MarkerScan.record scan key value) =
      if key = slot then value else get scan)
    (hkeys : (fields.map Prod.fst).Nodup) :
    (∀ value, (slot, value) ∈ fields →
      get (fields.foldl (fun (s : MarkerScan) field => s.record field.1 field.2) scan) = value) ∧
    (slot ∉ fields.map Prod.fst →
      get (fields.foldl (fun (s : MarkerScan) field => s.record field.1 field.2) scan) =
        get scan) := by
  induction fields generalizing scan with
  | nil => exact ⟨fun _ hno => absurd hno List.not_mem_nil, fun _ => rfl⟩
  | cons field fields ih =>
    rw [List.map_cons, List.nodup_cons] at hkeys
    obtain ⟨hpresent, habsent⟩ := @ih (scan.record field.1 field.2) hkeys.2
    constructor
    · intro value hmem
      rcases List.mem_cons.mp hmem with rfl | hmem
      · exact (habsent hkeys.1).trans ((hget _ _ _).trans (if_pos rfl))
      · exact hpresent value hmem
    · intro hno
      rw [List.map_cons, List.mem_cons, not_or] at hno
      exact (habsent hno.2).trans ((hget _ _ _).trans (if_neg (Ne.symm hno.1)))

theorem seen_foldl_record :
    (fields.foldl (fun (s : MarkerScan) field => s.record field.1 field.2) scan).seen =
      (fields.map Prod.fst).reverse ++ scan.seen := by
  induction fields generalizing scan with
  | nil => rfl
  | cons field fields ih => rw [List.foldl_cons, ih, MarkerScan.record_seen]; simp

theorem record_ownerUid (scan : MarkerScan) (key value : QString) :
    (scan.record key value).ownerUid = if key = qs "Owner-Uid" then value else scan.ownerUid := by
  unfold MarkerScan.record
  by_cases hkey : key = qs "Owner-Uid"
  · subst hkey
    rfl
  · rw [if_neg hkey]
    dsimp only
    split_ifs <;> rfl

theorem record_ownerGid (scan : MarkerScan) (key value : QString) :
    (scan.record key value).ownerGid = if key = qs "Owner-Gid" then value else scan.ownerGid := by
  unfold MarkerScan.record
  by_cases hkey : key = qs "Owner-Gid"
  · subst hkey
    rfl
  · rw [if_neg hkey]
    dsimp only
    split_ifs <;> rfl

theorem record_id (scan : MarkerScan) (key value : QString) :
    (scan.record key value).id = if key = qs "Id" then value else scan.id := by
  unfold MarkerScan.record
  by_cases hkey : key = qs "Id"
  · subst hkey
    rfl
  · rw [if_neg hkey]
    dsimp only
    split_ifs <;> rfl

theorem record_auth (scan : MarkerScan) (key value : QString) :
    (scan.record key value).auth = if key = qs "Authentication" then value else scan.auth := by
  unfold MarkerScan.record
  by_cases hkey : key = qs "Authentication"
  · subst hkey
    rfl
  · rw [if_neg hkey]
    dsimp only
    split_ifs <;> rfl

theorem record_access (scan : MarkerScan) (key value : QString) :
    (scan.record key value).access = if key = qs "Access" then value else scan.access := by
  unfold MarkerScan.record
  by_cases hkey : key = qs "Access"
  · subst hkey
    rfl
  · rw [if_neg hkey]
    dsimp only
    split_ifs <;> rfl

theorem toUnsigned?_eq_some {limit n : ℕ} {digits : QString} :
    toUnsigned? limit digits = some n ↔ Denotes digits n ∧ n < limit := by
  rw [toUnsigned?, Denotes, isNumber, Bool.and_eq_true, decide_eq_true_eq]
  constructor
  · intro h
    split_ifs at h with hdigits
    obtain rfl := Option.some.inj h
    exact ⟨⟨⟨hdigits.1, hdigits.2.1⟩, rfl⟩, hdigits.2.2⟩
  · rintro ⟨⟨hdigits, rfl⟩, hlimit⟩
    rw [if_pos ⟨hdigits.1, hdigits.2, hlimit⟩]

theorem toUnsigned?_toNat {number : UInt32} {digits : QString} :
    toUnsigned? (2 ^ 32) digits = some number.toNat ↔ Denotes digits number.toNat :=
  toUnsigned?_eq_some.trans (and_iff_left number.toNat_lt)

theorem toUInt32_eq_iff {n : ℕ} (h : n < 2 ^ 32) (number : UInt32) :
    n.toUInt32 = number ↔ n = number.toNat := by
  rw [← UInt32.toNat_inj, UInt32.toNat_ofNat', Nat.mod_eq_of_lt h]

/-- Everything the checks after the loop ask for. -/
theorem finish_eq_ok {marker : Marker} :
    scan.finish = .ok marker ↔
      (∀ spec ∈ fieldSpecs, spec.required = true → spec.key ∈ scan.seen) ∧
      Denotes scan.ownerUid marker.ownerUid.toNat ∧ Denotes scan.ownerGid marker.ownerGid.toNat ∧
      scan.id = marker.id.text ∧
      (if scan.auth = qs "guest" then .guest else .credentials) = marker.authentication ∧
      (scan.access = [] ∧ marker.access = .readWrite ∨
        scan.access ≠ [] ∧ accessModeFromString scan.access = some marker.access) := by
  obtain ⟨ownerUid, ownerGid, id, authentication, access⟩ := marker
  rw [MarkerScan.finish, ← toUnsigned?_toNat, ← toUnsigned?_toNat]
  cases hmissing : fieldSpecs.find? fun spec => spec.required && spec.key ∉ scan.seen with
  | some spec =>
    have hspec := List.find?_some hmissing
    rw [Bool.and_eq_true, decide_eq_true_eq] at hspec
    simp only [reduceCtorEq, false_iff, not_and]
    intro hall
    exact absurd (hall spec (List.mem_of_find?_eq_some hmissing) hspec.1) hspec.2
  | none =>
    have hall : ∀ spec ∈ fieldSpecs, spec.required = true → spec.key ∈ scan.seen := by
      intro spec hmem hrequired
      have hno := List.find?_eq_none.mp hmissing spec hmem
      rw [Bool.and_eq_true, decide_eq_true_eq, not_and, not_not] at hno
      exact hno hrequired
    rw [and_iff_right hall]
    cases huid : toUnsigned? (2 ^ 32) scan.ownerUid with
    | none => simp
    | some uid =>
      cases hgid : toUnsigned? (2 ^ 32) scan.ownerGid with
      | none => simp
      | some gid =>
        have huid' := toUInt32_eq_iff (toUnsigned?_eq_some.mp huid).2 ownerUid
        have hgid' := toUInt32_eq_iff (toUnsigned?_eq_some.mp hgid).2 ownerGid
        by_cases valid : isValidShareId scan.id = true
        · have hid : (⟨scan.id, valid⟩ : ShareId) = id ↔ scan.id = id.text :=
            ⟨fun h => congrArg ShareId.text h, fun h => ShareId.ext_text h⟩
          by_cases hempty : scan.access = []
          · simp [valid, hempty, huid', hgid', hid, @eq_comm _ AccessMode.readWrite access]
          · cases accessModeFromString scan.access with
            | none => simp [valid, hempty]
            | some mode => simp [valid, hempty, huid', hgid', hid]
        · have hid : scan.id ≠ id.text := fun h => valid (h ▸ id.valid)
          simp [valid, hid]

end Values

section Grammar

variable {marker : Marker} {uid gid : QString} {access : Option QString}
  {fields others : List (QString × QString)}

/-- Two lists of distinct keys with the same keys, one inside the other. -/
theorem perm_of_keys (hfields : (fields.map Prod.fst).Nodup) (hothers : (others.map Prod.fst).Nodup)
    (hsub : ∀ field ∈ others, field ∈ fields)
    (hkeys : ∀ field ∈ fields, field.1 ∈ others.map Prod.fst) : fields.Perm others := by
  rw [List.perm_ext_iff_of_nodup hfields.of_map hothers.of_map]
  intro field
  constructor
  · intro hmem
    obtain ⟨other, hother, heq⟩ := List.mem_map.mp (hkeys field hmem)
    rwa [← List.inj_on_of_nodup_map hfields (hsub other hother) hmem heq]
  · exact hsub field

theorem value_of_wellFormed {i : ℕ} (h : i < fieldSpecs.length) {value : QString}
    (hfield : WellFormedField ((fieldSpecs.get ⟨i, h⟩).key, value)) :
    (fieldSpecs.get ⟨i, h⟩).accepts value = true := by
  obtain ⟨spec, hspec, hkey, haccept⟩ := hfield
  rwa [← List.inj_on_of_nodup_map fieldSpecs_keys_nodup hspec (List.get_mem _ _) hkey]

theorem spelledFields_keys :
    (spelledFields marker uid gid access).map Prod.fst =
      [qs "Managed", qs "Owner-Uid", qs "Owner-Gid", qs "Id", qs "Mode", qs "Authentication"] ++
        access.toList.map fun _ => qs "Access" := by
  rw [spelledFields, List.map_append, List.map_map]
  rfl

theorem spelledFields_keys_nodup : ((spelledFields marker uid gid access).map Prod.fst).Nodup := by
  rw [spelledFields_keys]
  cases access with
  | none => decide
  | some text =>
    rw [Option.toList_some, List.map_singleton]
    decide

theorem accessModeToString_accepted (mode : AccessMode) :
    (accessModeToString mode == qs "readwrite-executable" ||
      accessModeToString mode == qs "readwrite" || accessModeToString mode == qs "readonly") =
        true := by
  cases mode <;> decide

theorem wellFormed_spelledFields (huid : isNumber uid = true) (hgid : isNumber gid = true)
    (haccess : ∀ text ∈ access, ∃ mode, text = accessModeToString mode) :
    ∀ field ∈ spelledFields marker uid gid access, WellFormedField field := by
  intro field hmem
  rw [spelledFields, List.mem_append] at hmem
  rcases hmem with hmem | hmem
  · simp only [List.mem_cons, List.not_mem_nil, or_false] at hmem
    rcases hmem with rfl | rfl | rfl | rfl | rfl | rfl
    · exact wellFormedField_spec (by decide : 0 < _) rfl rfl
    · exact wellFormedField_spec (by decide : 1 < _) rfl huid
    · exact wellFormedField_spec (by decide : 2 < _) rfl hgid
    · exact wellFormedField_spec (by decide : 3 < _) rfl marker.id.valid
    · exact wellFormedField_spec (by decide : 4 < _) rfl rfl
    · exact wellFormedField_spec (by decide : 5 < _) rfl (by cases marker.authentication <;> rfl)
  · obtain ⟨text, htext, rfl⟩ := List.mem_map.mp hmem
    obtain ⟨mode, rfl⟩ := haccess text (Option.mem_toList.mp htext)
    exact wellFormedField_spec (by decide : 6 < _) rfl (accessModeToString_accepted mode)

/-- Every required key of the scan stands on a line with an accepted value. -/
theorem exists_field_of_seen {i : ℕ} (h : i < fieldSpecs.length)
    (hfields : ∀ field ∈ fields, WellFormedField field)
    (hseen : (fieldSpecs.get ⟨i, h⟩).key ∈ fields.map Prod.fst) :
    ∃ value, ((fieldSpecs.get ⟨i, h⟩).key, value) ∈ fields ∧
      (fieldSpecs.get ⟨i, h⟩).accepts value = true := by
  obtain ⟨⟨key, value⟩, hmem, rfl⟩ := List.mem_map.mp hseen
  exact ⟨value, hmem, value_of_wellFormed h (hfields _ hmem)⟩

theorem key_of_wellFormed {field : QString × QString} (h : WellFormedField field) :
    field.1 ∈ [qs "Managed", qs "Owner-Uid", qs "Owner-Gid", qs "Id", qs "Mode",
      qs "Authentication"] ∨ field.1 = qs "Access" := by
  obtain ⟨spec, hspec, hkey, -⟩ := h
  have hmem : spec.key ∈ fieldSpecs.map FieldSpec.key := List.mem_map_of_mem hspec
  rw [hkey] at hmem
  have hsplit : fieldSpecs.map FieldSpec.key = [qs "Managed", qs "Owner-Uid", qs "Owner-Gid",
      qs "Id", qs "Mode", qs "Authentication"] ++ [qs "Access"] := rfl
  rw [hsplit, List.mem_append, List.mem_singleton] at hmem
  exact hmem

theorem accessModeFromString_eq_some {text : QString} {mode : AccessMode}
    (h : accessModeFromString text = some mode) : text = accessModeToString mode := by
  unfold accessModeFromString at h
  split_ifs at h with hwrite honly hexec
  · obtain rfl := Option.some.inj h
    exact hwrite
  · obtain rfl := Option.some.inj h
    exact honly
  · obtain rfl := Option.some.inj h
    exact hexec

theorem accessModeToString_ne_nil (mode : AccessMode) : accessModeToString mode ≠ [] := by
  cases mode <;> decide

theorem authenticationText_of_accepts {text : QString} {authentication : AuthenticationKind}
    (haccept : (text == qs "credentials" || text == qs "guest") = true)
    (h : (if text = qs "guest" then .guest else .credentials) = authentication) :
    text = authenticationText authentication := by
  split_ifs at h with hguest
  · exact h ▸ hguest
  · rw [Bool.or_eq_true, beq_iff_eq, beq_iff_eq] at haccept
    exact h ▸ haccept.resolve_right hguest

/-- Distinct well-formed fields with all the required ones are in the grammar. -/
theorem grammar_of_fields (hfields : ∀ field ∈ fields, WellFormedField field)
    (hkeys : (fields.map Prod.fst).Nodup) (huid : Denotes uid marker.ownerUid.toNat)
    (hgid : Denotes gid marker.ownerGid.toNat)
    (hspelled : ∀ field ∈ spelledFields marker uid gid none, field ∈ fields)
    (haccess : (qs "Access", accessModeToString marker.access) ∈ fields ∨
      qs "Access" ∉ fields.map Prod.fst ∧ marker.access = .readWrite) :
    MarkerGrammar (fields.map fieldLine) marker := by
  have hperm : ∀ access : Option QString, (∀ text ∈ access, (qs "Access", text) ∈ fields) →
      (access = none → qs "Access" ∉ fields.map Prod.fst) →
      fields.Perm (spelledFields marker uid gid access) := by
    intro access hmem hnone
    apply perm_of_keys hkeys spelledFields_keys_nodup
    · intro field hfield
      rw [spelledFields, List.mem_append] at hfield
      rcases hfield with hfield | hfield
      · exact hspelled field (List.mem_append_left _ hfield)
      · obtain ⟨text, htext, rfl⟩ := List.mem_map.mp hfield
        exact hmem text (Option.mem_toList.mp htext)
    · intro field hfield
      rw [spelledFields_keys, List.mem_append]
      rcases key_of_wellFormed (hfields field hfield) with hkey | hkey
      · exact Or.inl hkey
      · cases access with
        | none => exact absurd (hkey ▸ List.mem_map_of_mem hfield) (hnone rfl)
        | some text => exact Or.inr (by simp [hkey])
  rcases haccess with hmem | ⟨hno, hmode⟩
  · refine ⟨uid, gid, _, huid, hgid, Or.inr rfl, (hperm _ ?_ ?_).map fieldLine⟩
    · rintro other ⟨⟩
      exact hmem
    · exact fun hno => nomatch hno
  · refine ⟨uid, gid, none, huid, hgid, Or.inl ⟨rfl, hmode⟩, (hperm none ?_ ?_).map fieldLine⟩
    · exact fun _ hno => nomatch hno
    · exact fun _ => hno

/-- What the parser accepts is in the grammar. -/
theorem grammar_of_parseMarker {content : QString} (h : parseMarker content = .ok marker) :
    MarkerGrammar (markedLines content) marker := by
  obtain ⟨fields, hlines, hfields, hkeys, hfinish⟩ := parseMarker_eq_ok.mp h
  obtain ⟨hrequired, huid, hgid, hid, hauth, haccess⟩ := finish_eq_ok.mp hfinish
  have hseen : ∀ i (hi : i < fieldSpecs.length), (fieldSpecs.get ⟨i, hi⟩).required = true →
      ∃ value, ((fieldSpecs.get ⟨i, hi⟩).key, value) ∈ fields ∧
        (fieldSpecs.get ⟨i, hi⟩).accepts value = true := by
    intro i hi hreq
    apply exists_field_of_seen hi hfields
    have hmem := hrequired _ (List.get_mem _ _) hreq
    rwa [seen_foldl_record, List.append_nil, List.mem_reverse] at hmem
  obtain ⟨managed, hmanagedMem, hmanaged⟩ := hseen 0 (by decide) rfl
  obtain ⟨uid, huidMem, -⟩ := hseen 1 (by decide) rfl
  obtain ⟨gid, hgidMem, -⟩ := hseen 2 (by decide) rfl
  obtain ⟨id, hidMem, -⟩ := hseen 3 (by decide) rfl
  obtain ⟨mode, hmodeMem, hmode⟩ := hseen 4 (by decide) rfl
  obtain ⟨auth, hauthMem, hauthAccept⟩ := hseen 5 (by decide) rfl
  obtain rfl := beq_iff_eq.mp hmanaged
  obtain rfl := beq_iff_eq.mp hmode
  rw [(foldl_record_slot record_ownerUid hkeys).1 _ huidMem] at huid
  rw [(foldl_record_slot record_ownerGid hkeys).1 _ hgidMem] at hgid
  obtain rfl := ((foldl_record_slot record_id hkeys).1 _ hidMem).symm.trans hid
  rw [(foldl_record_slot record_auth hkeys).1 _ hauthMem] at hauth
  obtain rfl := authenticationText_of_accepts hauthAccept hauth
  have hspelled : ∀ field ∈ spelledFields marker uid gid none, field ∈ fields := by
    intro field hfield
    simp only [spelledFields, Option.toList_none, List.map_nil, List.append_nil, List.mem_cons,
      List.not_mem_nil, or_false] at hfield
    rcases hfield with rfl | rfl | rfl | rfl | rfl | rfl <;> assumption
  rw [hlines]
  apply grammar_of_fields hfields hkeys huid hgid hspelled
  by_cases hpresent : qs "Access" ∈ fields.map Prod.fst
  · obtain ⟨⟨key, text⟩, hmem, rfl⟩ := List.mem_map.mp hpresent
    rw [(foldl_record_slot record_access hkeys).1 _ hmem] at haccess
    have haccept : (text == qs "readwrite-executable" || text == qs "readwrite" ||
        text == qs "readonly") = true :=
      value_of_wellFormed (by decide : 6 < fieldSpecs.length) (hfields _ hmem)
    have hne : text ≠ [] := by
      rintro rfl
      exact absurd haccept (by decide)
    have hsome := (haccess.resolve_left fun hempty => hne hempty.1).2
    exact Or.inl (accessModeFromString_eq_some hsome ▸ hmem)
  · rw [(foldl_record_slot record_access hkeys).2 hpresent] at haccess
    exact Or.inr ⟨hpresent, (haccess.resolve_right fun hno => hno.1 rfl).2⟩

/-- What the grammar describes is accepted. -/
theorem parseMarker_of_grammar {content : QString}
    (h : MarkerGrammar (markedLines content) marker) :
    parseMarker content = .ok marker := by
  obtain ⟨uid, gid, access, huid, hgid, haccess, hperm⟩ := h
  have hmap : Relation.Comp (· = List.map fieldLine ·) List.Perm (markedLines content)
      (spelledFields marker uid gid access) := by
    rw [List.eq_map_comp_perm]
    exact hperm
  obtain ⟨fields, hlines, hfields⟩ := hmap
  have hspells : ∀ text ∈ access, ∃ mode, text = accessModeToString mode := by
    rintro text rfl
    rcases haccess with ⟨hno, -⟩ | hsome
    · exact nomatch hno
    · exact ⟨marker.access, Option.some.inj hsome⟩
  have hkeys : (fields.map Prod.fst).Nodup :=
    (hfields.map Prod.fst).nodup_iff.mpr spelledFields_keys_nodup
  have hmem : ∀ field ∈ spelledFields marker uid gid access, field ∈ fields :=
    fun field hfield => hfields.mem_iff.mpr hfield
  have hrequired : ∀ field ∈ spelledFields marker uid gid none, field ∈ fields :=
    fun field hfield => hmem field (List.mem_append_left _ (by simpa [spelledFields] using hfield))
  rw [parseMarker_eq_ok]
  refine ⟨fields, hlines, ?_, hkeys, ?_⟩
  · intro field hfield
    exact wellFormed_spelledFields huid.1 hgid.1 hspells field (hfields.mem_iff.mp hfield)
  rw [finish_eq_ok]
  refine ⟨?_, ?_, ?_, ?_, ?_, ?_⟩
  · intro spec hspec hreq
    have hall : ∀ spec ∈ fieldSpecs, spec.required = true →
        spec.key ∈ (spelledFields marker uid gid none).map Prod.fst := by
      rw [spelledFields_keys]
      simp [fieldSpecs]
    obtain ⟨field, hfield, hkey⟩ := List.mem_map.mp (hall spec hspec hreq)
    rw [seen_foldl_record, List.append_nil, List.mem_reverse, ← hkey]
    exact List.mem_map_of_mem (hrequired field hfield)
  · rwa [(foldl_record_slot record_ownerUid hkeys).1 uid (hrequired _ (by simp [spelledFields]))]
  · rwa [(foldl_record_slot record_ownerGid hkeys).1 gid (hrequired _ (by simp [spelledFields]))]
  · exact (foldl_record_slot record_id hkeys).1 _ (hrequired _ (by simp [spelledFields]))
  · rw [(foldl_record_slot record_auth hkeys).1 _
      (hrequired (_, authenticationText marker.authentication) (by simp [spelledFields]))]
    cases marker.authentication <;> rfl
  · rcases haccess with ⟨rfl, hmode⟩ | rfl
    · have hno : qs "Access" ∉ fields.map Prod.fst := by
        rw [(hfields.map Prod.fst).mem_iff, spelledFields_keys]
        decide
      exact Or.inl ⟨(foldl_record_slot record_access hkeys).2 hno, hmode⟩
    · have hvalue :
        (fields.foldl (fun (s : MarkerScan) field => s.record field.1 field.2) {}).access =
          accessModeToString marker.access :=
        (foldl_record_slot record_access hkeys).1 _ (hmem _ (by simp [spelledFields]))
      rw [hvalue]
      exact Or.inr ⟨accessModeToString_ne_nil _, accessModeFromString_toString _⟩

end Grammar

section Embedding

variable {before after : QString} {marker : Marker}

theorem markedLines_eq_nil (h : hasMarker before = false) : markedLines before = [] := by
  rw [markedLines, List.filter_eq_nil_iff]
  rw [hasMarker, List.any_eq_false] at h
  exact h

/-- A text on lines of its own contributes its own marked lines. -/
theorem markedLines_append (before after : QString) :
    markedLines (before ++ '\n' :: after) = markedLines before ++ markedLines after := by
  rw [markedLines, split_append, List.filter_append]
  rfl

theorem markedLines_unlines {lines : List QString} (h : ∀ line ∈ lines, '\n' ∉ line)
    (hmarked : ∀ line ∈ lines, startsWith line markerPrefix = true) (after : QString) :
    markedLines (unlines lines ++ after) = lines ++ markedLines after := by
  induction lines with
  | nil => rfl
  | cons line lines ih =>
    have hrest := ih (fun l hl => h l (List.mem_cons_of_mem _ hl))
      fun l hl => hmarked l (List.mem_cons_of_mem _ hl)
    have hline : markedLines line = [line] := by
      rw [markedLines, split_of_notMem (h line (List.mem_cons_self ..)),
        List.filter_singleton, hmarked line (List.mem_cons_self ..)]
      rfl
    rw [unlines_cons, List.append_assoc, List.cons_append, markedLines_append, hline, hrest]
    rfl

theorem grammar_markerLines (marker : Marker) : MarkerGrammar (markerLines marker) marker := by
  refine ⟨number marker.ownerUid.toNat, number marker.ownerGid.toNat,
    if marker.access = .readWrite then none else some (accessModeToString marker.access),
    ⟨isNumber_number _, digitsValue_number _⟩, ⟨isNumber_number _, digitsValue_number _⟩, ?_, ?_⟩
  · split_ifs with hmode
    · exact Or.inl ⟨rfl, hmode⟩
    · exact Or.inr rfl
  · obtain ⟨uid, gid, id, authentication, access⟩ := marker
    cases access <;> exact List.Perm.refl _

/-- The block on lines of its own, in a text without a line of the namespace,
parses back to its marker. -/
theorem parseMarker_embedded (hbefore : hasMarker before = false) (hafter : hasMarker after = false)
    (hown : before = [] ∨ before.getLast? = some '\n') :
    parseMarker (before ++ (markerComment marker ++ after)) = .ok marker := by
  have hblock : markedLines (markerComment marker ++ after) = markerLines marker := by
    rw [markerComment, markedLines_unlines, markedLines_eq_nil hafter, List.append_nil]
    · exact fun line hline => notMem_markerLines hline (Or.inl rfl)
    · intro line hline
      obtain ⟨field, -, rfl⟩ := List.mem_map.mp hline
      exact startsWith_append _ _
  apply parseMarker_of_grammar
  rcases hown with rfl | hlast
  · rw [List.nil_append, hblock]
    exact grammar_markerLines marker
  · obtain ⟨front, rfl⟩ := List.getLast?_eq_some_iff.mp hlast
    have hfront : markedLines front = [] := by
      have hnone := markedLines_eq_nil hbefore
      rw [markedLines_append, List.append_eq_nil_iff] at hnone
      exact hnone.1
    rw [List.append_assoc, List.singleton_append, markedLines_append, hfront, hblock]
    exact grammar_markerLines marker

/-- The parser accepts exactly the grammar, leaves the marker alone when it
refuses, and reads a generated block back from any text around it. -/
theorem parseMarker_accepts_grammar :
    (∀ content marker, parseMarker content = .ok marker ↔
      MarkerGrammar (markedLines content) marker) ∧
    (∀ content old,
      (∃ marker, MarkerGrammar (markedLines content) marker ∧
        parseMarkerInto content old = (true, marker)) ∨
      (¬ ∃ marker, MarkerGrammar (markedLines content) marker) ∧
        parseMarkerInto content old = (false, old)) ∧
    ∀ marker before after, hasMarker before = false → hasMarker after = false →
      (before = [] ∨ before.getLast? = some '\n') →
      parseMarker (before ++ (markerComment marker ++ after)) = .ok marker := by
  have hiff : ∀ content marker,
      parseMarker content = .ok marker ↔ MarkerGrammar (markedLines content) marker :=
    fun _ _ => ⟨grammar_of_parseMarker, parseMarker_of_grammar⟩
  refine ⟨hiff, ?_, fun _ _ _ => parseMarker_embedded⟩
  intro content old
  cases hparse : parseMarker content with
  | ok marker => exact Or.inl ⟨marker, (hiff _ _).mp hparse, by rw [parseMarkerInto, hparse]⟩
  | error e =>
    refine Or.inr ⟨?_, by rw [parseMarkerInto, hparse]⟩
    rintro ⟨marker, hgrammar⟩
    exact nomatch hparse.symm.trans ((hiff _ _).mpr hgrammar)

/-- Fields in another order, leading zeros and an access line spelled out. -/
example :
    parseMarker (qs "# X-Nasmount-Access=readwrite\n# X-Nasmount-Mode=system\n[Unit]\n" ++
      (fieldLine (qs "Id", sampleId.text) ++ qs "\n# X-Nasmount-Owner-Gid=0001000\n" ++
        qs "# X-Nasmount-Owner-Uid=1000\n# X-Nasmount-Authentication=guest\n" ++
        qs "# X-Nasmount-Managed=1")) = .ok sampleMarker := by
  decide +kernel

end Embedding

end NasMount.Core
