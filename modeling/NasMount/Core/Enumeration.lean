import NasMount.Core.UnitLoader

/-!
# The light scan beside the strict inspection

What an entry of the enumeration says about the files behind it, and that the
scan does not miss a half the strict inspection accepts.
-/
namespace NasMount.Core

open NasMount.Foundation QString

section Scan

variable {w : World} {onlyUid : Option UInt32} {key : UnitKey}

/-- Everything one scanned half says about its file. -/
theorem scanHalf_eq_some {half : ScannedHalf} :
    scanHalf w onlyUid key = some half ↔
      ∃ content whereRaw, probeUnitFile w key = .ok content ∧
        parseMarker content = .ok half.marker ∧ onlyUid.any (· ≠ half.marker.ownerUid) = false ∧
        extractAssignment content (qs "Where") = some whereRaw ∧
        half.key = key ∧ half.whereValue = undouble '%' whereRaw ∧
        half.what =
          match key.half with
          | .mount => undouble '%' ((extractAssignment content (qs "What")).getD [])
          | .automount => [] := by
  unfold scanHalf
  cases hprobe : probeUnitFile w key with
  | missing => simp
  | tampered => simp
  | ok content =>
    cases hparse : parseMarker content with
    | error e => simp [hparse]
    | ok marker =>
      simp only [hparse]
      split_ifs with howner
      · simp only [false_iff, not_exists, not_and]
        rintro content' whereRaw hcontent hmarker hno
        obtain rfl := FileProbe.ok.inj hcontent
        rw [hparse, Except.ok.injEq] at hmarker
        rw [← hmarker, howner] at hno
        exact absurd hno (by simp)
      · rw [Option.map_eq_some_iff]
        constructor
        · rintro ⟨whereRaw, hwhere, rfl⟩
          exact ⟨content, whereRaw, rfl, hparse, by simpa using howner, hwhere, rfl, rfl, rfl⟩
        · rintro ⟨content', whereRaw, hcontent, hmarker, -, hwhere, hkey, hvalue, hwhat⟩
          obtain rfl := FileProbe.ok.inj hcontent
          rw [hparse, Except.ok.injEq] at hmarker
          refine ⟨whereRaw, hwhere, ?_⟩
          obtain ⟨key', marker', value, what⟩ := half
          dsimp only at hmarker hkey hvalue hwhat
          subst hmarker hkey hvalue hwhat
          rfl

/-- A scan reads the file and nothing else of the machine. -/
theorem scanHalf_congr {w' : World} (h : w'.unit? key = w.unit? key) :
    scanHalf w' onlyUid key = scanHalf w onlyUid key := by
  simp only [scanHalf, probeUnitFile, h]

theorem scanHalf_missing (h : w.unit? key = none) : scanHalf w onlyUid key = none := by
  simp only [scanHalf, probeUnitFile, h]

end Scan

section Agreement

variable {name : QString} {allowed : List QString}

theorem extractAssignment_isSome {content key value : QString}
    (h : key ++ '=' :: value ∈ split '\n' content) : (extractAssignment content key).isSome := by
  have hstrip : stripPrefix? (key ++ ['=']) (key ++ '=' :: value) = some value := by
    rw [show key ++ '=' :: value = (key ++ ['=']) ++ value by simp, stripPrefix?_append]
  have hkeeps : ∀ (lines : List QString) (found : Option QString), found.isSome = true →
      (lines.foldl (fun found line => (stripPrefix? (key ++ ['=']) line).or found) found).isSome =
        true := by
    intro lines
    induction lines with
    | nil => exact fun _ hfound => hfound
    | cons line lines ih =>
      intro found hfound
      refine ih _ ?_
      rw [Option.isSome_or, hfound, Bool.or_true]
  obtain ⟨before, after, hlines⟩ := List.append_of_mem h
  rw [extractAssignment, hlines, List.foldl_append, List.foldl_cons, hstrip]
  exact hkeeps after _ rfl

/-- A section the validator accepts with the key has a line for the light scan. -/
theorem extractAssignment_of_extract {content : QString} {values : List (QString × QString)}
    (h : extractSectionAssignments content name allowed = .ok values) {key : QString}
    (hkey : key ∈ values.map Prod.fst) : (extractAssignment content key).isSome := by
  simp only [extractSectionAssignments, bind_eq_ok] at h
  obtain ⟨final, hscan, hfinal⟩ := h
  split_ifs at hfinal
  obtain rfl := pure_eq_ok.mp hfinal
  obtain ⟨⟨key, value⟩, hmem, rfl⟩ := List.mem_map.mp hkey
  rcases line_of_scan hscan hmem with hnone | hline
  · exact absurd hnone List.not_mem_nil
  · exact extractAssignment_isSome hline

/-- The light scan does not miss a half that passes the strict inspection. -/
theorem scanHalf_of_valid {w : World} {uid : UInt32} {mountPoint : QString} {key : UnitKey}
    {marker : Marker} {what : QString} (h : sideAt w uid mountPoint key = .valid marker what) :
    ∃ half, scanHalf w none key = some half ∧ half.marker = marker := by
  have hvalid : ∃ content, probeUnitFile w key = .ok content ∧ parseMarker content = .ok marker ∧
      (extractAssignment content (qs "Where")).isSome := by
    unfold sideAt at h
    cases hhalf : key.half with
    | mount =>
      rw [hhalf] at h
      obtain ⟨content, hprobe, hparse, -, hbody⟩ := evaluateSide_eq_valid.mp h
      obtain ⟨-, values, hextract, hkeys, -⟩ := validateMountUnitBody_eq_ok.mp hbody
      exact ⟨content, hprobe, hparse, extractAssignment_of_extract hextract
        (mem_keys_of_requireKeys hkeys (by decide))⟩
    | automount =>
      rw [hhalf] at h
      obtain ⟨content, hprobe, hparse, -, hbody⟩ := evaluateSide_eq_valid.mp h
      cases hcheck : validateAutomountUnitBody content marker mountPoint with
      | error e => simp [hcheck, Except.map] at hbody
      | ok checked =>
        obtain ⟨-, values, -, hextract, hkeys, -⟩ := validateAutomountUnitBody_eq_ok.mp hcheck
        exact ⟨content, hprobe, hparse, extractAssignment_of_extract hextract
          (mem_keys_of_requireKeys hkeys (by decide))⟩
  obtain ⟨content, hprobe, hparse, hwhere⟩ := hvalid
  obtain ⟨whereRaw, hwhere⟩ := Option.isSome_iff_exists.mp hwhere
  exact ⟨{ key := key, marker := marker, whereValue := undouble '%' whereRaw, what := _ },
    scanHalf_eq_some.mpr ⟨content, whereRaw, hprobe, hparse, rfl, hwhere, rfl, rfl, rfl⟩, rfl⟩

end Agreement

section Entries

variable {w : World} {onlyUid : Option UInt32}

/-- The entry of one base name, before collisions are looked for. -/
def entryAt (w : World) (onlyUid : Option UInt32) (base : UnitName) : OwnedUnit :=
  pairGroup base (scanHalf w onlyUid base.mount) (scanHalf w onlyUid base.automount)

theorem pairGroup_both (base : UnitName) (mountHalf automountHalf : ScannedHalf) :
    pairGroup base (some mountHalf) (some automountHalf) =
      if mountHalf.marker ≠ automountHalf.marker ∨
        mountHalf.whereValue ≠ automountHalf.whereValue then
        { unitName := base, state := .tampered
          detail := qs "the pair disagrees on a marker field or Where=" }
      else
        { unitName := base, state := .pair, mountPoint := mountHalf.whereValue
          marker := some mountHalf.marker, what := mountHalf.what } := rfl

theorem pairGroup_unitName {base : UnitName} {mountHalf automountHalf : Option ScannedHalf}
    (hmount : ∀ half, mountHalf = some half → half.key = base.mount)
    (hautomount : ∀ half, automountHalf = some half → half.key = base.automount) :
    (pairGroup base mountHalf automountHalf).unitName = base := by
  cases mountHalf with
  | none =>
    cases automountHalf with
    | none => rfl
    | some half => exact congrArg UnitKey.base (hautomount half rfl)
  | some half =>
    cases automountHalf with
    | none => exact congrArg UnitKey.base (hmount half rfl)
    | some other =>
      rw [pairGroup_both]
      split_ifs <;> rfl

@[simp] theorem entryAt_unitName (base : UnitName) : (entryAt w onlyUid base).unitName = base :=
  pairGroup_unitName (fun _ h => scanHalf_key h) fun _ h => scanHalf_key h

/-- The base names of the enumeration. -/
theorem mem_baseNames {base : UnitName} :
    base ∈ baseNames (scanManagedHalves w onlyUid) ↔
      ∃ half, (scanHalf w onlyUid ⟨base, half⟩).isSome := by
  rw [baseNames, List.mem_insertionSort, List.mem_dedup, List.mem_map]
  constructor
  · rintro ⟨scanned, hmem, rfl⟩
    obtain ⟨key, -, hscan⟩ := List.mem_filterMap.mp hmem
    obtain rfl := scanHalf_key hscan
    exact ⟨scanned.key.half, Option.isSome_iff_exists.mpr ⟨scanned, hscan⟩⟩
  · rintro ⟨half, hsome⟩
    obtain ⟨scanned, hscan⟩ := Option.isSome_iff_exists.mp hsome
    obtain ⟨content, hprobe⟩ := probe_of_scanHalf hscan
    exact ⟨scanned, List.mem_filterMap.mpr ⟨_, mem_unitFiles_of_probe hprobe, hscan⟩,
      congrArg UnitKey.base (scanHalf_key hscan)⟩

/-- The entries before collisions are looked for. -/
def entries (w : World) (onlyUid : Option UInt32) : List OwnedUnit :=
  (baseNames (scanManagedHalves w onlyUid)).map (entryAt w onlyUid)

theorem pairScannedHalves_eq :
    pairScannedHalves (scanManagedHalves w onlyUid) = flagCollisions (entries w onlyUid) := by
  rw [pairScannedHalves, entries]
  refine congrArg flagCollisions (List.map_congr_left fun base _ => ?_)
  rw [lastHalf_scanManagedHalves, lastHalf_scanManagedHalves, entryAt]

theorem mem_entries {unit : OwnedUnit} :
    unit ∈ entries w onlyUid ↔
      ∃ base half, (scanHalf w onlyUid ⟨base, half⟩).isSome ∧ unit = entryAt w onlyUid base := by
  rw [entries, List.mem_map]
  constructor
  · rintro ⟨base, hbase, rfl⟩
    obtain ⟨half, hsome⟩ := mem_baseNames.mp hbase
    exact ⟨base, half, hsome, rfl⟩
  · rintro ⟨base, half, hsome, rfl⟩
    exact ⟨base, mem_baseNames.mpr ⟨half, hsome⟩, rfl⟩

/-- An entry that is not tampered is exactly what its files say, and collides
with no other. -/
theorem entry_of_untampered {unit : OwnedUnit}
    (h : unit ∈ pairScannedHalves (scanManagedHalves w onlyUid)) (hstate : unit.state ≠ .tampered) :
    unit ∈ entries w onlyUid ∧ collides (entries w onlyUid) unit = false := by
  rw [pairScannedHalves_eq, flagCollisions, List.mem_map] at h
  obtain ⟨entry, hentry, rfl⟩ := h
  split_ifs at hstate ⊢ with hcollides
  · exact absurd rfl hstate
  · refine ⟨hentry, ?_⟩
    rw [Bool.and_eq_true, decide_eq_true_eq, not_and, Bool.not_eq_true] at hcollides
    exact hcollides hstate

/-- A half that was scanned has an entry. -/
theorem entryAt_mem {key : UnitKey} {scanned : ScannedHalf}
    (h : scanHalf w onlyUid key = some scanned) : entryAt w onlyUid key.base ∈ entries w onlyUid :=
  mem_entries.mpr ⟨key.base, key.half, Option.isSome_iff_exists.mpr ⟨scanned, h⟩, rfl⟩

/-- An enumeration without a tampered entry is the list of the entries. -/
theorem flagCollisions_eq_self {units : List OwnedUnit}
    (h : ∀ unit ∈ units, collides units unit = false) :
    flagCollisions units = units := by
  refine (List.map_congr_left fun unit hunit => ?_).trans (List.map_id _)
  rw [h unit hunit, Bool.and_false, if_neg Bool.false_ne_true, id]

theorem entries_untampered
    (h : ∀ unit ∈ pairScannedHalves (scanManagedHalves w onlyUid), unit.state ≠ .tampered)
    {unit : OwnedUnit} (hunit : unit ∈ entries w onlyUid) :
    unit ∈ pairScannedHalves (scanManagedHalves w onlyUid) ∧ unit.state ≠ .tampered ∧
      collides (entries w onlyUid) unit = false := by
  rw [pairScannedHalves_eq, flagCollisions] at h ⊢
  have hflagged := h _ (List.mem_map_of_mem hunit)
  have hkept : (if unit.state ≠ .tampered && collides (entries w onlyUid) unit then
      { unit with
        state := .tampered
        detail := qs "collides with another definition on id or mount point"
        marker := none }
      else unit) = unit := by
    split_ifs at hflagged ⊢
    · exact absurd rfl hflagged
    · rfl
  have hcollides : collides (entries w onlyUid) unit = false := by
    split_ifs at hflagged with hcond
    · exact absurd rfl hflagged
    · rw [Bool.and_eq_true, decide_eq_true_eq, not_and, Bool.not_eq_true] at hcond
      exact hcond hflagged
  rw [hkept] at hflagged
  exact ⟨List.mem_map.mpr ⟨unit, hunit, hkept⟩, hflagged, hcollides⟩

/-- Entries at two base names that do not collide differ in id and mount point. -/
theorem apart_of_not_collides {units : List OwnedUnit} {unit other : OwnedUnit}
    (h : collides units unit = false) (hother : other ∈ units) (hstate : other.state ≠ .tampered)
    (hname : other.unitName ≠ unit.unitName) :
    other.id ≠ unit.id ∧ other.mountPoint ≠ unit.mountPoint := by
  rw [collides, List.any_eq_false] at h
  have hno := h other hother
  simp only [hname, hstate, ne_eq, not_false_eq_true, decide_true, Bool.true_and, Bool.or_eq_true,
    decide_eq_true_eq, not_or] at hno
  exact hno

/-- What a half scanned below an untampered entry says about the entry. -/
theorem entryAt_of_half {base : UnitName} {half : Half} {scanned : ScannedHalf}
    (hscan : scanHalf w onlyUid ⟨base, half⟩ = some scanned)
    (hstate : (entryAt w onlyUid base).state ≠ .tampered) :
    (entryAt w onlyUid base).marker = some scanned.marker ∧
      (entryAt w onlyUid base).mountPoint = scanned.whereValue := by
  unfold entryAt at hstate ⊢
  cases half with
  | mount =>
    have hmount : scanHalf w onlyUid base.mount = some scanned := hscan
    rw [hmount] at hstate ⊢
    cases hautomount : scanHalf w onlyUid base.automount with
    | none => exact ⟨rfl, rfl⟩
    | some other =>
      rw [hautomount, pairGroup_both] at hstate
      rw [pairGroup_both]
      split_ifs at hstate ⊢
      · exact absurd rfl hstate
      · exact ⟨rfl, rfl⟩
  | automount =>
    have hautomount : scanHalf w onlyUid base.automount = some scanned := hscan
    rw [hautomount] at hstate ⊢
    cases hmount : scanHalf w onlyUid base.mount with
    | none => exact ⟨rfl, rfl⟩
    | some other =>
      rw [hmount, pairGroup_both] at hstate
      rw [pairGroup_both]
      split_ifs at hstate ⊢ with hsame
      · exact absurd rfl hstate
      · rw [not_or, not_not, not_not] at hsame
        exact ⟨congrArg some hsame.1, hsame.2⟩

end Entries

end NasMount.Core
