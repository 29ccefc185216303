import NasMount.Core.World

/-!
# Inspecting definitions

The strict inspection of one definition, and the light scan of the unit
directory with its pairing and collision rules. Nothing here changes the state.
-/
namespace NasMount.Core

open NasMount.Foundation QString

inductive FileProbe
  | missing
  | tampered
  | ok (content : QString)
  deriving DecidableEq

/-- Opens the unit file without following a link and checks the descriptor. -/
def probeUnitFile (w : World) (key : UnitKey) : FileProbe :=
  match w.unit? key with
  | none => .missing
  | some node => if node.rootSafe then .ok node.content else .tampered

def FileProbe.content : FileProbe → QString
  | .ok content => content
  | _ => []

/-- The last assignment of the key wins, wherever in the file it stands. -/
def extractAssignment (content key : QString) : Option QString :=
  (split '\n' content).foldl
    (fun found line => (stripPrefix? (key ++ ['=']) line).or found) none

inductive SideCheck
  | notPresent
  | noMarker
  | broken
  | valid (marker : Marker) (what : QString)
  deriving DecidableEq

/-- The marker of one half, if it is complete and of the expected owner. -/
def parseOwnedMarker (content : QString) (expectedUid : UInt32) : Option Marker :=
  if hasMarker content then
    match parseMarker content with
    | .ok marker => if marker.ownerUid = expectedUid then some marker else none
    | .error _ => none
  else none

/-- One half against its marker and a body validator. -/
def evaluateSide (validateBody : QString → Marker → Except QString QString) (probe : FileProbe)
    (expectedUid : UInt32) : SideCheck :=
  if probe = .missing then .notPresent
  else if !hasMarker probe.content then .noMarker
  else
    match parseOwnedMarker probe.content expectedUid with
    | none => .broken
    | some marker =>
      match validateBody probe.content marker with
      | .ok what => .valid marker what
      | .error _ => .broken

def evaluateMountSide (probe : FileProbe) (expectedUid : UInt32) (canonicalMountPoint : QString) :
    SideCheck :=
  evaluateSide (fun content marker => validateMountUnitBody content marker canonicalMountPoint)
    probe expectedUid

def evaluateAutomountSide (probe : FileProbe) (expectedUid : UInt32)
    (canonicalMountPoint : QString) : SideCheck :=
  evaluateSide
    (fun content marker =>
      (validateAutomountUnitBody content marker canonicalMountPoint).map fun _ => [])
    probe expectedUid

inductive Definition
  | none
  | pair
  /-- Exactly one half exists. -/
  | partialPair
  | tampered
  | notOurs
  deriving DecidableEq, Repr

/-- A definition the caller may act on. -/
def Definition.owned : Definition → Bool
  | .pair | .partialPair => true
  | _ => false

/-- The result of inspecting a definition. The identity fields come from a
validated marker or not at all. -/
structure DefinitionCheck where
  state : Definition
  marker : Option Marker := none
  canonicalMountPoint : QString
  what : QString := []
  reason : QString := []
  detail : QString := []
  deriving DecidableEq

def combineSides (mountSide automountSide : SideCheck) (canonicalMountPoint : QString) :
    DefinitionCheck :=
  if mountSide = .broken ∨ automountSide = .broken then
    { state := .tampered, canonicalMountPoint := canonicalMountPoint
      reason := qs "marker-or-body-invalid"
      detail :=
        qs "marker incomplete, owner-uid mismatched, or the unit body does not match the " ++
          qs "restricted template" }
  else if mountSide = .noMarker ∨ automountSide = .noMarker then
    { state := .notOurs, canonicalMountPoint := canonicalMountPoint, reason := qs "not-ours"
      detail := qs "a unit already exists at this name and is not managed by this tool" }
  else
    match mountSide, automountSide with
    | .valid marker what, .valid marker' _ =>
      if marker ≠ marker' then
        { state := .tampered, canonicalMountPoint := canonicalMountPoint
          reason := qs "pair-marker-mismatch"
          detail := qs "the pair disagrees on a marker field" }
      else
        { state := .pair, marker := some marker, canonicalMountPoint := canonicalMountPoint
          what := what }
    | .valid marker what, _ | _, .valid marker what =>
      { state := .partialPair, marker := some marker, canonicalMountPoint := canonicalMountPoint
        what := what, reason := qs "partial", detail := qs "only one half of the pair exists" }
    | _, _ => { state := .none, canonicalMountPoint := canonicalMountPoint }

/-- Inspect the two unit files of a definition: safe files, no drop-in, one
complete marker, and bodies that match the template for that marker. -/
def inspectDefinition (w : World) (base : UnitName) (expectedUid : UInt32)
    (canonicalMountPoint : QString) : DefinitionCheck :=
  let mountProbe := probeUnitFile w base.mount
  let automountProbe := probeUnitFile w base.automount
  if mountProbe = .tampered ∨ automountProbe = .tampered then
    { state := .tampered, canonicalMountPoint := canonicalMountPoint, reason := qs "unsafe-file"
      detail :=
        qs "unit file is a symlink, not a regular root-owned file, or is group/world-writable" }
  else if w.dropIns base.mount ∨ w.dropIns base.automount then
    { state := .tampered, canonicalMountPoint := canonicalMountPoint
      reason := qs "drop-in-present"
      detail := qs "a drop-in exists for this unit; drop-ins are rejected outright" }
  else if mountProbe = .missing ∧ automountProbe = .missing then
    { state := .none, canonicalMountPoint := canonicalMountPoint }
  else
    combineSides (evaluateMountSide mountProbe expectedUid canonicalMountPoint)
      (evaluateAutomountSide automountProbe expectedUid canonicalMountPoint) canonicalMountPoint

section Inspection

/-- The verdict on one half. -/
def sideAt (w : World) (expectedUid : UInt32) (mountPoint : QString) (key : UnitKey) : SideCheck :=
  match key.half with
  | .mount => evaluateMountSide (probeUnitFile w key) expectedUid mountPoint
  | .automount => evaluateAutomountSide (probeUnitFile w key) expectedUid mountPoint

theorem evaluateSide_missing (validateBody) (uid : UInt32) :
    evaluateSide validateBody .missing uid = .notPresent := rfl

theorem evaluateSide_tampered (validateBody) (uid : UInt32) :
    evaluateSide validateBody .tampered uid = .noMarker := rfl

/-- Everything a valid half says about its file. -/
theorem evaluateSide_eq_valid {validateBody} {probe : FileProbe} {uid : UInt32} {marker : Marker}
    {what : QString} :
    evaluateSide validateBody probe uid = .valid marker what ↔
      ∃ content, probe = .ok content ∧ parseMarker content = .ok marker ∧ marker.ownerUid = uid ∧
        validateBody content marker = .ok what := by
  constructor
  · intro h
    cases probe with
    | missing => exact absurd h (by simp [evaluateSide_missing])
    | tampered => exact absurd h (by simp [evaluateSide_tampered])
    | ok content =>
      by_cases hmarker : hasMarker content = true
      · cases hparse : parseMarker content with
        | error e =>
          simp [evaluateSide, FileProbe.content, parseOwnedMarker, hmarker, hparse] at h
        | ok parsed =>
          by_cases howner : parsed.ownerUid = uid
          · cases hbody : validateBody content parsed with
            | error e =>
              simp [evaluateSide, FileProbe.content, parseOwnedMarker, hmarker, hparse, howner,
                hbody] at h
            | ok result =>
              simp only [evaluateSide, FileProbe.content, parseOwnedMarker, hmarker, hparse, howner,
                hbody, reduceCtorEq, Bool.not_true, Bool.false_eq_true, if_true, if_false,
                SideCheck.valid.injEq] at h
              obtain ⟨rfl, rfl⟩ := h
              exact ⟨content, rfl, hparse, howner, hbody⟩
          · simp [evaluateSide, FileProbe.content, parseOwnedMarker, hmarker, hparse, howner] at h
      · simp [evaluateSide, FileProbe.content, hmarker] at h
  · rintro ⟨content, rfl, hparse, howner, hbody⟩
    simp [evaluateSide, FileProbe.content, parseOwnedMarker,
      hasMarker_of_parseMarker hparse, hparse, howner, hbody]

theorem evaluateSide_eq_notPresent {validateBody} {probe : FileProbe} {uid : UInt32} :
    evaluateSide validateBody probe uid = .notPresent ↔ probe = .missing := by
  constructor
  · intro h
    unfold evaluateSide at h
    split_ifs at h with hmissing
    · exact hmissing
    · split at h
      · cases h
      · split at h <;> cases h
  · rintro rfl
    rfl

theorem probeUnitFile_eq_missing {w : World} {key : UnitKey} :
    probeUnitFile w key = .missing ↔ w.unit? key = none := by
  unfold probeUnitFile
  cases w.unit? key with
  | none => simp
  | some node => by_cases h : node.rootSafe <;> simp [h]

theorem sideAt_eq_notPresent {w : World} {uid : UInt32} {mp : QString} {key : UnitKey} :
    sideAt w uid mp key = .notPresent ↔ w.unit? key = none := by
  rw [← probeUnitFile_eq_missing]
  unfold sideAt
  cases key.half <;> exact evaluateSide_eq_notPresent

/-- The halves of an owned definition: no drop-in, at least one file, and every
file valid for one marker. -/
structure OwnedHalves (w : World) (base : UnitName) (uid : UInt32) (mountPoint : QString)
    (marker : Marker) : Prop where
  noDropIn : ∀ half, w.dropIns ⟨base, half⟩ = false
  valid : ∀ half, w.unit? ⟨base, half⟩ = none ∨
    ∃ what, sideAt w uid mountPoint ⟨base, half⟩ = .valid marker what
  present : ∃ half, w.unit? ⟨base, half⟩ ≠ none

theorem combineSides_owned {mountSide automountSide : SideCheck} {mp : QString} {marker : Marker} :
    (combineSides mountSide automountSide mp).state.owned = true ∧
        (combineSides mountSide automountSide mp).marker = some marker ↔
      (mountSide = .notPresent ∨ ∃ what, mountSide = .valid marker what) ∧
        (automountSide = .notPresent ∨ ∃ what, automountSide = .valid marker what) ∧
        (mountSide ≠ .notPresent ∨ automountSide ≠ .notPresent) := by
  cases mountSide <;> cases automountSide <;> simp [combineSides, Definition.owned]
  split_ifs with h
  · simp
    grind
  · simp
    grind

theorem probe_of_sideAt_valid {w : World} {uid : UInt32} {mp : QString} {key : UnitKey}
    {marker : Marker} {what : QString} (h : sideAt w uid mp key = .valid marker what) :
    ∃ content, probeUnitFile w key = .ok content ∧ parseMarker content = .ok marker ∧
      marker.ownerUid = uid := by
  unfold sideAt at h
  cases hhalf : key.half <;> rw [hhalf] at h <;>
    obtain ⟨content, hprobe, hparse, howner, -⟩ := evaluateSide_eq_valid.mp h <;>
    exact ⟨content, hprobe, hparse, howner⟩

theorem OwnedHalves.probe_ne_tampered {w : World} {base : UnitName} {uid : UInt32} {mp : QString}
    {marker : Marker} (h : OwnedHalves w base uid mp marker) (half : Half) :
    probeUnitFile w ⟨base, half⟩ ≠ .tampered := by
  rcases h.valid half with hnone | ⟨what, hvalid⟩
  · rw [probeUnitFile_eq_missing.mpr hnone]
    exact fun hne => nomatch hne
  · obtain ⟨content, hprobe, -⟩ := probe_of_sideAt_valid hvalid
    rw [hprobe]
    exact fun hne => nomatch hne

theorem OwnedHalves.ownerUid {w : World} {base : UnitName} {uid : UInt32} {mp : QString}
    {marker : Marker} (h : OwnedHalves w base uid mp marker) : marker.ownerUid = uid := by
  obtain ⟨half, hpresent⟩ := h.present
  obtain ⟨what, hvalid⟩ := (h.valid half).resolve_left hpresent
  obtain ⟨content, -, -, howner⟩ := probe_of_sideAt_valid hvalid
  exact howner

theorem inspectDefinition_of_ownedHalves {w : World} {base : UnitName} {uid : UInt32} {mp : QString}
    {marker : Marker} (h : OwnedHalves w base uid mp marker) :
    inspectDefinition w base uid mp =
      combineSides (sideAt w uid mp base.mount) (sideAt w uid mp base.automount) mp := by
  have hmissing : ¬(probeUnitFile w base.mount = .missing ∧
      probeUnitFile w base.automount = .missing) := by
    rw [probeUnitFile_eq_missing, probeUnitFile_eq_missing]
    rintro ⟨hm, ha⟩
    obtain ⟨half, hpresent⟩ := h.present
    cases half
    · exact hpresent hm
    · exact hpresent ha
  have htampered : ¬(probeUnitFile w base.mount = .tampered ∨
      probeUnitFile w base.automount = .tampered) :=
    not_or.mpr ⟨h.probe_ne_tampered .mount, h.probe_ne_tampered .automount⟩
  have hdrop : ¬(w.dropIns base.mount = true ∨ w.dropIns base.automount = true) :=
    not_or.mpr ⟨Bool.eq_false_iff.mp (h.noDropIn .mount),
      Bool.eq_false_iff.mp (h.noDropIn .automount)⟩
  unfold inspectDefinition
  dsimp only
  rw [if_neg htampered, if_neg hdrop, if_neg hmissing]
  rfl

/-- The inspection finds an owned definition exactly when its halves are fine. -/
theorem inspectDefinition_owned_iff {w : World} {base : UnitName} {uid : UInt32} {mp : QString}
    {marker : Marker} :
    (inspectDefinition w base uid mp).state.owned = true ∧
        (inspectDefinition w base uid mp).marker = some marker ↔
      OwnedHalves w base uid mp marker := by
  constructor
  · rintro ⟨howned, hmarker⟩
    unfold inspectDefinition at howned hmarker
    dsimp only at howned hmarker
    split_ifs at howned hmarker with htampered hdrop hmissing
    obtain ⟨hm, ha, hsome⟩ := combineSides_owned.mp ⟨howned, hmarker⟩
    rw [not_or] at htampered hdrop
    refine ⟨?_, ?_, ?_⟩
    · intro half
      cases half
      · exact Bool.eq_false_iff.mpr hdrop.1
      · exact Bool.eq_false_iff.mpr hdrop.2
    · intro half
      cases half
      · exact hm.imp_left sideAt_eq_notPresent.mp
      · exact ha.imp_left sideAt_eq_notPresent.mp
    · rcases hsome with h | h
      · exact ⟨.mount, fun hnone => h (sideAt_eq_notPresent.mpr hnone)⟩
      · exact ⟨.automount, fun hnone => h (sideAt_eq_notPresent.mpr hnone)⟩
  · intro h
    rw [inspectDefinition_of_ownedHalves h, combineSides_owned]
    refine ⟨(h.valid .mount).imp_left sideAt_eq_notPresent.mpr,
      (h.valid .automount).imp_left sideAt_eq_notPresent.mpr, ?_⟩
    obtain ⟨half, hpresent⟩ := h.present
    cases half
    · exact Or.inl fun hside => hpresent (sideAt_eq_notPresent.mp hside)
    · exact Or.inr fun hside => hpresent (sideAt_eq_notPresent.mp hside)

theorem sideAt_congr {w w' : World} {key : UnitKey} (h : w'.unit? key = w.unit? key)
    (uid : UInt32) (mp : QString) : sideAt w' uid mp key = sideAt w uid mp key := by
  simp only [sideAt, probeUnitFile, h]

/-- Removing files keeps an owned definition owned while one half is left. -/
theorem OwnedHalves.of_fewer {w w' : World} {base : UnitName} {uid : UInt32} {mp : QString}
    {marker : Marker} (h : OwnedHalves w base uid mp marker) (hdrop : w'.dropIns = w.dropIns)
    (hfewer : ∀ half, w'.unit? ⟨base, half⟩ = none ∨
      w'.unit? ⟨base, half⟩ = w.unit? ⟨base, half⟩)
    (hpresent : ∃ half, w'.unit? ⟨base, half⟩ ≠ none) : OwnedHalves w' base uid mp marker where
  noDropIn half := by rw [hdrop, h.noDropIn]
  valid half := by
    rcases hfewer half with hnone | hsame
    · exact Or.inl hnone
    · rw [hsame, sideAt_congr hsame]
      exact h.valid half
  present := hpresent

/-- The share address a side carries; an automount half carries none. -/
def SideCheck.what : SideCheck → QString
  | .valid _ what => what
  | _ => []

theorem evaluateAutomountSide_what {probe : FileProbe} {uid : UInt32} {mp : QString}
    {marker : Marker} {what : QString}
    (h : evaluateAutomountSide probe uid mp = .valid marker what) : what = [] := by
  obtain ⟨content, -, -, -, hbody⟩ := evaluateSide_eq_valid.mp h
  cases hvalid : validateAutomountUnitBody content marker mp with
  | error e => simp [hvalid, Except.map] at hbody
  | ok u => simpa [hvalid, Except.map, eq_comm] using hbody

theorem combineSides_what {mountSide automountSide : SideCheck} {mp : QString} {marker : Marker}
    (hm : mountSide = .notPresent ∨ ∃ what, mountSide = .valid marker what)
    (ha : automountSide = .notPresent ∨ automountSide = .valid marker []) :
    (combineSides mountSide automountSide mp).what = mountSide.what := by
  rcases hm with rfl | ⟨what, rfl⟩ <;> rcases ha with rfl | rfl <;>
    simp [combineSides, SideCheck.what]

theorem inspectDefinition_what {w : World} {base : UnitName} {uid : UInt32} {mp : QString}
    {marker : Marker} (h : OwnedHalves w base uid mp marker) :
    (inspectDefinition w base uid mp).what = (sideAt w uid mp base.mount).what := by
  rw [inspectDefinition_of_ownedHalves h]
  refine combineSides_what ((h.valid .mount).imp_left sideAt_eq_notPresent.mpr) ?_
  rcases h.valid .automount with hnone | ⟨what, hvalid⟩
  · exact Or.inl (sideAt_eq_notPresent.mpr hnone)
  · obtain rfl := evaluateAutomountSide_what hvalid
    exact Or.inr hvalid

/-- An owned definition always comes with a validated marker. -/
theorem inspectDefinition_marker {w : World} {base : UnitName} {uid : UInt32} {mp : QString}
    (howned : (inspectDefinition w base uid mp).state.owned = true) :
    ∃ marker, (inspectDefinition w base uid mp).marker = some marker ∧
      OwnedHalves w base uid mp marker := by
  cases hmarker : (inspectDefinition w base uid mp).marker with
  | some marker => exact ⟨marker, rfl, inspectDefinition_owned_iff.mp ⟨howned, hmarker⟩⟩
  | none =>
    exfalso
    unfold inspectDefinition at howned hmarker
    dsimp only at howned hmarker
    split_ifs at howned hmarker
    all_goals try (simp [Definition.owned] at howned; done)
    revert howned hmarker
    generalize evaluateMountSide (probeUnitFile w base.mount) uid mp = mountSide
    generalize evaluateAutomountSide (probeUnitFile w base.automount) uid mp = automountSide
    cases mountSide <;> cases automountSide <;> simp [combineSides, Definition.owned]
    split_ifs <;> simp

end Inspection

section Enumeration

/-- One managed unit half found while scanning. -/
structure ScannedHalf where
  key : UnitKey
  marker : Marker
  whereValue : QString
  what : QString
  deriving DecidableEq

/-- One base name's owned units, after pairing. A tampered entry carries no
marker: `id`, owner, authentication and access are then at their defaults. -/
structure OwnedUnit where
  unitName : UnitName
  state : Definition
  mountPoint : QString := []
  marker : Option Marker := none
  detail : QString := []
  what : QString := []
  deriving DecidableEq

namespace OwnedUnit

variable (unit : OwnedUnit)

def id : Option ShareId := unit.marker.map (·.id)

def ownerUid : UInt32 := (unit.marker.map (·.ownerUid)).getD 0

def ownerGid : UInt32 := (unit.marker.map (·.ownerGid)).getD 0

def authentication : AuthenticationKind := (unit.marker.map (·.authentication)).getD .credentials

def access : AccessMode := (unit.marker.map (·.access)).getD .readWrite

end OwnedUnit

/-- The files the directory listing shows, in the order of the table. -/
def unitFiles (w : World) : List UnitKey :=
  w.units.keys.filter fun key => (w.unit? key).any fun node => node.kind.isFile

/-- A file of the listing whose marker parses to the id. -/
def carries (w : World) (id : ShareId) (key : UnitKey) : Bool :=
  (w.unit? key).any fun node => node.kind.isFile &&
    match parseMarker node.content with
    | .ok marker => marker.id = id
    | .error _ => false

/-- One turn of the scan: a safe file with a complete marker and a `Where=`. -/
def scanHalf (w : World) (onlyUid : Option UInt32) (key : UnitKey) : Option ScannedHalf :=
  match probeUnitFile w key with
  | .ok content =>
    match parseMarker content with
    | .error _ => none
    | .ok marker =>
      if onlyUid.any (· ≠ marker.ownerUid) then none
      else
        (extractAssignment content (qs "Where")).map fun whereRaw =>
          { key := key, marker := marker, whereValue := undouble '%' whereRaw
            what :=
              match key.half with
              | .mount => undouble '%' ((extractAssignment content (qs "What")).getD [])
              | .automount => [] }
  | _ => none

/-- The light scan, optionally restricted to one owner. -/
def scanManagedHalves (w : World) (onlyUid : Option UInt32) : List ScannedHalf :=
  (unitFiles w).filterMap (scanHalf w onlyUid)

/-- The half a group keeps for one file name: the last one scanned. -/
def lastHalf (halves : List ScannedHalf) (key : UnitKey) : Option ScannedHalf :=
  (halves.filter fun half => half.key = key).getLast?

/-- The entry of a single half. -/
def onlyHalf (half : ScannedHalf) : OwnedUnit where
  unitName := half.key.base
  state := .partialPair
  mountPoint := half.whereValue
  marker := some half.marker
  detail := qs "only one half of the pair exists"
  what :=
    match half.key.half with
    | .mount => half.what
    | .automount => []

/-- The entry of one base name. -/
def pairGroup (base : UnitName) : Option ScannedHalf → Option ScannedHalf → OwnedUnit
  | some mountHalf, some automountHalf =>
    if mountHalf.marker ≠ automountHalf.marker ∨
        mountHalf.whereValue ≠ automountHalf.whereValue then
      { unitName := base, state := .tampered
        detail := qs "the pair disagrees on a marker field or Where=" }
    else
      { unitName := base, state := .pair, mountPoint := mountHalf.whereValue
        marker := some mountHalf.marker, what := mountHalf.what }
  | some half, none => onlyHalf half
  | none, some half => onlyHalf half
  | none, none => { unitName := base, state := .none }

/-- Another entry claims the same id or the same mount point. -/
def collides (units : List OwnedUnit) (unit : OwnedUnit) : Bool :=
  units.any fun other => other.unitName ≠ unit.unitName && other.state ≠ .tampered &&
    (other.id = unit.id || other.mountPoint = unit.mountPoint)

/-- The second pass: every entry that collides is surfaced as tampered. -/
def flagCollisions (units : List OwnedUnit) : List OwnedUnit :=
  units.map fun unit =>
    if unit.state ≠ .tampered && collides units unit then
      { unit with
        state := .tampered
        detail := qs "collides with another definition on id or mount point"
        marker := none }
    else unit

/-- The distinct base names, in the order of the map. -/
def baseNames (halves : List ScannedHalf) : List UnitName :=
  (halves.map fun half => half.key.base).dedup.insertionSort fun a b => a.text ≤ b.text

/-- Grouping, pairing and collision rules over scanned halves. -/
def pairScannedHalves (halves : List ScannedHalf) : List OwnedUnit :=
  flagCollisions <| (baseNames halves).map fun base =>
    pairGroup base (lastHalf halves base.mount) (lastHalf halves base.automount)

def enumerateOwnedUnits (w : World) (uid : UInt32) : List OwnedUnit :=
  pairScannedHalves (scanManagedHalves w (some uid))

/-- Every owner's units, for the boot arming and the purge. -/
def enumerateManagedUnits (w : World) : List OwnedUnit :=
  pairScannedHalves (scanManagedHalves w none)

theorem scanHalf_key {w : World} {onlyUid : Option UInt32} {key : UnitKey} {half : ScannedHalf}
    (h : scanHalf w onlyUid key = some half) : half.key = key := by
  unfold scanHalf at h
  cases hprobe : probeUnitFile w key with
  | missing => simp [hprobe] at h
  | tampered => simp [hprobe] at h
  | ok content =>
    simp only [hprobe] at h
    cases hparse : parseMarker content with
    | error e => simp [hparse] at h
    | ok marker =>
      simp only [hparse] at h
      split_ifs at h
      obtain ⟨whereRaw, -, rfl⟩ := Option.map_eq_some_iff.mp h
      rfl

theorem mem_unitFiles_of_probe {w : World} {key : UnitKey} {content : QString}
    (h : probeUnitFile w key = .ok content) : key ∈ unitFiles w := by
  unfold probeUnitFile at h
  cases hnode : w.unit? key with
  | none => simp [hnode] at h
  | some node =>
    by_cases hsafe : node.rootSafe = true
    · have hkind : node.kind = .regular := by
        simp only [FileNode.rootSafe, Bool.and_eq_true, decide_eq_true_eq] at hsafe
        exact hsafe.1.1
      exact List.mem_filter.mpr ⟨mem_keys_of_lookup hnode, by simp [hnode, hkind, FileKind.isFile]⟩
    · simp [hnode, hsafe] at h

theorem probe_of_scanHalf {w : World} {onlyUid : Option UInt32} {key : UnitKey} {half : ScannedHalf}
    (h : scanHalf w onlyUid key = some half) : ∃ content, probeUnitFile w key = .ok content := by
  unfold scanHalf at h
  cases hprobe : probeUnitFile w key with
  | ok content => exact ⟨content, rfl⟩
  | missing => simp [hprobe] at h
  | tampered => simp [hprobe] at h

theorem filter_filterMap_key {f : UnitKey → Option ScannedHalf}
    (hf : ∀ key half, f key = some half → half.key = key) {keys : List UnitKey}
    (hnodup : keys.Nodup) (key : UnitKey) :
    (keys.filterMap f).filter (fun half => half.key = key) =
      if key ∈ keys then (f key).toList else [] := by
  induction keys with
  | nil => rfl
  | cons k ks ih =>
    rw [List.nodup_cons] at hnodup
    cases hk : f k with
    | none =>
      rw [List.filterMap_cons_none hk, ih hnodup.2]
      by_cases hkey : key = k
      · subst hkey
        simp [hnodup.1, hk]
      · simp [hkey]
    | some half =>
      rw [List.filterMap_cons_some hk, List.filter_cons, ih hnodup.2]
      by_cases hkey : key = k
      · subst hkey
        simp [hf _ _ hk, hnodup.1, hk]
      · simp [hf _ _ hk, Ne.symm hkey, hkey]

/-- The scan keeps, for one file name, what it read from that file. -/
theorem lastHalf_scanManagedHalves (w : World) (onlyUid : Option UInt32) (key : UnitKey) :
    lastHalf (scanManagedHalves w onlyUid) key = scanHalf w onlyUid key := by
  have hnodup : (unitFiles w).Nodup := w.units.nodupKeys.filter _
  rw [lastHalf, scanManagedHalves, filter_filterMap_key (fun _ _ => scanHalf_key) hnodup]
  split_ifs with hmem
  · cases scanHalf w onlyUid key <;> rfl
  · cases hscan : scanHalf w onlyUid key with
    | none => rfl
    | some half =>
      obtain ⟨content, hprobe⟩ := probe_of_scanHalf hscan
      exact absurd (mem_unitFiles_of_probe hprobe) hmem

end Enumeration

end NasMount.Core
