import NasMount.Core.Enumeration
import NasMount.Root.Remove

/-!
# Purging everything

`purge` removes all root-owned state of one user. Three scans decide whether it
may start: the enumeration, the raw scan for marker lines, and the strict
inspection of every entry. After that, every runtime is stopped before anything
is removed.
-/
namespace NasMount.Root

open NasMount.Foundation NasMount.Core QString

inductive TreeSite
  | openDir
  | list
  | entry (name : QString)
  | removeDir
  deriving DecidableEq

/-- One entry of a private root goes, if it is an artifact of the program. -/
def removeEntry (root : PrivateRoot) (name : QString) : Prog TreeSite World QString PUnit := do
  let node ← Prog.look fun w => w.file? root name
  match node with
  | none => pure ⟨⟩
  | some node =>
    if node.kind = .directory then
      Prog.raise (qs "refusing to recurse into unexpected subdirectory " ++ root.name ++
        qs "/" ++ name)
    else if node.verified root.entryKind then
      Prog.act (.entry name) (qs "cannot remove " ++ root.name ++ qs "/" ++ name ++ qs ": ")
        fun w => w.dropFile root name
    else Prog.raise (qs "refusing unsafe entry " ++ root.name ++ qs "/" ++ name)

/-- `durableRemoveTree` of a private root. A root that is already absent is fine. -/
def durableRemoveTree (root : PrivateRoot) : Prog TreeSite World QString PUnit := do
  Prog.act .openDir (qs "cannot open " ++ root.name ++ qs ": ") fun w => w
  let dir ← Prog.look fun w => w.root? root
  match dir with
  | none => pure ⟨⟩
  | some dir =>
    if dir.verified root.kind then do
      Prog.act .list (qs "cannot list " ++ root.name ++ qs ": ") fun w => w
      Prog.forEach dir.files.keys (removeEntry root)
      Prog.act .removeDir (qs "cannot remove directory " ++ root.name ++ qs ": ")
        fun w => w.setRoot root none
    else Prog.raise (root.name ++ qs ": " ++ directoryError dir root.kind)

/-- A definition that passed every check of the purge. -/
structure ValidatedUnit where
  unitName : UnitName
  marker : Marker
  mountPoint : QString
  what : QString
  deriving DecidableEq

def checkOwner (uid : UInt32) (unit : OwnedUnit) : Except QString Unit := do
  require (unit.state ≠ .tampered) (qs "cannot purge a tampered or colliding managed definition")
  require (unit.ownerUid = uid) (qs "cannot purge: managed shares belonging to another user exist")

/-- The raw scan does not ignore malformed marker blocks. -/
def checkCandidate (w : World) (validBases : List UnitName) (key : UnitKey) : Except QString Unit :=
  require
    ((w.unit? key).all fun node =>
      !hasMarker node.content || ((parseMarker node.content).isOk && key.base ∈ validBases))
    (qs "cannot purge malformed or unclassified managed unit " ++ key.fileName)

/-- The strict inspection of one entry, under the unit name of its mount point. -/
def validateUnit (host : Host) (w : World) (uid : UInt32) (unit : OwnedUnit) :
    Except QString ValidatedUnit :=
  match host.escape unit.mountPoint with
  | none => .error (qs "systemd-escape failed: ")
  | some base =>
    if base ≠ unit.unitName then .error (qs "managed unit name does not match its mount point")
    else
      let definition := inspectDefinition w base uid unit.mountPoint
      match definition.marker with
      | some marker =>
        if definition.state.owned && unit.id = some marker.id && marker.ownerUid = uid &&
            marker.ownerGid = unit.ownerGid && marker.authentication = unit.authentication then
          .ok { unitName := base, marker := marker, mountPoint := unit.mountPoint
                what := definition.what }
        else .error (qs "managed definition changed during purge validation")
      | none => .error (qs "managed definition changed during purge validation")

/-- The definitions a purge acts on, or why it does not start. -/
def purgeTargets (host : Host) (w : World) (uid : UInt32) :
    Except QString (List ValidatedUnit) := do
  let units := enumerateManagedUnits w
  units.forM (checkOwner uid)
  (unitFiles w).forM (checkCandidate w (units.map OwnedUnit.unitName))
  units.mapM (validateUnit host w uid)

inductive PurgeSite
  | stop (base : UnitName) (site : StopSite)
  | openUnits
  | unlink (base : UnitName) (half : Half)
  | record (base : UnitName) (site : DirSite)
  | credential (base : UnitName) (site : DirSite)
  | reload
  | openEtc
  | openRun
  | tree (root : PrivateRoot) (site : TreeSite)
  deriving DecidableEq

def stopUnit (host : Host) (unit : ValidatedUnit) : Prog PurgeSite World QString PUnit := do
  let result ← Prog.mapSites (.stop unit.unitName)
    (safeStop host unit.unitName unit.mountPoint unit.what)
  match result.refusal with
  | some error => Prog.raise (qs "cannot safely stop " ++ unit.mountPoint ++ qs ": " ++ error)
  | none => pure ⟨⟩

/-- The deletion loop of the purge: the units go before their credential. -/
def purgeUnit (unit : ValidatedUnit) : Prog PurgeSite World QString PUnit := do
  unlinkHalves (PurgeSite.unlink unit.unitName) unit.unitName
  Prog.mapSites (.record unit.unitName) (RuntimeFiles.removeAutomountId unit.unitName)
  Prog.mapSites (.credential unit.unitName) (CredentialStore.remove unit.marker.id)

/-- The private roots go last. -/
def removeRoots : Prog PurgeSite World QString PUnit := do
  openSystemRoot .openEtc (qs "/etc")
  Prog.mapSites (.tree .credentials) (durableRemoveTree .credentials)
  openSystemRoot .openRun (qs "/run")
  Prog.mapSites (.tree .automountIds) (durableRemoveTree .automountIds)
  Prog.mapSites (.tree .runtime) (durableRemoveTree .runtime)

def purge (host : Host) (uid : UInt32) : Prog PurgeSite World QString ℕ := do
  let gate ← Prog.look fun w => purgeTargets host w uid
  let targets ← Prog.ofExcept gate
  Prog.forEach targets (stopUnit host)
  openUnitsDir .openUnits
  Prog.forEach targets purgeUnit
  SystemdOps.daemonReload .reload
  removeRoots
  return targets.length

section Gate

variable {host : Host} {w w' : World} {uid : UInt32}

/-- A listed unit file with a marker line. -/
def Managed (w : World) (key : UnitKey) : Prop :=
  key ∈ unitFiles w ∧ ∃ node, w.unit? key = some node ∧ hasMarker node.content = true

/-- What the three scans establish together, file by file. -/
structure Purgeable (host : Host) (w : World) (uid : UInt32) : Prop where
  sound : ∀ key, Managed w key → ∃ half, scanHalf w none key = some half ∧
    host.escape half.whereValue = some key.base ∧
    OwnedHalves w key.base uid half.whereValue half.marker
  agree : ∀ key key' half half', scanHalf w none key = some half →
    scanHalf w none key' = some half' →
    key.base = key'.base → half.marker = half'.marker ∧ half.whereValue = half'.whereValue
  apart : ∀ key key' half half', scanHalf w none key = some half →
    scanHalf w none key' = some half' →
    key.base ≠ key'.base → half.marker.id ≠ half'.marker.id ∧ half.whereValue ≠ half'.whereValue

theorem managed_of_probe {key : UnitKey} {content : QString} {marker : Marker}
    (hprobe : probeUnitFile w key = .ok content) (hparse : parseMarker content = .ok marker) :
    Managed w key := by
  refine ⟨mem_unitFiles_of_probe hprobe, ?_⟩
  unfold probeUnitFile at hprobe
  cases hnode : w.unit? key with
  | none => simp [hnode] at hprobe
  | some node =>
    simp only [hnode] at hprobe
    split_ifs at hprobe
    obtain rfl := FileProbe.ok.inj hprobe
    exact ⟨node, rfl, hasMarker_of_parseMarker hparse⟩

theorem managed_of_scanHalf {key : UnitKey} {half : ScannedHalf}
    (h : scanHalf w none key = some half) :
    Managed w key := by
  obtain ⟨content, -, hprobe, hparse, -⟩ := scanHalf_eq_some.mp h
  exact managed_of_probe hprobe hparse

theorem managed_of_unit? {key : UnitKey} (h : Managed w' key) (hsame : w'.unit? key = w.unit? key) :
    Managed w key := by
  obtain ⟨hlisted, node, hnode, hmarker⟩ := h
  refine ⟨?_, node, hsame ▸ hnode, hmarker⟩
  have hkind := (List.mem_filter.mp hlisted).2
  rw [hsame] at hkind hnode
  exact List.mem_filter.mpr ⟨mem_keys_of_lookup hnode, hkind⟩

theorem checkOwner_eq_ok {unit : OwnedUnit} :
    checkOwner uid unit = .ok () ↔ unit.state ≠ .tampered ∧ unit.ownerUid = uid := by
  simp only [checkOwner, bind_eq_ok, require_eq_ok, decide_eq_true_eq, exists_const]

theorem checkCandidate_eq_ok {validBases : List UnitName} {key : UnitKey} :
    checkCandidate w validBases key = .ok () ↔
      ∀ node, w.unit? key = some node → hasMarker node.content = true →
        (∃ marker, parseMarker node.content = .ok marker) ∧ key.base ∈ validBases := by
  have hisOk : ∀ content, (parseMarker content).isOk = true ↔
      ∃ marker, parseMarker content = .ok marker :=
    fun content => ⟨exists_eq_ok, fun ⟨marker, h⟩ => by rw [h]; rfl⟩
  simp only [checkCandidate, require_eq_ok, Option.all_eq_true, Bool.or_eq_true,
    Bool.not_eq_true', Bool.and_eq_true, decide_eq_true_eq, hisOk, ← Bool.not_eq_true,
    or_iff_not_imp_left, not_not]

/-- Everything a validated entry says. -/
theorem validateUnit_eq_ok {unit : OwnedUnit} {target : ValidatedUnit} :
    validateUnit host w uid unit = .ok target ↔
      host.escape unit.mountPoint = some unit.unitName ∧
      OwnedHalves w unit.unitName uid unit.mountPoint target.marker ∧
      unit.id = some target.marker.id ∧ target.marker.ownerUid = uid ∧
      target.marker.ownerGid = unit.ownerGid ∧ target.marker.authentication = unit.authentication ∧
      target.unitName = unit.unitName ∧ target.mountPoint = unit.mountPoint ∧
      target.what = (inspectDefinition w unit.unitName uid unit.mountPoint).what := by
  unfold validateUnit
  cases hescape : host.escape unit.mountPoint with
  | none => simp
  | some base =>
    by_cases hbase : base = unit.unitName
    · subst hbase
      simp only [ne_eq, not_true_eq_false, if_false, true_and]
      constructor
      · intro h
        cases hmarker : (inspectDefinition w unit.unitName uid unit.mountPoint).marker with
        | none => simp [hmarker] at h
        | some marker =>
          simp only [hmarker] at h
          split_ifs at h with hchecks
          simp only [Bool.and_eq_true, decide_eq_true_eq] at hchecks
          obtain rfl := Except.ok.inj h
          exact ⟨inspectDefinition_owned_iff.mp ⟨hchecks.1.1.1.1, hmarker⟩, hchecks.1.1.1.2,
            hchecks.1.1.2, hchecks.1.2, hchecks.2, rfl, rfl, rfl⟩
      · rintro ⟨hhalves, hid, huid, hgid, hauth, hname, hpoint, hwhat⟩
        obtain ⟨howned, hmarker⟩ := inspectDefinition_owned_iff.mpr hhalves
        simp only [hmarker, howned, hid, huid, hgid, hauth, decide_true, Bool.and_self, if_true,
          Except.ok.injEq]
        obtain ⟨name, marker, point, what⟩ := target
        dsimp only at hname hpoint hwhat ⊢
        rw [hname, hpoint, hwhat]
    · simp [hbase]

theorem purgeTargets_eq_ok {targets : List ValidatedUnit} :
    purgeTargets host w uid = .ok targets ↔
      (∀ unit ∈ enumerateManagedUnits w, unit.state ≠ .tampered ∧ unit.ownerUid = uid) ∧
      (∀ key ∈ unitFiles w, ∀ node, w.unit? key = some node → hasMarker node.content = true →
        (∃ marker, parseMarker node.content = .ok marker) ∧
          key.base ∈ (enumerateManagedUnits w).map OwnedUnit.unitName) ∧
      List.Forall₂ (fun unit target => validateUnit host w uid unit = .ok target)
        (enumerateManagedUnits w) targets := by
  simp only [purgeTargets, bind_eq_ok, forM_eq_ok, mapM_eq_ok, checkOwner_eq_ok,
    checkCandidate_eq_ok, exists_const]

/-- Where siblings agree, no entry is flagged for a disagreement. -/
theorem entryAt_of_agree (hagree : ∀ key key' half half', scanHalf w none key = some half →
      scanHalf w none key' = some half' → key.base = key'.base →
      half.marker = half'.marker ∧ half.whereValue = half'.whereValue)
    {base : UnitName} : (entryAt w none base).state ≠ .tampered := by
  unfold entryAt
  cases hmount : scanHalf w none base.mount with
  | none =>
    cases hautomount : scanHalf w none base.automount with
    | none => simp [pairGroup]
    | some other => simp [pairGroup, onlyHalf]
  | some half =>
    cases hautomount : scanHalf w none base.automount with
    | none => simp [pairGroup, onlyHalf]
    | some other =>
      obtain ⟨hmarker, hwhere⟩ := hagree _ _ _ _ hmount hautomount rfl
      rw [pairGroup_both, if_neg (by simp [hmarker, hwhere])]
      exact nofun

/-- Sound files pass the gate. -/
theorem Purgeable.targets (h : Purgeable host w uid) :
    ∃ targets, purgeTargets host w uid = .ok targets := by
  have hstate : ∀ base, (entryAt w none base).state ≠ .tampered := fun _ =>
    entryAt_of_agree h.agree
  have hcollides : ∀ unit ∈ entries w none, collides (entries w none) unit = false := by
    intro unit hunit
    obtain ⟨base, half, hsome, rfl⟩ := mem_entries.mp hunit
    obtain ⟨scanned, hscan⟩ := Option.isSome_iff_exists.mp hsome
    rw [collides, List.any_eq_false]
    intro other hother
    obtain ⟨base', half', hsome', rfl⟩ := mem_entries.mp hother
    obtain ⟨scanned', hscan'⟩ := Option.isSome_iff_exists.mp hsome'
    by_cases hbase : base' = base
    · simp [hbase]
    · obtain ⟨hid, hpoint⟩ := h.apart _ _ _ _ hscan' hscan hbase
      obtain ⟨hmarker, hwhere⟩ := entryAt_of_half hscan (hstate _)
      obtain ⟨hmarker', hwhere'⟩ := entryAt_of_half hscan' (hstate _)
      simp [OwnedUnit.id, hmarker, hmarker', hwhere, hwhere', hid, hpoint]
  have henumerate : enumerateManagedUnits w = entries w none := by
    rw [enumerateManagedUnits, pairScannedHalves_eq, flagCollisions_eq_self hcollides]
  have hsound : ∀ unit ∈ entries w none, ∃ scanned key, scanHalf w none key = some scanned ∧
      unit = entryAt w none key.base ∧ unit.marker = some scanned.marker ∧
      host.escape unit.mountPoint = some unit.unitName ∧
      OwnedHalves w unit.unitName uid unit.mountPoint scanned.marker := by
    intro unit hunit
    obtain ⟨base, half, hsome, rfl⟩ := mem_entries.mp hunit
    obtain ⟨scanned, hscan⟩ := Option.isSome_iff_exists.mp hsome
    obtain ⟨hmarker, hwhere⟩ := entryAt_of_half hscan (hstate _)
    obtain ⟨scanned', hscan', hescape, hhalves⟩ := h.sound _ (managed_of_scanHalf hscan)
    rw [hscan, Option.some.injEq] at hscan'
    subst hscan'
    rw [entryAt_unitName, hwhere]
    exact ⟨scanned, _, hscan, rfl, hmarker, hescape, hhalves⟩
  have hvalid : ∃ targets, (entries w none).mapM (validateUnit host w uid) = .ok targets := by
    refine exists_mapM_eq_ok fun unit hunit => ?_
    obtain ⟨scanned, key, -, -, hmarker, hescape, hhalves⟩ := hsound unit hunit
    refine ⟨{ unitName := unit.unitName, marker := scanned.marker, mountPoint := unit.mountPoint
              what := (inspectDefinition w unit.unitName uid unit.mountPoint).what },
      validateUnit_eq_ok.mpr ⟨hescape, hhalves, ?_, hhalves.ownerUid, ?_, ?_, rfl, rfl, rfl⟩⟩
    · rw [OwnedUnit.id, hmarker, Option.map_some]
    · rw [OwnedUnit.ownerGid, hmarker, Option.map_some, Option.getD_some]
    · rw [OwnedUnit.authentication, hmarker, Option.map_some, Option.getD_some]
  obtain ⟨targets, htargets⟩ := hvalid
  refine ⟨targets, purgeTargets_eq_ok.mpr ?_⟩
  rw [henumerate]
  refine ⟨fun unit hunit => ?_, fun key hlisted node hnode hmarker => ?_, mapM_eq_ok.mp htargets⟩
  · obtain ⟨scanned, key, hscan, rfl, hmarker, -, hhalves⟩ := hsound unit hunit
    refine ⟨hstate _, ?_⟩
    rw [OwnedUnit.ownerUid, hmarker, Option.map_some, Option.getD_some]
    exact hhalves.ownerUid
  · obtain ⟨scanned, hscan, -⟩ := h.sound key ⟨hlisted, node, hnode, hmarker⟩
    obtain ⟨content, -, hprobe, hparse, -⟩ := scanHalf_eq_some.mp hscan
    have hcontent : node.content = content := by
      unfold probeUnitFile at hprobe
      rw [hnode] at hprobe
      dsimp only at hprobe
      split_ifs at hprobe
      exact FileProbe.ok.inj hprobe
    exact ⟨⟨_, hcontent ▸ hparse⟩, List.mem_map.mpr
      ⟨_, entryAt_mem hscan, entryAt_unitName _⟩⟩

/-- Removing unit files does not make the rest unfit for a purge. -/
theorem Purgeable.of_fewer (h : Purgeable host w uid) (hdrop : w'.dropIns = w.dropIns)
    (hfewer : ∀ key, w'.unit? key = none ∨ w'.unit? key = w.unit? key) : Purgeable host w' uid := by
  have hback : ∀ {key scanned}, scanHalf w' none key = some scanned →
      scanHalf w none key = some scanned := by
    intro key scanned hscan
    rcases hfewer key with hnone | hsame
    · rw [scanHalf_missing hnone] at hscan
      cases hscan
    · rwa [scanHalf_congr hsame] at hscan
  refine ⟨?_, fun key key' half half' hscan hscan' => h.agree _ _ _ _ (hback hscan) (hback hscan'),
    fun key key' half half' hscan hscan' => h.apart _ _ _ _ (hback hscan) (hback hscan')⟩
  rintro key ⟨hlisted, node, hnode, hmarker⟩
  have hsame : w'.unit? key = w.unit? key := (hfewer key).resolve_left (by rw [hnode]; exact nofun)
  have hmanaged : Managed w key := managed_of_unit? ⟨hlisted, node, hnode, hmarker⟩ hsame
  obtain ⟨scanned, hscan, hescape, hhalves⟩ := h.sound key hmanaged
  refine ⟨scanned, (scanHalf_congr hsame).trans hscan, hescape, ?_⟩
  exact hhalves.of_fewer hdrop (fun half => hfewer _) ⟨key.half, by rw [hnode]; exact nofun⟩

end Gate

end NasMount.Root
