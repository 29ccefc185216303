import NasMount.Session.SessionRuns

/-!
# The removals that the list offers

A row that offers to remove its definition names one call for it. In a settled state
the offer is good: unless something fails underneath, the call ends with the
definition gone, its credential and its record with it, and nothing else touched.
-/
namespace NasMount.Session

open NasMount.Foundation NasMount.Core NasMount.Root QString

inductive AcceptedSite
  | delete (site : DeleteSite)
  | orphan (site : OrphanSite)
  | record (site : RecordSite)
  deriving DecidableEq

/-- The confirmation of the list, once accepted. -/
def onAccepted (host : Host) (caller : Caller) (kind : RemovalKind)
    (targetId targetMountPoint : QString) :
    Prog AcceptedSite (World × Config) QString PUnit :=
  match kind with
  | .delete => Prog.mapSites .delete (deleteShare host caller targetId)
  | .removeOrphan =>
    Prog.onFst (Prog.mapSites .orphan (removeOrphanByPath host caller targetMountPoint))
  | .removeRecord => Prog.mapSites .record (removeOrphanedRecord targetId)

/-- The definition of an id of the user is gone, its credential and its record with
it, and every other is in place. -/
structure TakenAway (uid : UInt32) (id : QString) (s s' : World × Config) : Prop where
  definition : ∀ unit ∈ enumerateOwnedUnits s'.1 uid, unitId unit ≠ id
  credential : ∀ shareId : ShareId, shareId.text = id →
    s'.1.file? .credentials (CredentialStore.fileNameFor shareId) = none
  record : (Store.snapshotById s'.2 id).present = false
  spared : OthersSpared id s.1 s'.1
  records : ∀ other, other ≠ id → Store.snapshotById s'.2 other = Store.snapshotById s.2 other

section Offers

variable {host : Host} {caller : Caller} {uid : UInt32} {w w' : World} {config : Config} {row : Row}
  {reads : UnitName → ReadSite → Outcome} {inventory : Option (List Inventory.ShareRecord)}
  {unit : OwnedUnit} {key : UnitKey} {marker : Marker} {mp what : QString} {shareId : ShareId}

/-- An offer to remove a definition is that of one entry of the scan. -/
theorem unit_of_offered (hrow : row ∈ computeRefresh host uid w reads config inventory)
    (hoffered : row.removal.ofDefinition = true) :
    ∃ unit ∈ enumerateOwnedUnits w uid, row.id = unitId unit ∧ row.mountPoint = unit.mountPoint ∧
      passesUnder w reads unit = true ∧
      row.removal.kind = some (if recorded config unit then .delete else .removeOrphan) := by
  rw [refresh_rows, List.mem_map] at hrow
  obtain ⟨merged, hmerged, rfl⟩ := hrow
  have hremovable := hoffered
  rw [finished_ofDefinition, Bool.and_eq_true] at hremovable
  rw [List.mem_append, List.mem_map, List.mem_map] at hmerged
  rcases hmerged with ⟨source, hsource, rfl⟩ | ⟨entry, -, rfl⟩
  · rcases List.mem_append.1 hsource with hunits | hrecords
    · obtain ⟨unit, hunit, rfl⟩ := List.mem_map.1 hunits
      have hof : OfUnit w reads config unit
          (reportedRow inventory (recordedRow w reads config unit)) :=
        ofUnit_reportedRow hunit
      have hpasses := hof.canRemove.symm.trans hremovable.2
      simp only [Bool.and_eq_true] at hpasses
      have hkind := (rowRemoval_ofDefinition _).2 hoffered
      refine ⟨unit, hunit, hof.same.id, hof.same.mountPoint, hpasses.1.2, ?_⟩
      rw [← hof.hasStoreRecord]
      exact hkind
    · obtain ⟨snap, -, rfl⟩ := List.mem_map.1 hrecords
      have hnone : (reportedRow inventory (storeRow host uid w snap)).canRemoveDefinition = false :=
        (ofRecord_reportedRow snap).removable
      exact absurd (hnone.symm.trans hremovable.2) Bool.false_ne_true
  · exact absurd hremovable.2 Bool.false_ne_true

theorem managed_of_sideAt (h : sideAt w uid mp key = .valid marker what) : Managed w key := by
  obtain ⟨content, hprobe, hparse, -⟩ := probe_of_sideAt_valid h
  exact managed_of_probe hprobe hparse

/-- The scan and the strict inspection find the same address for an entry. -/
theorem what_of_side (h : Orderly host w) (hunit : unit ∈ enumerateOwnedUnits w uid) :
    unit.what = (sideAt w uid unit.mountPoint unit.unitName.mount).what := by
  obtain ⟨key, half, hscan, hbase, -, hwhere⟩ := h.half_of_entry hunit
  obtain ⟨hwhole, howner⟩ := scanHalf_owner.1 hscan
  rcases h.what_of_entry hunit with ⟨mountHalf, hmount, hwhat⟩ | ⟨hnone, hwhat⟩
  · obtain ⟨hwhole', howner'⟩ := scanHalf_owner.1 hmount
    obtain ⟨-, hplace⟩ := h.agree _ _ _ _ hwhole' hwhole hbase.symm
    rw [hwhat, h.what _ _ hwhole', howner', hplace, hwhere]
  · obtain ⟨-, hhalves⟩ := h.scanned hwhole
    rw [hbase, howner, ← hwhere] at hhalves
    rw [hwhat]
    rcases hhalves.valid .mount with hmissing | ⟨what, hvalid⟩
    · have hside : sideAt w uid unit.mountPoint unit.unitName.mount = .notPresent :=
        sideAt_eq_notPresent.2 hmissing
      exact (congrArg SideCheck.what hside).symm
    · -- A valid mount half would have been scanned for the same owner.
      obtain ⟨found, hfound, -⟩ := h.sound _ (managed_of_sideAt hvalid)
      obtain ⟨hsame, -⟩ := h.agree _ _ _ _ hfound hwhole hbase.symm
      have howner' : found.marker.ownerUid = uid := (congrArg Marker.ownerUid hsame).trans howner
      have hscanned := scanHalf_owner.2 ⟨hfound, howner'⟩
      exact absurd (hscanned.symm.trans hnone) (Option.some_ne_none found)

/-- No definition of the id is listed once the halves of the one that had it are gone. -/
theorem unlisted_of_removed (h : Orderly host w) {half : ScannedHalf}
    (hscan : scanHalf w none key = some half) (hthin : Thinned w w')
    (hgone : ∀ side, w'.unit? ⟨key.base, side⟩ = none) :
    ∀ other ∈ enumerateOwnedUnits w' uid, unitId other ≠ half.marker.id.text := by
  intro other hother hid
  obtain ⟨key', half', hscan', -, hmarker, -⟩ := (h.thinned hthin).half_of_entry hother
  rw [unitId, OwnedUnit.id, hmarker] at hid
  have hsame : half'.marker.id = half.marker.id := ShareId.ext_text hid
  have hbefore := (hthin.scanHalf (scanHalf_whole hscan')).2
  have hbase : key'.base = key.base := by
    by_contra hapart
    exact h.apart _ _ _ _ hbefore hscan hapart hsame
  have hmissing : w'.unit? key' = none := by
    have hside := hgone key'.half
    rwa [← hbase] at hside
  exact absurd (hscan'.symm.trans (scanHalf_missing hmissing)) (Option.some_ne_none half')

/-- The helper's removal of an entry that the gate lets pass. -/
theorem Settled.undefine (h : Settled host caller (w, config)) (hprivate : OwnArtifacts w)
    (hunit : unit ∈ enumerateOwnedUnits w caller.uid) (hpasses : passesUnder w reads unit = true) :
    host.escape unit.mountPoint = some unit.unitName ∧
      (inspectDefinition w unit.unitName caller.uid unit.mountPoint).state.owned = true ∧
      ∃ w', (doUndefine host caller unit.mountPoint).run Prog.allOk w = (.returned ⟨⟩, w') ∧
        ∀ config', (Store.snapshotById config' (unitId unit)).present = false →
          (∀ other, other ≠ unitId unit →
            Store.snapshotById config' other = Store.snapshotById config other) →
          TakenAway caller.uid (unitId unit) (w, config) (w', config') := by
  obtain ⟨-, plan, hprepare, hpath⟩ := h.entry hunit
  obtain ⟨key, half, hscan, hbase, hmarker, hwhere⟩ := h.orderly.half_of_entry hunit
  obtain ⟨hwhole, howner⟩ := scanHalf_owner.1 hscan
  obtain ⟨hescape, hhalves⟩ := h.orderly.scanned hwhole
  have hid : unitId unit = half.marker.id.text := by
    rw [unitId, OwnedUnit.id, hmarker]
    rfl
  rw [hbase, howner, ← hwhere] at hhalves
  have hinput := removalInput_of_ownedHalves hhalves
  have hreads : ReadsOf w unit.unitName unit.mountPoint
      (w.readsUnder (reads unit.unitName) unit.unitName unit.mountPoint) := by
    constructor <;> (unfold World.readsUnder; dsimp only; split_ifs <;> simp)
  have hstop : stoppable w unit.unitName unit.mountPoint
      (sideAt w caller.uid unit.mountPoint unit.unitName.mount).what = true := by
    rw [← what_of_side h.orderly hunit]
    apply stoppable_of_reads hreads
    rwa [passesUnder, Bool.not_eq_true'] at hpasses
  let removal : RemovalInput :=
    { shareId := half.marker.id, mountPoint := unit.mountPoint, unitName := unit.unitName
      what := (sideAt w caller.uid unit.mountPoint unit.unitName.mount).what }
  have hdone : Prog.wp Prog.allOk (remove host removal)
      (fun _ => Removed unit.unitName half.marker.id) (fun _ _ => False) (fun _ => False) w :=
    wp_remove_allOk (hprivate .credentials).1 (hprivate .automountIds).1 hstop
  obtain ⟨_, w', hrun, hremoved⟩ := Prog.wp_returns hdone
  have helsewhere : Elsewhere removal w ((remove host removal).run Prog.allOk w).2 :=
    keeps_elsewhere.run_state Prog.allOk ⟨fun _ _ => rfl, fun _ _ => rfl⟩
  have hthin : Thinned w ((remove host removal).run Prog.allOk w).2 :=
    (keeps_remove removal).run_state Prog.allOk (Thinned.refl w)
  rw [hrun] at helsewhere hthin
  refine ⟨by rw [hwhere, hescape, hbase], (inspectDefinition_owned_iff.2 hhalves).1, w', ?_, ?_⟩
  · rw [doUndefine_remove hprepare (by rw [hpath]; exact hinput)]
    exact hrun
  · intro config' hrecord hrecords
    constructor
    · rw [hid]
      apply unlisted_of_removed h.orderly hwhole hthin
      rw [hbase]
      exact hremoved.halves
    · intro shareId htext
      obtain rfl : shareId = half.marker.id := ShareId.ext_text (htext.trans hid)
      exact hremoved.credential
    · exact hrecord
    · exact othersSpared_of_elsewhere helsewhere hhalves rfl hid.symm
    · exact hrecords

/-- Accepted, the removal of an entry without a contradicting record. -/
theorem Settled.accepted (h : Settled host caller (w, config)) (hprivate : OwnArtifacts w)
    (hunit : unit ∈ enumerateOwnedUnits w caller.uid) (hpasses : passesUnder w reads unit = true) :
    ∃ s',
      (onAccepted host caller (if recorded config unit then .delete else .removeOrphan)
        (unitId unit) unit.mountPoint).run Prog.allOk (w, config) = (.returned ⟨⟩, s') ∧
      TakenAway caller.uid (unitId unit) (w, config) s' := by
  obtain ⟨hescape, howned, w', hrun, htaken⟩ := h.undefine hprivate hunit hpasses
  obtain ⟨hagrees, -⟩ := h.entry hunit
  obtain ⟨key, half, -, -, hmarker, -⟩ := h.orderly.half_of_entry hunit
  have hid : unit.id = some half.marker.id := by rw [OwnedUnit.id, hmarker, Option.map_some]
  have htext : unitId unit = half.marker.id.text := by
    rw [unitId, hid]
    rfl
  rw [contradicted, hid, Option.any_some] at hagrees
  have hrecorded : recorded config unit = (Store.snapshotById config (unitId unit)).present := by
    rw [recorded, hid, Option.any_some, htext]
  have hreturns :
    ∀ {Q : World × Config → Prop} {p : Prog AcceptedSite (World × Config) QString PUnit},
      Prog.wp Prog.allOk p (fun _ => Q) (fun _ _ => False) (fun _ => False) (w, config) →
      ∃ s', p.run Prog.allOk (w, config) = (.returned ⟨⟩, s') ∧ Q s' := by
    intro Q p hp
    obtain ⟨_, s', hp, hs'⟩ := Prog.wp_returns hp
    exact ⟨s', hp, hs'⟩
  apply hreturns
  rw [hrecorded]
  cases hpresent : (Store.snapshotById config (unitId unit)).present with
  | true =>
    have hplace : (Store.snapshotById config (unitId unit)).share.mountPoint = unit.mountPoint := by
      rw [← htext] at hagrees
      dsimp only at hagrees
      rw [hpresent, Bool.true_and, Bool.or_eq_false_iff] at hagrees
      exact (storeDefinitionDrift_eq_false.1 hagrees.2).1
    rw [if_pos rfl, onAccepted, Prog.wp_mapSites_allOk]
    unfold deleteShare
    rw [Prog.wp_bind, Prog.wp_act_allOk, Prog.wp_bind, Prog.wp_look]
    simp only [hpresent, Bool.not_true, Bool.false_eq_true, if_false]
    rw [Prog.wp_bind, Prog.wp_act_allOk, Prog.wp_bind, Prog.wp_attempt, Prog.wp_onFst,
      Prog.wp_mapSites_allOk, hplace, Prog.wp_of_run hrun]
    dsimp only
    rw [Prog.wp_bind, Prog.wp_act_allOk, Prog.wp_act_allOk]
    apply htaken
    · exact Store.snapshotById_removeShare_self _ _
    · exact fun _ hne => Store.snapshotById_removeShare_ne hne
  | false =>
    rw [if_neg Bool.false_ne_true, onAccepted, Prog.wp_onFst, Prog.wp_mapSites_allOk]
    unfold removeOrphanByPath
    rw [Prog.wp_bind, Prog.wp_act_allOk, hescape]
    dsimp only
    rw [Prog.wp_bind, Prog.wp_look, if_pos howned, Prog.wp_bind, Prog.wp_act_allOk, Prog.wp_bind,
      Prog.wp_mapSites_allOk, Prog.wp_of_run hrun, Prog.wp_act_allOk]
    exact htaken config hpresent fun _ _ => rfl

end Offers

/-- After any run of a user's session, a removal of a definition that the list offers
can be accepted: unless something fails underneath, the call returns and takes away
that definition alone. -/
theorem offered_removals_complete (qt : Qt) (host : Host) (caller : Caller) (w : World)
    (hnone : ∀ key, ¬Managed w key) (hown : OwnArtifacts w) (calls : List SessionCall)
    (hregular : Runs.Throughout (SessionCall.run qt host caller)
      (SessionCall.Regular caller) (w, ∅) calls) :
    let s := calls.foldl (SessionCall.run qt host caller) (w, ∅)
    ∀ reads inventory, ∀ row ∈ computeRefresh host caller.uid s.1 reads s.2 inventory,
      row.removal.ofDefinition = true → ∃ kind s', row.removal.kind = some kind ∧
        (onAccepted host caller kind row.id row.mountPoint).run Prog.allOk s = (.returned ⟨⟩, s') ∧
        TakenAway caller.uid row.id s s' := by
  intro s reads inventory row hrow hoffered
  have hsettled : Settled host caller s := settled_runs hnone hregular
  have hprivate : OwnArtifacts s.1 := Runs.run_keeps_always
    (I := fun state : World × Config => OwnArtifacts state.1)
    (fun _ call hs => ownArtifacts_run hs call) hown calls
  obtain ⟨unit, hunit, hid, hplace, hpasses, hkind⟩ := unit_of_offered hrow hoffered
  obtain ⟨s', hrun, htaken⟩ := hsettled.accepted hprivate hunit hpasses
  rw [hid, hplace]
  exact ⟨_, s', hkind, hrun, htaken⟩

theorem offered_removals_complete_sample :
    let s := sampleSession.foldl (SessionCall.run ShareAddress.sampleQt sampleHost sampleCaller)
      (World.blank, ∅)
    ∃ row ∈ computeRefresh sampleHost 1000 s.1 (fun _ => Prog.allOk) s.2 none, ∃ kind s',
      row.removal.kind = some kind ∧
        (onAccepted sampleHost sampleCaller kind row.id row.mountPoint).run Prog.allOk s =
          (.returned ⟨⟩, s') ∧ TakenAway 1000 row.id s s' := by
  intro s
  have hoffers : (computeRefresh sampleHost 1000 s.1 (fun _ => Prog.allOk) s.2 none).any
      (fun row => row.removal.ofDefinition) = true := by decide +kernel
  obtain ⟨row, hrow, hoffered⟩ := List.any_eq_true.1 hoffers
  have htaken := offered_removals_complete ShareAddress.sampleQt sampleHost sampleCaller World.blank
    unmanaged_blank ownArtifacts_blank sampleSession sampleSession_regular _ _ row hrow hoffered
  exact ⟨row, hrow, htaken⟩

end NasMount.Session
