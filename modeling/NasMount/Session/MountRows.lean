import NasMount.Session.MountModel

/-!
# The rows of the list

What comes out of a refresh: a row for every definition of the scan beside its own
record and its own health, a row for every record that no definition has the id
of, and a row for every other share that is mounted.
-/
namespace NasMount.Session

open NasMount.Foundation NasMount.Core NasMount.Root QString

/-- The key of a record. -/
def snapKey (snap : Store.Snapshot) : Option QString := idKey snap.share.id

section Keys

variable {host : Host} {reads : UnitName → ReadSite → Outcome} {uid : UInt32} {w : World}
  {unit : OwnedUnit} {snap : Store.Snapshot}
  {entry : Inventory.ShareRecord} {row : Row} {config : Config}

theorem text_ne_nil (id : ShareId) : id.text ≠ [] := by
  intro hnil
  have hvalid := id.valid
  rw [hnil] at hvalid
  exact nomatch hvalid

theorem idKey_text (id : ShareId) : idKey id.text = some id.text := if_neg (text_ne_nil id)

theorem key_unitRow : (unitRow w reads unit).key = unit.id.map ShareId.text := by
  change idKey ((unit.id.map ShareId.text).getD []) = _
  cases unit.id with
  | none => rfl
  | some id => exact idKey_text id

theorem id_mergeSnapshot (snap : Store.Snapshot) (row : Row) :
    (mergeSnapshot snap row).id = row.id := by
  unfold mergeSnapshot
  dsimp only
  split_ifs <;> rfl

theorem id_mergeHealth (entry : Inventory.ShareRecord) (row : Row) :
    (mergeHealth entry row).id = row.id := by
  unfold mergeHealth
  dsimp only
  split_ifs <;> rfl

theorem id_storeRow (host : Host) (uid : UInt32) (w : World) (snap : Store.Snapshot) :
    (storeRow host uid w snap).id = snap.share.id := by
  unfold storeRow
  dsimp only [Row.classified]
  split_ifs
  · rfl
  · cases host.escape (cleanPath snap.share.mountPoint) with
    | none => rfl
    | some base =>
      dsimp only
      cases (inspectDefinition w base uid (cleanPath snap.share.mountPoint)).state <;> rfl

/-- Exactly the entries that can be acted on have a marker. -/
theorem entryAt_owned {onlyUid : Option UInt32} {base : UnitName} :
    (entryAt w onlyUid base).state.owned = (entryAt w onlyUid base).marker.isSome := by
  unfold entryAt
  cases hmount : scanHalf w onlyUid base.mount with
  | none => cases hautomount : scanHalf w onlyUid base.automount <;> rfl
  | some half =>
    cases hautomount : scanHalf w onlyUid base.automount with
    | none => rfl
    | some other =>
      rw [pairGroup_both]
      split_ifs <;> rfl

theorem owned_eq_id {onlyUid : Option UInt32}
    (h : unit ∈ pairScannedHalves (scanManagedHalves w onlyUid)) :
    unit.state.owned = unit.id.isSome := by
  rw [pairScannedHalves_eq, flagCollisions, List.mem_map] at h
  obtain ⟨entry, hentry, rfl⟩ := h
  obtain ⟨base, half, -, rfl⟩ := mem_entries.1 hentry
  split_ifs with hcollides
  · rfl
  · rw [entryAt_owned, OwnedUnit.id, Option.isSome_map]

theorem owned_of_id {onlyUid : Option UInt32} {id : ShareId}
    (h : unit ∈ pairScannedHalves (scanManagedHalves w onlyUid)) (hid : unit.id = some id) :
    unit.state.owned = true := by
  rw [owned_eq_id h, hid]
  rfl

theorem sound_of_owned (h : unit.state.owned = true) : unit.state ≠ .tampered := by
  intro htampered
  rw [htampered] at h
  exact nomatch h

/-- The ids of an enumeration are those of its trusted entries, each at one name. -/
theorem ids_enumerate_nodup (w : World) (uid : UInt32) :
    ((enumerateOwnedUnits w uid).filterMap fun unit => unit.id.map ShareId.text).Nodup := by
  have hnames : (enumerateOwnedUnits w uid).Pairwise fun a b => a.unitName ≠ b.unitName := by
    rw [← List.pairwise_map]
    exact unitNames_nodup _
  rw [List.Nodup, List.pairwise_filterMap]
  apply hnames.imp_of_mem
  intro a b ha hb hname text htext text' htext' hsame
  obtain ⟨id, hid, rfl⟩ := Option.map_eq_some_iff.1 htext
  obtain ⟨id', hid', rfl⟩ := Option.map_eq_some_iff.1 htext'
  obtain rfl : id = id' := ShareId.ext_text hsame
  exact ids_apart ha hb (sound_of_owned (owned_of_id ha hid)) (sound_of_owned (owned_of_id hb hid'))
    hname (hid.trans hid'.symm)

theorem id_snapshotById {id : QString} (h : id ∈ config.keys) :
    (Store.snapshotById config id).share.id = id := by
  rw [← AList.mem_keys, ← AList.lookup_isSome] at h
  obtain ⟨g, hg⟩ := Option.isSome_iff_exists.1 h
  rw [Store.snapshotById, hg]
  rfl

theorem ids_shareSnapshots (config : Config) :
    (Store.shareSnapshots config).map (·.share.id) = config.keys := by
  rw [Store.shareSnapshots, List.map_map]
  exact (List.map_congr_left fun id hid => id_snapshotById hid).trans (List.map_id _)

/-- Ids at different places are different keys. -/
theorem nodup_filterMap_idKey {ids : List QString} (h : ids.Nodup) :
    (ids.filterMap idKey).Nodup := by
  apply h.filterMap
  intro a b key ha hb
  unfold idKey at ha hb
  split_ifs at ha hb
  · exact nomatch ha
  · exact nomatch ha
  · exact nomatch hb
  · exact (Option.some.inj ha).trans (Option.some.inj hb).symm

theorem keys_shareSnapshots_nodup (config : Config) :
    ((Store.shareSnapshots config).filterMap snapKey).Nodup := by
  have hkeys : (Store.shareSnapshots config).filterMap snapKey = config.keys.filterMap idKey := by
    rw [← ids_shareSnapshots, List.filterMap_map]
    rfl
  rw [hkeys]
  exact nodup_filterMap_idKey config.nodupKeys

end Keys

/-- The row of a definition beside its own record. -/
def recordedRow (w : World) (reads : UnitName → ReadSite → Outcome) (config : Config)
    (unit : OwnedUnit) : Row :=
  match unit.id with
  | none => unitRow w reads unit
  | some id =>
    let snap := Store.snapshotById config id.text
    if snap.present then mergeSnapshot snap (unitRow w reads unit) else unitRow w reads unit

/-- The records that no definition has the id of. -/
def orphanRecords (w : World) (uid : UInt32) (config : Config) : List Store.Snapshot :=
  (Store.shareSnapshots config).filter fun snap =>
    !(enumerateOwnedUnits w uid).any fun unit => unit.id.map ShareId.text = some snap.share.id

/-- The row beside the health that was reported under its id. -/
def reportedRow (inventory : Option (List Inventory.ShareRecord)) : Row → Row :=
  Table.settle Row.key (fun entry => idKey entry.id) mergeHealth (inventory.getD [])

/-- The mount points of the definitions, and those of the records without one. -/
def coveredMountPoints (w : World) (uid : UInt32) (config : Config) : List QString :=
  (enumerateOwnedUnits w uid).map (·.mountPoint) ++
    ((orphanRecords w uid config).map (·.share.mountPoint)).filter (· ≠ [])

section Join

variable {host : Host} {uid : UInt32} {w : World} {config : Config} {units : List OwnedUnit}
  {snaps : List Store.Snapshot} {refresh : Refresh} {unit : OwnedUnit}

theorem foldl_addUnit (w : World) (reads : UnitName → ReadSite → Outcome) (units : List OwnedUnit)
    (refresh : Refresh) :
    (units.foldl (addUnit w reads) refresh).toTable =
        (units.map (unitRow w reads)).foldl (Table.append Row.key) refresh.toTable ∧
      (units.foldl (addUnit w reads) refresh).coveredMountPoints =
        refresh.coveredMountPoints ++ units.map (·.mountPoint) := by
  induction units generalizing refresh with
  | nil => exact ⟨rfl, (List.append_nil _).symm⟩
  | cons unit units ih =>
    obtain ⟨htable, hcovered⟩ := ih (addUnit w reads refresh unit)
    refine ⟨htable, ?_⟩
    rw [List.foldl_cons, hcovered, addUnit, List.map_cons, List.append_assoc, List.singleton_append]

theorem key_mergeSnapshot (snap : Store.Snapshot) (row : Row) :
    (mergeSnapshot snap row).key = row.key :=
  congrArg idKey (id_mergeSnapshot snap row)

theorem key_mergeHealth (entry : Inventory.ShareRecord) (row : Row) :
    (mergeHealth entry row).key = row.key :=
  congrArg idKey (id_mergeHealth entry row)

theorem key_storeRow (host : Host) (uid : UInt32) (w : World) (snap : Store.Snapshot) :
    (storeRow host uid w snap).key = snapKey snap :=
  congrArg idKey (id_storeRow host uid w snap)

/-- One record is put into the table under its id. -/
theorem toTable_addSnapshot (refresh : Refresh) (snap : Store.Snapshot) :
    (addSnapshot host uid w refresh snap).toTable =
      Table.put Row.key snapKey mergeSnapshot (storeRow host uid w) refresh.toTable snap := by
  unfold addSnapshot Table.put snapKey
  cases refresh.find (idKey snap.share.id) <;> rfl

theorem toTable_foldl_addSnapshot (refresh : Refresh) :
    (snaps.foldl (addSnapshot host uid w) refresh).toTable =
      snaps.foldl (Table.put Row.key snapKey mergeSnapshot (storeRow host uid w))
        refresh.toTable := by
  induction snaps generalizing refresh with
  | nil => rfl
  | cons snap snaps ih => rw [List.foldl_cons, List.foldl_cons, ih, toTable_addSnapshot]

/-- Only the records that found no row cover their mount point. -/
theorem covered_foldl_addSnapshot (hsound : refresh.toTable.Sound Row.key)
    (hdistinct : (snaps.filterMap snapKey).Nodup) :
    (snaps.foldl (addSnapshot host uid w) refresh).coveredMountPoints =
      refresh.coveredMountPoints ++
        ((Table.unmatched Row.key snapKey refresh.rows snaps).map (·.share.mountPoint)).filter
          (· ≠ []) := by
  induction snaps generalizing refresh with
  | nil => simp [Table.unmatched]
  | cons snap snaps ih =>
    obtain ⟨hnext, hsame⟩ :=
      Table.put_spec key_mergeSnapshot (key_storeRow host uid w) hsound hdistinct
    rw [← toTable_addSnapshot] at hnext hsame
    rw [List.foldl_cons, ih hnext (Table.distinct_tail hdistinct), hsame, Table.unmatched_cons]
    have hmiss :=
      @Table.Sound.find_eq_none QString Row Store.Snapshot _ Row.key snapKey refresh.toTable
      snap hsound
    unfold addSnapshot
    cases hfind : refresh.find (idKey snap.share.id) with
    | some i =>
      have hhit : refresh.rows.any (fun row => Table.meets Row.key snapKey row snap) = true := by
        cases hany : refresh.rows.any (fun row => Table.meets Row.key snapKey row snap) with
        | true => rfl
        | false => exact absurd (hfind.symm.trans (hmiss.2 hany)) (Option.some_ne_none i)
      rw [if_pos hhit]
    | none =>
      rw [hmiss.1 hfind, if_neg Bool.false_ne_true]
      dsimp only
      by_cases hplace : snap.share.mountPoint = []
      · simp [hplace]
      · simp [hplace, List.append_assoc]

/-- A definition takes over the record of its id, if there is one. -/
theorem settle_unitRow (w : World) (reads : UnitName → ReadSite → Outcome) (config : Config)
    (unit : OwnedUnit) :
    Table.settle Row.key snapKey mergeSnapshot (Store.shareSnapshots config)
      (unitRow w reads unit) = recordedRow w reads config unit := by
  unfold recordedRow
  cases hid : unit.id with
  | none =>
    apply Table.settle_of_no_meet
    intro snap _
    rw [Table.meets, key_unitRow, hid]
    cases snapKey snap <;> rfl
  | some id =>
    have hkey : (unitRow w reads unit).key = some id.text := by
      rw [key_unitRow, hid, Option.map_some]
    dsimp only
    by_cases hmem : id.text ∈ config.keys
    · have hpresent : (Store.snapshotById config id.text).present = true := by
        rw [← AList.mem_keys, ← AList.lookup_isSome] at hmem
        obtain ⟨g, hg⟩ := Option.isSome_iff_exists.1 hmem
        rw [Store.snapshotById, hg]
      rw [if_pos hpresent]
      apply Table.settle_of_meet key_mergeSnapshot (keys_shareSnapshots_nodup config)
      · exact List.mem_map_of_mem hmem
      · apply Table.meets_eq_true.2
        refine ⟨id.text, ?_, hkey⟩
        rw [snapKey, id_snapshotById hmem, idKey_text]
    · have habsent : (Store.snapshotById config id.text).present = false := by
        have hnone : config.lookup id.text = none := by
          rw [AList.lookup_eq_none, AList.mem_keys]
          exact hmem
        rw [Store.snapshotById, hnone]
      rw [habsent, if_neg Bool.false_ne_true]
      apply Table.settle_of_no_meet
      intro snap hsnap
      rw [Bool.eq_false_iff]
      intro hmeets
      obtain ⟨k, hitem, hrow⟩ := Table.meets_eq_true.1 hmeets
      rw [hkey, Option.some.injEq] at hrow
      subst hrow
      apply hmem
      rw [← ids_shareSnapshots, List.mem_map]
      refine ⟨snap, hsnap, ?_⟩
      unfold snapKey idKey at hitem
      split_ifs at hitem
      exact Option.some.inj hitem

theorem unmatched_unitRows (w : World) (reads : UnitName → ReadSite → Outcome) (uid : UInt32)
    (config : Config) :
    Table.unmatched Row.key snapKey ((enumerateOwnedUnits w uid).map (unitRow w reads))
      (Store.shareSnapshots config) = orphanRecords w uid config := by
  unfold Table.unmatched orphanRecords
  apply List.filter_congr
  intro snap _
  rw [List.any_map]
  congr 2
  funext unit
  rw [Function.comp_apply, Table.meets, key_unitRow, snapKey, idKey]
  split_ifs with hnil
  · cases hid : unit.id with
    | none => rfl
    | some id => simp [hnil, text_ne_nil]
  · rfl

theorem keys_unitRows_nodup (w : World) (reads : UnitName → ReadSite → Outcome) (uid : UInt32) :
    (((enumerateOwnedUnits w uid).map (unitRow w reads)).filterMap Row.key).Nodup := by
  have hsame : (enumerateOwnedUnits w uid).filterMap (Row.key ∘ unitRow w reads) =
      (enumerateOwnedUnits w uid).filterMap fun unit => unit.id.map ShareId.text := by
    congr 1
    funext unit
    exact key_unitRow
  rw [List.filterMap_map, hsame]
  exact ids_enumerate_nodup w uid

/-- The table once the definitions and the records are in it. -/
theorem table_records (host : Host) (uid : UInt32) (w : World)
    (reads : UnitName → ReadSite → Outcome) (config : Config) :
    let records := (Store.shareSnapshots config).foldl (addSnapshot host uid w)
      ((enumerateOwnedUnits w uid).foldl (addUnit w reads) {})
    records.toTable.Sound Row.key ∧
      records.rows = (enumerateOwnedUnits w uid).map (recordedRow w reads config) ++
        (orphanRecords w uid config).map (storeRow host uid w) ∧
      records.coveredMountPoints = coveredMountPoints w uid config := by
  obtain ⟨htable, hcovered⟩ := foldl_addUnit w reads (enumerateOwnedUnits w uid) {}
  obtain ⟨hsound, hrows⟩ := Table.foldl_append (keys_unitRows_nodup w reads uid)
  rw [← htable] at hsound hrows
  have hdistinct := keys_shareSnapshots_nodup config
  obtain ⟨hsound', hrows'⟩ :=
    Table.foldl_put key_mergeSnapshot (key_storeRow host uid w) hsound hdistinct
  rw [← toTable_foldl_addSnapshot] at hsound' hrows'
  have hcovered' := @covered_foldl_addSnapshot host uid w _ _ hsound hdistinct
  rw [hrows, unmatched_unitRows] at hcovered' hrows'
  have hsettled : ((enumerateOwnedUnits w uid).map (unitRow w reads)).map
      (Table.settle Row.key snapKey mergeSnapshot (Store.shareSnapshots config)) =
        (enumerateOwnedUnits w uid).map (recordedRow w reads config) := by
    rw [List.map_map]
    exact List.map_congr_left fun unit _ => settle_unitRow w reads config unit
  rw [hsettled] at hrows'
  refine ⟨hsound', hrows', ?_⟩
  rw [hcovered', hcovered]
  rfl

/-- The rows of a refresh, source by source. -/
theorem refresh_rows (host : Host) (uid : UInt32) (w : World)
    (reads : UnitName → ReadSite → Outcome)
    (config : Config) (inventory : Option (List Inventory.ShareRecord)) :
    computeRefresh host uid w reads config inventory =
      (((enumerateOwnedUnits w uid).map (recordedRow w reads config) ++
            (orphanRecords w uid config).map (storeRow host uid w)).map (reportedRow inventory) ++
          (unclaimedMounts w (coveredMountPoints w uid config)).map foreignRow).map
            Row.finished := by
  obtain ⟨hsound, hrows, hcovered⟩ := table_records host uid w reads config
  unfold computeRefresh
  dsimp only
  rw [Table.foldl_adjust key_mergeHealth hsound, hrows, hcovered]
  rfl

/-- A refresh is a join of its sources: each definition of the scan once, beside the
record and the health of its id, then each record whose id no definition has, then
the mounted shares at mount points of neither. No id has two rows. -/
theorem computeRefresh_eq_join (host : Host) (uid : UInt32) (w : World)
    (reads : UnitName → ReadSite → Outcome) (config : Config)
    (inventory : Option (List Inventory.ShareRecord)) :
    computeRefresh host uid w reads config inventory =
        (((enumerateOwnedUnits w uid).map (recordedRow w reads config) ++
              (orphanRecords w uid config).map (storeRow host uid w)).map (reportedRow inventory) ++
            (unclaimedMounts w (coveredMountPoints w uid config)).map foreignRow).map Row.finished ∧
      ((computeRefresh host uid w reads config inventory).filterMap Row.key).Nodup := by
  have hrefresh := refresh_rows host uid w reads config inventory
  refine ⟨hrefresh, ?_⟩
  obtain ⟨hsound, hrows, -⟩ := table_records host uid w reads config
  have hkeys := hsound.keys_nodup
  rw [hrows] at hkeys
  have hreported : (fun row => (reportedRow inventory row).key) = Row.key :=
    funext fun row => Table.key_settle key_mergeHealth _ row
  have hforeign : ((unclaimedMounts w (coveredMountPoints w uid config)).map foreignRow).filterMap
    Row.key = [] := by
    rw [List.filterMap_map, List.filterMap_eq_nil_iff]
    exact fun entry _ => rfl
  have hfinished : Row.key ∘ Row.finished = Row.key := rfl
  rw [hrefresh, List.filterMap_map, hfinished, List.filterMap_append, hforeign, List.append_nil,
    List.filterMap_map]
  change (List.filterMap (fun row => (reportedRow inventory row).key) _).Nodup
  rw [hreported]
  exact hkeys

end Join

end NasMount.Session
