import NasMount.Core.Pairing
import NasMount.Foundation.Table
import NasMount.Root.Inventory
import NasMount.Root.Remove
import NasMount.Session.AddShare

/-!
# The list of shares

`computeRefresh` merges the light scan of the unit files, the local records, the
helper's inventory and the mount table into rows, and decides what each row says
and which removal it offers. The rows are built in place through an index of ids,
and what comes out is a join of the four sources.
-/
namespace NasMount.Session

open NasMount.Foundation NasMount.Core NasMount.Root QString

inductive DisplayState
  | inactive
  | armed
  | mounted
  | missingCredentials
  | broken
  | busy
  | foreign
  deriving DecidableEq, Repr

structure RowClassifyInput where
  definitionState : Definition := .none
  authentication : AuthenticationKind := .credentials
  runtime : RuntimeSnapshot := {}
  credentialApplicable : Bool := false
  credentialHealthy : Bool := true
  hasStoreRecord : Bool := false
  storeCorrupt : Bool := false
  drift : Bool := false

structure RowClassification where
  state : DisplayState := .broken
  detail : QString := []
  canRemoveDefinition : Bool := false
  canRemoveLocalRecord : Bool := false
  requiresAdministrator : Bool := false
  deriving DecidableEq

/-- An unhealthy credential blocks an authenticated row whatever its runtime. -/
def credentialUnhealthy (input : RowClassifyInput) : Bool :=
  input.authentication = .credentials && input.credentialApplicable && !input.credentialHealthy

def missingCredentials : RowClassification where
  state := .missingCredentials
  detail := qs "stored credential is missing or unhealthy"
  canRemoveDefinition := true

def classifyRow (input : RowClassifyInput) : RowClassification :=
  if input.definitionState = .none then
    { detail :=
        if input.storeCorrupt then qs "this saved record is missing required data"
        else qs "no definition exists for this saved record"
      canRemoveLocalRecord := input.hasStoreRecord }
  else if input.definitionState = .tampered ∨ input.definitionState = .notOurs then
    { detail := qs "requires administrator repair"
      requiresAdministrator := true, canRemoveLocalRecord := input.hasStoreRecord }
  else if input.drift ∨ input.storeCorrupt then
    { detail :=
        if input.drift then
          qs "saved settings do not match the actual definition - remove the local record, " ++
            qs "then remove the resulting orphan definition"
        else qs "this share's saved convenience data is incomplete - remove the local record"
      canRemoveLocalRecord := true }
  -- The runtime gate is for a pair and for a half.
  else if input.runtime.mount = .indeterminate ∨ input.runtime.automount = .indeterminate then
    { state := .busy
      detail := qs "runtime state could not be determined - refresh and retry" }
  else if input.runtime.mount = .present ∧ input.runtime.verification ≠ .matched then
    { state := .busy
      detail :=
        qs "mounted, but does not correlate with this definition - release it with its owning " ++
          qs "tool, refresh, then retry" }
  else if input.runtime.mount ≠ .present ∧ input.runtime.automount = .active ∧
      input.runtime.activationTrust ≠ .trusted then
    { detail :=
        qs "automount is active, but its instance id does not match what was recorded - reboot " ++
          qs "or seek administrator help; never stopped or adopted automatically"
      requiresAdministrator := true }
  else if input.definitionState = .partialPair then
    { detail := qs "only one half of the pair exists - remove it, it is never repaired"
      canRemoveDefinition := true }
  else if input.runtime.mount = .present then
    if credentialUnhealthy input then missingCredentials
    else { state := .mounted, canRemoveDefinition := true }
  else if input.runtime.automount = .active then
    if credentialUnhealthy input then missingCredentials
    else { state := .armed, canRemoveDefinition := true }
  else if credentialUnhealthy input then missingCredentials
  else { state := .inactive, canRemoveDefinition := true }

def accessModeLabel : AccessMode → QString
  | .readOnly => qs "Read only"
  | .readWrite => qs "Read & Write"
  | .readWriteExecutable => qs "Read & Write & Execute"

/-- A share of another tool reads as mounted. -/
def stateLabel : DisplayState → QString
  | .inactive => qs "Inactive"
  | .armed => qs "Ready"
  | .mounted | .foreign => qs "Mounted"
  | .missingCredentials => qs "Missing credentials"
  | .broken => qs "Broken"
  | .busy => qs "Busy"

def stateSeverity : DisplayState → QString
  | .inactive | .armed | .mounted | .foreign => qs "normal"
  | .busy => qs "warning"
  | .missingCredentials | .broken => qs "error"

inductive RemovalKind
  /-- The definition and the local record. -/
  | delete
  /-- A definition without a local record, by path. -/
  | removeOrphan
  | removeRecord
  deriving DecidableEq, Repr

structure RowRemovalInput where
  hasStoreRecord : Bool := false
  hasUnitFiles : Bool := false
  canRemoveDefinition : Bool := false
  canRemoveLocalRecord : Bool := false
  requiresAdministrator : Bool := false
  state : DisplayState := .broken
  detail : QString := []

structure RowRemoval where
  kind : Option RemovalKind := none
  blockedReason : QString := []
  deriving DecidableEq

def rowRemoval (input : RowRemovalInput) : RowRemoval :=
  if input.hasStoreRecord && input.hasUnitFiles && input.canRemoveDefinition then
    { kind := some .delete }
  else if !input.hasStoreRecord && input.hasUnitFiles && input.canRemoveDefinition then
    { kind := some .removeOrphan }
  else if input.hasStoreRecord && input.canRemoveLocalRecord then { kind := some .removeRecord }
  else if input.requiresAdministrator then
    { blockedReason := qs "Requires administrator repair" }
  else if input.state = .foreign then
    { blockedReason := qs "Mounted by another tool - unmount it with that tool" }
  else if input.detail ≠ [] then
    { blockedReason := qs "Can't be removed right now: " ++ input.detail }
  else { blockedReason := qs "Can't be removed right now" }

structure RowPresentInput where
  definitionState : Definition := .none
  state : DisplayState := .broken
  detail : QString := []
  unc : QString := []
  authentication : AuthenticationKind := .credentials
  access : AccessMode := .readWrite
  hasStoreRecord : Bool := false
  storeCorrupt : Bool := false
  storeUsername : QString := []
  storeDomain : QString := []

structure RowPresentation where
  remoteUrl : QString := []
  stateText : QString := []
  severity : QString := []
  detail : QString := []
  access : QString := []
  accessText : QString := []
  authentication : QString := []
  username : QString := []
  domain : QString := []
  sectionName : QString := []
  deriving DecidableEq

/-- What a row shows. Access and authentication are shown only from a validated
marker, and the account only from a readable record. -/
def presentRow (input : RowPresentInput) : RowPresentation :=
  let markerKnown := input.definitionState.owned
  let readable := input.hasStoreRecord && !input.storeCorrupt
  { remoteUrl := ShareAddress.displayUrl input.unc
    severity := stateSeverity input.state
    detail := if input.state = .foreign then [] else input.detail
    stateText := stateLabel input.state
    sectionName := if input.state = .foreign then qs "foreign" else qs "managed"
    access := if markerKnown then accessModeToString input.access else []
    accessText := if markerKnown then accessModeLabel input.access else []
    authentication :=
      if markerKnown then
        if input.authentication = .guest then qs "guest" else qs "credentials"
      else []
    username := if readable then input.storeUsername else []
    domain := if readable then input.storeDomain else [] }

structure Row where
  id : QString := []
  unc : QString := []
  mountPoint : QString := []
  /-- The `What=` of the mount half. -/
  definitionWhat : QString := []
  authentication : AuthenticationKind := .credentials
  access : AccessMode := .readWrite
  definitionState : Definition := .none
  runtime : RuntimeSnapshot := {}
  state : DisplayState := .broken
  detail : QString := []
  hasUnitFiles : Bool := true
  hasStoreRecord : Bool := false
  storeCorrupt : Bool := false
  drift : Bool := false
  credentialApplicable : Bool := false
  credentialHealthy : Bool := true
  canRemoveDefinition : Bool := false
  canRemoveLocalRecord : Bool := false
  requiresAdministrator : Bool := false
  storeUsername : QString := []
  storeDomain : QString := []
  presentation : RowPresentation := {}
  removal : RowRemoval := {}

/-- An empty id is no key. -/
def idKey (id : QString) : Option QString := if id = [] then none else some id

namespace Row

def key (row : Row) : Option QString := idKey row.id

/-- Take over a classification, under a detail. -/
def classified (row : Row) (c : RowClassification) (detail : QString) : Row :=
  { row with
    state := c.state
    detail := detail
    canRemoveDefinition := c.canRemoveDefinition
    canRemoveLocalRecord := c.canRemoveLocalRecord
    requiresAdministrator := c.requiresAdministrator }

end Row

/-- What `Verify::inspectRuntime` says about a definition. Each of its reads can
fail. -/
def inspectedRuntime (w : World) (reads : UnitName → ReadSite → Outcome) (unit : OwnedUnit) :
    RuntimeSnapshot :=
  snapshotOf (w.readsUnder (reads unit.unitName) unit.unitName unit.mountPoint) unit.mountPoint
    unit.what

/-- The row of one definition of the light scan. -/
def unitRow (w : World) (reads : UnitName → ReadSite → Outcome) (unit : OwnedUnit) : Row :=
  let runtime :=
    if unit.state = .pair ∨ unit.state = .partialPair then inspectedRuntime w reads unit else {}
  let row : Row :=
    { id := (unit.id.map ShareId.text).getD [], mountPoint := unit.mountPoint, unc := unit.what
      definitionWhat := unit.what, authentication := unit.authentication, access := unit.access
      definitionState := unit.state, hasUnitFiles := true, runtime := runtime }
  let c := classifyRow
    { definitionState := unit.state, authentication := unit.authentication, runtime := runtime }
  row.classified c (if unit.detail = [] then c.detail else unit.detail)

/-- The rows with the positions of their ids, and the mount points they cover. -/
structure Refresh extends Table QString Row where
  coveredMountPoints : List QString := []

/-- One definition of the light scan. -/
def addUnit (w : World) (reads : UnitName → ReadSite → Outcome) (refresh : Refresh)
    (unit : OwnedUnit) :
    Refresh where
  toTable := refresh.toTable.append Row.key (unitRow w reads unit)
  coveredMountPoints := refresh.coveredMountPoints ++ [unit.mountPoint]

/-- The comparison of a record with the row of its id. -/
def Row.driftInput (row : Row) (share : Store.Share) : StoreDefinitionDriftInput where
  storeUnc := share.unc
  storeMountPoint := share.mountPoint
  storeSaysGuest := share.username = []
  storeAccess := share.access
  definitionWhat := row.definitionWhat
  definitionMountPoint := row.mountPoint
  definitionAuthentication := row.authentication
  definitionAccess := row.access

/-- A record whose id has a row. The marker decides; a difference is drift. -/
def mergeSnapshot (snap : Store.Snapshot) (row : Row) : Row :=
  let row : Row :=
    { row with
      hasStoreRecord := true
      storeUsername := snap.share.username
      storeDomain := snap.share.domain }
  let row : Row :=
    if snap.corrupt then { row with storeCorrupt := true }
    else
      let drift := storeDefinitionDrift (row.driftInput snap.share)
      { row with
        drift := drift
        unc := if drift then row.unc else (validateUnc snap.share.unc).toOption.getD row.unc }
  if row.storeCorrupt || row.drift then
    let c := classifyRow
      { definitionState := row.definitionState, hasStoreRecord := true
        storeCorrupt := row.storeCorrupt, drift := row.drift }
    row.classified c c.detail
  else row

/-- A record whose id has no row: the files at its own path decide. -/
def storeRow (host : Host) (uid : UInt32) (w : World) (snap : Store.Snapshot) : Row :=
  let share := snap.share
  let row : Row :=
    { id := share.id, unc := share.unc, mountPoint := share.mountPoint, hasStoreRecord := true
      storeCorrupt := snap.corrupt, storeUsername := share.username, storeDomain := share.domain
      hasUnitFiles := false }
  let row : Row :=
    if share.mountPoint = [] then row
    else
      let path := cleanPath share.mountPoint
      match host.escape path with
      | none => row
      | some base =>
        let check := inspectDefinition w base uid path
        match check.state with
        | .tampered | .notOurs => { row with definitionState := check.state, hasUnitFiles := true }
        | .pair | .partialPair =>
          -- The same path under another id.
          { row with
            definitionState := check.state
            hasUnitFiles := true
            drift := true
            authentication := (check.marker.map (·.authentication)).getD .credentials
            access := (check.marker.map (·.access)).getD .readWrite
            mountPoint := check.canonicalMountPoint
            definitionWhat := check.what
            unc := if check.what = [] then row.unc else check.what }
        | .none => row
  let c := classifyRow
    { definitionState := row.definitionState, authentication := row.authentication
      hasStoreRecord := true, storeCorrupt := snap.corrupt, drift := row.drift }
  row.classified c c.detail

/-- One local record. -/
def addSnapshot (host : Host) (uid : UInt32) (w : World) (refresh : Refresh)
    (snap : Store.Snapshot) : Refresh :=
  match refresh.find (idKey snap.share.id) with
  | some i => { refresh with toTable := refresh.toTable.modify i (mergeSnapshot snap) }
  | none =>
    { toTable := refresh.toTable.append Row.key (storeRow host uid w snap)
      coveredMountPoints :=
        if snap.share.mountPoint = [] then refresh.coveredMountPoints
        else refresh.coveredMountPoints ++ [snap.share.mountPoint] }

/-- The health of a credential, and the classification that follows. -/
def mergeHealth (entry : Inventory.ShareRecord) (row : Row) : Row :=
  let row : Row :=
    { row with
      credentialApplicable := entry.credentialApplicable
      credentialHealthy := entry.credentialHealthy }
  if row.storeCorrupt || row.drift then row
  else
    let c := classifyRow
      { definitionState := row.definitionState, authentication := row.authentication
        runtime := row.runtime, credentialApplicable := row.credentialApplicable
        credentialHealthy := row.credentialHealthy }
    row.classified c (if c.detail = [] then row.detail else c.detail)

/-- A live share of another tool. -/
def foreignRow (entry : MountEntry) : Row where
  unc := entry.mountSource
  mountPoint := entry.mountPoint
  state := .foreign
  detail := qs "mounted by another tool"

/-- What the row shows and which removal it offers, once every source is merged. -/
def Row.finished (row : Row) : Row :=
  { row with
    presentation := presentRow
      { definitionState := row.definitionState, state := row.state, detail := row.detail
        unc := row.unc, authentication := row.authentication, access := row.access
        hasStoreRecord := row.hasStoreRecord, storeCorrupt := row.storeCorrupt
        storeUsername := row.storeUsername, storeDomain := row.storeDomain }
    removal := rowRemoval
      { hasStoreRecord := row.hasStoreRecord, hasUnitFiles := row.hasUnitFiles
        canRemoveDefinition := row.canRemoveDefinition
        canRemoveLocalRecord := row.canRemoveLocalRecord
        requiresAdministrator := row.requiresAdministrator, state := row.state
        detail := row.detail } }

/-- `Store::shareSnapshots`. -/
def Store.shareSnapshots (config : Config) : List Store.Snapshot :=
  config.keys.map (Store.snapshotById config)

/-- The mounts that no row of a managed share covers. -/
def unclaimedMounts (w : World) (covered : List QString) : List MountEntry :=
  (w.sys.mounts.getD []).filter fun entry =>
    entry.filesystemType = qs "cifs" && entry.mountPoint ∉ covered

/-- The rows of `MountModel::computeRefresh`. Without an inventory the health of the
credentials stays unknown. -/
def computeRefresh (host : Host) (uid : UInt32) (w : World) (reads : UnitName → ReadSite → Outcome)
    (config : Config) (inventory : Option (List Inventory.ShareRecord)) : List Row :=
  let units := (enumerateOwnedUnits w uid).foldl (addUnit w reads) {}
  let records := (Store.shareSnapshots config).foldl (addSnapshot host uid w) units
  let managed := (inventory.getD []).foldl
    (Table.adjust (fun entry => idKey entry.id) mergeHealth) records.toTable
  (managed.rows ++ (unclaimedMounts w records.coveredMountPoints).map foreignRow).map Row.finished

end NasMount.Session
