import NasMount.Root.RemovalScope
import NasMount.Session.MountRows

/-!
# What the rows decide

A row is classified again whenever a source adds to it. In the end it shows what
one classification of everything it has learned shows, and it offers to remove a
definition exactly where the helper's gate lets the definition be stopped and the
local record says nothing else.
-/
namespace NasMount.Session

open NasMount.Foundation NasMount.Core NasMount.Root QString

section Classification

variable {input : RowClassifyInput}

/-- What an owned definition is shown as that the gate lets be stopped. -/
def stoppableClass (input : RowClassifyInput) : RowClassification :=
  if input.definitionState = .partialPair then
    { detail := qs "only one half of the pair exists - remove it, it is never repaired"
      canRemoveDefinition := true }
  else if credentialUnhealthy input then missingCredentials
  else
    { state :=
        if input.runtime.mount = .present then .mounted
        else if input.runtime.automount = .active then .armed
        else .inactive
      canRemoveDefinition := true }

theorem owned_cases {state : Definition} (h : state.owned = true) :
    state = .pair ∨ state = .partialPair := by
  cases state with
  | pair => exact Or.inl rfl
  | partialPair => exact Or.inr rfl
  | none => exact nomatch h
  | tampered => exact nomatch h
  | notOurs => exact nomatch h

/-- The branches that an owned definition does not take. -/
theorem classifyRow_owned (howned : input.definitionState.owned = true) :
    input.definitionState ≠ .none ∧
      ¬(input.definitionState = .tampered ∨ input.definitionState = .notOurs) := by
  rcases owned_cases howned with h | h <;> simp [h]

theorem classifyRow_passes (howned : input.definitionState.owned = true)
    (hflags : (input.storeCorrupt || input.drift) = false)
    (hgate : (evaluateStopPrecheck input.runtime).refuses = false) :
    classifyRow input = stoppableClass input := by
  obtain ⟨hnone, htrusted⟩ := classifyRow_owned howned
  obtain ⟨hmount, hautomount, hmatched, hactivation⟩ := refuses_eq_false.1 hgate
  rw [Bool.or_eq_false_iff] at hflags
  unfold classifyRow stoppableClass
  rw [if_neg hnone, if_neg htrusted, if_neg (by simp [hflags]),
    if_neg (by simp [hmount, hautomount])]
  by_cases hpresent : input.runtime.mount = .present
  · rw [if_neg (by simp [hmatched hpresent]), if_neg (by simp [hpresent]), if_pos hpresent,
      if_pos hpresent]
  · rw [if_neg (by simp [hpresent]), if_neg hpresent, if_neg hpresent]
    by_cases hactive : input.runtime.automount = .active
    · rw [if_neg (by simp [hactivation hpresent hactive]), if_pos hactive, if_pos hactive]
    · rw [if_neg (by simp [hactive]), if_neg hactive, if_neg hactive]

/-- What an owned definition is shown as that the gate does not let be stopped. -/
theorem classifyRow_refuses (howned : input.definitionState.owned = true)
    (hflags : (input.storeCorrupt || input.drift) = false)
    (hgate : (evaluateStopPrecheck input.runtime).refuses = true) :
    (classifyRow input).canRemoveDefinition = false ∧
      ((classifyRow input).state = .busy ∨ (classifyRow input).state = .broken) := by
  obtain ⟨hnone, htrusted⟩ := classifyRow_owned howned
  rw [Bool.or_eq_false_iff] at hflags
  unfold classifyRow
  rw [if_neg hnone, if_neg htrusted, if_neg (by simp [hflags])]
  -- One of the three branches of the gate is taken.
  split_ifs with hunknown hmismatch huntrusted
  · exact ⟨rfl, Or.inl rfl⟩
  · exact ⟨rfl, Or.inl rfl⟩
  · exact ⟨rfl, Or.inr rfl⟩
  all_goals
    exfalso
    rw [not_or] at hunknown
    rw [not_and, not_not] at hmismatch
    rw [not_and, not_and, not_not] at huntrusted
    rw [refuses_eq_false.2 ⟨hunknown.1, hunknown.2, hmismatch, huntrusted⟩] at hgate
    exact nomatch hgate

/-- A contradiction is all that counts, whatever the runtime and the credential are. -/
theorem classifyRow_flagged (hflags : (input.storeCorrupt || input.drift) = true) :
    classifyRow input = classifyRow
      { definitionState := input.definitionState, hasStoreRecord := input.hasStoreRecord
        storeCorrupt := input.storeCorrupt, drift := input.drift } ∧
      (classifyRow input).canRemoveDefinition = false ∧ (classifyRow input).state = .broken := by
  have hcontra : input.drift = true ∨ input.storeCorrupt = true := by
    rw [Bool.or_eq_true] at hflags
    exact hflags.symm
  unfold classifyRow
  dsimp only
  split_ifs <;> exact ⟨rfl, rfl, rfl⟩

/-- An own definition is not classified by whether it has a record. -/
theorem classifyRow_hasStoreRecord (howned : input.definitionState.owned = true) (recorded : Bool) :
    classifyRow { input with hasStoreRecord := recorded } = classifyRow input := by
  obtain ⟨hnone, htrusted⟩ := classifyRow_owned howned
  unfold classifyRow
  dsimp only
  rw [if_neg hnone, if_neg htrusted, if_neg hnone, if_neg htrusted]
  rfl

theorem classifyRow_unowned (h : input.definitionState.owned = false) :
    (classifyRow input).canRemoveDefinition = false ∧ (classifyRow input).state = .broken := by
  unfold classifyRow
  cases hstate : input.definitionState with
  | none => exact ⟨rfl, rfl⟩
  | tampered => exact ⟨rfl, rfl⟩
  | notOurs => exact ⟨rfl, rfl⟩
  | pair => simp [hstate, Definition.owned] at h
  | partialPair => simp [hstate, Definition.owned] at h

/-- The classification knows the gate of the helper. -/
theorem classifyRow_canRemoveDefinition (input : RowClassifyInput) :
    (classifyRow input).canRemoveDefinition =
      (input.definitionState.owned && !(input.storeCorrupt || input.drift) &&
        !(evaluateStopPrecheck input.runtime).refuses) := by
  cases hflags : (input.storeCorrupt || input.drift) with
  | true => simp [(classifyRow_flagged hflags).2.1]
  | false =>
    cases howned : input.definitionState.owned with
    | false => simp [(classifyRow_unowned howned).1]
    | true =>
      cases hgate : (evaluateStopPrecheck input.runtime).refuses with
      | true => simp [(classifyRow_refuses howned hflags hgate).1]
      | false =>
        rw [classifyRow_passes howned hflags hgate, stoppableClass]
        split_ifs <;> rfl

end Classification

/-- Everything a row has learned, as one classification takes it. -/
def Row.facts (row : Row) : RowClassifyInput where
  definitionState := row.definitionState
  authentication := row.authentication
  runtime := row.runtime
  credentialApplicable := row.credentialApplicable
  credentialHealthy := row.credentialHealthy
  hasStoreRecord := row.hasStoreRecord
  storeCorrupt := row.storeCorrupt
  drift := row.drift

/-- The row shows what one classification of everything it has learned shows. -/
structure Row.Decided (row : Row) : Prop where
  state : row.state = (classifyRow row.facts).state
  canRemoveDefinition : row.canRemoveDefinition = (classifyRow row.facts).canRemoveDefinition
  canRemoveLocalRecord : row.canRemoveLocalRecord = (classifyRow row.facts).canRemoveLocalRecord
  requiresAdministrator : row.requiresAdministrator = (classifyRow row.facts).requiresAdministrator

section Decisions

variable {w : World} {reads : UnitName → ReadSite → Outcome} {unit : OwnedUnit} {row : Row}
  {snap : Store.Snapshot} {entry : Inventory.ShareRecord} {host : Host} {uid : UInt32}

/-- A row that takes over the classification of its own facts. -/
theorem decided_of_classified {c : RowClassification} {detail : QString}
    (h : c = classifyRow row.facts) : (row.classified c detail).Decided := by
  subst h
  exact ⟨rfl, rfl, rfl, rfl⟩

theorem decided_unitRow (w : World) (reads : UnitName → ReadSite → Outcome) (unit : OwnedUnit) :
    (unitRow w reads unit).Decided := ⟨rfl, rfl, rfl, rfl⟩

theorem decided_storeRow (host : Host) (uid : UInt32) (w : World) (snap : Store.Snapshot) :
    (storeRow host uid w snap).Decided := by
  unfold storeRow
  dsimp only
  apply decided_of_classified
  split_ifs
  · rfl
  · cases host.escape (cleanPath snap.share.mountPoint) with
    | none => rfl
    | some base =>
      dsimp only
      cases (inspectDefinition w base uid (cleanPath snap.share.mountPoint)).state <;> rfl

/-- A row with a contradiction, classified by the contradiction alone. -/
theorem decided_of_flagged {detail : QString} (hflags : (row.storeCorrupt || row.drift) = true) :
    (row.classified (classifyRow
      { definitionState := row.definitionState, hasStoreRecord := row.hasStoreRecord
        storeCorrupt := row.storeCorrupt, drift := row.drift }) detail).Decided :=
  decided_of_classified (@classifyRow_flagged row.facts hflags).1.symm

/-- Rows of the same decision whose facts are classified alike. -/
theorem Row.Decided.congr {row' : Row} (h : row.Decided)
    (hfacts : classifyRow row'.facts = classifyRow row.facts)
    (hstate : row'.state = row.state) (hremove : row'.canRemoveDefinition = row.canRemoveDefinition)
    (hlocal : row'.canRemoveLocalRecord = row.canRemoveLocalRecord)
    (hadministrator : row'.requiresAdministrator = row.requiresAdministrator) : row'.Decided where
  state := by rw [hstate, hfacts, h.state]
  canRemoveDefinition := by rw [hremove, hfacts, h.canRemoveDefinition]
  canRemoveLocalRecord := by rw [hlocal, hfacts, h.canRemoveLocalRecord]
  requiresAdministrator := by rw [hadministrator, hfacts, h.requiresAdministrator]

/-- A record that is merged leaves the row of an own definition decided. -/
theorem Row.Decided.mergeSnapshot (h : row.Decided) (howned : row.definitionState.owned = true)
    (hcorrupt : row.storeCorrupt = false) (hdrift : row.drift = false) :
    (Session.mergeSnapshot snap row).Decided := by
  unfold Session.mergeSnapshot
  cases hbad : snap.corrupt with
  | true =>
    simp only [if_true, Bool.true_or]
    exact @decided_of_flagged { row with
      hasStoreRecord := true
      storeUsername := snap.share.username
      storeDomain := snap.share.domain
      storeCorrupt := true } _ rfl
  | false =>
    simp only [Bool.false_eq_true, if_false, hcorrupt, Bool.false_or]
    split_ifs with hdrifts
    · apply decided_of_classified
      symm
      apply (@classifyRow_flagged _ _).1
      exact hdrifts
    · refine h.congr ?_ rfl rfl rfl rfl
      have hagrees : storeDefinitionDrift (row.driftInput snap.share) = false :=
        Bool.eq_false_iff.2 hdrifts
      change classifyRow { row.facts with
        hasStoreRecord := true
        storeCorrupt := false
        drift := storeDefinitionDrift (row.driftInput snap.share) } = _
      rw [hagrees, ← @classifyRow_hasStoreRecord row.facts howned true]
      simp only [Row.facts, hcorrupt, hdrift]

/-- So does a health that is merged. -/
theorem Row.Decided.mergeHealth (h : row.Decided) (howned : row.definitionState.owned = true) :
    (Session.mergeHealth entry row).Decided := by
  unfold Session.mergeHealth
  dsimp only
  by_cases hflags : (row.storeCorrupt || row.drift) = true
  · rw [if_pos hflags]
    refine h.congr ?_ rfl rfl rfl rfl
    rw [(@classifyRow_flagged row.facts hflags).1]
    exact (classifyRow_flagged hflags).1
  · rw [if_neg hflags]
    apply decided_of_classified
    rw [Bool.not_eq_true, Bool.or_eq_false_iff] at hflags
    rw [← @classifyRow_hasStoreRecord _ howned row.hasStoreRecord]
    simp only [Row.facts, hflags]

end Decisions

/-- The text of the id, empty without one. -/
def unitId (unit : OwnedUnit) : QString := (unit.id.map ShareId.text).getD []

/-- A local record has the id of the definition. -/
def recorded (config : Config) (unit : OwnedUnit) : Bool :=
  unit.id.any fun id => (Store.snapshotById config id.text).present

/-- The comparison of a record with a definition of the light scan. -/
def unitDriftInput (unit : OwnedUnit) (share : Store.Share) : StoreDefinitionDriftInput where
  storeUnc := share.unc
  storeMountPoint := share.mountPoint
  storeSaysGuest := share.username = []
  storeAccess := share.access
  definitionWhat := unit.what
  definitionMountPoint := unit.mountPoint
  definitionAuthentication := unit.authentication
  definitionAccess := unit.access

/-- The record of the definition's id is unusable, or says something else. -/
def contradicted (config : Config) (unit : OwnedUnit) : Bool :=
  unit.id.any fun id =>
    let snap := Store.snapshotById config id.text
    snap.present && (snap.corrupt || storeDefinitionDrift (unitDriftInput unit snap.share))

/-- The gate of a stop passes with what the reads say. -/
def passesUnder (w : World) (reads : UnitName → ReadSite → Outcome) (unit : OwnedUnit) : Bool :=
  !(evaluateStopPrecheck (inspectedRuntime w reads unit)).refuses

/-- What a row has from its definition is as it was. -/
structure Row.SameDefinition (row row' : Row) : Prop where
  id : row'.id = row.id
  mountPoint : row'.mountPoint = row.mountPoint
  definitionState : row'.definitionState = row.definitionState
  authentication : row'.authentication = row.authentication
  access : row'.access = row.access
  runtime : row'.runtime = row.runtime
  hasUnitFiles : row'.hasUnitFiles = row.hasUnitFiles

/-- The row of a definition, with what its record adds, classified by all of it. -/
structure OfUnit (w : World) (reads : UnitName → ReadSite → Outcome) (config : Config)
    (unit : OwnedUnit) (row : Row) : Prop where
  same : (unitRow w reads unit).SameDefinition row
  hasStoreRecord : row.hasStoreRecord = recorded config unit
  flags : (row.storeCorrupt || row.drift) = contradicted config unit
  decided : row.Decided

section Definitions

variable {w : World} {reads : UnitName → ReadSite → Outcome} {unit : OwnedUnit}
  {row row' row'' : Row}
  {snap : Store.Snapshot} {entry : Inventory.ShareRecord} {host : Host} {uid : UInt32}
  {config : Config} {inventory : Option (List Inventory.ShareRecord)}

theorem Row.SameDefinition.trans (h : row.SameDefinition row') (h' : row'.SameDefinition row'') :
    row.SameDefinition row'' where
  id := h'.id.trans h.id
  mountPoint := h'.mountPoint.trans h.mountPoint
  definitionState := h'.definitionState.trans h.definitionState
  authentication := h'.authentication.trans h.authentication
  access := h'.access.trans h.access
  runtime := h'.runtime.trans h.runtime
  hasUnitFiles := h'.hasUnitFiles.trans h.hasUnitFiles

/-- The marker decides what the row says about the definition, never the record. -/
theorem sameDefinition_mergeSnapshot (snap : Store.Snapshot) (row : Row) :
    row.SameDefinition (mergeSnapshot snap row) := by
  unfold mergeSnapshot
  dsimp only
  constructor <;> split_ifs <;> rfl

theorem sameDefinition_mergeHealth (entry : Inventory.ShareRecord) (row : Row) :
    row.SameDefinition (mergeHealth entry row) := by
  unfold mergeHealth
  dsimp only
  constructor <;> split_ifs <;> rfl

/-- What a record says about the row that it is merged into. -/
theorem mergeSnapshot_flags (hcorrupt : row.storeCorrupt = false) (snap : Store.Snapshot) :
    (mergeSnapshot snap row).hasStoreRecord = true ∧
      ((mergeSnapshot snap row).storeCorrupt || (mergeSnapshot snap row).drift) =
        (snap.corrupt || storeDefinitionDrift (row.driftInput snap.share)) := by
  unfold mergeSnapshot
  cases hbad : snap.corrupt with
  | true => exact ⟨rfl, rfl⟩
  | false =>
    simp only [Bool.false_eq_true, if_false, hcorrupt, Bool.false_or]
    split_ifs <;> exact ⟨rfl, rfl⟩

theorem mergeHealth_flags (entry : Inventory.ShareRecord) (row : Row) :
    (mergeHealth entry row).hasStoreRecord = row.hasStoreRecord ∧
      ((mergeHealth entry row).storeCorrupt || (mergeHealth entry row).drift) =
        (row.storeCorrupt || row.drift) := by
  unfold mergeHealth
  dsimp only
  split_ifs <;> exact ⟨rfl, rfl⟩

/-- Only a record can contradict a definition. -/
theorem recorded_of_contradicted (h : contradicted config unit = true) :
    recorded config unit = true := by
  unfold contradicted at h
  unfold recorded
  cases hid : unit.id with
  | none => simp [hid] at h
  | some id =>
    simp only [hid, Option.any_some, Bool.and_eq_true] at h ⊢
    exact h.1

theorem ofUnit_unitRow (h : recorded config unit = false) :
    OfUnit w reads config unit (unitRow w reads unit) where
  same := ⟨rfl, rfl, rfl, rfl, rfl, rfl, rfl⟩
  hasStoreRecord := h.symm
  flags := by
    cases hcontra : contradicted config unit with
    | false => rfl
    | true => exact nomatch (recorded_of_contradicted hcontra).symm.trans h
  decided := decided_unitRow w reads unit

theorem ofUnit_recordedRow (hunit : unit ∈ enumerateOwnedUnits w uid) :
    OfUnit w reads config unit (recordedRow w reads config unit) := by
  unfold recordedRow
  cases hid : unit.id with
  | none =>
    apply ofUnit_unitRow
    rw [recorded, hid, Option.any_none]
  | some id =>
    dsimp only
    cases hpresent : (Store.snapshotById config id.text).present with
    | false =>
      rw [if_neg Bool.false_ne_true]
      apply ofUnit_unitRow
      rw [recorded, hid, Option.any_some, hpresent]
    | true =>
      rw [if_pos rfl]
      obtain ⟨hrecord, hflags⟩ := @mergeSnapshot_flags (unitRow w reads unit) rfl
        (Store.snapshotById config id.text)
      constructor
      · exact sameDefinition_mergeSnapshot _ _
      · rw [hrecord, recorded, hid, Option.any_some, hpresent]
      · rw [hflags, contradicted, hid, Option.any_some]
        dsimp only
        rw [hpresent, Bool.true_and]
        rfl
      · exact (decided_unitRow w reads unit).mergeSnapshot (owned_of_id hunit hid) rfl rfl

theorem OfUnit.owned (h : OfUnit w reads config unit row) (howned : unit.state.owned = true) :
    row.definitionState.owned = true := by
  rw [h.same.definitionState]
  exact howned

theorem OfUnit.mergeHealth (h : OfUnit w reads config unit row) (howned : unit.state.owned = true)
    (entry : Inventory.ShareRecord) :
    OfUnit w reads config unit (Session.mergeHealth entry row) := by
  obtain ⟨hrecord, hflags⟩ := mergeHealth_flags entry row
  constructor
  · exact h.same.trans (sameDefinition_mergeHealth entry row)
  · exact hrecord.trans h.hasStoreRecord
  · exact hflags.trans h.flags
  · exact h.decided.mergeHealth (h.owned howned)

/-- What a definition's row shows is one classification of all that its sources
said, however often it was classified on the way. -/
theorem ofUnit_reportedRow (hunit : unit ∈ enumerateOwnedUnits w uid) :
    OfUnit w reads config unit (reportedRow inventory (recordedRow w reads config unit)) := by
  have hrow : OfUnit w reads config unit (recordedRow w reads config unit) :=
    ofUnit_recordedRow hunit
  unfold reportedRow
  cases hid : unit.id with
  | none =>
    rw [Table.settle_of_no_meet]
    · exact hrow
    · intro entry _
      have hkey : (recordedRow w reads config unit).key = none := by
        rw [Row.key, hrow.same.id, ← Row.key, key_unitRow, hid, Option.map_none]
      rw [Table.meets, hkey]
      cases idKey entry.id <;> rfl
  | some id =>
    have howned := owned_of_id hunit hid
    exact Table.settle_induction (fun entry row h => OfUnit.mergeHealth h howned entry) hrow

theorem OfUnit.runtime (h : OfUnit w reads config unit row) (howned : unit.state.owned = true) :
    row.runtime = inspectedRuntime w reads unit := by
  rw [h.same.runtime]
  change (if unit.state = .pair ∨ unit.state = .partialPair then _ else _) = _
  rw [if_pos (owned_cases howned)]

/-- The row lets its definition be removed where the gate does and no record
contradicts it. -/
theorem OfUnit.canRemove (h : OfUnit w reads config unit row) :
    row.canRemoveDefinition =
      (unit.state.owned && passesUnder w reads unit && !contradicted config unit) := by
  have hstate : row.facts.definitionState = unit.state := h.same.definitionState
  have hflags : (row.facts.storeCorrupt || row.facts.drift) = contradicted config unit := h.flags
  rw [h.decided.canRemoveDefinition, classifyRow_canRemoveDefinition, hstate, hflags]
  cases howned : unit.state.owned with
  | false => simp
  | true =>
    have hruntime : row.facts.runtime = inspectedRuntime w reads unit := h.runtime howned
    rw [hruntime, passesUnder, Bool.true_and, Bool.true_and, Bool.and_comm]

end Definitions

/-- The row offers to remove a definition. -/
def RowRemoval.ofDefinition (removal : RowRemoval) : Bool :=
  removal.kind = some .delete || removal.kind = some .removeOrphan

/-- The row of a record without a definition of its id. -/
structure OfRecord (row : Row) : Prop where
  removable : row.canRemoveDefinition = false
  flagged : row.definitionState.owned = true → (row.storeCorrupt || row.drift) = true

section Removals

variable {w : World} {reads : UnitName → ReadSite → Outcome} {unit : OwnedUnit} {row : Row}
  {snap : Store.Snapshot} {entry : Inventory.ShareRecord} {host : Host} {uid : UInt32}
  {config : Config} {inventory : Option (List Inventory.ShareRecord)}

theorem rowRemoval_ofDefinition (input : RowRemovalInput) :
    (rowRemoval input).ofDefinition = (input.hasUnitFiles && input.canRemoveDefinition) ∧
      ((rowRemoval input).ofDefinition = true →
        (rowRemoval input).kind =
          some (if input.hasStoreRecord then .delete else .removeOrphan)) := by
  unfold rowRemoval
  rw [Bool.and_assoc, Bool.and_assoc]
  cases input.hasUnitFiles && input.canRemoveDefinition with
  | true => cases input.hasStoreRecord <;> exact ⟨rfl, fun _ => rfl⟩
  | false =>
    -- No later branch removes a definition.
    rw [Bool.and_false, Bool.and_false, if_neg Bool.false_ne_true, if_neg Bool.false_ne_true]
    generalize hremoval : (if input.hasStoreRecord && input.canRemoveLocalRecord then
      ({ kind := some .removeRecord } : RowRemoval) else _) = removal
    have hno : removal.ofDefinition = false := by
      rw [← hremoval]
      split_ifs <;> rfl
    exact ⟨hno, fun hyes => nomatch hno.symm.trans hyes⟩

theorem finished_ofDefinition (row : Row) :
    row.finished.removal.ofDefinition = (row.hasUnitFiles && row.canRemoveDefinition) :=
  (rowRemoval_ofDefinition _).1

theorem ofRecord_storeRow (host : Host) (uid : UInt32) (w : World) (snap : Store.Snapshot) :
    OfRecord (storeRow host uid w snap) := by
  have hflagged : (storeRow host uid w snap).definitionState.owned = true →
      ((storeRow host uid w snap).storeCorrupt || (storeRow host uid w snap).drift) = true := by
    unfold storeRow
    dsimp only
    split_ifs
    · exact nofun
    · cases host.escape (cleanPath snap.share.mountPoint) with
      | none => exact nofun
      | some base =>
        dsimp only
        cases (inspectDefinition w base uid (cleanPath snap.share.mountPoint)).state with
        | pair => exact fun _ => Bool.or_true _
        | partialPair => exact fun _ => Bool.or_true _
        | none => exact nofun
        | tampered => exact nofun
        | notOurs => exact nofun
  refine ⟨?_, hflagged⟩
  rw [(decided_storeRow host uid w snap).canRemoveDefinition]
  cases howned : (storeRow host uid w snap).definitionState.owned with
  | false => exact (@classifyRow_unowned (storeRow host uid w snap).facts howned).1
  | true => exact (@classifyRow_flagged (storeRow host uid w snap).facts (hflagged howned)).2.1

theorem OfRecord.mergeHealth (h : OfRecord row) (entry : Inventory.ShareRecord) :
    OfRecord (Session.mergeHealth entry row) := by
  have hstate := (sameDefinition_mergeHealth entry row).definitionState
  have hflags := (mergeHealth_flags entry row).2
  refine ⟨?_, fun howned => hflags.trans (h.flagged (hstate ▸ howned))⟩
  unfold Session.mergeHealth
  dsimp only
  by_cases hcontra : (row.storeCorrupt || row.drift) = true
  · rw [if_pos hcontra]
    exact h.removable
  · rw [if_neg hcontra]
    apply (classifyRow_unowned _).1
    cases howned : row.definitionState.owned with
    | false => rfl
    | true => exact absurd (h.flagged howned) hcontra

theorem ofRecord_reportedRow (snap : Store.Snapshot) :
    OfRecord (reportedRow inventory (storeRow host uid w snap)) :=
  Table.settle_induction (fun entry _ h => OfRecord.mergeHealth h entry)
    (ofRecord_storeRow host uid w snap)

/-- The definition may be removed from the list. -/
def removable (w : World) (reads : UnitName → ReadSite → Outcome) (config : Config)
    (unit : OwnedUnit) :
    Bool :=
  unit.state.owned && passesUnder w reads unit && !contradicted config unit

end Removals

section Credentials

variable {w : World} {reads : UnitName → ReadSite → Outcome} {unit : OwnedUnit} {row : Row}
  {entry : Inventory.ShareRecord} {uid : UInt32} {config : Config} {id : ShareId}
  {o : InventorySite → Outcome} {records : List Inventory.ShareRecord}

end Credentials

end NasMount.Session
