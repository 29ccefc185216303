import NasMount.Core.Recognition
import NasMount.Root.Arming

/-!
# Adding a share

`define` writes the mount unit, the automount unit and then the credential, and
arms the share as its last step. A failure after the first write is compensated
in the same call; the compensation never fails, it only leaves notes.
-/
namespace NasMount.Root

open NasMount.Foundation NasMount.Core QString

/-- Sixteen lower-case hexadecimal digits. -/
def hex16 (n : UInt64) : QString :=
  (List.range 16).reverse.map fun i => Nat.digitChar (n.toNat / 16 ^ i % 16)

theorem isLowerHex_digitChar {n : ℕ} (h : n < 16) : isLowerHex (Nat.digitChar n) = true := by
  revert n
  decide

theorem isValidShareId_hex16 (a b : UInt64) : isValidShareId (hex16 a ++ hex16 b) = true := by
  have hlower : ∀ n i : ℕ, isLowerHex (Nat.digitChar (n / 16 ^ i % 16)) = true :=
    fun n i => isLowerHex_digitChar (Nat.mod_lt _ (by decide))
  simp [isValidShareId, hex16, hlower]

/-- A share id from two draws of the random generator. -/
def candidateId (draw : UInt64 × UInt64) : ShareId :=
  ⟨hex16 draw.1 ++ hex16 draw.2, isValidShareId_hex16 draw.1 draw.2⟩

structure DefineInput where
  ownerUid : UInt32
  ownerGid : UInt32
  unc : QString
  mountPoint : QString
  unitName : UnitName
  username : QString
  access : AccessMode := .readWrite
  domain : QString
  password : QString
  mountPlan : MountpointPlan
  samePath : mountPlan.path = mountPoint

namespace DefineInput

variable (input : DefineInput)

def authentication : AuthenticationKind := if input.username = [] then .guest else .credentials

def marker (shareId : ShareId) : Marker where
  ownerUid := input.ownerUid
  ownerGid := input.ownerGid
  id := shareId
  authentication := input.authentication
  access := input.access

/-- Both contents, or the error of the first builder that fails. -/
def contents (shareId : ShareId) : Except QString (QString × QString) := do
  let mountContent ← buildMountUnitContent (input.marker shareId) input.unc input.mountPoint
  let automountContent ← buildAutomountUnitContent (input.marker shareId) input.mountPoint
  return (mountContent, automountContent)

def armRequest (shareId : ShareId) : ArmShareRequest where
  shareId := shareId
  authentication := input.authentication
  plan := input.mountPlan
  unitName := input.unitName
  what := input.unc

end DefineInput

inductive CleanupSite
  | credential (site : DirSite)
  | openUnits
  | unlink (half : Half)
  | record (site : DirSite)
  | reload
  deriving DecidableEq

inductive DefineSite
  | generate (attempt : ℕ) (site : DirSite)
  | openUnits
  | existing (half : Half)
  | write (half : Half)
  | credential (site : DirSite)
  | reload
  | arm (site : ArmSite)
  | cleanup (site : CleanupSite)
  deriving DecidableEq

/-- What the compensation adds to the reason of a failure. -/
inductive DefineNote
  | credentialCleanup (error : QString)
  | openUnits (error : QString)
  | unitCleanup (error : QString)
  | idCleanup (error : QString)
  | reload (error : QString)
  | triggerRetained
  deriving DecidableEq

namespace DefineNote

def text : DefineNote → QString
  | .credentialCleanup error => qs "; credential cleanup failed (" ++ error ++
      qs "); definition retained so the secret remains discoverable"
  | .openUnits error => qs "; cleanup could not open the unit directory (" ++ error ++ qs ")"
  | .unitCleanup error => qs "; cleanup failed (" ++ error ++ qs ")"
  | .idCleanup error => qs "; automount-id cleanup failed (" ++ error ++ qs ")"
  | .reload error => qs "; cleanup daemon-reload failed (" ++ error ++ qs ")"
  | .triggerRetained =>
      qs "; the new definition was retained because its started trigger could not be proven stopped"

/-- The note reports that the definition was retained. -/
def retained : DefineNote → Bool
  | .credentialCleanup _ | .triggerRetained => true
  | _ => false

end DefineNote

structure DefineError where
  reason : QString
  notes : List DefineNote := []
  deriving DecidableEq

namespace DefineError

def text (error : DefineError) : QString := error.reason ++ error.notes.flatMap DefineNote.text

/-- The error reports that the definition was retained. -/
def retained (error : DefineError) : Bool := error.notes.any DefineNote.retained

end DefineError

structure DefineOutput where
  shareId : ShareId
  /-- The share is active now. -/
  activated : Bool
  deriving DecidableEq

/-- The artifacts an attempted write may have left. -/
structure MayExist where
  mount : Bool := false
  automount : Bool := false
  credential : Bool := false
  deriving DecidableEq

/-- Any managed marker, or a credential file, already claims the id. -/
def shareIdInUse (id : ShareId) : Prog DirSite World QString Bool := do
  match ← (CredentialStore.assertAbsent id).attempt with
  | .error _ => return true
  | .ok _ => Prog.look fun w => (unitFiles w).any (carries w id)

/-- The attempts left are counted down, and number the draws. -/
def generateUniqueShareId (draws : ℕ → UInt64 × UInt64) : ℕ → Prog DefineSite World QString ShareId
  | 0 => Prog.raise (qs "cannot allocate a unique share id")
  | attempt + 1 => do
    let inUse ← Prog.mapSites (DefineSite.generate attempt)
      (shareIdInUse (candidateId (draws attempt)))
    if inUse then generateUniqueShareId draws attempt else return candidateId (draws attempt)

/-- One compensating step: a failure becomes a note. -/
def noted {ι : Type} (note : QString → DefineNote) (step : Prog ι World QString PUnit) :
    Prog ι World QString (List DefineNote) := do
  match ← step.attempt with
  | .ok _ => return []
  | .error error => return [note error]

/-- Compensating steps for artifacts that may exist. -/
def guarded {ι : Type} (needed : Bool) (steps : Prog ι World QString (List DefineNote)) :
    Prog ι World QString (List DefineNote) := if needed then steps else pure []

/-- Remove the unit halves that may exist. -/
def cleanupUnits (base : UnitName) (may : MayExist) :
    Prog CleanupSite World QString (List DefineNote) := do
  match ← (openUnitsDir CleanupSite.openUnits).attempt with
  | .error error => return [.openUnits error]
  | .ok _ => do
    let automountNotes ← guarded may.automount
      (noted .unitCleanup (removeUnitFile (.unlink .automount) base.automount))
    let mountNotes ← guarded may.mount
      (noted .unitCleanup (removeUnitFile (.unlink .mount) base.mount))
    return automountNotes ++ mountNotes

/-- Compensation for exactly what this call created: the secret first, and the
units only once it is gone. -/
def cleanup (base : UnitName) (shareId : ShareId) (may : MayExist) :
    Prog CleanupSite World QString (List DefineNote) := do
  let credentialNotes ← guarded may.credential
    (noted .credentialCleanup (Prog.mapSites .credential (CredentialStore.remove shareId)))
  let mayRemoveUnits := credentialNotes.isEmpty && (may.mount || may.automount)
  let unitNotes ← guarded mayRemoveUnits (cleanupUnits base may)
  let idNotes ← noted .idCleanup (Prog.mapSites .record (RuntimeFiles.removeAutomountId base))
  let reloadNotes ← guarded mayRemoveUnits (noted .reload (SystemdOps.daemonReload .reload))
  return credentialNotes ++ unitNotes ++ idNotes ++ reloadNotes

section Steps

variable {α : Type}

/-- A step whose failure ends the call without compensation. -/
def plainly (step : Prog DefineSite World QString α) : Prog DefineSite World DefineError α := do
  match ← step.attempt with
  | .ok a => return a
  | .error error => Prog.raise { reason := error }

/-- Compensate, and fail with the reason and the notes. -/
def failCleanly (base : UnitName) (shareId : ShareId) (may : MayExist) (reason : QString) :
    Prog DefineSite World DefineError α := do
  let notes ← plainly (Prog.mapSites DefineSite.cleanup (cleanup base shareId may))
  Prog.raise { reason := reason, notes := notes }

/-- A step whose failure is compensated. -/
def orCleanup (base : UnitName) (shareId : ShareId) (may : MayExist)
    (step : Prog DefineSite World QString α) : Prog DefineSite World DefineError α := do
  match ← step.attempt with
  | .ok a => return a
  | .error error => failCleanly base shareId may error

end Steps

/-- The credential step: written for an authenticated share, and no file for a
guest one. -/
def establishCredential (input : DefineInput) (shareId : ShareId) :
    Prog DefineSite World DefineError PUnit :=
  match input.authentication with
  | .credentials =>
    orCleanup input.unitName shareId { mount := true, automount := true, credential := true }
      (Prog.mapSites .credential
        (CredentialStore.write shareId input.username input.domain input.password))
  | .guest => do
    match ← (Prog.mapSites DefineSite.credential
      (CredentialStore.assertAbsent shareId)).attempt with
    | .ok _ => return ⟨⟩
    | .error error =>
      failCleanly input.unitName shareId { mount := true, automount := true }
        (credentialProblem .guest error)

/-- What an attempted definition may have left once both halves were written. -/
def DefineInput.written (input : DefineInput) : MayExist where
  mount := true
  automount := true
  credential := decide (input.authentication = .credentials)

/-- A definition arms immediately, as the last step. -/
def armDefinition (host : Host) (input : DefineInput) (shareId : ShareId) :
    Prog DefineSite World DefineError DefineOutput := do
  match ← plainly (Prog.mapSites DefineSite.arm (armShare host (input.armRequest shareId))) with
  | .armed | .alreadyArmed => return { shareId := shareId, activated := true }
  | .needsAttention error false => Prog.raise { reason := error, notes := [.triggerRetained] }
  | .needsAttention error true => failCleanly input.unitName shareId input.written error

/-- The definition of one share under a generated id. -/
def defineAs (host : Host) (input : DefineInput) (shareId : ShareId) :
    Prog DefineSite World DefineError DefineOutput := do
  plainly (openUnitsDir .openUnits)
  let mountExists ← Prog.ask (.existing .mount)
    (fun w => unitFileReadable w input.unitName.mount) false
  let automountExists ←
    Prog.ask (.existing .automount) (fun w => unitFileReadable w input.unitName.automount) false
  if mountExists || automountExists then
    Prog.raise { reason := qs "a definition already exists at this mount point" }
  else do
    let contents ← plainly (Prog.ofExcept (input.contents shareId))
    -- Units first, then the credential: a crash between them leaves owned unit
    -- state, discoverable and removable.
    orCleanup input.unitName shareId { mount := true }
      (writeUnitFile (.write .mount) input.unitName.mount contents.1)
    orCleanup input.unitName shareId { mount := true, automount := true }
      (writeUnitFile (.write .automount) input.unitName.automount contents.2)
    establishCredential input shareId
    orCleanup input.unitName shareId input.written (SystemdOps.daemonReload .reload)
    armDefinition host input shareId

/-- Fresh define, write-forward only. -/
def define (host : Host) (draws : ℕ → UInt64 × UInt64) (input : DefineInput) :
    Prog DefineSite World DefineError DefineOutput := do
  let shareId ← plainly (generateUniqueShareId draws 8)
  defineAs host input shareId

section Rules

variable {α : Type} {E : DefineError → World → Prop} {C : World → Prop} {w w' w'' : World}
  {base : UnitName} {shareId : ShareId}

@[simp] theorem wp_noted {ι : Type} {o : ι → Outcome} {note : QString → DefineNote}
    {step : Prog ι World QString PUnit} {Q : List DefineNote → World → Prop}
    {E : QString → World → Prop} :
    Prog.wp o (noted note step) Q E C w ↔
      Prog.wp o step (fun _ => Q []) (fun error => Q [note error]) C w := by
  rw [noted, Prog.wp_bind, Prog.wp_attempt]
  rfl

@[simp] theorem wp_guarded {ι : Type} {o : ι → Outcome} {needed : Bool}
    {steps : Prog ι World QString (List DefineNote)} {Q : List DefineNote → World → Prop}
    {E : QString → World → Prop} :
    Prog.wp o (guarded needed steps) Q E C w ↔
      if needed then Prog.wp o steps Q E C w else Q [] w := by
  cases needed <;> rfl

section Steps

variable {o : DefineSite → Outcome} {Q : α → World → Prop} {step : Prog DefineSite World QString α}

@[simp] theorem wp_plainly :
    Prog.wp o (plainly step) Q E C w ↔
      Prog.wp o step Q (fun error => E { reason := error }) C w := by
  rw [plainly, Prog.wp_bind, Prog.wp_attempt]
  rfl

@[simp] theorem wp_orCleanup {may : MayExist} :
    Prog.wp o (orCleanup base shareId may step) Q E C w ↔
      Prog.wp o step Q
        (fun error => Prog.wp o (failCleanly base shareId may error : Prog _ _ _ α) Q E C) C w := by
  rw [orCleanup, Prog.wp_bind, Prog.wp_attempt]
  rfl

theorem wp_failCleanly {may : MayExist} {reason : QString} :
    Prog.wp o (failCleanly base shareId may reason : Prog _ _ _ α) Q E C w ↔
      Prog.wp (fun site => o (.cleanup site)) (cleanup base shareId may)
        (fun notes => E { reason := reason, notes := notes })
        (fun error => E { reason := error }) C w := by
  rw [failCleanly, Prog.wp_bind, wp_plainly, Prog.wp_mapSites]
  rfl

end Steps

/-- The id is claimed by no credential and by no listed marker. -/
structure Fresh (w : World) (id : ShareId) : Prop where
  credential : w.file? .credentials (CredentialStore.fileNameFor id) = none
  markers : ∀ key ∈ unitFiles w, carries w id key = false

theorem Quiet.fresh (h : Quiet w w') {id : ShareId} (hfresh : Fresh w' id) : Fresh w id where
  credential := (h.files _ _).symm.trans hfresh.credential
  markers := by
    have hcarries : carries w' id = carries w id := funext fun key => by
      rw [carries, carries, h.unit? key]
    have hfiles : unitFiles w' = unitFiles w := by
      simp only [unitFiles, World.unit?, h.units]
    rw [← hcarries, ← hfiles]
    exact hfresh.markers

theorem wp_generateUniqueShareId {o : DefineSite → Outcome} {draws : ℕ → UInt64 × UInt64}
    {Q : ShareId → World → Prop} {E : QString → World → Prop}
    (done : ∀ id w', Quiet w w' → Usable .credentials w' → Fresh w id → Q id w')
    (failed : ∀ e w', Quiet w w' → E e w') (dead : ∀ w', Quiet w w' → C w') (attempts : ℕ) :
    Prog.wp o (generateUniqueShareId draws attempts) Q E C w := by
  have hrefl := Quiet.refl w
  revert hrefl
  suffices h : ∀ w1, Quiet w w1 → Prog.wp o (generateUniqueShareId draws attempts) Q E C w1 from h w
  induction attempts with
  | zero => exact fun w1 h1 => failed _ w1 h1
  | succ attempt ih =>
    intro w1 h1
    rw [generateUniqueShareId, Prog.wp_bind, Prog.wp_mapSites, shareIdInUse, Prog.wp_bind,
      Prog.wp_attempt]
    refine wp_credentialAssertAbsent (fun w2 h2 husable hnone => ?_)
      (fun e w2 h2 => ih w2 (h1.trans h2)) fun w2 h2 => dead w2 (h1.trans h2)
    dsimp only
    rw [Prog.wp_look]
    split_ifs with huse
    · exact ih w2 (h1.trans h2)
    · refine done _ w2 (h1.trans h2) husable ((h1.trans h2).fresh ⟨hnone, ?_⟩)
      simpa using huse

/-- Everything but what one call installs is as it was. -/
structure Beside (base : UnitName) (shareId : ShareId) (w w' : World) : Prop where
  units : ∀ key : UnitKey, key.base ≠ base → w'.unit? key = w.unit? key
  credentials : ∀ name, name ≠ CredentialStore.fileNameFor shareId →
    w'.file? .credentials name = w.file? .credentials name
  records : ∀ name, name ≠ base.text → w'.file? .automountIds name = w.file? .automountIds name
  /-- A record of this call can be removed again. -/
  record : w'.file? .automountIds base.text = w.file? .automountIds base.text ∨
    w'.file? .automountIds base.text = none ∨ Usable .automountIds w'
  usable : Usable .credentials w'

theorem credentials_ne_automountIds : PrivateRoot.credentials ≠ .automountIds := nofun

theorem Beside.runtimeChange (h : Beside base shareId w w') (hchange : RuntimeChange base w' w'') :
    Beside base shareId w w'' where
  units key hkey := (hchange.unit? key).trans (h.units key hkey)
  credentials name hname := (hchange.credential name).trans (h.credentials name hname)
  records name hname := (hchange.files _ name (Or.inr hname)).trans (h.records name hname)
  record := by
    rcases hchange.record with hsame | hnone
    · rw [hsame]
      exact h.record.imp_right (Or.imp_right (hchange.usable _))
    · exact Or.inr hnone
  usable := hchange.usable _ h.usable

theorem Beside.quiet (h : Beside base shareId w w') (hquiet : Quiet w' w'') :
    Beside base shareId w w'' := h.runtimeChange (hquiet.runtimeChange base)

theorem Beside.putUnit (h : Beside base shareId w w') (half : Half) (content : QString) :
    Beside base shareId w (w'.putUnit ⟨base, half⟩ content) where
  units key hkey :=
    (World.unit?_putUnit_ne _ (fun hne : key = ⟨base, half⟩ => hkey (congrArg UnitKey.base hne))
      _).trans (h.units key hkey)
  credentials := h.credentials
  records := h.records
  record := h.record
  usable := h.usable

theorem Beside.dropUnit (h : Beside base shareId w w') (half : Half) :
    Beside base shareId w (w'.dropUnit ⟨base, half⟩) where
  units key hkey :=
    (World.unit?_dropUnit_ne _
      (fun hne : key = ⟨base, half⟩ => hkey (congrArg UnitKey.base hne))).trans (h.units key hkey)
  credentials := h.credentials
  records := h.records
  record := h.record
  usable := h.usable

theorem Beside.reload (h : Beside base shareId w w') :
    Beside base shareId w w'.reload :=
  ⟨h.units, h.credentials, h.records, h.record, h.usable⟩

theorem Beside.updateCredential (h : Beside base shareId w w') {f : Files → Files}
    (hf : ∀ name, name ≠ CredentialStore.fileNameFor shareId →
      (w'.updateFiles .credentials f).file? .credentials name = w'.file? .credentials name) :
    Beside base shareId w (w'.updateFiles .credentials f) where
  units key hkey := by
    rw [World.unit?, World.units_updateFiles]
    exact h.units key hkey
  credentials name hname := (hf name hname).trans (h.credentials name hname)
  records name hname :=
    (World.file?_updateFiles_ne _ _ credentials_ne_automountIds.symm _ _).trans
      (h.records name hname)
  record := by
    rw [World.file?_updateFiles_ne _ _ credentials_ne_automountIds.symm]
    exact h.record.imp_right (Or.imp_right usable_updateFiles)
  usable := usable_updateFiles h.usable

theorem Beside.putCredential (h : Beside base shareId w w') (content : QString) :
    Beside base shareId w
      (w'.putFile .credentials (CredentialStore.fileNameFor shareId) content) :=
  h.updateCredential fun _ hname => World.file?_putFile_ne _ _ (Or.inr hname) _

theorem Beside.dropCredential (h : Beside base shareId w w') :
    Beside base shareId w (w'.dropFile .credentials (CredentialStore.fileNameFor shareId)) :=
  h.updateCredential fun _ hname => World.file?_dropFile_ne _ _ (Or.inr hname)

/-- A call that failed and left nothing behind. -/
structure NoTrace (base : UnitName) (shareId : ShareId) (w w' : World) : Prop
    extends Beside base shareId w w' where
  halves : ∀ half, w'.unit? ⟨base, half⟩ = none
  credential : w'.file? .credentials (CredentialStore.fileNameFor shareId) = none
  noRecord : w'.file? .automountIds base.text = w.file? .automountIds base.text ∨
    w'.file? .automountIds base.text = none
  trigger : w'.sys = w.sys ∨ Stopped base w'

theorem wp_cleanupUnits_allOk {may : MayExist} {Q : List DefineNote → World → Prop}
    {E : QString → World → Prop} (h : Beside base shareId w w') (hmount : may.mount = true)
    (hautomount : may.automount = true ∨ w'.unit? base.automount = none)
    (done : ∀ w'', Beside base shareId w w'' → (∀ half, w''.unit? ⟨base, half⟩ = none) →
      (∀ root name, w''.file? root name = w'.file? root name) → w''.sys = w'.sys → Q [] w'') :
    Prog.wp Prog.allOk (cleanupUnits base may) Q E C w' := by
  have hmountGone : ∀ v : World, v.unit? base.automount = none →
      ∀ half, (v.dropUnit base.mount).unit? ⟨base, half⟩ = none := by
    intro v hv half
    cases half with
    | mount => exact World.unit?_dropUnit_self v base.mount
    | automount =>
      rw [World.unit?_dropUnit]
      split_ifs
      · rfl
      · exact hv
  unfold cleanupUnits openUnitsDir openSystemRoot removeUnitFile
  simp only [Prog.wp_bind, Prog.wp_attempt, Prog.wp_act_allOk, wp_guarded, wp_noted, hmount,
    if_true]
  cases hmay : may.automount with
  | true =>
    exact done _ ((h.dropUnit .automount).dropUnit .mount)
      (hmountGone _ (World.unit?_dropUnit_self _ base.automount)) (fun _ _ => rfl) rfl
  | false =>
    have hnone := hautomount.resolve_left fun ht => Bool.false_ne_true (hmay ▸ ht)
    exact done _ (h.dropUnit .mount) (hmountGone _ hnone) (fun _ _ => rfl) rfl

/-- Removing the record when every primitive succeeds: a record of this call goes. -/
theorem wp_removeRecord_allOk {Q : PUnit → World → Prop} {E : QString → World → Prop}
    (hrecord : w'.file? .automountIds base.text = w.file? .automountIds base.text ∨
      w'.file? .automountIds base.text = none ∨ Usable .automountIds w')
    (done : ∀ w'', RuntimeChange base w' w'' → w''.sys = w'.sys →
      (w''.file? .automountIds base.text = w.file? .automountIds base.text ∨
        w''.file? .automountIds base.text = none) → Q ⟨⟩ w'')
    (failed : ∀ e w'', RuntimeChange base w' w'' → w''.sys = w'.sys →
      (w''.file? .automountIds base.text = w.file? .automountIds base.text ∨
        w''.file? .automountIds base.text = none) → E e w'') :
    Prog.wp Prog.allOk (RuntimeFiles.removeAutomountId base) Q E C w' := by
  have hdrop : ∀ w1, Quiet w' w1 → Q ⟨⟩ (w1.dropFile .automountIds base.text) := by
    intro w1 hquiet
    exact done _ ((hquiet.runtimeChange base).trans (runtimeChange_dropRecord base w1))
      ((World.sys_dropFile _ _ _).trans hquiet.sys) (Or.inr (World.file?_dropFile_self _ _ _))
  by_cases hready : Ready .automountIds w'
  · exact (wp_openPrivateRoot_act_allOk hready).mpr (hdrop _ (quiet_ensureRoot _ _))
  · -- The root is not opened, so no record of this call can be in it.
    have hold : w'.file? .automountIds base.text = w.file? .automountIds base.text ∨
        w'.file? .automountIds base.text = none :=
      hrecord.imp_right fun h => h.resolve_right fun husable => hready husable.ready
    unfold RuntimeFiles.removeAutomountId
    rw [Prog.wp_bind]
    refine wp_openPrivateRoot_refused hready fun e w1 hquiet => ?_
    exact failed e w1 (hquiet.runtimeChange base) hquiet.sys (by rwa [hquiet.files])

theorem wp_cleanupCredential_allOk {needed : Bool} {Q : List DefineNote → World → Prop}
    {E : QString → World → Prop} (h : Beside base shareId w w')
    (hcredential : needed = true ∨
      w'.file? .credentials (CredentialStore.fileNameFor shareId) = none)
    (done : ∀ w'', Beside base shareId w w'' → (∀ key, w''.unit? key = w'.unit? key) →
      w''.file? .credentials (CredentialStore.fileNameFor shareId) = none → w''.sys = w'.sys →
      Q [] w'') :
    Prog.wp Prog.allOk (guarded needed
      (noted .credentialCleanup (Prog.mapSites CleanupSite.credential
        (CredentialStore.remove shareId)))) Q E C w' := by
  rw [wp_guarded]
  split_ifs with hneeded
  · rw [wp_noted, Prog.wp_mapSites_allOk]
    refine (wp_openPrivateRoot_act_allOk h.usable.ready).mpr (done _ ?_ (fun key => ?_) ?_ ?_)
    · exact (h.quiet (quiet_ensureRoot _ _)).dropCredential
    · rw [World.unit?, World.units_dropFile, World.units_ensureRoot, World.unit?]
    · exact World.file?_dropFile_self _ _ _
    · rw [World.sys_dropFile, World.sys_ensureRoot]
  · exact done _ h (fun _ => rfl) (hcredential.resolve_left hneeded) rfl

/-- Compensation whose every primitive succeeds leaves no trace. -/
theorem wp_cleanup_allOk {may : MayExist} {Q : List DefineNote → World → Prop}
    {E : QString → World → Prop} (h : Beside base shareId w w') (hmount : may.mount = true)
    (hautomount : may.automount = true ∨ w'.unit? base.automount = none)
    (hcredential : may.credential = true ∨
      w'.file? .credentials (CredentialStore.fileNameFor shareId) = none)
    (htrigger : w'.sys = w.sys ∨ Stopped base w')
    (done : ∀ notes w'', NoTrace base shareId w w'' → notes.any DefineNote.retained = false →
      Q notes w'') :
    Prog.wp Prog.allOk (cleanup base shareId may) Q E C w' := by
  unfold cleanup
  rw [Prog.wp_bind]
  refine wp_cleanupCredential_allOk h hcredential fun w1 h1 hunits hsecret hsys1 => ?_
  simp only [List.isEmpty_nil, hmount, Bool.true_or, Bool.and_self]
  rw [Prog.wp_bind, wp_guarded, if_pos rfl]
  refine wp_cleanupUnits_allOk h1 hmount (hautomount.imp_right (hunits base.automount).trans)
    fun w2 h2 hhalves hfiles hsys2 => ?_
  rw [Prog.wp_bind, wp_noted, Prog.wp_mapSites_allOk]
  have hfinish : ∀ notes : List DefineNote, notes.any DefineNote.retained = false → ∀ w3,
      RuntimeChange base w2 w3 → w3.sys = w2.sys →
      (w3.file? .automountIds base.text = w.file? .automountIds base.text ∨
        w3.file? .automountIds base.text = none) →
      Prog.wp Prog.allOk (do
        let reloadNotes ← guarded true (noted .reload (SystemdOps.daemonReload CleanupSite.reload))
        return [] ++ [] ++ notes ++ reloadNotes) Q E C w3 := by
    intro notes hnotes w3 hchange hsys3 hrecord
    rw [Prog.wp_bind, wp_guarded, if_pos rfl, wp_noted, SystemdOps.daemonReload, Prog.wp_act_allOk,
      Prog.wp_pure]
    refine done _ _ ⟨(h2.runtimeChange hchange).reload, fun half => ?_, ?_, hrecord,
      ?_⟩ (by simpa using hnotes)
    · exact (hchange.unit? _).trans (hhalves half)
    · exact ((hchange.credential _).trans (hfiles _ _)).trans hsecret
    · have hsys : w3.reload.sys = w'.sys := hsys3.trans (hsys2.trans hsys1)
      simpa only [Stopped, hsys] using htrigger
  exact wp_removeRecord_allOk h2.record (hfinish [] rfl) fun e => hfinish [.idCleanup e] rfl

theorem wp_failCleanly_allOk {α : Type} {o : DefineSite → Outcome} {may : MayExist}
    {reason : QString} {Q : α → World → Prop} (compensated : ∀ site, o (.cleanup site) = .ok)
    (h : Beside base shareId w w') (hmount : may.mount = true)
    (hautomount : may.automount = true ∨ w'.unit? base.automount = none)
    (hcredential : may.credential = true ∨
      w'.file? .credentials (CredentialStore.fileNameFor shareId) = none)
    (htrigger : w'.sys = w.sys ∨ Stopped base w')
    (clean : ∀ e w'', e.retained = false → NoTrace base shareId w w'' → E e w'') :
    Prog.wp o (failCleanly base shareId may reason : Prog _ _ _ α) Q E C w' := by
  have hallOk : (fun site => o (.cleanup site)) = Prog.allOk := funext compensated
  rw [wp_failCleanly, hallOk]
  exact wp_cleanup_allOk h hmount hautomount hcredential htrigger
    fun notes w'' htrace hnotes => clean _ w'' hnotes htrace

end Rules

section Outcome

/-- Both halves are on disk with the marker. -/
def OnDisk (w : World) (base : UnitName) (marker : Marker) : Prop :=
  ∀ half, ∃ node, w.unit? ⟨base, half⟩ = some node ∧ parseMarker node.content = .ok marker

/-- What a successful call leaves. -/
structure Complete (input : DefineInput) (shareId : ShareId) (w : World) : Prop where
  halves : OnDisk w input.unitName (input.marker shareId)
  credential : (w.file? .credentials (CredentialStore.fileNameFor shareId)).isSome ↔
    input.username ≠ []
  armed : Armed input.unitName input.mountPoint w

/-- What a call that reports the definition as retained leaves. -/
structure StillDefined (input : DefineInput) (shareId : ShareId) (w : World) : Prop where
  halves : OnDisk w input.unitName (input.marker shareId)
  credential : input.username ≠ [] →
    (w.file? .credentials (CredentialStore.fileNameFor shareId)).isSome

/-- The state of a call between its last write and its return. -/
structure Installed (input : DefineInput) (shareId : ShareId) (w w' : World) : Prop
    extends Beside input.unitName shareId w w' where
  halves : OnDisk w' input.unitName (input.marker shareId)
  secret : (w'.file? .credentials (CredentialStore.fileNameFor shareId)).isSome ↔
    input.username ≠ []

theorem OnDisk.congr {w w' : World} {base : UnitName} {marker : Marker} (h : OnDisk w base marker)
    (hunits : ∀ key, w'.unit? key = w.unit? key) : OnDisk w' base marker := by
  intro half
  rw [hunits]
  exact h half

theorem DefineInput.contents_ok {input : DefineInput} {shareId : ShareId}
    {contents : QString × QString} (h : input.contents shareId = .ok contents) :
    parseMarker contents.1 = .ok (input.marker shareId) ∧
      parseMarker contents.2 = .ok (input.marker shareId) := by
  simp only [DefineInput.contents, bind_eq_ok, pure_eq_ok] at h
  obtain ⟨mountContent, hmount, automountContent, hautomount, rfl⟩ := h
  exact ⟨parseMarker_buildMountUnitContent hmount, parseMarker_buildAutomountUnitContent hautomount⟩

theorem onDisk_putUnits {input : DefineInput} {shareId : ShareId} {contents : QString × QString}
    (h : input.contents shareId = .ok contents) (w : World) :
    OnDisk ((w.putUnit input.unitName.mount contents.1).putUnit input.unitName.automount contents.2)
      input.unitName (input.marker shareId) := by
  obtain ⟨hmount, hautomount⟩ := DefineInput.contents_ok h
  intro half
  cases half with
  | mount =>
    refine ⟨rootFile .unitFile contents.1, ?_, hmount⟩
    rw [World.unit?_putUnit_ne _ (by simp [UnitName.automount])]
    exact World.unit?_putUnit_self _ input.unitName.mount _
  | automount =>
    exact ⟨rootFile .unitFile contents.2, World.unit?_putUnit_self _ input.unitName.automount _,
      hautomount⟩

section Define

variable {host : Host} {input : DefineInput} {shareId : ShareId} {o : DefineSite → Outcome}
  {w w' : World} {E : DefineError → World → Prop} {C : World → Prop}

theorem authentication_eq_guest : input.authentication = .guest ↔ input.username = [] := by
  unfold DefineInput.authentication
  split_ifs with h <;> simp [h]

theorem wp_establishCredential {Q : PUnit → World → Prop}
    (compensated : ∀ site, o (.cleanup site) = .ok) (h : Beside input.unitName shareId w w')
    (hhalves : OnDisk w' input.unitName (input.marker shareId)) (hsys : w'.sys = w.sys)
    (hfresh : w'.file? .credentials (CredentialStore.fileNameFor shareId) = none)
    (done : ∀ w'', Installed input shareId w w'' → w''.sys = w.sys → Q ⟨⟩ w'')
    (clean : ∀ e w'', e.retained = false → NoTrace input.unitName shareId w w'' → E e w'')
    (dead : ∀ w'', C w'') :
    Prog.wp o (establishCredential input shareId) Q E C w' := by
  have hhalvesOf : ∀ {v : World}, v.units = w'.units →
      OnDisk v input.unitName (input.marker shareId) := fun hv =>
    hhalves.congr fun key => by rw [World.unit?, World.unit?, hv]
  unfold establishCredential
  cases hauth : input.authentication with
  | guest =>
    have hguest := authentication_eq_guest.mp hauth
    dsimp only
    rw [Prog.wp_bind, Prog.wp_attempt, Prog.wp_mapSites]
    refine wp_credentialAssertAbsent (fun w1 h1 _ hnone => ?_) (fun e w1 h1 => ?_)
      fun w1 _ => dead w1
    · refine done w1 ⟨h.quiet h1, hhalvesOf h1.units, ?_⟩ (h1.sys.trans hsys)
      simp [hnone, hguest]
    · exact wp_failCleanly_allOk compensated (h.quiet h1) rfl (Or.inl rfl)
        (Or.inr ((h1.files _ _).trans hfresh)) (Or.inl (h1.sys.trans hsys)) clean
  | credentials =>
    have hname : input.username ≠ [] := fun hne => by
      simp [authentication_eq_guest.mpr hne] at hauth
    have hfail : ∀ e w1, Beside input.unitName shareId w w1 → w1.sys = w.sys →
        Prog.wp o (failCleanly input.unitName shareId
          { mount := true, automount := true, credential := true } e : Prog _ _ _ PUnit) Q E C w1 :=
      fun e w1 h1 hsys1 => wp_failCleanly_allOk compensated h1 rfl (Or.inl rfl) (Or.inl rfl)
        (Or.inl hsys1) clean
    dsimp only
    rw [wp_orCleanup, Prog.wp_mapSites]
    refine wp_credentialWrite (fun w1 h1 husable => ?_) (fun e w1 h1 => ?_)
      (fun e w1 h1 husable => ?_) fun w1 _ => dead w1
    · refine done _ ⟨(h.quiet h1).putCredential _, hhalvesOf ?_, ?_⟩
        ((World.sys_putFile _ _ _ _).trans (h1.sys.trans hsys))
      · rw [World.units_putFile, h1.units]
      · obtain ⟨dir, hdir, -⟩ := husable
        rw [World.file?_putFile_self _ _ hdir]
        simpa using hname
    · exact hfail e w1 (h.quiet h1) (h1.sys.trans hsys)
    · exact hfail e _ ((h.quiet h1).putCredential _)
        ((World.sys_putFile _ _ _ _).trans (h1.sys.trans hsys))

theorem Installed.runtimeChange (h : Installed input shareId w w')
    {w'' : World} (hchange : RuntimeChange input.unitName w' w'') :
    Installed input shareId w w'' where
  toBeside := h.toBeside.runtimeChange hchange
  halves := h.halves.congr hchange.unit?
  secret := by
    rw [hchange.credential]
    exact h.secret

theorem Installed.cleanable (h : Installed input shareId w w') :
    input.written.credential = true ∨
      w'.file? .credentials (CredentialStore.fileNameFor shareId) = none := by
  by_cases hname : input.username = []
  · refine Or.inr (Option.not_isSome_iff_eq_none.mp fun hsome => ?_)
    exact h.secret.mp hsome hname
  · refine Or.inl (decide_eq_true ?_)
    cases hauth : input.authentication with
    | credentials => rfl
    | guest => exact absurd (authentication_eq_guest.mp hauth) hname

theorem wp_armDefinition {Q : DefineOutput → World → Prop}
    (compensated : ∀ site, o (.cleanup site) = .ok) (h : Installed input shareId w w')
    (hsys : w'.sys = w.sys)
    (done : ∀ w'', Complete input shareId w'' →
      Q { shareId := shareId, activated := true } w'')
    (retained : ∀ e w'', e.retained = true → StillDefined input shareId w'' → E e w'')
    (clean : ∀ e w'', e.retained = false → NoTrace input.unitName shareId w w'' → E e w'')
    (dead : ∀ w'', C w'') :
    Prog.wp o (armDefinition host input shareId) Q E C w' := by
  unfold armDefinition
  rw [Prog.wp_bind, wp_plainly, Prog.wp_mapSites]
  refine wp_armShare (fun result w1 hchange hresult => ?_) fun w1 _ => dead w1
  have h1 := h.runtimeChange hchange
  have hdone : Armed input.unitName input.mountPlan.path w1 →
      Q { shareId := shareId, activated := true } w1 := fun harmed =>
    done w1 ⟨h1.halves, h1.secret, input.samePath ▸ harmed⟩
  cases result with
  | armed => exact hdone hresult
  | alreadyArmed => exact hdone hresult
  | needsAttention error safe =>
    cases safe with
    | false => exact retained _ _ rfl ⟨h1.halves, h1.secret.mpr⟩
    | true =>
      have htrigger := hresult rfl
      rw [hsys] at htrigger
      exact wp_failCleanly_allOk compensated h1.toBeside rfl (Or.inl rfl) h1.cleanable
        htrigger clean

theorem wp_defineAs {Q : DefineOutput → World → Prop}
    (compensated : ∀ site, o (.cleanup site) = .ok)
    (absent : ∀ half, w.unit? ⟨input.unitName, half⟩ = none)
    (fresh : Fresh w shareId) (h : Quiet w w') (husable : Usable .credentials w')
    (done : ∀ w'', Complete input shareId w'' →
      Q { shareId := shareId, activated := true } w'')
    (retained : ∀ e w'', e.retained = true → StillDefined input shareId w'' → E e w'')
    (clean : ∀ e w'', e.retained = false → NoTrace input.unitName shareId w w'' → E e w'')
    (dead : ∀ w'', C w'') :
    Prog.wp o (defineAs host input shareId) Q E C w' := by
  have hbeside : Beside input.unitName shareId w w' := by
    refine ⟨fun key _ => h.unit? key, fun name _ => h.files _ _, fun name _ => h.files _ _,
      Or.inl (h.files _ _), husable⟩
  have hnone : w'.file? .credentials (CredentialStore.fileNameFor shareId) = none :=
    (h.files _ _).trans fresh.credential
  have hearly : ∀ reason, E { reason := reason } w' := by
    intro reason
    refine clean _ _ rfl ⟨hbeside, fun half => (h.unit? _).trans (absent half), hnone,
      Or.inl (h.files _ _), Or.inl h.sys⟩
  unfold defineAs
  rw [Prog.wp_bind, wp_plainly]
  refine Prog.wp_act_intro ?_ (hearly _) (hearly _) (dead _)
  rw [Prog.wp_bind]
  refine Prog.wp_ask_answer (dead _) fun mountExists _ => ?_
  rw [Prog.wp_bind]
  refine Prog.wp_ask_answer (dead _) fun automountExists _ => ?_
  split_ifs
  · exact hearly _
  rw [Prog.wp_bind, wp_plainly, Prog.wp_ofExcept]
  refine ⟨fun contents hcontents => ?_, fun reason _ => hearly reason⟩
  have hfail : ∀ (may : MayExist) reason v, Beside input.unitName shareId w v →
      may.mount = true → (may.automount = true ∨ v.unit? input.unitName.automount = none) →
      v.file? .credentials (CredentialStore.fileNameFor shareId) = none → v.sys = w.sys →
      ∀ {α : Type} {Q : α → World → Prop},
      Prog.wp o (failCleanly input.unitName shareId may reason : Prog _ _ _ α) Q E C v :=
    fun may reason v hv hmount hautomount hsecret hsys _ _ =>
      wp_failCleanly_allOk compensated hv hmount hautomount (Or.inr hsecret) (Or.inl hsys) clean
  have hautomount : w'.unit? input.unitName.automount = none :=
    (h.unit? _).trans (absent .automount)
  have hmountWritten := hbeside.putUnit .mount contents.1
  have hbothWritten := hmountWritten.putUnit .automount contents.2
  have hstill : (w'.putUnit input.unitName.mount contents.1).unit? input.unitName.automount =
      none :=
    (World.unit?_putUnit_ne _ (by simp [UnitName.automount, UnitName.mount]) _).trans hautomount
  rw [Prog.wp_bind, wp_orCleanup]
  refine Prog.wp_act_intro ?_ (hfail _ _ _ hbeside rfl (Or.inr hautomount) hnone h.sys)
    (hfail _ _ _ hmountWritten rfl (Or.inr hstill) hnone h.sys) (dead _)
  rw [Prog.wp_bind, wp_orCleanup]
  refine Prog.wp_act_intro ?_ (hfail _ _ _ hmountWritten rfl (Or.inl rfl) hnone h.sys)
    (hfail _ _ _ hbothWritten rfl (Or.inl rfl) hnone h.sys) (dead _)
  rw [Prog.wp_bind]
  refine wp_establishCredential compensated hbothWritten (onDisk_putUnits hcontents w') h.sys hnone
    (fun w2 h2 hsys2 => ?_) clean dead
  have hreloaded : Installed input shareId w w2.reload :=
    ⟨h2.toBeside.reload, h2.halves, h2.secret⟩
  have hcleanup : ∀ reason v, Installed input shareId w v → v.sys = w.sys →
      Prog.wp o (failCleanly input.unitName shareId input.written reason : Prog _ _ _ PUnit)
        (fun _ => Prog.wp o (armDefinition host input shareId) Q E C) E C v :=
    fun reason v hv hsys =>
      wp_failCleanly_allOk compensated hv.toBeside rfl (Or.inl rfl) hv.cleanable (Or.inl hsys) clean
  rw [Prog.wp_bind, wp_orCleanup]
  exact Prog.wp_act_intro (wp_armDefinition compensated hreloaded hsys2 done retained clean dead)
    (hcleanup _ _ h2 hsys2) (hcleanup _ _ hreloaded hsys2) (dead _)

/-- The id the call works with: the result of its generator under the schedule. -/
def Generated (draws : ℕ → UInt64 × UInt64) (o : DefineSite → Outcome) (w : World)
    (shareId : ShareId) : Prop :=
  ∃ w', (generateUniqueShareId draws 8).run o w = (.returned shareId, w')

/-- What the caller finds after a failure that does not report a retained
definition. -/
structure Withdrawn (draws : ℕ → UInt64 × UInt64) (o : DefineSite → Outcome) (base : UnitName)
    (w w' : World) : Prop where
  halves : ∀ half, w'.unit? ⟨base, half⟩ = none
  generatedSecret : ∀ shareId, Generated draws o w shareId →
    w'.file? .credentials (CredentialStore.fileNameFor shareId) = none
  otherUnits : ∀ key, w'.unit? key = w.unit? key
  otherSecrets : ∀ name, w'.file? .credentials name = w.file? .credentials name
  records : ∀ name, (w'.file? .automountIds name).isSome → (w.file? .automountIds name).isSome
  trigger : w'.sys = w.sys ∨ Stopped base w'

theorem NoTrace.withdrawn {draws : ℕ → UInt64 × UInt64} {base : UnitName}
    (h : NoTrace base shareId w w') (absent : ∀ half, w.unit? ⟨base, half⟩ = none)
    (fresh : Fresh w shareId) (hgenerated : ∀ id, Generated draws o w id → id = shareId) :
    Withdrawn draws o base w w' where
  halves := h.halves
  generatedSecret id hid := by
    rw [hgenerated id hid]
    exact h.credential
  otherUnits key := by
    by_cases hkey : key.base = base
    · obtain ⟨_, half⟩ := key
      obtain rfl : _ = base := hkey
      rw [h.halves half, absent half]
    · exact h.units key hkey
  otherSecrets name := by
    by_cases hname : name = CredentialStore.fileNameFor shareId
    · rw [hname, h.credential, fresh.credential]
    · exact h.credentials name hname
  records name hsome := by
    by_cases hname : name = base.text
    · subst hname
      rcases h.noRecord with hsame | hnone
      · rwa [hsame] at hsome
      · simp [hnone] at hsome
    · rwa [h.records name hname] at hsome
  trigger := h.trigger

/-- Add either leaves a complete armed share, or reports the definition as
retained and leaves it, or leaves nothing. -/
theorem define_complete_or_withdrawn (host : Host) (draws : ℕ → UInt64 × UInt64)
    (input : DefineInput) (o : DefineSite → Outcome) (w : World)
    (absent : ∀ half, w.unit? ⟨input.unitName, half⟩ = none)
    (compensated : ∀ site, o (.cleanup site) = .ok) :
    (∀ out w', (define host draws input).run o w = (.returned out, w') →
        out.activated = true ∧ Generated draws o w out.shareId ∧ Complete input out.shareId w') ∧
      ∀ error w', (define host draws input).run o w = (.raised error, w') →
        if error.retained then
          ∃ shareId, Generated draws o w shareId ∧ StillDefined input shareId w'
        else Withdrawn draws o input.unitName w w' := by
  suffices h : Prog.wp o (define host draws input)
      (fun out w' => out.activated = true ∧ Generated draws o w out.shareId ∧
        Complete input out.shareId w')
      (fun error w' => if error.retained then
          ∃ shareId, Generated draws o w shareId ∧ StillDefined input shareId w'
        else Withdrawn draws o input.unitName w w') (fun _ => True) w from
    ⟨((Prog.wp_iff _).mp h).1, ((Prog.wp_iff _).mp h).2.1⟩
  have hgenerate : Prog.wp o (generateUniqueShareId draws 8)
      (fun id w' => Quiet w w' ∧ Usable .credentials w' ∧ Fresh w id) (fun _ w' => Quiet w w')
      (fun _ => True) w :=
    wp_generateUniqueShareId (fun _ _ h husable hfresh => ⟨h, husable, hfresh⟩) (fun _ _ h => h)
      (fun _ _ => trivial) 8
  unfold define
  rw [Prog.wp_bind, wp_plainly]
  refine Prog.wp_mono _ (Prog.wp_and _ hgenerate (Prog.wp_run _)) ?_ ?_ fun _ _ => trivial
  · rintro shareId w1 ⟨⟨hquiet, husable, hfresh⟩, hrun⟩
    have hid : Generated draws o w shareId := ⟨w1, hrun⟩
    have hunique : ∀ id, Generated draws o w id → id = shareId := by
      rintro id ⟨w2, hrun2⟩
      rw [hrun] at hrun2
      cases hrun2
      rfl
    refine wp_defineAs compensated absent hfresh hquiet husable
      (fun w2 hcomplete => ⟨rfl, hid, hcomplete⟩) (fun error w2 hretained hstill => ?_)
      (fun error w2 hretained htrace => ?_) fun _ => trivial
    · rw [if_pos hretained]
      exact ⟨shareId, hid, hstill⟩
    · rw [hretained, if_neg Bool.false_ne_true]
      exact htrace.withdrawn absent hfresh hunique
  · rintro error w1 ⟨hquiet, hrun⟩
    refine ⟨fun half => (hquiet.unit? _).trans (absent half), ?_, hquiet.unit?,
      fun name => hquiet.files _ _, fun name hsome => ?_, Or.inl hquiet.sys⟩
    · rintro id ⟨w2, hrun2⟩
      rw [hrun] at hrun2
      cases hrun2
    · rwa [hquiet.files] at hsome

/-- A share with a credential at `/mnt/nas`. -/
def sampleInput : DefineInput where
  ownerUid := 1000
  ownerGid := 1000
  unc := qs "//nas/data"
  mountPoint := qs "/mnt/nas"
  unitName := ⟨qs "mnt-nas", isUnitName_nas⟩
  username := qs "ann"
  domain := []
  password := qs "secret"
  mountPlan :=
    { path := qs "/mnt/nas", root := qs "/mnt", suffix := [qs "nas"] }
  samePath := rfl

theorem define_sampleInput :
    ∃ out w',
      (define sampleHost (fun n => (0, n.toUInt64)) sampleInput).run Prog.allOk World.blank =
        (.returned out, w') ∧ Complete sampleInput out.shareId w' := by
  have hrun : ((define sampleHost (fun n => (0, n.toUInt64)) sampleInput).run Prog.allOk
      World.blank).1 = .returned { shareId := candidateId (0, 7), activated := true } := by
    decide +kernel
  have h := define_complete_or_withdrawn sampleHost (fun n => (0, n.toUInt64)) sampleInput
    Prog.allOk World.blank (fun _ => AList.lookup_empty _) fun _ => rfl
  obtain ⟨w', hw'⟩ := Prog.run_of_ending hrun
  exact ⟨_, w', hw', (h.1 _ _ hw').2.2⟩

end Define

end Outcome

end NasMount.Root
