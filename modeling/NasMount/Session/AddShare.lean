import NasMount.Root.DefineCall
import NasMount.Session.ShareAddress
import NasMount.Session.Store

/-!
# Adding a share from the session

`addShare` normalises the address and the mount point, calls the helper, and
commits a record of what it sent. The drift comparison later holds that record
against the definition the helper wrote.
-/
namespace NasMount.Session

open NasMount.Foundation NasMount.Core NasMount.Root QString

/-- The mount point a text stands for; both front ends and the record use it. -/
def canonicalMountPoint (raw homeDir : QString) : QString :=
  let path := trimmed raw
  let ownHome := path = qs "~" ∨ startsWith path (qs "~/")
  cleanPath (if ownHome ∧ homeDir ≠ [] then homeDir ++ path.drop 1 else path)

/-- The fields of the Add form. -/
structure AddInput where
  shareInput : QString
  rawMountPoint : QString
  username : QString
  domain : QString
  password : QString
  /-- Empty, or one of the three words. -/
  access : QString

namespace AddInput

variable (input : AddInput) (unc mountPoint : QString)

/-- What is sent to the helper: every key, also with an empty value. -/
def args : Args :=
  [(qs "unc", unc), (qs "path", mountPoint), (qs "username", input.username),
    (qs "domain", input.domain), (qs "password", input.password), (qs "access", input.access)]

/-- The record of the new share. -/
def record (id : ShareId) : Store.Share where
  id := id.text
  unc := unc
  mountPoint := mountPoint
  username := input.username
  domain := input.domain
  access := if input.access = [] then accessModeToString .readWrite else input.access

end AddInput

inductive AddSite
  | userLock
  | authorize
  | helper (site : DefineCallSite)
  | reply
  | sync
  deriving DecidableEq

def guestRefusal : QString :=
  qs "a share with no username is guest, and cannot also have a password or domain"

def notSavedLocally (result : Store.CommitResult) : QString :=
  qs "the definition was created, but could not be saved locally (" ++
    (match result with
      | .generationConflict => qs "share record changed since it was read; reload and retry"
      | _ => qs "could not write configuration to disk") ++
    qs ") - it exists on this machine but will not appear here until this is resolved"

/-- The checked insert of a new record. -/
def commitNew (share : Store.Share) : Prog AddSite (World × Config) QString PUnit := do
  let result ← Prog.look fun s => (Store.commitShare true share 0 s.2).1
  if result = .generationConflict then Prog.raise (notSavedLocally .generationConflict)
  else
    Prog.act .sync (notSavedLocally .syncFailed) fun s =>
      (s.1, (Store.commitShare true share 0 s.2).2)

/-- `MountActions::addShare`: the id of the new share. -/
def addShare (qt : Qt) (host : Host) (draws : ℕ → UInt64 × UInt64) (caller : Caller)
    (trees : QString → Option Folder) (input : AddInput) :
    Prog AddSite (World × Config) QString ShareId := do
  let mountPoint := canonicalMountPoint input.rawMountPoint caller.home
  let unc ← Prog.ofExcept (ShareAddress.resolveShareInput qt input.shareInput input.username)
  Prog.ofExcept (require (guestFieldsConsistent input.username input.domain input.password)
    guestRefusal)
  Prog.act .userLock (qs "cannot acquire the user lock") fun s => s
  Prog.act .authorize (qs "the operation failed") fun s => s
  let reply ← Prog.onFst (Prog.mapSites .helper
    (doDefine host draws caller (input.args unc mountPoint) trees))
  Prog.act .reply (qs "could not confirm the result") fun s => s
  commitNew (input.record unc mountPoint reply.id)
  return reply.id

/-- The two sides of the drift comparison. -/
structure StoreDefinitionDriftInput where
  storeUnc : QString
  storeMountPoint : QString
  storeSaysGuest : Bool
  storeAccess : QString
  definitionWhat : QString
  definitionMountPoint : QString
  definitionAuthentication : AuthenticationKind
  definitionAccess : AccessMode

def storeDefinitionDrift (input : StoreDefinitionDriftInput) : Bool :=
  let normalised := validateUnc input.storeUnc
  let markerSaysGuest := input.definitionAuthentication = .guest
  let uncDrift := input.definitionWhat ≠ [] && normalised ≠ .ok input.definitionWhat
  -- As text, so that a record outside the vocabulary agrees with no marker.
  let accessDrift := input.storeAccess ≠ accessModeToString input.definitionAccess
  input.storeMountPoint ≠ input.definitionMountPoint || input.storeSaysGuest ≠ markerSaysGuest ||
    uncDrift || accessDrift

/-- The comparison of a record with what an inspection found. -/
def driftInputOf (share : Store.Share) (check : DefinitionCheck) : StoreDefinitionDriftInput where
  storeUnc := share.unc
  storeMountPoint := share.mountPoint
  storeSaysGuest := share.username = []
  storeAccess := share.access
  definitionWhat := check.what
  definitionMountPoint := check.canonicalMountPoint
  definitionAuthentication := (check.marker.map (·.authentication)).getD .credentials
  definitionAccess := (check.marker.map (·.access)).getD .readWrite

section Drift

variable {qt : Qt} {host : Host} {draws : ℕ → UInt64 × UInt64} {caller : Caller}
  {trees : QString → Option Folder} {input : AddInput} {unc : QString} {plan : MountpointPlan}
  {base : UnitName} {o : AddSite → Outcome} {s : World × Config}

/-- An input whose address, mount point and credentials are in order. -/
structure Acceptable (qt : Qt) (host : Host) (caller : Caller) (input : AddInput) (unc : QString)
    (plan : MountpointPlan) (base : UnitName) : Prop where
  address : ShareAddress.resolveShareInput qt input.shareInput input.username = .ok unc
  mountPoint : prepare host caller (canonicalMountPoint input.rawMountPoint caller.home) =
    .ok (plan, base)
  fields : validateCredentialFields input.username input.domain input.password = .ok ()
  guest : guestFieldsConsistent input.username input.domain input.password = true

theorem storeDefinitionDrift_eq_false {input : StoreDefinitionDriftInput} :
    storeDefinitionDrift input = false ↔
      input.storeMountPoint = input.definitionMountPoint ∧
        (input.storeSaysGuest = true ↔ input.definitionAuthentication = .guest) ∧
        (input.definitionWhat = [] ∨ validateUnc input.storeUnc = .ok input.definitionWhat) ∧
        input.storeAccess = accessModeToString input.definitionAccess := by
  simp only [storeDefinitionDrift, Bool.or_eq_false_iff, Bool.and_eq_false_iff,
    decide_eq_false_iff_not, not_not, and_assoc, eq_iff_iff]

/-- An address resolves to a normalised UNC. -/
theorem validateUnc_of_resolveShareInput {text username : QString}
    (h : ShareAddress.resolveShareInput qt text username = .ok unc) :
    validateUnc unc = .ok unc := by
  simp only [ShareAddress.resolveShareInput, bind_eq_ok, pure_eq_ok, mapError_eq_ok] at h
  obtain ⟨candidate, -, -, -, -, -, normalised, hvalid, -, -, rfl⟩ := h
  exact validateUnc_normalised hvalid

/-- The helper authorizes exactly the mount point it is sent. -/
theorem Acceptable.path (h : Acceptable qt host caller input unc plan base) :
    plan.path = canonicalMountPoint input.rawMountPoint caller.home :=
  (prepare_eq_ok h.mountPoint).1.trans (cleanPath_idem _)

theorem Acceptable.path_ne_nil (h : Acceptable qt host caller input unc plan base) :
    plan.path ≠ [] := by
  obtain ⟨-, -, root, hroot⟩ := prepare_eq_ok h.mountPoint
  obtain ⟨below, hclean, hbelow, -⟩ := planBelow_ok hroot
  rw [hbelow, hclean]
  simp

/-- What the helper reads from the arguments, up to the access mode. -/
theorem Acceptable.readRequest (h : Acceptable qt host caller input unc plan base) :
    readRequest host caller (input.args unc
        (canonicalMountPoint input.rawMountPoint caller.home)) =
      (accessModeFromString input.access).elim (.error (qs "unrecognised access mode"))
        fun access =>
        .ok { ownerUid := caller.uid, ownerGid := caller.gid, unc := unc, mountPoint := plan.path
              unitName := base, username := input.username, access := access
              domain := input.domain, password := input.password, mountPlan := plan
              samePath := rfl } := by
  have hprepare := h.mountPoint
  generalize canonicalMountPoint input.rawMountPoint caller.home = mountPoint at hprepare ⊢
  have hpath : (input.args unc mountPoint).value (qs "path") = mountPoint := rfl
  have hunc : (input.args unc mountPoint).value (qs "unc") = unc := rfl
  have husername : (input.args unc mountPoint).value (qs "username") = input.username := rfl
  have hdomain : (input.args unc mountPoint).value (qs "domain") = input.domain := rfl
  have hpassword : (input.args unc mountPoint).value (qs "password") = input.password := rfl
  have hvalue : (input.args unc mountPoint).value (qs "access") = input.access := rfl
  have haccess : readAccess (input.args unc mountPoint) =
      (accessModeFromString input.access).elim (.error (qs "unrecognised access mode")) .ok := by
    rw [readAccess, hvalue]
    cases accessModeFromString input.access <;> rfl
  simp only [Root.readRequest, hpath, hunc, husername, hdomain, hpassword, haccess, hprepare,
    validateUnc_of_resolveShareInput h.address, h.fields, h.guest]
  cases accessModeFromString input.access <;> rfl

theorem accessModeFromString_isSome (haccess : input.access = [] ∨
      ∃ access, input.access = accessModeToString access) :
    (∃ access, accessModeFromString input.access = some access) ↔ input.access ≠ [] := by
  rcases haccess with hnone | ⟨access, hword⟩
  · rw [hnone]
    have hempty : accessModeFromString [] = none := rfl
    simp [hempty]
  · rw [hword, accessModeFromString_toString]
    exact iff_of_true ⟨access, rfl⟩ (by cases access <;> decide)

/-- The record the session committed for the new share agrees with the
definition on disk. -/
def InAgreement (base : UnitName) (plan : MountpointPlan) (uid : UInt32) (id : ShareId)
    (s : World × Config) : Prop :=
  let snapshot := Store.snapshotById s.2 id.text
  snapshot.present = true ∧ snapshot.corrupt = false ∧
    storeDefinitionDrift (driftInputOf snapshot.share
      (inspectDefinition s.1 base uid plan.path)) = false

/-- What the record of a new share says once it is read back. -/
theorem inAgreement_of_generates {request : DefineInput} {id : ShareId} {w : World}
    {config config' : Config} (h : Generates request id w) {access : AccessMode}
    (haccess : input.access = accessModeToString access)
    (hrequest : request.access = access ∧ request.username = input.username ∧
      request.unc = unc ∧ request.mountPoint = plan.path ∧ request.unitName = base)
    (hunc : validateUnc unc = .ok unc) (hpath : plan.path ≠ [])
    (hcommit : Store.commitShare true (input.record unc plan.path id) 0 config =
      (.ok, config')) :
    InAgreement base plan request.ownerUid id (w, config') := by
  obtain ⟨haccess', husername, rfl, hmountPoint, rfl⟩ := hrequest
  have hread := Store.snapshotById_commitShare hcommit
  have hinspect := h.inspect hunc
  have hword : accessModeToString access ≠ [] := by cases access <;> decide
  have hstored : Store.storedAccess (input.record request.unc plan.path id).access =
      accessModeToString access := by
    simp only [AddInput.record, haccess, if_neg hword, Store.storedAccess]
  have huncNe : request.unc ≠ [] := by
    intro hnil
    rw [hnil] at hunc
    exact absurd hunc (by decide)
  rw [InAgreement, ← hmountPoint]
  rw [← hmountPoint] at hread hpath hstored
  change Store.snapshotById config' id.text = _ at hread
  rw [hread, hinspect, hstored]
  refine ⟨rfl, by simp [AddInput.record, huncNe, hpath], storeDefinitionDrift_eq_false.mpr ?_⟩
  refine ⟨rfl, ?_, Or.inr hunc, ?_⟩
  · rw [driftInputOf, decide_eq_true_iff]
    simp [AddInput.record, DefineInput.marker, authentication_eq_guest, husername]
  · simp [driftInputOf, DefineInput.marker, haccess']

theorem wp_addShare (h : Acceptable qt host caller input unc plan base) {access : AccessMode}
    (haccess : input.access = accessModeToString access) :
    Prog.wp o (addShare qt host draws caller trees input)
      (fun id s' => InAgreement base plan caller.uid id s') (fun _ _ => True)
        (fun _ => True) s := by
  have hrequest := h.readRequest
  rw [haccess, accessModeFromString_toString, Option.elim_some] at hrequest
  have hunc := validateUnc_of_resolveShareInput h.address
  unfold addShare
  rw [Prog.wp_bind, h.address, Prog.wp_ofExcept]
  refine ⟨fun _ heq => ?_, fun _ _ => trivial⟩
  obtain rfl := Except.ok.inj heq
  rw [Prog.wp_bind, Prog.wp_ofExcept]
  refine ⟨fun _ _ => ?_, fun _ _ => trivial⟩
  rw [Prog.wp_bind]
  refine Prog.wp_act_intro ?_ trivial trivial trivial
  rw [Prog.wp_bind]
  refine Prog.wp_act_intro ?_ trivial trivial trivial
  rw [Prog.wp_bind, Prog.wp_onFst, Prog.wp_mapSites]
  refine Prog.wp_mono _ (wp_doDefine_generates hrequest) (fun reply w1 hgenerates => ?_)
    (fun _ _ _ => trivial) fun _ _ => trivial
  rw [Prog.wp_bind]
  refine Prog.wp_act_intro ?_ trivial trivial trivial
  rw [Prog.wp_bind, commitNew, Prog.wp_bind, Prog.wp_look]
  split_ifs with hconflict
  · trivial
  refine Prog.wp_act_intro ?_ trivial trivial trivial
  rw [← h.path] at hconflict ⊢
  rw [Prog.wp_pure]
  have hcommit := Store.commitShare_synced hconflict
  have hagree := inAgreement_of_generates hgenerates haccess ⟨rfl, rfl, rfl, rfl, rfl⟩ hunc
    h.path_ne_nil hcommit
  dsimp only at hagree ⊢
  exact hagree

/-- Adding with acceptable fields: the helper accepts the arguments and whatever
it defines agrees with the new record, exactly when the access text is not empty. -/
theorem add_in_agreement_iff (qt : Qt) (host : Host) (draws : ℕ → UInt64 × UInt64) (caller : Caller)
    (input : AddInput) (unc : QString) (plan : MountpointPlan) (base : UnitName)
    (h : Acceptable qt host caller input unc plan base)
    (haccess : input.access = [] ∨ ∃ access, input.access = accessModeToString access) :
    ((readRequest host caller (input.args unc
          (canonicalMountPoint input.rawMountPoint caller.home))).isOk = true ∧
        ∀ trees o s id s', (addShare qt host draws caller trees input).run o s =
          (.returned id, s') →
          InAgreement base plan caller.uid id s') ↔ input.access ≠ [] := by
  rw [← accessModeFromString_isSome haccess, h.readRequest]
  constructor
  · rintro ⟨hok, -⟩
    cases hmode : accessModeFromString input.access with
    | none => simp [hmode, Except.isOk, Except.toBool] at hok
    | some access => exact ⟨access, rfl⟩
  · rintro ⟨access, hmode⟩
    rw [hmode]
    have hword : input.access = accessModeToString access := by
      rcases haccess with hnone | ⟨access', hword⟩
      · rw [hnone] at hmode
        have hunread : accessModeFromString [] = none := rfl
        exact absurd (hmode.symm.trans hunread) (Option.some_ne_none access)
      · rw [hword, accessModeFromString_toString] at hmode
        exact Option.some.inj hmode ▸ hword
    exact ⟨rfl, fun trees o s id s' hrun =>
      ((Prog.wp_iff _).mp (wp_addShare h hword)).1 id s' hrun⟩

/-- An Add of `//nas/data` at `~/nas`, as the form sends it. -/
def sampleAdd (access : QString) : AddInput where
  shareInput := qs "smb://nas/data"
  rawMountPoint := qs "~/nas/"
  username := qs "ann"
  domain := []
  password := qs "secret"
  access := access

def sampleCaller : Caller where
  uid := 1000
  gid := 1000
  home := qs "/home/ann"

/-- A home directory with nothing in it. -/
def sampleTrees (root : QString) : Option Folder :=
  if root = qs "/home/ann" then some ⟨homeStat 1000, []⟩ else none

def samplePlan : MountpointPlan where
  path := qs "/home/ann/nas"
  root := qs "/home/ann"
  suffix := [qs "nas"]

theorem sampleAdd_acceptable (access : QString) :
    Acceptable ShareAddress.sampleQt sampleHost sampleCaller (sampleAdd access) (qs "//nas/data")
      samplePlan ⟨qs "home-ann-nas", by decide⟩ where
  address := by
    change ShareAddress.resolveShareInput ShareAddress.sampleQt (qs "smb://nas/data") (qs "ann") = _
    decide +kernel
  mountPoint := by
    change prepare sampleHost sampleCaller (canonicalMountPoint (qs "~/nas/") (qs "/home/ann")) = _
    decide +kernel
  fields := by
    change validateCredentialFields (qs "ann") [] (qs "secret") = _
    decide +kernel
  guest := rfl

theorem add_in_agreement_sample :
    ∃ id s', (addShare ShareAddress.sampleQt sampleHost (fun n => (0, n.toUInt64)) sampleCaller
        sampleTrees (sampleAdd (qs "readonly"))).run Prog.allOk (World.blank, ∅) =
          (.returned id, s') ∧
      InAgreement ⟨qs "home-ann-nas", by decide⟩ samplePlan 1000 id s' := by
  have hrun : ((addShare ShareAddress.sampleQt sampleHost (fun n => (0, n.toUInt64)) sampleCaller
      sampleTrees (sampleAdd (qs "readonly"))).run Prog.allOk (World.blank, ∅)).1 =
        .returned (candidateId (0, 7)) := by
    decide +kernel
  obtain ⟨s', hs'⟩ := Prog.run_of_ending hrun
  have h := (add_in_agreement_iff ShareAddress.sampleQt sampleHost (fun n => (0, n.toUInt64))
    sampleCaller (sampleAdd (qs "readonly")) (qs "//nas/data") samplePlan
    ⟨qs "home-ann-nas", by decide⟩ (sampleAdd_acceptable _) (Or.inr ⟨.readOnly, rfl⟩)).mpr
      (by decide)
  exact ⟨_, s', hs', h.2 _ _ _ _ _ hs'⟩

/-- With the access left unspecified the helper refuses the call. -/
theorem add_unspecified_access_refused :
    Acceptable ShareAddress.sampleQt sampleHost sampleCaller (sampleAdd []) (qs "//nas/data")
        samplePlan ⟨qs "home-ann-nas", by decide⟩ ∧
      ((addShare ShareAddress.sampleQt sampleHost (fun n => (0, n.toUInt64)) sampleCaller
        sampleTrees (sampleAdd [])).run Prog.allOk (World.blank, ∅)).1 =
          .raised (qs "unrecognised access mode") :=
  ⟨sampleAdd_acceptable [], by decide +kernel⟩

end Drift

end NasMount.Session
