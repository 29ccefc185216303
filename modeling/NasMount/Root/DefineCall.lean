import NasMount.Core.MountpointWalk
import NasMount.Root.Remove

/-!
# The body of `definesystem`

What the helper reads from the arguments of the call, the checks before anything
is written, and what a call that succeeds leaves on disk. The walk to the mount
point is answered by the caller's directory tree.
-/
namespace NasMount.Root

open NasMount.Foundation NasMount.Core QString

/-- The arguments of a call, all of them strings. -/
abbrev Args := List (QString × QString)

namespace Args

variable (args : Args) (key : QString)

def contains : Bool := (args.lookup key).isSome

/-- `args.value(key).toString()`. -/
def value : QString := (args.lookup key).getD []

end Args

/-- The early check of the credential fields; `CredentialStore.write` checks again. -/
def validateCredentialFields (username domain password : QString) : Except QString Unit :=
  if hasControlChars username || hasControlChars domain || hasControlChars password then
    .error (qs "credential fields contain control characters")
  else if utf8Size username > CredentialStore.maxCredentialFieldBytes ||
      utf8Size domain > CredentialStore.maxCredentialFieldBytes ||
      utf8Size password > CredentialStore.maxCredentialFieldBytes then
    .error (qs "a credential field exceeds " ++ number CredentialStore.maxCredentialFieldBytes ++
      qs " bytes")
  else .ok ()

/-- An empty username means guest, so domain and password must be empty too. -/
def guestFieldsConsistent (username domain password : QString) : Bool :=
  username ≠ [] || (domain = [] && password = [])

/-- Absent means read-write; a present value must be one of the three words. -/
def readAccess (args : Args) : Except QString AccessMode :=
  if args.contains (qs "access") then
    match accessModeFromString (args.value (qs "access")) with
    | some access => .ok access
    | none => .error (qs "unrecognised access mode")
  else .ok .readWrite

/-- What the helper passes on to `define`, and the plan it walks. -/
def readRequest (host : Host) (caller : Caller) (args : Args) : Except QString DefineInput := do
  let target ← prepare host caller (args.value (qs "path"))
  let unc ← validateUnc (args.value (qs "unc"))
  let access ← readAccess args
  let username := args.value (qs "username")
  let domain := args.value (qs "domain")
  let password := args.value (qs "password")
  validateCredentialFields username domain password
  require (guestFieldsConsistent username domain password)
    (qs "a share with no username is guest, and cannot also have a password or domain")
  return {
    ownerUid := caller.uid, ownerGid := caller.gid, unc := unc, mountPoint := target.1.path
    unitName := target.2, username := username, access := access, domain := domain
    password := password, mountPlan := target.1, samePath := rfl }

/-- The refusal of a path at which a definition, or something else, exists. -/
def definedProblem (plan : MountpointPlan) (check : DefinitionCheck) : Option QString :=
  match check.state with
  | .none => none
  | .partialPair => some (qs "cannot define " ++ plan.path ++
      qs ": a broken definition already exists here - remove it first")
  | _ => some (qs "cannot define " ++ plan.path ++ qs ": " ++
      if check.detail = [] then qs "a definition already exists" else check.detail)

structure DefineReply where
  message : QString
  id : ShareId
  activated : Bool
  deriving DecidableEq

inductive DefineCallSite
  | lock
  | define (site : DefineSite)
  deriving DecidableEq

/-- `define`, its error as the text the reply carries. -/
def defineOrFail (host : Host) (draws : ℕ → UInt64 × UInt64) (input : DefineInput) :
    Prog DefineCallSite World QString DefineReply := do
  match ← (Prog.mapSites DefineCallSite.define (define host draws input)).attempt with
  | .error error => Prog.raise error.text
  | .ok result =>
    return { message := qs "Defined " ++ input.unc ++ qs " -> " ++ input.mountPoint
             id := result.shareId, activated := result.activated }

/-- The body of `definesystem`. `trees` is what opening an authorized root finds. -/
def doDefine (host : Host) (draws : ℕ → UInt64 × UInt64) (caller : Caller) (args : Args)
    (trees : QString → Option Folder) : Prog DefineCallSite World QString DefineReply := do
  Prog.act .lock (qs "cannot acquire the helper lock") fun w => w
  let input ← Prog.ofExcept (readRequest host caller args)
  let check ← Prog.look fun w => inspectDefinition w input.unitName caller.uid input.mountPoint
  match definedProblem input.mountPlan check with
  | some problem => Prog.raise problem
  | none =>
    -- Nothing is written before the walk has gone through.
    match (openMountpointNoFollow input.mountPlan caller.uid caller.gid
        (trees input.mountPlan.root)).1 with
    | .error error => Prog.raise error
    | .ok _ => defineOrFail host draws input

section Rules

variable {host : Host} {draws : ℕ → UInt64 × UInt64} {caller : Caller} {args : Args}
  {input : DefineInput} {shareId : ShareId} {w w' : World}

/-- The first step authorizes the cleaned path and names its units. -/
theorem prepare_eq_ok {path : QString} {plan : MountpointPlan} {base : UnitName}
    (h : prepare host caller path = .ok (plan, base)) :
    plan.path = cleanPath path ∧ host.escape plan.path = some base ∧
      ∃ root, planBelow (cleanPath path) root = some (.ok plan) := by
  simp only [prepare, bind_eq_ok] at h
  obtain ⟨plan', hplan, hbase⟩ := h
  split at hbase
  · rename_i base' hescape
    obtain ⟨rfl, rfl⟩ := Prod.mk.inj (Except.ok.inj hbase)
    obtain ⟨root, hroot⟩ := validateMountpoint_ok hplan
    obtain ⟨below, -, hbelow, -⟩ := planBelow_ok hroot
    exact ⟨by rw [hbelow], hescape, root, hroot⟩
  · exact nomatch hbase

theorem readRequest_eq_ok (h : readRequest host caller args = .ok input) :
    prepare host caller (args.value (qs "path")) = .ok (input.mountPlan, input.unitName) ∧
      validateUnc (args.value (qs "unc")) = .ok input.unc ∧
      readAccess args = .ok input.access ∧ input.ownerUid = caller.uid ∧
      input.username = args.value (qs "username") := by
  simp only [readRequest, bind_eq_ok, pure_eq_ok, require_eq_ok] at h
  obtain ⟨target, htarget, unc, hunc, access, haccess, -, -, -, -, rfl⟩ := h
  exact ⟨htarget, hunc, haccess, rfl, rfl⟩

/-- The unit files of a definition are exactly the generated ones. -/
def Generates (input : DefineInput) (shareId : ShareId) (w : World) : Prop :=
  ∃ contents, input.contents shareId = .ok contents ∧
    GeneratedFiles w input.unitName contents.1 contents.2

theorem Generates.congr (h : Generates input shareId w) (hunits : w'.units = w.units)
    (hdropIns : w'.dropIns = w.dropIns) : Generates input shareId w' := by
  obtain ⟨contents, hcontents, hfiles⟩ := h
  have hprobe : ∀ key, probeUnitFile w' key = probeUnitFile w key := fun key => by
    simp only [probeUnitFile, World.unit?, hunits]
  exact ⟨contents, hcontents, (hprobe _).trans hfiles.mount, (hprobe _).trans hfiles.automount,
    fun half => hdropIns ▸ hfiles.noDropIn half⟩

theorem probeUnitFile_putUnit_self (w : World) (key : UnitKey) (content : QString) :
    probeUnitFile (w.putUnit key content) key = .ok content := by
  have hsafe : (rootFile .unitFile content).rootSafe = true := by
    simp [rootFile, FileNode.rootSafe, modeFor]
  simp only [probeUnitFile, World.unit?_putUnit_self, hsafe, if_true, rootFile_content]

theorem generates_putUnits {contents : QString × QString}
    (hcontents : input.contents shareId = .ok contents)
    (hdropIns : ∀ half, w.dropIns ⟨input.unitName, half⟩ = false) :
    Generates input shareId ((w.putUnit input.unitName.mount contents.1).putUnit
      input.unitName.automount contents.2) := by
  refine ⟨contents, hcontents, ?_, probeUnitFile_putUnit_self _ _ _, hdropIns⟩
  have hne : input.unitName.mount ≠ input.unitName.automount := nofun
  have hother := World.unit?_putUnit_ne (w.putUnit input.unitName.mount contents.1) hne contents.2
  rw [probeUnitFile, hother]
  exact probeUnitFile_putUnit_self w _ _

theorem wp_failCleanly_trivial {α : Type} {o : DefineSite → Outcome} {base : UnitName}
    {may : MayExist} {reason : QString} {Q : α → World → Prop} :
    Prog.wp o (failCleanly base shareId may reason : Prog _ _ _ α) Q (fun _ _ => True)
      (fun _ => True) w :=
  wp_failCleanly.mpr (Prog.wp_trivial _)

theorem wp_establishCredential_files {o : DefineSite → Outcome} {Q : PUnit → World → Prop}
    (done : ∀ w', w'.units = w.units → w'.dropIns = w.dropIns → Q ⟨⟩ w') :
    Prog.wp o (establishCredential input shareId) Q (fun _ _ => True) (fun _ => True) w := by
  unfold establishCredential
  cases input.authentication with
  | credentials =>
    dsimp only
    rw [wp_orCleanup, Prog.wp_mapSites]
    refine wp_credentialWrite (fun w1 h1 _ => done _ ?_ ?_) (fun _ _ _ => wp_failCleanly_trivial)
      (fun _ _ _ _ => wp_failCleanly_trivial) fun _ _ => trivial
    · rw [World.units_putFile, h1.units]
    · rw [World.dropIns_putFile, h1.dropIns]
  | guest =>
    dsimp only
    rw [Prog.wp_bind, Prog.wp_attempt, Prog.wp_mapSites]
    exact wp_credentialAssertAbsent (fun w1 h1 _ _ => done w1 h1.units h1.dropIns)
      (fun _ _ _ => wp_failCleanly_trivial) fun _ _ => trivial

theorem wp_armDefinition_files {o : DefineSite → Outcome} {Q : DefineOutput → World → Prop}
    (done : ∀ activated w', w'.units = w.units → w'.dropIns = w.dropIns →
      Q { shareId := shareId, activated := activated } w') :
    Prog.wp o (armDefinition host input shareId) Q (fun _ _ => True) (fun _ => True) w := by
  unfold armDefinition
  rw [Prog.wp_bind, wp_plainly, Prog.wp_mapSites]
  refine wp_armShare (fun result w1 hchange _ => ?_) fun _ _ => trivial
  cases result with
  | armed => exact done true w1 hchange.units hchange.dropIns
  | alreadyArmed => exact done true w1 hchange.units hchange.dropIns
  | needsAttention error safe =>
    cases safe with
    | false => trivial
    | true => exact wp_failCleanly_trivial

theorem wp_defineAs_generates {o : DefineSite → Outcome}
    (hdropIns : ∀ half, w.dropIns ⟨input.unitName, half⟩ = false) :
    Prog.wp o (defineAs host input shareId) (fun out w' => Generates input out.shareId w')
      (fun _ _ => True) (fun _ => True) w := by
  unfold defineAs
  rw [Prog.wp_bind, wp_plainly]
  refine Prog.wp_act_intro ?_ trivial trivial trivial
  rw [Prog.wp_bind]
  refine Prog.wp_ask_answer trivial fun mountExists _ => ?_
  rw [Prog.wp_bind]
  refine Prog.wp_ask_answer trivial fun automountExists _ => ?_
  split_ifs
  · trivial
  rw [Prog.wp_bind, wp_plainly, Prog.wp_ofExcept]
  refine ⟨fun contents hcontents => ?_, fun _ _ => trivial⟩
  rw [Prog.wp_bind, wp_orCleanup]
  refine Prog.wp_act_intro ?_ wp_failCleanly_trivial wp_failCleanly_trivial trivial
  rw [Prog.wp_bind, wp_orCleanup]
  refine Prog.wp_act_intro ?_ wp_failCleanly_trivial wp_failCleanly_trivial trivial
  rw [Prog.wp_bind]
  refine wp_establishCredential_files fun w1 hunits hdropIns1 => ?_
  rw [Prog.wp_bind, wp_orCleanup]
  refine Prog.wp_act_intro ?_ wp_failCleanly_trivial wp_failCleanly_trivial trivial
  refine wp_armDefinition_files fun activated w2 hunits2 hdropIns2 => ?_
  exact (generates_putUnits hcontents hdropIns).congr (hunits2.trans hunits)
    (hdropIns2.trans hdropIns1)

theorem wp_define_generates {o : DefineSite → Outcome}
    (hdropIns : ∀ half, w.dropIns ⟨input.unitName, half⟩ = false) :
    Prog.wp o (define host draws input) (fun out w' => Generates input out.shareId w')
      (fun _ _ => True) (fun _ => True) w := by
  unfold define
  rw [Prog.wp_bind, wp_plainly]
  refine wp_generateUniqueShareId (fun id w1 h1 _ _ => ?_) (fun _ _ _ => trivial)
    (fun _ _ => trivial) 8
  exact wp_defineAs_generates fun half => h1.dropIns ▸ hdropIns half

/-- The inspection reads back what `define` generated. -/
theorem Generates.inspect (h : Generates input shareId w) {raw : QString}
    (hunc : validateUnc raw = .ok input.unc) :
    inspectDefinition w input.unitName input.ownerUid input.mountPoint =
      { state := .pair, marker := some (input.marker shareId)
        canonicalMountPoint := input.mountPoint, what := input.unc } := by
  obtain ⟨contents, hcontents, hfiles⟩ := h
  simp only [DefineInput.contents, bind_eq_ok, pure_eq_ok] at hcontents
  obtain ⟨mountContent, hmount, automountContent, hautomount, rfl⟩ := hcontents
  exact inspectDefinition_pair hfiles (parseMarker_buildMountUnitContent hmount)
    (parseMarker_buildAutomountUnitContent hautomount)
    (validateMountUnitBody_buildMountUnitContent hunc hmount)
    (validateAutomountUnitBody_buildAutomountUnitContent hautomount)

theorem noDropIn_of_definedProblem {plan : MountpointPlan} {uid : UInt32} {mountPoint : QString}
    {base : UnitName} (h : definedProblem plan (inspectDefinition w base uid mountPoint) = none)
    (half : Half) : w.dropIns ⟨base, half⟩ = false := by
  have hstate : (inspectDefinition w base uid mountPoint).state = .none := by
    unfold definedProblem at h
    split at h
    · assumption
    · simp at h
    · simp at h
  unfold inspectDefinition at hstate
  dsimp only at hstate
  split_ifs at hstate with hunsafe hdropIn
  all_goals
    obtain ⟨hmount, hautomount⟩ := not_or.mp hdropIn
    cases half with
    | mount => exact Bool.eq_false_iff.mpr hmount
    | automount => exact Bool.eq_false_iff.mpr hautomount

/-- A call that succeeds found nothing at the path, walked to it, and left the
generated pair. -/
theorem wp_doDefine_generates {trees : QString → Option Folder} {o : DefineCallSite → Outcome}
    (hrequest : readRequest host caller args = .ok input) :
    Prog.wp o (doDefine host draws caller args trees)
      (fun reply w' => Generates input reply.id w') (fun _ _ => True) (fun _ => True) w := by
  unfold doDefine
  rw [Prog.wp_bind]
  refine Prog.wp_act_intro ?_ trivial trivial trivial
  rw [Prog.wp_bind, Prog.wp_ofExcept, hrequest]
  refine ⟨fun _ heq => ?_, fun _ _ => trivial⟩
  obtain rfl := Except.ok.inj heq
  rw [Prog.wp_bind, Prog.wp_look]
  cases hproblem : definedProblem input.mountPlan
      (inspectDefinition w input.unitName caller.uid input.mountPoint) with
  | some problem => trivial
  | none =>
    dsimp only
    split
    · trivial
    · rw [defineOrFail, Prog.wp_bind, Prog.wp_attempt, Prog.wp_mapSites]
      exact Prog.wp_mono _ (wp_define_generates (noDropIn_of_definedProblem hproblem))
        (fun _ _ h => h) (fun _ _ _ => trivial) fun _ _ => trivial

end Rules

end NasMount.Root
