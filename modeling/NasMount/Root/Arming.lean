import NasMount.Root.Files

/-!
# Arming and stopping

The stop gate, the arm gate, and the two routines behind them: `safeStop` and
`armShare`, with the compensation of a trigger this call started.
-/
namespace NasMount.Root

open NasMount.Foundation NasMount.Core QString

inductive StopPrecheck
  | shouldStop
  | alreadyInactive
  | correlationMismatch (error : QString)
  | indeterminate (error : QString)
  deriving DecidableEq

/-- The gate does not allow a stop, nor finds the runtime stopped. -/
def StopPrecheck.refuses : StopPrecheck → Bool
  | .shouldStop | .alreadyInactive => false
  | _ => true

/-- The runtime-correlation decision of `safeStop`. -/
def evaluateStopPrecheck (snap : RuntimeSnapshot) : StopPrecheck :=
  if snap.mount = .indeterminate ∨ snap.automount = .indeterminate then
    .indeterminate (qs "runtime state could not be determined")
  else if snap.mount = .present then
    if snap.verification ≠ .matched then
      .correlationMismatch
        (qs "the mount does not correlate with this definition (best-effort check failed)")
    else .shouldStop
  else if snap.automount = .active then
    if snap.activationTrust ≠ .trusted then
      .correlationMismatch (qs "the armed automount is not the instance this tool recorded")
    else .shouldStop
  else .alreadyInactive

inductive StopResult
  | stopped
  | alreadyInactive
  | busy (error : QString)
  | correlationMismatch (error : QString)
  | indeterminate (error : QString)
  deriving DecidableEq

/-- The error of a refused stop. -/
def StopResult.refusal : StopResult → Option QString
  | .stopped | .alreadyInactive => none
  | .busy error | .correlationMismatch error | .indeterminate error => some error

inductive StopSite
  | read (site : ReadSite)
  | stop (half : Half)
  deriving DecidableEq

/-- Both stops are issued even when the first one fails. -/
def stopBoth (host : Host) (base : UnitName) : Prog StopSite World QString StopResult := do
  let mountStop ← (SystemdOps.stop host (StopSite.stop .mount) base.mount).attempt
  let automountStop ← (SystemdOps.stop host (StopSite.stop .automount) base.automount).attempt
  match mountStop, automountStop with
  | .ok _, .ok _ => pure .stopped
  | .error error, _ => pure (.busy error)
  | .ok _, .error error => pure (.busy error)

/-- Stop both halves, but only a runtime that passes the gate. -/
def safeStop (host : Host) (base : UnitName) (mountPoint expectedWhat : QString) :
    Prog StopSite World QString StopResult := do
  let snap ← Prog.mapSites .read (inspectRuntime base mountPoint expectedWhat)
  match evaluateStopPrecheck snap with
  | .indeterminate error => pure (.indeterminate error)
  | .correlationMismatch error => pure (.correlationMismatch error)
  | .alreadyInactive => pure .alreadyInactive
  | .shouldStop => stopBoth host base

inductive ArmPrecheck
  | readyToArm
  | alreadyArmed
  | blocked (error : QString)
  deriving DecidableEq

def evaluateArmPrecheck (snapshot : RuntimeSnapshot) : ArmPrecheck :=
  if snapshot.mount = .indeterminate ∨ snapshot.automount = .indeterminate then
    .blocked (qs "runtime state could not be determined")
  else if snapshot.mount = .present then .blocked (qs "a live mount already occupies the path")
  else if snapshot.automount = .active then
    if snapshot.activationTrust = .trusted then .alreadyArmed
    else
      .blocked
        (qs "an active automount has no matching recorded instance -- refusing to bless it")
  else .readyToArm

inductive ArmShareResult
  | armed
  | alreadyArmed
  | needsAttention (error : QString) (definitionCleanupSafe : Bool)
  deriving DecidableEq

structure ArmShareRequest where
  shareId : ShareId
  authentication : AuthenticationKind
  plan : MountpointPlan
  unitName : UnitName
  what : QString

inductive CompensationSite
  | mountId
  | stop
  | record (site : DirSite)
  deriving DecidableEq

inductive ArmSite
  | inspect (site : ReadSite)
  | credential (site : DirSite)
  | walk
  | start
  | reinspect (site : ReadSite)
  | startedId
  | record (site : DirSite)
  | compensation (site : CompensationSite)
  deriving DecidableEq

/-- Stop exactly the instance this call started: the error text, and whether it
is known to be stopped. -/
def stopStartedAutomount (host : Host) (unitName : UnitName) (mountPoint : QString)
    (startedId : UInt64) : Prog CompensationSite World QString (QString × Bool) := do
  if startedId = 0 then
    return (qs "could not identify the automount instance started by this call", false)
  let currentId ← Prog.ask .mountId (fun w => w.sys.mountId mountPoint) 0
  if currentId = 0 ∨ currentId ≠ startedId then
    return (qs "the started automount instance changed before compensation", false)
  match ← (SystemdOps.stop host CompensationSite.stop unitName.automount).attempt with
  | .error error => return (error, false)
  | .ok _ =>
    -- The trigger is stopped, so a record that stays is no authority any more.
    match ← (Prog.mapSites CompensationSite.record
      (RuntimeFiles.removeAutomountId unitName)).attempt with
    | .ok _ => return ([], true)
    | .error error =>
      return (qs "trigger stopped, but automount-id cleanup failed (" ++ error ++ qs ")", true)

/-- The `fail` of `armShare`: compensate a trigger this call started. -/
def armFailed (host : Host) (req : ArmShareRequest) (started : Option UInt64) (message : QString)
    (cleanupSafe : Bool) : Prog ArmSite World QString ArmShareResult := do
  match started with
  | none => return .needsAttention message cleanupSafe
  | some startedId =>
    let (stopError, stopped) ← Prog.mapSites ArmSite.compensation
      (stopStartedAutomount host req.unitName req.plan.path startedId)
    let text := if stopError = [] then message
      else message ++ qs "; compensation failed (" ++ stopError ++ qs ")"
    return .needsAttention text (cleanupSafe && stopped)

/-- The credential check of `armShare`: healthy for an authenticated share,
absent for a guest. -/
def checkCredential (req : ArmShareRequest) : Prog DirSite World QString PUnit :=
  match req.authentication with
  | .credentials => CredentialStore.healthy req.shareId
  | .guest => CredentialStore.assertAbsent req.shareId

/-- The text for a credential check that failed without one. -/
def credentialProblem (authentication : AuthenticationKind) (error : QString) : QString :=
  if error ≠ [] then error
  else
    match authentication with
    | .credentials => qs "credential is missing or unhealthy"
    | .guest => qs "internal error: unexpected credential artifact for a guest share"

/-- A failed start does not prove that systemd left the unit inactive. -/
def startFailed (host : Host) (req : ArmShareRequest) (error : QString) :
    Prog ArmSite World QString ArmShareResult := do
  let after ← Prog.mapSites ArmSite.reinspect (inspectRuntime req.unitName req.plan.path req.what)
  if after.automount = .active ∧ after.mount = .absent then
    let startedId ← Prog.ask ArmSite.startedId (fun w => w.sys.mountId req.plan.path) 0
    armFailed host req (some startedId) error true
  else
    armFailed host req none error (decide (after.automount = .inactive ∧ after.mount = .absent))

/-- Record the instance this call started. -/
def recordStarted (host : Host) (req : ArmShareRequest) :
    Prog ArmSite World QString ArmShareResult := do
  let id ← Prog.ask ArmSite.startedId (fun w => w.sys.mountId req.plan.path) 0
  if id = 0 then
    armFailed host req (some id) (qs "kernel does not support recording the instance id") true
  else
    match ← (Prog.mapSites ArmSite.record
      (RuntimeFiles.writeAutomountId req.unitName id)).attempt with
    | .ok _ => return .armed
    | .error error => armFailed host req (some id) error true

/-- Arm one share at a path the caller may create. Nothing is recorded for a
trigger whose instance is not identified, and a trigger that cannot be recorded
is stopped again. -/
def armShare (host : Host) (req : ArmShareRequest) : Prog ArmSite World QString ArmShareResult := do
  let snapshot ← Prog.mapSites ArmSite.inspect (inspectRuntime req.unitName req.plan.path req.what)
  match evaluateArmPrecheck snapshot with
  | .blocked error => armFailed host req none error true
  | .alreadyArmed => return .alreadyArmed
  | .readyToArm =>
    match ← (Prog.mapSites ArmSite.credential (checkCredential req)).attempt with
    | .error error =>
      armFailed host req none (credentialProblem req.authentication error) true
    | .ok _ =>
      match ← (Prog.act ArmSite.walk (qs "cannot prepare " ++ req.plan.path)
        fun w => w).attempt with
      | .error error => armFailed host req none error true
      | .ok _ =>
        match ← (SystemdOps.start host ArmSite.start req.unitName.automount).attempt with
        | .error error => startFailed host req error
        | .ok _ => recordStarted host req

section Rules

variable {E : QString → World → Prop} {C : World → Prop} {w w' w'' : World} {base : UnitName}

/-- What arming and stopping one share may change: the runtime, the record of
the share, and empty private roots. -/
structure RuntimeChange (base : UnitName) (w w' : World) : Prop where
  units : w'.units = w.units
  dropIns : w'.dropIns = w.dropIns
  loaded : w'.loaded = w.loaded
  files : ∀ root name, root ≠ .automountIds ∨ name ≠ base.text →
    w'.file? root name = w.file? root name
  /-- A record this call may have left can be removed again. -/
  record : w'.file? .automountIds base.text = w.file? .automountIds base.text ∨
    w'.file? .automountIds base.text = none ∨ Usable .automountIds w'
  usable : ∀ root, Usable root w → Usable root w'
  ready : ∀ root, Ready root w → Ready root w'

theorem RuntimeChange.refl (base : UnitName) (w : World) : RuntimeChange base w w :=
  ⟨rfl, rfl, rfl, fun _ _ _ => rfl, Or.inl rfl, fun _ h => h, fun _ h => h⟩

theorem RuntimeChange.trans (h : RuntimeChange base w w') (h' : RuntimeChange base w' w'') :
    RuntimeChange base w w'' where
  units := h'.units.trans h.units
  dropIns := h'.dropIns.trans h.dropIns
  loaded := h'.loaded.trans h.loaded
  files root name hne := (h'.files root name hne).trans (h.files root name hne)
  record := by
    rcases h'.record with hsame | hnone
    · rw [hsame]
      exact h.record.imp_right (Or.imp_right (h'.usable _))
    · exact Or.inr hnone
  usable root hu := h'.usable root (h.usable root hu)
  ready root hr := h'.ready root (h.ready root hr)

theorem RuntimeChange.unit? (h : RuntimeChange base w w') (key : UnitKey) :
    w'.unit? key = w.unit? key := by
  rw [World.unit?, World.unit?, h.units]

theorem RuntimeChange.credential (h : RuntimeChange base w w') (name : QString) :
    w'.file? .credentials name = w.file? .credentials name :=
  h.files .credentials name (Or.inl fun hne => nomatch hne)

theorem Quiet.runtimeChange (h : Quiet w w') (base : UnitName) : RuntimeChange base w w' where
  units := h.units
  dropIns := h.dropIns
  loaded := h.loaded
  files root name _ := h.files root name
  record := Or.inl (h.files _ _)
  usable := h.usable
  ready := h.ready

theorem runtimeChange_sys (base : UnitName) (w : World) (sys : Sys) :
    RuntimeChange base w { w with sys := sys } :=
  ⟨rfl, rfl, rfl, fun _ _ _ => rfl, Or.inl rfl, fun _ h => h, fun _ h => h⟩

theorem runtimeChange_putRecord (husable : Usable .automountIds w) (content : QString) :
    RuntimeChange base w (w.putFile .automountIds base.text content) where
  units := World.units_putFile _ _ _ _
  dropIns := World.dropIns_putFile _ _ _ _
  loaded := World.loaded_updateFiles _ _ _
  files _ _ hne := World.file?_putFile_ne _ _ hne _
  record := Or.inr (Or.inr (usable_updateFiles husable))
  usable _ hu := usable_updateFiles hu
  ready _ hr := ready_updateFiles hr

theorem runtimeChange_dropRecord (base : UnitName) (w : World) :
    RuntimeChange base w (w.dropFile .automountIds base.text) where
  units := World.units_dropFile _ _ _
  dropIns := World.dropIns_dropFile _ _ _
  loaded := World.loaded_updateFiles _ _ _
  files _ _ hne := World.file?_dropFile_ne _ _ hne
  record := Or.inr (Or.inl (World.file?_dropFile_self _ _ _))
  usable _ hu := usable_updateFiles hu
  ready _ hr := ready_updateFiles hr

section SafeStop

variable {o : StopSite → Outcome} {mountPoint what : QString} {Q : StopResult → World → Prop}
  {host : Host}

/-- The gate's decision under a schedule, unless the process is killed in a read. -/
def stopDecision (o : StopSite → Outcome) (w : World) (base : UnitName)
    (mountPoint what : QString) :
    Option StopPrecheck :=
  if readSites.any fun site => o (.read site) = .killed then none
  else
    let reads := w.readsUnder (fun site => o (.read site)) base mountPoint
    some (evaluateStopPrecheck (snapshotOf reads mountPoint what))

/-- A stop goes through: nothing to stop, or both stops succeed. -/
def stopPasses (o : StopSite → Outcome) (w : World) (base : UnitName) (mountPoint what : QString) :
    Bool :=
  match stopDecision o w base mountPoint what with
  | some .alreadyInactive => true
  | some .shouldStop => o (.stop .mount) = .ok && o (.stop .automount) = .ok
  | _ => false

/-- The runtime after both stops were issued, of which some may have no effect. -/
def sysAfterStops (host : Host) (o : StopSite → Outcome) (base : UnitName) (sys : Sys) : Sys :=
  let mountStopped := if (o (.stop .mount)).effective then host.stop base.mount sys else sys
  if o (.stop .mount) ≠ .killed ∧ (o (.stop .automount)).effective then
    host.stop base.automount mountStopped
  else mountStopped

/-- The runtime a stop leaves under a schedule. -/
def sysUnder (host : Host) (o : StopSite → Outcome) (w : World) (base : UnitName)
    (mountPoint what : QString) : Sys :=
  match stopDecision o w base mountPoint what with
  | some .shouldStop => sysAfterStops host o base w.sys
  | _ => w.sys

theorem wp_stopBoth
    (stopped : o (.stop .mount) = .ok ∧ o (.stop .automount) = .ok →
      Q .stopped { w with sys := sysAfterStops host o base w.sys })
    (refused : ¬(o (.stop .mount) = .ok ∧ o (.stop .automount) = .ok) → ∀ error,
      Q (.busy error) { w with sys := sysAfterStops host o base w.sys })
    (dead : ¬(o (.stop .mount) = .ok ∧ o (.stop .automount) = .ok) → (∃ site, o site = .killed) →
      C { w with sys := sysAfterStops host o base w.sys }) :
    Prog.wp o (stopBoth host base) Q E C w := by
  unfold stopBoth SystemdOps.stop
  unfold sysAfterStops at stopped refused dead
  simp only [Prog.wp_bind, Prog.wp_attempt, Prog.wp_act]
  cases hmount : o (.stop .mount) with
  | killed => simpa [hmount, Outcome.effective] using dead (by simp [hmount]) ⟨_, hmount⟩
  | ok =>
    cases hautomount : o (.stop .automount) with
    | killed =>
      simpa [hmount, hautomount, Outcome.effective]
        using dead (by simp [hautomount]) ⟨_, hautomount⟩
    | ok => simpa [hmount, hautomount, Outcome.effective] using stopped
    | failed applied =>
      cases applied <;> simp [hmount, hautomount, Outcome.effective] at refused <;>
        exact refused _
  | failed applied =>
    cases hautomount : o (.stop .automount) with
    | killed =>
      have hdead := dead (by simp [hautomount]) ⟨_, hautomount⟩
      cases applied <;> simpa [hmount, hautomount, Outcome.effective] using hdead
    | ok =>
      cases applied <;> simp [hmount, hautomount, Outcome.effective] at refused <;>
        exact refused _
    | failed applied' =>
      cases applied <;> cases applied' <;>
        simp [hmount, hautomount, Outcome.effective] at refused <;> exact refused _

/-- What a stop decides and does is known from the schedule. -/
theorem wp_safeStop
    (passed : stopPasses o w base mountPoint what = true → ∀ result, result.refusal = none →
      Q result { w with sys := sysUnder host o w base mountPoint what })
    (refused : stopPasses o w base mountPoint what = false → ∀ result error,
      result.refusal = some error →
        Q result { w with sys := sysUnder host o w base mountPoint what })
    (dead : stopPasses o w base mountPoint what = false → (∃ site, o site = .killed) →
      C { w with sys := sysUnder host o w base mountPoint what }) :
    Prog.wp o (safeStop host base mountPoint what) Q E C w := by
  unfold safeStop
  rw [Prog.wp_bind, Prog.wp_mapSites, wp_inspectRuntime_iff]
  unfold stopPasses sysUnder at passed refused dead
  by_cases hkilled : readSites.any (fun site => o (.read site) = .killed) = true
  · rw [if_pos hkilled]
    obtain ⟨site, -, hsite⟩ := List.any_eq_true.mp hkilled
    have hdead := fun h => dead h ⟨.read site, of_decide_eq_true hsite⟩
    simpa [stopDecision, hkilled] using hdead
  rw [if_neg hkilled]
  rw [stopDecision, if_neg hkilled] at passed refused dead
  cases hgate : evaluateStopPrecheck (snapshotOf
      (w.readsUnder (fun site => o (.read site)) base mountPoint) mountPoint what) with
  | indeterminate error =>
    simp only [hgate] at refused
    exact refused trivial _ error rfl
  | correlationMismatch error =>
    simp only [hgate] at refused
    exact refused trivial _ error rfl
  | alreadyInactive =>
    simp only [hgate] at passed
    exact passed trivial _ rfl
  | shouldStop =>
    simp only [hgate, ← Bool.not_eq_true, Bool.and_eq_true, decide_eq_true_eq]
      at passed refused dead
    exact wp_stopBoth (fun h => passed h _ rfl) (fun h error => refused h _ error rfl) dead

/-- A stop changes nothing but the runtime. -/
theorem keeps_safeStop {I : World → Prop} (hsys : ∀ s sys, I s → I { s with sys := sys }) :
    Prog.Keeps I (safeStop host base mountPoint what) :=
  fun _ s hs => wp_safeStop (fun _ _ _ => hsys s _ hs) (fun _ _ _ _ => hsys s _ hs)
    fun _ _ => hsys s _ hs

end SafeStop

theorem wp_removeAutomountId {o : DirSite → Outcome} {Q : PUnit → World → Prop}
    (done : ∀ w', Quiet w w' → Usable .automountIds w' →
      Q ⟨⟩ (w'.dropFile .automountIds base.text))
    (failed : ∀ e w', RuntimeChange base w w' → w'.sys = w.sys → E e w')
    (dead : ∀ w', Quiet w w' → C w') :
    Prog.wp o (RuntimeFiles.removeAutomountId base) Q E C w := by
  refine wp_openPrivateRoot_act done (fun e w' h => failed e w' (h.runtimeChange base) h.sys)
    (fun e w' h _ => ?_) dead
  exact failed e _ ((h.runtimeChange base).trans (runtimeChange_dropRecord base w'))
    ((World.sys_dropFile _ _ _).trans h.sys)

/-- The trigger of the share is not active. -/
def Stopped (base : UnitName) (w : World) : Prop :=
  w.sys.activeState base.automount = some (qs "inactive") ∨
    w.sys.activeState base.automount = some (qs "failed")

/-- The trigger of the share is active and recorded as the present instance. -/
structure Armed (base : UnitName) (path : QString) (w : World) : Prop where
  active : w.sys.activeState base.automount = some (qs "active")
  identified : w.sys.mountId path ≠ 0
  recorded : readRecordedAutomountId w base = w.sys.mountId path

variable {host : Host}

theorem wp_stopStartedAutomount {o : CompensationSite → Outcome} {path : QString} {id : UInt64}
    {Q : QString × Bool → World → Prop}
    (done : ∀ r w', RuntimeChange base w w' → (r.2 = true → Stopped base w') → Q r w')
    (dead : ∀ w', RuntimeChange base w w' → C w') :
    Prog.wp o (stopStartedAutomount host base path id) Q E C w := by
  have hrefl := RuntimeChange.refl base w
  have hstop := runtimeChange_sys base w (host.stop base.automount w.sys)
  unfold stopStartedAutomount
  split_ifs
  · exact done _ _ hrefl fun h => nomatch h
  rw [Prog.wp_bind]
  refine Prog.wp_ask_answer (dead _ hrefl) fun current _ => ?_
  split_ifs
  · exact done _ _ hrefl fun h => nomatch h
  rw [Prog.wp_bind, Prog.wp_attempt]
  refine Prog.wp_act_intro ?_ (done _ _ hrefl fun h => nomatch h)
    (done _ _ hstop fun h => nomatch h) (dead _ hrefl)
  -- From here on the trigger is stopped, whatever happens to its record.
  have hstopped : Stopped base { w with sys := host.stop base.automount w.sys } :=
    host.stop_inactive base.automount w.sys
  rw [Prog.wp_bind, Prog.wp_attempt, Prog.wp_mapSites]
  refine wp_removeAutomountId (fun w' hquiet _ => ?_) (fun e w' hchange hsys => ?_)
    fun w' hquiet => dead _ (hstop.trans (hquiet.runtimeChange base))
  · refine done _ _ ((hstop.trans (hquiet.runtimeChange base)).trans
      (runtimeChange_dropRecord base w')) fun _ => ?_
    rw [Stopped, World.sys_dropFile, hquiet.sys]
    exact hstopped
  · refine done _ _ (hstop.trans hchange) fun _ => ?_
    rw [Stopped, hsys]
    exact hstopped

variable {req : ArmShareRequest}

/-- What a result of `armShare` says about the trigger. -/
def ArmResult (req : ArmShareRequest) (w : World) : ArmShareResult → World → Prop
  | .armed, w' | .alreadyArmed, w' => Armed req.unitName req.plan.path w'
  | .needsAttention _ safe, w' => safe = true → w'.sys = w.sys ∨ Stopped req.unitName w'

theorem wp_armFailed {o : ArmSite → Outcome} {started : Option UInt64} {message : QString}
    {safe : Bool} {Q : ArmShareResult → World → Prop} (hw' : RuntimeChange req.unitName w w')
    (hnone : started = none → safe = true → w'.sys = w.sys ∨ Stopped req.unitName w')
    (done : ∀ r w'', RuntimeChange req.unitName w w'' → ArmResult req w r w'' → Q r w'')
    (dead : ∀ w'', RuntimeChange req.unitName w w'' → C w'') :
    Prog.wp o (armFailed host req started message safe) Q E C w' := by
  cases started with
  | none => exact done _ _ hw' (hnone rfl)
  | some startedId =>
    unfold armFailed
    rw [Prog.wp_bind, Prog.wp_mapSites]
    refine wp_stopStartedAutomount (fun r w'' hchange hstopped => ?_)
      fun w'' hchange => dead _ (hw'.trans hchange)
    refine done _ _ (hw'.trans hchange) fun hsafe => Or.inr (hstopped ?_)
    exact (Bool.and_eq_true _ _ ▸ hsafe).2

theorem wp_checkCredential {o : DirSite → Outcome} {Q : PUnit → World → Prop}
    (done : ∀ w', Quiet w w' → Q ⟨⟩ w') (failed : ∀ e w', Quiet w w' → E e w')
    (dead : ∀ w', Quiet w w' → C w') : Prog.wp o (checkCredential req) Q E C w := by
  unfold checkCredential
  cases req.authentication with
  | credentials => exact wp_credentialHealthy (fun w' h _ => done w' h) failed dead
  | guest => exact wp_credentialAssertAbsent (fun w' h _ _ => done w' h) failed dead

theorem armed_of_alreadyArmed {reads : RuntimeReads}
    (hreads : ReadsOf w req.unitName req.plan.path reads)
    (h : evaluateArmPrecheck (snapshotOf reads req.plan.path req.what) = .alreadyArmed) :
    Armed req.unitName req.plan.path w := by
  have htrusted : trustAxis reads = .trusted := by
    unfold evaluateArmPrecheck at h
    split_ifs at h with _ _ _ ht
    exact ht
  obtain ⟨hactive, hrecorded, hsame⟩ := trustAxis_eq_trusted.mp htrusted
  have hrec := hreads.recorded.resolve_left hrecorded
  have hcur := hreads.current.resolve_left (hsame ▸ hrecorded)
  refine ⟨?_, hcur ▸ hsame ▸ hrecorded, hrec ▸ hcur ▸ hsame⟩
  rw [← hreads.automountState.resolve_left fun hnone => nomatch hactive ▸ hnone]
  exact hactive

theorem wp_writeAutomountId {o : DirSite → Outcome} {id : UInt64} {Q : PUnit → World → Prop}
    (done : ∀ w', RuntimeChange base w w' → w'.sys = w.sys →
      readRecordedAutomountId w' base = id → Q ⟨⟩ w')
    (failed : ∀ e w', RuntimeChange base w w' → E e w')
    (dead : ∀ w', RuntimeChange base w w' → C w') :
    Prog.wp o (RuntimeFiles.writeAutomountId base id) Q E C w := by
  have hput : ∀ {w'}, Quiet w w' → Usable .automountIds w' →
      RuntimeChange base w (w'.putFile .automountIds base.text (number id.toNat)) :=
    fun hquiet husable => (hquiet.runtimeChange base).trans (runtimeChange_putRecord husable _)
  refine wp_openPrivateRoot_act (fun w' hquiet husable => ?_)
    (fun e w' hquiet => failed e w' (hquiet.runtimeChange base))
    (fun e w' hquiet husable => failed e _ (hput hquiet husable))
    fun w' hquiet => dead w' (hquiet.runtimeChange base)
  have hchange := hput hquiet husable
  obtain ⟨dir, hdir, -⟩ := husable
  refine done _ hchange ((World.sys_putFile _ _ _ _).trans hquiet.sys)
    (readRecordedAutomountId_rootFile ?_)
  exact World.file?_putFile_self _ _ hdir _ _

section ArmShare

variable {o : ArmSite → Outcome} {Q : ArmShareResult → World → Prop}

theorem wp_startFailed {error : QString} (hw' : RuntimeChange req.unitName w w')
    (done : ∀ r w'', RuntimeChange req.unitName w w'' → ArmResult req w r w'' → Q r w'')
    (dead : ∀ w'', RuntimeChange req.unitName w w'' → C w'') :
    Prog.wp o (startFailed host req error) Q E C w' := by
  unfold startFailed
  rw [Prog.wp_bind, Prog.wp_mapSites]
  refine wp_inspectRuntime (dead _ hw') fun reads hreads => ?_
  split_ifs
  · rw [Prog.wp_bind]
    exact Prog.wp_ask_answer (dead _ hw') fun startedId _ =>
      wp_armFailed hw' (fun hnone => nomatch hnone) done dead
  · refine wp_armFailed hw' (fun _ hsafe => Or.inr ?_) done dead
    -- The unit was read as inactive, so the read did not fail.
    have hread := automountAxis_eq_inactive.mp (of_decide_eq_true hsafe).1
    have hstate := hreads.automountState.resolve_left fun hnone => by simp [hnone] at hread
    rwa [hstate] at hread

theorem wp_recordStarted (hw' : RuntimeChange req.unitName w w')
    (hactive : w'.sys.activeState req.unitName.automount = some (qs "active"))
    (done : ∀ r w'', RuntimeChange req.unitName w w'' → ArmResult req w r w'' → Q r w'')
    (dead : ∀ w'', RuntimeChange req.unitName w w'' → C w'') :
    Prog.wp o (recordStarted host req) Q E C w' := by
  have hfail : ∀ {started message w''}, RuntimeChange req.unitName w w'' →
      Prog.wp o (armFailed host req (some started) message true) Q E C w'' :=
    fun h => wp_armFailed h (fun hnone => nomatch hnone) done dead
  unfold recordStarted
  rw [Prog.wp_bind]
  refine Prog.wp_ask_answer (dead _ hw') fun id hid => ?_
  split_ifs with hzero
  · exact hfail hw'
  rw [Prog.wp_bind, Prog.wp_attempt, Prog.wp_mapSites]
  refine wp_writeAutomountId (fun w'' hw'' hsys hrecorded => ?_)
    (fun e w'' hw'' => hfail (hw'.trans hw'')) fun w'' hw'' => dead w'' (hw'.trans hw'')
  have hread := hid.resolve_left hzero
  refine done _ _ (hw'.trans hw'') ⟨hsys ▸ hactive, ?_, ?_⟩
  · rw [hsys, ← hread]
    exact hzero
  · rw [hrecorded, hsys, hread]

theorem wp_armShare
    (done : ∀ r w', RuntimeChange req.unitName w w' → ArmResult req w r w' → Q r w')
    (dead : ∀ w', RuntimeChange req.unitName w w' → C w') :
    Prog.wp o (armShare host req) Q E C w := by
  have hrefl := RuntimeChange.refl req.unitName w
  unfold armShare
  rw [Prog.wp_bind, Prog.wp_mapSites]
  refine wp_inspectRuntime (dead _ hrefl) fun reads hreads => ?_
  split
  · exact wp_armFailed hrefl (fun _ _ => Or.inl rfl) done dead
  · rename_i halready
    exact done _ _ hrefl (armed_of_alreadyArmed hreads halready)
  rw [Prog.wp_bind, Prog.wp_attempt, Prog.wp_mapSites]
  refine wp_checkCredential (fun w1 h1 => ?_)
    (fun e w1 h1 => wp_armFailed (h1.runtimeChange _) (fun _ _ => Or.inl h1.sys) done dead)
    fun w1 h1 => dead w1 (h1.runtimeChange _)
  have hw1 := h1.runtimeChange req.unitName
  have hwalk : ∀ e, Prog.wp o (armFailed host req none e true) Q E C w1 :=
    fun e => wp_armFailed hw1 (fun _ _ => Or.inl h1.sys) done dead
  dsimp only
  rw [Prog.wp_bind, Prog.wp_attempt]
  refine Prog.wp_act_intro ?_ (hwalk _) (hwalk _) (dead _ hw1)
  have hstart := hw1.trans
    (runtimeChange_sys req.unitName w1 (host.start req.unitName.automount w1.sys))
  dsimp only
  rw [Prog.wp_bind, Prog.wp_attempt]
  exact Prog.wp_act_intro (wp_recordStarted hstart (host.start_active _ _) done dead)
    (wp_startFailed hw1 done dead) (wp_startFailed hstart done dead) (dead _ hw1)

end ArmShare

end Rules

end NasMount.Root
