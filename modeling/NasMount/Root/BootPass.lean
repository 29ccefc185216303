import NasMount.Core.Pairing
import NasMount.Root.DefineStability

/-!
# The arming pass of a boot

A oneshot of systemd arms every complete definition of every owner. A share that
cannot be armed leaves a line and never ends the pass. The pass touches no file
of a definition, and what happens to one share does not keep another from being
armed.
-/
namespace NasMount.Root

open NasMount.Foundation NasMount.Core QString

inductive BootSite
  | lock
  | arm (base : UnitName) (site : ArmSite)
  deriving DecidableEq

structure BootReport where
  log : List QString := []
  attempted : ℕ := 0
  skipped : ℕ := 0
  deriving DecidableEq

namespace BootReport

def text (report : BootReport) : QString :=
  qs "processed " ++ number report.attempted ++ qs " share(s), " ++ number report.skipped ++
    qs " skipped (not a valid pair)"

/-- A share that was attempted, with the line it left. -/
def attempt (report : BootReport) (lines : List QString) : BootReport :=
  { report with log := report.log ++ lines, attempted := report.attempted + 1 }

def skip (report : BootReport) (line : QString) : BootReport :=
  { report with log := report.log ++ [line], skipped := report.skipped + 1 }

end BootReport

def unarmed (label reason : QString) : QString :=
  label ++ qs ": " ++ reason ++ qs " -- leaving unarmed"

/-- What a share is armed with, or the line that says why it is not. The account is
looked up for its home only; the ids are those of the marker. -/
def bootRequest (host : Host) (homeOf : UInt32 → Option QString) (w : World) (unit : OwnedUnit)
    (marker : Marker) : Except QString ArmShareRequest :=
  match homeOf marker.ownerUid with
  | none =>
    .error (unarmed unit.mountPoint (qs "owner uid " ++ number marker.ownerUid.toNat ++
      qs " no longer resolves to an account"))
  | some home => do
    let plan ← (validateMountpoint unit.mountPoint home).mapError (unarmed unit.mountPoint)
    require (host.escape plan.path = some unit.unitName)
      (unarmed unit.mountPoint (qs "unit name does not re-derive from its own Where="))
    -- The enumeration is only the light scan.
    let check := inspectDefinition w unit.unitName marker.ownerUid plan.path
    require (check.state = .pair)
      (unarmed plan.path (if check.detail = [] then qs "failed re-validation" else check.detail))
    return { shareId := marker.id, authentication := marker.authentication, plan := plan
             unitName := unit.unitName, what := check.what }

/-- One share's attempt. Every failure becomes a line. -/
def armOneShare (host : Host) (homeOf : UInt32 → Option QString) (unit : OwnedUnit)
    (marker : Marker) :
    Prog BootSite World QString (List QString) := do
  let request ← Prog.look fun w => bootRequest host homeOf w unit marker
  match request with
  | .error line => return [line]
  | .ok request =>
    match ← Prog.mapSites (.arm unit.unitName) (armShare host request) with
    | .needsAttention error _ => return [request.plan.path ++ qs ": " ++ error]
    | .armed | .alreadyArmed => return []

/-- One entry of the enumeration. A pair has a marker. -/
def visitUnit (host : Host) (homeOf : UInt32 → Option QString) (report : BootReport)
    (unit : OwnedUnit) :
    Prog BootSite World QString BootReport :=
  match unit.state, unit.marker with
  | .pair, some marker => do
    let lines ← armOneShare host homeOf unit marker
    return report.attempt lines
  | _, _ =>
    let label := if unit.mountPoint = [] then unit.unitName.text else unit.mountPoint
    return report.skip (unarmed label
      (if unit.detail = [] then qs "not a complete, agreeing pair" else unit.detail))

def visitUnits (host : Host) (homeOf : UInt32 → Option QString) :
    List OwnedUnit → BootReport → Prog BootSite World QString BootReport
  | [], report => pure report
  | unit :: rest, report => do
    let report ← visitUnit host homeOf report unit
    visitUnits host homeOf rest report

/-- `main` of the oneshot. Only a lock that cannot be acquired makes it fail. -/
def bootPass (host : Host) (homeOf : UInt32 → Option QString) :
    Prog BootSite World QString BootReport := do
  Prog.act .lock (qs "cannot acquire the root lock: ") fun w => w
  let units ← Prog.look enumerateManagedUnits
  let report ← visitUnits host homeOf units {}
  return { report with log := report.log ++ [report.text] }

section Request

variable {host : Host} {homeOf : UInt32 → Option QString} {w w' : World} {unit : OwnedUnit}
  {marker : Marker} {req : ArmShareRequest}

theorem inspectDefinition_congr {base : UnitName} (hunits : w'.units = w.units)
    (hdropIns : w'.dropIns = w.dropIns) (uid : UInt32) (mountPoint : QString) :
    inspectDefinition w' base uid mountPoint = inspectDefinition w base uid mountPoint := by
  have hprobe : ∀ key, probeUnitFile w' key = probeUnitFile w key := by
    intro key
    rw [probeUnitFile, probeUnitFile, World.unit?, World.unit?, hunits]
  simp only [inspectDefinition, hprobe, hdropIns]

theorem bootRequest_congr (hunits : w'.units = w.units) (hdropIns : w'.dropIns = w.dropIns) :
    bootRequest host homeOf w' unit marker = bootRequest host homeOf w unit marker := by
  simp only [bootRequest, inspectDefinition_congr hunits hdropIns]

/-- Everything that stands behind an attempt. -/
theorem bootRequest_eq_ok :
    bootRequest host homeOf w unit marker = .ok req ↔
      ∃ home plan, homeOf marker.ownerUid = some home ∧
        validateMountpoint unit.mountPoint home = .ok plan ∧
        host.escape plan.path = some unit.unitName ∧
        (inspectDefinition w unit.unitName marker.ownerUid plan.path).state = .pair ∧
        req = { shareId := marker.id, authentication := marker.authentication, plan := plan
                unitName := unit.unitName
                what := (inspectDefinition w unit.unitName marker.ownerUid plan.path).what } := by
  unfold bootRequest
  cases homeOf marker.ownerUid with
  | none => simp
  | some home =>
    simp only [bind_eq_ok, mapError_eq_ok, require_eq_ok, pure_eq_ok, decide_eq_true_eq,
      Option.some.injEq, exists_eq_left', eq_comm (b := req), exists_and_left, exists_const]

end Request

section Safety

variable {host : Host} {homeOf : UInt32 → Option QString} {armed : UnitName → Prop} {w w' : World}
  {base : UnitName} {unit : OwnedUnit}

/-- The runtime changed by starts and stops of the triggers of the given shares. -/
inductive Driven (host : Host) (armed : UnitName → Prop) : Sys → Sys → Prop
  | refl (sys : Sys) : Driven host armed sys sys
  | start {sys sys' : Sys} {base : UnitName} (harmed : armed base)
      (h : Driven host armed sys sys') :
    Driven host armed sys (host.start base.automount sys')
  | stop {sys sys' : Sys} {base : UnitName} (harmed : armed base) (h : Driven host armed sys sys') :
    Driven host armed sys (host.stop base.automount sys')

/-- What arming the given shares may change: their triggers and their records. -/
structure BootChange (host : Host) (armed : UnitName → Prop) (w w' : World) : Prop where
  units : w'.units = w.units
  dropIns : w'.dropIns = w.dropIns
  loaded : w'.loaded = w.loaded
  files : ∀ root name, (root = .automountIds → ∀ base, armed base → name ≠ base.text) →
    w'.file? root name = w.file? root name
  own : OwnArtifacts w → OwnArtifacts w'
  sys : Driven host armed w.sys w'.sys

/-- A complete definition of an account that still exists, at an allowed path of
that account, under the name of that path. -/
def Armable (host : Host) (homeOf : UInt32 → Option QString) (w : World) (base : UnitName) : Prop :=
  ∃ unit ∈ enumerateManagedUnits w, unit.unitName = base ∧ unit.state = .pair ∧
    ∃ marker home plan, unit.marker = some marker ∧ homeOf marker.ownerUid = some home ∧
      validateMountpoint unit.mountPoint home = .ok plan ∧ host.escape plan.path = some base ∧
      (inspectDefinition w base marker.ownerUid plan.path).state = .pair

theorem BootChange.refl (host : Host) (armed : UnitName → Prop) (w : World) :
    BootChange host armed w w :=
  ⟨rfl, rfl, rfl, fun _ _ _ => rfl, id, .refl _⟩

theorem armStable_bootChange (harmed : armed base) :
    ArmStable host base (BootChange host armed w) where
  quiet s s' hquiet h :=
    { units := hquiet.units.trans h.units
      dropIns := hquiet.dropIns.trans h.dropIns
      loaded := hquiet.loaded.trans h.loaded
      files := fun root name hname => (hquiet.files root name).trans (h.files root name hname)
      own := fun hown => ((Thinned.refl s).quiet hquiet).own (h.own hown)
      sys := hquiet.sys ▸ h.sys }
  start s h :=
    { h with
      own := fun hown => ((Thinned.refl s).sys _).own (h.own hown)
      sys := .start harmed h.sys }
  stop s h :=
    { h with
      own := fun hown => ((Thinned.refl s).sys _).own (h.own hown)
      sys := .stop harmed h.sys }
  record s text h :=
    { units := (World.units_putFile _ _ _ _).trans h.units
      dropIns := (World.dropIns_putFile _ _ _ _).trans h.dropIns
      loaded := (World.loaded_updateFiles _ _ _).trans h.loaded
      files := fun root name hname => by
        rw [World.file?_putFile_ne]
        · exact h.files root name hname
        · by_cases hroot : root = .automountIds
          · exact Or.inr (hname hroot base harmed)
          · exact Or.inl hroot
      own := fun hown => (h.own hown).putFile _ _ _
      sys := by
        rw [World.sys_putFile]
        exact h.sys }
  dropRecord s h :=
    { units := (World.units_dropFile _ _ _).trans h.units
      dropIns := (World.dropIns_dropFile _ _ _).trans h.dropIns
      loaded := (World.loaded_updateFiles _ _ _).trans h.loaded
      files := fun root name hname => by
        rw [World.file?_dropFile_ne]
        · exact h.files root name hname
        · by_cases hroot : root = .automountIds
          · exact Or.inr (hname hroot base harmed)
          · exact Or.inl hroot
      own := fun hown => ((Thinned.refl s).dropFile _ _).own (h.own hown)
      sys := by
        rw [World.sys_dropFile]
        exact h.sys }

theorem keeps_visitUnit (report : BootReport) (hunit : unit ∈ enumerateManagedUnits w) :
    Prog.Keeps (BootChange host (Armable host homeOf w) w) (visitUnit host homeOf report unit) := by
  unfold visitUnit
  split
  case h_2 => exact Prog.keeps_pure _
  rename_i marker hstate hmarker
  apply Prog.Keeps.bind
  · intro o s hs
    unfold armOneShare
    rw [Prog.wp_bind, Prog.wp_look, bootRequest_congr hs.units hs.dropIns]
    cases hrequest : bootRequest host homeOf w unit marker with
    | error line => exact hs
    | ok req =>
      obtain ⟨home, plan, hhome, hplan, hescape, hpair, rfl⟩ := bootRequest_eq_ok.1 hrequest
      have harmable : Armable host homeOf w unit.unitName :=
        ⟨unit, hunit, rfl, hstate, marker, home, plan, hmarker, hhome, hplan, hescape, hpair⟩
      dsimp only
      rw [Prog.wp_bind, Prog.wp_mapSites]
      have hstable : ArmStable host unit.unitName (BootChange host (Armable host homeOf w) w) :=
        armStable_bootChange harmable
      refine Prog.wp_mono _ (ArmStable.keeps_armShare hstable _ s hs) ?_ (fun _ _ h => h)
        fun _ h => h
      intro result t ht
      cases result <;> exact ht
  · intro lines
    exact Prog.keeps_pure _

theorem keeps_visitUnits {units : List OwnedUnit}
    (hunits : ∀ unit ∈ units, unit ∈ enumerateManagedUnits w)
    (report : BootReport) :
    Prog.Keeps (BootChange host (Armable host homeOf w) w)
      (visitUnits host homeOf units report) := by
  induction units generalizing report with
  | nil => exact Prog.keeps_pure _
  | cons unit rest ih =>
    apply Prog.Keeps.bind (keeps_visitUnit report (hunits unit List.mem_cons_self))
    intro report'
    exact ih (fun other hother => hunits other (List.mem_cons_of_mem _ hother)) report'

theorem wp_bootPass_change (host : Host) (homeOf : UInt32 → Option QString) (w : World)
    (o : BootSite → Outcome) :
    Prog.wp o (bootPass host homeOf) (fun _ => BootChange host (Armable host homeOf w) w)
      (fun _ => BootChange host (Armable host homeOf w) w)
        (BootChange host (Armable host homeOf w) w) w := by
  have hstart := BootChange.refl host (Armable host homeOf w) w
  unfold bootPass
  rw [Prog.wp_bind]
  refine Prog.wp_act_intro ?_ hstart hstart hstart
  rw [Prog.wp_bind, Prog.wp_look, Prog.wp_bind]
  exact Prog.wp_mono _ (keeps_visitUnits (fun _ h => h) {} o w hstart) (fun _ _ h => h)
    (fun _ _ h => h) fun _ h => h

/-- However a boot pass ends, it has changed no definition and no credential, and
the runtime and the records only of shares that are entitled to be armed. -/
theorem bootPass_change (host : Host) (homeOf : UInt32 → Option QString) (w : World)
    (o : BootSite → Outcome) :
    BootChange host (Armable host homeOf w) w ((bootPass host homeOf).run o w).2 :=
  Prog.wp_state (wp_bootPass_change host homeOf w o)

end Safety

section Completion

variable {host : Host} {homeOf : UInt32 → Option QString} {I : World → Prop}

/-- One entry of the enumeration, in a pass that is not killed. -/
theorem wp_visitUnit_stable {o : BootSite → Outcome} (halive : ∀ site, o site ≠ .killed)
    {unit : OwnedUnit} (report : BootReport) (h : ArmStable host unit.unitName I) {s : World}
    (hs : I s) :
    Prog.wp o (visitUnit host homeOf report unit)
      (fun report' t => I t ∧ report'.attempted + report'.skipped =
        report.attempted + report.skipped + 1 ∧
        report'.attempted = report.attempted + if unit.state = .pair ∧
          unit.marker.isSome then 1 else 0)
      (fun _ _ => False) (fun _ => False) s := by
  unfold visitUnit
  split
  · rename_i marker hstate hmarker
    have hcount : ∀ lines : List QString,
      (report.attempt lines).attempted + (report.attempt lines).skipped =
        report.attempted + report.skipped + 1 ∧
        (report.attempt lines).attempted =
          report.attempted + if unit.state = .pair ∧ unit.marker.isSome then 1 else 0 := by
      intro lines
      simp only [BootReport.attempt, hstate, hmarker, Option.isSome_some, and_self, if_true,
        and_true]
      omega
    unfold armOneShare
    rw [Prog.wp_bind, Prog.wp_bind, Prog.wp_look]
    cases hrequest : bootRequest host homeOf s unit marker with
    | error line => exact ⟨hs, hcount _⟩
    | ok req =>
      obtain ⟨home, plan, -, -, -, -, rfl⟩ := bootRequest_eq_ok.1 hrequest
      dsimp only
      rw [Prog.wp_bind, Prog.wp_mapSites]
      refine Prog.wp_mono _ (wp_armShare_stable (fun site => halive _) h hs) ?_ (fun _ _ h => h)
        fun _ h => h
      intro result t ht
      cases result <;> exact ⟨ht, hcount _⟩
  · rename_i hno
    have hskips : ¬(unit.state = .pair ∧ unit.marker.isSome) := by
      rintro ⟨hpair, hsome⟩
      obtain ⟨marker, hmarker⟩ := Option.isSome_iff_exists.1 hsome
      exact hno marker hpair hmarker
    rw [if_neg hskips]
    refine ⟨hs, ?_, rfl⟩
    simp only [BootReport.skip]
    omega

end Completion

/-- The machine after a boot: `/run` is empty, and the daemon has read the unit
files. -/
def afterBoot (w : World) (sys : Sys) : World :=
  { w with loaded := w.units, automountIds := none, runtime := none, sys := sys }

section Apart

variable {host : Host} {homeOf : UInt32 → Option QString} {req : ArmShareRequest}
  {base other : UnitName} {path : QString} {w s : World}

/-- What the runtime says about one share. -/
structure ShareView where
  activeState : Half → Option QString
  mounts : Option (List MountEntry)
  mountId : UInt64

def shareView (sys : Sys) (base : UnitName) (path : QString) : ShareView where
  activeState half := sys.activeState ⟨base, half⟩
  mounts := sys.mounts.map fun entries => entries.filter fun entry =>
    entry.mountPoint = cleanPath path
  mountId := sys.mountId path

/-- The triggers of other shares are none of this share's business, and a trigger
that starts can be told apart. -/
structure KeepsApart (host : Host) (base : UnitName) (path : QString) : Prop where
  start : ∀ other sys, other ≠ base →
    shareView (host.start other.automount sys) base path = shareView sys base path
  stop : ∀ other sys, other ≠ base →
    shareView (host.stop other.automount sys) base path = shareView sys base path
  identified : ∀ sys, (host.start base.automount sys).mountId path ≠ 0

/-- The credential is as the marker says. -/
def CredentialFits (req : ArmShareRequest) (w : World) : Prop :=
  match req.authentication with
  | .credentials => HasCredential req.shareId w
  | .guest => w.file? .credentials (CredentialStore.fileNameFor req.shareId) = none

/-- A share that is not running, whose files are in order. -/
structure AtRest (req : ArmShareRequest) (w : World) : Prop where
  stopped : ∀ half, w.sys.activeState ⟨req.unitName, half⟩ = some (qs "inactive") ∨
    w.sys.activeState ⟨req.unitName, half⟩ = some (qs "failed")
  unmounted : (shareView w.sys req.unitName req.plan.path).mounts = some []
  credential : CredentialFits req w
  credentials : Ready .credentials w
  ids : Ready .automountIds w

theorem readyToArm_of_atRest (h : AtRest req w) :
    evaluateArmPrecheck (runtimeSnapshot w req.unitName req.plan.path req.what) = .readyToArm := by
  obtain ⟨entries, hentries, hnone⟩ := Option.map_eq_some_iff.1 h.unmounted
  have hautomount : automountAxis (w.runtimeReads req.unitName req.plan.path).automountState =
      .inactive := automountAxis_eq_inactive.2 (h.stopped .automount)
  have haxes : mountAxes (w.runtimeReads req.unitName req.plan.path) req.plan.path req.what =
      (.absent, .notApplicable) := by
    have hclassify : classifyMountEntries entries req.plan.path req.what =
        (.absent, .notApplicable) := by
      rw [classifyMountEntries, hnone]
    have hmount : w.sys.activeState req.unitName.mount = some (qs "inactive") ∨
        w.sys.activeState req.unitName.mount = some (qs "failed") := h.stopped .mount
    rcases hmount with hstate | hstate <;>
      simp only [mountAxes, World.runtimeReads, hentries, hstate, hclassify] <;> decide
  rw [evaluateArmPrecheck, runtimeSnapshot, snapshotOf, haxes, hautomount]
  rfl

/-- A share at rest is armed when every primitive of its arming succeeds. -/
theorem wp_armShare_atRest
    (hid : ∀ sys, (host.start req.unitName.automount sys).mountId req.plan.path ≠ 0)
    (h : AtRest req w) :
    Prog.wp Prog.allOk (armShare host req) (fun _ => Armed req.unitName req.plan.path)
      (fun _ _ => False) (fun _ => False) w := by
  have hcredential : Prog.wp Prog.allOk (checkCredential req)
      (fun _ t => t = w.ensureRoot .credentials) (fun _ _ => False) (fun _ => False) w := by
    have hfits := h.credential
    unfold CredentialFits at hfits
    unfold checkCredential
    cases hauth : req.authentication with
    | credentials =>
      rw [hauth] at hfits
      exact (survives_credentialHealthy _).wp (fun _ => nofun)
        (Prog.wp_mono _ wp_credentialHealthy_exact
        (fun _ _ h => h.1) (fun _ _ hno => hno.2 ⟨rfl, h.credentials, hfits⟩) fun _ h => h)
    | guest =>
      rw [hauth] at hfits
      dsimp only at hfits ⊢
      unfold CredentialStore.assertAbsent
      rw [Prog.wp_bind, wp_openPrivateRoot_allOk h.credentials, Prog.wp_bind, Prog.wp_act_allOk,
        Prog.wp_bind, Prog.wp_look, World.file?_ensureRoot, hfits]
      rfl
  obtain ⟨⟨⟩, prepared, hrun, rfl⟩ := Prog.wp_returns hcredential
  unfold armShare
  rw [Prog.wp_bind, Prog.wp_mapSites_allOk, wp_inspectRuntime_allOk, readyToArm_of_atRest h]
  dsimp only
  rw [Prog.wp_bind, Prog.wp_attempt, Prog.wp_mapSites_allOk, Prog.wp_of_run hrun]
  dsimp only
  rw [Prog.wp_bind, Prog.wp_attempt, Prog.wp_act_allOk]
  dsimp only
  rw [Prog.wp_bind, Prog.wp_attempt, SystemdOps.start, Prog.wp_act_allOk]
  dsimp only
  unfold recordStarted
  rw [Prog.wp_bind, Prog.wp_ask_allOk, if_neg (hid _), Prog.wp_bind, Prog.wp_attempt,
    Prog.wp_mapSites_allOk]
  have hready : Ready .automountIds { w.ensureRoot .credentials with
      sys := host.start req.unitName.automount (w.ensureRoot .credentials).sys } :=
    (quiet_ensureRoot w .credentials).ready .automountIds h.ids
  unfold RuntimeFiles.writeAutomountId durableReplace
  rw [wp_openPrivateRoot_act_allOk hready]
  obtain ⟨dir, hdir, -⟩ := hready.usable_ensureRoot
  refine ⟨?_, ?_, ?_⟩
  · rw [World.sys_putFile, World.sys_ensureRoot]
    exact host.start_active _ _
  · rw [World.sys_putFile, World.sys_ensureRoot]
    exact hid _
  · refine (readRecordedAutomountId_rootFile (World.file?_putFile_self _ _ hdir _ _)).trans ?_
    simp only [World.sys_putFile, World.sys_ensureRoot]

theorem AtRest.congr (h : AtRest req w)
    (hview : shareView s.sys req.unitName req.plan.path =
      shareView w.sys req.unitName req.plan.path)
    (hcredential : ∀ name, s.file? .credentials name = w.file? .credentials name)
    (hready : ∀ root, Ready root w → Ready root s) : AtRest req s where
  stopped half := by
    have hsame := congrArg (fun view => view.activeState half) hview
    dsimp only [shareView] at hsame
    rw [hsame]
    exact h.stopped half
  unmounted := by
    rw [hview]
    exact h.unmounted
  credential := by
    have hfits := h.credential
    unfold CredentialFits HasCredential at hfits ⊢
    rw [hcredential]
    exact hfits
  credentials := hready _ h.credentials
  ids := hready _ h.ids

/-- Arming another share leaves a share at rest. -/
theorem armStable_atRest (hapart : KeepsApart host req.unitName req.plan.path)
    (hother : other ≠ req.unitName) : ArmStable host other (AtRest req) where
  quiet s s' hquiet h := h.congr (by rw [hquiet.sys]) (hquiet.files _) hquiet.ready
  start s h := h.congr (hapart.start other s.sys hother) (fun _ => rfl) fun _ hr => hr
  stop s h := h.congr (hapart.stop other s.sys hother) (fun _ => rfl) fun _ hr => hr
  record s text h := h.congr (by rw [World.sys_putFile])
    (fun _ => World.file?_putFile_ne _ _ (Or.inl credentials_ne_automountIds) _)
    fun _ hr => ready_updateFiles hr
  dropRecord s h := h.congr (by rw [World.sys_dropFile])
    (fun _ => World.file?_dropFile_ne _ _ (Or.inl credentials_ne_automountIds))
    fun _ hr => ready_updateFiles hr

theorem Armed.congr (h : Armed base path w)
    (hview : shareView s.sys base path = shareView w.sys base path)
    (hrecord : s.file? .automountIds base.text = w.file? .automountIds base.text) :
    Armed base path s := by
  have hactive : s.sys.activeState base.automount = w.sys.activeState base.automount :=
    congrArg (fun view => view.activeState .automount) hview
  have hid : s.sys.mountId path = w.sys.mountId path := congrArg ShareView.mountId hview
  refine ⟨hactive.trans h.active, hid ▸ h.identified, ?_⟩
  rw [hid, ← h.recorded, readRecordedAutomountId, readRecordedAutomountId, hrecord]

/-- Arming another share leaves an armed share armed. -/
theorem armStable_armed (hapart : KeepsApart host base path) (hother : other ≠ base) :
    ArmStable host other (Armed base path) := by
  have hname : base.text ≠ other.text := fun h => hother (UnitName.ext_text h).symm
  constructor
  · exact fun s s' hquiet h => h.congr (by rw [hquiet.sys]) (hquiet.files _ _)
  · exact fun s h => h.congr (hapart.start other s.sys hother) rfl
  · exact fun s h => h.congr (hapart.stop other s.sys hother) rfl
  · intro s text h
    exact h.congr (by rw [World.sys_putFile]) (World.file?_putFile_ne _ _ (Or.inr hname) _)
  · intro s h
    exact h.congr (by rw [World.sys_dropFile]) (World.file?_dropFile_ne _ _ (Or.inr hname))

/-- The rest of the pass keeps what arming any of its shares keeps. -/
theorem wp_visitUnits_stable {o : BootSite → Outcome} (halive : ∀ site, o site ≠ .killed)
    {I : World → Prop} {units : List OwnedUnit} (report : BootReport)
    (h : ∀ unit ∈ units, ArmStable host unit.unitName I) (hs : I s) :
    Prog.wp o (visitUnits host homeOf units report)
      (fun report' t => I t ∧
        report'.attempted + report'.skipped = report.attempted + report.skipped + units.length)
      (fun _ _ => False) (fun _ => False) s := by
  induction units generalizing report s with
  | nil => exact ⟨hs, rfl⟩
  | cons unit rest ih =>
    rw [visitUnits, Prog.wp_bind]
    refine Prog.wp_mono _ (wp_visitUnit_stable halive report (h unit List.mem_cons_self) hs) ?_
      (fun _ _ h => h) fun _ h => h
    rintro report' t ⟨ht, hcount⟩
    refine Prog.wp_mono _ (ih report'
      (fun other hother => h other (List.mem_cons_of_mem _ hother)) ht)
      ?_ (fun _ _ h => h) fun _ h => h
    rintro report'' t' ⟨ht', hcount'⟩
    refine ⟨ht', ?_⟩
    rw [List.length_cons]
    omega

/-- The files of the definitions stay through a pass. -/
structure SameDefinitions (w s : World) : Prop where
  units : s.units = w.units
  dropIns : s.dropIns = w.dropIns

theorem armStable_sameDefinitions : ArmStable host base (SameDefinitions w) where
  quiet _ _ hquiet h := ⟨hquiet.units.trans h.units, hquiet.dropIns.trans h.dropIns⟩
  start _ h := ⟨h.units, h.dropIns⟩
  stop _ h := ⟨h.units, h.dropIns⟩
  record _ _ h :=
    ⟨(World.units_putFile _ _ _ _).trans h.units, (World.dropIns_putFile _ _ _ _).trans h.dropIns⟩
  dropRecord _ h :=
    ⟨(World.units_dropFile _ _ _).trans h.units, (World.dropIns_dropFile _ _ _).trans h.dropIns⟩

/-- The visit of a share at rest arms it. -/
theorem wp_visitUnit_arms {o : BootSite → Outcome} {unit : OwnedUnit} {marker : Marker}
    (report : BootReport) (hstate : unit.state = .pair) (hmarker : unit.marker = some marker)
    (hrequest : bootRequest host homeOf w unit marker = .ok req)
    (hok : ∀ site, o (.arm unit.unitName site) = .ok)
    (hapart : KeepsApart host req.unitName req.plan.path) (hsame : SameDefinitions w s)
    (hrest : AtRest req s) :
    Prog.wp o (visitUnit host homeOf report unit)
      (fun report' t => Armed req.unitName req.plan.path t ∧
        report'.attempted + report'.skipped = report.attempted + report.skipped + 1)
      (fun _ _ => False) (fun _ => False) s := by
  unfold visitUnit
  rw [hstate, hmarker]
  dsimp only
  unfold armOneShare
  rw [Prog.wp_bind, Prog.wp_bind, Prog.wp_look, bootRequest_congr hsame.units hsame.dropIns,
    hrequest]
  dsimp only
  have hschedule : (fun site => o (.arm unit.unitName site)) = Prog.allOk := funext hok
  rw [Prog.wp_bind, Prog.wp_mapSites, hschedule]
  refine Prog.wp_mono _ (wp_armShare_atRest hapart.identified hrest) ?_ (fun _ _ h => h)
    fun _ h => h
  intro result t harmed
  cases result <;> refine ⟨harmed, ?_⟩ <;> simp only [BootReport.attempt] <;> omega

/-- A pass over the entries arms a share at rest, whatever becomes of the others. -/
theorem wp_visitUnits_arms {o : BootSite → Outcome} (halive : ∀ site, o site ≠ .killed)
    {unit : OwnedUnit} {marker : Marker} (hstate : unit.state = .pair)
    (hmarker : unit.marker = some marker)
    (hrequest : bootRequest host homeOf w unit marker = .ok req)
    (hok : ∀ site, o (.arm unit.unitName site) = .ok)
    (hapart : KeepsApart host req.unitName req.plan.path) {units : List OwnedUnit}
    (report : BootReport) (hmem : unit ∈ units) (hnodup : (units.map (·.unitName)).Nodup)
    (hsame : SameDefinitions w s) (hrest : AtRest req s) :
    Prog.wp o (visitUnits host homeOf units report)
      (fun report' t => Armed req.unitName req.plan.path t ∧
        report'.attempted + report'.skipped = report.attempted + report.skipped + units.length)
      (fun _ _ => False) (fun _ => False) s := by
  have hname : req.unitName = unit.unitName := by
    obtain ⟨home, plan, -, -, -, -, rfl⟩ := bootRequest_eq_ok.1 hrequest
    rfl
  induction units generalizing report s with
  | nil => exact absurd hmem List.not_mem_nil
  | cons first rest ih =>
    rw [List.map_cons, List.nodup_cons] at hnodup
    rw [visitUnits, Prog.wp_bind]
    rcases List.mem_cons.1 hmem with rfl | hlater
    · refine Prog.wp_mono _ (wp_visitUnit_arms report hstate hmarker hrequest hok hapart hsame
        hrest) ?_ (fun _ _ h => h) fun _ h => h
      rintro report' t ⟨harmed, hcount⟩
      have hstable : ∀ other ∈ rest,
          ArmStable host other.unitName (Armed req.unitName req.plan.path) := by
        intro other hother
        apply armStable_armed hapart
        rw [hname]
        exact fun heq => hnodup.1 (heq ▸ List.mem_map_of_mem hother)
      refine Prog.wp_mono _ (wp_visitUnits_stable halive report' hstable harmed) ?_
        (fun _ _ h => h) fun _ h => h
      rintro report'' t' ⟨harmed', hcount'⟩
      refine ⟨harmed', ?_⟩
      rw [List.length_cons]
      omega
    · have hother : first.unitName ≠ req.unitName := by
        rw [hname]
        exact fun heq => hnodup.1 (heq ▸ List.mem_map_of_mem hlater)
      have hdefinitions : ArmStable host first.unitName (SameDefinitions w) :=
        armStable_sameDefinitions
      have hstable := hdefinitions.and (armStable_atRest hapart hother)
      refine Prog.wp_mono _ (wp_visitUnit_stable halive report hstable ⟨hsame, hrest⟩) ?_
        (fun _ _ h => h) fun _ h => h
      rintro report' t ⟨⟨hsame', hrest'⟩, hcount⟩
      refine Prog.wp_mono _ (ih report' hlater hnodup.2 hsame' hrest') ?_ (fun _ _ h => h)
        fun _ h => h
      rintro report'' t' ⟨harmed, hcount'⟩
      refine ⟨harmed, ?_⟩
      rw [List.length_cons]
      omega

theorem wp_bootPass_arms {o : BootSite → Outcome} (hlock : o .lock = .ok)
    (halive : ∀ site, o site ≠ .killed) {unit : OwnedUnit} (hunit : unit ∈ enumerateManagedUnits w)
    (hstate : unit.state = .pair) {marker : Marker} (hmarker : unit.marker = some marker)
    (hrequest : bootRequest host homeOf w unit marker = .ok req)
    (hok : ∀ site, o (.arm unit.unitName site) = .ok)
    (hapart : KeepsApart host req.unitName req.plan.path) (hrest : AtRest req w) :
    Prog.wp o (bootPass host homeOf)
      (fun report t => Armed req.unitName req.plan.path t ∧
        report.attempted + report.skipped = (enumerateManagedUnits w).length)
      (fun _ _ => False) (fun _ => False) w := by
  unfold bootPass
  rw [Prog.wp_bind, Prog.wp_act, hlock]
  dsimp only
  rw [Prog.wp_bind, Prog.wp_look, Prog.wp_bind]
  have hnodup : ((enumerateManagedUnits w).map (·.unitName)).Nodup := by
    rw [enumerateManagedUnits, map_unitName_pairScannedHalves]
    exact baseNames_nodup _
  refine Prog.wp_mono _ (wp_visitUnits_arms halive hstate hmarker hrequest hok hapart {}
    hunit hnodup ⟨rfl, rfl⟩ hrest) ?_ (fun _ _ h => h) fun _ h => h
  rintro report t ⟨harmed, hcount⟩
  refine ⟨harmed, ?_⟩
  dsimp only at hcount ⊢
  omega

/-- A boot pass that gets its lock and is not killed arms every share at rest whose
own primitives succeed. The other shares may fail at any of theirs. -/
theorem bootPass_arms (host : Host) (homeOf : UInt32 → Option QString) (w : World)
    (o : BootSite → Outcome) (hlock : o .lock = .ok) (halive : ∀ site, o site ≠ .killed)
    (unit : OwnedUnit) (hunit : unit ∈ enumerateManagedUnits w) (hstate : unit.state = .pair)
    (marker : Marker) (hmarker : unit.marker = some marker) (req : ArmShareRequest)
    (hrequest : bootRequest host homeOf w unit marker = .ok req)
    (hok : ∀ site, o (.arm unit.unitName site) = .ok)
    (hapart : KeepsApart host req.unitName req.plan.path) (hrest : AtRest req w) :
    ∃ report w', (bootPass host homeOf).run o w = (.returned report, w') ∧
      Armed req.unitName req.plan.path w' ∧
      report.attempted + report.skipped = (enumerateManagedUnits w).length :=
  Prog.wp_returns (wp_bootPass_arms hlock halive hunit hstate hmarker hrequest hok hapart hrest)

end Apart

section Sample

theorem unescapePlain_injective : Function.Injective unescapePlain := by
  have hundo : ∀ base : UnitName,
      ((unescapePlain base).drop 1).map (fun c => if c = '/' then '-' else c) = base.text := by
    intro base
    have hplain : ∀ c ∈ base.text, c ≠ '/' := by
      rintro c hc rfl
      have hcomponent := base.component
      simp [isUnitName, hc] at hcomponent
    rw [unescapePlain, List.drop_one, List.tail_cons, List.map_map]
    refine (List.map_congr_left fun c hc => ?_).trans (List.map_id _)
    by_cases hdash : c = '-'
    · simp [hdash]
    · simp [hdash, hplain c hc]
  intro a b hab
  apply UnitName.ext_text
  rw [← hundo a, hab, hundo b]

theorem keepsApart_sampleHost {base : UnitName}
    (hclean : cleanPath (unescapePlain base) = unescapePlain base) :
    KeepsApart sampleHost base (unescapePlain base) := by
  have hpath : ∀ other, other ≠ base → unescapePlain other ≠ unescapePlain base :=
    fun other hother heq => hother (unescapePlain_injective heq)
  have hkey : ∀ (other : UnitName) half, other ≠ base →
      (⟨base, half⟩ : UnitKey) ≠ other.automount :=
    fun other half hother heq => hother (congrArg UnitKey.base heq).symm
  constructor
  · intro other sys hother
    have hmounts : (sys.mounts.map fun entries => entries ++ [({
        mountId := 40, parentId := 1, mountPoint := unescapePlain other
        filesystemType := qs "autofs", mountSource := qs "systemd-1" } : MountEntry)]).map
          (fun entries =>
          entries.filter fun entry => entry.mountPoint = unescapePlain base) =
        sys.mounts.map fun entries => entries.filter fun entry =>
          entry.mountPoint = unescapePlain base := by
      cases sys.mounts with
      | none => rfl
      | some entries => simp [hpath other hother]
    simp only [shareView, sampleHost, hclean, ShareView.mk.injEq]
    refine ⟨?_, hmounts, Function.update_of_ne (Ne.symm (hpath other hother)) _ _⟩
    funext half
    exact Function.update_of_ne (hkey other half hother) _ _
  · intro other sys hother
    have hmounts : (sys.mounts.map fun entries => entries.filter fun entry =>
        entry.mountPoint ≠ unescapePlain other).map (fun entries =>
          entries.filter fun entry => entry.mountPoint = unescapePlain base) =
        sys.mounts.map fun entries => entries.filter fun entry =>
          entry.mountPoint = unescapePlain base := by
      cases sys.mounts with
      | none => rfl
      | some entries =>
        simp only [Option.map_some, List.filter_filter, Option.some.injEq]
        apply List.filter_congr
        intro entry _
        by_cases hentry : entry.mountPoint = unescapePlain base
        · simp [hentry, Ne.symm (hpath other hother)]
        · simp [hentry]
    simp only [shareView, sampleHost, hclean, ShareView.mk.injEq]
    refine ⟨?_, hmounts, Function.update_of_ne (Ne.symm (hpath other hother)) _ _⟩
    funext half
    exact Function.update_of_ne (hkey other half hother) _ _
  · intro sys
    simp [sampleHost, UnitName.automount]

/-- A share of another user beside the sample share. -/
def secondInput : DefineInput :=
  { sampleInput with
    ownerUid := 1001
    unc := qs "//nas/music"
    mountPoint := qs "/mnt/b"
    unitName := ⟨qs "mnt-b", isUnitName_other⟩
    mountPlan := { path := qs "/mnt/b", root := qs "/mnt", suffix := [qs "b"] }
    samePath := rfl }

/-- The two shares after a boot. -/
def bootedWorld : World :=
  afterBoot ((define sampleHost (fun n => (1, n.toUInt64)) secondInput).run Prog.allOk
    sampleWorld).2 World.blank.sys

/-- The other share's directory cannot be opened. -/
theorem bootPass_arms_sample :
    ∃ report w', (bootPass sampleHost fun _ => some (qs "/home/ann")).run
        (fun site => if site = .arm secondInput.unitName .walk then .failed false else .ok)
          bootedWorld = (.returned report, w') ∧
      Armed sampleInput.unitName (qs "/mnt/nas") w' := by
  have hfound : (enumerateManagedUnits bootedWorld).any (fun unit => unit.state = .pair &&
      unit.marker.any fun marker => (bootRequest sampleHost (fun _ => some (qs "/home/ann"))
        bootedWorld unit marker).toOption.any fun req => req.unitName = sampleInput.unitName &&
          req.plan.path = qs "/mnt/nas" && req.authentication = .credentials &&
          (bootedWorld.file? .credentials (CredentialStore.fileNameFor req.shareId)).any
            (·.verified .sensitiveFile)) = true := by decide +kernel
  obtain ⟨unit, hunit, hfound⟩ := List.any_eq_true.1 hfound
  rw [Bool.and_eq_true, decide_eq_true_eq, Option.any_eq_true] at hfound
  obtain ⟨hstate, marker, hmarker, hfound⟩ := hfound
  obtain ⟨req, hrequest, hfound⟩ := (Option.any_eq_true _ _).1 hfound
  rw [toOption_eq_some] at hrequest
  simp only [Bool.and_eq_true, decide_eq_true_eq, Option.any_eq_true] at hfound
  obtain ⟨⟨⟨hname, hpath⟩, hauth⟩, node, hnode, hverified⟩ := hfound
  have hunitName : unit.unitName = sampleInput.unitName := by
    obtain ⟨home, plan, -, -, -, -, rfl⟩ := bootRequest_eq_ok.1 hrequest
    exact hname
  have hmount : unescapePlain sampleInput.unitName = qs "/mnt/nas" := by decide +kernel
  have hapart : KeepsApart sampleHost req.unitName req.plan.path := by
    rw [hname, hpath, ← hmount]
    exact keepsApart_sampleHost (by decide +kernel)
  have hrest : AtRest req bootedWorld := by
    refine ⟨fun half => Or.inl rfl, rfl, ?_, ?_, ?_⟩
    · unfold CredentialFits
      rw [hauth]
      exact ⟨node, hnode, hverified⟩
    · exact ready_iff.2 (by decide +kernel)
    · exact ready_iff.2 (by decide +kernel)
  obtain ⟨report, w', hrun, harmed, -⟩ := bootPass_arms sampleHost (fun _ => some (qs "/home/ann"))
    bootedWorld (fun site => if site = .arm secondInput.unitName .walk then .failed false else .ok)
    (by decide) (fun site => by split_ifs <;> simp) unit hunit hstate marker hmarker req
    hrequest (fun site => by rw [hunitName]; exact if_neg (by simp [sampleInput, secondInput, qs]))
    hapart hrest
  exact ⟨report, w', hrun, by rwa [hname, hpath] at harmed⟩

end Sample

end NasMount.Root
