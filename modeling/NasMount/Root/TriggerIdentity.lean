import NasMount.Foundation.Runs
import NasMount.Root.Arming

/-!
# The recorded instance id

The steps of `armShare` interleaved with what happens at the mount point
meanwhile: an access mounts the share over the trigger, an idle timeout unmounts
it. The id is sampled by path once the trigger is live.
-/
namespace NasMount.Root

open NasMount.Foundation NasMount.Core QString

/-- The mounts of one mount point. Unique ids are never zero and never reused. -/
structure Autofs where
  trigger : Option UInt64
  /-- The share on top of the trigger. -/
  share : Option UInt64
  /-- Every id the kernel has given out. -/
  issued : List UInt64
  /-- What `statx` reports below the trigger. -/
  below : UInt64
  triggerIssued : ∀ id, trigger = some id → id ≠ 0 ∧ id ∈ issued
  shareIssued : ∀ id, share = some id → id ∈ issued
  apart : ∀ id id', trigger = some id → share = some id' → id ≠ id'

namespace Autofs

/-- Nothing is mounted, and one id is taken by what lies below. -/
def bare : Autofs where
  trigger := none
  share := none
  issued := [1]
  below := 1
  triggerIssued := nofun
  shareIssued := nofun
  apart := nofun

variable (mounts : Autofs) (id : UInt64)

/-- The kernel may give out the id. -/
def fresh : Bool := id ≠ 0 && id ∉ mounts.issued

/-- The automount unit is started; a start of an active one changes nothing. -/
def startTrigger : Autofs :=
  if h : mounts.trigger = none ∧ mounts.fresh id then
    { mounts with
      trigger := some id
      issued := id :: mounts.issued
      triggerIssued := fun id' h' => by
        obtain rfl := Option.some.inj h'
        simp_all [fresh]
      shareIssued := fun id' h' => List.mem_cons_of_mem _ (mounts.shareIssued id' h')
      apart := fun a b ha hb => by
        obtain rfl := Option.some.inj ha
        have := mounts.shareIssued b hb
        rintro rfl
        simp_all [fresh] }
  else mounts

/-- A first access mounts the share over the trigger. -/
def access : Autofs :=
  if h : mounts.trigger.isSome ∧ mounts.share = none ∧ mounts.fresh id then
    { mounts with
      share := some id
      issued := id :: mounts.issued
      triggerIssued := fun id' h' =>
        ⟨(mounts.triggerIssued id' h').1, List.mem_cons_of_mem _ (mounts.triggerIssued id' h').2⟩
      shareIssued := fun id' h' => by
        obtain rfl := Option.some.inj h'
        exact List.mem_cons_self
      apart := fun a b ha hb => by
        obtain rfl := Option.some.inj hb
        have := (mounts.triggerIssued a ha).2
        rintro rfl
        simp_all [fresh] }
  else mounts

/-- The idle timeout unmounts the share; the trigger stays. -/
def idle : Autofs :=
  { mounts with share := none, shareIssued := nofun, apart := fun _ _ _ h => nomatch h }

def top : UInt64 := (mounts.share.or mounts.trigger).getD mounts.below

/-- What systemd and the kernel answer about the mount point of a request. -/
def sys (req : ArmShareRequest) : Sys where
  activeState key :=
    if key = req.unitName.automount then
      some (if mounts.trigger.isSome then qs "active" else qs "inactive")
    else if key = req.unitName.mount then
      some (if mounts.share.isSome then qs "active" else qs "inactive")
    else some (qs "inactive")
  mounts := some <|
    (mounts.trigger.toList.map fun _ =>
      { mountId := 40, parentId := 1, mountPoint := cleanPath req.plan.path
        filesystemType := qs "autofs", mountSource := qs "systemd-1" }) ++
    mounts.share.toList.map fun _ =>
      { mountId := 41, parentId := 40, mountPoint := cleanPath req.plan.path
        filesystemType := qs "cifs", mountSource := req.what }
  mountId path := if path = req.plan.path then mounts.top else mounts.below

@[simp] theorem trigger_access : (mounts.access id).trigger = mounts.trigger := by
  unfold access
  split_ifs <;> rfl

@[simp] theorem trigger_idle : mounts.idle.trigger = mounts.trigger := rfl

@[simp] theorem share_idle : mounts.idle.share = none := rfl

end Autofs

/-- Where a call of `armShare` stands. -/
inductive ArmPhase
  | inspect
  | prepare
  | start
  | sample
  | record (id : UInt64)
  | armed
  | alreadyArmed
  /-- Every other ending, whose compensation is not followed here. -/
  | failed
  deriving DecidableEq

structure Arming where
  files : World
  mounts : Autofs
  phase : ArmPhase

namespace Arming

/-- The state as the program sees it. -/
def world (req : ArmShareRequest) (s : Arming) : World := { s.files with sys := s.mounts.sys req }

def fail (s : Arming) (files : World) : Arming := { s with files := files, phase := .failed }

/-- The next step of the call. `id` is the unique id a new trigger gets. -/
def advance (req : ArmShareRequest) (s : Arming) (o : ArmSite → Outcome) (id : UInt64) : Arming :=
  match s.phase with
  | .inspect =>
    match (Prog.mapSites ArmSite.inspect
        (inspectRuntime req.unitName req.plan.path req.what)).run o (s.world req) with
    | (.returned snapshot, _) =>
      match evaluateArmPrecheck snapshot with
      | .readyToArm => { s with phase := .prepare }
      | .alreadyArmed => { s with phase := .alreadyArmed }
      | .blocked _ => s.fail s.files
    | _ => s.fail s.files
  | .prepare =>
    match (Prog.mapSites ArmSite.credential (checkCredential req)).run o (s.world req) with
    | (.returned _, files) =>
      if o .walk = .ok then { s with files := files, phase := .start } else s.fail files
    | (_, files) => s.fail files
  | .start =>
    let mounts := s.mounts.startTrigger id
    if o .start = .ok then
      -- Without a fresh id the kernel creates no trigger, and the command waits.
      if mounts.trigger.isSome then { s with mounts := mounts, phase := .sample } else s
    else { s with mounts := if (o .start).effective then mounts else s.mounts, phase := .failed }
  | .sample =>
    let sampled := if o .startedId = .ok then (s.world req).sys.mountId req.plan.path else 0
    if sampled = 0 then s.fail s.files else { s with phase := .record sampled }
  | .record id =>
    match (Prog.mapSites ArmSite.record (RuntimeFiles.writeAutomountId req.unitName id)).run o
        (s.world req) with
    | (.returned _, files) => { s with files := files, phase := .armed }
    | (_, files) => s.fail files
  | .armed | .alreadyArmed | .failed => s

inductive Event
  | arm (o : ArmSite → Outcome) (id : UInt64)
  | access (id : UInt64)
  | idle

def Event.environment : Event → Bool
  | .arm .. => false
  | .access _ | .idle => true

def step (req : ArmShareRequest) (s : Arming) : Event → Arming
  | .arm o id => s.advance req o id
  | .access id => { s with mounts := s.mounts.access id }
  | .idle => { s with mounts := s.mounts.idle }

abbrev run (req : ArmShareRequest) (s : Arming) (events : List Event) : Arming :=
  events.foldl (step req) s

/-- The trigger is active and nothing is mounted over it. -/
def Resting (s : Arming) : Prop := s.mounts.trigger.isSome ∧ s.mounts.share = none

/-- The trust axis of an inspection in which no read fails. -/
def trust (req : ArmShareRequest) (s : Arming) : ActivationTrust :=
  (runtimeSnapshot (s.world req) req.unitName req.plan.path req.what).activationTrust

/-- The condition on a step: nothing is mounted over the trigger when its id is
sampled. -/
def SamplesTrigger (s : Arming) (event : Event) : Prop :=
  event.environment = false → s.phase = .sample → s.mounts.share = none

section Trust

variable {req : ArmShareRequest} {s : Arming}

theorem trust_eq_trusted (hresting : s.Resting) :
    s.trust req = .trusted ↔
      s.mounts.trigger = some (readRecordedAutomountId (s.world req) req.unitName) := by
  obtain ⟨hactive, hbare⟩ := hresting
  obtain ⟨id, hid⟩ := Option.isSome_iff_exists.mp hactive
  have hstate : (s.world req).sys.activeState req.unitName.automount = some (qs "active") := by
    simp [world, Autofs.sys, hid]
  have hcurrent : (s.world req).sys.mountId req.plan.path = id := by
    simp [world, Autofs.sys, Autofs.top, hid, hbare]
  have hne := (s.mounts.triggerIssued id hid).1
  rw [hid, trust, runtimeSnapshot, snapshotOf, trustAxis_eq_trusted, World.runtimeReads, hstate,
    hcurrent]
  constructor
  · rintro ⟨-, -, hsame⟩
    exact congrArg some hsame.symm
  · intro h
    obtain rfl := Option.some.inj h
    exact ⟨rfl, hne, rfl⟩

/-- The call so far identified the trigger it started. -/
def Identified (req : ArmShareRequest) (s : Arming) : Prop :=
  match s.phase with
  | .sample => s.mounts.trigger.isSome
  | .record id => s.mounts.trigger = some id
  | .armed => s.mounts.trigger = some (readRecordedAutomountId s.files req.unitName)
  | _ => True

/-- The call took the id `other` for that of the trigger `id`. -/
structure Misled (req : ArmShareRequest) (id other : UInt64) (s : Arming) : Prop where
  trigger : s.mounts.trigger = some id
  ne : id ≠ other
  phase : s.phase = .record other ∨ s.phase = .failed ∨
    s.phase = .armed ∧ readRecordedAutomountId s.files req.unitName = other

/-- Recording writes the id that was sampled, or the call fails. -/
theorem advance_record (req : ArmShareRequest) (o : ArmSite → Outcome) {id : UInt64} (new : UInt64)
    (hphase : s.phase = .record id) :
    (s.advance req o new).mounts = s.mounts ∧
      ((s.advance req o new).phase = .failed ∨ (s.advance req o new).phase = .armed ∧
        readRecordedAutomountId (s.advance req o new).files req.unitName = id) := by
  have hwrite : Prog.wp o (Prog.mapSites ArmSite.record
      (RuntimeFiles.writeAutomountId req.unitName id))
      (fun _ w => readRecordedAutomountId w req.unitName = id) (fun _ _ => True) (fun _ => True)
      (s.world req) := by
    rw [Prog.wp_mapSites]
    exact wp_writeAutomountId (fun _ _ _ h => h) (fun _ _ _ => trivial) fun _ _ => trivial
  simp only [advance, hphase]
  have hreturned := ((Prog.wp_iff _).mp hwrite).1
  split
  · rename_i w hrun
    exact ⟨rfl, Or.inr ⟨rfl, hreturned _ w hrun⟩⟩
  · exact ⟨rfl, Or.inl rfl⟩

theorem step_environment (req : ArmShareRequest) (s : Arming) {event : Event}
    (h : event.environment = true) :
    (s.step req event).mounts.trigger = s.mounts.trigger ∧ (s.step req event).files = s.files ∧
      (s.step req event).phase = s.phase := by
  cases event with
  | arm o id => exact nomatch h
  | access id => exact ⟨Autofs.trigger_access _ _, rfl, rfl⟩
  | idle => exact ⟨rfl, rfl, rfl⟩

/-- One step of the call, when nothing covers the trigger at the sampling. -/
theorem identified_advance {o : ArmSite → Outcome} {id : UInt64} (h : s.Identified req)
    (hbare : s.phase = .sample → s.mounts.share = none) : (s.advance req o id).Identified req := by
  cases hphase : s.phase with
  | inspect =>
    simp only [advance, hphase]
    split
    · split <;> trivial
    · trivial
  | prepare =>
    simp only [advance, hphase]
    split
    · split_ifs <;> trivial
    · trivial
  | start =>
    simp only [advance, hphase]
    split_ifs with _ htrigger
    · exact htrigger
    · exact h
    all_goals trivial
  | sample =>
    obtain ⟨trigger, htrigger⟩ := Option.isSome_iff_exists.mp
      (show s.mounts.trigger.isSome by simpa only [Identified, hphase] using h)
    have htop : (s.world req).sys.mountId req.plan.path = trigger := by
      simp [world, Autofs.sys, Autofs.top, htrigger, hbare hphase]
    simp only [advance, hphase, htop]
    split_ifs with hok hzero
    · trivial
    · exact htrigger
    all_goals trivial
  | record sampled =>
    obtain ⟨hmounts, hend⟩ := advance_record req o id hphase
    have htrigger : s.mounts.trigger = some sampled := by simpa only [Identified, hphase] using h
    rcases hend with hfailed | ⟨harmed, hrecorded⟩
    · simp only [Identified, hfailed]
    · simp only [Identified, harmed, hmounts, hrecorded, htrigger]
  | armed => simpa only [advance, hphase] using h
  | alreadyArmed => simpa only [advance, hphase] using h
  | failed => simpa only [advance, hphase] using h

theorem identified_step (event : Event) (h : s.Identified req) (hmeets : s.SamplesTrigger event) :
    (s.step req event).Identified req := by
  cases henv : event.environment with
  | true =>
    obtain ⟨htrigger, hfiles, hphase⟩ := step_environment req s henv
    rw [Identified, htrigger, hfiles, hphase]
    exact h
  | false =>
    obtain ⟨o, id, rfl⟩ : ∃ o id, event = .arm o id := by
      cases event with
      | arm o id => exact ⟨o, id, rfl⟩
      | access _ => exact nomatch henv
      | idle => exact nomatch henv
    exact identified_advance h (hmeets rfl)

theorem misled_step {id other : UInt64} (event : Event) (h : s.Misled req id other) :
    (s.step req event).Misled req id other := by
  cases henv : event.environment with
  | true =>
    obtain ⟨htrigger, hfiles, hphase⟩ := step_environment req s henv
    exact ⟨htrigger.trans h.trigger, h.ne, by rw [hphase, hfiles]; exact h.phase⟩
  | false =>
    obtain ⟨o, new, rfl⟩ : ∃ o new, event = .arm o new := by
      cases event with
      | arm o new => exact ⟨o, new, rfl⟩
      | access _ => exact nomatch henv
      | idle => exact nomatch henv
    change (s.advance req o new).Misled req id other
    rcases h.phase with hphase | hphase | ⟨hphase, hrecorded⟩
    · obtain ⟨hmounts, hend⟩ := advance_record req o new hphase
      exact ⟨by rw [hmounts]; exact h.trigger, h.ne, Or.inr hend⟩
    · have hsame : s.advance req o new = s := by simp only [advance, hphase]
      rwa [hsame]
    · have hsame : s.advance req o new = s := by simp only [advance, hphase]
      rwa [hsame]

/-- A sampling under a mounted share takes the share for the trigger. -/
theorem misled_of_covered {event : Event} (h : s.Identified req)
    (hcovered : ¬s.SamplesTrigger event) : ∃ id other, (s.step req event).Misled req id other := by
  simp only [SamplesTrigger, not_forall] at hcovered
  obtain ⟨henv, hphase, hshare⟩ := hcovered
  obtain ⟨other, hother⟩ := Option.ne_none_iff_exists'.mp hshare
  obtain ⟨id, hid⟩ := Option.isSome_iff_exists.mp
    (show s.mounts.trigger.isSome by simpa only [Identified, hphase] using h)
  have hne : id ≠ other := s.mounts.apart id other hid hother
  cases event with
  | access _ => exact nomatch henv
  | idle => exact nomatch henv
  | arm o new =>
    have htop : (s.world req).sys.mountId req.plan.path = other := by
      simp [world, Autofs.sys, Autofs.top, hother]
    refine ⟨id, other, ?_⟩
    simp only [step, advance, hphase, htop]
    split_ifs
    · exact ⟨hid, hne, Or.inr (Or.inl rfl)⟩
    · exact ⟨hid, hne, Or.inl rfl⟩
    · exact ⟨hid, hne, Or.inr (Or.inl rfl)⟩
    · rename_i hzero
      exact absurd rfl hzero

/-- The instance that a call recorded stays trusted, whatever the environment
does, exactly when no share covered the trigger at the moment it was sampled. -/
theorem armed_trusted_iff (req : ArmShareRequest) (start : Arming) (hstart : start.phase = .inspect)
    (events : List Event) (harmed : (run req start events).phase = .armed) :
    (∀ later : List Event, (∀ event ∈ later, event.environment = true) →
        (run req start (events ++ later)).Resting →
          (run req start (events ++ later)).trust req = .trusted) ↔
      Runs.Throughout (step req) SamplesTrigger start events := by
  have hidentified : start.Identified req := by simp only [Identified, hstart]
  constructor
  · intro htrusted
    by_contra hbreaks
    obtain ⟨before, event, after, rfl, hbefore, hcovered⟩ :=
      Runs.exists_first_of_not_throughout hbreaks
    have hbeforeRun := Runs.run_keeps (I := Identified req)
      (fun s event h hmeets => identified_step event h hmeets) hidentified hbefore
    obtain ⟨id, other, hmisled⟩ := misled_of_covered hbeforeRun hcovered
    have hend : (run req start (before ++ event :: after)).Misled req id other := by
      rw [run, List.foldl_append, List.foldl_cons]
      exact Runs.run_keeps_always (fun s event h => misled_step event h) hmisled after
    generalize hfinal : run req start (before ++ event :: after) = final at harmed hend htrusted
    have hrecorded : readRecordedAutomountId final.files req.unitName = other := by
      rcases hend.phase with h | h | ⟨-, h⟩
      · rw [harmed] at h
        exact nomatch h
      · rw [harmed] at h
        exact nomatch h
      · exact h
    -- Once the share idles out, the trigger itself is on top.
    have hidle : run req start ((before ++ event :: after) ++ [.idle]) = final.step req .idle := by
      rw [run, List.foldl_append]
      exact congrArg (fun s : Arming => s.step req .idle) hfinal
    have hresting : (final.step req .idle).Resting :=
      ⟨Option.isSome_iff_exists.mpr ⟨id, hend.trigger⟩, rfl⟩
    have htrust := htrusted [.idle] (by simp [Event.environment]) (hidle ▸ hresting)
    rw [hidle, trust_eq_trusted hresting] at htrust
    have hsame : some id = some other :=
      hend.trigger.symm.trans (htrust.trans (congrArg some hrecorded))
    exact hend.ne (Option.some.inj hsame)
  · intro hmeets later hlater hresting
    have hend := Runs.run_keeps (I := Identified req)
      (fun s event h hmeets => identified_step event h hmeets) hidentified hmeets
    have hturn : ∀ (s : Arming) (event : Event), (s.phase = .armed ∧ s.Identified req) →
        event.environment = true →
        (s.step req event).phase = .armed ∧ (s.step req event).Identified req := by
      intro s event h henv
      obtain ⟨-, -, hphase⟩ := step_environment req s henv
      refine ⟨hphase.trans h.1, identified_step event h.2 fun hnot => ?_⟩
      rw [henv] at hnot
      exact nomatch hnot
    obtain ⟨hphase, hlast⟩ := Runs.run_keeps hturn ⟨harmed, hend⟩
      (Runs.throughout_of_forall (fun _ _ h => h) hlater)
    rw [← List.foldl_append] at hphase hlast
    change (run req start (events ++ later)).phase = .armed at hphase
    change (run req start (events ++ later)).Identified req at hlast
    simp only [Identified, hphase] at hlast
    exact (trust_eq_trusted hresting).mpr hlast

def sampleStart : Arming where
  files := World.blank
  mounts := .bare
  phase := .inspect

def sampleRequest : ArmShareRequest where
  shareId := sampleId
  authentication := .guest
  plan := { path := qs "/mnt/nas", root := qs "/mnt", suffix := [qs "nas"] }
  unitName := ⟨qs "mnt-nas", isUnitName_nas⟩
  what := qs "//nas/data"

/-- A whole call of `armShare`. The first access falls after the recording. -/
def accessAfterCall : List Event :=
  [.arm Prog.allOk 0, .arm Prog.allOk 0, .arm Prog.allOk 7, .arm Prog.allOk 0, .arm Prog.allOk 0,
    .access 8]

/-- The first access falls between the start and the sampling. -/
def accessBeforeSampling : List Event :=
  [.arm Prog.allOk 0, .arm Prog.allOk 0, .arm Prog.allOk 7, .access 8, .arm Prog.allOk 0,
    .arm Prog.allOk 0]

theorem armed_trusted_sample :
    (run sampleRequest sampleStart accessAfterCall).phase = .armed ∧
      (run sampleRequest sampleStart (accessAfterCall ++ [.idle])).trust sampleRequest =
        .trusted := by
  have harmed : (run sampleRequest sampleStart accessAfterCall).phase = .armed := by decide +kernel
  refine ⟨harmed, (armed_trusted_iff sampleRequest sampleStart rfl accessAfterCall harmed).mpr
    ?_ [.idle] (by simp [Event.environment]) ⟨by decide +kernel, rfl⟩⟩
  have hbare : ∀ n < 6, (run sampleRequest sampleStart (accessAfterCall.take n)).mounts.share =
      none := by
    decide +kernel
  exact ⟨fun _ _ => hbare 0 (by decide), fun _ _ => hbare 1 (by decide),
    fun _ _ => hbare 2 (by decide),
    fun _ _ => hbare 3 (by decide), fun _ _ => hbare 4 (by decide), nofun, trivial⟩

/-- The id recorded is the share's, and the trigger is distrusted once the share
has idled out. -/
theorem armed_distrusted :
    (run sampleRequest sampleStart accessBeforeSampling).phase = .armed ∧
      (run sampleRequest sampleStart (accessBeforeSampling ++ [.idle])).Resting ∧
      (run sampleRequest sampleStart (accessBeforeSampling ++ [.idle])).trust sampleRequest =
        .untrusted :=
  ⟨by decide +kernel, ⟨by decide +kernel, rfl⟩, by decide +kernel⟩

/-! ## The calls of `armShare` among the runs -/

/-- A failing call does not report the share as armed. -/
theorem wp_armFailed_ne {host : Host} {o : ArmSite → Outcome} {started : Option UInt64}
    {message : QString} {cleanupSafe : Bool} {w : World} :
    Prog.wp o (armFailed host req started message cleanupSafe) (fun r _ => r ≠ .armed)
      (fun _ _ => True) (fun _ => True) w := by
  cases started with
  | none => exact nofun
  | some id =>
    rw [armFailed, Prog.wp_bind]
    exact Prog.wp_mono _ (Prog.wp_trivial _) (fun _ _ _ => nofun) (fun _ _ _ => trivial)
      fun _ _ => trivial

theorem wp_startFailed_ne {host : Host} {o : ArmSite → Outcome} {message : QString} {w : World} :
    Prog.wp o (startFailed host req message) (fun r _ => r ≠ .armed)
      (fun _ _ => True) (fun _ => True) w := by
  rw [startFailed, Prog.wp_bind]
  refine Prog.wp_mono _ (Prog.wp_trivial _) (fun after _ _ => ?_) (fun _ _ _ => trivial)
    fun _ _ => trivial
  split_ifs
  · rw [Prog.wp_bind]
    exact Prog.wp_mono _ (Prog.wp_trivial _) (fun _ _ _ => wp_armFailed_ne) (fun _ _ _ => trivial)
      fun _ _ => trivial
  · exact wp_armFailed_ne

/-- A call of `armShare` that nothing interrupts and that arms the share is five
steps of the machine, and they end in the same state. -/
theorem run_of_armShare {host : Host} {o : ArmSite → Outcome} {id : UInt64}
    (hphase : s.phase = .inspect)
    (hstart : host.start req.unitName.automount (s.mounts.sys req) =
      (s.mounts.startTrigger id).sys req)
    (hactive : (s.mounts.startTrigger id).trigger.isSome) {w : World}
    (h : (armShare host req).run o (s.world req) = (.returned .armed, w)) :
    (run req s (List.replicate 5 (.arm o id))).phase = .armed ∧
      (run req s (List.replicate 5 (.arm o id))).world req = w := by
  suffices hwp : Prog.wp o (armShare host req) (fun r w => r = .armed →
      (run req s (List.replicate 5 (.arm o id))).phase = .armed ∧
        (run req s (List.replicate 5 (.arm o id))).world req = w) (fun _ _ => True)
      (fun _ => True) (s.world req) from ((Prog.wp_iff _).mp hwp).1 _ _ h rfl
  have hne : ∀ {p : Prog ArmSite World QString ArmShareResult} {v : World} {P : World → Prop},
      Prog.wp o p (fun r _ => r ≠ .armed) (fun _ _ => True) (fun _ => True) v →
      Prog.wp o p (fun r w => r = .armed → P w) (fun _ _ => True) (fun _ => True) v :=
    fun h => Prog.wp_mono _ h (fun _ _ hne heq => absurd heq hne) (fun _ _ h => h) fun _ h => h
  have hsame : Prog.wp o (Prog.mapSites ArmSite.inspect
      (inspectRuntime req.unitName req.plan.path req.what)) (fun _ w => w = s.world req)
      (fun _ _ => True) (fun _ => True) (s.world req) := by
    rw [Prog.wp_mapSites]
    exact wp_inspectRuntime trivial fun _ _ => rfl
  unfold armShare
  rw [Prog.wp_bind]
  refine Prog.wp_mono _ (Prog.wp_and _ (Prog.wp_run _) hsame) ?_ (fun _ _ _ => trivial)
    fun _ _ => trivial
  rintro snapshot _ ⟨hinspect, rfl⟩
  cases hpre : evaluateArmPrecheck snapshot with
  | blocked error => exact hne wp_armFailed_ne
  | alreadyArmed => exact nofun
  | readyToArm =>
    dsimp only
    have hinspected : s.step req (.arm o id) = { s with phase := .prepare } := by
      simp only [step, advance, hphase, hinspect, hpre]
    have hquiet : Prog.wp o (Prog.mapSites ArmSite.credential (checkCredential req))
        (fun _ w => w.sys = s.mounts.sys req) (fun _ _ => True) (fun _ => True) (s.world req) := by
      rw [Prog.wp_mapSites]
      exact wp_checkCredential (fun _ h => h.sys) (fun _ _ _ => trivial) fun _ _ => trivial
    rw [Prog.wp_bind, Prog.wp_attempt]
    refine Prog.wp_mono _ (Prog.wp_and _ (Prog.wp_run _) hquiet) ?_
      (fun _ _ _ => hne wp_armFailed_ne) fun _ _ => trivial
    rintro ⟨⟩ files ⟨hcredential, hsys⟩
    rw [Prog.wp_bind, Prog.wp_attempt, Prog.wp_act]
    cases hwalk : o .walk with
    | killed => trivial
    | failed applied => exact hne wp_armFailed_ne
    | ok =>
      have hprepared : step req { s with phase := .prepare } (.arm o id) =
          { s with files := files, phase := .start } := by
        simp only [step, advance]
        rw [show world req { s with phase := .prepare } = s.world req from rfl, hcredential]
        simp only [hwalk, if_true]
      dsimp only
      rw [Prog.wp_bind, Prog.wp_attempt, SystemdOps.start, Prog.wp_act]
      cases hstarted : o .start with
      | killed => trivial
      | failed applied => exact hne wp_startFailed_ne
      | ok =>
        dsimp only
        rw [hsys, hstart]
        have hlive : step req { s with files := files, phase := .start } (.arm o id) =
            ⟨files, s.mounts.startTrigger id, .sample⟩ := by
          simp only [step, advance, hstarted, if_true, hactive]
        rw [recordStarted, Prog.wp_bind, Prog.wp_ask]
        cases hsample : o .startedId with
        | killed => trivial
        | failed applied =>
          dsimp only
          rw [if_pos rfl]
          exact hne wp_armFailed_ne
        | ok =>
          dsimp only
          have htop : ((s.mounts.startTrigger id).sys req).mountId req.plan.path =
              (s.mounts.startTrigger id).top := if_pos rfl
          rw [htop]
          by_cases hzero : (s.mounts.startTrigger id).top = 0
          · rw [if_pos hzero]
            exact hne wp_armFailed_ne
          have hsampled : step req ⟨files, s.mounts.startTrigger id, .sample⟩ (.arm o id) =
              ⟨files, s.mounts.startTrigger id, .record (s.mounts.startTrigger id).top⟩ := by
            simp only [step, advance, hsample, if_true, world, htop, hzero, if_false]
          have hkept : Prog.wp o (Prog.mapSites ArmSite.record (RuntimeFiles.writeAutomountId
              req.unitName (s.mounts.startTrigger id).top))
              (fun _ w => w.sys = (s.mounts.startTrigger id).sys req) (fun _ _ => True)
              (fun _ => True) { files with sys := (s.mounts.startTrigger id).sys req } := by
            rw [Prog.wp_mapSites]
            exact wp_writeAutomountId (fun _ _ h _ => h) (fun _ _ _ => trivial) fun _ _ => trivial
          rw [if_neg hzero, Prog.wp_bind, Prog.wp_attempt]
          refine Prog.wp_mono _ (Prog.wp_and _ (Prog.wp_run _) hkept) ?_
            (fun _ _ _ => hne wp_armFailed_ne) fun _ _ => trivial
          rintro ⟨⟩ final ⟨hrecord, hfinal⟩ -
          have hrecorded : step req ⟨files, s.mounts.startTrigger id,
              .record (s.mounts.startTrigger id).top⟩ (.arm o id) =
              ⟨final, s.mounts.startTrigger id, .armed⟩ := by
            simp only [step, advance]
            rw [show world req ⟨files, s.mounts.startTrigger id,
              .record (s.mounts.startTrigger id).top⟩ =
                { files with sys := (s.mounts.startTrigger id).sys req } from rfl, hrecord]
          have hrun : run req s (List.replicate 5 (.arm o id)) =
              ⟨final, s.mounts.startTrigger id, .armed⟩ := by
            simp only [run, List.replicate, List.foldl, hinspected, hprepared, hlive, hsampled,
              hrecorded]
          rw [hrun]
          exact ⟨rfl, by rw [world, ← hfinal]⟩

end Trust

end Arming

end NasMount.Root
