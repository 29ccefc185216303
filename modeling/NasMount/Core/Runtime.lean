import NasMount.Core.Verify
import NasMount.Foundation.Prog

/-!
# The runtime axes

What `systemctl show`, the mount table and the recorded instance id say about
one definition: the automount, mount, verification and trust axes.
-/
namespace NasMount.Core

open NasMount.Foundation QString

inductive AutomountState
  | inactive
  | active
  | indeterminate
  deriving DecidableEq, Repr

inductive MountState
  | absent
  | present
  | indeterminate
  deriving DecidableEq, Repr

inductive VerificationState
  | notApplicable
  | matched
  | mismatch
  | indeterminate
  deriving DecidableEq, Repr

inductive ActivationTrust
  | notApplicable
  | trusted
  | untrusted
  deriving DecidableEq, Repr

structure RuntimeSnapshot where
  automount : AutomountState := .indeterminate
  mount : MountState := .indeterminate
  verification : VerificationState := .notApplicable
  activationTrust : ActivationTrust := .notApplicable
  deriving DecidableEq, Repr

/-- The entries of a stack that no other entry of it is mounted on. -/
def uncovered (stack : List MountEntry) : List MountEntry :=
  (stack.zipIdx.filter fun candidate =>
    !stack.zipIdx.any fun other =>
      other.2 ≠ candidate.2 && other.1.parentId = candidate.1.mountId).map Prod.fst

/-- The verdict for whatever is visible at the mount point. -/
def classifyMountEntries (entries : List MountEntry) (canonicalMountPoint expectedWhat : QString) :
    MountState × VerificationState :=
  match entries.filter fun entry => entry.mountPoint = cleanPath canonicalMountPoint with
  | [] => (.absent, .notApplicable)
  | stack =>
    match uncovered stack with
    | [top] =>
      if top.filesystemType = qs "cifs" then
        (.present, if top.mountSource = expectedWhat then .matched else .mismatch)
      -- The trigger has not been crossed yet: the ordinary resting state.
      else if top.filesystemType = qs "autofs" then (.absent, .notApplicable)
      else (.present, .mismatch)
    | _ => (.indeterminate, .indeterminate)

/-- The instance id recorded for a unit, zero if absent or not trustworthy. -/
def readRecordedAutomountId (w : World) (base : UnitName) : UInt64 :=
  match w.file? .automountIds base.text with
  | none => 0
  | some node =>
    if node.rootSafe && utf8Size node.content ≤ 32 then
      -- `toULongLong` allows a leading plus sign.
      let digits := trimmed node.content
      ((toUnsigned? (2 ^ 64) ((stripPrefix? ['+'] digits).getD digits)).getD 0).toUInt64
    else 0

/-- Reading a record back as it was written. -/
theorem readRecordedAutomountId_rootFile {w : World} {base : UnitName} {id : UInt64}
    (h : w.file? .automountIds base.text = some (rootFile .publicRecord (number id.toNat))) :
    readRecordedAutomountId w base = id := by
  have hsafe : (rootFile .publicRecord (number id.toNat)).rootSafe = true := by
    simp [rootFile, FileNode.rootSafe, modeFor]
  have hsize : utf8Size (number id.toNat) ≤ 32 :=
    utf8Size_number_le (by norm_num) (id.toNat_lt.trans (by norm_num))
  have hparse : toUnsigned? (2 ^ 64) (number id.toNat) = some id.toNat :=
    toUnsigned?_number id.toNat_lt
  rw [readRecordedAutomountId, h]
  simp only [rootFile_content, hsafe, hsize, decide_true, Bool.and_self, if_true, trimmed_number,
    stripPrefix?_plus_number, Option.getD_none, hparse, Option.getD_some]
  exact UInt64.ofNat_toNat

/-- The answers one inspection of the runtime works from. -/
structure RuntimeReads where
  automountState : Option QString
  mounts : Option (List MountEntry)
  mountState : Option QString
  recorded : UInt64
  current : UInt64

def automountAxis : Option QString → AutomountState
  | none => .indeterminate
  | some state =>
    if state = qs "active" then .active
    else if state = qs "inactive" || state = qs "failed" then .inactive
    -- Anything in transition is not stable enough to authorize a stop.
    else .indeterminate

/-- mountinfo decides, but only while systemd's own bookkeeping agrees. -/
def mountAxes (reads : RuntimeReads) (mountPoint expectedWhat : QString) :
    MountState × VerificationState :=
  match reads.mounts, reads.mountState with
  | some entries, some state =>
    let axes := classifyMountEntries entries mountPoint expectedWhat
    if state = qs "active" || state = qs "inactive" || state = qs "failed" then
      if (state = qs "active") = (axes.1 = .present) then axes else (.indeterminate, .indeterminate)
    else (.indeterminate, .indeterminate)
  | _, _ => (.indeterminate, .indeterminate)

def trustAxis (reads : RuntimeReads) : ActivationTrust :=
  if automountAxis reads.automountState = .active then
    if reads.recorded ≠ 0 && reads.current ≠ 0 && reads.recorded = reads.current then .trusted
    else .untrusted
  else .notApplicable

def snapshotOf (reads : RuntimeReads) (mountPoint expectedWhat : QString) : RuntimeSnapshot where
  automount := automountAxis reads.automountState
  mount := (mountAxes reads mountPoint expectedWhat).1
  verification := (mountAxes reads mountPoint expectedWhat).2
  activationTrust := trustAxis reads

/-- The answers of the present state. -/
def World.runtimeReads (w : World) (base : UnitName) (mountPoint : QString) : RuntimeReads where
  automountState := w.sys.activeState base.automount
  mounts := w.sys.mounts
  mountState := w.sys.activeState base.mount
  recorded := readRecordedAutomountId w base
  current := w.sys.mountId mountPoint

/-- The runtime of a definition when no read of the inspection fails. -/
def runtimeSnapshot (w : World) (base : UnitName) (mountPoint expectedWhat : QString) :
    RuntimeSnapshot :=
  snapshotOf (w.runtimeReads base mountPoint) mountPoint expectedWhat

inductive ReadSite
  | automountState
  | mountinfo
  | mountState
  | recorded
  | mountId
  deriving DecidableEq

def readSites : List ReadSite := [.automountState, .mountinfo, .mountState, .recorded, .mountId]

/-- The answers under a schedule: a failing read answers nothing. -/
def World.readsUnder (w : World) (o : ReadSite → Outcome) (base : UnitName) (mountPoint : QString) :
    RuntimeReads where
  automountState := if o .automountState = .ok then w.sys.activeState base.automount else none
  mounts := if o .mountinfo = .ok then w.sys.mounts else none
  mountState := if o .mountState = .ok then w.sys.activeState base.mount else none
  recorded := if o .recorded = .ok then readRecordedAutomountId w base else 0
  current := if o .mountId = .ok then w.sys.mountId mountPoint else 0

/-- `inspectRuntime`. Each read can fail, and then answers nothing. -/
def inspectRuntime (base : UnitName) (mountPoint expectedWhat : QString) :
    Prog ReadSite World QString RuntimeSnapshot := do
  let automountState ← Prog.ask .automountState (fun w => w.sys.activeState base.automount) none
  let mounts ← Prog.ask .mountinfo (fun w => w.sys.mounts) none
  let mountState ← Prog.ask .mountState (fun w => w.sys.activeState base.mount) none
  let recorded ← Prog.ask .recorded (fun w => readRecordedAutomountId w base) 0
  let current ← Prog.ask .mountId (fun w => w.sys.mountId mountPoint) 0
  return snapshotOf
    { automountState := automountState, mounts := mounts, mountState := mountState
      recorded := recorded, current := current } mountPoint expectedWhat

section Rules

variable {base : UnitName} {mountPoint expectedWhat : QString} {o : ReadSite → Outcome}
  {Q : RuntimeSnapshot → World → Prop} {E : QString → World → Prop} {C : World → Prop} {w : World}

/-- The reads an inspection can have worked from: each as the state has it, or
failed. -/
structure ReadsOf (w : World) (base : UnitName) (mountPoint : QString) (reads : RuntimeReads) :
    Prop where
  automountState : reads.automountState = none ∨
    reads.automountState = w.sys.activeState base.automount
  mounts : reads.mounts = none ∨ reads.mounts = w.sys.mounts
  mountState : reads.mountState = none ∨ reads.mountState = w.sys.activeState base.mount
  recorded : reads.recorded = 0 ∨ reads.recorded = readRecordedAutomountId w base
  current : reads.current = 0 ∨ reads.current = w.sys.mountId mountPoint

/-- An inspection leaves the state alone and works from some of its answers. -/
theorem wp_inspectRuntime (dead : C w)
    (done : ∀ reads, ReadsOf w base mountPoint reads →
      Q (snapshotOf reads mountPoint expectedWhat) w) :
    Prog.wp o (inspectRuntime base mountPoint expectedWhat) Q E C w := by
  unfold inspectRuntime
  rw [Prog.wp_bind]
  refine Prog.wp_ask_answer dead fun automountState h1 => ?_
  rw [Prog.wp_bind]
  refine Prog.wp_ask_answer dead fun mounts h2 => ?_
  rw [Prog.wp_bind]
  refine Prog.wp_ask_answer dead fun mountState h3 => ?_
  rw [Prog.wp_bind]
  refine Prog.wp_ask_answer dead fun recorded h4 => ?_
  rw [Prog.wp_bind]
  refine Prog.wp_ask_answer dead fun current h5 => ?_
  exact done _ ⟨h1, h2, h3, h4, h5⟩

/-- An inspection under a known schedule. -/
theorem wp_inspectRuntime_iff :
    Prog.wp o (inspectRuntime base mountPoint expectedWhat) Q E C w ↔
      if readSites.any (o · = .killed) then C w
      else Q (snapshotOf (w.readsUnder o base mountPoint) mountPoint expectedWhat) w := by
  have hask : ∀ {α : Type} (site : ReadSite) (read : World → α) (bad : α)
      (Q' : α → World → Prop),
      Prog.wp o (Prog.ask site read bad : Prog ReadSite World QString α) Q' E C w ↔
        if o site = .killed then C w else Q' (if o site = .ok then read w else bad) w := by
    intro α site read bad Q'
    by_cases hkilled : o site = .killed
    · rw [if_pos hkilled]
      exact Prog.wp_ask_killed hkilled
    · rw [if_neg hkilled]
      exact Prog.wp_ask_alive hkilled
  unfold inspectRuntime
  simp only [Prog.wp_bind, hask, Prog.wp_pure, readSites, List.any_cons, List.any_nil,
    Bool.or_false, Bool.or_eq_true, decide_eq_true_eq]
  by_cases h1 : o .automountState = .killed
  · simp [h1]
  by_cases h2 : o .mountinfo = .killed
  · simp [h1, h2]
  by_cases h3 : o .mountState = .killed
  · simp [h1, h2, h3]
  by_cases h4 : o .recorded = .killed
  · simp [h1, h2, h3, h4]
  by_cases h5 : o .mountId = .killed
  · simp [h1, h2, h3, h4, h5]
  simp only [h1, h2, h3, h4, h5, or_self, if_false]
  rfl

@[simp] theorem wp_inspectRuntime_allOk :
    Prog.wp Prog.allOk (inspectRuntime base mountPoint expectedWhat) Q E C w ↔
      Q (runtimeSnapshot w base mountPoint expectedWhat) w := Iff.rfl

end Rules

section Axes

theorem automountAxis_eq_active {state : Option QString} :
    automountAxis state = .active ↔ state = some (qs "active") := by
  cases state with
  | none => simp [automountAxis]
  | some state =>
    simp only [automountAxis, Option.some.injEq]
    split_ifs with h1 h2 <;> simp [h1]

theorem automountAxis_eq_inactive {state : Option QString} :
    automountAxis state = .inactive ↔
      state = some (qs "inactive") ∨ state = some (qs "failed") := by
  cases state with
  | none => simp [automountAxis]
  | some state =>
    simp only [automountAxis, Option.some.injEq]
    split_ifs with h1 h2
    · subst h1
      decide
    · simpa using h2
    · simpa using h2

theorem trustAxis_eq_trusted {reads : RuntimeReads} :
    trustAxis reads = .trusted ↔ reads.automountState = some (qs "active") ∧
      reads.recorded ≠ 0 ∧ reads.recorded = reads.current := by
  rw [← automountAxis_eq_active]
  unfold trustAxis
  split_ifs with hactive hids
  · simp only [Bool.and_eq_true, decide_eq_true_eq] at hids
    exact ⟨fun _ => ⟨hactive, hids.1.1, hids.2⟩, fun _ => rfl⟩
  · simp only [Bool.and_eq_true, decide_eq_true_eq] at hids
    refine ⟨fun h => (nomatch h), fun h => absurd ?_ hids⟩
    exact ⟨⟨h.2.1, h.2.2 ▸ h.2.1⟩, h.2.2⟩
  · exact ⟨fun h => (nomatch h), fun h => absurd h.1 hactive⟩

end Axes

end NasMount.Core
