import NasMount.Foundation.Runs

/-!
# The lock of the privileged operations

`RootLock::acquire` creates `/run/nasmount` and `helper.lock` as needed and then
waits for a lock on the file it has open. The file is named by a path but locked
by its inode, and a purge removes both while it holds the lock.
-/
namespace NasMount.Root

open NasMount.Foundation

/-- `/run/nasmount` and its one entry. A removed directory is empty for good. -/
structure RunDir where
  inode : ℕ
  lock : Option ℕ := none
  deriving DecidableEq

/-- How far a purge is with `/run/nasmount`; other operations stay at work. -/
inductive Stage
  | working
  | clearing (dir : ℕ)
  | cleared
  deriving DecidableEq

/-- Where a privileged process stands. -/
inductive Phase
  | idle
  | made
  | entered (dir : ℕ)
  | waiting (lock : ℕ)
  | holding (lock : ℕ) (stage : Stage)
  deriving DecidableEq

inductive Call
  | mkdirat
  | openDir
  | openLock
  | flock
  /-- A check fails, or the process is killed, before it holds the lock. -/
  | giveUp
  | openTree
  | unlinkLock
  | removeDir
  /-- The lock goes with its descriptor, also when the process is killed. -/
  | release
  deriving DecidableEq

structure LockEvent where
  process : ℕ
  call : Call
  deriving DecidableEq

structure LockMachine where
  run : Option RunDir := none
  owner : ℕ → Option ℕ := fun _ => none
  phase : ℕ → Phase := fun _ => .idle
  /-- The next inode number. -/
  fresh : ℕ := 0

namespace LockMachine

def become (s : LockMachine) (p : ℕ) (phase : Phase) : LockMachine :=
  { s with phase := Function.update s.phase p phase }

def lockedBy (s : LockMachine) (lock : ℕ) (p : Option ℕ) : LockMachine :=
  { s with owner := Function.update s.owner lock p }

/-- The first half of `createAndVerifyDir`. -/
def mkdirat (s : LockMachine) : LockMachine :=
  match s.run with
  | some _ => s
  | none => { s with run := some { inode := s.fresh }, fresh := s.fresh + 1 }

/-- `openat(dirFd, "helper.lock", O_CREAT …)`: it fails in a removed directory. -/
def openLock (s : LockMachine) (p dir : ℕ) : LockMachine :=
  match s.run with
  | none => s.become p .idle
  | some run =>
    if run.inode = dir then
      match run.lock with
      | some lock => s.become p (.waiting lock)
      | none =>
        become { s with run := some { run with lock := some s.fresh }, fresh := s.fresh + 1 } p
          (.waiting s.fresh)
    else s.become p .idle

def unlinkLock (s : LockMachine) (dir : ℕ) : LockMachine :=
  { s with run := s.run.map fun run => if run.inode = dir then { run with lock := none } else run }

/-- `unlinkat(…, AT_REMOVEDIR)`, which fails while there is an entry. -/
def removeDir (s : LockMachine) : LockMachine :=
  { s with run := s.run.filter fun run => run.lock.isSome }

def step (s : LockMachine) (event : LockEvent) : LockMachine :=
  let p := event.process
  match event.call, s.phase p with
  | .mkdirat, .idle => s.mkdirat.become p .made
  | .openDir, .made => s.become p (s.run.elim .idle fun run => .entered run.inode)
  | .openLock, .entered dir => s.openLock p dir
  | .flock, .waiting lock =>
    if s.owner lock = none then (s.lockedBy lock (some p)).become p (.holding lock .working) else s
  | .giveUp, .made | .giveUp, .entered _ | .giveUp, .waiting _ => s.become p .idle
  | .openTree, .holding lock .working =>
    s.become p (.holding lock (s.run.elim .cleared fun run => .clearing run.inode))
  | .unlinkLock, .holding _ (.clearing dir) => s.unlinkLock dir
  | .removeDir, .holding lock (.clearing _) => s.removeDir.become p (.holding lock .cleared)
  | .release, .holding lock _ => (s.lockedBy lock none).become p .idle
  | _, _ => s

/-- The process is between a successful acquire and its release. -/
def Holds (s : LockMachine) (p : ℕ) : Prop := ∃ lock stage, s.phase p = .holding lock stage

def AtMostOne (s : LockMachine) : Prop := ∀ p q, s.Holds p → s.Holds q → p = q

/-- `helper.lock` names this file. -/
def Linked (s : LockMachine) (lock : ℕ) : Prop := ∃ run, s.run = some run ∧ run.lock = some lock

/-- No process has the lock file open while a purge unlinks it, and none opens
one while the file of a held lock is unlinked. -/
def Undisturbed (s : LockMachine) (event : LockEvent) : Prop :=
  match event.call, s.phase event.process with
  | .openLock, .entered dir =>
    (∃ run, s.run = some run ∧ run.inode = dir) →
      ∀ q lock stage, s.phase q = .holding lock stage → s.Linked lock
  | .unlinkLock, .holding _ (.clearing dir) =>
    (∃ run, s.run = some run ∧ run.inode = dir) → ∀ q lock, s.phase q = .waiting lock →
      ¬s.Linked lock
  | _, _ => True

/-- The process has the lock file open. -/
def Engaged (s : LockMachine) (p : ℕ) : Prop :=
  (∃ lock, s.phase p = .waiting lock) ∨ s.Holds p

/-- Waiting processes wait for the file that is named, and so do those that hold
a lock, unless there is only one process at all. -/
structure Exclusive (s : LockMachine) : Prop where
  owner : ∀ lock p, s.owner lock = some p ↔ ∃ stage, s.phase p = .holding lock stage
  waiting : ∀ p lock, s.phase p = .waiting lock → s.Linked lock
  holding : ∀ p lock stage, s.phase p = .holding lock stage →
    s.Linked lock ∨ ∀ q, s.Engaged q → q = p

variable {s s' : LockMachine} {p : ℕ}

theorem Linked.unique {lock lock' : ℕ} (h : s.Linked lock) (h' : s.Linked lock') :
    lock = lock' := by
  obtain ⟨run, hrun, hlock⟩ := h
  obtain ⟨run', hrun', hlock'⟩ := h'
  rw [hrun, Option.some.injEq] at hrun'
  rw [hrun', hlock', Option.some.injEq] at hlock
  exact hlock.symm

theorem Exclusive.atMostOne (h : s.Exclusive) : s.AtMostOne := by
  rintro p q ⟨lock, stage, hlock⟩ ⟨lock', stage', hlock'⟩
  rcases h.holding p lock stage hlock with hlinked | halone
  · rcases h.holding q lock' stage' hlock' with hlinked' | halone'
    · obtain rfl := hlinked.unique hlinked'
      have howner := (h.owner lock p).2 ⟨stage, hlock⟩
      rw [(h.owner lock q).2 ⟨stage', hlock'⟩, Option.some.injEq] at howner
      exact howner.symm
    · exact halone' p (Or.inr ⟨lock, stage, hlock⟩)
  · exact (halone q (Or.inr ⟨lock', stage', hlock'⟩)).symm

@[simp] theorem phase_become_self (phase : Phase) : (s.become p phase).phase p = phase :=
  Function.update_self _ _ _

theorem phase_become_ne {q : ℕ} (h : q ≠ p) (phase : Phase) :
    (s.become p phase).phase q = s.phase q := Function.update_of_ne h _ _

@[simp] theorem owner_become (phase : Phase) : (s.become p phase).owner = s.owner := rfl

@[simp] theorem owner_lockedBy_self (lock : ℕ) (q : Option ℕ) :
    (s.lockedBy lock q).owner lock = q := Function.update_self _ _ _

theorem owner_lockedBy_ne {lock lock' : ℕ} (h : lock' ≠ lock) (q : Option ℕ) :
    (s.lockedBy lock q).owner lock' = s.owner lock' := Function.update_of_ne h _ _

@[simp] theorem phase_lockedBy (lock : ℕ) (q : Option ℕ) : (s.lockedBy lock q).phase = s.phase :=
  rfl

@[simp] theorem linked_become (phase : Phase) {lock : ℕ} :
    (s.become p phase).Linked lock ↔ s.Linked lock := Iff.rfl

/-- Who holds which lock stays the same, and nobody new waits. -/
theorem Exclusive.of_phases (h : s.Exclusive) (howner : s'.owner = s.owner)
    (hlinked : ∀ lock, s.Linked lock → s'.Linked lock)
    (hholding : ∀ q lock, (∃ stage, s'.phase q = .holding lock stage) ↔
      ∃ stage, s.phase q = .holding lock stage)
    (hwaiting : ∀ q lock, s'.phase q = .waiting lock → s.phase q = .waiting lock) :
    s'.Exclusive := by
  refine ⟨?_, ?_, ?_⟩
  · intro lock q
    rw [howner, h.owner, hholding]
  · intro q lock hq
    exact hlinked lock (h.waiting q lock (hwaiting q lock hq))
  · intro q lock stage hq
    obtain ⟨stage', hq'⟩ := (hholding q lock).1 ⟨stage, hq⟩
    apply (h.holding q lock stage' hq').imp (hlinked lock)
    intro halone r hr
    apply halone r
    apply hr.imp
    · rintro ⟨lock', hr⟩
      exact ⟨lock', hwaiting r lock' hr⟩
    · rintro ⟨lock', stage'', hr⟩
      exact ⟨lock', (hholding r lock').1 ⟨stage'', hr⟩⟩

/-- A process without a lock moves on without one. -/
theorem Exclusive.apart (h : s.Exclusive) (hfree : ¬s.Holds p) {phase : Phase}
    (hwaiting : ∀ lock, phase ≠ .waiting lock)
    (hholding : ∀ lock stage, phase ≠ .holding lock stage) : (s.become p phase).Exclusive := by
  apply h.of_phases (owner_become _) fun _ h => h
  · intro q lock
    by_cases hqp : q = p
    · subst hqp
      rw [phase_become_self]
      constructor
      · rintro ⟨stage, hq⟩
        exact absurd hq (hholding lock stage)
      · rintro ⟨stage, hq⟩
        exact absurd ⟨lock, stage, hq⟩ hfree
    · rw [phase_become_ne hqp]
  · intro q lock hq
    by_cases hqp : q = p
    · subst hqp
      rw [phase_become_self] at hq
      exact absurd hq (hwaiting lock)
    · rwa [phase_become_ne hqp] at hq

/-- A holder goes through its stages with its lock. -/
theorem Exclusive.stage (h : s.Exclusive) {lock : ℕ} {stage : Stage}
    (hp : s.phase p = .holding lock stage) (next : Stage) :
    (s.become p (.holding lock next)).Exclusive := by
  apply h.of_phases (owner_become _) fun _ h => h
  · intro q lock'
    by_cases hqp : q = p
    · subst hqp
      simp only [phase_become_self, hp, Phase.holding.injEq, exists_and_left, exists_eq', and_true]
    · rw [phase_become_ne hqp]
  · intro q lock' hq
    by_cases hqp : q = p
    · subst hqp
      rw [phase_become_self] at hq
      cases hq
    · rwa [phase_become_ne hqp] at hq

/-- A change of the directory that still names the same file. -/
theorem Exclusive.congr_run (h : s.Exclusive) {run : Option RunDir} {fresh : ℕ}
    (hlinked : ∀ lock, s.Linked lock →
      ({ s with run := run, fresh := fresh } : LockMachine).Linked lock) :
    ({ s with run := run, fresh := fresh } : LockMachine).Exclusive :=
  h.of_phases rfl hlinked (fun _ _ => Iff.rfl) fun _ _ h => h

theorem Exclusive.mkdirat (h : s.Exclusive) : s.mkdirat.Exclusive := by
  unfold LockMachine.mkdirat
  cases hrun : s.run with
  | some run => exact h
  | none =>
    apply h.congr_run
    rintro lock ⟨run, hsome, -⟩
    rw [hrun] at hsome
    cases hsome

theorem Exclusive.removeDir (h : s.Exclusive) : s.removeDir.Exclusive := by
  apply h.congr_run
  rintro lock ⟨run, hrun, hlock⟩
  exact ⟨run, by simp [hrun, hlock], hlock⟩

/-- A process begins to wait for the file that is named, with no unlinked lock
held. -/
theorem Exclusive.wait (h : s.Exclusive) {lock : ℕ} (hfree : ¬s.Holds p) (hlinked : s.Linked lock)
    (hheld : ∀ q lock stage, s.phase q = .holding lock stage → s.Linked lock) :
    (s.become p (.waiting lock)).Exclusive := by
  refine ⟨?_, ?_, ?_⟩
  · intro lock' q
    rw [owner_become, h.owner]
    by_cases hqp : q = p
    · subst hqp
      rw [phase_become_self]
      constructor
      · rintro ⟨stage, hq⟩
        exact absurd ⟨lock', stage, hq⟩ hfree
      · rintro ⟨stage, hq⟩
        cases hq
    · rw [phase_become_ne hqp]
  · intro q lock' hq
    by_cases hqp : q = p
    · subst hqp
      rw [phase_become_self, Phase.waiting.injEq] at hq
      exact hq ▸ hlinked
    · rw [phase_become_ne hqp] at hq
      exact h.waiting q lock' hq
  · intro q lock' stage hq
    left
    by_cases hqp : q = p
    · subst hqp
      rw [phase_become_self] at hq
      cases hq
    · rw [phase_become_ne hqp] at hq
      exact hheld q lock' stage hq

theorem Exclusive.openLock (h : s.Exclusive) {dir : ℕ} (hp : s.phase p = .entered dir)
    (hheld : (∃ run, s.run = some run ∧ run.inode = dir) →
      ∀ q lock stage, s.phase q = .holding lock stage → s.Linked lock) :
    (s.openLock p dir).Exclusive := by
  have hfree : ¬s.Holds p := by
    rintro ⟨lock, stage, hholding⟩
    rw [hp] at hholding
    cases hholding
  have hfails : (s.become p .idle).Exclusive := h.apart hfree nofun nofun
  unfold LockMachine.openLock
  cases hrun : s.run with
  | none => exact hfails
  | some run =>
    dsimp only
    split_ifs with hdir
    · have hall := hheld ⟨run, hrun, hdir⟩
      cases hlock : run.lock with
      | some lock => exact h.wait hfree ⟨run, hrun, hlock⟩ hall
      | none =>
        have hnobody : ∀ lock, ¬s.Linked lock := by
          rintro lock ⟨run', hrun', hlock'⟩
          rw [hrun, Option.some.injEq] at hrun'
          rw [← hrun', hlock] at hlock'
          cases hlock'
        apply Exclusive.wait
        · exact h.congr_run fun lock hlinked => absurd hlinked (hnobody lock)
        · exact hfree
        · exact ⟨_, rfl, rfl⟩
        · intro q lock stage hq
          exact absurd (hall q lock stage hq) (hnobody lock)
    · exact hfails

theorem Exclusive.flock (h : s.Exclusive) {lock : ℕ} (hp : s.phase p = .waiting lock)
    (howner : s.owner lock = none) :
    ((s.lockedBy lock (some p)).become p (.holding lock .working)).Exclusive := by
  have hlinked := h.waiting p lock hp
  have hnobody : ∀ q, ¬s.Holds q := by
    rintro q ⟨lock', stage, hq⟩
    rcases h.holding q lock' stage hq with hlinked' | halone
    · obtain rfl := hlinked.unique hlinked'
      rw [(h.owner lock q).2 ⟨stage, hq⟩] at howner
      cases howner
    · obtain rfl := halone p (Or.inl ⟨lock, hp⟩)
      rw [hp] at hq
      cases hq
  refine ⟨?_, ?_, ?_⟩
  · intro lock' q
    constructor
    · intro hq
      by_cases hlock : lock' = lock
      · subst hlock
        rw [owner_become, owner_lockedBy_self, Option.some.injEq] at hq
        exact ⟨.working, hq ▸ phase_become_self _⟩
      · rw [owner_become, owner_lockedBy_ne hlock] at hq
        obtain ⟨stage, hq⟩ := (h.owner lock' q).1 hq
        exact absurd ⟨lock', stage, hq⟩ (hnobody q)
    · rintro ⟨stage, hq⟩
      by_cases hqp : q = p
      · subst hqp
        rw [phase_become_self, Phase.holding.injEq] at hq
        rw [owner_become, ← hq.1, owner_lockedBy_self]
      · rw [phase_become_ne hqp] at hq
        exact absurd ⟨lock', stage, hq⟩ (hnobody q)
  · intro q lock' hq
    by_cases hqp : q = p
    · subst hqp
      rw [phase_become_self] at hq
      cases hq
    · rw [phase_become_ne hqp] at hq
      exact h.waiting q lock' hq
  · intro q lock' stage hq
    left
    by_cases hqp : q = p
    · subst hqp
      rw [phase_become_self, Phase.holding.injEq] at hq
      exact hq.1 ▸ hlinked
    · rw [phase_become_ne hqp] at hq
      exact absurd ⟨lock', stage, hq⟩ (hnobody q)

theorem Exclusive.release (h : s.Exclusive) {lock : ℕ} {stage : Stage}
    (hp : s.phase p = .holding lock stage) :
    ((s.lockedBy lock none).become p .idle).Exclusive := by
  have hself := (h.owner lock p).2 ⟨stage, hp⟩
  have hother : ∀ q next, ((s.lockedBy lock none).become p .idle).phase q = next → next ≠ .idle →
      q ≠ p ∧ s.phase q = next := by
    intro q next hq hne
    by_cases hqp : q = p
    · subst hqp
      rw [phase_become_self] at hq
      exact absurd hq.symm hne
    · exact ⟨hqp, by rwa [phase_become_ne hqp] at hq⟩
  refine ⟨?_, ?_, ?_⟩
  · intro lock' q
    constructor
    · intro hq
      have hlock : lock' ≠ lock := by
        rintro rfl
        rw [owner_become, owner_lockedBy_self] at hq
        cases hq
      rw [owner_become, owner_lockedBy_ne hlock] at hq
      obtain ⟨stage', hq⟩ := (h.owner lock' q).1 hq
      have hqp : q ≠ p := by
        rintro rfl
        rw [hp, Phase.holding.injEq] at hq
        exact hlock hq.1.symm
      exact ⟨stage', by rwa [phase_become_ne hqp]⟩
    · rintro ⟨stage', hq⟩
      obtain ⟨hqp, hq⟩ := hother q _ hq nofun
      have howner := (h.owner lock' q).2 ⟨stage', hq⟩
      have hlock : lock' ≠ lock := by
        rintro rfl
        rw [hself, Option.some.injEq] at howner
        exact hqp howner.symm
      rwa [owner_become, owner_lockedBy_ne hlock]
  · intro q lock' hq
    exact h.waiting q lock' (hother q _ hq nofun).2
  · intro q lock' stage' hq
    obtain ⟨hqp, hq⟩ := hother q _ hq nofun
    apply (h.holding q lock' stage' hq).imp_right
    intro halone
    exact absurd (halone p (Or.inr ⟨lock, stage, hp⟩)).symm hqp

/-- Where nobody waits for it, the file may go: its holder is alone. -/
theorem Exclusive.unlinkLock (h : s.Exclusive) {dir : ℕ}
    (hwaiting : (∃ run, s.run = some run ∧ run.inode = dir) →
      ∀ q lock, s.phase q = .waiting lock → ¬s.Linked lock) :
    (s.unlinkLock dir).Exclusive := by
  by_cases hlive : ∃ run, s.run = some run ∧ run.inode = dir
  · have hnowait : ∀ q lock, s.phase q ≠ .waiting lock := by
      intro q lock hq
      exact hwaiting hlive q lock hq (h.waiting q lock hq)
    refine ⟨h.owner, ?_, ?_⟩
    · intro q lock hq
      exact absurd hq (hnowait q lock)
    · intro q lock stage hq
      right
      rintro r (⟨lock', hr⟩ | hr)
      · exact absurd hr (hnowait r lock')
      · exact h.atMostOne r q hr ⟨lock, stage, hq⟩
  · apply h.congr_run
    rintro lock ⟨run, hrun, hlock⟩
    have hdir : run.inode ≠ dir := fun hdir => hlive ⟨run, hrun, hdir⟩
    exact ⟨run, by simp [hrun, hdir], hlock⟩

theorem Exclusive.step (h : s.Exclusive) (event : LockEvent) (hmeets : s.Undisturbed event) :
    (s.step event).Exclusive := by
  obtain ⟨p, call⟩ := event
  have hfree : ∀ phase, s.phase p = phase → (∀ lock stage, phase ≠ .holding lock stage) →
      ¬s.Holds p := by
    rintro phase hphase hne ⟨lock, stage, hholds⟩
    exact hne lock stage (hphase.symm.trans hholds)
  simp only [Undisturbed] at hmeets
  simp only [LockMachine.step]
  cases hphase : s.phase p with
  | idle =>
    cases call with
    | mkdirat =>
      refine h.mkdirat.apart ?_ nofun nofun
      have hsame : s.mkdirat.phase = s.phase := by
        unfold LockMachine.mkdirat
        split <;> rfl
      rw [Holds, hsame]
      exact hfree _ hphase nofun
    | _ => exact h
  | made =>
    have hmove : ∀ phase : Phase, (∀ lock, phase ≠ .waiting lock) →
        (∀ lock stage, phase ≠ .holding lock stage) → (s.become p phase).Exclusive :=
      fun _ => h.apart (hfree _ hphase nofun)
    cases call with
    | openDir => cases s.run <;> exact hmove _ nofun nofun
    | giveUp => exact hmove _ nofun nofun
    | _ => exact h
  | entered dir =>
    simp only [hphase] at hmeets
    cases call with
    | openLock => exact h.openLock hphase hmeets
    | giveUp => exact h.apart (hfree _ hphase nofun) nofun nofun
    | _ => exact h
  | waiting lock =>
    cases call with
    | flock =>
      dsimp only
      split_ifs with howner
      · exact h.flock hphase howner
      · exact h
    | giveUp => exact h.apart (hfree _ hphase nofun) nofun nofun
    | _ => exact h
  | holding lock stage =>
    simp only [hphase] at hmeets
    cases call with
    | release => exact h.release hphase
    | openTree =>
      cases stage with
      | working => cases s.run <;> exact h.stage hphase _
      | _ => exact h
    | unlinkLock =>
      cases stage with
      | clearing dir => exact h.unlinkLock hmeets
      | _ => exact h
    | removeDir =>
      cases stage with
      | clearing dir => exact h.removeDir.stage hphase _
      | _ => exact h
    | _ => exact h

/-- A step is a step of one process. -/
theorem step_phase_ne (event : LockEvent) {q : ℕ} (hq : q ≠ event.process) :
    (s.step event).phase q = s.phase q := by
  have hbecome : ∀ (t : LockMachine) phase, t.phase = s.phase →
      (t.become event.process phase).phase q = s.phase q := by
    intro t phase ht
    rw [phase_become_ne hq, ht]
  have hmkdirat : s.mkdirat.phase = s.phase := by
    unfold LockMachine.mkdirat
    split <;> rfl
  unfold LockMachine.step
  dsimp only
  split
  · exact hbecome _ _ hmkdirat
  · exact hbecome _ _ rfl
  · unfold LockMachine.openLock
    split
    · exact hbecome _ _ rfl
    · split_ifs
      · split <;> exact hbecome _ _ rfl
      · exact hbecome _ _ rfl
  · split_ifs
    · exact hbecome _ _ rfl
    · rfl
  all_goals first | exact hbecome _ _ rfl | rfl

theorem run_phase_ne {events : List LockEvent} {q : ℕ} (hq : ∀ event ∈ events, q ≠ event.process) :
    (events.foldl step s).phase q = s.phase q := by
  induction events generalizing s with
  | nil => rfl
  | cons event events ih =>
    rw [List.foldl_cons, ih fun e he => hq e (List.mem_cons_of_mem _ he)]
    exact step_phase_ne event (hq event List.mem_cons_self)

theorem exclusive_start : ({} : LockMachine).Exclusive :=
  ⟨by simp, by simp, by simp⟩

/-- At most one process holds the lock, if in every step no purge unlinks the
lock file while another process waits for it, and none opens a new one while the
lock on an unlinked one is held. -/
theorem mutual_exclusion {events : List LockEvent}
    (h : Runs.Throughout step Undisturbed {} events) : (events.foldl step {}).AtMostOne :=
  (Runs.run_keeps (I := Exclusive) (fun _ event h hmeets => h.step event hmeets) exclusive_start
    h).atMostOne

/-- The calls of `RootLock::acquire`. -/
def acquire (p : ℕ) : List LockEvent :=
  [⟨p, .mkdirat⟩, ⟨p, .openDir⟩, ⟨p, .openLock⟩, ⟨p, .flock⟩]

/-- The removal of `/run/nasmount` at the end of a purge. -/
def removeTree (p : ℕ) : List LockEvent := [⟨p, .openTree⟩, ⟨p, .unlinkLock⟩, ⟨p, .removeDir⟩]

/-- A purge that nobody waits for, and an operation after it. -/
def purgeAlone : List LockEvent := acquire 1 ++ removeTree 1 ++ [⟨1, .release⟩] ++ acquire 2

theorem phase_purgeAlone {n q : ℕ} {phase : Phase}
    (h : ((purgeAlone.take n).foldl step {}).phase q = phase) (hidle : phase ≠ .idle) : q ≤ 2 := by
  by_contra hgt
  have hprocess : ∀ event ∈ purgeAlone, event.process ≤ 2 := by decide
  rw [run_phase_ne] at h
  · exact hidle h.symm
  · intro event hevent
    have hle := hprocess event (List.mem_of_mem_take hevent)
    omega

theorem mutual_exclusion_sample :
    (purgeAlone.foldl step {}).Holds 2 ∧ (purgeAlone.foldl step {}).AtMostOne := by
  have hfree : ∀ n ∈ [2, 10], ∀ q ≤ 2, (match ((purgeAlone.take n).foldl step {}).phase q with
      | .holding _ _ => false
      | _ => true) = true := by decide
  have hnowait : ∀ q ≤ 2, (match ((purgeAlone.take 5).foldl step {}).phase q with
      | .waiting _ => false
      | _ => true) = true := by decide
  have hnobody : ∀ n ∈ [2, 10], ∀ q lock stage,
      ((purgeAlone.take n).foldl step {}).phase q ≠ .holding lock stage := by
    intro n hn q lock stage hq
    have hmatch := hfree n hn q (phase_purgeAlone hq nofun)
    rw [hq] at hmatch
    cases hmatch
  refine ⟨⟨3, .working, by decide⟩, mutual_exclusion ?_⟩
  refine ⟨trivial, trivial, ?_, trivial, trivial, ?_, trivial, trivial, trivial, trivial, ?_,
    trivial, trivial⟩
  · intro _ q lock stage hq
    exact absurd hq (hnobody 2 (by decide) q lock stage)
  · intro _ q lock hq
    change ((purgeAlone.take 5).foldl step {}).phase q = _ at hq
    have hmatch := hnowait q (phase_purgeAlone hq nofun)
    rw [hq] at hmatch
    cases hmatch
  · intro _ q lock stage hq
    exact absurd hq (hnobody 10 (by decide) q lock stage)

/-- A process that waits for the old lock file gets its lock after the purge, and
another one locks the new file meanwhile. -/
theorem two_holders :
    let events := acquire 1 ++ acquire 2 ++ removeTree 1 ++
      ([⟨1, .release⟩, ⟨2, .flock⟩] : List LockEvent) ++ acquire 3
    (events.foldl step {}).Holds 2 ∧ (events.foldl step {}).Holds 3 ∧
      ¬(events.foldl step {}).AtMostOne := by
  have hsecond : ((acquire 1 ++ acquire 2 ++ removeTree 1 ++
      ([⟨1, .release⟩, ⟨2, .flock⟩] : List LockEvent) ++ acquire 3).foldl step {}).Holds 2 :=
    ⟨1, .working, by decide⟩
  have hthird : ((acquire 1 ++ acquire 2 ++ removeTree 1 ++
      ([⟨1, .release⟩, ⟨2, .flock⟩] : List LockEvent) ++ acquire 3).foldl step {}).Holds 3 :=
    ⟨3, .working, by decide⟩
  refine ⟨hsecond, hthird, ?_⟩
  intro hone
  exact absurd (hone 2 3 hsecond hthird) (by decide)

end LockMachine
end NasMount.Root
