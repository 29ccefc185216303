import NasMount.Foundation.Runs
import NasMount.Foundation.Text

/-!
# The checks of the mount point field

One check runs at a time and one request waits behind it. An answer goes out
through a signal, and a receiver may ask for further checks before the request
that waited is taken up again.
-/
namespace NasMount.Session

open NasMount.Foundation QString

/-- What the session sees of the checks, in the order of time. -/
inductive CheckEntry
  | asked (raw : QString)
  | answered (raw problem : QString)
  deriving DecidableEq

structure MountPointChecks where
  checkRunning : Bool := false
  checkPending : Bool := false
  pendingRaw : QString := []
  /-- The texts of the checks in flight. -/
  workers : List QString := []
  log : List CheckEntry := []

inductive CheckEvent
  /-- A request made from outside every receiver. -/
  | request (raw : QString)
  /-- A worker is done, and the receivers of its answer ask in turn. -/
  | finished (worker : ℕ) (problem : QString) (asked : List QString)
  deriving DecidableEq

namespace MountPointChecks

def startMountPointCheck (s : MountPointChecks) (raw : QString) : MountPointChecks :=
  { s with checkRunning := true, workers := s.workers ++ [raw] }

def checkMountPoint (s : MountPointChecks) (raw : QString) : MountPointChecks :=
  if s.checkRunning then { s with checkPending := true, pendingRaw := raw }
  else s.startMountPointCheck raw

/-- A request of the session. -/
def ask (s : MountPointChecks) (raw : QString) : MountPointChecks :=
  checkMountPoint { s with log := s.log ++ [CheckEntry.asked raw] } raw

/-- The slot is free and the answer out, before the receivers run. -/
def answer (s : MountPointChecks) (worker : ℕ) (raw problem : QString) : MountPointChecks :=
  { s with
    checkRunning := false
    checkPending := false
    workers := s.workers.eraseIdx worker
    log := s.log ++ [.answered raw problem] }

/-- The slot of `QFutureWatcherBase::finished`. -/
def finish (s : MountPointChecks) (worker : ℕ) (raw problem : QString) (asked : List QString) :
    MountPointChecks :=
  let after := asked.foldl ask (s.answer worker raw problem)
  if s.checkPending then after.checkMountPoint s.pendingRaw else after

def step (s : MountPointChecks) : CheckEvent → MountPointChecks
  | .request raw => s.ask raw
  | .finished worker problem asked =>
    match s.workers[worker]? with
    | none => s
    | some raw => s.finish worker raw problem asked

/-- The newest request of the history has its answer behind it. -/
def NewestAnswered (log : List CheckEntry) : Prop :=
  ∀ before raw after, log = before ++ .asked raw :: after → (∀ later, .asked later ∉ after) →
    ∃ problem, .answered raw problem ∈ after

/-- The text that still waits for its answer, after one more entry. -/
def note (waiting : Option QString) : CheckEntry → Option QString
  | .asked raw => some raw
  | .answered raw _ => if waiting = some raw then none else waiting

def unanswered (log : List CheckEntry) : Option QString :=
  log.foldl note none

@[simp] theorem unanswered_asked (log : List CheckEntry) (raw : QString) :
    unanswered (log ++ [.asked raw]) = some raw := by
  simp [unanswered, note]

@[simp] theorem unanswered_answered (log : List CheckEntry) (raw problem : QString) :
    unanswered (log ++ [.answered raw problem]) =
      if unanswered log = some raw then none else unanswered log := by
  rw [unanswered, List.foldl_append]
  rfl

/-- Between two requests only the answer to the first can settle it. -/
theorem exists_answered_of_foldl_note {raw : QString} {after : List CheckEntry}
    (h : ∀ later, .asked later ∉ after) (hnone : after.foldl note (some raw) = none) :
    ∃ problem, .answered raw problem ∈ after := by
  induction after with
  | nil => simp at hnone
  | cons entry after ih =>
    cases entry with
    | asked later => exact absurd List.mem_cons_self (h later)
    | answered settled problem =>
      by_cases hsettled : settled = raw
      · subst hsettled
        exact ⟨problem, List.mem_cons_self⟩
      · have hstep : note (some raw) (.answered settled problem) = some raw := by
          simp [note, Ne.symm hsettled]
        rw [List.foldl_cons, hstep] at hnone
        obtain ⟨found, hfound⟩ :=
          ih (fun later hlater => h later (List.mem_cons_of_mem _ hlater)) hnone
        exact ⟨found, List.mem_cons_of_mem _ hfound⟩

theorem newestAnswered_of_unanswered {log : List CheckEntry} (h : unanswered log = none) :
    NewestAnswered log := by
  intro before raw after hlog hlast
  apply exists_answered_of_foldl_note hlast
  simpa [unanswered, hlog, note] using h

/-- One check at most, and none waits behind no check. -/
structure Sound (s : MountPointChecks) : Prop where
  one : s.workers.length ≤ 1
  running : s.checkRunning = true ↔ s.workers ≠ []
  pending : s.checkPending = true → s.checkRunning = true

/-- The newest request is being worked on or waits, until it is answered. -/
structure Followed (s : MountPointChecks) : Prop extends Sound s where
  newest : ∀ raw, unanswered s.log = some raw →
    raw ∈ s.workers ∨ s.checkPending = true ∧ s.pendingRaw = raw

variable {s : MountPointChecks}

theorem checkMountPoint_running (raw : QString) : (s.checkMountPoint raw).checkRunning = true := by
  unfold checkMountPoint startMountPointCheck
  split_ifs with hrunning
  · exact hrunning
  · rfl

@[simp] theorem checkMountPoint_log (raw : QString) : (s.checkMountPoint raw).log = s.log := by
  unfold checkMountPoint startMountPointCheck
  split_ifs <;> rfl

theorem Sound.checkMountPoint (h : s.Sound) (raw : QString) : (s.checkMountPoint raw).Sound := by
  unfold MountPointChecks.checkMountPoint startMountPointCheck
  split_ifs with hrunning
  · exact ⟨h.one, h.running, fun _ => hrunning⟩
  · have hidle : s.workers = [] := by
      by_contra hworkers
      exact hrunning (h.running.2 hworkers)
    constructor
    · simp [hidle]
    · simp
    · simp

/-- The text just asked for is taken, at once or behind the running check. -/
theorem checkMountPoint_takes (raw : QString) :
    raw ∈ (s.checkMountPoint raw).workers ∨
      (s.checkMountPoint raw).checkPending = true ∧ (s.checkMountPoint raw).pendingRaw = raw := by
  unfold checkMountPoint startMountPointCheck
  split_ifs
  · exact .inr ⟨rfl, rfl⟩
  · exact .inl (by simp)

theorem Sound.ask (h : s.Sound) (raw : QString) : (s.ask raw).Sound :=
  Sound.checkMountPoint (s := { s with log := s.log ++ [.asked raw] })
    ⟨h.one, h.running, h.pending⟩ raw

@[simp] theorem ask_log (raw : QString) : (s.ask raw).log = s.log ++ [.asked raw] := by
  simp [ask]

theorem Sound.followed_ask (h : s.Sound) (raw : QString) : (s.ask raw).Followed where
  toSound := h.ask raw
  newest := by
    intro newest hnewest
    rw [ask_log, unanswered_asked, Option.some.injEq] at hnewest
    subst hnewest
    exact checkMountPoint_takes raw

theorem Sound.asks (h : s.Sound) (asked : List QString) :
    (asked.foldl MountPointChecks.ask s).Sound := by
  induction asked generalizing s with
  | nil => exact h
  | cons raw asked ih => exact ih (h.ask raw)

theorem Followed.asks (h : s.Followed) (asked : List QString) :
    (asked.foldl MountPointChecks.ask s).Followed := by
  induction asked generalizing s with
  | nil => exact h
  | cons raw asked ih => exact ih (h.toSound.followed_ask raw)

/-- Requests made while a check runs leave it alone. -/
theorem asks_of_running (hrunning : s.checkRunning = true) (asked : List QString) :
    (asked.foldl ask s).checkRunning = true ∧ (asked.foldl ask s).workers = s.workers := by
  induction asked generalizing s with
  | nil => exact ⟨hrunning, rfl⟩
  | cons raw asked ih =>
    have hask : (s.ask raw).workers = s.workers := by
      simp [ask, checkMountPoint, hrunning]
    rw [List.foldl_cons, ← hask]
    exact ih (checkMountPoint_running raw)

theorem unanswered_asks (raw : QString) (asked : List QString) :
    unanswered ((raw :: asked).foldl ask s).log = (raw :: asked).getLast? := by
  induction asked generalizing s raw with
  | nil => simp
  | cons next asked ih =>
    rw [List.foldl_cons, ih next, List.getLast?_cons_cons]

theorem Sound.answer (h : s.Sound) {worker : ℕ} {raw : QString} (problem : QString)
    (hraw : s.workers[worker]? = some raw) :
    (s.answer worker raw problem).Sound ∧ (s.answer worker raw problem).workers = [] ∧
      s.workers = [raw] := by
  obtain ⟨hlt, hget⟩ := List.getElem?_eq_some_iff.1 hraw
  obtain ⟨only, honly⟩ : ∃ only, s.workers = [only] := by
    apply List.length_eq_one_iff.1
    have hone := h.one
    omega
  have hworker : worker = 0 := by
    rw [honly, List.length_singleton] at hlt
    omega
  subst hworker
  have hrest : (s.answer 0 raw problem).workers = [] := by
    simp [MountPointChecks.answer, honly]
  refine ⟨⟨?_, ?_, ?_⟩, hrest, ?_⟩
  · simp [hrest]
  · simp [hrest]
    rfl
  · simp [MountPointChecks.answer]
  · simp [honly] at hget
    rw [honly, hget]

/-- What is left unanswered by an answer is what waited. -/
theorem Followed.waiting_of_answer (h : s.Followed) {worker : ℕ} {raw problem newest : QString}
    (hworkers : s.workers = [raw])
    (hnewest : unanswered (s.answer worker raw problem).log = some newest) :
    s.checkPending = true ∧ s.pendingRaw = newest := by
  simp only [MountPointChecks.answer, unanswered_answered] at hnewest
  split_ifs at hnewest with hraw
  rcases h.newest newest hnewest with hmem | hpending
  · rw [hworkers, List.mem_singleton] at hmem
    exact absurd (hmem ▸ hnewest) hraw
  · exact hpending

theorem Sound.step (h : s.Sound) (event : CheckEvent) : (s.step event).Sound := by
  cases event with
  | request raw => exact h.ask raw
  | finished worker problem asked =>
    simp only [MountPointChecks.step]
    cases hraw : s.workers[worker]? with
    | none => exact h
    | some raw =>
      have hafter := (h.answer problem hraw).1.asks asked
      simp only [finish]
      split_ifs
      · exact hafter.checkMountPoint _
      · exact hafter

/-- The receivers' last request is the one they start or the one that waits
already. -/
def Kept (s : MountPointChecks) : CheckEvent → Prop
  | .request _ => True
  | .finished worker _ asked =>
    worker < s.workers.length → s.checkPending = true →
      asked.getLast? = asked.head? ∨ asked.getLast? = some s.pendingRaw

theorem Followed.finish (h : s.Followed) {worker : ℕ} {raw : QString} (problem : QString)
    {asked : List QString} (hraw : s.workers[worker]? = some raw)
    (hkept : s.checkPending = true →
      asked.getLast? = asked.head? ∨ asked.getLast? = some s.pendingRaw) :
    (s.finish worker raw problem asked).Followed := by
  obtain ⟨hsound, hidle, hworkers⟩ := h.toSound.answer problem hraw
  unfold MountPointChecks.finish
  split_ifs with hpending
  · refine ⟨(hsound.asks asked).checkMountPoint _, ?_⟩
    intro newest hnewest
    rw [checkMountPoint_log] at hnewest
    cases asked with
    | nil =>
      obtain ⟨-, rfl⟩ := h.waiting_of_answer hworkers hnewest
      exact checkMountPoint_takes _
    | cons first asked =>
      rw [unanswered_asks] at hnewest
      rcases hkept hpending with hlast | hlast
      · -- the newest text is the one that runs since the first request
        have hstarted := asks_of_running (s := (s.answer worker raw problem).ask first)
          (checkMountPoint_running first) asked
        left
        rw [List.foldl_cons, MountPointChecks.checkMountPoint, if_pos hstarted.1]
        rw [hlast, List.head?_cons, Option.some.injEq] at hnewest
        simp only [hstarted.2, ← hnewest]
        simp [ask, MountPointChecks.checkMountPoint, startMountPointCheck, MountPointChecks.answer]
      · rw [hnewest, Option.some.injEq] at hlast
        subst hlast
        exact checkMountPoint_takes _
  · apply Followed.asks ⟨hsound, ?_⟩
    intro newest hnewest
    exact absurd (h.waiting_of_answer hworkers hnewest).1 hpending

theorem Followed.step (h : s.Followed) (event : CheckEvent) (hkept : Kept s event) :
    (s.step event).Followed := by
  cases event with
  | request raw => exact h.toSound.followed_ask raw
  | finished worker problem asked =>
    simp only [MountPointChecks.step]
    cases hraw : s.workers[worker]? with
    | none => exact h
    | some raw => exact h.finish problem hraw (hkept (List.getElem?_eq_some_iff.1 hraw).1)

theorem followed_start : ({} : MountPointChecks).Followed :=
  ⟨⟨by simp, by simp, by simp⟩, by simp [unanswered]⟩

/-- At most one check is ever in flight. When none is, the newest request has
been answered, if in every answer the receivers' last request was the one they
started or the one that waited. -/
theorem checks_answer_newest (events : List CheckEvent) :
    (events.foldl step {}).workers.length ≤ 1 ∧
      (Runs.Throughout step Kept {} events → (events.foldl step {}).workers = [] →
        (events.foldl step {}).checkPending = false →
          NewestAnswered (events.foldl step {}).log) := by
  constructor
  · exact (Runs.run_keeps_always (I := Sound) (fun _ event h => h.step event)
      followed_start.toSound events).one
  · intro hkept hidle hpending
    have hfollowed := Runs.run_keeps (I := Followed) (fun _ event h hkept => h.step event hkept)
      followed_start hkept
    apply newestAnswered_of_unanswered
    by_contra hnewest
    obtain ⟨newest, hsome⟩ := Option.ne_none_iff_exists'.1 hnewest
    rcases hfollowed.newest newest hsome with hmem | ⟨htrue, -⟩
    · simp [hidle] at hmem
    · simp [hpending] at htrue

/-- A request that replaces the waiting one, and the answers to both that ran. -/
theorem checks_answer_newest_sample :
    NewestAnswered (([.request (qs "/home/u/one"), .request (qs "/home/u/two"),
      .request (qs "/home/u/three"), .finished 0 [] [], .finished 0 [] []] :
        List CheckEvent).foldl step {}).log := by
  refine (checks_answer_newest _).2 ⟨trivial, trivial, trivial, ?_, ?_, trivial⟩ ?_ ?_
  · exact fun _ _ => Or.inl rfl
  · exact fun _ _ => Or.inl rfl
  · decide +kernel
  · decide +kernel

/-- Two requests from a receiver while a third waits: the second is overwritten
by the one that waited, and nothing answers it. -/
theorem checks_lose_newest :
    let events : List CheckEvent :=
      [.request (qs "/home/u/one"), .request (qs "/home/u/two"),
        .finished 0 [] [qs "/home/u/three", qs "/home/u/four"], .finished 0 [] [],
        .finished 0 [] []]
    (events.foldl step {}).workers = [] ∧ (events.foldl step {}).checkPending = false ∧
      ¬NewestAnswered (events.foldl step {}).log := by
  refine ⟨by decide +kernel, by decide +kernel, ?_⟩
  intro h
  have hafter : ∃ problem, CheckEntry.answered (qs "/home/u/four") problem ∈
      [CheckEntry.answered (qs "/home/u/three") [], CheckEntry.answered (qs "/home/u/two") []] := by
    apply h [.asked (qs "/home/u/one"), .asked (qs "/home/u/two"), .answered (qs "/home/u/one") [],
      .asked (qs "/home/u/three")]
    · decide +kernel
    · simp
  obtain ⟨problem, hmem⟩ := hafter
  rw [List.mem_cons, List.mem_singleton, CheckEntry.answered.injEq, CheckEntry.answered.injEq]
    at hmem
  rcases hmem with ⟨htext, -⟩ | ⟨htext, -⟩
  · exact absurd htext (by decide +kernel)
  · exact absurd htext (by decide +kernel)

end MountPointChecks
end NasMount.Session
