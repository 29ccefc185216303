import NasMount.Foundation.Reactive
import NasMount.Session.CredentialLookup

/-!
# The child process of a lookup

The transport owns one child process from `send` until it gives the process away.
The process may report while `send` is still using it, and a slot may end with
giving it away. Every slot signals in its last statement, so that what a slot of
the receiver does next is an event of its own.
-/
namespace NasMount.Session.CredentialLookup

open NasMount.Foundation NasMount.Core QString

/-- A signal of the process with the output that can be read then, or a call of
`abandon()`. The flag says whether the process is running. -/
inductive Signal
  | readyReadStandardOutput (output : Bytes) (running : Bool)
  | errorOccurred (reason : QString) (running : Bool)
  | finished (output : Bytes)
  | abandon (running : Bool)
  deriving DecidableEq

/-- A call on the process. -/
inductive ProcessCall
  | setProcessChannelMode
  | setStandardErrorFile
  | start
  | write (request : Bytes)
  | closeWriteChannel
  | readAllStandardOutput
  | errorString
  deriving DecidableEq

inductive Act
  /-- A call through the pointer to the process, and whether the pointer is set. -/
  | access (set : Bool) (call : ProcessCall)
  | replyReceived (reply : Bytes)
  | failed (reason : QString)
  /-- `abandon()` was called from outside. -/
  | abandonCalled
  /-- The process was given away: it deletes itself, once it has exited. -/
  | terminate
  | deleteLater
  deriving DecidableEq

def Act.isAnswer : Act → Bool
  | .replyReceived _ | .failed _ => true
  | .access _ _ | .abandonCalled | .terminate | .deleteLater => false

structure ProcessTransport where
  /-- The pointer to the process is set. -/
  process : Bool := false
  /-- The signals of the process reach the slots. -/
  connected : Bool := false
  buffer : Bytes := []
  abandoned : Bool := false
  settled : Bool := false
  deriving DecidableEq

namespace ProcessTransport

def abandon (t : ProcessTransport) (running : Bool) : ProcessTransport × List Act :=
  let t := { t with settled := true }
  if t.abandoned || !t.process then (t, [])
  else
    ({ t with abandoned := true, process := false, connected := false },
      [if running then .terminate else .deleteLater])

def readyRead (t : ProcessTransport) (output : Bytes) (running : Bool) :
    ProcessTransport × List Act :=
  if t.settled then (t, [])
  else
    let read := .access t.process .readAllStandardOutput
    let t := { t with buffer := t.buffer ++ output }
    if t.buffer.length > maxMessageBytes then
      let released := { t with settled := true }.abandon running
      (released.1, read :: released.2 ++ [.failed (qs "the lookup produced too much output")])
    else (t, [read])

def errorOccurred (t : ProcessTransport) (reason : QString) (running : Bool) :
    ProcessTransport × List Act :=
  if t.settled then (t, [])
  else
    let released := { t with settled := true }.abandon running
    (released.1, .access t.process .errorString :: released.2 ++ [.failed reason])

def finished (t : ProcessTransport) (output : Bytes) : ProcessTransport × List Act :=
  if t.settled then (t, [])
  else
    let read := .access t.process .readAllStandardOutput
    let t := { t with settled := true, buffer := t.buffer ++ output }
    if t.buffer.length > maxMessageBytes then
      (t, [read, .failed (qs "the lookup produced too much output")])
    else if t.buffer = [] then (t, [read, .failed (qs "the lookup exited without answering")])
    else (t, [read, .replyReceived t.buffer])

/-- A signal reaches its slot while the process is connected. -/
def receive (t : ProcessTransport) : Signal → ProcessTransport × List Act
  | .readyReadStandardOutput output running =>
    if t.connected then t.readyRead output running else (t, [])
  | .errorOccurred reason running => if t.connected then t.errorOccurred reason running else (t, [])
  | .finished output => if t.connected then t.finished output else (t, [])
  | .abandon running => ((t.abandon running).1, .abandonCalled :: (t.abandon running).2)

/-- The signals are delivered from inside the calls on the process. -/
def send (t : ProcessTransport) (request : Bytes)
    (insideStart insideWrite insideClose : List Signal) :
    ProcessTransport × List Act :=
  let t := { t with process := true, connected := true }
  let started := Reactive.run receive t insideStart
  let written := Reactive.run receive started.1 insideWrite
  let closed := Reactive.run receive written.1 insideClose
  (closed.1,
    [.access t.process .setProcessChannelMode, .access t.process .setStandardErrorFile,
      .access t.process .start] ++ started.2 ++
    .access started.1.process (.write request) :: written.2 ++
    .access written.1.process .closeWriteChannel :: closed.2)

end ProcessTransport

/-- A life of the transport: what is delivered before `send`, from inside its calls
and after it. -/
structure Life where
  before : List Signal
  request : Bytes
  insideStart : List Signal
  insideWrite : List Signal
  insideClose : List Signal
  after : List Signal

def Life.log (life : Life) : List Act :=
  let waiting := Reactive.run ProcessTransport.receive {} life.before
  let sent := waiting.1.send life.request life.insideStart life.insideWrite life.insideClose
  waiting.2 ++ sent.2 ++ (Reactive.run ProcessTransport.receive sent.1 life.after).2

/-- The answers in a log. -/
def answers (log : List Act) : ℕ := log.countP Act.isAnswer

/-- Nothing is answered once `abandon()` was called. -/
def SilentAfterAbandon (log : List Act) : Prop :=
  log.Pairwise fun earlier later => earlier = .abandonCalled → later.isAnswer = false

section Turns

variable {t : ProcessTransport} {log : List Act} {running : Bool}

/-- The slots are connected only while the transport has the process. -/
def ProcessTransport.Wired (t : ProcessTransport) : Prop :=
  (t.connected = true → t.process = true) ∧ (t.process = true → t.abandoned = false)

/-- What one signal can do. -/
structure Turn (t : ProcessTransport) (after : ProcessTransport × List Act) : Prop where
  wired : after.1.Wired
  outcome : after.1.settled = t.settled ∧ answers after.2 = 0 ∧ .abandonCalled ∉ after.2 ∨
    after.1.settled = true ∧ answers after.2 = 0 ∧ .abandonCalled ∈ after.2 ∨
    t.settled = false ∧ after.1.settled = true ∧ answers after.2 = 1 ∧ .abandonCalled ∉ after.2
  bounded : ∀ reply, .replyReceived reply ∈ after.2 → reply.length ≤ maxMessageBytes
  safe : ∀ set call, .access set call ∈ after.2 → set = true

theorem ProcessTransport.Wired.same (h : t.Wired) : Turn t (t, []) where
  wired := h
  outcome := Or.inl ⟨rfl, rfl, List.not_mem_nil⟩
  bounded := fun _ hmem => nomatch hmem
  safe := fun _ _ hmem => nomatch hmem

theorem abandon_settled : (t.abandon running).1.settled = true := by
  unfold ProcessTransport.abandon
  dsimp only
  split_ifs <;> rfl

theorem ProcessTransport.Wired.read (h : t.Wired) (buffer : Bytes) (settled : Bool) :
    { t with buffer := buffer, settled := settled }.Wired := h

/-- Giving up logs what becomes of the process, if there is one. -/
theorem mem_abandon {act : Act} (h : act ∈ (t.abandon running).2) :
    act = .terminate ∨ act = .deleteLater := by
  unfold ProcessTransport.abandon at h
  dsimp only at h
  split_ifs at h with hgone hrunning
  · exact nomatch h
  · exact Or.inl (List.mem_singleton.mp h)
  · exact Or.inr (List.mem_singleton.mp h)

theorem ProcessTransport.Wired.abandon (h : t.Wired) : (t.abandon running).1.Wired := by
  unfold ProcessTransport.abandon
  dsimp only
  by_cases hgone : (t.abandoned || !t.process) = true
  · rw [if_pos hgone]
    exact h
  · rw [if_neg hgone]
    exact ⟨nofun, nofun⟩

/-- Giving up takes the process away where it is connected. -/
theorem ProcessTransport.Wired.abandon_process (h : t.Wired) :
    (t.abandon running).1.process = false := by
  unfold ProcessTransport.abandon
  dsimp only
  cases hprocess : t.process with
  | false =>
    rw [Bool.not_false, Bool.or_true, if_pos rfl]
  | true =>
    rw [h.2 hprocess, Bool.not_true, Bool.or_false, if_neg Bool.false_ne_true]

theorem answers_abandon : answers (t.abandon running).2 = 0 := by
  apply List.countP_eq_zero.mpr
  intro act hact
  rcases mem_abandon hact with rfl | rfl
  · exact Bool.false_ne_true
  · exact Bool.false_ne_true

/-- A slot that ends with giving up: one call on the process, then the failure. -/
theorem ProcessTransport.turn_fail (hprocess : t.process = true)
    (hopen : t.settled = false) {t' : ProcessTransport} (h' : t'.Wired) (call : ProcessCall)
    (reason : QString) :
    Turn t ((t'.abandon running).1,
      .access t.process call :: (t'.abandon running).2 ++ [.failed reason]) where
  wired := h'.abandon
  outcome := by
    refine Or.inr (Or.inr ⟨hopen, abandon_settled, ?_, ?_⟩)
    · have hnone : (t'.abandon running).2.countP Act.isAnswer = 0 := answers_abandon
      simp [answers, Act.isAnswer, hnone]
    · simp only [List.cons_append, List.mem_cons, List.mem_append, List.not_mem_nil, or_false,
        reduceCtorEq, false_or]
      intro hmem
      rcases mem_abandon hmem with heq | heq
      · exact nomatch heq
      · exact nomatch heq
  bounded := by
    intro reply hmem
    simp only [List.cons_append, List.mem_cons, List.mem_append, List.not_mem_nil, or_false,
      reduceCtorEq, false_or] at hmem
    rcases mem_abandon hmem with heq | heq
    · exact nomatch heq
    · exact nomatch heq
  safe := by
    intro set other hmem
    simp only [List.cons_append, List.mem_cons, List.mem_append, List.not_mem_nil, or_false,
      reduceCtorEq] at hmem
    rcases hmem with heq | hmem
    · rw [(Act.access.inj heq).1, hprocess]
    · rcases mem_abandon hmem with heq | heq
      · exact nomatch heq
      · exact nomatch heq

theorem ProcessTransport.Wired.readyRead (h : t.Wired) (hprocess : t.process = true)
    (output : Bytes) : Turn t (t.readyRead output running) := by
  unfold ProcessTransport.readyRead
  cases hopen : t.settled with
  | true =>
    rw [if_pos rfl]
    exact h.same
  | false =>
    rw [if_neg Bool.false_ne_true]
    dsimp only
    split_ifs with hlong
    · exact turn_fail hprocess hopen (h.read (t.buffer ++ output) true) _ _
    · constructor
      · exact h
      · exact Or.inl ⟨hopen.symm, rfl, fun hmem => nomatch List.mem_singleton.mp hmem⟩
      · exact fun reply hmem => nomatch List.mem_singleton.mp hmem
      · intro set call hmem
        rw [(Act.access.inj (List.mem_singleton.mp hmem)).1, hprocess]

theorem ProcessTransport.Wired.errorOccurred (h : t.Wired) (hprocess : t.process = true)
    (reason : QString) : Turn t (t.errorOccurred reason running) := by
  unfold ProcessTransport.errorOccurred
  cases hopen : t.settled with
  | true =>
    rw [if_pos rfl]
    exact h.same
  | false =>
    rw [if_neg Bool.false_ne_true]
    exact turn_fail hprocess hopen (h.read t.buffer true) _ _

theorem ProcessTransport.Wired.finished (h : t.Wired) (hprocess : t.process = true)
    (output : Bytes) : Turn t (t.finished output) := by
  have hanswer : ∀ (t' : ProcessTransport) (answer : Act), t'.Wired → t'.settled = true →
      t.settled = false → answer.isAnswer = true →
      (∀ reply, answer = .replyReceived reply → reply.length ≤ maxMessageBytes) →
      Turn t (t', [.access t.process .readAllStandardOutput, answer]) := by
    intro t' answer hwired hsettled hopen hisAnswer hreply
    constructor
    · exact hwired
    · refine Or.inr (Or.inr ⟨hopen, hsettled, ?_, ?_⟩)
      · rw [answers, List.countP_cons_of_neg Bool.false_ne_true, List.countP_singleton,
          if_pos hisAnswer]
      · simp only [List.mem_cons, List.not_mem_nil, or_false, reduceCtorEq, false_or]
        intro heq
        rw [← heq] at hisAnswer
        exact nomatch hisAnswer
    · intro reply hmem
      simp only [List.mem_cons, List.not_mem_nil, or_false, reduceCtorEq, false_or] at hmem
      exact hreply reply hmem.symm
    · intro set call hmem
      simp only [List.mem_cons, List.not_mem_nil, or_false] at hmem
      rcases hmem with heq | heq
      · rw [(Act.access.inj heq).1, hprocess]
      · rw [← heq] at hisAnswer
        exact nomatch hisAnswer
  unfold ProcessTransport.finished
  cases hopen : t.settled with
  | true =>
    rw [if_pos rfl]
    exact h.same
  | false =>
    rw [if_neg Bool.false_ne_true]
    dsimp only
    split_ifs with hlong hempty
    · exact hanswer _ _ (h.read (t.buffer ++ output) true) rfl hopen rfl nofun
    · exact hanswer _ _ (h.read (t.buffer ++ output) true) rfl hopen rfl nofun
    · apply hanswer _ _ (h.read (t.buffer ++ output) true) rfl hopen rfl
      intro reply heq
      rw [← Act.replyReceived.inj heq]
      exact Nat.le_of_not_lt hlong

theorem ProcessTransport.Wired.receive (h : t.Wired) (signal : Signal) :
    Turn t (t.receive signal) := by
  unfold ProcessTransport.receive
  cases signal with
  | readyReadStandardOutput output running =>
    dsimp only
    split_ifs with hconnected
    · exact h.readyRead (h.1 hconnected) output
    · exact h.same
  | errorOccurred reason running =>
    dsimp only
    split_ifs with hconnected
    · exact h.errorOccurred (h.1 hconnected) reason
    · exact h.same
  | finished output =>
    dsimp only
    split_ifs with hconnected
    · exact h.finished (h.1 hconnected) output
    · exact h.same
  | abandon running =>
    dsimp only
    constructor
    · exact h.abandon
    · refine Or.inr (Or.inl ⟨abandon_settled, ?_, List.mem_cons_self⟩)
      rw [answers, List.countP_cons_of_neg Bool.false_ne_true]
      exact answers_abandon
    · intro reply hmem
      rcases List.mem_cons.mp hmem with heq | hmem
      · exact nomatch heq
      · rcases mem_abandon hmem with heq | heq
        · exact nomatch heq
        · exact nomatch heq
    · intro set call hmem
      rcases List.mem_cons.mp hmem with heq | hmem
      · exact nomatch heq
      · rcases mem_abandon hmem with heq | heq
        · exact nomatch heq
        · exact nomatch heq

theorem SilentAfterAbandon.append (h : SilentAfterAbandon log) {acts : List Act}
    (hacts : answers acts = 0 ∨ .abandonCalled ∉ log ∧ .abandonCalled ∉ acts) :
    SilentAfterAbandon (log ++ acts) := by
  apply List.pairwise_append.mpr
  rcases hacts with hnone | ⟨hlog, hacts⟩
  · have hquiet : ∀ act ∈ acts, act.isAnswer = false := by
      intro act hact
      exact Bool.eq_false_iff.mpr (List.countP_eq_zero.mp hnone act hact)
    refine ⟨h, ?_, fun _ _ act hact _ => hquiet act hact⟩
    exact List.pairwise_of_forall_mem_list fun _ _ act hact _ => hquiet act hact
  · refine ⟨h, ?_, fun earlier hearlier _ _ heq => absurd (heq ▸ hearlier) hlog⟩
    exact List.pairwise_of_forall_mem_list fun earlier hearlier _ _ heq =>
      absurd (heq ▸ hearlier) hacts

/-- What is known after any sequence of signals. -/
structure Settles (t : ProcessTransport) (log : List Act) : Prop where
  wired : t.Wired
  waiting : t.settled = false → answers log = 0 ∧ .abandonCalled ∉ log
  answered : t.settled = true → answers log = 1 ∨ .abandonCalled ∈ log
  once : answers log ≤ 1
  silent : SilentAfterAbandon log
  bounded : ∀ reply, .replyReceived reply ∈ log → reply.length ≤ maxMessageBytes

theorem Turn.stays {after : ProcessTransport × List Act} (h : Turn t after)
    (hsettled : t.settled = true) : after.1.settled = true := by
  rcases h.outcome with ⟨hsame, -⟩ | ⟨hafter, -⟩ | ⟨-, hafter, -⟩
  · exact hsame.trans hsettled
  · exact hafter
  · exact hafter

theorem answers_append (log acts : List Act) : answers (log ++ acts) = answers log + answers acts :=
  List.countP_append

theorem Settles.turn (h : Settles t log) {after : ProcessTransport × List Act}
    (hturn : Turn t after) : Settles after.1 (log ++ after.2) where
  wired := hturn.wired
  waiting := by
    intro hopen
    rw [answers_append, List.mem_append, not_or]
    rcases hturn.outcome with ⟨hsame, hnone, hnot⟩ | ⟨hsettled, -⟩ | ⟨-, hsettled, -⟩
    · obtain ⟨hbefore, hcalled⟩ := h.waiting (hsame ▸ hopen)
      exact ⟨by omega, hcalled, hnot⟩
    · exact nomatch hsettled.symm.trans hopen
    · exact nomatch hsettled.symm.trans hopen
  answered := by
    intro hsettled
    rw [answers_append, List.mem_append]
    rcases hturn.outcome with ⟨hsame, hnone, -⟩ | ⟨-, -, hcalled⟩ | ⟨hopen, -, hone, -⟩
    · rcases h.answered (hsame ▸ hsettled) with hbefore | hcalled
      · exact Or.inl (by omega)
      · exact Or.inr (Or.inl hcalled)
    · exact Or.inr (Or.inr hcalled)
    · have hbefore := (h.waiting hopen).1
      exact Or.inl (by omega)
  once := by
    rw [answers_append]
    rcases hturn.outcome with ⟨-, hnone, -⟩ | ⟨-, hnone, -⟩ | ⟨hopen, -, hone, -⟩
    · have honce := h.once
      omega
    · have honce := h.once
      omega
    · have hbefore := (h.waiting hopen).1
      omega
  silent := by
    apply h.silent.append
    rcases hturn.outcome with ⟨-, hnone, -⟩ | ⟨-, hnone, -⟩ | ⟨hopen, -, -, hnot⟩
    · exact Or.inl hnone
    · exact Or.inl hnone
    · exact Or.inr ⟨(h.waiting hopen).2, hnot⟩
  bounded := by
    intro reply hmem
    rcases List.mem_append.mp hmem with hmem | hmem
    · exact h.bounded reply hmem
    · exact hturn.bounded reply hmem

theorem Settles.run (h : Settles t log) (signals : List Signal) :
    Settles (Reactive.run ProcessTransport.receive t signals).1
      (log ++ (Reactive.run ProcessTransport.receive t signals).2) :=
  Reactive.run_keeps (I := Settles)
    (fun _ _ signal hsettles => hsettles.turn (hsettles.wired.receive signal)) h signals

/-- Calls on the process answer nothing. -/
theorem Settles.access (h : Settles t log) (set : Bool) (call : ProcessCall) :
    Settles t (log ++ [.access set call]) where
  wired := h.wired
  waiting := by
    intro hopen
    obtain ⟨hnone, hcalled⟩ := h.waiting hopen
    rw [answers_append, hnone, List.mem_append, not_or]
    exact ⟨rfl, hcalled, fun hmem => nomatch List.mem_singleton.mp hmem⟩
  answered := by
    intro hsettled
    rw [answers_append, List.mem_append]
    exact (h.answered hsettled).imp_right Or.inl
  once := by
    rw [answers_append]
    exact h.once
  silent := h.silent.append (Or.inl rfl)
  bounded := by
    intro reply hmem
    rcases List.mem_append.mp hmem with hmem | hmem
    · exact h.bounded reply hmem
    · exact nomatch List.mem_singleton.mp hmem

end Turns

section Process

variable {t : ProcessTransport}

def Signal.isAbandon : Signal → Bool
  | .abandon _ => true
  | _ => false

def Signal.isError : Signal → Bool
  | .errorOccurred _ _ => true
  | _ => false

def Signal.isFinished : Signal → Bool
  | .finished _ => true
  | _ => false

def Signal.output : Signal → Bytes
  | .readyReadStandardOutput output _ => output
  | _ => []

/-- The signals leave the process with a transport that has read so much: nobody
gives up, and unless it has settled, no error and not too much output comes before
the process finishes. -/
def Undisturbed (settled : Bool) (read : ℕ) (signals : List Signal) : Prop :=
  (∀ signal ∈ signals, signal.isAbandon = false) ∧
    (settled = true ∨
      (∀ signal ∈ signals.takeWhile (!·.isFinished), signal.isError = false) ∧
        read + ((signals.takeWhile (!·.isFinished)).flatMap Signal.output).length ≤ maxMessageBytes)

theorem undisturbed_finished {read : ℕ} (hread : read ≤ maxMessageBytes) (output : Bytes)
    (signals : List Signal) : Undisturbed false read (.finished output :: signals) ↔
      ∀ signal ∈ signals, signal.isAbandon = false := by
  simp [Undisturbed, Signal.isAbandon, Signal.isFinished, hread]

theorem undisturbed_readyRead (read : ℕ) (output : Bytes) (running : Bool)
    (signals : List Signal) :
    Undisturbed false read (.readyReadStandardOutput output running :: signals) ↔
      Undisturbed false (read + output.length) signals := by
  simp [Undisturbed, Signal.isAbandon, Signal.isFinished, Signal.isError, Signal.output,
    Nat.add_assoc]

theorem Undisturbed.le {read : ℕ} {signals : List Signal} (h : Undisturbed false read signals) :
    read ≤ maxMessageBytes := by
  obtain ⟨-, h | ⟨-, h⟩⟩ := h
  · exact nomatch h
  · omega

/-- Without a process only giving up has an effect. -/
theorem receive_before (hprocess : t.process = false) (hconnected : t.connected = false)
    (signal : Signal) :
    (t.receive signal).1 = { t with settled := t.settled || signal.isAbandon } := by
  have hignored : ∀ after : ProcessTransport × List Act,
      (if t.connected = true then after else (t, [])).1 =
        { t with settled := t.settled || false } := by
    intro after
    rw [if_neg (by simp [hconnected]), Bool.or_false]
  cases signal with
  | abandon running =>
    rw [Signal.isAbandon, Bool.or_true, ProcessTransport.receive, ProcessTransport.abandon]
    dsimp only
    rw [hprocess, Bool.not_false, Bool.or_true, if_pos rfl]
  | readyReadStandardOutput output running => exact hignored _
  | errorOccurred reason running => exact hignored _
  | finished output => exact hignored _

theorem run_before (hprocess : t.process = false) (hconnected : t.connected = false)
    (signals : List Signal) :
    (Reactive.run ProcessTransport.receive t signals).1 =
      { t with settled := t.settled || signals.any Signal.isAbandon } := by
  induction signals generalizing t with
  | nil => simp
  | cons signal signals ih =>
    have hrest := @ih { t with settled := t.settled || signal.isAbandon } hprocess hconnected
    rw [Reactive.run_cons, receive_before hprocess hconnected]
    dsimp only
    rw [hrest, List.any_cons, Bool.or_assoc]

/-- A process that was given away does not come back. -/
theorem run_gone (hwired : t.Wired) (hprocess : t.process = false) (signals : List Signal) :
    (Reactive.run ProcessTransport.receive t signals).1.process = false := by
  have hconnected : t.connected = false := by
    rw [← Bool.not_eq_true]
    exact fun h => nomatch hprocess.symm.trans (hwired.1 h)
  rw [run_before hprocess hconnected]
  exact hprocess

theorem run_abandon (hwired : t.Wired) (running : Bool) (signals : List Signal) :
    (Reactive.run ProcessTransport.receive t (.abandon running :: signals)).1.process = false := by
  rw [Reactive.run_cons]
  exact run_gone hwired.abandon hwired.abandon_process signals

/-- Once the transport has settled, only giving up takes the process away. -/
theorem run_settled (hwired : t.Wired) (hprocess : t.process = true) (hsettled : t.settled = true)
    (signals : List Signal) :
    (Reactive.run ProcessTransport.receive t signals).1.process = true ↔
      ∀ signal ∈ signals, signal.isAbandon = false := by
  induction signals with
  | nil => simp [hprocess]
  | cons signal signals ih =>
    have hignored : (t.receive signal).1 = t → signal.isAbandon = false →
        ((Reactive.run ProcessTransport.receive t (signal :: signals)).1.process = true ↔
          ∀ other ∈ signal :: signals, other.isAbandon = false) := by
      intro hsame hkind
      rw [Reactive.run_cons, hsame, List.forall_mem_cons]
      dsimp only
      rw [ih]
      exact ⟨fun h => ⟨hkind, h⟩, And.right⟩
    cases signal with
    | abandon running =>
      rw [run_abandon hwired, List.forall_mem_cons]
      exact ⟨nofun, fun h => nomatch h.1⟩
    | readyReadStandardOutput output running =>
      apply hignored _ rfl
      simp [ProcessTransport.receive, ProcessTransport.readyRead, hsettled]
    | errorOccurred reason running =>
      apply hignored _ rfl
      simp [ProcessTransport.receive, ProcessTransport.errorOccurred, hsettled]
    | finished output =>
      apply hignored _ rfl
      simp [ProcessTransport.receive, ProcessTransport.finished, hsettled]

/-- While the slots are connected, the process stays exactly if nothing disturbs
it. -/
theorem run_connected (hwired : t.Wired) (hconnected : t.connected = true)
    (hread : t.settled = false → t.buffer.length ≤ maxMessageBytes) (signals : List Signal) :
    (Reactive.run ProcessTransport.receive t signals).1.process = true ↔
      Undisturbed t.settled t.buffer.length signals := by
  have hprocess : t.process = true := hwired.1 hconnected
  cases hopen : t.settled with
  | true =>
    rw [run_settled hwired hprocess hopen, Undisturbed]
    simp
  | false =>
    specialize hread hopen
    induction signals generalizing t with
    | nil => simp [Undisturbed, hprocess, hread]
    | cons signal signals ih =>
      have hreleased : ∀ after : ProcessTransport × List Act, t.receive signal = after →
          after.1.process = false → ¬ Undisturbed false t.buffer.length (signal :: signals) →
          ((Reactive.run ProcessTransport.receive t (signal :: signals)).1.process = true ↔
            Undisturbed false t.buffer.length (signal :: signals)) := by
        intro after hafter hgone hdisturbed
        have hrun := run_gone (hafter ▸ (hwired.receive signal).wired) hgone signals
        rw [Reactive.run_cons, hafter]
        dsimp only
        rw [hrun]
        exact ⟨nofun, fun h => absurd h hdisturbed⟩
      cases signal with
      | abandon running =>
        apply hreleased _ rfl hwired.abandon_process
        exact fun h => nomatch h.1 _ List.mem_cons_self
      | errorOccurred reason running =>
        have hslot : t.receive (.errorOccurred reason running) = t.errorOccurred reason running :=
          if_pos hconnected
        apply hreleased _ hslot
        · rw [ProcessTransport.errorOccurred, hopen, if_neg Bool.false_ne_true]
          exact (hwired.read t.buffer true).abandon_process
        · rintro ⟨-, h | h⟩
          · exact nomatch h
          · exact nomatch h.1 _ List.mem_cons_self
      | finished output =>
        have hslot : t.receive (.finished output) = t.finished output := if_pos hconnected
        have hsettles : (t.finished output).1.settled = true ∧
            (t.finished output).1.process = true := by
          rw [ProcessTransport.finished, hopen, if_neg Bool.false_ne_true]
          dsimp only
          split_ifs
          · exact ⟨rfl, hprocess⟩
          · exact ⟨rfl, hprocess⟩
          · exact ⟨rfl, hprocess⟩
        rw [Reactive.run_cons, hslot]
        dsimp only
        rw [run_settled (hslot ▸ (hwired.receive _).wired) hsettles.2 hsettles.1,
          undisturbed_finished hread]
      | readyReadStandardOutput output running =>
        have hslot : t.receive (.readyReadStandardOutput output running) =
            t.readyRead output running := if_pos hconnected
        by_cases hlong : (t.buffer ++ output).length > maxMessageBytes
        · apply hreleased _ hslot
          · rw [ProcessTransport.readyRead, hopen, if_neg Bool.false_ne_true]
            dsimp only
            rw [if_pos hlong]
            exact (hwired.read (t.buffer ++ output) true).abandon_process
          · rw [undisturbed_readyRead, ← List.length_append]
            exact fun h => absurd h.le (Nat.not_le.mpr hlong)
        · have hkept : (t.readyRead output running).1 =
              { t with buffer := t.buffer ++ output } := by
            rw [ProcessTransport.readyRead, hopen, if_neg Bool.false_ne_true]
            dsimp only
            rw [if_neg hlong]
          have hrest :=
            @ih { t with buffer := t.buffer ++ output } hwired hconnected (Nat.le_of_not_lt hlong)
            hprocess hopen
          rw [Reactive.run_cons, hslot, hkept, undisturbed_readyRead, ← List.length_append]
          exact hrest

end Process

section Lives

variable {t : ProcessTransport} {log : List Act}

/-- The slots call the process while the pointer is set. -/
theorem run_safe (hwired : t.Wired) (signals : List Signal) {set : Bool} {call : ProcessCall}
    (h : .access set call ∈ (Reactive.run ProcessTransport.receive t signals).2) : set = true := by
  induction signals generalizing t with
  | nil => exact nomatch h
  | cons signal signals ih =>
    rw [Reactive.run_cons, List.mem_append] at h
    have hturn := hwired.receive signal
    rcases h with h | h
    · exact hturn.safe set call h
    · exact ih hturn.wired h

theorem abandonCalled_notMem_abandon {running : Bool} :
    .abandonCalled ∉ (t.abandon running).2 := by
  intro hmem
  rcases mem_abandon hmem with heq | heq
  · exact nomatch heq
  · exact nomatch heq

/-- Only a call from outside is logged as one. -/
theorem receive_abandonCalled {signal : Signal} (h : .abandonCalled ∈ (t.receive signal).2) :
    signal.isAbandon = true := by
  cases signal with
  | abandon running => rfl
  | readyReadStandardOutput output running =>
    simp only [ProcessTransport.receive, ProcessTransport.readyRead] at h
    split_ifs at h
    · exact nomatch h
    · simp [abandonCalled_notMem_abandon] at h
    · exact nomatch List.mem_singleton.mp h
    · exact nomatch h
  | errorOccurred reason running =>
    simp only [ProcessTransport.receive, ProcessTransport.errorOccurred] at h
    split_ifs at h
    · exact nomatch h
    · simp [abandonCalled_notMem_abandon] at h
    · exact nomatch h
  | finished output =>
    simp only [ProcessTransport.receive, ProcessTransport.finished] at h
    split_ifs at h
    · exact nomatch h
    · simp at h
    · simp at h
    · simp at h
    · exact nomatch h

theorem run_abandonCalled {signals : List Signal}
    (hnever : ∀ signal ∈ signals, signal.isAbandon = false) :
    .abandonCalled ∉ (Reactive.run ProcessTransport.receive t signals).2 := by
  induction signals generalizing t with
  | nil => exact List.not_mem_nil
  | cons signal signals ih =>
    obtain ⟨hsignal, hrest⟩ := List.forall_mem_cons.mp hnever
    rw [Reactive.run_cons, List.mem_append, not_or]
    constructor
    · exact fun hmem => nomatch hsignal.symm.trans (receive_abandonCalled hmem)
    · exact ih hrest

/-- A transport that has not settled hears from its process, and the end of the
process settles it. -/
theorem receive_live (hwired : t.Wired) (hlive : t.settled = true ∨ t.connected = true)
    (signal : Signal) :
    ((t.receive signal).1.settled = true ∨ (t.receive signal).1.connected = true) ∧
      (signal.isError = true ∨ signal.isFinished = true → (t.receive signal).1.settled = true) := by
  cases hopen : t.settled with
  | true =>
    have hstays := (hwired.receive signal).stays hopen
    exact ⟨Or.inl hstays, fun _ => hstays⟩
  | false =>
    have hconnected := hlive.resolve_left (by simp [hopen])
    cases signal with
    | abandon running => exact ⟨Or.inl abandon_settled, fun _ => abandon_settled⟩
    | errorOccurred reason running =>
      simp only [ProcessTransport.receive, ProcessTransport.errorOccurred, hopen, hconnected,
        if_true, Bool.false_eq_true, if_false, abandon_settled]
      simp
    | finished output =>
      simp only [ProcessTransport.receive, ProcessTransport.finished, hopen, hconnected, if_true,
        Bool.false_eq_true, if_false]
      split_ifs
      · exact ⟨Or.inl rfl, fun _ => rfl⟩
      · exact ⟨Or.inl rfl, fun _ => rfl⟩
      · exact ⟨Or.inl rfl, fun _ => rfl⟩
    | readyReadStandardOutput output running =>
      simp only [ProcessTransport.receive, ProcessTransport.readyRead, hopen, hconnected, if_true,
        Bool.false_eq_true, if_false]
      split_ifs
      · exact ⟨Or.inl abandon_settled, fun _ => abandon_settled⟩
      · exact ⟨Or.inr rfl, by simp [Signal.isError, Signal.isFinished]⟩

theorem run_stays (hwired : t.Wired) (hsettled : t.settled = true) (signals : List Signal) :
    (Reactive.run ProcessTransport.receive t signals).1.settled = true := by
  induction signals generalizing t with
  | nil => exact hsettled
  | cons signal signals ih =>
    have hturn := hwired.receive signal
    exact ih hturn.wired (hturn.stays hsettled)

theorem run_live (hwired : t.Wired) (hlive : t.settled = true ∨ t.connected = true)
    (signals : List Signal) :
    ((Reactive.run ProcessTransport.receive t signals).1.settled = true ∨
        (Reactive.run ProcessTransport.receive t signals).1.connected = true) ∧
      ((∃ signal ∈ signals, signal.isError = true ∨ signal.isFinished = true) →
        (Reactive.run ProcessTransport.receive t signals).1.settled = true) := by
  induction signals generalizing t with
  | nil => exact ⟨hlive, by simp⟩
  | cons signal signals ih =>
    have hturn := hwired.receive signal
    obtain ⟨hafter, hends⟩ := receive_live hwired hlive signal
    obtain ⟨hrest, hlater⟩ := ih hturn.wired hafter
    refine ⟨hrest, ?_⟩
    rintro ⟨other, hother, hend⟩
    rcases List.mem_cons.mp hother with rfl | hother
    · exact run_stays hturn.wired (hends hend) signals
    · exact hlater ⟨other, hother, hend⟩

end Lives

section Contract

variable (life : Life)

/-- The transport when `send` is called. -/
def Life.waiting : ProcessTransport := (Reactive.run ProcessTransport.receive {} life.before).1

/-- The signals of the process. -/
def Life.reported : List Signal :=
  life.insideStart ++ life.insideWrite ++ life.insideClose ++ life.after

/-- Nothing takes the process away before the request is written and the channel
closed. -/
def Life.Undisturbed : Prop :=
  CredentialLookup.Undisturbed (life.before.any Signal.isAbandon) 0
    (life.insideStart ++ life.insideWrite)

/-- What the transport promises. -/
structure Life.Contract : Prop where
  once : answers life.log ≤ 1
  silent : SilentAfterAbandon life.log
  answered : (∀ signal ∈ life.before ++ life.reported, signal.isAbandon = false) →
    (∃ signal ∈ life.reported, signal.isError = true ∨ signal.isFinished = true) →
    answers life.log = 1
  bounded : ∀ reply, .replyReceived reply ∈ life.log → reply.length ≤ maxMessageBytes
  safe : ∀ set call, .access set call ∈ life.log → set = true

theorem Life.waiting_eq : life.waiting = { settled := life.before.any Signal.isAbandon } :=
  run_before rfl rfl life.before

/-- The transport at the calls of `start`, `write` and `closeWriteChannel`, and when
`send` returns. -/
def Life.starting : ProcessTransport := { life.waiting with process := true, connected := true }

def Life.started : ProcessTransport :=
  (Reactive.run ProcessTransport.receive life.starting life.insideStart).1

def Life.written : ProcessTransport :=
  (Reactive.run ProcessTransport.receive life.started life.insideWrite).1

def Life.sent : ProcessTransport :=
  (Reactive.run ProcessTransport.receive life.written life.insideClose).1

theorem Life.log_eq : life.log =
    (Reactive.run ProcessTransport.receive {} life.before).2 ++
      [.access true .setProcessChannelMode] ++ [.access true .setStandardErrorFile] ++
      [.access true .start] ++
      (Reactive.run ProcessTransport.receive life.starting life.insideStart).2 ++
      [.access life.started.process (.write life.request)] ++
      (Reactive.run ProcessTransport.receive life.started life.insideWrite).2 ++
      [.access life.written.process .closeWriteChannel] ++
      (Reactive.run ProcessTransport.receive life.written life.insideClose).2 ++
      (Reactive.run ProcessTransport.receive life.sent life.after).2 := by
  simp only [Life.log, ProcessTransport.send, Life.sent, Life.written, Life.started, Life.starting,
    Life.waiting, List.append_assoc, List.cons_append, List.nil_append]

theorem Life.starting_wired : life.starting.Wired := by
  rw [Life.starting, Life.waiting_eq]
  exact ⟨fun _ => rfl, fun _ => rfl⟩

theorem run_wired {t : ProcessTransport} (hwired : t.Wired) (signals : List Signal) :
    (Reactive.run ProcessTransport.receive t signals).1.Wired := by
  induction signals generalizing t with
  | nil => exact hwired
  | cons signal signals ih => exact ih (hwired.receive signal).wired

/-- The process is there when the channel is closed exactly if the life is
undisturbed. -/
theorem Life.written_process : life.written.process = true ↔ life.Undisturbed := by
  have hrun : life.written =
      (Reactive.run ProcessTransport.receive life.starting
        (life.insideStart ++ life.insideWrite)).1 := by
    rw [Reactive.run_append]
    rfl
  rw [hrun, run_connected life.starting_wired rfl]
  · rw [Life.starting, Life.waiting_eq]
    rfl
  · rw [Life.starting, Life.waiting_eq]
    exact fun _ => Nat.zero_le _

/-- The end state and the whole log. -/
theorem Life.settles :
    Settles (Reactive.run ProcessTransport.receive life.sent life.after).1 life.log := by
  have hnew : Settles {} [] :=
    { wired := ⟨nofun, nofun⟩
      waiting := fun _ => ⟨rfl, List.not_mem_nil⟩
      answered := nofun
      once := Nat.zero_le _
      silent := List.Pairwise.nil
      bounded := fun _ hmem => nomatch hmem }
  have hwaiting := hnew.run life.before
  rw [List.nil_append] at hwaiting
  have hstarting : Settles life.starting (Reactive.run ProcessTransport.receive {} life.before).2 :=
    { hwaiting with wired := life.starting_wired }
  have hstarted := (((hstarting.access true .setProcessChannelMode).access true
    .setStandardErrorFile).access true .start).run life.insideStart
  have hwritten := (hstarted.access life.started.process (.write life.request)).run life.insideWrite
  have hsent := (hwritten.access life.written.process .closeWriteChannel).run life.insideClose
  rw [life.log_eq]
  exact hsent.run life.after

/-- A log without a call from outside. -/
theorem Life.abandonCalled_notMem
    (hnever : ∀ signal ∈ life.before ++ life.reported, signal.isAbandon = false) :
    .abandonCalled ∉ life.log := by
  have hquiet : ∀ (t : ProcessTransport) (signals : List Signal),
      (∀ signal ∈ signals, signal ∈ life.before ++ life.reported) →
      .abandonCalled ∉ (Reactive.run ProcessTransport.receive t signals).2 :=
    fun t signals hsub => run_abandonCalled fun signal hsignal =>
      hnever signal (hsub signal hsignal)
  rw [life.log_eq]
  simp only [List.mem_append, List.mem_singleton, reduceCtorEq, or_false, not_or]
  unfold Life.reported at hquiet
  refine ⟨⟨⟨⟨?_, ?_⟩, ?_⟩, ?_⟩, ?_⟩
  · exact hquiet _ _ fun signal hsignal => by simp [hsignal]
  · exact hquiet _ _ fun signal hsignal => by simp [hsignal]
  · exact hquiet _ _ fun signal hsignal => by simp [hsignal]
  · exact hquiet _ _ fun signal hsignal => by simp [hsignal]
  · exact hquiet _ _ fun signal hsignal => by simp [hsignal]

/-- Unless somebody gives up, the end of the process is answered. -/
theorem Life.answers_eq_one
    (hnever : ∀ signal ∈ life.before ++ life.reported, signal.isAbandon = false)
    (hends : ∃ signal ∈ life.reported, signal.isError = true ∨ signal.isFinished = true) :
    answers life.log = 1 := by
  have hfinal : (Reactive.run ProcessTransport.receive life.sent life.after).1 =
      (Reactive.run ProcessTransport.receive life.starting life.reported).1 := by
    rw [Life.reported, Reactive.run_append, Reactive.run_append, Reactive.run_append]
    rfl
  have hsettled := (run_live life.starting_wired (Or.inr rfl) life.reported).2 hends
  rw [← hfinal] at hsettled
  exact (life.settles.answered hsettled).resolve_right (life.abandonCalled_notMem hnever)

/-- The calls of `send` are made while the pointer is set exactly if the last one
is. -/
theorem Life.safe_iff :
    (∀ set call, .access set call ∈ life.log → set = true) ↔ life.written.process = true := by
  constructor
  · intro hsafe
    apply hsafe _ .closeWriteChannel
    rw [life.log_eq]
    simp
  · intro hwritten
    have hstarted : life.started.process = true := by
      rw [← Bool.not_eq_false]
      intro hgone
      exact nomatch (run_gone (run_wired life.starting_wired _) hgone _).symm.trans hwritten
    intro set call hmem
    rw [life.log_eq, hwritten, hstarted] at hmem
    simp only [List.mem_append, List.mem_singleton, Act.access.injEq] at hmem
    have hwaiting : ProcessTransport.Wired {} := ⟨nofun, nofun⟩
    have hwired : life.started.Wired := run_wired life.starting_wired _
    rcases hmem with
      ((((((((hmem | hcall) | hcall) | hcall) | hmem) | hcall) | hmem) | hcall) | hmem) | hmem
    · exact run_safe hwaiting _ hmem
    · exact hcall.1
    · exact hcall.1
    · exact hcall.1
    · exact run_safe life.starting_wired _ hmem
    · exact hcall.1
    · exact run_safe hwired _ hmem
    · exact hcall.1
    · exact run_safe (run_wired hwired _) _ hmem
    · exact run_safe (run_wired (run_wired hwired _) _) _ hmem

/-- The transport keeps its promise exactly in the lives that nothing disturbs while
`send` is using the process. -/
theorem processTransport_contract : life.Contract ↔ life.Undisturbed := by
  rw [← life.written_process, ← life.safe_iff]
  constructor
  · exact Life.Contract.safe
  · intro hsafe
    constructor
    · exact life.settles.once
    · exact life.settles.silent
    · exact life.answers_eq_one
    · exact life.settles.bounded
    · exact hsafe

/-- A program that cannot be started: the error is reported from inside `start`. -/
def unstartable : Life where
  before := []
  request := [123, 125]
  insideStart := [.errorOccurred (qs "Process failed to start") false]
  insideWrite := []
  insideClose := []
  after := []

/-- The request is then written through a pointer that is not set. -/
theorem unstartable_writes :
    .access false (.write [123, 125]) ∈ unstartable.log ∧ ¬ unstartable.Contract := by
  have hwrites : .access false (.write [123, 125]) ∈ unstartable.log := by decide
  exact ⟨hwrites, fun hcontract => nomatch hcontract.safe _ _ hwrites⟩

end Contract

end NasMount.Session.CredentialLookup
