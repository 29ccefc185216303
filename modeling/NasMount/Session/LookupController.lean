import NasMount.Foundation.Reactive
import NasMount.Session.CredentialLookup

/-!
# One lookup, one delivery

The controller of a lookup answers to its transport, its deadline and the window
it serves, in any order. A slot of the controller may be called although the
lookup is over: the call was queued before. Only the generation it was connected
with tells such a call apart, so every delivery reaches its slot here.
-/
namespace NasMount.Session.CredentialLookup

open NasMount.Foundation NasMount.Core QString ShareAddress

/-- A signal of the transport or the deadline. -/
inductive Delivery
  | reply (raw : Bytes)
  | failed (reason : QString)
  | timeout
  deriving DecidableEq

inductive Event
  /-- The deliveries are made from inside `send`. -/
  | start (request : Request) (inside : List Delivery)
  /-- `cancel()`, called from outside. -/
  | cancel
  | deliver (delivery : Delivery)
  deriving DecidableEq

inductive Action
  | sent (message : Bytes)
  | candidateReady (candidate : Candidate)
  | missed (reason : QString)
  deriving DecidableEq

def Action.isSignal : Action → Bool
  | .sent _ => false
  | .candidateReady _ | .missed _ => true

structure Controller where
  generation : UInt64 := 0
  started : Bool := false
  delivered : Bool := false
  running : Bool := false
  request : Request := { target := .none, username := [] }
  /-- The generation the slots were connected with. -/
  captured : Option UInt64 := none

namespace Controller

def cancel (c : Controller) : Controller :=
  { c with generation := c.generation + 1, running := false }

def finishWith (c : Controller) (reason : QString) : Controller × List Action :=
  (c.cancel, [.missed reason])

def replyReceived (qt : Qt) (json : Json) (c : Controller) (raw : Bytes) :
    Controller × List Action :=
  match decodeReply qt json raw with
  | .error e => c.finishWith e
  | .ok reply =>
    match acceptCandidate qt reply c.request.target c.request.username with
    | .error rejection => c.finishWith rejection
    | .ok candidate => ({ c with delivered := true }.cancel, [.candidateReady candidate])

/-- The guard of every slot, and the slot. -/
def receive (qt : Qt) (json : Json) (c : Controller) (delivery : Delivery) :
    Controller × List Action :=
  match c.captured with
  | none => (c, [])
  | some generation =>
    if generation ≠ c.generation || c.delivered then (c, [])
    else
      match delivery with
      | .reply raw => c.replyReceived qt json raw
      | .failed reason => c.finishWith reason
      | .timeout => c.finishWith (qs "the credential lookup took too long")

/-- The controller at the call of `send`. -/
def begin (c : Controller) (request : Request) : Controller :=
  { c with
    started := true, request := request, generation := c.generation + 1
    captured := some (c.generation + 1), running := true }

def start (qt : Qt) (json : Json) (c : Controller) (request : Request) (inside : List Delivery) :
    Controller × List Action :=
  let encoded := encodeRequest qt json request
  if c.started || !request.target.valid || encoded = [] then (c, [])
  else
    let answered := Reactive.run (receive qt json) (c.begin request) inside
    (answered.1, .sent encoded :: answered.2)

def react (qt : Qt) (json : Json) (c : Controller) : Event → Controller × List Action
  | .start request inside => c.start qt json request inside
  | .cancel => (c.cancel, [])
  | .deliver delivery => c.receive qt json delivery

end Controller

section Phases

variable (qt : Qt) (json : Json) {c : Controller}

def Controller.Idle (c : Controller) : Prop :=
  c.started = false ∧ c.delivered = false ∧ c.captured = none

/-- The lookup is running. -/
def Controller.Live (c : Controller) : Prop :=
  c.started = true ∧ c.delivered = false ∧ c.captured = some c.generation

/-- The lookup is over, and its generation was left at most `n` steps ago. -/
def Controller.Over (n : ℕ) (c : Controller) : Prop :=
  c.started = true ∧ ∃ generation k, c.captured = some generation ∧ 1 ≤ k ∧ k ≤ n ∧
    c.generation.toNat = (generation.toNat + k) % 2 ^ 64

theorem Controller.Live.cancel (h : c.Live) : c.cancel.Over 1 :=
  ⟨h.1, c.generation, 1, h.2.2, le_rfl, le_rfl, UInt64.toNat_add _ _⟩

theorem Controller.Over.cancel {n : ℕ} (h : c.Over n) : c.cancel.Over (n + 1) := by
  obtain ⟨hstarted, generation, k, hcaptured, hpos, hle, hgeneration⟩ := h
  refine ⟨hstarted, generation, k + 1, hcaptured, by omega, by omega, ?_⟩
  rw [Controller.cancel, UInt64.toNat_add, hgeneration, Nat.mod_add_mod, Nat.add_assoc]
  rfl

theorem Controller.Over.mono {n m : ℕ} (h : c.Over n) (hle : n ≤ m) : c.Over m := by
  obtain ⟨hstarted, generation, k, hcaptured, hpos, hk, hgeneration⟩ := h
  exact ⟨hstarted, generation, k, hcaptured, hpos, hk.trans hle, hgeneration⟩

/-- The signal is an answer of the delivery to the request: a candidate is what its
reply says, accepted for that request. -/
def Answers (qt : Qt) (json : Json) (request : Request) (delivery : Delivery)
    (action : Action) : Prop :=
  action.isSignal = true ∧ ∀ candidate, action = .candidateReady candidate → ∃ raw reply,
    delivery = .reply raw ∧ decodeReply qt json raw = .ok reply ∧
      acceptCandidate qt reply request.target request.username = .ok candidate

/-- The call of a slot reaches a lookup that is still running. -/
def Controller.Reached (c : Controller) : Prop :=
  c.captured = some c.generation ∧ c.delivered = false

/-- A slot does nothing, or it ends the lookup with one answer of its delivery. -/
theorem Controller.receive_cases (c : Controller) (delivery : Delivery) :
    ¬c.Reached ∧ c.receive qt json delivery = (c, []) ∨
      c.Reached ∧ ∃ signal, (c.receive qt json delivery).2 = [signal] ∧
        Answers qt json c.request delivery signal ∧
        ∃ delivered, (c.receive qt json delivery).1 = { c with delivered := delivered }.cancel := by
  have hmissed : ∀ reason, ∃ signal, (c.finishWith reason).2 = [signal] ∧
      Answers qt json c.request delivery signal ∧
      ∃ delivered, (c.finishWith reason).1 = { c with delivered := delivered }.cancel :=
    fun reason => ⟨_, rfl, ⟨rfl, fun _ heq => Action.noConfusion heq⟩, c.delivered, rfl⟩
  obtain ⟨current, started, delivered, running, request, captured⟩ := c
  unfold Controller.receive Controller.Reached
  cases captured with
  | none => simp
  | some generation =>
    dsimp only
    split_ifs with hguard
    · left
      simpa [imp_iff_not_or] using hguard
    right
    refine ⟨by simpa using hguard, ?_⟩
    cases delivery with
    | failed reason => exact hmissed reason
    | timeout => exact hmissed _
    | reply raw =>
      dsimp only
      unfold Controller.replyReceived
      cases hdecode : decodeReply qt json raw with
      | error e => exact hmissed e
      | ok reply =>
        dsimp only
        cases haccept : acceptCandidate qt reply request.target request.username with
        | error rejection => exact hmissed rejection
        | ok candidate =>
          refine ⟨_, rfl, ⟨rfl, fun candidate' heq => ⟨raw, reply, rfl, hdecode, ?_⟩⟩, true, rfl⟩
          rw [haccept, Action.candidateReady.inj heq]

/-- A slot keeps the request, and that there was one. -/
theorem Controller.receive_answers (c : Controller) (delivery : Delivery) :
    ((c.receive qt json delivery).1.started = c.started ∧
        (c.receive qt json delivery).1.request = c.request) ∧
      ∀ action ∈ (c.receive qt json delivery).2, Answers qt json c.request delivery action := by
  obtain ⟨-, hsilent⟩ | ⟨-, signal, hlog, hanswers, delivered, hnext⟩ :=
    c.receive_cases qt json delivery
  · rw [hsilent]
    exact ⟨⟨rfl, rfl⟩, fun action hmem => absurd hmem List.not_mem_nil⟩
  · rw [hlog, hnext]
    refine ⟨⟨rfl, rfl⟩, fun action hmem => ?_⟩
    rwa [List.mem_singleton.1 hmem]

/-- Whatever the generations are, a controller that was started only answers its own
request, with what was delivered to it. -/
theorem Controller.run_answers (hstarted : c.started = true) (events : List Event) :
    ∀ action ∈ (Reactive.run (Controller.react qt json) c events).2,
      ∃ delivery, .deliver delivery ∈ events ∧ Answers qt json c.request delivery action := by
  have hturn : ∀ (s : Controller) event, (s.started = true ∧ s.request = c.request) →
      ((s.react qt json event).1.started = true ∧ (s.react qt json event).1.request = c.request) ∧
        ∀ action ∈ (s.react qt json event).2, ∃ delivery, event = .deliver delivery ∧
          Answers qt json c.request delivery action := by
    rintro s event ⟨hs, hrequest⟩
    cases event with
    | start request inside =>
      have hstart : s.start qt json request inside = (s, []) := by
        rw [Controller.start, hs]
        rfl
      rw [Controller.react, hstart]
      exact ⟨⟨hs, hrequest⟩, fun action hmem => absurd hmem List.not_mem_nil⟩
    | cancel => exact ⟨⟨hs, hrequest⟩, fun action hmem => absurd hmem List.not_mem_nil⟩
    | deliver delivery =>
      obtain ⟨⟨hstarted', hrequest'⟩, hanswers⟩ := s.receive_answers qt json delivery
      rw [hrequest] at hanswers hrequest'
      exact ⟨⟨hstarted'.trans hs, hrequest'⟩,
        fun action hmem => ⟨delivery, rfl, hanswers action hmem⟩⟩
  intro action haction
  obtain ⟨event, hevent, delivery, rfl, hanswers⟩ :=
    (Reactive.run_causes hturn ⟨hstarted, rfl⟩ events).2 action haction
  exact ⟨delivery, hevent, hanswers⟩

/-- An event leaves an idle controller idle and silent, or starts its lookup. -/
theorem Controller.Idle.react (h : c.Idle) (event : Event) :
    (∃ c', Controller.Idle c' ∧ c.react qt json event = (c', [])) ∨
      ∃ request inside, event = .start request inside ∧
        c.react qt json event =
          ((Reactive.run (Controller.receive qt json) (c.begin request) inside).1,
            .sent (encodeRequest qt json request) ::
              (Reactive.run (Controller.receive qt json) (c.begin request) inside).2) := by
  cases event with
  | cancel => exact Or.inl ⟨c.cancel, h, rfl⟩
  | deliver delivery =>
    refine Or.inl ⟨c, h, ?_⟩
    unfold Controller.react Controller.receive
    rw [h.2.2]
  | start request inside =>
    unfold Controller.react Controller.start
    dsimp only
    split_ifs
    · exact Or.inl ⟨c, h, rfl⟩
    · exact Or.inr ⟨request, inside, rfl, rfl⟩

/-- A whole history is silent, or it splits at the one start that was carried out. -/
theorem Controller.Idle.run_start (h : c.Idle) (events : List Event) :
    ((Reactive.run (Controller.react qt json) c events).2 = [] ∧
        (Reactive.run (Controller.react qt json) c events).1.Idle) ∨
      ∃ before request inside after idle, events = before ++ .start request inside :: after ∧
        Controller.Idle idle ∧
        Reactive.run (Controller.react qt json) c events =
          let sent := Reactive.run (Controller.receive qt json) (idle.begin request) inside
          let rest := Reactive.run (Controller.react qt json) sent.1 after
          (rest.1, .sent (encodeRequest qt json request) :: (sent.2 ++ rest.2)) := by
  induction events generalizing c with
  | nil => exact Or.inl ⟨rfl, h⟩
  | cons event events ih =>
    rw [Reactive.run_cons]
    obtain ⟨c', hidle, hreact⟩ | ⟨request, inside, rfl, hreact⟩ := h.react qt json event
    · rw [hreact]
      refine (ih hidle).imp_right ?_
      rintro ⟨before, request, inside, after, idle, rfl, hstart, hrun⟩
      exact ⟨event :: before, request, inside, after, idle, rfl, hstart, hrun⟩
    · rw [hreact]
      exact Or.inr ⟨[], request, inside, events, c, rfl, h, rfl⟩

/-- A whole history sends at most one request, and then only answers it, with what
was delivered from inside `send` or later. -/
theorem Controller.Idle.run_answers (h : c.Idle) (events : List Event) :
    (Reactive.run (Controller.react qt json) c events).2 = [] ∨
      ∃ request inside answers, .start request inside ∈ events ∧
        (Reactive.run (Controller.react qt json) c events).2 =
          .sent (encodeRequest qt json request) :: answers ∧
        ∀ action ∈ answers, ∃ delivery, (delivery ∈ inside ∨ .deliver delivery ∈ events) ∧
          Answers qt json request delivery action := by
  obtain ⟨hlog, -⟩ | ⟨before, request, inside, after, idle, rfl, -, hrun⟩ :=
    h.run_start qt json events
  · exact Or.inl hlog
  right
  have hturn : ∀ (s : Controller) delivery, (s.started = true ∧ s.request = request) →
      ((s.receive qt json delivery).1.started = true ∧
          (s.receive qt json delivery).1.request = request) ∧
        ∀ action ∈ (s.receive qt json delivery).2, Answers qt json request delivery action := by
    rintro s delivery ⟨hs, rfl⟩
    obtain ⟨⟨hstarted, hrequest⟩, hanswers⟩ := s.receive_answers qt json delivery
    exact ⟨⟨hstarted.trans hs, hrequest⟩, hanswers⟩
  have hbegun : (idle.begin request).started = true ∧ (idle.begin request).request = request :=
    ⟨rfl, rfl⟩
  obtain ⟨⟨hstarted, hrequest⟩, hinside⟩ := Reactive.run_causes hturn hbegun inside
  rw [hrun]
  refine ⟨request, inside, _, List.mem_append_right _ List.mem_cons_self, rfl,
    fun action haction => ?_⟩
  rcases List.mem_append.1 haction with hnow | hafter
  · obtain ⟨delivery, harrived, hanswer⟩ := hinside action hnow
    exact ⟨delivery, Or.inl harrived, hanswer⟩
  · obtain ⟨delivery, harrived, hanswer⟩ :=
      Controller.run_answers qt json hstarted after action hafter
    rw [hrequest] at hanswer
    exact ⟨delivery, Or.inr (List.mem_append_right _ (List.mem_cons_of_mem _ harrived)), hanswer⟩

/-- A slot of a lookup that is over does nothing. -/
theorem Controller.Over.receive {n : ℕ} (h : c.Over n) (hn : n < 2 ^ 64) (delivery : Delivery) :
    c.receive qt json delivery = (c, []) := by
  obtain ⟨-, generation, k, hcaptured, hpos, hle, hgeneration⟩ := h
  obtain ⟨-, hsilent⟩ | ⟨⟨hcurrent, -⟩, -⟩ := c.receive_cases qt json delivery
  · exact hsilent
  · rw [hcaptured, Option.some.injEq] at hcurrent
    rw [← hcurrent] at hgeneration
    have hlt := generation.toNat_lt
    omega

/-- A slot of a running lookup ends it with one signal. -/
theorem Controller.Live.receive (h : c.Live) (delivery : Delivery) :
    (c.receive qt json delivery).2.length = 1 ∧ (c.receive qt json delivery).1.Over 1 := by
  obtain ⟨hstarted, hdelivered, hcaptured⟩ := h
  obtain ⟨hmissed, -⟩ | ⟨-, signal, hlog, -, delivered, hnext⟩ := c.receive_cases qt json delivery
  · exact absurd ⟨hcaptured, hdelivered⟩ hmissed
  · rw [hlog, hnext]
    exact ⟨rfl, hstarted, c.generation, 1, hcaptured, le_rfl, le_rfl, UInt64.toNat_add _ _⟩

theorem Controller.Over.run_receive {n : ℕ} (h : c.Over n) (hn : n < 2 ^ 64)
    (deliveries : List Delivery) :
    Reactive.run (Controller.receive qt json) c deliveries = (c, []) := by
  induction deliveries with
  | nil => rfl
  | cons delivery deliveries ih => rw [Reactive.run_cons, h.receive qt json hn, ih, List.append_nil]

theorem Controller.Live.run_receive (h : c.Live) (deliveries : List Delivery) :
    ((Reactive.run (Controller.receive qt json) c deliveries).1.Over 1 ∧
        (Reactive.run (Controller.receive qt json) c deliveries).2.length = 1) ∨
      Reactive.run (Controller.receive qt json) c deliveries = (c, []) := by
  cases deliveries with
  | nil => exact Or.inr rfl
  | cons delivery deliveries =>
    left
    obtain ⟨hlog, hover⟩ := h.receive qt json delivery
    rw [Reactive.run_cons, hover.run_receive qt json (by norm_num), List.append_nil]
    exact ⟨hover, hlog⟩

/-- The calls of `cancel()` among the events. -/
def cancels (events : List Event) : ℕ := events.count .cancel

theorem Controller.Over.run {n : ℕ} (h : c.Over n) (events : List Event)
    (hn : n + cancels events < 2 ^ 64) :
    (Reactive.run (Controller.react qt json) c events).2 = [] ∧
      (Reactive.run (Controller.react qt json) c events).1.Over (n + cancels events) := by
  induction events generalizing c n with
  | nil => exact ⟨rfl, h⟩
  | cons event events ih =>
    rw [Reactive.run_cons]
    cases event with
    | start request inside =>
      have hstart : c.start qt json request inside = (c, []) := by
        rw [Controller.start, h.1]
        rfl
      have hcount : cancels (.start request inside :: events) = cancels events := by
        simp [cancels]
      rw [Controller.react, hstart, hcount]
      rw [hcount] at hn
      exact ih h hn
    | cancel =>
      have hcount : cancels (.cancel :: events) = cancels events + 1 := List.count_cons_self
      rw [hcount] at hn ⊢
      obtain ⟨hlog, hover⟩ := ih h.cancel (by omega)
      exact ⟨hlog, hover.mono (by omega)⟩
    | deliver delivery =>
      have hcount : cancels (.deliver delivery :: events) = cancels events := by
        simp [cancels]
      rw [hcount] at hn ⊢
      rw [Controller.react, h.receive qt json (by omega)]
      exact ih h hn

/-- A running lookup answers at most once. -/
theorem Controller.Live.run (h : c.Live) (events : List Event) (hn : cancels events + 1 < 2 ^ 64) :
    (Reactive.run (Controller.react qt json) c events).2.length ≤ 1 ∧
      ((Reactive.run (Controller.react qt json) c events).1.Live ∨
        (Reactive.run (Controller.react qt json) c events).1.Over (cancels events + 1)) := by
  induction events with
  | nil => exact ⟨Nat.zero_le 1, Or.inl h⟩
  | cons event events ih =>
    rw [Reactive.run_cons]
    cases event with
    | start request inside =>
      have hstart : c.start qt json request inside = (c, []) := by
        rw [Controller.start, h.1]
        rfl
      have hcount : cancels (.start request inside :: events) = cancels events := by
        simp [cancels]
      rw [hcount] at hn ⊢
      rw [Controller.react, hstart]
      exact ih hn
    | cancel =>
      have hcount : cancels (.cancel :: events) = cancels events + 1 := List.count_cons_self
      rw [hcount] at hn ⊢
      obtain ⟨hlog, hover⟩ := h.cancel.run qt json events (by omega)
      refine ⟨?_, Or.inr (hover.mono (by omega))⟩
      rw [Controller.react, hlog]
      exact Nat.zero_le 1
    | deliver delivery =>
      have hcount : cancels (.deliver delivery :: events) = cancels events := by
        simp [cancels]
      rw [hcount] at hn ⊢
      obtain ⟨hlog, hover⟩ := h.receive qt json delivery
      obtain ⟨hrest, hover⟩ := hover.run qt json events (by omega)
      refine ⟨?_, Or.inr (hover.mono (by omega))⟩
      rw [Controller.react, hrest, List.append_nil, hlog]

/-- A whole history: nothing, or a request and at most one answer to it. -/
theorem Controller.Idle.run (h : c.Idle) (events : List Event) (hn : cancels events + 1 < 2 ^ 64) :
    ((Reactive.run (Controller.react qt json) c events).2 = [] ∧
        (Reactive.run (Controller.react qt json) c events).1.Idle) ∨
      ∃ message answers, (Reactive.run (Controller.react qt json) c events).2 =
          .sent message :: answers ∧ answers.length ≤ 1 ∧
        ((Reactive.run (Controller.react qt json) c events).1.Live ∨
          (Reactive.run (Controller.react qt json) c events).1.Over (cancels events + 1)) := by
  obtain hsilent | ⟨before, request, inside, after, idle, rfl, hidle, hrun⟩ :=
    h.run_start qt json events
  · exact Or.inl hsilent
  right
  have hlive : (idle.begin request).Live := ⟨rfl, hidle.2.1, rfl⟩
  have hcount : cancels after ≤ cancels (before ++ .start request inside :: after) :=
    ((List.sublist_cons_self _ after).trans (List.sublist_append_right before _)).count_le _
  rw [hrun]
  dsimp only
  rcases hlive.run_receive qt json inside with ⟨hover, hlength⟩ | hsilent
  · obtain ⟨hrest, hover⟩ := hover.run qt json after (by omega)
    refine ⟨encodeRequest qt json request, _, ?_, hlength.le, Or.inr (hover.mono (by omega))⟩
    rw [hrest, List.append_nil]
  · rw [hsilent]
    obtain ⟨hlength, hphase⟩ := hlive.run qt json after (by omega)
    exact ⟨_, _, rfl, hlength, hphase.imp_right fun hover => hover.mono (by omega)⟩

/-- One lookup sends one request and offers only what a reply delivered to it says,
accepted for its own request. It answers at most once, and never after an outside
cancellation, until the generations have gone round. -/
theorem lookup_answers_once (qt : Qt) (json : Json) (events : List Event) :
    (Reactive.run (Controller.react qt json) {} events).2.countP (!·.isSignal) ≤ 1 ∧
    (∀ candidate, .candidateReady candidate ∈
      (Reactive.run (Controller.react qt json) {} events).2 →
      ∃ request inside raw reply, .start request inside ∈ events ∧
        .sent (encodeRequest qt json request) ∈
          (Reactive.run (Controller.react qt json) {} events).2 ∧
        (.reply raw ∈ inside ∨ .deliver (.reply raw) ∈ events) ∧
        decodeReply qt json raw = .ok reply ∧
        acceptCandidate qt reply request.target request.username = .ok candidate) ∧
    (cancels events + 1 < 2 ^ 64 →
      (Reactive.run (Controller.react qt json) {} events).2.countP Action.isSignal ≤ 1 ∧
      ∀ before after, events = before ++ .cancel :: after →
        (Reactive.run (Controller.react qt json) {} before).1.started = true →
        (Reactive.run (Controller.react qt json)
          (Reactive.run (Controller.react qt json) {} before).1.cancel after).2 = []) := by
  have hidle : ({} : Controller).Idle := ⟨rfl, rfl, rfl⟩
  refine ⟨?_, fun candidate hmem => ?_,
    fun hcancels => ⟨?_, fun before after hevents hstarted => ?_⟩⟩
  · obtain hlog | ⟨request, inside, answers, -, hlog, hanswers⟩ := hidle.run_answers qt json events
    · simp [hlog]
    · have hnone : answers.countP (!·.isSignal) = 0 := by
        rw [List.countP_eq_zero]
        intro action haction
        obtain ⟨delivery, -, hsignal, -⟩ := hanswers action haction
        rw [hsignal]
        exact Bool.false_ne_true
      rw [hlog, List.countP_cons, hnone]
      split_ifs <;> omega
  · obtain hlog | ⟨request, inside, answers, hstart, hlog, hanswers⟩ :=
      hidle.run_answers qt json events
    · rw [hlog] at hmem
      exact absurd hmem List.not_mem_nil
    · rw [hlog] at hmem ⊢
      rcases List.mem_cons.1 hmem with hsent | hanswer
      · exact Action.noConfusion hsent
      · obtain ⟨delivery, harrived, -, hcandidate⟩ := hanswers _ hanswer
        obtain ⟨raw, reply, rfl, hdecode, haccept⟩ := hcandidate candidate rfl
        exact ⟨request, inside, raw, reply, hstart, List.mem_cons_self, harrived, hdecode, haccept⟩
  · obtain ⟨hlog, -⟩ | ⟨message, answers, hlog, hlength, -⟩ := hidle.run qt json events hcancels
    · simp [hlog]
    · rw [hlog, List.countP_cons_of_neg Bool.false_ne_true]
      exact List.countP_le_length.trans hlength
  · have hcount : cancels events = cancels before + (cancels after + 1) := by
      rw [hevents, cancels, List.count_append, List.count_cons_self]
      rfl
    obtain ⟨-, hidle⟩ | ⟨message, answers, -, -, hlive | hover⟩ :=
      hidle.run qt json before (by omega)
    · exact absurd (hidle.1.symm.trans hstarted) Bool.false_ne_true
    · exact (hlive.cancel.run qt json after (by omega)).1
    · exact (hover.cancel.run qt json after (by omega)).1

/-- Compact JSON of plain texts and numbers; Qt writes the keys in order. -/
def renderPlain (object : JsonObject) : Bytes :=
  let value : JsonValue → QString
    | .string text => '"' :: text ++ ['"']
    | .number (some n) => number n.toNat
    | _ => qs "null"
  let fields := (object.insertionSort fun a b => a.1 ≤ b.1).map fun field =>
    '"' :: field.1 ++ qs "\":" ++ value field.2
  ('\x7b' :: [','].intercalate fields ++ ['\x7d']).map fun c => c.toNat.toUInt8

def sampleReplyObject : JsonObject :=
  [(qs "outcome", .string (qs "candidate")), (qs "password", .string (qs "secret")),
    (qs "protocol", .number (some 1)), (qs "resultUrl", .string (qs "smb://nas/data")),
    (qs "username", .string (qs "ann"))]

/-- A reader that knows one document. -/
def sampleJson : Json where
  fromJson raw :=
    if raw = renderPlain sampleReplyObject then .ok sampleReplyObject
      else .error (qs "illegal value")
  toJson := renderPlain

def sampleRequest : Request := { target := sampleTarget, username := [] }

def sampleAnswer : Delivery := .reply (renderPlain sampleReplyObject)

theorem lookup_answers_once_sample :
    (Reactive.run (Controller.react sampleQt sampleJson) {}
      [.start sampleRequest [sampleAnswer, .timeout], .deliver sampleAnswer]).2.countP
        Action.isSignal ≤ 1 :=
  ((lookup_answers_once sampleQt sampleJson _).2.2 (by decide)).1

theorem Controller.run_cancel (c : Controller) (n : ℕ) :
    ∃ running, Reactive.run (Controller.react qt json) c (List.replicate n .cancel) =
      ({ c with generation := c.generation + UInt64.ofNat n, running := running }, []) := by
  induction n generalizing c with
  | zero => exact ⟨c.running, by simp⟩
  | succ n ih =>
    obtain ⟨running, hrun⟩ := ih c.cancel
    refine ⟨running, ?_⟩
    have hgeneration : c.generation + 1 + UInt64.ofNat n = c.generation + UInt64.ofNat (n + 1) := by
      rw [UInt64.ofNat_add, UInt64.add_comm (UInt64.ofNat n), UInt64.add_assoc]
      rfl
    rw [List.replicate_succ, Reactive.run_cons, Controller.react, hrun, Controller.cancel,
      hgeneration]
    rfl

/-- A controller that was cancelled before its start answers all the same, and one
that is cancelled 2^64 times answers a reply queued before. -/
theorem lookup_answers_after_cancel :
    (Reactive.run (Controller.react sampleQt sampleJson) {}
        [.cancel, .start sampleRequest [], .deliver sampleAnswer]).2 =
      [.sent (encodeRequest sampleQt sampleJson sampleRequest),
        .candidateReady { username := qs "ann", domain := [], password := qs "secret" }] ∧
    (Reactive.run (Controller.react sampleQt sampleJson) {}
        (.start sampleRequest [] ::
          (List.replicate (2 ^ 64) .cancel ++ [.deliver sampleAnswer]))).2 =
      [.sent (encodeRequest sampleQt sampleJson sampleRequest),
        .candidateReady { username := qs "ann", domain := [], password := qs "secret" }] := by
  refine ⟨by decide +kernel, ?_⟩
  have hwrap : UInt64.ofNat (2 ^ 64) = 0 := by decide
  generalize 2 ^ 64 = n at hwrap
  have hstart : Controller.react sampleQt sampleJson {} (.start sampleRequest []) =
      (({} : Controller).begin sampleRequest,
        [.sent (encodeRequest sampleQt sampleJson sampleRequest)]) := by
    rw [Controller.react, Controller.start, if_neg (by decide +kernel)]
    rfl
  obtain ⟨running, hcancels⟩ := Controller.run_cancel sampleQt sampleJson
    (({} : Controller).begin sampleRequest) n
  rw [Reactive.run_cons, hstart, Reactive.run_append, hcancels, hwrap, Reactive.run_cons]
  have hanswer : ∀ running, (Controller.react sampleQt sampleJson
      { ({} : Controller).begin sampleRequest with
        generation := (({} : Controller).begin sampleRequest).generation + 0, running := running }
      (.deliver sampleAnswer)).2 =
        [.candidateReady { username := qs "ann", domain := [], password := qs "secret" }] := by
    decide +kernel
  rw [hanswer]
  rfl

end Phases

end NasMount.Session.CredentialLookup
