import Mathlib.Tactic

/-!
# Programs that can fail or be killed at every primitive

A program is a finite sequence of primitives. Each primitive has a site, the
program point that issues it, and a schedule decides what happens there: it
succeeds, it reports a failure (possibly after its effect took place), or the
process is killed just before it. A kill keeps the state reached so far, so a
statement about every schedule covers every crash point.

Weakest preconditions have three postconditions: for a normal return, for a
reported failure, and for a kill.
-/
namespace NasMount.Foundation

universe u

/-- What a schedule lets happen at one site. A failure may be reported although
the effect took place: a rename whose directory sync fails is the usual case. -/
inductive Outcome
  | ok
  | failed (applied : Bool)
  | killed
  deriving DecidableEq, Repr

/-- The effect of the primitive took place. -/
def Outcome.effective : Outcome → Bool
  | .ok => true
  | .failed applied => applied
  | .killed => false

/-- How a program ends. -/
inductive Ending (ε α : Type u)
  | returned (a : α)
  | raised (e : ε)
  | killed
  deriving DecidableEq, Repr

/-- A program over sites `ι` and states `σ`, raising errors `ε`. -/
def Prog (ι σ ε α : Type u) := (ι → Outcome) → σ → Ending ε α × σ

namespace Prog

variable {ι σ ε α β : Type u}

/-- Run a program under a schedule. -/
def run (p : Prog ι σ ε α) (o : ι → Outcome) (s : σ) : Ending ε α × σ := p o s

instance : Monad (Prog ι σ ε) where
  pure a := fun _ s => (.returned a, s)
  bind p k := fun o s =>
    match p o s with
    | (.returned a, s') => k a o s'
    | (.raised e, s') => (.raised e, s')
    | (.killed, s') => (.killed, s')

/-- Stop with a reported failure. -/
def raise (e : ε) : Prog ι σ ε α := fun _ s => (.raised e, s)

/-- Run a program and hand its reported failure to the caller as a value. -/
def attempt {ε' : Type u} (p : Prog ι σ ε α) : Prog ι σ ε' (Except ε α) := fun o s =>
  match p o s with
  | (.returned a, s') => (.returned (.ok a), s')
  | (.raised e, s') => (.returned (.error e), s')
  | (.killed, s') => (.killed, s')

/-- A primitive that changes the state, raising `e` when it reports a failure. -/
def act (i : ι) (e : ε) (f : σ → σ) : Prog ι σ ε PUnit := fun o s =>
  match o i with
  | .ok => (.returned ⟨⟩, f s)
  | .failed applied => (.raised e, if applied then f s else s)
  | .killed => (.killed, s)

/-- A primitive that reads the state, answering `bad` when it fails. -/
def ask (i : ι) (f : σ → α) (bad : α) : Prog ι σ ε α := fun o s =>
  match o i with
  | .ok => (.returned (f s), s)
  | .failed _ => (.returned bad, s)
  | .killed => (.killed, s)

/-- A reading that is not a primitive of its own. -/
def look (f : σ → α) : Prog ι σ ε α := fun _ s => (.returned (f s), s)

/-- A check that is no primitive of its own. -/
def ofExcept : Except ε α → Prog ι σ ε α
  | .ok a => pure a
  | .error e => raise e

/-- Run a program after renaming its sites. -/
def mapSites {κ : Type u} (g : κ → ι) (p : Prog κ σ ε α) : Prog ι σ ε α :=
  fun o s => p (fun k => o (g k)) s

/-- Run a program on the first of two states. -/
def onFst {τ : Type u} (p : Prog ι σ ε α) : Prog ι (σ × τ) ε α :=
  fun o s => ((p o s.1).1, (p o s.1).2, s.2)

/-- A loop over a list, left by the first reported failure. -/
def forEach : List β → (β → Prog ι σ ε PUnit) → Prog ι σ ε PUnit
  | [], _ => pure ⟨⟩
  | x :: xs, body => do
    body x
    forEach xs body

theorem run_of_ending {p : Prog ι σ ε α} {o : ι → Outcome} {s : σ} {ending : Ending ε α}
    (h : (p.run o s).1 = ending) : ∃ t, p.run o s = (ending, t) := ⟨_, Prod.ext h rfl⟩

/-- Weakest precondition: `Q` after a return, `E` after a reported failure and
`C` after a kill. -/
def wp (o : ι → Outcome) (p : Prog ι σ ε α) (Q : α → σ → Prop) (E : ε → σ → Prop)
    (C : σ → Prop) (s : σ) : Prop :=
  match p o s with
  | (.returned a, s') => Q a s'
  | (.raised e, s') => E e s'
  | (.killed, s') => C s'

section Rules

variable {o : ι → Outcome} {Q Q' : α → σ → Prop} {E E' : ε → σ → Prop} {C C' : σ → Prop} {s : σ}

@[simp] theorem wp_pure (a : α) : wp o (pure a : Prog ι σ ε α) Q E C s ↔ Q a s := Iff.rfl

@[simp] theorem wp_raise (e : ε) : wp o (raise e : Prog ι σ ε α) Q E C s ↔ E e s := Iff.rfl

@[simp] theorem wp_look (f : σ → α) : wp o (look f : Prog ι σ ε α) Q E C s ↔ Q (f s) s := Iff.rfl

@[simp] theorem wp_bind (p : Prog ι σ ε β) (k : β → Prog ι σ ε α) :
    wp o (p >>= k) Q E C s ↔ wp o p (fun b s' => wp o (k b) Q E C s') E C s := by
  unfold wp
  simp only [bind]
  rcases p o s with ⟨_ | _ | _, s'⟩ <;> rfl

@[simp] theorem wp_attempt {ε' : Type u} (p : Prog ι σ ε β) {Q : Except ε β → σ → Prop}
    {E : ε' → σ → Prop} :
    wp o (attempt p) Q E C s ↔ wp o p (fun b => Q (.ok b)) (fun e => Q (.error e)) C s := by
  unfold wp attempt
  rcases p o s with ⟨_ | _ | _, s'⟩ <;> rfl

theorem wp_ofExcept (x : Except ε α) :
    wp o (ofExcept x) Q E C s ↔ (∀ a, x = .ok a → Q a s) ∧ ∀ e, x = .error e → E e s := by
  cases x <;> simp [ofExcept]

@[simp] theorem wp_mapSites {κ : Type u} (g : κ → ι) (p : Prog κ σ ε α) :
    wp o (mapSites g p) Q E C s ↔ wp (fun k => o (g k)) p Q E C s := Iff.rfl

theorem wp_onFst {τ : Type u} {p : Prog ι σ ε α} {Q : α → σ × τ → Prop} {E : ε → σ × τ → Prop}
    {C : σ × τ → Prop} {s : σ × τ} :
    wp o (onFst p) Q E C s ↔
      wp o p (fun a t => Q a (t, s.2)) (fun e t => E e (t, s.2)) (fun t => C (t, s.2)) s.1 := by
  unfold wp onFst
  rcases p o s.1 with ⟨a | e | _, t⟩ <;> rfl

theorem wp_act (i : ι) (e : ε) (f : σ → σ) {Q : PUnit → σ → Prop} :
    wp o (act i e f) Q E C s ↔
      match o i with
      | .ok => Q ⟨⟩ (f s)
      | .failed applied => E e (if applied then f s else s)
      | .killed => C s := by
  unfold wp act
  cases o i <;> rfl

theorem wp_ask (i : ι) (f : σ → α) (bad : α) :
    wp o (ask i f bad) Q E C s ↔
      match o i with
      | .ok => Q (f s) s
      | .failed _ => Q bad s
      | .killed => C s := by
  unfold wp ask
  cases o i <;> rfl

/-- A changing primitive, when the schedule is not known. -/
theorem wp_act_intro {i : ι} {e : ε} {f : σ → σ} {Q : PUnit → σ → Prop}
    (done : Q ⟨⟩ (f s)) (undone : E e s) (late : E e (f s)) (dead : C s) :
    wp o (act i e f) Q E C s := by
  rw [wp_act]
  cases o i with
  | ok => exact done
  | failed applied => cases applied <;> assumption
  | killed => exact dead

/-- A reading primitive, when the schedule is not known. -/
theorem wp_ask_intro {i : ι} {f : σ → α} {bad : α}
    (good : Q (f s) s) (failed : Q bad s) (dead : C s) : wp o (ask i f bad) Q E C s := by
  rw [wp_ask]
  cases o i <;> assumption

theorem wp_ask_alive {i : ι} {f : σ → α} {bad : α} (h : o i ≠ .killed) :
    wp o (ask i f bad) Q E C s ↔ Q (if o i = .ok then f s else bad) s := by
  rw [wp_ask]
  cases hi : o i with
  | ok => rfl
  | failed applied => rfl
  | killed => exact absurd hi h

theorem wp_ask_killed {i : ι} {f : σ → α} {bad : α} (h : o i = .killed) :
    wp o (ask i f bad) Q E C s ↔ C s := by
  rw [wp_ask, h]

/-- A reading primitive answers what it read, or its default. -/
theorem wp_ask_answer {i : ι} {f : σ → α} {bad : α} (dead : C s)
    (answer : ∀ a, a = bad ∨ a = f s → Q a s) : wp o (ask i f bad) Q E C s :=
  wp_ask_intro (answer _ (Or.inr rfl)) (answer _ (Or.inl rfl)) dead

theorem wp_mono (p : Prog ι σ ε α) (h : wp o p Q E C s) (hQ : ∀ a t, Q a t → Q' a t)
    (hE : ∀ e t, E e t → E' e t) (hC : ∀ t, C t → C' t) : wp o p Q' E' C' s := by
  unfold wp at h ⊢
  rcases hp : p o s with ⟨a | e | _, t⟩ <;> rw [hp] at h
  · exact hQ a t h
  · exact hE e t h
  · exact hC t h

theorem wp_and (p : Prog ι σ ε α) (h : wp o p Q E C s) (h' : wp o p Q' E' C' s) :
    wp o p (fun a t => Q a t ∧ Q' a t) (fun e t => E e t ∧ E' e t) (fun t => C t ∧ C' t) s := by
  unfold wp at *
  rcases hp : p o s with ⟨a | e | _, t⟩ <;> rw [hp] at h h' <;> exact ⟨h, h'⟩

/-- A loop keeps what one turn carries from a list to its tail. -/
theorem wp_forEach {body : β → Prog ι σ ε PUnit} {E : ε → σ → Prop} {C : σ → Prop}
    (I : List β → σ → Prop)
    (turn : ∀ x xs s, I (x :: xs) s → wp o (body x) (fun _ => I xs) E C s) {xs : List β} {s : σ}
    (h : I xs s) : wp o (forEach xs body) (fun _ => I []) E C s := by
  induction xs generalizing s with
  | nil => exact h
  | cons x xs ih =>
    rw [forEach, wp_bind]
    exact wp_mono _ (turn x xs s h) (fun _ _ => ih) (fun _ _ h => h) (fun _ h => h)

theorem wp_trivial (p : Prog ι σ ε α) :
    wp o p (fun _ _ => True) (fun _ _ => True) (fun _ => True) s := by
  unfold wp
  rcases p o s with ⟨a | e | _, t⟩ <;> trivial

/-- The run itself is a postcondition of every program. -/
theorem wp_run (p : Prog ι σ ε α) :
    wp o p (fun a t => p.run o s = (.returned a, t)) (fun e t => p.run o s = (.raised e, t))
      (fun t => p.run o s = (.killed, t)) s := by
  unfold wp run
  rcases p o s with ⟨a | e | _, t⟩ <;> rfl

/-- A run that is known decides its weakest preconditions. -/
theorem wp_of_run {p : Prog ι σ ε α} {a : α} {t : σ} (h : p.run o s = (.returned a, t)) :
    wp o p Q E C s ↔ Q a t := by
  unfold run at h
  unfold wp
  rw [h]

/-- What the weakest precondition says about an actual run. -/
theorem wp_iff (p : Prog ι σ ε α) :
    wp o p Q E C s ↔ (∀ a t, p.run o s = (.returned a, t) → Q a t) ∧
      (∀ e t, p.run o s = (.raised e, t) → E e t) ∧ (∀ t, p.run o s = (.killed, t) → C t) := by
  unfold wp run
  rcases p o s with ⟨a | e | _, t⟩ <;> simp

/-- A program that can only return does return. -/
theorem wp_returns {p : Prog ι σ ε α} (h : wp o p Q (fun _ _ => False) (fun _ => False) s) :
    ∃ a t, p.run o s = (.returned a, t) ∧ Q a t := by
  unfold wp at h
  unfold run
  rcases hp : p o s with ⟨a | e | _, t⟩ <;> rw [hp] at h
  · exact ⟨a, t, rfl, h⟩
  · exact h.elim
  · exact h.elim

/-- A postcondition of every ending holds of the final state. -/
theorem wp_state {p : Prog ι σ ε α} {P : σ → Prop} (h : wp o p (fun _ => P) (fun _ => P) P s) :
    P (p.run o s).2 := by
  unfold wp at h
  unfold run
  rcases hp : p o s with ⟨a | e | _, t⟩ <;> rw [hp] at h <;> exact h

/-- A program satisfies the invariant `I` when every run from a state with `I`
ends, in whatever way, in a state with `I`. -/
def Keeps (I : σ → Prop) (p : Prog ι σ ε α) : Prop :=
  ∀ o s, I s → wp o p (fun _ => I) (fun _ => I) I s

variable {I : σ → Prop}

theorem keeps_pure (a : α) : Keeps I (pure a : Prog ι σ ε α) := fun _ _ h => h

theorem keeps_raise (e : ε) : Keeps I (raise e : Prog ι σ ε α) := fun _ _ h => h

theorem keeps_look (f : σ → α) : Keeps I (look f : Prog ι σ ε α) := fun _ _ h => h

theorem keeps_act {i : ι} {e : ε} {f : σ → σ} (h : ∀ s, I s → I (f s)) :
    Keeps I (act i e f) := fun _ s hs => wp_act_intro (h s hs) hs (h s hs) hs

theorem Keeps.bind {p : Prog ι σ ε β} {k : β → Prog ι σ ε α} (hp : Keeps I p)
    (hk : ∀ b, Keeps I (k b)) : Keeps I (p >>= k) := by
  intro o s hs
  rw [wp_bind]
  exact wp_mono p (hp o s hs) (fun b t ht => hk b o t ht) (fun _ _ h => h) (fun _ h => h)

theorem Keeps.attempt {ε' : Type u} {p : Prog ι σ ε α} (hp : Keeps I p) :
    Keeps I (attempt p : Prog ι σ ε' (Except ε α)) := by
  intro o s hs
  rw [wp_attempt]
  exact hp o s hs

theorem keeps_forEach {body : β → Prog ι σ ε PUnit} (h : ∀ x, Keeps I (body x)) (xs : List β) :
    Keeps I (forEach xs body) := fun o _ hs =>
  wp_forEach (fun _ => I) (fun x _ s hs => h x o s hs) hs

theorem Keeps.mapSites {κ : Type u} {g : κ → ι} {p : Prog κ σ ε α} (hp : Keeps I p) :
    Keeps I (mapSites g p) := fun o s hs => hp (fun k => o (g k)) s hs

/-- A kept invariant holds in whatever state a run ends. -/
theorem Keeps.run_state {p : Prog ι σ ε α} (hp : Keeps I p) (o : ι → Outcome) {s : σ} (hs : I s) :
    I (p.run o s).2 := wp_state (hp o s hs)

end Rules

section AllOk

/-- The schedule in which every primitive succeeds. -/
def allOk : ι → Outcome := fun _ => .ok

variable {Q : α → σ → Prop} {E : ε → σ → Prop} {C : σ → Prop} {s : σ}

@[simp] theorem wp_act_allOk (i : ι) (e : ε) (f : σ → σ) {Q : PUnit → σ → Prop} :
    wp allOk (act i e f) Q E C s ↔ Q ⟨⟩ (f s) := Iff.rfl

@[simp] theorem wp_ask_allOk (i : ι) (f : σ → α) (bad : α) :
    wp allOk (ask i f bad) Q E C s ↔ Q (f s) s := Iff.rfl

@[simp high] theorem wp_mapSites_allOk {κ : Type u} (g : κ → ι) (p : Prog κ σ ε α) :
    wp allOk (mapSites g p) Q E C s ↔ wp allOk p Q E C s := Iff.rfl

end AllOk

end Prog
end NasMount.Foundation
