import NasMount.Foundation.Prog

/-!
# Programs that only a kill ends early

Whether a program reaches a return or a raised error is a matter of the schedule
alone: it is killed only where the schedule kills one of its primitives. Another
process sees how it ended, and goes on.
-/
namespace NasMount.Foundation

namespace Prog

universe u

variable {ι σ ε α β : Type u} {o : ι → Outcome} {Q : α → σ → Prop} {E : ε → σ → Prop}
  {C : σ → Prop} {s : σ}

/-- Without a kill in the schedule the program is not killed. -/
def Survives (p : Prog ι σ ε α) : Prop :=
  ∀ o s, (∀ i, o i ≠ .killed) → wp o p (fun _ _ => True) (fun _ _ => True) (fun _ => False) s

theorem survives_pure (a : α) : Survives (pure a : Prog ι σ ε α) := fun _ _ _ => trivial

theorem survives_raise (e : ε) : Survives (raise e : Prog ι σ ε α) := fun _ _ _ => trivial

theorem survives_look (f : σ → α) : Survives (look f : Prog ι σ ε α) := fun _ _ _ => trivial

theorem survives_act (i : ι) (e : ε) (f : σ → σ) : Survives (act i e f) := by
  intro o s halive
  rw [wp_act]
  cases hi : o i with
  | ok => trivial
  | failed applied => trivial
  | killed => exact absurd hi (halive i)

theorem survives_ask (i : ι) (f : σ → α) (bad : α) : Survives (ask i f bad : Prog ι σ ε α) := by
  intro o s halive
  exact (wp_ask_alive (halive i)).2 trivial

theorem Survives.bind {p : Prog ι σ ε β} {k : β → Prog ι σ ε α} (hp : Survives p)
    (hk : ∀ b, Survives (k b)) : Survives (p >>= k) := by
  intro o s halive
  rw [wp_bind]
  exact wp_mono p (hp o s halive) (fun b t _ => hk b o t halive) (fun _ _ h => h) fun _ h => h

theorem Survives.attempt {ε' : Type u} {p : Prog ι σ ε α} (hp : Survives p) :
    Survives (attempt p : Prog ι σ ε' (Except ε α)) := by
  intro o s halive
  rw [wp_attempt]
  exact hp o s halive

theorem Survives.mapSites {κ : Type u} {g : κ → ι} {p : Prog κ σ ε α} (hp : Survives p) :
    Survives (mapSites g p) := fun o s halive => hp (fun k => o (g k)) s fun k => halive (g k)

/-- What holds after every ending of a program that survives needs no case for
the kill. -/
theorem Survives.wp {p : Prog ι σ ε α} (hp : Survives p) (halive : ∀ i, o i ≠ .killed)
    (h : Prog.wp o p Q E C s) : Prog.wp o p Q E (fun _ => False) s :=
  wp_mono p (wp_and p h (hp o s halive)) (fun _ _ h => h.1) (fun _ _ h => h.1) fun _ h => h.2

/-- Run another process to its end, whatever that is. -/
def observe {ε' : Type u} (p : Prog ι σ ε α) : Prog ι σ ε' (Ending ε α) := fun o s =>
  (.returned (p o s).1, (p o s).2)

theorem wp_observe {ε' : Type u} (p : Prog ι σ ε α) {Q : Ending ε α → σ → Prop}
    {E : ε' → σ → Prop} :
    wp o (observe p) Q E C s ↔
      wp o p (fun a => Q (.returned a)) (fun e => Q (.raised e)) (Q .killed) s := by
  unfold wp observe
  rcases p o s with ⟨a | e | _, t⟩ <;> rfl

end Prog
end NasMount.Foundation
