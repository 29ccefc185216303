import Mathlib.Tactic

/-!
# Reactive programs

A reactive program reacts to one event at a time: it changes its state and logs
what it did. A statement about every sequence of events is an invariant of the
state and of the log so far.
-/
namespace NasMount.Foundation

namespace Reactive

universe u v w

variable {σ : Type u} {ι : Type v} {ο : Type w} (react : σ → ι → σ × List ο)

/-- The reaction to a sequence of events, with the log in the order of time. -/
def run : σ → List ι → σ × List ο
  | s, [] => (s, [])
  | s, event :: events =>
    let after := react s event
    let rest := run after.1 events
    (rest.1, after.2 ++ rest.2)

@[simp] theorem run_nil (s : σ) : run react s [] = (s, []) := rfl

theorem run_cons (s : σ) (event : ι) (events : List ι) :
    run react s (event :: events) =
      ((run react (react s event).1 events).1,
        (react s event).2 ++ (run react (react s event).1 events).2) := rfl

theorem run_append (s : σ) (xs ys : List ι) :
    run react s (xs ++ ys) =
      ((run react (run react s xs).1 ys).1,
        (run react s xs).2 ++ (run react (run react s xs).1 ys).2) := by
  induction xs generalizing s with
  | nil => rfl
  | cons x xs ih => rw [List.cons_append, run_cons, ih, run_cons, List.append_assoc]

variable {react}

/-- What one reaction carries on, every sequence of events carries on. -/
theorem run_keeps {I : σ → List ο → Prop}
    (turn : ∀ s log event, I s log → I (react s event).1 (log ++ (react s event).2))
    {s : σ} {log : List ο} (h : I s log) (events : List ι) :
    I (run react s events).1 (log ++ (run react s events).2) := by
  induction events generalizing s log with
  | nil => simpa using h
  | cons event events ih =>
    rw [run_cons, ← List.append_assoc]
    exact ih (turn s log event h)

/-- Where every entry of one reaction has its cause in the event, every entry of the
log has it in one of the events. -/
theorem run_causes {I : σ → Prop} {causes : ι → ο → Prop}
    (turn : ∀ s event, I s →
      I (react s event).1 ∧ ∀ entry ∈ (react s event).2, causes event entry)
    {s : σ} (h : I s) (events : List ι) :
    I (run react s events).1 ∧ ∀ entry ∈ (run react s events).2, ∃ event ∈ events,
      causes event entry := by
  induction events generalizing s with
  | nil => exact ⟨h, fun entry hentry => absurd hentry List.not_mem_nil⟩
  | cons event events ih =>
    obtain ⟨hnext, hcauses⟩ := turn s event h
    obtain ⟨hlast, hlater⟩ := ih hnext
    refine ⟨hlast, fun entry hentry => ?_⟩
    rcases List.mem_append.1 hentry with hnow | hrest
    · exact ⟨event, List.mem_cons_self, hcauses entry hnow⟩
    · obtain ⟨cause, hcause, hentry⟩ := hlater entry hrest
      exact ⟨cause, List.mem_cons_of_mem _ hcause, hentry⟩

end Reactive
end NasMount.Foundation
