import Mathlib.Tactic

/-!
# Runs and conditions on their steps

A run is a sequence of events from a state. A condition on single steps holds of
a run when every event meets it in the state it finds.
-/
namespace NasMount.Foundation

namespace Runs

universe u v

variable {σ : Type u} {ι : Type v} (step : σ → ι → σ) (meets : σ → ι → Prop)

/-- Every step of the run meets the condition. -/
def Throughout : σ → List ι → Prop
  | _, [] => True
  | s, event :: events => meets s event ∧ Throughout (step s event) events

variable {step meets} {I : σ → Prop} {s : σ}

theorem throughout_append {xs ys : List ι} :
    Throughout step meets s (xs ++ ys) ↔
      Throughout step meets s xs ∧ Throughout step meets (xs.foldl step s) ys := by
  induction xs generalizing s with
  | nil => simp [Throughout]
  | cons x xs ih => rw [List.cons_append, Throughout, ih, Throughout, List.foldl_cons, and_assoc]

theorem throughout_of_forall {p : ι → Prop} (h : ∀ s event, p event → meets s event)
    {events : List ι} (hrun : ∀ event ∈ events, p event) : Throughout step meets s events := by
  induction events generalizing s with
  | nil => trivial
  | cons event events ih =>
    exact ⟨h _ _ (hrun event List.mem_cons_self),
      ih fun e he => hrun e (List.mem_cons_of_mem _ he)⟩

/-- What every step that meets the condition carries on, every run does whose
steps all meet it. -/
theorem run_keeps (turn : ∀ s event, I s → meets s event → I (step s event)) (h : I s)
    {events : List ι} (hrun : Throughout step meets s events) : I (events.foldl step s) := by
  induction events generalizing s with
  | nil => exact h
  | cons event events ih => exact ih (turn s event h hrun.1) hrun.2

theorem run_keeps_always (turn : ∀ s event, I s → I (step s event)) (h : I s) (events : List ι) :
    I (events.foldl step s) := by
  induction events generalizing s with
  | nil => exact h
  | cons event events ih => exact ih (turn s event h)

/-- A run that breaks the condition breaks it somewhere first. -/
theorem exists_first_of_not_throughout {events : List ι} (h : ¬Throughout step meets s events) :
    ∃ before event after, events = before ++ event :: after ∧ Throughout step meets s before ∧
      ¬meets (before.foldl step s) event := by
  induction events generalizing s with
  | nil => exact absurd trivial h
  | cons event events ih =>
    by_cases hmeets : meets s event
    · obtain ⟨before, e, after, rfl, hbefore, hbreak⟩ := ih fun hrest => h ⟨hmeets, hrest⟩
      exact ⟨event :: before, e, after, rfl, ⟨hmeets, hbefore⟩, hbreak⟩
    · exact ⟨[], event, events, rfl, trivial, hmeets⟩

end Runs
end NasMount.Foundation
