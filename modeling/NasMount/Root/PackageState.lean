import NasMount.Root.PurgeRuns

/-!
# The package guard

`classify` decides, without changing anything, whether package removal can
orphan state. It scans the unit directory on its own, so a purge has to leave a
machine this scan accepts as well.
-/
namespace NasMount.Root

open NasMount.Foundation NasMount.Core QString

inductive Classification
  | empty
  | managed
  | unsafeState
  | indeterminate
  deriving DecidableEq, Repr

structure Classified where
  classification : Classification
  detail : QString
  deriving DecidableEq

section Verdict

variable {tree : HostTree} {filesystemRoot unitPath : QString} {key : UnitKey}

/-- A check whose every verdict refuses the removal. -/
def Refusing {α : Type} (x : Except Classified α) : Prop :=
  ∀ verdict, x = .error verdict → verdict.classification ≠ .empty

theorem Refusing.bind {α β : Type} {x : Except Classified α} {f : α → Except Classified β}
    (hx : Refusing x) (hf : ∀ a, Refusing (f a)) : Refusing (x >>= f) := by
  intro verdict h
  cases x with
  | error e => exact hx verdict (congrArg Except.error (Except.error.inj h))
  | ok a => exact hf a verdict h

theorem refusing_pure {α : Type} (a : α) : Refusing (pure a) := fun _ h => (nomatch h)

theorem Refusing.foldlM {α β : Type} {step : β → α → Except Classified β}
    (h : ∀ b a, Refusing (step b a)) (xs : List α) (b : β) : Refusing (xs.foldlM step b) := by
  induction xs generalizing b with
  | nil => exact refusing_pure b
  | cons x xs ih =>
    rw [List.foldlM_cons]
    exact (h b x).bind ih

theorem Refusing.forM {α : Type} {check : α → Except Classified PUnit} (h : ∀ a, Refusing (check a))
    (xs : List α) : Refusing (xs.forM check) := by
  induction xs with
  | nil => exact refusing_pure _
  | cons x xs ih => exact (h x).bind fun _ => ih

end Verdict

end NasMount.Root
