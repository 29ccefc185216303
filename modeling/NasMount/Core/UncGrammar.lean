import NasMount.Core.UnitSpec

/-!
# The grammar of share addresses

Which texts the share validation accepts, and what it makes of them. The
grammar is stated without reference to the order of the validator's checks: an
address `//host/path` with any number of slashes after it. The host and the path
of such an address are determined by the text, so the result is.
-/
namespace NasMount.Core

open NasMount.Foundation QString

/-- The text `//host/path`. -/
def uncText (host path : QString) : QString := '/' :: '/' :: (host ++ '/' :: path)

/-- A host name and a share path as an address may hold them. -/
structure UncParts (host path : QString) : Prop where
  host_ne : host ≠ []
  hostChar : ∀ c ∈ host, isHostChar c = true
  path_ne : path ≠ []
  path_head : path.head? ≠ some '/'
  ordinary : qs ".." ∉ split '/' path

/-- `raw` is the address `unc`, which does not end in a slash, with slashes
after it. -/
structure UncGrammar (raw unc : QString) : Prop where
  trailing : ∃ slashes : QString, (∀ c ∈ slashes, c = '/') ∧ raw = unc ++ slashes
  chopped : unc.getLast? ≠ some '/'
  form : ∃ host path, UncParts host path ∧ unc = uncText host path
  control : hasControlChars raw = false
  comma : ',' ∉ raw

theorem isHostChar_slash : isHostChar '/' = false := by decide

/-- The captures of the pattern are the host and the path of the address. -/
theorem uncCaptures_eq_some {unc host path : QString} :
    uncCaptures unc = some (host, path) ↔
      unc = uncText host path ∧ host ≠ [] ∧ (∀ c ∈ host, isHostChar c = true) ∧ path ≠ [] ∧
        path.head? ≠ some '/' := by
  constructor
  · intro h
    unfold uncCaptures at h
    split at h
    · rename_i rest
      dsimp only at h
      split at h
      · rename_i c tail hdrop
        split_ifs at h with hcond
        simp only [Option.some.injEq, Prod.mk.injEq] at h
        obtain ⟨rfl, rfl⟩ := h
        have hrest : rest.takeWhile isHostChar ++ '/' :: c :: tail = rest := by
          rw [← hdrop, List.takeWhile_append_dropWhile]
        refine ⟨by rw [uncText, hrest], hcond.1, ?_, by simp, by simpa using hcond.2⟩
        intro d hd
        exact List.mem_takeWhile_imp hd
      · exact nomatch h
    · exact nomatch h
  · rintro ⟨rfl, hhost, hchars, hpath, hhead⟩
    obtain ⟨c, tail, rfl⟩ := List.exists_cons_of_ne_nil hpath
    have hc : c ≠ '/' := by simpa using hhead
    have htake : (host ++ '/' :: c :: tail).takeWhile isHostChar = host := by
      rw [List.takeWhile_append_of_pos hchars, List.takeWhile_cons, isHostChar_slash]
      simp
    have hdrop : (host ++ '/' :: c :: tail).dropWhile isHostChar = '/' :: c :: tail := by
      rw [List.dropWhile_append_of_pos hchars, List.dropWhile_cons, isHostChar_slash]
      simp
    simp [uncCaptures, uncText, htake, hdrop, hhost, hc]

/-- The checks of an accepted address are those of the grammar. -/
theorem validateUnc_eq_ok {raw unc : QString} :
    validateUnc raw = .ok unc ↔ UncGrammar raw unc := by
  constructor
  · intro h
    obtain ⟨rfl, hcontrol, hcomma, ⟨host, path⟩, hcaptures, hdots⟩ := validateUnc_ok h
    obtain ⟨hform, hhost, hchars, hpath, hhead⟩ := uncCaptures_eq_some.mp hcaptures
    have htrailing := chopTrailing_trailing '/' raw
    exact ⟨htrailing.1, htrailing.2, ⟨host, path, ⟨hhost, hchars, hpath, hhead, hdots⟩, hform⟩,
      hcontrol, hcomma⟩
  · intro h
    obtain ⟨slashes, hslashes, rfl⟩ := h.trailing
    obtain ⟨host, path, hparts, rfl⟩ := h.form
    have hchop : chopTrailing '/' (uncText host path ++ slashes) = uncText host path :=
      chopTrailing_append h.chopped hslashes
    have hcaptures : uncCaptures (uncText host path) = some (host, path) :=
      uncCaptures_eq_some.mpr
        ⟨rfl, hparts.host_ne, hparts.hostChar, hparts.path_ne, hparts.path_head⟩
    rw [validateUnc, if_neg (by simp [h.control]), if_neg h.comma]
    dsimp only
    rw [hchop, hcaptures]
    exact if_neg hparts.ordinary

/-- The caller's two output variables. -/
structure UncOutputs where
  normalised : QString
  error : QString

/-- `validateUnc` with its output variables, as its callers see it. -/
def validateUncInto (unc : QString) (out : UncOutputs) : Bool × UncOutputs :=
  if hasControlChars unc then
    (false, { out with error := qs "UNC path contains control characters" })
  else if ',' ∈ unc then
    (false, { out with error := qs "UNC path may not contain a comma" })
  else
    let value := chopTrailing '/' unc
    match uncCaptures value with
    | none =>
      (false, { out with
        error := qs "not a valid UNC path: " ++ unc ++ qs " (expected //host/share)" })
    | some (_, path) =>
      if qs ".." ∈ split '/' path then
        (false, { out with error := qs "share path may not contain '..'" })
      else (true, { out with normalised := value })

/-- Exactly one of the two output variables is written. -/
theorem validateUncInto_eq (unc : QString) (out : UncOutputs) :
    validateUncInto unc out =
      match validateUnc unc with
      | .ok value => (true, { out with normalised := value })
      | .error text => (false, { out with error := text }) := by
  unfold validateUncInto validateUnc
  split_ifs with hcontrol hcomma
  · rfl
  · rfl
  · dsimp only
    cases uncCaptures (chopTrailing '/' unc) with
    | none => rfl
    | some captures =>
      dsimp only
      split_ifs <;> rfl

/-- The validator accepts exactly the grammar; its result is the only address
the grammar gives, is accepted again unchanged, and a refused text leaves the
caller's address alone. -/
theorem validateUnc_accepts_grammar :
    (∀ raw unc, validateUnc raw = .ok unc ↔ UncGrammar raw unc) ∧
    (∀ raw unc unc', UncGrammar raw unc → UncGrammar raw unc' → unc = unc') ∧
    (∀ raw unc, validateUnc raw = .ok unc → validateUnc unc = .ok unc) ∧
    ∀ raw out,
      (∃ unc, UncGrammar raw unc ∧
        validateUncInto raw out = (true, { out with normalised := unc })) ∨
      (¬ ∃ unc, UncGrammar raw unc) ∧ (validateUncInto raw out).1 = false ∧
        (validateUncInto raw out).2.normalised = out.normalised := by
  refine ⟨fun _ _ => validateUnc_eq_ok, ?_, fun _ _ => validateUnc_normalised, ?_⟩
  · intro raw unc unc' h h'
    have hresults := (validateUnc_eq_ok.mpr h).symm.trans (validateUnc_eq_ok.mpr h')
    exact Except.ok.inj hresults
  · intro raw out
    rw [validateUncInto_eq]
    cases hresult : validateUnc raw with
    | ok unc => exact Or.inl ⟨unc, validateUnc_eq_ok.mp hresult, rfl⟩
    | error text =>
      refine Or.inr ⟨?_, rfl, rfl⟩
      rintro ⟨unc, hgrammar⟩
      exact nomatch hresult.symm.trans (validateUnc_eq_ok.mpr hgrammar)

/-- Empty components and single dots stay; the slashes at the end go. -/
example : validateUnc (qs "//NAS_1.lan/a b//./c///") = .ok (qs "//NAS_1.lan/a b//./c") := by
  decide +kernel

end NasMount.Core
