import NasMount.Foundation.Survival
import NasMount.Root.PurgeRuns
import NasMount.Session.InstalledFiles
import NasMount.Session.Store

/-!
# The clean-up before an uninstallation

`nasmount-cleanup` has the helper purge the machine, and removes the user's records
once that is confirmed. The job of a helper action reports an error number alone,
and the exit code may promise no more than that number proves.
-/
namespace NasMount.Session

open NasMount.Foundation NasMount.Core NasMount.Root QString

/-- The error of a finished KAuth job. -/
inductive JobError
  | noError
  | noResponder
  | noSuchAction
  | invalidAction
  | authorizationDenied
  | userCancelled
  | helperBusy
  | alreadyStarted
  | dBus
  | backend
  /-- `-1`: a refusal of the helper's own. -/
  | helper
  | other (code : Int)
  deriving DecidableEq, Repr

inductive HelperOutcome
  | confirmedSuccess
  | confirmedFailure
  | unknown
  deriving DecidableEq, Repr

/-- Whether KAuth rejected the call before the helper's code could run. -/
def rejectedBeforeDispatch (execSucceeded : Bool) (jobError : JobError) : Bool :=
  if execSucceeded then false
  else
    match jobError with
    | .authorizationDenied | .userCancelled | .noSuchAction | .invalidAction | .helperBusy
    | .alreadyStarted => true
    | _ => false

def classifyOutcome (execSucceeded : Bool) (jobError : JobError) : HelperOutcome :=
  if execSucceeded then .confirmedSuccess
  else
    match jobError with
    | .authorizationDenied | .userCancelled | .noSuchAction | .invalidAction | .helperBusy
    | .alreadyStarted => .confirmedFailure
    | .helper => .confirmedFailure
    | _ => .unknown

structure HelperResult where
  outcome : HelperOutcome := .unknown
  rejectedBeforeDispatch : Bool := false
  message : QString := []
  deriving DecidableEq

/-- The error of a call whose answer is missing. -/
structure Loss where
  error : JobError
  errorText : QString := []
  unconfirmed : classifyOutcome false error = .unknown

/-- How the call of a helper action fares on its way. Only a call that does not reach
the helper ends with one of KAuth's own rejections. -/
inductive Delivery
  | turnedAway (error : JobError) (errorText : QString) (notHelper : error ≠ .helper)
  /-- The helper runs; its answer may be lost, and is when the helper is killed. -/
  | delivered (answered : Bool) (loss : Loss)

/-- The result of a job that did not succeed. -/
def failedJob (error : JobError) (errorText : QString) : HelperResult where
  outcome := classifyOutcome false error
  rejectedBeforeDispatch := rejectedBeforeDispatch false error
  message := if errorText = [] then qs "the operation failed" else errorText

/-- What the client makes of a job whose helper ended like this. -/
def jobResult (answered : Bool) (loss : Loss) : Ending QString QString → HelperResult
  | .returned message =>
    if answered then { outcome := classifyOutcome true .noError, message := message }
    else failedJob loss.error loss.errorText
  | .raised error =>
    if answered then failedJob .helper error else failedJob loss.error loss.errorText
  | .killed => failedJob loss.error loss.errorText

def invokeHelperAction {ι σ ε : Type} (delivery : Delivery) (action : Prog ι σ QString QString) :
    Prog ι σ ε HelperResult :=
  match delivery with
  | .turnedAway error errorText _ => pure (failedJob error errorText)
  | .delivered answered loss => do
    let ending ← action.observe
    return jobResult answered loss ending

inductive PurgeCallSite
  | lock
  | caller
  | purge (site : PurgeSite)
  deriving DecidableEq

/-- The body of the helper's `purge` action. Its scope comes from the caller alone. -/
def doPurge (host : Host) (uid : UInt32) : Prog PurgeCallSite World QString QString := do
  Prog.act .lock (qs "cannot acquire the helper lock") fun w => w
  Prog.act .caller (qs "cannot resolve the caller") fun w => w
  let removedShares ← Prog.mapSites .purge (purge host uid)
  return qs "purged " ++ number removedShares ++ qs " managed share(s)"

structure CleanupArguments where
  manifest : Option QString
  validateOnly : Bool

structure CleanupReport where
  code : ℕ
  output : QString
  deriving DecidableEq

inductive CleanupSite
  | userLock
  | helper (site : PurgeCallSite)
  | purgeApplicationData
  deriving DecidableEq

def errorLine (error : QString) : QString := qs "ERROR: " ++ error ++ qs "\n"

/-- The records, once the purge is confirmed. -/
def finishCleanup (purge : HelperResult) :
    Prog CleanupSite (World × Config) QString CleanupReport :=
  if purge.rejectedBeforeDispatch then
    pure {
      code := 2
      output := errorLine (qs "privileged purge was refused: " ++ purge.message) ++
        qs "No share, credential, or runtime record was removed.\n" }
  -- A confirmed failure may be a helper that gave up in the middle.
  else if purge.outcome ≠ .confirmedSuccess then
    pure {
      code := 3
      output := errorLine (qs "privileged purge was not confirmed: " ++ purge.message) ++
        qs "Some shares, credentials, or runtime records may already have been " ++
        qs "removed. Re-run this command to reconcile.\n" }
  else do
    match ← (Prog.act .purgeApplicationData (qs "could not remove the configuration") fun s =>
        (s.1, ∅)).attempt with
    | .error error =>
      return {
        code := 3
        output :=
          errorLine (qs "privileged data was purged, but user data cleanup failed: " ++ error) }
    | .ok _ => return { code := 0, output := purge.message ++ qs "; removed local configuration\n" }

/-- The purge and what follows from its result, under the lock of the user. -/
def cleanupData (host : Host) (uid : UInt32) (delivery : Delivery) :
    Prog CleanupSite (World × Config) QString CleanupReport := do
  match ← (Prog.act .userLock (qs "cannot acquire the user lock") fun s => s).attempt with
  | .error error => return { code := 1, output := errorLine error }
  | .ok _ =>
    let purge ← invokeHelperAction delivery (Prog.onFst (Prog.mapSites .helper (doPurge host uid)))
    finishCleanup purge

/-- The program `nasmount-cleanup`, by its exit code. -/
def cleanup (host : Host) (uid : UInt32) (fromUtf8 : List UInt8 → QString)
    (files : QString → Option (List UInt8)) (arguments : CleanupArguments) (delivery : Delivery) :
    Prog CleanupSite (World × Config) QString CleanupReport :=
  match arguments.manifest with
  | none => pure { code := 1, output := errorLine (qs "--manifest is required") }
  | some path =>
    match validateInstallManifest fromUtf8 path (files path) with
    | .error error => pure { code := 1, output := errorLine error }
    | .ok targets =>
      if arguments.validateOnly then
        pure {
          code := 0
          output := qs "validated " ++ number targets.length ++ qs " installed paths\n" }
      else cleanupData host uid delivery

/-- However far a clean-up came, it has only removed from the machine, and the records
only after everything else. -/
structure InOrder (w : World) (config : Config) (s : World × Config) : Prop where
  thinned : Thinned w s.1
  recordsLast : s.2 = config ∨ Purged s.1 ∧ s.2 = ∅

/-- What the exit code of a clean-up says about the machine and the records. -/
structure Tells (w : World) (config : Config) (code : ℕ) (s : World × Config) : Prop
    extends InOrder w config s where
  known : code = 0 ∨ code = 1 ∨ code = 2 ∨ code = 3
  nothing : code = 1 ∨ code = 2 → s = (w, config)
  everything : code = 0 → Purged s.1 ∧ s.2 = ∅

section ExitCodes

variable {host : Host} {uid : UInt32} {delivery : Delivery} {loss : Loss} {answered : Bool}
  {ending : Ending QString QString} {o : CleanupSite → Outcome} {w w' : World} {config : Config}
  {targets : List ValidatedUnit}

theorem inOrder_refl (w : World) (config : Config) : InOrder w config (w, config) :=
  ⟨Thinned.refl w, Or.inl rfl⟩

/-- Before anything was attempted. -/
theorem tells_nothing {code : ℕ} (h : code = 1 ∨ code = 2) : Tells w config code (w, config) where
  toInOrder := inOrder_refl w config
  known := by omega
  nothing _ := rfl
  everything := by omega

/-- A result that does not say what happened. -/
theorem tells_unknown {s : World × Config} (h : InOrder w config s) : Tells w config 3 s where
  toInOrder := h
  known := by omega
  nothing := by omega
  everything := by omega

theorem tells_everything {s : World × Config} (h : InOrder w config s)
    (hleft : Purged s.1 ∧ s.2 = ∅) :
    Tells w config 0 s where
  toInOrder := h
  known := by omega
  nothing := by omega
  everything _ := hleft

/-- KAuth's rejections are confirmed failures, but not the only ones. -/
theorem rejected_confirmed {execSucceeded : Bool} {error : JobError} :
    rejectedBeforeDispatch execSucceeded error = true ↔
      classifyOutcome execSucceeded error = .confirmedFailure ∧ error ≠ .helper := by
  cases execSucceeded <;> cases error <;> simp [rejectedBeforeDispatch, classifyOutcome]

theorem not_rejected_of_unknown {error : JobError} (h : classifyOutcome false error = .unknown) :
    rejectedBeforeDispatch false error = false := by
  rw [← Bool.not_eq_true, rejected_confirmed, h]
  exact fun hrejected => nomatch hrejected.1

/-- No result of a call that reached the helper claims that it did not, and only a
helper that returned is confirmed. -/
theorem jobResult_delivered : (jobResult answered loss ending).rejectedBeforeDispatch = false ∧
    ((jobResult answered loss ending).outcome = .confirmedSuccess ↔
      answered = true ∧ ∃ message, ending = .returned message) := by
  have hlost : (failedJob loss.error loss.errorText).rejectedBeforeDispatch = false ∧
      (failedJob loss.error loss.errorText).outcome ≠ .confirmedSuccess := by
    refine ⟨not_rejected_of_unknown loss.unconfirmed, ?_⟩
    rw [failedJob, loss.unconfirmed]
    exact nofun
  cases ending with
  | returned message =>
    cases answered with
    | true => exact ⟨rfl, iff_of_true rfl ⟨rfl, message, rfl⟩⟩
    | false => exact ⟨hlost.1, iff_of_false hlost.2 fun h => nomatch h.1⟩
  | raised error =>
    cases answered with
    | true => exact ⟨rfl, iff_of_false nofun fun h => nomatch h.2.choose_spec⟩
    | false => exact ⟨hlost.1, iff_of_false hlost.2 fun h => nomatch h.1⟩
  | killed => exact ⟨hlost.1, iff_of_false hlost.2 fun h => nomatch h.2.choose_spec⟩

theorem failedJob_outcome {error : JobError} {errorText : QString} :
    (failedJob error errorText).outcome ≠ .confirmedSuccess := by
  cases error <;> exact nofun

theorem wp_invoke_delivered {ι σ ε : Type} {o : ι → Outcome} {action : Prog ι σ QString QString}
    {Q : HelperResult → σ → Prop} {E : ε → σ → Prop} {C : σ → Prop} {s : σ} :
    Prog.wp o (invokeHelperAction (.delivered answered loss) action) Q E C s ↔
      Prog.wp o action (fun message => Q (jobResult answered loss (.returned message)))
        (fun error => Q (jobResult answered loss (.raised error)))
          (Q (jobResult answered loss .killed)) s := by
  rw [invokeHelperAction, Prog.wp_bind, Prog.wp_observe]
  rfl

/-- The helper's call leaves less on the machine however it ends, and nothing once it
has returned. -/
theorem wp_doPurge {o : PurgeCallSite → Outcome} :
    Prog.wp o (doPurge host uid) (fun _ v => Thinned w v ∧ Purged v) (fun _ => Thinned w)
      (Thinned w) w := by
  have hrefl := Thinned.refl w
  unfold doPurge
  rw [Prog.wp_bind]
  refine Prog.wp_act_intro ?_ hrefl hrefl hrefl
  rw [Prog.wp_bind]
  refine Prog.wp_act_intro ?_ hrefl hrefl hrefl
  rw [Prog.wp_bind, Prog.wp_mapSites]
  apply Prog.wp_mono _ (Prog.wp_and _ (keeps_purge _ _ hrefl) wp_purge_purged)
  · exact fun _ _ h => h
  · exact fun _ _ h => h.1
  · exact fun _ h => h.1

theorem wp_finishCleanup {purge : HelperResult}
    (hrejected : purge.rejectedBeforeDispatch = true → w' = w)
    (hthin : Thinned w w') (hpurged : purge.outcome = .confirmedSuccess → Purged w') :
    Prog.wp o (finishCleanup purge) (fun report => Tells w config report.code) (fun _ _ => False)
      (InOrder w config) (w', config) := by
  have hkept : InOrder w config (w', config) := ⟨hthin, Or.inl rfl⟩
  unfold finishCleanup
  split_ifs with hearly hunconfirmed
  · rw [hrejected hearly]
    exact tells_nothing (Or.inr rfl)
  · exact tells_unknown hkept
  · have hleft : Purged w' := hpurged (not_not.1 hunconfirmed)
    have hempty : InOrder w config (w', ∅) := ⟨hthin, Or.inr ⟨hleft, rfl⟩⟩
    rw [Prog.wp_bind, Prog.wp_attempt]
    refine Prog.wp_act_intro ?_ (tells_unknown hkept) (tells_unknown hempty) hkept
    exact tells_everything hempty ⟨hleft, rfl⟩

/-- A clean-up has an exit code that tells what happened, unless it is killed itself. -/
theorem wp_cleanupData :
    Prog.wp o (cleanupData host uid delivery) (fun report => Tells w config report.code)
      (fun _ _ => False) (InOrder w config) (w, config) := by
  have hrefl := inOrder_refl w config
  unfold cleanupData
  rw [Prog.wp_bind, Prog.wp_attempt]
  refine Prog.wp_act_intro ?_ (tells_nothing (Or.inl rfl)) (tells_nothing (Or.inl rfl)) hrefl
  dsimp only
  rw [Prog.wp_bind]
  cases delivery with
  | turnedAway error errorText notHelper =>
    apply wp_finishCleanup (fun _ => rfl) (Thinned.refl w)
    exact fun hconfirmed => absurd hconfirmed failedJob_outcome
  | delivered answered loss =>
    have hfinish : ∀ ending v, Thinned w v → ((∃ message, ending = .returned message) → Purged v) →
        Prog.wp o (finishCleanup (jobResult answered loss ending))
          (fun report => Tells w config report.code)
          (fun _ _ => False) (InOrder w config) (v, config) := by
      intro ending v hthin hpurged
      obtain ⟨hdelivered, hconfirmed⟩ := @jobResult_delivered loss answered ending
      apply wp_finishCleanup _ hthin
      · exact fun h => hpurged (hconfirmed.1 h).2
      · exact fun h => nomatch hdelivered.symm.trans h
    rw [wp_invoke_delivered, Prog.wp_onFst, Prog.wp_mapSites]
    apply Prog.wp_mono _ wp_doPurge
    · exact fun message v h => hfinish _ v h.1 fun _ => h.2
    · exact fun error v h => hfinish _ v h fun hreturned => nomatch hreturned.choose_spec
    · exact fun v h => hfinish _ v h fun hreturned => nomatch hreturned.choose_spec

theorem wp_cleanup {fromUtf8 : List UInt8 → QString} {files : QString → Option (List UInt8)}
    {arguments : CleanupArguments} :
    Prog.wp o (cleanup host uid fromUtf8 files arguments delivery)
      (fun report s' => if arguments.validateOnly then report.code ≤ 1 ∧ s' = (w, config)
        else Tells w config report.code s')
      (fun _ _ => False) (InOrder w config) (w, config) := by
  have hrefused : if arguments.validateOnly then 1 ≤ 1 ∧ (w, config) = (w, config)
      else Tells w config 1 (w, config) := by
    split_ifs
    · exact ⟨le_rfl, rfl⟩
    · exact tells_nothing (Or.inl rfl)
  unfold cleanup
  cases arguments.manifest with
  | none => exact hrefused
  | some path =>
    dsimp only
    cases validateInstallManifest fromUtf8 path (files path) with
    | error error => exact hrefused
    | ok targets =>
      dsimp only
      split_ifs
      · exact ⟨Nat.zero_le 1, rfl⟩
      · exact wp_cleanupData

theorem inOrder_cleanup {fromUtf8 : List UInt8 → QString} {files : QString → Option (List UInt8)}
    {arguments : CleanupArguments} :
    InOrder w config ((cleanup host uid fromUtf8 files arguments delivery).run o
      (w, config)).2 := by
  apply Prog.wp_state (P := InOrder w config)
  apply Prog.wp_mono _ wp_cleanup
  · intro report s' htells
    split_ifs at htells
    · rw [htells.2]
      exact inOrder_refl w config
    · exact htells.toInOrder
  · exact fun _ _ h => h.elim
  · exact fun _ h => h

end ExitCodes

section Sample

end Sample

end NasMount.Session
