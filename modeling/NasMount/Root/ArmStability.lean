import NasMount.Foundation.Survival
import NasMount.Root.Arming

/-!
# What arming a share keeps

The changes that arming one share can make, as closure conditions on a property
of the machine. A call that is not killed returns, whatever its primitives
report.
-/
namespace NasMount.Root

open NasMount.Foundation NasMount.Core QString

section Stable

variable {host : Host} {base : UnitName} {I J : World → Prop} {req : ArmShareRequest}

/-- Every change that arming the share can make keeps the property. -/
structure ArmStable (host : Host) (base : UnitName) (I : World → Prop) : Prop where
  quiet : ∀ s s', Quiet s s' → I s → I s'
  start : ∀ s, I s → I { s with sys := host.start base.automount s.sys }
  stop : ∀ s, I s → I { s with sys := host.stop base.automount s.sys }
  record : ∀ s text, I s → I (s.putFile .automountIds base.text text)
  dropRecord : ∀ s, I s → I (s.dropFile .automountIds base.text)

theorem ArmStable.and (h : ArmStable host base I) (h' : ArmStable host base J) :
    ArmStable host base fun s => I s ∧ J s where
  quiet s s' hquiet hs := ⟨h.quiet s s' hquiet hs.1, h'.quiet s s' hquiet hs.2⟩
  start s hs := ⟨h.start s hs.1, h'.start s hs.2⟩
  stop s hs := ⟨h.stop s hs.1, h'.stop s hs.2⟩
  record s text hs := ⟨h.record s text hs.1, h'.record s text hs.2⟩
  dropRecord s hs := ⟨h.dropRecord s hs.1, h'.dropRecord s hs.2⟩

theorem keeps_inspectRuntime (mountPoint what : QString) :
    Prog.Keeps I (inspectRuntime base mountPoint what) :=
  fun _ _ h => wp_inspectRuntime h fun _ _ => h

theorem keeps_checkCredential (hquiet : ∀ s s', Quiet s s' → I s → I s') :
    Prog.Keeps I (checkCredential req) := fun _ s h =>
  wp_checkCredential (fun s' hs => hquiet s s' hs h) (fun _ s' hs => hquiet s s' hs h)
    fun s' hs => hquiet s s' hs h

theorem keeps_ask {ι ε α : Type} {site : ι} {read : World → α} {bad : α} :
    Prog.Keeps I (Prog.ask site read bad : Prog ι World ε α) :=
  fun _ _ h => Prog.wp_ask_intro h h h

theorem ArmStable.keeps_stopStarted (h : ArmStable host base I) (path : QString) (id : UInt64) :
    Prog.Keeps I (stopStartedAutomount host base path id) := by
  unfold stopStartedAutomount
  split
  · exact Prog.keeps_pure _
  apply Prog.Keeps.bind keeps_ask
  intro current
  split
  · exact Prog.keeps_pure _
  apply Prog.Keeps.bind (Prog.Keeps.attempt (Prog.keeps_act h.stop))
  intro stopped
  cases stopped with
  | error e => exact Prog.keeps_pure _
  | ok _ =>
    apply Prog.Keeps.bind
    · exact Prog.Keeps.attempt
        (Prog.Keeps.mapSites (keeps_openPrivateRoot_act h.quiet h.dropRecord))
    intro removed
    cases removed <;> exact Prog.keeps_pure _

theorem ArmStable.keeps_armFailed (h : ArmStable host req.unitName I) (started : Option UInt64)
    (message : QString) (safe : Bool) : Prog.Keeps I (armFailed host req started message safe) := by
  cases started with
  | none => exact Prog.keeps_pure _
  | some id =>
    apply Prog.Keeps.bind (Prog.Keeps.mapSites (h.keeps_stopStarted _ _))
    intro outcome
    exact Prog.keeps_pure _

theorem ArmStable.keeps_recordStarted (h : ArmStable host req.unitName I) :
    Prog.Keeps I (recordStarted host req) := by
  apply Prog.Keeps.bind keeps_ask
  intro id
  split
  · exact h.keeps_armFailed _ _ _
  apply Prog.Keeps.bind
  · apply Prog.Keeps.attempt
    exact Prog.Keeps.mapSites (keeps_openPrivateRoot_act h.quiet fun s hs => h.record s _ hs)
  intro written
  cases written with
  | ok _ => exact Prog.keeps_pure _
  | error e => exact h.keeps_armFailed _ _ _

theorem ArmStable.keeps_startFailed (h : ArmStable host req.unitName I) (error : QString) :
    Prog.Keeps I (startFailed host req error) := by
  apply Prog.Keeps.bind (Prog.Keeps.mapSites (keeps_inspectRuntime _ _))
  intro after
  split
  · apply Prog.Keeps.bind keeps_ask
    intro id
    exact h.keeps_armFailed _ _ _
  · exact h.keeps_armFailed _ _ _

/-- Arming a share, however it ends, keeps what its changes keep. -/
theorem ArmStable.keeps_armShare (h : ArmStable host req.unitName I) :
    Prog.Keeps I (armShare host req) := by
  apply Prog.Keeps.bind (Prog.Keeps.mapSites (keeps_inspectRuntime _ _))
  intro snapshot
  cases evaluateArmPrecheck snapshot with
  | blocked error => exact h.keeps_armFailed _ _ _
  | alreadyArmed => exact Prog.keeps_pure _
  | readyToArm =>
    apply Prog.Keeps.bind (Prog.Keeps.attempt (Prog.Keeps.mapSites (keeps_checkCredential h.quiet)))
    intro checked
    cases checked with
    | error e => exact h.keeps_armFailed _ _ _
    | ok _ =>
      apply Prog.Keeps.bind (Prog.Keeps.attempt (Prog.keeps_act fun _ hs => hs))
      intro walked
      cases walked with
      | error e => exact h.keeps_armFailed _ _ _
      | ok _ =>
        apply Prog.Keeps.bind (Prog.Keeps.attempt (Prog.keeps_act h.start))
        intro started
        cases started with
        | error e => exact h.keeps_startFailed _
        | ok _ => exact h.keeps_recordStarted

theorem survives_inspectRuntime (base : UnitName) (mountPoint what : QString) :
    Prog.Survives (inspectRuntime base mountPoint what) := by
  unfold inspectRuntime
  repeat
    apply Prog.Survives.bind (Prog.survives_ask _ _ _)
    intro answer
  exact Prog.survives_pure _

theorem survives_openPrivateRoot (root : PrivateRoot) : Prog.Survives (openPrivateRoot root) := by
  apply Prog.Survives.bind (Prog.survives_act _ _ _)
  intro _
  apply Prog.Survives.bind (Prog.survives_act _ _ _)
  intro _
  apply Prog.Survives.bind (Prog.survives_look _)
  intro dir
  cases dir with
  | none => exact Prog.survives_raise _
  | some dir =>
    dsimp only
    split
    · exact Prog.survives_pure _
    · exact Prog.survives_raise _

theorem survives_credentialHealthy (id : ShareId) : Prog.Survives (CredentialStore.healthy id) := by
  apply Prog.Survives.bind (survives_openPrivateRoot _)
  intro _
  apply Prog.Survives.bind (Prog.survives_act _ _ _)
  intro _
  apply Prog.Survives.bind (Prog.survives_look _)
  intro node
  cases node with
  | none => exact Prog.survives_raise _
  | some node =>
    dsimp only
    split_ifs
    · exact Prog.survives_raise _
    · exact Prog.survives_pure _
    · exact Prog.survives_raise _

theorem survives_credentialAssertAbsent (id : ShareId) :
    Prog.Survives (CredentialStore.assertAbsent id) := by
  apply Prog.Survives.bind (survives_openPrivateRoot _)
  intro _
  apply Prog.Survives.bind (Prog.survives_act _ _ _)
  intro _
  apply Prog.Survives.bind (Prog.survives_look _)
  intro node
  cases node with
  | none => exact Prog.survives_pure _
  | some node => exact Prog.survives_raise _

theorem survives_checkCredential : Prog.Survives (checkCredential req) := by
  unfold checkCredential
  cases req.authentication with
  | credentials => exact survives_credentialHealthy _
  | guest => exact survives_credentialAssertAbsent _

theorem survives_armFailed (started : Option UInt64) (message : QString) (safe : Bool) :
    Prog.Survives (armFailed host req started message safe) := by
  cases started with
  | none => exact Prog.survives_pure _
  | some id =>
    apply Prog.Survives.bind
    · apply Prog.Survives.mapSites
      unfold stopStartedAutomount
      split
      · exact Prog.survives_pure _
      apply Prog.Survives.bind (Prog.survives_ask _ _ _)
      intro current
      split
      · exact Prog.survives_pure _
      apply Prog.Survives.bind (Prog.Survives.attempt (Prog.survives_act _ _ _))
      intro stopped
      cases stopped with
      | error e => exact Prog.survives_pure _
      | ok _ =>
        apply Prog.Survives.bind
        · apply Prog.Survives.attempt (Prog.Survives.mapSites _)
          exact Prog.Survives.bind (survives_openPrivateRoot _) fun _ => Prog.survives_act _ _ _
        intro removed
        cases removed <;> exact Prog.survives_pure _
    · intro outcome
      exact Prog.survives_pure _

theorem survives_recordStarted : Prog.Survives (recordStarted host req) := by
  apply Prog.Survives.bind (Prog.survives_ask _ _ _)
  intro id
  split
  · exact survives_armFailed _ _ _
  apply Prog.Survives.bind
  · apply Prog.Survives.attempt (Prog.Survives.mapSites _)
    exact Prog.Survives.bind (survives_openPrivateRoot _) fun _ => Prog.survives_act _ _ _
  intro written
  cases written with
  | ok _ => exact Prog.survives_pure _
  | error e => exact survives_armFailed _ _ _

theorem survives_armShare : Prog.Survives (armShare host req) := by
  apply Prog.Survives.bind (Prog.Survives.mapSites (survives_inspectRuntime _ _ _))
  intro snapshot
  cases evaluateArmPrecheck snapshot with
  | blocked error => exact survives_armFailed _ _ _
  | alreadyArmed => exact Prog.survives_pure _
  | readyToArm =>
    apply Prog.Survives.bind
      (Prog.Survives.attempt (Prog.Survives.mapSites survives_checkCredential))
    intro checked
    cases checked with
    | error e => exact survives_armFailed _ _ _
    | ok _ =>
      apply Prog.Survives.bind (Prog.Survives.attempt (Prog.survives_act _ _ _))
      intro walked
      cases walked with
      | error e => exact survives_armFailed _ _ _
      | ok _ =>
        apply Prog.Survives.bind (Prog.Survives.attempt (Prog.survives_act _ _ _))
        intro started
        cases started with
        | ok _ => exact survives_recordStarted
        | error e =>
          apply Prog.Survives.bind (Prog.Survives.mapSites (survives_inspectRuntime _ _ _))
          intro after
          split
          · apply Prog.Survives.bind (Prog.survives_ask _ _ _)
            intro id
            exact survives_armFailed _ _ _
          · exact survives_armFailed _ _ _

/-- Arming a share that is not killed returns, and keeps what its changes keep. -/
theorem wp_armShare_stable {o : ArmSite → Outcome} (halive : ∀ site, o site ≠ .killed)
    (h : ArmStable host req.unitName I) {s : World} (hs : I s) :
    Prog.wp o (armShare host req) (fun _ => I) (fun _ _ => False) (fun _ => False) s := by
  have hreturns : Prog.wp o (armShare host req) (fun _ _ => True) (fun _ _ => False)
      (fun _ => True) s := wp_armShare (fun _ _ _ _ => trivial) fun _ _ => trivial
  exact Prog.wp_mono _ (Prog.wp_and _ (h.keeps_armShare o s hs)
    (survives_armShare.wp halive hreturns)) (fun _ _ h => h.1) (fun _ _ h => h.2) fun _ h => h.2

end Stable

end NasMount.Root
