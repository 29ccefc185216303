import NasMount.Root.Arming

/-!
# What becomes of a started trigger

A call of `armShare` that started its trigger records the instance, or stops it
and drops the record. A trigger whose instance is not identified is not stopped
by name: it stays, and the result forbids to remove its definition.
-/
namespace NasMount.Root

open NasMount.Foundation NasMount.Core QString

/-- The call gets to its start, and `systemctl start` reports success. The check
of the credential may have created its root. -/
structure StartsTrigger (o : ArmSite → Outcome) (req : ArmShareRequest) (w prepared : World) :
    Prop where
  inspected : ∃ snapshot, evaluateArmPrecheck snapshot = .readyToArm ∧
    ((Prog.mapSites ArmSite.inspect
      (inspectRuntime req.unitName req.plan.path req.what)).run o w).1 = .returned snapshot
  credential : (Prog.mapSites ArmSite.credential (checkCredential req)).run o w =
    (.returned ⟨⟩, prepared)
  walk : o .walk = .ok
  start : o .start = .ok

/-- The record can be removed wherever the call does it. -/
def RemovalSucceeds (o : DirSite → Outcome) (base : UnitName) (w : World) : Prop :=
  ∀ s, RuntimeChange base w s →
    ∃ t, (RuntimeFiles.removeAutomountId base).run o s = (.returned ⟨⟩, t)

/-- What `uniqueMountId` answers, zero when it fails. -/
def idRead (outcome : Outcome) (w : World) (path : QString) : UInt64 :=
  if outcome = .ok then w.sys.mountId path else 0

/-- The outcomes of a call that started its trigger. -/
def StartedOutcome (o : ArmSite → Outcome) (req : ArmShareRequest) : ArmShareResult → World → Prop
  | .armed, w => Armed req.unitName req.plan.path w
  | .alreadyArmed, _ => False
  | .needsAttention _ true, w =>
    Stopped req.unitName w ∧ w.file? .automountIds req.unitName.text = none
  | .needsAttention _ false, w =>
    w.sys.activeState req.unitName.automount = some (qs "active") ∧
      (idRead (o .startedId) w req.plan.path = 0 ∨
        idRead (o (.compensation .mountId)) w req.plan.path = 0)

section Rules

variable {host : Host} {base : UnitName} {path : QString} {w : World}

/-- A schedule without kills kills no operation on an entry. -/
theorem alive_openPrivateRoot_act {o : DirSite → Outcome} (halive : ∀ site, o site ≠ .killed)
    (root : PrivateRoot) (e : QString) (f : World → World) (w : World) :
    Prog.wp o (do openPrivateRoot root; Prog.act .entry e f) (fun _ _ => True) (fun _ _ => True)
      (fun _ => False) w := by
  have hact : ∀ {site : DirSite} {e : QString} {f : World → World} {v : World}
      {Q : PUnit → World → Prop}, (∀ t, Q ⟨⟩ t) →
      Prog.wp o (Prog.act site e f) Q (fun _ _ => True) (fun _ => False) v := by
    intro site e f v Q hQ
    rw [Prog.wp_act]
    cases hsite : o site with
    | ok => exact hQ _
    | failed applied => trivial
    | killed => exact absurd hsite (halive site)
  unfold openPrivateRoot openSystemRoot
  simp only [Prog.wp_bind, Prog.wp_look]
  apply hact
  intro opened
  apply hact
  intro made
  split
  · split_ifs
    · exact hact fun _ => trivial
    · trivial
  · trivial

theorem wp_removeAutomountId_succeeds {o : DirSite → Outcome} {s : World}
    {Q : PUnit → World → Prop} {E : QString → World → Prop} {C : World → Prop}
    (hremoved : RemovalSucceeds o base w) (hs : RuntimeChange base w s)
    (done : ∀ t, t.sys = s.sys → t.file? .automountIds base.text = none → Q ⟨⟩ t) :
    Prog.wp o (RuntimeFiles.removeAutomountId base) Q E C s := by
  obtain ⟨t, ht⟩ := hremoved s hs
  rw [Prog.wp_of_run ht]
  have hspec : Prog.wp o (RuntimeFiles.removeAutomountId base)
      (fun _ t => t.sys = s.sys ∧ t.file? .automountIds base.text = none) (fun _ _ => True)
      (fun _ => True) s := by
    apply wp_removeAutomountId
    · intro w' hquiet _
      exact ⟨(World.sys_dropFile _ _ _).trans hquiet.sys, World.file?_dropFile_self _ _ _⟩
    · exact fun _ _ _ _ => trivial
    · exact fun _ _ => trivial
  rw [Prog.wp_of_run ht] at hspec
  exact done t hspec.1 hspec.2

theorem wp_ask_mountId {ι : Type} {o : ι → Outcome} {site : ι} {s : World}
    {Q : UInt64 → World → Prop} {E : QString → World → Prop} {C : World → Prop}
    (halive : o site ≠ .killed) :
    Prog.wp o (Prog.ask site (fun w => w.sys.mountId path) 0) Q E C s ↔
      Q (idRead (o site) s path) s :=
  Prog.wp_ask_alive halive

/-- The compensation stops an instance it reads again, and no other. -/
theorem wp_stopStartedAutomount_exact {o : CompensationSite → Outcome} {s : World} {id : UInt64}
    {Q : QString × Bool → World → Prop} {E : QString → World → Prop} {C : World → Prop}
    (halive : o .mountId ≠ .killed) (hstop : o .stop = .ok)
    (hremoved : RemovalSucceeds (fun site => o (.record site)) base w)
    (hs : RuntimeChange base w s)
    (kept : id = 0 ∨ idRead (o .mountId) s path ≠ id → ∀ error, Q (error, false) s)
    (stopped : ∀ t, Stopped base t → t.file? .automountIds base.text = none → Q ([], true) t) :
    Prog.wp o (stopStartedAutomount host base path id) Q E C s := by
  unfold stopStartedAutomount
  split_ifs with hzero
  · exact kept (Or.inl hzero) _
  rw [Prog.wp_bind, wp_ask_mountId halive]
  split_ifs with hchanged
  · apply kept
    right
    rintro rfl
    exact hchanged.elim hzero fun hne => hne rfl
  rw [Prog.wp_bind, Prog.wp_attempt, SystemdOps.stop, Prog.wp_act, hstop]
  dsimp only
  rw [Prog.wp_bind, Prog.wp_attempt, Prog.wp_mapSites]
  apply wp_removeAutomountId_succeeds hremoved
    (hs.trans (runtimeChange_sys base s (host.stop base.automount s.sys)))
  intro t hsys hnone
  apply stopped t _ hnone
  rw [Stopped, hsys]
  exact host.stop_inactive base.automount s.sys

end Rules

section Outcome

variable {host : Host} {o : ArmSite → Outcome} {req : ArmShareRequest} {w prepared : World}
  {Q : ArmShareResult → World → Prop} {E : QString → World → Prop} {C : World → Prop}

/-- After its start the call has only the recording in front of it. -/
theorem wp_armShare_started (h : StartsTrigger o req w prepared) :
    Prog.wp o (armShare host req) Q E C w ↔
      Prog.wp o (recordStarted host req) Q E C
        { prepared with sys := host.start req.unitName.automount prepared.sys } := by
  obtain ⟨snapshot, hready, hinspected⟩ := h.inspected
  have hsame : ((Prog.mapSites ArmSite.inspect
      (inspectRuntime req.unitName req.plan.path req.what)).run o w).2 = w := by
    apply Prog.wp_state (P := fun t => t = w)
    rw [Prog.wp_mapSites]
    exact wp_inspectRuntime rfl fun _ _ => rfl
  unfold armShare
  rw [Prog.wp_bind, Prog.wp_of_run (Prod.ext hinspected hsame)]
  simp only [hready]
  rw [Prog.wp_bind, Prog.wp_attempt, Prog.wp_of_run h.credential]
  dsimp only
  rw [Prog.wp_bind, Prog.wp_attempt, Prog.wp_act, h.walk]
  dsimp only
  rw [Prog.wp_bind, Prog.wp_attempt, SystemdOps.start, Prog.wp_act, h.start]

theorem runtimeChange_prepared (h : StartsTrigger o req w prepared) :
    RuntimeChange req.unitName w prepared := by
  have hspec : Prog.wp o (Prog.mapSites ArmSite.credential (checkCredential req))
      (fun _ t => RuntimeChange req.unitName w t) (fun _ _ => True) (fun _ => True) w := by
    rw [Prog.wp_mapSites]
    exact wp_checkCredential (fun _ hquiet => hquiet.runtimeChange _) (fun _ _ _ => trivial)
      fun _ _ => trivial
  exact (Prog.wp_of_run h.credential).1 hspec

theorem wp_armFailed_started {s : World} {id : UInt64} {message : QString}
    (halive : ∀ site, o site ≠ .killed) (hstop : o (.compensation .stop) = .ok)
    (hremoved : RemovalSucceeds (fun site => o (.compensation (.record site))) req.unitName w)
    (hs : RuntimeChange req.unitName w s)
    (hactive : s.sys.activeState req.unitName.automount = some (qs "active"))
    (hid : id = idRead (o .startedId) s req.plan.path) :
    Prog.wp o (armFailed host req (some id) message true) (StartedOutcome o req)
      (fun _ _ => False) (fun _ => False) s := by
  unfold armFailed
  rw [Prog.wp_bind, Prog.wp_mapSites]
  apply wp_stopStartedAutomount_exact (halive _) hstop hremoved hs
  · intro hunknown error
    refine ⟨hactive, ?_⟩
    rcases hunknown with hzero | hne
    · exact Or.inl (hid ▸ hzero)
    · -- both reads that go through answer the same
      unfold idRead at hid hne ⊢
      split_ifs at hid hne ⊢ <;> simp_all
  · intro t hstopped hnone
    exact ⟨hstopped, hnone⟩

theorem wp_recordStarted_outcome {s : World} (halive : ∀ site, o site ≠ .killed)
    (hstop : o (.compensation .stop) = .ok)
    (hremoved : RemovalSucceeds (fun site => o (.compensation (.record site))) req.unitName w)
    (hs : RuntimeChange req.unitName w s)
    (hactive : s.sys.activeState req.unitName.automount = some (qs "active")) :
    Prog.wp o (recordStarted host req) (StartedOutcome o req) (fun _ _ => False)
      (fun _ => False) s := by
  unfold recordStarted
  rw [Prog.wp_bind, wp_ask_mountId (halive _)]
  split_ifs with hzero
  · exact wp_armFailed_started halive hstop hremoved hs hactive rfl
  have hread : idRead (o .startedId) s req.plan.path = s.sys.mountId req.plan.path := by
    unfold idRead at hzero ⊢
    split_ifs with hok
    · rfl
    · exact absurd (if_neg hok) hzero
  rw [Prog.wp_bind, Prog.wp_attempt, Prog.wp_mapSites]
  have hspec : Prog.wp (fun site => o (.record site))
      (RuntimeFiles.writeAutomountId req.unitName (idRead (o .startedId) s req.plan.path))
      (fun _ t => readRecordedAutomountId t req.unitName = idRead (o .startedId) s req.plan.path)
      (fun _ t => RuntimeChange req.unitName s t) (fun _ => True) s :=
    wp_writeAutomountId (fun _ _ _ h => h) (fun _ _ h => h) fun _ _ => trivial
  have hsys : Prog.wp (fun site => o (.record site))
      (RuntimeFiles.writeAutomountId req.unitName (idRead (o .startedId) s req.plan.path))
      (fun _ t => t.sys = s.sys) (fun _ t => t.sys = s.sys) (fun t => t.sys = s.sys) s := by
    apply keeps_openPrivateRoot_act (I := fun t => t.sys = s.sys) _ _ _ s rfl
    · exact fun _ _ hquiet h => hquiet.sys.trans h
    · exact fun _ h => (World.sys_putFile _ _ _ _).trans h
  have hends := alive_openPrivateRoot_act (fun site => halive (.record site)) .automountIds
    (qs "cannot install " ++ req.unitName.text ++ qs ": ") (fun t => t.putFile .automountIds
      req.unitName.text (number (idRead (o .startedId) s req.plan.path).toNat)) s
  refine Prog.wp_mono _ (Prog.wp_and _ (Prog.wp_and _ hspec hsys) hends) ?_ ?_ ?_
  · rintro ⟨⟩ t ⟨⟨hrecorded, hsame⟩, -⟩
    refine ⟨hsame ▸ hactive, ?_, ?_⟩
    · rw [hsame, ← hread]
      exact hzero
    · rw [hrecorded, hsame, hread]
  · rintro error t ⟨⟨hchange, hsame⟩, -⟩
    apply wp_armFailed_started halive hstop hremoved (hs.trans hchange) (hsame ▸ hactive)
    rw [idRead, idRead, hsame]
  · rintro t ⟨-, hdead⟩
    exact hdead

/-- A call whose start succeeded returns with the trigger recorded, or stopped
without a record, or else left to its definition because its instance could not
be identified. -/
theorem armShare_started_outcome (halive : ∀ site, o site ≠ .killed)
    (hstarts : StartsTrigger o req w prepared) (hstop : o (.compensation .stop) = .ok)
    (hremoved : RemovalSucceeds (fun site => o (.compensation (.record site))) req.unitName w) :
    ∃ result w', (armShare host req).run o w = (.returned result, w') ∧
      StartedOutcome o req result w' := by
  apply Prog.wp_returns
  rw [wp_armShare_started hstarts]
  apply wp_recordStarted_outcome halive hstop hremoved
  · exact (runtimeChange_prepared hstarts).trans (runtimeChange_sys _ _ _)
  · exact host.start_active _ _

theorem removalSucceeds_of_ready {base : UnitName} (hready : Ready .automountIds w) :
    RemovalSucceeds Prog.allOk base w := by
  intro s hs
  have hspec : Prog.wp Prog.allOk (RuntimeFiles.removeAutomountId base) (fun _ _ => True)
      (fun _ _ => False) (fun _ => False) s :=
    (wp_openPrivateRoot_act_allOk (hs.ready _ hready)).2 trivial
  obtain ⟨_, t, ht, -⟩ := Prog.wp_returns hspec
  exact ⟨t, ht⟩

end Outcome

/-- A guest share at `/mnt/nas` on a machine without definitions. -/
def guestRequest : ArmShareRequest where
  shareId := sampleId
  authentication := .guest
  plan := { path := qs "/mnt/nas", root := qs "/mnt", suffix := [qs "nas"] }
  unitName := ⟨qs "mnt-nas", isUnitName_nas⟩
  what := qs "//nas/data"

/-- One primitive fails, after its effect where it has one. -/
def failsOnly (failing site : ArmSite) : Outcome :=
  if site = failing then .failed true else .ok

theorem startsTrigger_guestRequest {failing : ArmSite}
    (hlate : failing = .startedId ∨ failing = .record .entry) :
    ∃ prepared, StartsTrigger (failsOnly failing) guestRequest World.blank prepared := by
  have hcredential : ((Prog.mapSites ArmSite.credential (checkCredential guestRequest)).run
      (failsOnly failing) World.blank).1 = .returned ⟨⟩ := by
    rcases hlate with rfl | rfl <;> decide +kernel
  obtain ⟨prepared, hprepared⟩ := Prog.run_of_ending hcredential
  refine ⟨prepared, ⟨{ automount := .inactive, mount := .absent }, by decide +kernel, ?_⟩,
    hprepared, ?_, ?_⟩
  all_goals rcases hlate with rfl | rfl <;> decide +kernel

theorem removalSucceeds_guestRequest {failing : ArmSite}
    (hlate : failing = .startedId ∨ failing = .record .entry) :
    RemovalSucceeds (fun site => failsOnly failing (.compensation (.record site)))
      guestRequest.unitName World.blank := by
  have hok : (fun site => failsOnly failing (.compensation (.record site))) = Prog.allOk := by
    funext site
    rcases hlate with rfl | rfl <;> simp [failsOnly, Prog.allOk]
  rw [hok]
  exact removalSucceeds_of_ready fun _ hdir => nomatch hdir

theorem armShare_started_outcome_sample :
    ∃ result w', (armShare sampleHost guestRequest).run (failsOnly (.record .entry)) World.blank =
      (.returned result, w') ∧
        StartedOutcome (failsOnly (.record .entry)) guestRequest result w' := by
  obtain ⟨prepared, hstarts⟩ := startsTrigger_guestRequest (Or.inr rfl)
  exact armShare_started_outcome (fun site => by unfold failsOnly; split_ifs <;> simp) hstarts
    (by decide) (removalSucceeds_guestRequest (Or.inr rfl))

/-- The id of the started instance is not read: the trigger stays active, without
a record. -/
theorem unidentified_trigger_stays :
    (∃ prepared, StartsTrigger (failsOnly .startedId) guestRequest World.blank prepared) ∧
      failsOnly .startedId (.compensation .stop) = .ok ∧
      RemovalSucceeds (fun site => failsOnly .startedId (.compensation (.record site)))
        guestRequest.unitName World.blank ∧
      ∃ error w', (armShare sampleHost guestRequest).run (failsOnly .startedId) World.blank =
          (.returned (.needsAttention error false), w') ∧
        w'.sys.activeState guestRequest.unitName.automount = some (qs "active") ∧
        w'.file? .automountIds guestRequest.unitName.text = none := by
  refine ⟨startsTrigger_guestRequest (Or.inl rfl), by decide,
    removalSucceeds_guestRequest (Or.inl rfl), ?_⟩
  have hresult : ((armShare sampleHost guestRequest).run (failsOnly .startedId) World.blank).1 =
      .returned (.needsAttention (qs "kernel does not support recording the instance id" ++
        qs "; compensation failed (could not identify the automount instance started by this call)")
        false) := by decide +kernel
  have hstate : ((armShare sampleHost guestRequest).run (failsOnly .startedId)
      World.blank).2.sys.activeState guestRequest.unitName.automount = some (qs "active") := by
    decide +kernel
  have hfile : ((armShare sampleHost guestRequest).run (failsOnly .startedId)
      World.blank).2.file? .automountIds guestRequest.unitName.text = none := by
    decide +kernel
  obtain ⟨w', hw'⟩ := Prog.run_of_ending hresult
  rw [hw'] at hstate hfile
  exact ⟨_, w', hw', hstate, hfile⟩

end NasMount.Root
