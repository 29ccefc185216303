import NasMount.Root.Define

/-!
# Removing a share

`remove` stops the runtime behind its gate, and then removes the credential, the
two unit halves and the instance record. A removal that was cut short is retried
through a fresh inspection of whatever is left.
-/
namespace NasMount.Root

open NasMount.Foundation NasMount.Core QString

structure RemovalInput where
  shareId : ShareId
  mountPoint : QString
  unitName : UnitName
  /-- The `What=` of the mount unit, for the correlation gate. -/
  what : QString
  deriving DecidableEq

inductive RemoveSite
  | stop (site : StopSite)
  | credential (site : DirSite)
  | openUnits
  | unlink (half : Half)
  | record (site : DirSite)
  | reload
  deriving DecidableEq

/-- Every artifact of a definition whose runtime is stopped. -/
def removeArtifacts (input : RemovalInput) : Prog RemoveSite World QString PUnit := do
  Prog.mapSites .credential (CredentialStore.remove input.shareId)
  openUnitsDir .openUnits
  unlinkHalves RemoveSite.unlink input.unitName
  Prog.mapSites .record (RuntimeFiles.removeAutomountId input.unitName)
  SystemdOps.daemonReload .reload

/-- A direct, checked removal. Nothing is removed from a runtime that does not
stop. -/
def remove (host : Host) (input : RemovalInput) : Prog RemoveSite World QString PUnit := do
  let result ← Prog.mapSites .stop (safeStop host input.unitName input.mountPoint input.what)
  match result.refusal with
  | some error => Prog.raise error
  | none => removeArtifacts input

/-- The authenticated user behind a request. -/
structure Caller where
  uid : UInt32
  gid : UInt32
  home : QString

/-- The first step of every action on a path. -/
def prepare (host : Host) (caller : Caller) (path : QString) :
    Except QString (MountpointPlan × UnitName) := do
  let plan ← validateMountpoint path caller.home
  match host.escape plan.path with
  | some base => return (plan, base)
  | none => .error (qs "systemd-escape failed: ")

/-- The removal of an owned definition. Its identity comes from the validated
marker. -/
def removalInput (base : UnitName) (mountPoint : QString) (check : DefinitionCheck) :
    Option RemovalInput :=
  if check.state.owned then
    check.marker.map fun marker =>
      { shareId := marker.id, mountPoint := mountPoint, unitName := base, what := check.what }
  else none

def undefineError (mountPoint : QString) (check : DefinitionCheck) : QString :=
  qs "cannot undefine " ++ mountPoint ++ qs ": " ++
    if check.detail = [] then qs "no definition owned by you exists" else check.detail

/-- The body of `undefinesystem`. -/
def doUndefine (host : Host) (caller : Caller) (path : QString) :
    Prog RemoveSite World QString PUnit := do
  let target ← Prog.ofExcept (prepare host caller path)
  let check ← Prog.look fun w => inspectDefinition w target.2 caller.uid target.1.path
  match removalInput target.2 target.1.path check with
  | none => Prog.raise (undefineError target.1.path check)
  | some input => remove host input

section Undefine

variable {host : Host} {caller : Caller} {path : QString} {plan : MountpointPlan} {base : UnitName}
  {o : RemoveSite → Outcome} {w : World}

theorem doUndefine_refused (hprepare : prepare host caller path = .ok (plan, base))
    (hnone : removalInput base plan.path (inspectDefinition w base caller.uid plan.path) = none) :
    (doUndefine host caller path).run o w =
      (.raised (undefineError plan.path (inspectDefinition w base caller.uid plan.path)), w) := by
  simp only [doUndefine, hprepare, Prog.ofExcept, Prog.run, bind, pure, Prog.look]
  rw [hnone]
  rfl

theorem doUndefine_remove (hprepare : prepare host caller path = .ok (plan, base))
    {input : RemovalInput}
    (hinput : removalInput base plan.path (inspectDefinition w base caller.uid plan.path) =
      some input) :
    (doUndefine host caller path).run o w = (remove host input).run o w := by
  simp only [doUndefine, hprepare, Prog.ofExcept, Prog.run, bind, pure, Prog.look]
  rw [hinput]

theorem removalInput_of_ownedHalves {uid : UInt32} {marker : Marker} {mp : QString}
    (h : OwnedHalves w base uid mp marker) :
    removalInput base mp (inspectDefinition w base uid mp) =
      some { shareId := marker.id, mountPoint := mp, unitName := base
             what := (sideAt w uid mp base.mount).what } := by
  obtain ⟨howned, hmarker⟩ := inspectDefinition_owned_iff.mpr h
  rw [removalInput, if_pos howned, hmarker, Option.map_some, inspectDefinition_what h]

/-- A definition that can be removed has owned halves, and they say what to remove. -/
theorem ownedHalves_of_removalInput {uid : UInt32} {mp : QString} {input : RemovalInput}
    (h : removalInput base mp (inspectDefinition w base uid mp) = some input) :
    ∃ marker, OwnedHalves w base uid mp marker ∧
      input = { shareId := marker.id, mountPoint := mp, unitName := base
                what := (sideAt w uid mp base.mount).what } := by
  have howned : (inspectDefinition w base uid mp).state.owned = true := by
    by_contra hno
    simp [removalInput, hno] at h
  obtain ⟨marker, -, hhalves⟩ := inspectDefinition_marker howned
  rw [removalInput_of_ownedHalves hhalves, Option.some.injEq] at h
  exact ⟨marker, hhalves, h.symm⟩

/-- Where no half is left, there is nothing to remove. -/
theorem removalInput_of_missing {uid : UInt32} {mp : QString}
    (hhalves : ∀ half, w.unit? ⟨base, half⟩ = none)
    (hdrop : ∀ half, w.dropIns ⟨base, half⟩ = false) :
    removalInput base mp (inspectDefinition w base uid mp) = none := by
  have hmount := probeUnitFile_eq_missing.mpr (hhalves .mount)
  have hautomount := probeUnitFile_eq_missing.mpr (hhalves .automount)
  have hstate : (inspectDefinition w base uid mp).state = .none := by
    have hdropMount : w.dropIns base.mount = false := hdrop .mount
    have hdropAutomount : w.dropIns base.automount = false := hdrop .automount
    unfold inspectDefinition
    simp only [UnitName.mount, UnitName.automount] at hdropMount hdropAutomount ⊢
    simp [hmount, hautomount, hdropMount, hdropAutomount]
  simp [removalInput, hstate, Definition.owned]

end Undefine

section Steps

variable {host : Host} {input : RemovalInput} {o : RemoveSite → Outcome} {w v v' : World}

/-- What a removal leaves alone before its first unlink. -/
structure Intact (w v : World) : Prop where
  units : v.units = w.units
  dropIns : v.dropIns = w.dropIns
  records : ∀ name, v.file? .automountIds name = w.file? .automountIds name
  ready : ∀ root, Ready root w → Ready root v

theorem Intact.quiet (h : Intact w v) (hquiet : Quiet v v') : Intact w v' where
  units := hquiet.units.trans h.units
  dropIns := hquiet.dropIns.trans h.dropIns
  records name := (hquiet.files _ name).trans (h.records name)
  ready root hr := hquiet.ready root (h.ready root hr)

theorem Intact.dropCredential (h : Intact w v) (name : QString) :
    Intact w (v.dropFile .credentials name) where
  units := (World.units_dropFile _ _ _).trans h.units
  dropIns := (World.dropIns_dropFile _ _ _).trans h.dropIns
  records _ := (World.file?_dropFile_ne _ _ (Or.inl credentials_ne_automountIds.symm)).trans
    (h.records _)
  ready root hr := ready_updateFiles (h.ready root hr)

/-- The removal gets to its unlinks under the schedule. -/
def reachesUnlinks (o : RemoveSite → Outcome) (input : RemovalInput) (w : World) : Bool :=
  stopPasses (fun site => o (.stop site)) w input.unitName input.mountPoint input.what &&
    entrySucceeds (fun site => o (.credential site)) && o .openUnits = .ok

/-- The unlink of one half takes effect under the schedule. -/
def unlinks (o : RemoveSite → Outcome) (input : RemovalInput) (w : World) : Half → Bool
  | .mount => reachesUnlinks o input w && (o (.unlink .mount)).effective
  | .automount => reachesUnlinks o input w && o (.unlink .mount) = .ok &&
      (o (.unlink .automount)).effective

/-- What is left after a removal, wherever it was cut short. -/
structure Left (host : Host) (o : RemoveSite → Outcome) (input : RemovalInput) (w v : World) :
    Prop where
  unit? : ∀ half, v.unit? ⟨input.unitName, half⟩ =
    if unlinks o input w half then none else w.unit? ⟨input.unitName, half⟩
  dropIns : v.dropIns = w.dropIns
  sys : v.sys = sysUnder host (fun site => o (.stop site)) w input.unitName input.mountPoint
    input.what
  record : unlinks o input w .automount = false →
    v.file? .automountIds input.unitName.text = w.file? .automountIds input.unitName.text
  ready : ∀ root, Ready root w → Ready root v

theorem Intact.left (h : Intact w v)
    (hsys : v.sys = sysUnder host (fun site => o (.stop site)) w input.unitName input.mountPoint
      input.what)
    (hnone : ∀ half, unlinks o input w half = false) : Left host o input w v where
  unit? half := by
    rw [hnone half, if_neg Bool.false_ne_true, World.unit?, h.units, World.unit?]
  dropIns := h.dropIns
  sys := hsys
  record _ := h.records _
  ready := h.ready

theorem unlinks_of_not_reaches (h : reachesUnlinks o input w = false) (half : Half) :
    unlinks o input w half = false := by
  cases half <;> simp [unlinks, h]

theorem Left.runtimeChange (h : Left host o input w v)
    (hchange : RuntimeChange input.unitName v v') (hsys : v'.sys = v.sys)
    (hunlinks : unlinks o input w .automount = true) : Left host o input w v' where
  unit? half := (hchange.unit? _).trans (h.unit? half)
  dropIns := hchange.dropIns.trans h.dropIns
  sys := hsys.trans h.sys
  record hfalse := absurd (hunlinks.symm.trans hfalse) nofun
  ready root hr := hchange.ready root (h.ready root hr)

/-- The part of a removal after its credential is gone. -/
theorem wp_unlinkHalves_left {E : QString → World → Prop} {C : World → Prop}
    {Q : PUnit → World → Prop} (h : Intact w v)
    (hmount : unlinks o input w .mount = (o (.unlink .mount)).effective)
    (hautomount : unlinks o input w .automount =
      (o (.unlink .mount) = .ok && (o (.unlink .automount)).effective))
    (hsys : v.sys = sysUnder host (fun site => o (.stop site)) w input.unitName input.mountPoint
      input.what)
    (done : unlinks o input w .automount = true →
      ∀ v', Left host o input w v' → Q ⟨⟩ v')
    (failed : ∀ e v', Left host o input w v' → E e v')
    (dead : ∀ v', Left host o input w v' → C v') :
    Prog.wp o (unlinkHalves RemoveSite.unlink input.unitName) Q E C v := by
  have hne : input.unitName.automount ≠ input.unitName.mount := by
    simp [UnitName.automount, UnitName.mount]
  have hnothing : (o (.unlink .mount)).effective = false → o (.unlink .mount) ≠ .ok →
      Left host o input w v := by
    intro heffect hok
    refine h.left hsys fun half => ?_
    cases half
    · rw [hmount, heffect]
    · rw [hautomount, decide_eq_false hok, Bool.false_and]
  have hfirst : (o (.unlink .mount)).effective = true →
      unlinks o input w .automount = false →
      Left host o input w (v.dropUnit input.unitName.mount) := by
    intro heffect hsecond
    refine ⟨fun half => ?_, h.dropIns, hsys, fun _ => h.records _, h.ready⟩
    cases half
    · rw [hmount, heffect, if_pos rfl]
      exact World.unit?_dropUnit_self v _
    · rw [hsecond, if_neg Bool.false_ne_true]
      exact (World.unit?_dropUnit_ne v hne).trans (by rw [World.unit?, h.units]; rfl)
  have hboth : (o (.unlink .mount)).effective = true → unlinks o input w .automount = true →
      Left host o input w ((v.dropUnit input.unitName.mount).dropUnit
        input.unitName.automount) := by
    intro heffect hsecond
    refine ⟨fun half => ?_, h.dropIns, hsys, fun _ => h.records _, h.ready⟩
    cases half
    · rw [hmount, heffect, if_pos rfl]
      exact (World.unit?_dropUnit_ne _ hne.symm).trans (World.unit?_dropUnit_self v _)
    · rw [hsecond, if_pos rfl]
      exact World.unit?_dropUnit_self _ _
  unfold unlinkHalves removeUnitFile
  simp only [Prog.wp_bind, Prog.wp_act]
  cases hm : o (.unlink .mount) with
  | killed => exact dead _ (hnothing (by simp [hm, Outcome.effective]) (by simp [hm]))
  | failed applied =>
    have hsecond : unlinks o input w .automount = false := by simp [hautomount, hm]
    cases applied
    · exact failed _ _ (hnothing (by simp [hm, Outcome.effective]) (by simp [hm]))
    · exact failed _ _ (hfirst (by simp [hm, Outcome.effective]) hsecond)
  | ok =>
    have heffect : (o (.unlink .mount)).effective = true := by simp [hm, Outcome.effective]
    have hsecond : unlinks o input w .automount = (o (.unlink .automount)).effective := by
      simp [hautomount, hm]
    cases ha : o (.unlink .automount) with
    | killed => exact dead _ (hfirst heffect (by simp [hsecond, ha, Outcome.effective]))
    | failed applied =>
      cases applied
      · exact failed _ _ (hfirst heffect (by simp [hsecond, ha, Outcome.effective]))
      · exact failed _ _ (hboth heffect (by simp [hsecond, ha, Outcome.effective]))
    | ok =>
      have hgone : unlinks o input w .automount = true := by simp [hsecond, ha, Outcome.effective]
      exact done hgone _ (hboth heffect hgone)

/-- Where the removal is cut short is known from the schedule. -/
theorem wp_remove_left (hready : Ready .credentials w) :
    Prog.wp o (remove host input) (fun _ => Left host o input w) (fun _ => Left host o input w)
      (Left host o input w) w := by
  unfold remove
  rw [Prog.wp_bind, Prog.wp_mapSites]
  have hintact : ∀ sys, Intact w { w with sys := sys } := fun _ =>
    ⟨rfl, rfl, fun _ => rfl, fun _ h => h⟩
  have hstopped := hintact (sysUnder host (fun site => o (.stop site)) w input.unitName
    input.mountPoint input.what)
  have hearly : ∀ {v}, Intact w v → v.sys = sysUnder host (fun site => o (.stop site)) w
      input.unitName input.mountPoint input.what → reachesUnlinks o input w = false →
      Left host o input w v := fun h hsys hreach => h.left hsys (unlinks_of_not_reaches hreach)
  refine wp_safeStop (fun hpasses result hresult => ?_) (fun hpasses result error hresult => ?_)
    fun hpasses _ => hearly hstopped rfl (by simp [reachesUnlinks, hpasses])
  · rw [hresult]
    dsimp only
    unfold removeArtifacts
    rw [Prog.wp_bind, Prog.wp_mapSites]
    refine wp_openPrivateRoot_act_ready hready (fun hentry v hquiet _ => ?_) ?_ ?_ ?_
    · have hgone := (hstopped.quiet hquiet).dropCredential
        (CredentialStore.fileNameFor input.shareId)
      have hsys := (World.sys_dropFile v .credentials
        (CredentialStore.fileNameFor input.shareId)).trans hquiet.sys
      rw [Prog.wp_bind, openUnitsDir, openSystemRoot, Prog.wp_act]
      cases hopen : o .openUnits with
      | killed => exact hearly hgone hsys (by simp [reachesUnlinks, hopen])
      | failed applied =>
        cases applied <;> exact hearly hgone hsys (by simp [reachesUnlinks, hopen])
      | ok =>
        have hreach : reachesUnlinks o input w = true := by
          simp [reachesUnlinks, hpasses, hentry, hopen]
        rw [Prog.wp_bind]
        refine wp_unlinkHalves_left hgone (by simp [unlinks, hreach])
          (by simp [unlinks, hreach]) hsys (fun hunlinks v1 h1 => ?_) (fun _ _ h => h) fun _ h => h
        have hrecord : ∀ v2, Quiet v1 v2 → Left host o input w v2 := fun v2 hquiet =>
          h1.runtimeChange (hquiet.runtimeChange _) hquiet.sys hunlinks
        have hlast : ∀ v2, Left host o input w v2 →
            Prog.wp o (SystemdOps.daemonReload RemoveSite.reload) (fun _ => Left host o input w)
              (fun _ => Left host o input w) (Left host o input w) v2 := by
          intro v2 h2
          have hreload : Left host o input w v2.reload :=
            ⟨h2.unit?, h2.dropIns, h2.sys, h2.record, h2.ready⟩
          exact Prog.wp_act_intro hreload h2 hreload h2
        rw [Prog.wp_bind, Prog.wp_mapSites]
        refine wp_removeAutomountId (fun v2 hquiet _ => hlast _ ?_) (fun e v2 hchange hsys2 => ?_)
          hrecord
        · exact (hrecord v2 hquiet).runtimeChange (runtimeChange_dropRecord _ v2)
            (World.sys_dropFile _ _ _) hunlinks
        · exact h1.runtimeChange hchange hsys2 hunlinks
    · exact fun hentry _ v hquiet => hearly (hstopped.quiet hquiet) hquiet.sys
        (by simp [reachesUnlinks, hentry])
    · exact fun hentry _ v hquiet _ => hearly ((hstopped.quiet hquiet).dropCredential _)
        ((World.sys_dropFile _ _ _).trans hquiet.sys) (by simp [reachesUnlinks, hentry])
    · exact fun hentry v hquiet => hearly (hstopped.quiet hquiet) hquiet.sys
        (by simp [reachesUnlinks, hentry])
  · rw [hresult]
    exact hearly hstopped rfl (by simp [reachesUnlinks, hpasses])

/-- What a completed removal leaves. -/
structure Removed (base : UnitName) (shareId : ShareId) (w : World) : Prop where
  halves : ∀ half, w.unit? ⟨base, half⟩ = none
  credential : w.file? .credentials (CredentialStore.fileNameFor shareId) = none
  record : w.file? .automountIds base.text = none
  /-- The daemon has read the unit directory since its last change. -/
  reloaded : w.loaded = w.units

/-- The gate lets the runtime of a definition be stopped. -/
def stoppable (w : World) (base : UnitName) (mountPoint what : QString) : Bool :=
  !(evaluateStopPrecheck (runtimeSnapshot w base mountPoint what)).refuses

theorem stopPasses_allOk (w : World) (base : UnitName) (mountPoint what : QString) :
    stopPasses Prog.allOk w base mountPoint what = stoppable w base mountPoint what := by
  have hdecision : stopDecision Prog.allOk w base mountPoint what =
      some (evaluateStopPrecheck (runtimeSnapshot w base mountPoint what)) := rfl
  rw [stopPasses, hdecision, stoppable]
  cases evaluateStopPrecheck (runtimeSnapshot w base mountPoint what) <;> rfl

theorem wp_unlinkHalves_allOk {ι : Type} {site : Half → ι} {base : UnitName}
    {Q : PUnit → World → Prop} {E : QString → World → Prop} {C : World → Prop} :
    Prog.wp Prog.allOk (unlinkHalves site base) Q E C w ↔
      Q ⟨⟩ ((w.dropUnit base.mount).dropUnit base.automount) := by
  rw [unlinkHalves, Prog.wp_bind, removeUnitFile, Prog.wp_act_allOk, removeUnitFile,
    Prog.wp_act_allOk]

theorem unit?_dropUnits (w : World) (base : UnitName) (half : Half) :
    ((w.dropUnit base.mount).dropUnit base.automount).unit? ⟨base, half⟩ = none := by
  cases half with
  | automount => exact World.unit?_dropUnit_self _ base.automount
  | mount =>
    have hne : base.mount ≠ base.automount := by simp [UnitName.automount, UnitName.mount]
    exact (World.unit?_dropUnit_ne _ hne).trans (World.unit?_dropUnit_self w base.mount)

theorem wp_removeArtifacts_allOk (hcredentials : Ready .credentials w)
    (hrecords : Ready .automountIds w) :
    Prog.wp Prog.allOk (removeArtifacts input) (fun _ => Removed input.unitName input.shareId)
      (fun _ _ => False) (fun _ => False) w := by
  unfold removeArtifacts
  rw [Prog.wp_bind, Prog.wp_mapSites_allOk]
  refine (wp_openPrivateRoot_act_allOk hcredentials).mpr ?_
  rw [Prog.wp_bind, openUnitsDir, openSystemRoot, Prog.wp_act_allOk, Prog.wp_bind,
    wp_unlinkHalves_allOk, Prog.wp_bind, Prog.wp_mapSites_allOk]
  refine (wp_openPrivateRoot_act_allOk ?_).mpr ?_
  · exact ready_updateFiles ((quiet_ensureRoot w .credentials).ready _ hrecords)
  rw [SystemdOps.daemonReload, Prog.wp_act_allOk]
  refine ⟨fun half => ?_, ?_, ?_, rfl⟩
  · rw [World.unit?_reload, World.unit?_dropFile, World.unit?_ensureRoot]
    exact unit?_dropUnits _ _ half
  · rw [World.file?_reload, World.file?_dropFile_ne _ _ (Or.inl credentials_ne_automountIds),
      World.file?_ensureRoot, World.file?_dropUnit, World.file?_dropUnit]
    exact World.file?_dropFile_self _ _ _
  · rw [World.file?_reload]
    exact World.file?_dropFile_self _ _ _

/-- A removal whose every primitive succeeds, from a runtime that stops. -/
theorem wp_remove_allOk (hcredentials : Ready .credentials w) (hrecords : Ready .automountIds w)
    (hstop : stoppable w input.unitName input.mountPoint input.what = true) :
    Prog.wp Prog.allOk (remove host input) (fun _ => Removed input.unitName input.shareId)
      (fun _ _ => False) (fun _ => False) w := by
  rw [← stopPasses_allOk] at hstop
  unfold remove
  rw [Prog.wp_bind, Prog.wp_mapSites_allOk]
  refine wp_safeStop (fun _ result hresult => ?_) (fun h => absurd (hstop.symm.trans h) nofun)
    fun h => absurd (hstop.symm.trans h) nofun
  rw [hresult]
  exact wp_removeArtifacts_allOk hcredentials hrecords

/-- A removal of a runtime that does not stop fails. -/
theorem wp_remove_unstoppable
    (hstop : stoppable w input.unitName input.mountPoint input.what = false) :
    Prog.wp Prog.allOk (remove host input) (fun _ _ => False) (fun _ _ => True)
      (fun _ => False) w := by
  rw [← stopPasses_allOk] at hstop
  unfold remove
  rw [Prog.wp_bind, Prog.wp_mapSites_allOk]
  refine wp_safeStop (fun h => absurd (hstop.symm.trans h) nofun) (fun _ result error hresult => ?_)
    fun _ ⟨_, hkilled⟩ => nomatch hkilled
  rw [hresult]
  trivial

end Steps

section Retry

variable {host : Host} {caller : Caller} {path : QString} {plan : MountpointPlan} {base : UnitName}
  {input : RemovalInput} {w v : World}

/-- Some half is still on disk after the removal was cut short. -/
def halfLeft (o : RemoveSite → Outcome) (input : RemovalInput) (w : World) : Bool :=
  [Half.mount, .automount].any fun half =>
    (w.unit? ⟨input.unitName, half⟩).isSome && !unlinks o input w half

/-- The automount half goes last. -/
theorem unlinks_automount_eq_false {o : RemoveSite → Outcome} {half : Half}
    (h : unlinks o input w half = false) : unlinks o input w .automount = false := by
  cases half with
  | automount => exact h
  | mount =>
    by_contra hautomount
    simp only [unlinks, Bool.not_eq_false, Bool.and_eq_true, decide_eq_true_eq] at hautomount
    simp [unlinks, hautomount, Outcome.effective] at h

/-- The `What=` a second inspection finds: only the mount unit has one. -/
def whatLeft (o : RemoveSite → Outcome) (input : RemovalInput) (w : World) : QString :=
  if unlinks o input w .mount then [] else input.what

/-- A retry can finish the removal: a half is left to recognise it by, and the
runtime left by the stops that took effect still passes the gate. -/
def retryCompletes (host : Host) (o : RemoveSite → Outcome) (input : RemovalInput) (w : World) :
    Bool :=
  halfLeft o input w &&
    stoppable
      { w with
        sys := sysUnder host (fun site => o (.stop site)) w input.unitName input.mountPoint
          input.what }
      input.unitName input.mountPoint (whatLeft o input w)

theorem halfLeft_iff {o : RemoveSite → Outcome} : halfLeft o input w = true ↔
    ∃ half, w.unit? ⟨input.unitName, half⟩ ≠ none ∧ unlinks o input w half = false := by
  simp only [halfLeft, List.any_cons, List.any_nil, Bool.or_false, Bool.or_eq_true,
    Bool.and_eq_true, Bool.not_eq_true', Option.isSome_iff_ne_none]
  constructor
  · rintro (h | h)
    · exact ⟨_, h⟩
    · exact ⟨_, h⟩
  · rintro ⟨half, h⟩
    cases half
    · exact Or.inl h
    · exact Or.inr h

/-- The gate reads the runtime and the record of the unit, and nothing else. -/
theorem stoppable_congr
    (hrecord : v.file? .automountIds base.text = w.file? .automountIds base.text)
    (mountPoint what : QString) :
    stoppable v base mountPoint what = stoppable { w with sys := v.sys } base mountPoint what := by
  have hreads : v.runtimeReads base mountPoint =
      World.runtimeReads { w with sys := v.sys } base mountPoint := by
    have hfile : World.file? { w with sys := v.sys } .automountIds base.text =
        w.file? .automountIds base.text := rfl
    simp only [World.runtimeReads, readRecordedAutomountId, hfile, hrecord]
  rw [stoppable, stoppable, runtimeSnapshot, runtimeSnapshot, hreads]

/-- What a second inspection finds after a removal was cut short. -/
theorem Left.removalInput {o : RemoveSite → Outcome} {uid : UInt32} {mp : QString}
    (h : Left host o input w v)
    (hinput : removalInput base mp (inspectDefinition w base uid mp) = some input) :
    removalInput base mp (inspectDefinition v base uid mp) =
      if halfLeft o input w then some { input with what := whatLeft o input w } else none := by
  obtain ⟨marker, hhalves, heq⟩ := ownedHalves_of_removalInput hinput
  obtain rfl : input.unitName = base := by rw [heq]
  split_ifs with hleft
  · obtain ⟨half, hpresent, hkept⟩ := halfLeft_iff.mp hleft
    have howned : OwnedHalves v input.unitName uid mp marker := by
      refine hhalves.of_fewer h.dropIns (fun half => ?_) ⟨half, ?_⟩
      · rw [h.unit? half]
        split_ifs
        · exact Or.inl rfl
        · exact Or.inr rfl
      · rw [h.unit? half, hkept, if_neg Bool.false_ne_true]
        exact hpresent
    have hwhat : (sideAt v uid mp input.unitName.mount).what = whatLeft o input w := by
      have hside : v.unit? input.unitName.mount = _ := h.unit? .mount
      unfold whatLeft
      split_ifs at hside ⊢ with hmount
      · rw [sideAt_eq_notPresent.mpr hside]
        rfl
      · rw [sideAt_congr hside]
        exact (congrArg RemovalInput.what heq).symm
    rw [removalInput_of_ownedHalves howned, hwhat]
    generalize whatLeft o input w = what
    rw [heq]
  · refine removalInput_of_missing (fun half => ?_) fun half => ?_
    · rw [h.unit? half]
      split_ifs with hunlinks
      · rfl
      · by_contra hpresent
        exact hleft (halfLeft_iff.mpr ⟨half, hpresent, Bool.eq_false_iff.mpr hunlinks⟩)
    · rw [h.dropIns]
      exact hhalves.noDropIn half

/-- A removal that was cut short is finished by a retry exactly when a half was
left and the runtime still passes the gate. -/
theorem undefine_retry_iff (hprepare : prepare host caller path = .ok (plan, base))
    (hinput : removalInput base plan.path (inspectDefinition w base caller.uid plan.path) =
      some input)
    (hcredentials : Ready .credentials w) (hrecords : Ready .automountIds w)
    (o : RemoveSite → Outcome) :
    (∃ w', (doUndefine host caller path).run Prog.allOk ((doUndefine host caller path).run o w).2 =
        (.returned ⟨⟩, w') ∧ Removed base input.shareId w') ↔
      retryCompletes host o input w = true := by
  obtain ⟨rfl, hpath⟩ : input.unitName = base ∧ input.mountPoint = plan.path := by
    obtain ⟨marker, -, rfl⟩ := ownedHalves_of_removalInput hinput
    exact ⟨rfl, rfl⟩
  rw [doUndefine_remove hprepare hinput]
  have hleft : Left host o input w ((remove host input).run o w).2 :=
    Prog.wp_state (wp_remove_left hcredentials)
  generalize ((remove host input).run o w).2 = v at hleft
  have hsecond := hleft.removalInput hinput
  by_cases hhalf : halfLeft o input w = true
  · rw [if_pos hhalf] at hsecond
    rw [doUndefine_remove hprepare hsecond]
    have hstop : stoppable v input.unitName input.mountPoint (whatLeft o input w) =
        retryCompletes host o input w := by
      obtain ⟨half, -, hkept⟩ := halfLeft_iff.mp hhalf
      rw [retryCompletes, hhalf, Bool.true_and, ← hleft.sys]
      exact stoppable_congr (hleft.record (unlinks_automount_eq_false hkept)) _ _
    rw [← hstop]
    constructor
    · rintro ⟨w', hrun, -⟩
      by_contra hrefuse
      have hfails : Prog.wp Prog.allOk (remove host { input with what := whatLeft o input w })
          (fun _ _ => False) (fun _ _ => True) (fun _ => False) v :=
        wp_remove_unstoppable (Bool.eq_false_iff.mpr hrefuse)
      exact ((Prog.wp_iff _).mp hfails).1 _ _ hrun
    · intro hstops
      have hsucceeds : Prog.wp Prog.allOk (remove host { input with what := whatLeft o input w })
          (fun _ => Removed input.unitName input.shareId) (fun _ _ => False) (fun _ => False) v :=
        wp_remove_allOk (hleft.ready _ hcredentials) (hleft.ready _ hrecords) hstops
      obtain ⟨_, w', hrun, hremoved⟩ := Prog.wp_returns hsucceeds
      exact ⟨w', hrun, hremoved⟩
  · rw [if_neg hhalf] at hsecond
    rw [doUndefine_refused hprepare hsecond, retryCompletes, Bool.eq_false_iff.mpr hhalf,
      Bool.false_and]
    exact ⟨fun ⟨_, hrun, _⟩ => (nomatch congrArg Prod.fst hrun), fun h => (nomatch h)⟩

/-- The machine after the sample share was added. -/
def sampleWorld : World :=
  ((define sampleHost (fun n => (0, n.toUInt64)) sampleInput).run Prog.allOk World.blank).2

def sampleCaller : Caller where
  uid := 1000
  gid := 1000
  home := qs "/home/ann"

/-- The schedule in which one primitive fails without effect. -/
def failsAt (site : RemoveSite) : RemoveSite → Outcome :=
  fun other => if other = site then .failed false else .ok

def sampleRemoval : RemovalInput where
  shareId := candidateId (0, 7)
  mountPoint := sampleInput.mountPoint
  unitName := sampleInput.unitName
  what := sampleInput.unc

theorem prepare_sample : prepare sampleHost sampleCaller (qs "/mnt/nas") =
    .ok (sampleInput.mountPlan, sampleInput.unitName) := by decide +kernel

theorem removalInput_sample :
    removalInput sampleInput.unitName sampleInput.mountPlan.path
      (inspectDefinition sampleWorld sampleInput.unitName sampleCaller.uid
        sampleInput.mountPlan.path) = some sampleRemoval := by decide +kernel

/-- Removing the credential fails at first. -/
theorem undefine_retry_sample :
    ∃ w', (doUndefine sampleHost sampleCaller (qs "/mnt/nas")).run Prog.allOk
        ((doUndefine sampleHost sampleCaller (qs "/mnt/nas")).run
          (failsAt (.credential .entry)) sampleWorld).2 = (.returned ⟨⟩, w') ∧
      Removed sampleInput.unitName sampleRemoval.shareId w' := by
  have hready : ∀ root, Ready root sampleWorld := fun root => by
    rw [ready_iff]
    cases root <;> decide +kernel
  exact (undefine_retry_iff prepare_sample removalInput_sample (hready _) (hready _) _).mpr
    (by decide +kernel)

/-- The daemon cannot be reloaded at first: the retry finds no definition. -/
theorem undefine_retry_lost :
    (inspectDefinition sampleWorld sampleInput.unitName 1000 (qs "/mnt/nas")).state = .pair ∧
      stoppable sampleWorld sampleInput.unitName (qs "/mnt/nas") (qs "//nas/data") = true ∧
      ((doUndefine sampleHost sampleCaller (qs "/mnt/nas")).run (failsAt .reload) sampleWorld).1 =
        .raised (qs "daemon-reload failed: ") ∧
      ((doUndefine sampleHost sampleCaller (qs "/mnt/nas")).run Prog.allOk
        ((doUndefine sampleHost sampleCaller (qs "/mnt/nas")).run (failsAt .reload)
          sampleWorld).2).1 =
        .raised (qs "cannot undefine /mnt/nas: no definition owned by you exists") := by
  decide +kernel

end Retry

end NasMount.Root
