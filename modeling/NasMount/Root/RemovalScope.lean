import NasMount.Root.Remove

/-!
# What a removal reaches

A removal takes away the two halves of its definition, the credential of its id
and the record, and nothing else. It takes nothing away from a runtime that does
not pass the gate.
-/
namespace NasMount.Root

open NasMount.Foundation NasMount.Core QString

section Removal

variable {host : Host} {input : RemovalInput} {w w' w'' : World}

/-- Only the two halves and the credential of one removal may be gone. -/
structure Elsewhere (input : RemovalInput) (w w' : World) : Prop where
  unit? : ∀ key : UnitKey, key.base ≠ input.unitName → w'.unit? key = w.unit? key
  credential : ∀ name, name ≠ CredentialStore.fileNameFor input.shareId →
    w'.file? .credentials name = w.file? .credentials name

theorem Elsewhere.quiet (h : Elsewhere input w w') (hquiet : Quiet w' w'') :
    Elsewhere input w w'' where
  unit? key hkey := (hquiet.unit? key).trans (h.unit? key hkey)
  credential name hname := (hquiet.files _ name).trans (h.credential name hname)

theorem Elsewhere.dropUnit (h : Elsewhere input w w') (half : Half) :
    Elsewhere input w (w'.dropUnit ⟨input.unitName, half⟩) where
  unit? key hkey := by
    rw [World.unit?_dropUnit_ne _ fun heq => hkey (congrArg UnitKey.base heq)]
    exact h.unit? key hkey
  credential name hname := h.credential name hname

theorem Elsewhere.dropFile (h : Elsewhere input w w') {root : PrivateRoot} {gone : QString}
    (hgone : root = .credentials → gone = CredentialStore.fileNameFor input.shareId) :
    Elsewhere input w (w'.dropFile root gone) where
  unit? key hkey := by
    rw [World.unit?, World.units_dropFile]
    exact h.unit? key hkey
  credential name hname := by
    rw [World.file?_dropFile_ne]
    · exact h.credential name hname
    · by_cases hroot : root = .credentials
      · exact Or.inr fun heq => hname (heq.trans (hgone hroot))
      · exact Or.inl (Ne.symm hroot)

/-- A removal reaches nothing but its own definition. -/
theorem keeps_elsewhere : Prog.Keeps (Elsewhere input w) (remove host input) := by
  have hquiet : ∀ s s', Quiet s s' → Elsewhere input w s → Elsewhere input w s' :=
    fun _ _ hq h => h.quiet hq
  apply Prog.Keeps.bind (Prog.Keeps.mapSites (keeps_safeStop fun _ _ h => ⟨h.unit?, h.credential⟩))
  intro result
  cases result.refusal with
  | some error => exact Prog.keeps_raise _
  | none =>
    apply Prog.Keeps.bind (Prog.Keeps.mapSites
      (keeps_openPrivateRoot_act hquiet fun _ h => h.dropFile fun _ => rfl))
    intro _
    apply Prog.Keeps.bind (Prog.keeps_act fun _ h => h)
    intro _
    apply Prog.Keeps.bind
    · apply Prog.Keeps.bind (Prog.keeps_act fun _ h => h.dropUnit .mount)
      intro _
      exact Prog.keeps_act fun _ h => h.dropUnit .automount
    intro _
    have hrecords : PrivateRoot.automountIds ≠ .credentials := nofun
    apply Prog.Keeps.bind (Prog.Keeps.mapSites
      (keeps_openPrivateRoot_act hquiet fun _ h => h.dropFile fun hroot => absurd hroot hrecords))
    intro _
    exact Prog.keeps_act fun _ h => ⟨h.unit?, h.credential⟩

theorem refuses_eq_false {snap : RuntimeSnapshot} :
    (evaluateStopPrecheck snap).refuses = false ↔
      snap.mount ≠ .indeterminate ∧ snap.automount ≠ .indeterminate ∧
        (snap.mount = .present → snap.verification = .matched) ∧
        (snap.mount ≠ .present → snap.automount = .active → snap.activationTrust = .trusted) := by
  unfold evaluateStopPrecheck
  split_ifs <;> simp_all [StopPrecheck.refuses]
  tauto

/-- A gate that passes in spite of failing reads passes without them. -/
theorem stoppable_of_reads {base : UnitName} {mountPoint what : QString} {reads : RuntimeReads}
    (hreads : ReadsOf w base mountPoint reads)
    (h : (evaluateStopPrecheck (snapshotOf reads mountPoint what)).refuses = false) :
    stoppable w base mountPoint what = true := by
  obtain ⟨hmount, hautomount, hmatched, htrusted⟩ := refuses_eq_false.1 h
  have hstate : reads.automountState = w.sys.activeState base.automount := by
    apply hreads.automountState.resolve_left
    intro hnone
    simp [snapshotOf, hnone, automountAxis] at hautomount
  have hmounts : reads.mounts = w.sys.mounts := by
    apply hreads.mounts.resolve_left
    intro hnone
    simp [snapshotOf, mountAxes, hnone] at hmount
  have hmountState : reads.mountState = w.sys.activeState base.mount := by
    apply hreads.mountState.resolve_left
    intro hnone
    cases hentries : reads.mounts <;> simp [snapshotOf, mountAxes, hnone, hentries] at hmount
  have haxes : mountAxes reads mountPoint what =
      mountAxes (w.runtimeReads base mountPoint) mountPoint what := by
    simp only [mountAxes, hmounts, hmountState, World.runtimeReads]
  have haxis : automountAxis reads.automountState =
      automountAxis (w.runtimeReads base mountPoint).automountState := by
    rw [hstate]
    rfl
  rw [stoppable, Bool.not_eq_true', refuses_eq_false]
  simp only [snapshotOf, haxes, haxis] at hmount hautomount hmatched htrusted
  refine ⟨hmount, hautomount, hmatched, ?_⟩
  intro habsent hactive
  obtain ⟨hread, hrecorded, hsame⟩ := trustAxis_eq_trusted.1 (htrusted habsent hactive)
  have hrecord := hreads.recorded.resolve_left hrecorded
  have hcurrent := hreads.current.resolve_left (hsame ▸ hrecorded)
  rw [hstate] at hread
  rw [hrecord] at hrecorded
  rw [hrecord, hcurrent] at hsame
  exact trustAxis_eq_trusted.2 ⟨hread, hrecorded, hsame⟩

/-- A root that does not pass its check lets no operation through. -/
theorem wp_openPrivateRoot_act_refused {o : DirSite → Outcome} {root : PrivateRoot}
    {e : QString} {f : World → World} {Q : PUnit → World → Prop} {E : QString → World → Prop}
    {C : World → Prop} (hready : ¬Ready root w) (failed : ∀ e w', Quiet w w' → E e w')
    (dead : ∀ w', Quiet w w' → C w') :
    Prog.wp o (do openPrivateRoot root; Prog.act .entry e f) Q E C w := by
  have hsame := Quiet.refl w
  have hopen := quiet_ensureRoot w root
  obtain ⟨dir, hdir⟩ := w.root?_ensureRoot_self root
  unfold openPrivateRoot openSystemRoot
  rw [Prog.wp_bind, Prog.wp_bind]
  refine Prog.wp_act_intro ?_ (failed _ _ hsame) (failed _ _ hsame) (dead _ hsame)
  rw [Prog.wp_bind]
  refine Prog.wp_act_intro ?_ (failed _ _ hsame) (failed _ _ hopen) (dead _ hsame)
  simp only [Prog.wp_bind, Prog.wp_look, id, hdir]
  split_ifs with hverified
  · exact absurd (ready_of_ensureRoot hdir hverified) hready
  · exact failed _ _ hopen

/-- Nothing is removed while the gate refuses, or the credentials have no safe
root. -/
theorem wp_remove_refused {o : RemoveSite → Outcome}
    (h : ¬(stoppable w input.unitName input.mountPoint input.what = true ∧ Ready .credentials w)) :
    let same := fun w' : World => w'.units = w.units ∧
      ∀ name, w'.file? .credentials name = w.file? .credentials name
    Prog.wp o (remove host input) (fun _ => same) (fun _ => same) same w := by
  intro same
  have hsame : ∀ sys, same { w with sys := sys } := fun _ => ⟨rfl, fun _ => rfl⟩
  unfold remove safeStop
  rw [Prog.wp_bind, Prog.wp_mapSites, Prog.wp_bind, Prog.wp_mapSites]
  apply wp_inspectRuntime (hsame w.sys)
  intro reads hreads
  have hstop : ∀ error, Prog.wp o (Prog.raise error : Prog RemoveSite World QString PUnit)
      (fun _ => same) (fun _ => same) same w := fun _ => hsame w.sys
  have hartifacts : ¬Ready .credentials w → ∀ sys, Prog.wp o (removeArtifacts input)
      (fun _ => same) (fun _ => same) same { w with sys := sys } := by
    intro hready sys
    unfold removeArtifacts
    rw [Prog.wp_bind, Prog.wp_mapSites]
    have hquiet : ∀ w', Quiet { w with sys := sys } w' → same w' :=
      fun w' h => ⟨h.units, fun name => h.files _ name⟩
    exact wp_openPrivateRoot_act_refused hready (fun _ => hquiet) hquiet
  cases hgate : evaluateStopPrecheck (snapshotOf reads input.mountPoint input.what) with
  | indeterminate error => exact hstop error
  | correlationMismatch error => exact hstop error
  | alreadyInactive =>
    have hstoppable := stoppable_of_reads hreads (by rw [hgate]; rfl)
    exact hartifacts (fun hready => h ⟨hstoppable, hready⟩) w.sys
  | shouldStop =>
    have hstoppable := stoppable_of_reads hreads (by rw [hgate]; rfl)
    apply wp_stopBoth
    · exact fun _ => hartifacts (fun hready => h ⟨hstoppable, hready⟩) _
    · exact fun _ _ => hsame _
    · exact fun _ _ => hsame _

theorem unlinks_allOk
    (h : stoppable w input.unitName input.mountPoint input.what = true) (half : Half) :
    unlinks Prog.allOk input w half = true := by
  have hreach : reachesUnlinks Prog.allOk input w = true := by
    have hpasses := (stopPasses_allOk w input.unitName input.mountPoint input.what).trans h
    simp only [reachesUnlinks, Bool.and_eq_true, decide_eq_true_eq]
    exact ⟨⟨hpasses, rfl⟩, rfl⟩
  cases half <;> simp [unlinks, hreach, Prog.allOk, Outcome.effective]

end Removal

/-- The files of a unit name carry one marker, whoever reads them. -/
theorem ownedHalves_marker_unique {base : UnitName} {uid uid' : UInt32} {mp mp' : QString}
    {marker marker' : Marker} (h : OwnedHalves w base uid mp marker)
    (h' : OwnedHalves w base uid' mp' marker') : marker = marker' := by
  obtain ⟨half, hpresent⟩ := h.present
  obtain ⟨what, hvalid⟩ := (h.valid half).resolve_left hpresent
  obtain ⟨what', hvalid'⟩ := (h'.valid half).resolve_left hpresent
  obtain ⟨content, hprobe, hparse, -⟩ := probe_of_sideAt_valid hvalid
  obtain ⟨content', hprobe', hparse', -⟩ := probe_of_sideAt_valid hvalid'
  rw [hprobe, FileProbe.ok.injEq] at hprobe'
  subst hprobe'
  rw [hparse, Except.ok.injEq] at hparse'
  exact hparse'

end NasMount.Root
