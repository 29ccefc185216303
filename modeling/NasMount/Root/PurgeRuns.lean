import NasMount.Root.Purge

/-!
# What a purge leaves behind

A purge only removes things, so whatever it leaves passes the gate again. One
that returns has left nothing.
-/
namespace NasMount.Root

open NasMount.Foundation NasMount.Core QString

section Runs

variable {host : Host} {w w' : World} {uid : UInt32} {o : PurgeSite → Outcome}

/-- The private roots hold only artifacts of the program. -/
def OwnArtifacts (w : World) : Prop :=
  ∀ root, Ready root w ∧ ∀ name node, w.file? root name = some node →
    node.verified root.entryKind = true

/-- The state a purge of `w` can leave: unit files only go. -/
structure Thinned (w w' : World) : Prop where
  units : ∀ key, w'.unit? key = none ∨ w'.unit? key = w.unit? key
  dropIns : w'.dropIns = w.dropIns
  own : OwnArtifacts w → OwnArtifacts w'

theorem Thinned.refl (w : World) : Thinned w w := ⟨fun _ => Or.inr rfl, rfl, id⟩

theorem Thinned.quiet {v : World} (h : Thinned w w') (hquiet : Quiet w' v) : Thinned w v where
  units key := by
    rw [hquiet.unit?]
    exact h.units key
  dropIns := hquiet.dropIns.trans h.dropIns
  own hown root := by
    obtain ⟨hready, hfiles⟩ := h.own hown root
    refine ⟨hquiet.ready root hready, fun name node hnode => hfiles name node ?_⟩
    rwa [hquiet.files] at hnode

theorem Thinned.dropFile (h : Thinned w w') (root : PrivateRoot) (name : QString) :
    Thinned w (w'.dropFile root name) where
  units key := by
    rw [World.unit?_dropFile]
    exact h.units key
  dropIns := (World.dropIns_dropFile _ _ _).trans h.dropIns
  own hown other := by
    obtain ⟨hready, hfiles⟩ := h.own hown other
    refine ⟨ready_updateFiles hready, fun other' node hnode => hfiles other' node ?_⟩
    by_cases hsame : other = root ∧ other' = name
    · obtain ⟨rfl, rfl⟩ := hsame
      simp at hnode
    · rwa [World.file?_dropFile_ne _ _ (not_and_or.mp hsame)] at hnode

theorem Thinned.dropUnit (h : Thinned w w') (key : UnitKey) : Thinned w (w'.dropUnit key) where
  units other := by
    rw [World.unit?_dropUnit]
    split_ifs
    · exact Or.inl rfl
    · exact h.units other
  dropIns := h.dropIns
  own hown root := h.own hown root

theorem Thinned.reload (h : Thinned w w') : Thinned w w'.reload where
  units := h.units
  dropIns := h.dropIns
  own hown root := by
    obtain ⟨hready, hfiles⟩ := h.own hown root
    refine ⟨?_, fun name node hnode => hfiles name node (by rwa [World.file?_reload] at hnode)⟩
    cases root <;> exact hready

theorem Thinned.sys (h : Thinned w w') (sys : Sys) : Thinned w { w' with sys := sys } where
  units := h.units
  dropIns := h.dropIns
  own hown root := by
    obtain ⟨hready, hfiles⟩ := h.own hown root
    exact ⟨by cases root <;> exact hready, by cases root <;> exact hfiles⟩

theorem Thinned.removeRoot (h : Thinned w w') (root : PrivateRoot) :
    Thinned w (w'.setRoot root none) where
  units key := by
    rw [World.unit?, World.units_setRoot]
    exact h.units key
  dropIns := (World.dropIns_setRoot _ _ _).trans h.dropIns
  own hown other := by
    obtain ⟨hready, hfiles⟩ := h.own hown other
    by_cases hroot : other = root
    · subst hroot
      refine ⟨fun dir hdir => ?_, fun name node hnode => ?_⟩
      · rw [World.root?_setRoot_self] at hdir
        cases hdir
      · simp [World.file?] at hnode
    · have hsame := World.root?_setRoot_ne w' root hroot none
      refine ⟨fun dir hdir => hready dir (hsame ▸ hdir), fun name node hnode => hfiles name node ?_⟩
      rwa [World.file?, hsame] at hnode

theorem keeps_unlinkHalves {ι : Type} {site : Half → ι} {base : UnitName} :
    Prog.Keeps (Thinned w) (unlinkHalves site base) :=
  Prog.Keeps.bind (Prog.keeps_act fun _ h => h.dropUnit _) fun _ =>
    Prog.keeps_act fun _ h => h.dropUnit _

/-- Removing a private root keeps what the loss of its entries and of the root keeps. -/
theorem keeps_durableRemoveTree {I : World → Prop} (root : PrivateRoot)
    (hfile : ∀ s name, I s → I (s.dropFile root name))
    (hroot : ∀ s, I s → I (s.setRoot root none)) :
    Prog.Keeps I (durableRemoveTree root) := by
  have hentry : ∀ name, Prog.Keeps I (removeEntry root name) := by
    intro name
    refine Prog.Keeps.bind (Prog.keeps_look _) fun node => ?_
    cases node with
    | none => exact Prog.keeps_pure _
    | some node =>
      dsimp only
      split_ifs
      · exact Prog.keeps_raise _
      · exact Prog.keeps_act fun s h => hfile s _ h
      · exact Prog.keeps_raise _
  refine Prog.Keeps.bind (Prog.keeps_act fun _ h => h) fun _ => ?_
  refine Prog.Keeps.bind (Prog.keeps_look _) fun dir => ?_
  cases dir with
  | none => exact Prog.keeps_pure _
  | some dir =>
    dsimp only
    split_ifs
    · refine Prog.Keeps.bind (Prog.keeps_act fun _ h => h) fun _ => ?_
      exact Prog.Keeps.bind (Prog.keeps_forEach hentry _) fun _ => Prog.keeps_act hroot
    · exact Prog.keeps_raise _

theorem keeps_stopUnit (unit : ValidatedUnit) {I : World → Prop}
    (hsys : ∀ s sys, I s → I { s with sys := sys }) : Prog.Keeps I (stopUnit host unit) := by
  refine Prog.Keeps.bind (Prog.Keeps.mapSites (keeps_safeStop hsys)) fun result => ?_
  cases result.refusal with
  | none => exact Prog.keeps_pure _
  | some error => exact Prog.keeps_raise _

theorem keeps_purgeUnit (unit : ValidatedUnit) : Prog.Keeps (Thinned w) (purgeUnit unit) := by
  have hquiet : ∀ s s', Quiet s s' → Thinned w s → Thinned w s' := fun _ _ hq h => h.quiet hq
  refine Prog.Keeps.bind keeps_unlinkHalves fun _ => ?_
  refine Prog.Keeps.bind (Prog.Keeps.mapSites ?_) fun _ => Prog.Keeps.mapSites ?_
  · exact keeps_openPrivateRoot_act hquiet fun _ h => h.dropFile _ _
  · exact keeps_openPrivateRoot_act hquiet fun _ h => h.dropFile _ _

theorem keeps_removeRoots {I : World → Prop} (hfile : ∀ s root name, I s → I (s.dropFile root name))
    (hroot : ∀ s root, I s → I (s.setRoot root none)) : Prog.Keeps I removeRoots := by
  have htree : ∀ root, Prog.Keeps I (durableRemoveTree root) := fun root =>
    keeps_durableRemoveTree root (fun s => hfile s root) fun s => hroot s root
  refine Prog.Keeps.bind (Prog.keeps_act fun _ h => h) fun _ => ?_
  refine Prog.Keeps.bind (Prog.Keeps.mapSites (htree _)) fun _ => ?_
  refine Prog.Keeps.bind (Prog.keeps_act fun _ h => h) fun _ => ?_
  exact Prog.Keeps.bind (Prog.Keeps.mapSites (htree _)) fun _ => Prog.Keeps.mapSites (htree _)

/-- However a purge ends, it has only removed things. -/
theorem keeps_purge : Prog.Keeps (Thinned w) (purge host uid) := by
  refine Prog.Keeps.bind (Prog.keeps_look _) fun gate => ?_
  refine Prog.Keeps.bind ?_ fun targets => ?_
  · cases gate with
    | ok targets => exact Prog.keeps_pure _
    | error e => exact Prog.keeps_raise _
  refine Prog.Keeps.bind (Prog.keeps_forEach
    (fun unit => keeps_stopUnit unit fun _ _ h => h.sys _) _)
    fun _ => ?_
  refine Prog.Keeps.bind (Prog.keeps_act fun _ h => h) fun _ => ?_
  refine Prog.Keeps.bind (Prog.keeps_forEach keeps_purgeUnit _) fun _ => ?_
  refine Prog.Keeps.bind (Prog.keeps_act fun _ h => h.reload) fun _ => ?_
  exact Prog.Keeps.bind (keeps_removeRoots (fun _ root name h => h.dropFile root name)
    fun _ root h => h.removeRoot root) fun _ => Prog.keeps_pure _

/-- What a completed purge leaves. -/
structure Purged (w : World) : Prop where
  units : ∀ key, ¬Managed w key
  roots : ∀ root, w.root? root = none

/-- A managed file belongs to a definition the purge acts on. -/
theorem mem_targets_of_managed {targets : List ValidatedUnit}
    (h : purgeTargets host w uid = .ok targets) {key : UnitKey} (hmanaged : Managed w key) :
    ∃ unit ∈ targets, unit.unitName = key.base := by
  obtain ⟨-, hcandidate, hvalid⟩ := purgeTargets_eq_ok.mp h
  obtain ⟨hlisted, node, hnode, hmarker⟩ := hmanaged
  obtain ⟨-, hbase⟩ := hcandidate key hlisted node hnode hmarker
  obtain ⟨entry, hentry, hname⟩ := List.mem_map.mp hbase
  obtain ⟨unit, hunit, hvalidated⟩ := exists_of_forall₂_left hvalid hentry
  obtain ⟨-, -, -, -, -, -, hunitName, -⟩ := validateUnit_eq_ok.mp hvalidated
  exact ⟨unit, hunit, hunitName.trans hname⟩

/-- In the deletion loop, every managed file still there is one of the rest. -/
def Pending (w : World) (rest : List ValidatedUnit) (w' : World) : Prop :=
  ∀ key, w'.unit? key = none ∨
    w'.unit? key = w.unit? key ∧ (Managed w key → ∃ unit ∈ rest, unit.unitName = key.base)

theorem Pending.congr {rest : List ValidatedUnit} {v : World} (h : Pending w rest w')
    (hunits : v.units = w'.units) : Pending w rest v := by
  intro key
  rw [World.unit?, hunits]
  exact h key

theorem Pending.not_managed (h : Pending w [] w') (key : UnitKey) : ¬Managed w' key := by
  intro hmanaged
  rcases h key with hnone | ⟨hsame, hrest⟩
  · obtain ⟨-, node, hnode, -⟩ := hmanaged
    rw [hnone] at hnode
    cases hnode
  · obtain ⟨unit, hunit, -⟩ := hrest (managed_of_unit? hmanaged hsame)
    cases hunit

/-- One turn of the deletion loop. -/
theorem wp_purgeUnit_pending {unit : ValidatedUnit} {rest : List ValidatedUnit}
    (h : Pending w (unit :: rest) w') :
    Prog.wp o (purgeUnit unit) (fun _ => Pending w rest) (fun _ _ => True) (fun _ => True) w' := by
  have hgone : Pending w rest
      ((w'.dropUnit unit.unitName.mount).dropUnit unit.unitName.automount) := by
    intro key
    by_cases hbase : unit.unitName = key.base
    · left
      obtain ⟨base, half⟩ := key
      obtain rfl := hbase
      exact unit?_dropUnits w' _ half
    · have hne : ∀ half, key ≠ ⟨unit.unitName, half⟩ := fun half heq => hbase (heq ▸ rfl)
      have hkept : ((w'.dropUnit unit.unitName.mount).dropUnit unit.unitName.automount).unit? key =
          w'.unit? key :=
        (World.unit?_dropUnit_ne _ (hne .automount)).trans (World.unit?_dropUnit_ne _ (hne .mount))
      rw [hkept]
      refine (h key).imp_right fun ⟨hsame, hrest⟩ => ⟨hsame, fun hmanaged => ?_⟩
      obtain ⟨other, hother, hname⟩ := hrest hmanaged
      rcases List.mem_cons.mp hother with rfl | hother
      · exact absurd hname hbase
      · exact ⟨other, hother, hname⟩
  have hquiet : ∀ s s', Quiet s s' → Pending w rest s → Pending w rest s' := fun _ _ hq hs =>
    hs.congr hq.units
  have hrest : Prog.Keeps (Pending w rest) (do
      Prog.mapSites (PurgeSite.record unit.unitName) (RuntimeFiles.removeAutomountId unit.unitName)
      Prog.mapSites (.credential unit.unitName) (CredentialStore.remove unit.marker.id)) := by
    refine Prog.Keeps.bind (Prog.Keeps.mapSites ?_) fun _ => Prog.Keeps.mapSites ?_
    · exact keeps_openPrivateRoot_act hquiet fun _ hs => hs.congr (World.units_dropFile _ _ _)
    · exact keeps_openPrivateRoot_act hquiet fun _ hs => hs.congr (World.units_dropFile _ _ _)
  unfold purgeUnit unlinkHalves removeUnitFile
  rw [Prog.wp_bind, Prog.wp_bind]
  refine Prog.wp_act_intro ?_ trivial trivial trivial
  refine Prog.wp_act_intro ?_ trivial trivial trivial
  exact Prog.wp_mono _ (hrest o _ hgone) (fun _ _ hs => hs) (fun _ _ _ => trivial)
    fun _ _ => trivial

theorem root?_dropFile_ne (w : World) {root other : PrivateRoot} (h : other ≠ root)
    (name : QString) :
    (w.dropFile root name).root? other = w.root? other := by
  unfold World.dropFile World.updateFiles
  split
  · exact World.root?_setRoot_ne _ _ h _
  · rfl

/-- Removing a private root touches nothing else. -/
theorem wp_durableRemoveTree {root : PrivateRoot} {o : TreeSite → Outcome} :
    Prog.wp o (durableRemoveTree root)
      (fun _ w' => w'.root? root = none ∧ w'.units = w.units ∧
        ∀ other, other ≠ root → w'.root? other = w.root? other)
      (fun _ _ => True) (fun _ => True) w := by
  unfold durableRemoveTree
  rw [Prog.wp_bind]
  refine Prog.wp_act_intro ?_ trivial trivial trivial
  rw [Prog.wp_bind, Prog.wp_look]
  cases hdir : w.root? root with
  | none => exact ⟨hdir, rfl, fun _ _ => rfl⟩
  | some dir =>
    dsimp only
    split_ifs
    · rw [Prog.wp_bind]
      refine Prog.wp_act_intro ?_ trivial trivial trivial
      rw [Prog.wp_bind]
      refine Prog.wp_mono _ (Prog.wp_forEach
        (fun _ w' => w'.units = w.units ∧ ∀ other, other ≠ root → w'.root? other = w.root? other)
        (E := fun _ _ => True) (C := fun _ => True) (fun name _ w' h => ?_)
        ⟨rfl, fun _ _ => rfl⟩) (fun _ w' h => ?_) (fun _ _ _ => trivial) fun _ _ => trivial
      · rw [removeEntry, Prog.wp_bind, Prog.wp_look]
        cases w'.file? root name with
        | none => exact h
        | some node =>
          dsimp only
          split_ifs
          · trivial
          · refine Prog.wp_act_intro ⟨?_, fun other hother => ?_⟩ trivial trivial trivial
            · exact (World.units_dropFile _ _ _).trans h.1
            · exact (root?_dropFile_ne w' hother name).trans (h.2 other hother)
          · trivial
      · refine Prog.wp_act_intro ⟨World.root?_setRoot_self _ _ _, ?_, fun other hother => ?_⟩
          trivial trivial trivial
        · exact (World.units_setRoot _ _ _).trans h.1
        · exact (World.root?_setRoot_ne w' root hother none).trans (h.2 other hother)
    · trivial

theorem wp_removeRoots :
    Prog.wp o removeRoots (fun _ w' => w'.units = w.units ∧ ∀ root, w'.root? root = none)
      (fun _ _ => True) (fun _ => True) w := by
  have hnext : ∀ {root : PrivateRoot} {v : World} {Q : PUnit → World → Prop},
      (∀ v', v'.root? root = none → v'.units = v.units →
        (∀ other, other ≠ root → v'.root? other = v.root? other) → Q ⟨⟩ v') →
      Prog.wp (fun site => o (.tree root site)) (durableRemoveTree root) Q (fun _ _ => True)
        (fun _ => True) v := fun hdone =>
    Prog.wp_mono _ wp_durableRemoveTree (fun _ v' h => hdone v' h.1 h.2.1 h.2.2)
      (fun _ _ _ => trivial) fun _ _ => trivial
  unfold removeRoots openSystemRoot
  rw [Prog.wp_bind]
  refine Prog.wp_act_intro ?_ trivial trivial trivial
  rw [Prog.wp_bind, Prog.wp_mapSites]
  refine hnext fun v1 hcredentials hunits1 _ => ?_
  rw [Prog.wp_bind]
  refine Prog.wp_act_intro ?_ trivial trivial trivial
  rw [Prog.wp_bind, Prog.wp_mapSites]
  refine hnext fun v2 hids hunits2 hother2 => ?_
  rw [Prog.wp_mapSites]
  refine hnext fun v3 hruntime hunits3 hother3 =>
    ⟨(hunits3.trans hunits2).trans hunits1, fun root => ?_⟩
  cases root with
  | credentials =>
    exact (hother3 .credentials nofun).trans ((hother2 .credentials nofun).trans hcredentials)
  | automountIds => exact (hother3 .automountIds nofun).trans hids
  | runtime => exact hruntime

/-- A purge that returns has left nothing. -/
theorem wp_purge_purged :
    Prog.wp o (purge host uid) (fun _ => Purged) (fun _ _ => True) (fun _ => True) w := by
  unfold purge
  rw [Prog.wp_bind, Prog.wp_look, Prog.wp_bind, Prog.wp_ofExcept]
  refine ⟨fun targets htargets => ?_, fun _ _ => trivial⟩
  rw [Prog.wp_bind]
  have hstop : Prog.Keeps (fun v => v.units = w.units) (Prog.forEach targets (stopUnit host)) :=
    Prog.keeps_forEach (fun unit => keeps_stopUnit unit fun _ _ hs => hs) _
  refine Prog.wp_mono _ (hstop o w rfl) (fun _ v hv => ?_) (fun _ _ _ => trivial) fun _ _ => trivial
  rw [Prog.wp_bind]
  refine Prog.wp_act_intro ?_ trivial trivial trivial
  rw [Prog.wp_bind]
  have hpending : Pending w targets v := fun key =>
    Or.inr ⟨by rw [World.unit?, hv]; rfl, mem_targets_of_managed htargets⟩
  refine Prog.wp_mono _ (Prog.wp_forEach (Pending w) (E := fun _ _ => True) (C := fun _ => True)
    (fun _ _ _ h => wp_purgeUnit_pending h) hpending) (fun _ v1 h1 => ?_) (fun _ _ _ => trivial)
    fun _ _ => trivial
  rw [Prog.wp_bind]
  refine Prog.wp_act_intro ?_ trivial trivial trivial
  rw [Prog.wp_bind]
  refine Prog.wp_mono _ wp_removeRoots (fun _ v2 h2 => ?_) (fun _ _ _ => trivial) fun _ _ => trivial
  exact ⟨(h1.congr h2.1).not_managed, h2.2⟩

theorem purge_refused {e : QString} (h : purgeTargets host w uid = .error e) :
    (purge host uid).run o w = (.raised e, w) := by
  simp only [purge, Prog.run, bind, Prog.look, h, Prog.ofExcept, Prog.raise]

/-- The schedule in which one primitive of a purge fails without effect. -/
def purgeFailsAt (site : PurgeSite) : PurgeSite → Outcome :=
  fun other => if other = site then .failed false else .ok

end Runs

end NasMount.Root
