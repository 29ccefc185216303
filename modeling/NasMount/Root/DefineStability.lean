import NasMount.Root.ArmStability
import NasMount.Root.UnitChanges

/-!
# What a definition keeps

The changes that a `definesystem` call can make, as closure conditions on a
property of the machine. Before its walk has gone through the call makes none,
and afterwards all of them are about one unit name and one fresh id.
-/
namespace NasMount.Root

open NasMount.Foundation NasMount.Core QString

/-- The content that the definition generates for a half. -/
def DefineInput.Builds (input : DefineInput) (shareId : ShareId) (half : Half) (content : QString) :
    Prop :=
  ∃ contents, input.contents shareId = .ok contents ∧
    content = match half with
      | .mount => contents.1
      | .automount => contents.2

/-- Every change that defining the share under the id can make keeps the property. -/
structure DefineStable (host : Host) (input : DefineInput) (shareId : ShareId) (I : World → Prop) :
    Prop extends ArmStable host input.unitName I where
  half : ∀ s half content, input.Builds shareId half content → I s →
    I (s.putUnit ⟨input.unitName, half⟩ content)
  dropHalf : ∀ s half, I s → I (s.dropUnit ⟨input.unitName, half⟩)
  secret : ∀ s content, I s →
    I (s.putFile .credentials (CredentialStore.fileNameFor shareId) content)
  dropSecret : ∀ s, I s → I (s.dropFile .credentials (CredentialStore.fileNameFor shareId))
  reload : ∀ s, I s → I s.reload

section Stable

variable {α : Type} {host : Host} {draws : ℕ → UInt64 × UInt64} {input : DefineInput}
  {shareId : ShareId} {I : World → Prop} {w : World}

theorem keeps_plainly {step : Prog DefineSite World QString α} (h : Prog.Keeps I step) :
    Prog.Keeps I (plainly step) := fun o s hs => wp_plainly.2 (h o s hs)

theorem keeps_plainly_ofExcept {β : Type} {x : Except QString β}
    {rest : β → Prog DefineSite World DefineError α} (h : ∀ b, x = .ok b → Prog.Keeps I (rest b)) :
    Prog.Keeps I (plainly (Prog.ofExcept x) >>= rest) := by
  intro o s hs
  rw [Prog.wp_bind, wp_plainly, Prog.wp_ofExcept]
  exact ⟨fun b hb => h b hb o s hs, fun _ _ => hs⟩

namespace DefineStable

variable (h : DefineStable host input shareId I)

include h

theorem keeps_cleanup (may : MayExist) : Prog.Keeps I (cleanup input.unitName shareId may) := by
  apply Prog.Keeps.bind
  · apply keeps_guarded
    apply keeps_noted
    exact Prog.Keeps.mapSites (keeps_openPrivateRoot_act h.quiet h.dropSecret)
  intro credentialNotes
  apply Prog.Keeps.bind
  · apply keeps_guarded
    apply Prog.Keeps.bind (Prog.Keeps.attempt (Prog.keeps_act fun _ hs => hs))
    intro opened
    cases opened with
    | error e => exact Prog.keeps_pure _
    | ok _ =>
      apply Prog.Keeps.bind
        (keeps_guarded (keeps_noted (Prog.keeps_act fun s hs => h.dropHalf s .automount hs)))
      intro _
      apply Prog.Keeps.bind
        (keeps_guarded (keeps_noted (Prog.keeps_act fun s hs => h.dropHalf s .mount hs)))
      intro _
      exact Prog.keeps_pure _
  intro unitNotes
  apply Prog.Keeps.bind
  · apply keeps_noted
    exact Prog.Keeps.mapSites (keeps_openPrivateRoot_act h.quiet h.dropRecord)
  intro idNotes
  apply Prog.Keeps.bind (keeps_guarded (keeps_noted (Prog.keeps_act h.reload)))
  intro reloadNotes
  exact Prog.keeps_pure _

theorem keeps_failCleanly (may : MayExist) (reason : QString) :
    Prog.Keeps I (failCleanly input.unitName shareId may reason : Prog _ _ _ α) := by
  apply Prog.Keeps.bind (keeps_plainly (Prog.Keeps.mapSites (h.keeps_cleanup may)))
  intro notes
  exact Prog.keeps_raise _

theorem keeps_orCleanup {step : Prog DefineSite World QString α} (may : MayExist)
    (hstep : Prog.Keeps I step) : Prog.Keeps I (orCleanup input.unitName shareId may step) := by
  apply Prog.Keeps.bind (Prog.Keeps.attempt hstep)
  intro result
  cases result with
  | ok a => exact Prog.keeps_pure _
  | error e => exact h.keeps_failCleanly may e

theorem keeps_establishCredential : Prog.Keeps I (establishCredential input shareId) := by
  unfold establishCredential
  cases input.authentication with
  | credentials =>
    apply h.keeps_orCleanup
    apply Prog.Keeps.mapSites
    intro o s hs
    apply wp_credentialWrite
    · exact fun s' hquiet _ => h.secret s' _ (h.quiet s s' hquiet hs)
    · exact fun _ s' hquiet => h.quiet s s' hquiet hs
    · exact fun _ s' hquiet _ => h.secret s' _ (h.quiet s s' hquiet hs)
    · exact fun s' hquiet => h.quiet s s' hquiet hs
  | guest =>
    apply Prog.Keeps.bind
    · apply Prog.Keeps.attempt (Prog.Keeps.mapSites _)
      intro o s hs
      exact wp_credentialAssertAbsent (fun s' hquiet _ _ => h.quiet s s' hquiet hs)
        (fun _ s' hquiet => h.quiet s s' hquiet hs) fun s' hquiet => h.quiet s s' hquiet hs
    intro result
    cases result with
    | ok _ => exact Prog.keeps_pure _
    | error e => exact h.keeps_failCleanly _ _

/-- A definition under the id, however it ends, keeps what its changes keep. -/
theorem keeps_defineAs : Prog.Keeps I (defineAs host input shareId) := by
  apply Prog.Keeps.bind (keeps_plainly (Prog.keeps_act fun _ hs => hs))
  intro _
  apply Prog.Keeps.bind keeps_ask
  intro mountExists
  apply Prog.Keeps.bind keeps_ask
  intro automountExists
  split
  · exact Prog.keeps_raise _
  apply keeps_plainly_ofExcept
  intro contents hcontents
  have hmount : ∀ s, I s → I (s.putUnit input.unitName.mount contents.1) :=
    fun s hs => h.half s .mount _ ⟨contents, hcontents, rfl⟩ hs
  have hautomount : ∀ s, I s → I (s.putUnit input.unitName.automount contents.2) :=
    fun s hs => h.half s .automount _ ⟨contents, hcontents, rfl⟩ hs
  apply Prog.Keeps.bind (h.keeps_orCleanup _ (Prog.keeps_act hmount))
  intro _
  apply Prog.Keeps.bind (h.keeps_orCleanup _ (Prog.keeps_act hautomount))
  intro _
  apply Prog.Keeps.bind h.keeps_establishCredential
  intro _
  apply Prog.Keeps.bind (h.keeps_orCleanup _ (Prog.keeps_act h.reload))
  intro _
  apply Prog.Keeps.bind
  · apply keeps_plainly
    apply Prog.Keeps.mapSites
    apply ArmStable.keeps_armShare
    exact h.toArmStable
  intro result
  cases result with
  | armed => exact Prog.keeps_pure _
  | alreadyArmed => exact Prog.keeps_pure _
  | needsAttention error safe =>
    cases safe with
    | false => exact Prog.keeps_raise _
    | true => exact h.keeps_failCleanly _ _

end DefineStable

end Stable

section Own

variable {w : World}

/-- What the program writes is one of its artifacts. -/
theorem OwnArtifacts.putFile (h : OwnArtifacts w) (root : PrivateRoot) (name content : QString) :
    OwnArtifacts (w.putFile root name content) := by
  intro other
  obtain ⟨hready, hfiles⟩ := h other
  refine ⟨ready_updateFiles hready, fun other' node hnode => ?_⟩
  by_cases hsame : other = root ∧ other' = name
  · obtain ⟨rfl, rfl⟩ := hsame
    cases hroot : w.root? other with
    | none => simp [World.putFile, World.file?_updateFiles_self, hroot] at hnode
    | some dir =>
      rw [World.file?_putFile_self _ _ hroot, Option.some.injEq] at hnode
      subst hnode
      exact rootFile_verified _ _
  · rw [World.file?_putFile_ne _ _ (not_and_or.1 hsame)] at hnode
    exact hfiles other' node hnode

theorem OwnArtifacts.putUnit (h : OwnArtifacts w) (key : UnitKey) (content : QString) :
    OwnArtifacts (w.putUnit key content) := by
  intro root
  obtain ⟨hready, hfiles⟩ := h root
  exact ⟨by cases root <;> exact hready, hfiles⟩

end Own

section Effect

variable {host : Host} {draws : ℕ → UInt64 × UInt64} {caller : Caller} {args : Args}
  {input : DefineInput} {shareId : ShareId} {w w' s : World}

/-- What defining a share under a fresh id may leave: generated halves under its
own unit name, and a private file for the id. -/
structure DefineEffect (input : DefineInput) (shareId : ShareId) (w w' : World) : Prop where
  elsewhere : ∀ key : UnitKey, key.base ≠ input.unitName → w'.unit? key = w.unit? key
  halves : ∀ half node, w'.unit? ⟨input.unitName, half⟩ = some node →
    ∃ content, input.Builds shareId half content ∧ node = rootFile .unitFile content
  credential : ∀ name, name ≠ CredentialStore.fileNameFor shareId →
    w'.file? .credentials name = w.file? .credentials name
  dropIns : w'.dropIns = w.dropIns
  own : OwnArtifacts w → OwnArtifacts w'

theorem DefineEffect.congr (h : DefineEffect input shareId w w') (hunits : s.units = w'.units)
    (hfiles : ∀ name, s.file? .credentials name = w'.file? .credentials name)
    (hdropIns : s.dropIns = w'.dropIns) (hown : OwnArtifacts w' → OwnArtifacts s) :
    DefineEffect input shareId w s := by
  have hunit : ∀ key, s.unit? key = w'.unit? key := by
    intro key
    rw [World.unit?, World.unit?, hunits]
  constructor
  · exact fun key hkey => (hunit key).trans (h.elsewhere key hkey)
  · exact fun half node hnode => h.halves half node ((hunit _).symm.trans hnode)
  · exact fun name hname => (hfiles name).trans (h.credential name hname)
  · exact hdropIns.trans h.dropIns
  · exact fun hown' => hown (h.own hown')

theorem defineStable_effect (host : Host) :
    DefineStable host input shareId (DefineEffect input shareId w) where
  quiet s s' hquiet h := h.congr hquiet.units (hquiet.files _) hquiet.dropIns
    ((Thinned.refl s).quiet hquiet).own
  start s h := h.congr rfl (fun _ => rfl) rfl ((Thinned.refl s).sys _).own
  stop s h := h.congr rfl (fun _ => rfl) rfl ((Thinned.refl s).sys _).own
  record s text h := h.congr (World.units_putFile _ _ _ _)
    (fun _ => World.file?_putFile_ne _ _ (Or.inl credentials_ne_automountIds) _)
    (World.dropIns_putFile _ _ _ _) fun hown => hown.putFile _ _ _
  dropRecord s h := h.congr (World.units_dropFile _ _ _)
    (fun _ => World.file?_dropFile_ne _ _ (Or.inl credentials_ne_automountIds))
    (World.dropIns_dropFile _ _ _) ((Thinned.refl s).dropFile _ _).own
  half s half content hbuilds h :=
    { elsewhere := by
        intro key hkey
        rw [World.unit?_putUnit_ne _ fun heq => hkey (congrArg UnitKey.base heq)]
        exact h.elsewhere key hkey
      halves := by
        intro other node hnode
        by_cases hsame : other = half
        · subst hsame
          rw [World.unit?_putUnit_self, Option.some.injEq] at hnode
          exact ⟨content, hbuilds, hnode.symm⟩
        · rw [World.unit?_putUnit_ne _ fun heq => hsame (congrArg UnitKey.half heq)] at hnode
          exact h.halves other node hnode
      credential := h.credential
      dropIns := h.dropIns
      own := fun hown => (h.own hown).putUnit _ _ }
  dropHalf s half h :=
    { elsewhere := by
        intro key hkey
        rw [World.unit?_dropUnit_ne _ fun heq => hkey (congrArg UnitKey.base heq)]
        exact h.elsewhere key hkey
      halves := by
        intro other node hnode
        rw [World.unit?_dropUnit] at hnode
        split_ifs at hnode
        exact h.halves other node hnode
      credential := h.credential
      dropIns := h.dropIns
      own := fun hown => ((Thinned.refl s).dropUnit _).own (h.own hown) }
  secret s content h :=
    { elsewhere := fun key hkey => (World.unit?_putFile _ _ _ _ _).trans (h.elsewhere key hkey)
      halves := fun half node hnode => h.halves half node (by rwa [World.unit?_putFile] at hnode)
      credential := by
        intro name hname
        rw [World.file?_putFile_ne _ _ (Or.inr hname)]
        exact h.credential name hname
      dropIns := (World.dropIns_putFile _ _ _ _).trans h.dropIns
      own := fun hown => (h.own hown).putFile _ _ _ }
  dropSecret s h :=
    { elsewhere := fun key hkey => (World.unit?_dropFile _ _ _ _).trans (h.elsewhere key hkey)
      halves := fun half node hnode => h.halves half node (by rwa [World.unit?_dropFile] at hnode)
      credential := by
        intro name hname
        rw [World.file?_dropFile_ne _ _ (Or.inr hname)]
        exact h.credential name hname
      dropIns := (World.dropIns_dropFile _ _ _).trans h.dropIns
      own := fun hown => ((Thinned.refl s).dropFile _ _).own (h.own hown) }
  reload s h := h.congr rfl (fun _ => World.file?_reload _ _ _) rfl (Thinned.refl s).reload.own

/-- Where the inspection finds no definition, no file stands under the name. -/
theorem missing_of_definedProblem {plan : MountpointPlan} {uid : UInt32} {mountPoint : QString}
    {base : UnitName} (h : definedProblem plan (inspectDefinition w base uid mountPoint) = none)
    (half : Half) : w.unit? ⟨base, half⟩ = none := by
  have hstate : (inspectDefinition w base uid mountPoint).state = .none := by
    unfold definedProblem at h
    split at h
    · assumption
    · simp at h
    · simp at h
  have hprobes : probeUnitFile w base.mount = .missing ∧
      probeUnitFile w base.automount = .missing := by
    unfold inspectDefinition at hstate
    dsimp only at hstate
    split_ifs at hstate with htampered hdropIn hmissing
    · exact hmissing
    · have hsides : ∀ mountSide automountSide : SideCheck,
          (combineSides mountSide automountSide mountPoint).state = .none →
            mountSide = .notPresent ∧ automountSide = .notPresent := by
        intro mountSide automountSide hnone
        cases mountSide <;> cases automountSide <;> simp [combineSides] at hnone ⊢
        split_ifs at hnone
      obtain ⟨hmount, hautomount⟩ := hsides _ _ hstate
      exact ⟨evaluateSide_eq_notPresent.1 hmount, evaluateSide_eq_notPresent.1 hautomount⟩
  cases half with
  | mount => exact probeUnitFile_eq_missing.1 hprobes.1
  | automount => exact probeUnitFile_eq_missing.1 hprobes.2

/-- A call that gets as far as an id works for its own unit name, which nothing
stands under, and under an id that nothing claims. -/
structure Defines (host : Host) (caller : Caller) (args : Args) (input : DefineInput)
    (shareId : ShareId) (w : World) : Prop where
  request : readRequest host caller args = .ok input
  missing : ∀ half, w.unit? ⟨input.unitName, half⟩ = none
  noDropIn : ∀ half, w.dropIns ⟨input.unitName, half⟩ = false
  fresh : Fresh w shareId

/-- An id is one of the draws. -/
theorem wp_generateUniqueShareId_drawn {o : DefineSite → Outcome} (attempts : ℕ) :
    Prog.wp o (generateUniqueShareId draws attempts) (fun id _ => ∃ n, id = candidateId (draws n))
      (fun _ _ => True) (fun _ => True) w := by
  induction attempts generalizing w with
  | zero => trivial
  | succ attempt ih =>
    rw [generateUniqueShareId, Prog.wp_bind]
    apply Prog.wp_mono _ (Prog.wp_trivial _)
    · intro inUse v _
      cases inUse with
      | true => exact ih
      | false => exact ⟨attempt, rfl⟩
    · exact fun _ _ _ => trivial
    · exact fun _ _ => trivial

theorem wp_generateUniqueShareId_fresh {o : DefineSite → Outcome} (attempts : ℕ) :
    Prog.wp o (generateUniqueShareId draws attempts)
      (fun id v => Quiet w v ∧ Fresh w id ∧
        ∃ n, id = candidateId (draws n)) (fun _ => Quiet w) (Quiet w) w := by
  have hfresh : Prog.wp o (generateUniqueShareId draws attempts)
      (fun id v => Quiet w v ∧ Fresh w id) (fun _ => Quiet w) (Quiet w) w := by
    apply wp_generateUniqueShareId
    · exact fun _ _ hv _ hfresh => ⟨hv, hfresh⟩
    · exact fun _ _ hv => hv
    · exact fun _ hv => hv
  apply Prog.wp_mono _ (Prog.wp_and _ hfresh (wp_generateUniqueShareId_drawn attempts))
  · exact fun _ _ h => ⟨h.1.1, h.1.2, h.2⟩
  · exact fun _ _ h => h.1
  · exact fun _ h => h.1

/-- However a `definesystem` call ends, it has created empty roots at most, or it
has defined its share under a fresh id that it drew, or a part of that. -/
theorem doDefine_effect (host : Host) (draws : ℕ → UInt64 × UInt64) (caller : Caller) (args : Args)
    (trees : QString → Option Folder) (o : DefineCallSite → Outcome) (w : World) :
    Quiet w ((doDefine host draws caller args trees).run o w).2 ∨
      ∃ input shareId, Defines host caller args input shareId w ∧
        (∃ n, shareId = candidateId (draws n)) ∧
        DefineEffect input shareId w ((doDefine host draws caller args trees).run o w).2 := by
  have hquiet : ∀ v, Quiet w v → Quiet w v ∨ ∃ input shareId,
      Defines host caller args input shareId w ∧ (∃ n, shareId = candidateId (draws n)) ∧
        DefineEffect input shareId w v := fun _ h => Or.inl h
  have hsame := hquiet w (Quiet.refl w)
  apply Prog.wp_state (P := fun v => Quiet w v ∨ ∃ input shareId,
    Defines host caller args input shareId w ∧ (∃ n, shareId = candidateId (draws n)) ∧
      DefineEffect input shareId w v)
  unfold doDefine
  rw [Prog.wp_bind]
  refine Prog.wp_act_intro ?_ hsame hsame hsame
  rw [Prog.wp_bind, Prog.wp_ofExcept]
  refine ⟨fun input hrequest => ?_, fun _ _ => hsame⟩
  rw [Prog.wp_bind, Prog.wp_look]
  cases hproblem : definedProblem input.mountPlan
      (inspectDefinition w input.unitName caller.uid input.mountPoint) with
  | some problem => exact hsame
  | none =>
    dsimp only
    split
    · exact hsame
    rw [defineOrFail, Prog.wp_bind, Prog.wp_attempt, Prog.wp_mapSites]
    unfold define
    rw [Prog.wp_bind, wp_plainly]
    apply Prog.wp_mono _ (wp_generateUniqueShareId_fresh 8)
    · rintro shareId v ⟨hv, hfresh, hdrawn⟩
      have hmissing := missing_of_definedProblem hproblem
      have hdefines : Defines host caller args input shareId w :=
        ⟨hrequest, hmissing, noDropIn_of_definedProblem hproblem, hfresh⟩
      have hstart : DefineEffect input shareId w v := by
        constructor
        · exact fun key _ => hv.unit? key
        · intro half node hnode
          rw [hv.unit?, hmissing half] at hnode
          exact absurd hnode.symm (Option.some_ne_none node)
        · exact fun name _ => hv.files _ name
        · exact hv.dropIns
        · exact ((Thinned.refl w).quiet hv).own
      have hdone : ∀ v', DefineEffect input shareId w v' → Quiet w v' ∨ ∃ input shareId,
          Defines host caller args input shareId w ∧ (∃ n, shareId = candidateId (draws n)) ∧
            DefineEffect input shareId w v' :=
        fun v' h => Or.inr ⟨input, shareId, hdefines, hdrawn, h⟩
      exact Prog.wp_mono _ ((defineStable_effect host).keeps_defineAs _ v hstart)
        (fun _ => hdone) (fun _ => hdone) hdone
    · exact fun _ => hquiet
    · exact hquiet

end Effect

end NasMount.Root
