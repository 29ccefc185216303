import NasMount.Root.DefineCall
import NasMount.Root.PurgeRuns

/-!
# What a call does to the unit files

However a `definesystem` call ends, the unit files it leaves are those it found
and the two it generates, and it generates them only after its walk went
through. An `undefinesystem` call only removes files.
-/
namespace NasMount.Root

open NasMount.Foundation NasMount.Core QString

/-- Every unit file was there before, or is allowed. -/
def UnitsFrom (allowed : UnitKey → FileNode → Prop) (w w' : World) : Prop :=
  ∀ key node, w'.unit? key = some node → w.unit? key = some node ∨ allowed key node

/-- The file is one that the definition writes, under some id. -/
def DefineInput.Writes (input : DefineInput) (key : UnitKey) (node : FileNode) : Prop :=
  ∃ shareId contents, input.contents shareId = .ok contents ∧
    (key = input.unitName.mount ∧ node = rootFile .unitFile contents.1 ∨
      key = input.unitName.automount ∧ node = rootFile .unitFile contents.2)

section Frame

variable {allowed : UnitKey → FileNode → Prop} {w w' w'' : World}

theorem UnitsFrom.refl (allowed : UnitKey → FileNode → Prop) (w : World) : UnitsFrom allowed w w :=
  fun _ _ h => Or.inl h

theorem UnitsFrom.congr (h : UnitsFrom allowed w w') (hunits : w''.units = w'.units) :
    UnitsFrom allowed w w'' := by
  intro key node hnode
  rw [World.unit?, hunits] at hnode
  exact h key node hnode

theorem UnitsFrom.dropUnit (h : UnitsFrom allowed w w') (gone : UnitKey) :
    UnitsFrom allowed w (w'.dropUnit gone) := by
  intro key node hnode
  rw [World.unit?_dropUnit] at hnode
  split_ifs at hnode
  exact h key node hnode

theorem UnitsFrom.putUnit (h : UnitsFrom allowed w w') {key : UnitKey} {content : QString}
    (hallowed : allowed key (rootFile .unitFile content)) :
    UnitsFrom allowed w (w'.putUnit key content) := by
  intro other node hnode
  by_cases hkey : other = key
  · subst hkey
    rw [World.unit?_putUnit_self] at hnode
    obtain rfl := Option.some.inj hnode
    exact Or.inr hallowed
  · rw [World.unit?_putUnit_ne _ hkey] at hnode
    exact h other node hnode

/-- A purge or a removal only takes files away. -/
theorem Thinned.unitsFrom (h : Thinned w w') : UnitsFrom (fun _ _ => False) w w' := by
  intro key node hnode
  rcases h.units key with hnone | hsame
  · exact nomatch hnone.symm.trans hnode
  · exact Or.inl (hsame.symm.trans hnode)

end Frame

section Removal

variable {host : Host} {w : World}

theorem keeps_remove (input : RemovalInput) : Prog.Keeps (Thinned w) (remove host input) := by
  have hquiet : ∀ s s', Quiet s s' → Thinned w s → Thinned w s' := fun _ _ hq h => h.quiet hq
  apply Prog.Keeps.bind (Prog.Keeps.mapSites (keeps_safeStop fun _ _ h => h.sys _))
  intro result
  cases result.refusal with
  | some error => exact Prog.keeps_raise _
  | none =>
    apply Prog.Keeps.bind (Prog.Keeps.mapSites
      (keeps_openPrivateRoot_act hquiet fun _ h => h.dropFile _ _))
    intro _
    apply Prog.Keeps.bind (Prog.keeps_act fun _ h => h)
    intro _
    apply Prog.Keeps.bind keeps_unlinkHalves
    intro _
    apply Prog.Keeps.bind (Prog.Keeps.mapSites
      (keeps_openPrivateRoot_act hquiet fun _ h => h.dropFile _ _))
    intro _
    exact Prog.keeps_act fun _ h => h.reload

theorem keeps_doUndefine (host : Host) (caller : Caller) (path : QString) :
    Prog.Keeps (Thinned w) (doUndefine host caller path) := by
  apply Prog.Keeps.bind
  · cases prepare host caller path with
    | ok target => exact Prog.keeps_pure _
    | error e => exact Prog.keeps_raise _
  intro target
  apply Prog.Keeps.bind (Prog.keeps_look _)
  intro check
  cases removalInput target.2 target.1.path check with
  | none => exact Prog.keeps_raise _
  | some input => exact keeps_remove input

end Removal

section Definition

variable {α : Type} {host : Host} {draws : ℕ → UInt64 × UInt64} {input : DefineInput}
  {base : UnitName} {shareId : ShareId} {allowed : UnitKey → FileNode → Prop} {w w' : World}

theorem keeps_noted {ι : Type} {I : World → Prop} {note : QString → DefineNote}
    {step : Prog ι World QString PUnit} (h : Prog.Keeps I step) : Prog.Keeps I (noted note step) :=
  fun o s hs => wp_noted.mpr (h o s hs)

theorem keeps_guarded {ι : Type} {I : World → Prop} {needed : Bool}
    {steps : Prog ι World QString (List DefineNote)} (h : Prog.Keeps I steps) :
    Prog.Keeps I (guarded needed steps) := by
  cases needed with
  | true => exact h
  | false => exact Prog.keeps_pure _

/-- The compensation removes files and writes none. -/
theorem keeps_cleanup (may : MayExist) :
    Prog.Keeps (UnitsFrom allowed w) (cleanup base shareId may) := by
  have hquiet : ∀ s s', Quiet s s' → UnitsFrom allowed w s → UnitsFrom allowed w s' :=
    fun _ _ hq h => h.congr hq.units
  apply Prog.Keeps.bind
  · apply keeps_guarded
    apply keeps_noted
    exact Prog.Keeps.mapSites
      (keeps_openPrivateRoot_act hquiet fun _ h => h.congr (World.units_dropFile _ _ _))
  intro credentialNotes
  apply Prog.Keeps.bind
  · apply keeps_guarded
    apply Prog.Keeps.bind (Prog.Keeps.attempt (Prog.keeps_act fun _ h => h))
    intro opened
    cases opened with
    | error e => exact Prog.keeps_pure _
    | ok _ =>
      apply Prog.Keeps.bind (keeps_guarded (keeps_noted (Prog.keeps_act fun _ h => h.dropUnit _)))
      intro _
      apply Prog.Keeps.bind (keeps_guarded (keeps_noted (Prog.keeps_act fun _ h => h.dropUnit _)))
      intro _
      exact Prog.keeps_pure _
  intro unitNotes
  apply Prog.Keeps.bind
  · apply keeps_noted
    exact Prog.Keeps.mapSites
      (keeps_openPrivateRoot_act hquiet fun _ h => h.congr (World.units_dropFile _ _ _))
  intro idNotes
  apply Prog.Keeps.bind (keeps_guarded (keeps_noted (Prog.keeps_act fun _ h => h.congr rfl)))
  intro reloadNotes
  exact Prog.keeps_pure _

theorem wp_failCleanly_units {o : DefineSite → Outcome} {may : MayExist} {reason : QString}
    {Q : α → World → Prop} (h : UnitsFrom allowed w w') :
    Prog.wp o (failCleanly base shareId may reason) Q (fun _ => UnitsFrom allowed w)
      (UnitsFrom allowed w) w' :=
  wp_failCleanly.mpr (keeps_cleanup may _ _ h)

theorem wp_establishCredential_units {o : DefineSite → Outcome} (h : UnitsFrom allowed w w')
    {Q : PUnit → World → Prop} (done : ∀ v, UnitsFrom allowed w v → Q ⟨⟩ v) :
    Prog.wp o (establishCredential input shareId) Q (fun _ => UnitsFrom allowed w)
      (UnitsFrom allowed w) w' := by
  unfold establishCredential
  cases input.authentication with
  | credentials =>
    dsimp only
    rw [wp_orCleanup, Prog.wp_mapSites]
    have hput : ∀ v, Quiet w' v → UnitsFrom allowed w
        (v.putFile .credentials (CredentialStore.fileNameFor shareId)
          (CredentialStore.credentialContent input.username input.domain input.password)) :=
      fun v hv => (h.congr hv.units).congr (World.units_putFile _ _ _ _)
    apply wp_credentialWrite
    · intro v hv _
      exact done _ (hput v hv)
    · intro e v hv
      exact wp_failCleanly_units (h.congr hv.units)
    · intro e v hv _
      exact wp_failCleanly_units (hput v hv)
    · intro v hv
      exact h.congr hv.units
  | guest =>
    dsimp only
    rw [Prog.wp_bind, Prog.wp_attempt, Prog.wp_mapSites]
    apply wp_credentialAssertAbsent
    · intro v hv _ _
      exact done _ (h.congr hv.units)
    · intro e v hv
      exact wp_failCleanly_units (h.congr hv.units)
    · intro v hv
      exact h.congr hv.units

/-- A definition changes the two files of its own unit name, to what it generates. -/
theorem keeps_define :
    Prog.Keeps (UnitsFrom input.Writes w) (define host draws input) := by
  intro o v hv
  unfold define
  rw [Prog.wp_bind, wp_plainly]
  apply wp_generateUniqueShareId
  case failed => exact fun e v1 h1 => hv.congr h1.units
  case dead => exact fun v1 h1 => hv.congr h1.units
  intro shareId v1 h1 _ _
  replace hv := hv.congr h1.units
  unfold defineAs
  rw [Prog.wp_bind, wp_plainly]
  refine Prog.wp_act_intro ?_ hv hv hv
  rw [Prog.wp_bind]
  apply Prog.wp_ask_answer hv
  intro mountExists _
  rw [Prog.wp_bind]
  apply Prog.wp_ask_answer hv
  intro automountExists _
  split_ifs
  · exact hv
  rw [Prog.wp_bind, wp_plainly, Prog.wp_ofExcept]
  refine ⟨fun contents hcontents => ?_, fun _ _ => hv⟩
  have hmount : UnitsFrom input.Writes w (v1.putUnit input.unitName.mount contents.1) :=
    hv.putUnit ⟨shareId, contents, hcontents, Or.inl ⟨rfl, rfl⟩⟩
  have hboth : UnitsFrom input.Writes w ((v1.putUnit input.unitName.mount contents.1).putUnit
      input.unitName.automount contents.2) :=
    hmount.putUnit ⟨shareId, contents, hcontents, Or.inr ⟨rfl, rfl⟩⟩
  rw [Prog.wp_bind, wp_orCleanup]
  refine Prog.wp_act_intro ?_ (wp_failCleanly_units hv) (wp_failCleanly_units hmount) hv
  rw [Prog.wp_bind, wp_orCleanup]
  refine Prog.wp_act_intro ?_ (wp_failCleanly_units hmount) (wp_failCleanly_units hboth) hmount
  rw [Prog.wp_bind]
  apply wp_establishCredential_units hboth
  intro v2 h2
  rw [Prog.wp_bind, wp_orCleanup]
  have h3 : UnitsFrom input.Writes w v2.reload := h2.congr rfl
  refine Prog.wp_act_intro ?_ (wp_failCleanly_units h2) (wp_failCleanly_units h3) h2
  unfold armDefinition
  rw [Prog.wp_bind, wp_plainly, Prog.wp_mapSites]
  apply wp_armShare
  · intro result v4 hchange _
    have h4 := h3.congr hchange.units
    cases result with
    | armed => exact h4
    | alreadyArmed => exact h4
    | needsAttention error safe =>
      cases safe with
      | false => exact h4
      | true => exact wp_failCleanly_units h4
  · exact fun v4 hchange => h3.congr hchange.units

end Definition

end NasMount.Root
