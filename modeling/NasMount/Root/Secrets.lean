import NasMount.Foundation.Runs
import NasMount.Root.RemovalScope
import NasMount.Root.UnitChanges

/-!
# No orphaned secret

A credential file is found again through the id that a unit file carries. A call
that fails or is killed may leave less than it should, but a credential whose id
no unit file carries any more is out of sight for every later call.
-/
namespace NasMount.Root

open NasMount.Foundation NasMount.Core QString

/-- The credential file of the id exists. -/
def HasSecret (w : World) (id : ShareId) : Prop :=
  w.file? .credentials (CredentialStore.fileNameFor id) ≠ none

/-- The id of every credential file is carried by the marker of some unit half. -/
def Discoverable (w : World) : Prop := ∀ id, HasSecret w id → ∃ key, carries w id key = true

section Frame

variable {w w' : World} {id : ShareId}

theorem carries_congr {key : UnitKey} (h : w'.unit? key = w.unit? key) :
    carries w' id key = carries w id key := by
  rw [carries, carries, h]

theorem carries_iff {key : UnitKey} : carries w id key = true ↔
    ∃ node marker, w.unit? key = some node ∧ node.kind.isFile = true ∧
      parseMarker node.content = .ok marker ∧ marker.id = id := by
  rw [carries, Option.any_eq_true]
  constructor
  · rintro ⟨node, hnode, h⟩
    cases hparse : parseMarker node.content with
    | error e => simp [hparse] at h
    | ok marker =>
      simp only [hparse, Bool.and_eq_true, decide_eq_true_eq] at h
      exact ⟨node, marker, hnode, h.1, hparse, h.2⟩
  · rintro ⟨node, marker, hnode, hfile, hparse, hid⟩
    exact ⟨node, hnode, by simp [hparse, hfile, hid]⟩

/-- A half of an owned definition carries its id and no other. -/
theorem carries_ownedHalves {base : UnitName} {uid : UInt32} {mp : QString} {marker : Marker}
    (h : OwnedHalves w base uid mp marker) (half : Half) :
    carries w id ⟨base, half⟩ = true ↔ w.unit? ⟨base, half⟩ ≠ none ∧ id = marker.id := by
  rw [carries_iff]
  constructor
  · rintro ⟨node, found, hnode, -, hparse, rfl⟩
    have hpresent : w.unit? ⟨base, half⟩ ≠ none := by simp [hnode]
    refine ⟨hpresent, ?_⟩
    obtain ⟨what, hvalid⟩ := (h.valid half).resolve_left hpresent
    obtain ⟨content, hprobe, hmarker, -⟩ := probe_of_sideAt_valid hvalid
    have hcontent : node.content = content := by
      unfold probeUnitFile at hprobe
      rw [hnode] at hprobe
      dsimp only at hprobe
      split_ifs at hprobe
      exact FileProbe.ok.inj hprobe
    rw [hcontent, hmarker, Except.ok.injEq] at hparse
    rw [hparse]
  · rintro ⟨hpresent, rfl⟩
    obtain ⟨what, hvalid⟩ := (h.valid half).resolve_left hpresent
    obtain ⟨content, hprobe, hmarker, -⟩ := probe_of_sideAt_valid hvalid
    have hlisted := (List.mem_filter.1 (mem_unitFiles_of_probe hprobe)).2
    unfold probeUnitFile at hprobe
    cases hnode : w.unit? ⟨base, half⟩ with
    | none => exact absurd hnode hpresent
    | some node =>
      rw [hnode] at hprobe hlisted
      dsimp only at hprobe
      split_ifs at hprobe
      obtain rfl := FileProbe.ok.inj hprobe
      exact ⟨node, marker, rfl, hlisted, hmarker, rfl⟩

/-- Credentials only went, and every carrier of one that is left has a
successor. -/
theorem Discoverable.of_frame (h : Discoverable w)
    (hsecret : ∀ id, HasSecret w' id → HasSecret w id)
    (hcarried : ∀ id key, HasSecret w' id → carries w id key = true →
      ∃ key', carries w' id key' = true) : Discoverable w' := by
  intro id hid
  obtain ⟨key, hkey⟩ := h id (hsecret id hid)
  exact hcarried id key hid hkey

theorem Discoverable.congr (h : Discoverable w) (hunits : w'.units = w.units)
    (hsecret : ∀ id, HasSecret w' id → HasSecret w id) : Discoverable w' := by
  apply h.of_frame hsecret
  intro id key _ hkey
  have hsame : w'.unit? key = w.unit? key := by rw [World.unit?, hunits, World.unit?]
  exact ⟨key, by rwa [carries_congr hsame]⟩

theorem Quiet.hasSecret (h : Quiet w w') : HasSecret w' id ↔ HasSecret w id := by
  rw [HasSecret, HasSecret, h.files]

end Frame

section Remove

variable {host : Host} {w w' w'' : World} {input : RemovalInput} {uid : UInt32} {mp : QString}
  {marker : Marker} {id : ShareId}

/-- While the credential of a removal is there, so are its halves. -/
structure SecretFirst (input : RemovalInput) (w w' : World) : Prop
    extends Elsewhere input w w' where
  secret : HasSecret w' input.shareId → HasSecret w input.shareId ∧
    ∀ half, w'.unit? ⟨input.unitName, half⟩ = w.unit? ⟨input.unitName, half⟩

theorem SecretFirst.discoverable (h : SecretFirst input w w') (hw : Discoverable w)
    (hhalves : OwnedHalves w input.unitName uid mp marker) (hid : input.shareId = marker.id) :
    Discoverable w' := by
  apply hw.of_frame
  · intro id hsecret
    by_cases hsame : id = input.shareId
    · subst hsame
      exact (h.secret hsecret).1
    · have hname : CredentialStore.fileNameFor id ≠ CredentialStore.fileNameFor input.shareId :=
        fun heq => hsame (CredentialStore.fileNameFor_injective heq)
      rwa [HasSecret, h.credential _ hname] at hsecret
  · intro id key hsecret hkey
    refine ⟨key, ?_⟩
    rwa [carries_congr]
    by_cases hbase : key.base = input.unitName
    · obtain ⟨base, half⟩ := key
      obtain rfl : base = input.unitName := hbase
      obtain ⟨-, rfl⟩ := (carries_ownedHalves hhalves half).1 hkey
      rw [← hid] at hsecret
      exact (h.secret hsecret).2 half
    · exact h.unit? key hbase

/-- The credential is gone, and nothing outside the removal changed. -/
structure SecretGone (input : RemovalInput) (w w' : World) : Prop extends Elsewhere input w w' where
  gone : ¬HasSecret w' input.shareId

theorem SecretGone.first (h : SecretGone input w w') : SecretFirst input w w' :=
  ⟨h.toElsewhere, fun hsecret => absurd hsecret h.gone⟩

theorem SecretGone.quiet (h : SecretGone input w w') (hquiet : Quiet w' w'') :
    SecretGone input w w'' :=
  ⟨h.toElsewhere.quiet hquiet, fun hsecret => h.gone (hquiet.hasSecret.1 hsecret)⟩

theorem SecretGone.dropUnit (h : SecretGone input w w') (half : Half) :
    SecretGone input w (w'.dropUnit ⟨input.unitName, half⟩) :=
  ⟨h.toElsewhere.dropUnit half, h.gone⟩

theorem hasSecret_dropRecord (name : QString) :
    HasSecret (w.dropFile .automountIds name) id ↔ HasSecret w id := by
  rw [HasSecret, HasSecret, World.file?_dropFile_ne _ _ (Or.inl credentials_ne_automountIds)]

theorem SecretGone.dropRecord (h : SecretGone input w w') (name : QString) :
    SecretGone input w (w'.dropFile .automountIds name) := by
  refine ⟨h.toElsewhere.dropFile fun hroot => absurd hroot credentials_ne_automountIds.symm, ?_⟩
  rw [hasSecret_dropRecord]
  exact h.gone

theorem SecretGone.reload (h : SecretGone input w w') : SecretGone input w w'.reload :=
  ⟨⟨h.unit?, h.credential⟩, h.gone⟩

/-- Taking the credential away. -/
theorem Elsewhere.secretGone (h : Elsewhere input w w') : SecretGone input w
    (w'.dropFile .credentials (CredentialStore.fileNameFor input.shareId)) := by
  refine ⟨h.dropFile fun _ => rfl, ?_⟩
  rw [HasSecret, World.file?_dropFile_self]
  exact fun hne => hne rfl

theorem keeps_secretGone : Prog.Keeps (SecretGone input w) (do
    openUnitsDir .openUnits
    unlinkHalves RemoveSite.unlink input.unitName
    Prog.mapSites .record (RuntimeFiles.removeAutomountId input.unitName)
    SystemdOps.daemonReload .reload) := by
  apply Prog.Keeps.bind (Prog.keeps_act fun _ h => h)
  intro _
  apply Prog.Keeps.bind
  · apply Prog.Keeps.bind (Prog.keeps_act fun s h => h.dropUnit .mount)
    intro _
    exact Prog.keeps_act fun s h => h.dropUnit .automount
  intro _
  apply Prog.Keeps.bind (Prog.Keeps.mapSites (keeps_openPrivateRoot_act
    (fun _ _ hquiet h => h.quiet hquiet) fun _ h => h.dropRecord _))
  intro _
  exact Prog.keeps_act fun _ h => h.reload

/-- A removal takes the credential before the halves. -/
theorem wp_remove_secretFirst {o : RemoveSite → Outcome} :
    Prog.wp o (remove host input) (fun _ => SecretFirst input w) (fun _ => SecretFirst input w)
      (SecretFirst input w) w := by
  have hstart : ∀ sys s, Quiet { w with sys := sys } s → SecretFirst input w s := by
    intro sys s hquiet
    refine ⟨⟨fun key _ => hquiet.unit? key, fun name _ => hquiet.files _ name⟩, ?_⟩
    intro hsecret
    exact ⟨hquiet.hasSecret.1 hsecret, fun half => hquiet.unit? _⟩
  have hgone : ∀ sys s, Quiet { w with sys := sys } s → SecretGone input w
      (s.dropFile .credentials (CredentialStore.fileNameFor input.shareId)) :=
    fun sys s hquiet => (hstart sys s hquiet).toElsewhere.secretGone
  unfold remove
  rw [Prog.wp_bind, Prog.wp_mapSites]
  have hstop : Prog.Keeps (fun s => ∃ sys, s = { w with sys := sys })
      (safeStop host input.unitName input.mountPoint input.what) := by
    apply keeps_safeStop
    rintro _ sys ⟨_, rfl⟩
    exact ⟨sys, rfl⟩
  refine Prog.wp_mono _ (hstop _ w ⟨w.sys, rfl⟩) ?_ ?_ ?_
  · rintro result _ ⟨sys, rfl⟩
    cases result.refusal with
    | some error => exact hstart sys _ (Quiet.refl _)
    | none =>
      dsimp only
      unfold removeArtifacts
      rw [Prog.wp_bind, Prog.wp_mapSites]
      apply wp_openPrivateRoot_act
      · intro s hquiet _
        exact Prog.wp_mono _ (keeps_secretGone o _ (hgone sys s hquiet)) (fun _ _ h => h.first)
          (fun _ _ h => h.first) fun _ h => h.first
      · exact fun _ => hstart sys
      · exact fun _ s hquiet _ => (hgone sys s hquiet).first
      · exact hstart sys
  · rintro _ _ ⟨sys, rfl⟩
    exact hstart sys _ (Quiet.refl _)
  · rintro _ ⟨sys, rfl⟩
    exact hstart sys _ (Quiet.refl _)

end Remove

section Define

variable {α : Type} {host : Host} {draws : ℕ → UInt64 × UInt64} {input : DefineInput}
  {shareId : ShareId} {back : RemovalInput} {w w' w'' : World}

/-- The removal that would take a definition back. -/
def DefineInput.removal (input : DefineInput) (shareId : ShareId) : RemovalInput where
  shareId := shareId
  mountPoint := input.mountPoint
  unitName := input.unitName
  what := input.unc

/-- While the credential of a definition is there, a half carries its id. -/
structure Backed (back : RemovalInput) (w w' : World) : Prop extends Elsewhere back w w' where
  carried : HasSecret w' back.shareId → ∃ half, carries w' back.shareId ⟨back.unitName, half⟩ = true

theorem SecretGone.backed (h : SecretGone back w w') : Backed back w w' :=
  ⟨h.toElsewhere, fun hsecret => absurd hsecret h.gone⟩

theorem Backed.congr (h : Backed back w w') (hunits : w''.units = w'.units)
    (hfiles : ∀ name, w''.file? .credentials name = w'.file? .credentials name) :
    Backed back w w'' := by
  have hunit : ∀ key, w''.unit? key = w'.unit? key := by
    intro key
    rw [World.unit?, hunits, World.unit?]
  refine ⟨⟨fun key hkey => (hunit key).trans (h.unit? key hkey),
    fun name hname => (hfiles name).trans (h.credential name hname)⟩, fun hsecret => ?_⟩
  rw [HasSecret, hfiles] at hsecret
  obtain ⟨half, hhalf⟩ := h.carried hsecret
  exact ⟨half, by rwa [carries_congr (hunit _)]⟩

theorem Backed.quiet (h : Backed back w w') (hquiet : Quiet w' w'') : Backed back w w'' :=
  h.congr hquiet.units (hquiet.files _)

theorem Backed.dropRecord (h : Backed back w w') (name : QString) :
    Backed back w (w'.dropFile .automountIds name) :=
  h.congr (World.units_dropFile _ _ _)
    fun _ => World.file?_dropFile_ne _ _ (Or.inl credentials_ne_automountIds)

/-- The halves of the unit name are the new definition's, so every other credential
needs a carrier elsewhere. -/
theorem Backed.discoverable (h : Backed back w w')
    (helse : ∀ id, HasSecret w id → ∃ key, key.base ≠ back.unitName ∧ carries w id key = true) :
    Discoverable w' := by
  intro id hid
  by_cases hsame : id = back.shareId
  · subst hsame
    obtain ⟨half, hhalf⟩ := h.carried hid
    exact ⟨_, hhalf⟩
  · have hname : CredentialStore.fileNameFor id ≠ CredentialStore.fileNameFor back.shareId :=
      fun heq => hsame (CredentialStore.fileNameFor_injective heq)
    rw [HasSecret, h.credential _ hname] at hid
    obtain ⟨key, hbase, hkey⟩ := helse id hid
    exact ⟨key, by rwa [carries_congr (h.unit? key hbase)]⟩

/-- The compensation takes the units only once the secret is gone. -/
theorem wp_cleanup_backed {o : CleanupSite → Outcome} {may : MayExist} (h : Backed back w w')
    (hcredential : may.credential = true ∨ ¬HasSecret w' back.shareId) :
    Prog.wp o (cleanup back.unitName back.shareId may) (fun _ => Backed back w)
      (fun _ => Backed back w) (Backed back w) w' := by
  have hrecord : ∀ {I : World → Prop}, (∀ s s', Quiet s s' → I s → I s') →
      (∀ s name, I s → I (s.dropFile .automountIds name)) →
      Prog.Keeps I (noted .idCleanup
        (Prog.mapSites CleanupSite.record (RuntimeFiles.removeAutomountId back.unitName))) := by
    intro I hquiet hdrop
    exact keeps_noted (Prog.Keeps.mapSites (keeps_openPrivateRoot_act hquiet fun s => hdrop s _))
  have hgone : Prog.Keeps (SecretGone back w) (do
      let unitNotes ← guarded (may.mount || may.automount) (cleanupUnits back.unitName may)
      let idNotes ← noted .idCleanup
        (Prog.mapSites CleanupSite.record (RuntimeFiles.removeAutomountId back.unitName))
      let reloadNotes ← guarded (may.mount || may.automount)
        (noted .reload (SystemdOps.daemonReload CleanupSite.reload))
      return [] ++ unitNotes ++ idNotes ++ reloadNotes) := by
    apply Prog.Keeps.bind
    · apply keeps_guarded
      apply Prog.Keeps.bind (Prog.Keeps.attempt (Prog.keeps_act fun _ hs => hs))
      intro opened
      cases opened with
      | error e => exact Prog.keeps_pure _
      | ok _ =>
        apply Prog.Keeps.bind
          (keeps_guarded (keeps_noted (Prog.keeps_act fun _ hs => hs.dropUnit .automount)))
        intro _
        apply Prog.Keeps.bind
          (keeps_guarded (keeps_noted (Prog.keeps_act fun _ hs => hs.dropUnit .mount)))
        intro _
        exact Prog.keeps_pure _
    intro unitNotes
    apply Prog.Keeps.bind (hrecord (fun _ _ hq hs => hs.quiet hq)
      fun _ name hs => hs.dropRecord name)
    intro idNotes
    apply Prog.Keeps.bind (keeps_guarded (keeps_noted (Prog.keeps_act fun _ hs => hs.reload)))
    intro reloadNotes
    exact Prog.keeps_pure _
  have hclean : ∀ s, SecretGone back w s → Prog.wp o (do
      let unitNotes ← guarded (may.mount || may.automount) (cleanupUnits back.unitName may)
      let idNotes ← noted .idCleanup
        (Prog.mapSites CleanupSite.record (RuntimeFiles.removeAutomountId back.unitName))
      let reloadNotes ← guarded (may.mount || may.automount)
        (noted .reload (SystemdOps.daemonReload CleanupSite.reload))
      return [] ++ unitNotes ++ idNotes ++ reloadNotes) (fun _ => Backed back w)
        (fun _ => Backed back w) (Backed back w) s := by
    intro s hs
    exact Prog.wp_mono _ (hgone o s hs) (fun _ _ h => h.backed) (fun _ _ h => h.backed)
      fun _ h => h.backed
  -- With a note on the credential, no unit is touched.
  have hretained : ∀ note : DefineNote, Prog.Keeps (Backed back w) (do
      let idNotes ← noted .idCleanup
        (Prog.mapSites CleanupSite.record (RuntimeFiles.removeAutomountId back.unitName))
      return [note] ++ [] ++ idNotes ++ []) := by
    intro note
    apply Prog.Keeps.bind (hrecord (fun _ _ hq hs => hs.quiet hq)
      fun _ name hs => hs.dropRecord name)
    intro idNotes
    exact Prog.keeps_pure _
  unfold cleanup
  rw [Prog.wp_bind, wp_guarded]
  split_ifs with hneeded
  · rw [wp_noted, Prog.wp_mapSites]
    apply wp_openPrivateRoot_act
    · intro v hv _
      exact hclean _ (h.quiet hv).toElsewhere.secretGone
    · intro e v hv
      exact hretained _ o v (h.quiet hv)
    · intro e v hv _
      exact hretained _ o _ (h.quiet hv).toElsewhere.secretGone.backed
    · intro v hv
      exact h.quiet hv
  · exact hclean w' ⟨h.toElsewhere, hcredential.resolve_left hneeded⟩

theorem wp_failCleanly_backed {o : DefineSite → Outcome} {may : MayExist} {reason : QString}
    {Q : α → World → Prop} (h : Backed (input.removal shareId) w w')
    (hcredential : may.credential = true ∨ ¬HasSecret w' shareId) :
    Prog.wp o (failCleanly input.unitName shareId may reason) Q
      (fun _ => Backed (input.removal shareId) w) (Backed (input.removal shareId) w) w' := by
  have hback : Prog.wp (fun site => o (.cleanup site)) (cleanup input.unitName shareId may)
      (fun _ => Backed (input.removal shareId) w) (fun _ => Backed (input.removal shareId) w)
      (Backed (input.removal shareId) w) w' :=
    @wp_cleanup_backed (input.removal shareId) w w' _ may h hcredential
  rw [wp_failCleanly]
  exact hback

theorem SecretGone.putUnit (h : SecretGone back w w') (half : Half) (content : QString) :
    SecretGone back w (w'.putUnit ⟨back.unitName, half⟩ content) := by
  refine ⟨⟨fun key hkey => ?_, h.credential⟩, h.gone⟩
  rw [World.unit?_putUnit_ne _ fun heq => hkey (congrArg UnitKey.base heq)]
  exact h.unit? key hkey

/-- Writing the credential when a half carries its id. -/
theorem Elsewhere.putSecret (h : Elsewhere back w w') (content : QString) {half : Half}
    (hhalf : carries w' back.shareId ⟨back.unitName, half⟩ = true) :
    Backed back w
      (w'.putFile .credentials (CredentialStore.fileNameFor back.shareId) content) := by
  have hunit : ∀ key, (w'.putFile .credentials (CredentialStore.fileNameFor back.shareId)
      content).unit? key = w'.unit? key := fun key => World.unit?_putFile _ _ _ _ _
  refine ⟨⟨fun key hkey => (hunit key).trans (h.unit? key hkey), fun name hname => ?_⟩, fun _ => ?_⟩
  · rw [World.file?_putFile_ne _ _ (Or.inr hname)]
    exact h.credential name hname
  · exact ⟨half, by rwa [carries_congr (hunit _)]⟩

/-- The credential comes after the halves, or not at all. -/
theorem wp_establishCredential_backed {o : DefineSite → Outcome} {Q : PUnit → World → Prop}
    {half : Half} (h : SecretGone (input.removal shareId) w w')
    (hhalf : carries w' shareId ⟨input.unitName, half⟩ = true)
    (done : ∀ v, Backed (input.removal shareId) w v →
      (input.written.credential = true ∨ ¬HasSecret v shareId) → Q ⟨⟩ v) :
    Prog.wp o (establishCredential input shareId) Q (fun _ => Backed (input.removal shareId) w)
      (Backed (input.removal shareId) w) w' := by
  unfold establishCredential
  cases hauth : input.authentication with
  | credentials =>
    dsimp only
    rw [wp_orCleanup, Prog.wp_mapSites]
    have hput : ∀ v, Quiet w' v → Backed (input.removal shareId) w
        (v.putFile .credentials (CredentialStore.fileNameFor shareId)
          (CredentialStore.credentialContent input.username input.domain input.password)) := by
      intro v hv
      apply (h.quiet hv).toElsewhere.putSecret
      rwa [carries_congr (hv.unit? _)]
    apply wp_credentialWrite
    · intro v hv _
      exact done _ (hput v hv) (Or.inl (by simp [DefineInput.written, hauth]))
    · intro e v hv
      exact wp_failCleanly_backed (h.quiet hv).backed (Or.inl rfl)
    · intro e v hv _
      exact wp_failCleanly_backed (hput v hv) (Or.inl rfl)
    · intro v hv
      exact (h.quiet hv).backed
  | guest =>
    dsimp only
    rw [Prog.wp_bind, Prog.wp_attempt, Prog.wp_mapSites]
    apply wp_credentialAssertAbsent
    · intro v hv _ _
      exact done _ (h.quiet hv).backed (Or.inr (h.quiet hv).gone)
    · intro e v hv
      exact wp_failCleanly_backed (h.quiet hv).backed (Or.inr (h.quiet hv).gone)
    · intro v hv
      exact (h.quiet hv).backed

theorem Backed.runtimeChange (h : Backed back w w') {base : UnitName}
    (hchange : RuntimeChange base w' w'') : Backed back w w'' :=
  h.congr hchange.units hchange.credential

/-- The last steps of a definition leave its files alone, or compensate. -/
theorem wp_armDefinition_backed {o : DefineSite → Outcome}
    (h : Backed (input.removal shareId) w w')
    (hcredential : input.written.credential = true ∨ ¬HasSecret w' shareId) :
    Prog.wp o (armDefinition host input shareId) (fun _ => Backed (input.removal shareId) w)
      (fun _ => Backed (input.removal shareId) w) (Backed (input.removal shareId) w) w' := by
  unfold armDefinition
  rw [Prog.wp_bind, wp_plainly, Prog.wp_mapSites]
  apply wp_armShare
  · intro result v hchange _
    have hv : Backed (input.removal shareId) w v := h.runtimeChange hchange
    cases result with
    | armed => exact hv
    | alreadyArmed => exact hv
    | needsAttention error safe =>
      cases safe with
      | false => exact hv
      | true =>
        apply wp_failCleanly_backed hv
        rwa [HasSecret, hchange.credential]
  · exact fun v hchange => h.runtimeChange hchange

/-- A definition never has a credential without a half that carries its id. -/
theorem wp_defineAs_backed {o : DefineSite → Outcome}
    (h : SecretGone (input.removal shareId) w w') :
    Prog.wp o (defineAs host input shareId) (fun _ => Backed (input.removal shareId) w)
      (fun _ => Backed (input.removal shareId) w) (Backed (input.removal shareId) w) w' := by
  have hb := h.backed
  unfold defineAs
  rw [Prog.wp_bind, wp_plainly]
  refine Prog.wp_act_intro ?_ hb hb hb
  rw [Prog.wp_bind]
  apply Prog.wp_ask_answer hb
  intro mountExists _
  rw [Prog.wp_bind]
  apply Prog.wp_ask_answer hb
  intro automountExists _
  split_ifs
  · exact hb
  rw [Prog.wp_bind, wp_plainly, Prog.wp_ofExcept]
  refine ⟨fun contents hcontents => ?_, fun _ _ => hb⟩
  have hmount := h.putUnit .mount contents.1
  have hboth := hmount.putUnit .automount contents.2
  have hfail : ∀ {v : World} {may : MayExist} {reason : QString} {Q : PUnit → World → Prop},
      SecretGone (input.removal shareId) w v →
      Prog.wp o (failCleanly input.unitName shareId may reason) Q
        (fun _ => Backed (input.removal shareId) w) (Backed (input.removal shareId) w) v :=
    fun hv => wp_failCleanly_backed hv.backed (Or.inr hv.gone)
  rw [Prog.wp_bind, wp_orCleanup]
  refine Prog.wp_act_intro ?_ (hfail h) (hfail hmount) hb
  rw [Prog.wp_bind, wp_orCleanup]
  refine Prog.wp_act_intro ?_ (hfail hmount) (hfail hboth) hmount.backed
  have hcarries : carries ((w'.putUnit input.unitName.mount contents.1).putUnit
      input.unitName.automount contents.2) shareId ⟨input.unitName, .automount⟩ = true :=
    carries_iff.2 ⟨_, _, World.unit?_putUnit_self _ input.unitName.automount _, rfl,
      (DefineInput.contents_ok hcontents).2, rfl⟩
  rw [Prog.wp_bind]
  apply wp_establishCredential_backed hboth hcarries
  intro v hv hcredential
  have hreload : Backed (input.removal shareId) w v.reload :=
    hv.congr rfl fun name => World.file?_reload _ _ _
  have hsecret : input.written.credential = true ∨ ¬HasSecret v.reload shareId := by
    rwa [HasSecret, World.file?_reload]
  rw [Prog.wp_bind, wp_orCleanup]
  refine Prog.wp_act_intro ?_ (wp_failCleanly_backed hv hcredential)
    (wp_failCleanly_backed hreload hsecret) hv
  exact wp_armDefinition_backed hreload hsecret

/-- A check that finds one of the two files ends the call before its first write. -/
theorem wp_defineAs_found {o : DefineSite → Outcome} {half : Half} {I : World → Prop}
    (hok : o (.existing half) = .ok)
    (hfound : unitFileReadable w ⟨input.unitName, half⟩ = true) (h : I w) :
    Prog.wp o (defineAs host input shareId) (fun _ => I) (fun _ => I) I w := by
  unfold defineAs
  rw [Prog.wp_bind, wp_plainly]
  refine Prog.wp_act_intro ?_ h h h
  rw [Prog.wp_bind]
  cases half with
  | mount =>
    have hmount : unitFileReadable w input.unitName.mount = true := hfound
    rw [Prog.wp_ask, hok]
    dsimp only
    rw [Prog.wp_bind]
    apply Prog.wp_ask_answer h
    intro automountExists _
    rw [if_pos (by simp [hmount])]
    exact h
  | automount =>
    have hautomount : unitFileReadable w input.unitName.automount = true := hfound
    apply Prog.wp_ask_answer h
    intro mountExists _
    rw [Prog.wp_bind, Prog.wp_ask, hok]
    dsimp only
    rw [if_pos (by simp [hautomount])]
    exact h

/-- A definition under this name takes no credential out of sight: the check finds
one of its files, or every credential has a carrier elsewhere. -/
def DefineInput.Spares (input : DefineInput) (o : DefineSite → Outcome) (w : World) : Prop :=
  (∃ half, o (.existing half) = .ok ∧ unitFileReadable w ⟨input.unitName, half⟩ = true) ∨
    ∀ id, HasSecret w id → ∃ key, key.base ≠ input.unitName ∧ carries w id key = true

theorem wp_define_discoverable {o : DefineSite → Outcome} (hw : Discoverable w)
    (hspares : input.Spares o w) :
    Prog.wp o (define host draws input) (fun _ => Discoverable) (fun _ => Discoverable)
      Discoverable w := by
  have hquiet : ∀ v, Quiet w v → Discoverable v :=
    fun v hv => hw.congr hv.units fun _ => hv.hasSecret.1
  unfold define
  rw [Prog.wp_bind, wp_plainly]
  apply wp_generateUniqueShareId
  case failed => exact fun e => hquiet
  case dead => exact hquiet
  intro shareId v hv _ hfresh
  rcases hspares with ⟨half, hok, hfound⟩ | helse
  · have hreads : unitFileReadable v ⟨input.unitName, half⟩ = true := by
      rwa [unitFileReadable, hv.unit?]
    exact wp_defineAs_found hok hreads (hquiet v hv)
  · have hgone : SecretGone (input.removal shareId) w v := by
      refine ⟨⟨fun key _ => hv.unit? key, fun name _ => hv.files _ name⟩, fun hsecret => ?_⟩
      exact hv.hasSecret.1 hsecret hfresh.credential
    have hdiscoverable : ∀ v', Backed (input.removal shareId) w v' → Discoverable v' :=
      fun v' hb => hb.discoverable helse
    exact Prog.wp_mono _ (wp_defineAs_backed hgone) (fun _ => hdiscoverable)
      (fun _ => hdiscoverable) hdiscoverable

end Define

section Purge

variable {host : Host} {uid : UInt32} {o : PurgeSite → Outcome} {targets : List ValidatedUnit}
  {unit : ValidatedUnit} {id : ShareId} {w w' w'' : World}

/-- The schedule takes every half of the definition off the disk. -/
def halvesGo (o : PurgeSite → Outcome) (w : World) (unit : ValidatedUnit) : Bool :=
  ((w.unit? unit.unitName.mount).isNone || (o (.unlink unit.unitName .mount)).effective) &&
    ((w.unit? unit.unitName.automount).isNone ||
      o (.unlink unit.unitName .mount) = .ok && (o (.unlink unit.unitName .automount)).effective)

/-- The purge comes as far as the credential of the definition, and it goes. -/
def secretGoes (o : PurgeSite → Outcome) (w : World) (unit : ValidatedUnit) : Bool :=
  o (.unlink unit.unitName .mount) = .ok && o (.unlink unit.unitName .automount) = .ok &&
    (w.root? .automountIds).all (·.verified PrivateRoot.automountIds.kind) &&
    entrySucceeds (fun site => o (.record unit.unitName site)) &&
    (w.root? .credentials).all (·.verified PrivateRoot.credentials.kind) &&
    o (.credential unit.unitName .openRoot) = .ok && o (.credential unit.unitName .openDir) = .ok &&
    (o (.credential unit.unitName .entry)).effective

/-- The halves and credentials of the targets may be gone. -/
structure Purging (targets : List ValidatedUnit) (w w' : World) : Prop extends Thinned w w' where
  outside : ∀ key : UnitKey, (∀ unit ∈ targets, unit.unitName ≠ key.base) →
    w'.unit? key = w.unit? key
  secrets : ∀ id, HasSecret w' id → HasSecret w id

theorem hasSecret_of_dropFile {root : PrivateRoot} {name : QString}
    (h : HasSecret (w.dropFile root name) id) : HasSecret w id := by
  by_cases hsame : root = .credentials ∧ CredentialStore.fileNameFor id = name
  · obtain ⟨rfl, rfl⟩ := hsame
    exact absurd (World.file?_dropFile_self _ _ _) h
  · rw [not_and_or] at hsame
    rwa [HasSecret, World.file?_dropFile_ne _ _ (hsame.imp_left Ne.symm)] at h

theorem hasSecret_of_removeRoot {root : PrivateRoot} (h : HasSecret (w.setRoot root none) id) :
    HasSecret w id := by
  by_cases hroot : root = .credentials
  · subst hroot
    exact absurd rfl h
  · rwa [HasSecret, World.file?, World.root?_setRoot_ne _ _ (Ne.symm hroot)] at h

theorem Purging.refl (targets : List ValidatedUnit) (w : World) (sys : Sys) :
    Purging targets w { w with sys := sys } :=
  ⟨(Thinned.refl w).sys sys, fun _ _ => rfl, fun _ h => h⟩

theorem Purging.quiet (h : Purging targets w w') (hquiet : Quiet w' w'') :
    Purging targets w w'' where
  toThinned := h.toThinned.quiet hquiet
  outside key hkey := (hquiet.unit? key).trans (h.outside key hkey)
  secrets id hid := h.secrets id (hquiet.hasSecret.1 hid)

theorem Purging.dropUnit (h : Purging targets w w') (hmem : unit ∈ targets) (half : Half) :
    Purging targets w (w'.dropUnit ⟨unit.unitName, half⟩) where
  toThinned := h.toThinned.dropUnit _
  outside key hkey := by
    have hne : key ≠ ⟨unit.unitName, half⟩ :=
      fun heq => hkey unit hmem (congrArg UnitKey.base heq).symm
    exact (World.unit?_dropUnit_ne _ hne).trans (h.outside key hkey)
  secrets := h.secrets

theorem Purging.dropFile (h : Purging targets w w') (root : PrivateRoot) (name : QString) :
    Purging targets w (w'.dropFile root name) where
  toThinned := h.toThinned.dropFile root name
  outside key hkey := (World.unit?_dropFile _ _ _ _).trans (h.outside key hkey)
  secrets id hid := h.secrets id (hasSecret_of_dropFile hid)

theorem Purging.reload (h : Purging targets w w') : Purging targets w w'.reload where
  toThinned := h.toThinned.reload
  outside := h.outside
  secrets := h.secrets

theorem Purging.removeRoot (h : Purging targets w w') (root : PrivateRoot) :
    Purging targets w (w'.setRoot root none) where
  toThinned := h.toThinned.removeRoot root
  outside key hkey := by
    rw [World.unit?, World.units_setRoot]
    exact h.outside key hkey
  secrets id hid := h.secrets id (hasSecret_of_removeRoot hid)

/-- Every target whose credential is there has a half left. -/
structure Visible (targets : List ValidatedUnit) (w w' : World) : Prop
    extends Purging targets w w' where
  half : ∀ unit ∈ targets, HasSecret w' unit.marker.id →
    ∃ half, w'.unit? ⟨unit.unitName, half⟩ ≠ none

/-- The halves of every target, as the gate accepted them. -/
def TargetHalves (w : World) (uid : UInt32) (targets : List ValidatedUnit) : Prop :=
  ∀ unit ∈ targets, OwnedHalves w unit.unitName uid unit.mountPoint unit.marker

theorem targetHalves (h : purgeTargets host w uid = .ok targets) : TargetHalves w uid targets := by
  obtain ⟨-, -, hvalid⟩ := purgeTargets_eq_ok.1 h
  intro unit hmem
  obtain ⟨entry, -, hentry⟩ := exists_of_forall₂_left hvalid.flip hmem
  obtain ⟨-, hhalves, -, -, -, -, hname, hpoint, -⟩ := validateUnit_eq_ok.1 hentry
  rwa [hname, hpoint]

theorem Visible.discoverable (h : Visible targets w w') (hw : Discoverable w)
    (hown : TargetHalves w uid targets) : Discoverable w' := by
  apply hw.of_frame h.secrets
  intro id key hid hkey
  by_cases hout : ∀ unit ∈ targets, unit.unitName ≠ key.base
  · exact ⟨key, by rwa [carries_congr (h.outside key hout)]⟩
  · push Not at hout
    obtain ⟨unit, hmem, hbase⟩ := hout
    obtain ⟨base, half⟩ := key
    obtain rfl : unit.unitName = base := hbase
    obtain ⟨-, rfl⟩ := (carries_ownedHalves (hown unit hmem) half).1 hkey
    obtain ⟨left, hleft⟩ := h.half unit hmem hid
    have hsame := (h.units ⟨unit.unitName, left⟩).resolve_left hleft
    refine ⟨⟨unit.unitName, left⟩, ?_⟩
    rw [carries_congr hsame, carries_ownedHalves (hown unit hmem)]
    exact ⟨hsame ▸ hleft, rfl⟩

/-- The target is as it was, or its credential is gone. -/
def Whole (w w' : World) (unit : ValidatedUnit) : Prop :=
  (∀ half, w'.unit? ⟨unit.unitName, half⟩ = w.unit? ⟨unit.unitName, half⟩) ∨
    ¬HasSecret w' unit.marker.id

/-- Between the turn of one target and the end of it. -/
structure Turning (unit : ValidatedUnit) (targets : List ValidatedUnit) (w w' : World) : Prop
    extends Purging targets w w' where
  others : ∀ other ∈ targets, other.unitName ≠ unit.unitName → Whole w w' other
  ready : ∀ root, Ready root w → Ready root w'

theorem Turning.quiet (h : Turning unit targets w w') (hquiet : Quiet w' w'') :
    Turning unit targets w w'' where
  toPurging := h.toPurging.quiet hquiet
  others other hother hne := (h.others other hother hne).imp
    (fun hsame half => (hquiet.unit? _).trans (hsame half)) fun hgone hid =>
      hgone (hquiet.hasSecret.1 hid)
  ready root hr := hquiet.ready root (h.ready root hr)

theorem Turning.dropUnit (h : Turning unit targets w w') (hmem : unit ∈ targets) (half : Half) :
    Turning unit targets w (w'.dropUnit ⟨unit.unitName, half⟩) where
  toPurging := h.toPurging.dropUnit hmem half
  others other hother hne := by
    refine (h.others other hother hne).imp_left fun hsame half' => ?_
    rw [World.unit?_dropUnit_ne _ fun heq => hne (congrArg UnitKey.base heq)]
    exact hsame half'
  ready root hr := by
    have hready := h.ready root hr
    cases root <;> exact hready

theorem Turning.dropFile (h : Turning unit targets w w') (root : PrivateRoot) (name : QString) :
    Turning unit targets w (w'.dropFile root name) where
  toPurging := h.toPurging.dropFile root name
  others other hother hne := (h.others other hother hne).imp
    (fun hsame half => (World.unit?_dropFile _ _ _ _).trans (hsame half)) fun hgone hid =>
      hgone (hasSecret_of_dropFile hid)
  ready _ hr := ready_updateFiles (h.ready _ hr)

/-- Two targets of one name carry one id. -/
theorem TargetHalves.id_eq (hown : TargetHalves w uid targets) {other : ValidatedUnit}
    (hmem : unit ∈ targets) (hother : other ∈ targets) (hname : other.unitName = unit.unitName) :
    other.marker.id = unit.marker.id := by
  have hhalves := hown other hother
  rw [hname] at hhalves
  rw [ownedHalves_marker_unique hhalves (hown unit hmem)]

theorem Turning.visible (h : Turning unit targets w w') (hown : TargetHalves w uid targets)
    (hmem : unit ∈ targets)
    (hhalf : HasSecret w' unit.marker.id → ∃ half, w'.unit? ⟨unit.unitName, half⟩ ≠ none) :
    Visible targets w w' := by
  refine ⟨h.toPurging, fun other hother hid => ?_⟩
  by_cases hname : other.unitName = unit.unitName
  · rw [hown.id_eq hmem hother hname] at hid
    rw [hname]
    exact hhalf hid
  · have hsame := (h.others other hother hname).resolve_right fun hgone => hgone hid
    obtain ⟨half, hpresent⟩ := (hown other hother).present
    exact ⟨half, by rwa [hsame half]⟩

/-- Between the turns. -/
structure Untorn (targets : List ValidatedUnit) (w w' : World) : Prop
    extends Purging targets w w' where
  whole : ∀ unit ∈ targets, Whole w w' unit
  ready : ∀ root, Ready root w → Ready root w'

theorem Untorn.turning (h : Untorn targets w w') (unit : ValidatedUnit) :
    Turning unit targets w w' :=
  ⟨h.toPurging, fun other hother _ => h.whole other hother, h.ready⟩

theorem Untorn.visible (h : Untorn targets w w') (hown : TargetHalves w uid targets) :
    Visible targets w w' := by
  refine ⟨h.toPurging, fun unit hmem hid => ?_⟩
  have hsame := (h.whole unit hmem).resolve_right fun hgone => hgone hid
  obtain ⟨half, hpresent⟩ := (hown unit hmem).present
  exact ⟨half, by rwa [hsame half]⟩

theorem Turning.untorn (h : Turning unit targets w w') (hown : TargetHalves w uid targets)
    (hmem : unit ∈ targets) (hgone : ¬HasSecret w' unit.marker.id) : Untorn targets w w' := by
  refine ⟨h.toPurging, fun other hother => ?_, h.ready⟩
  by_cases hname : other.unitName = unit.unitName
  · right
    rwa [hown.id_eq hmem hother hname]
  · exact h.others other hother hname

/-- The credential of the turn is gone. -/
structure Taken (unit : ValidatedUnit) (targets : List ValidatedUnit) (w w' : World) : Prop
    extends Turning unit targets w w' where
  gone : ¬HasSecret w' unit.marker.id

theorem keeps_taken (hmem : unit ∈ targets) :
    Prog.Keeps (Taken unit targets w) (purgeUnit unit) := by
  have hquiet : ∀ s s', Quiet s s' → Taken unit targets w s → Taken unit targets w s' :=
    fun s s' hq h => ⟨h.toTurning.quiet hq, fun hid => h.gone (hq.hasSecret.1 hid)⟩
  have hfile : ∀ root s name, Taken unit targets w s →
      Taken unit targets w (s.dropFile root name) :=
    fun root s name h =>
      ⟨h.toTurning.dropFile root name, fun hid => h.gone (hasSecret_of_dropFile hid)⟩
  apply Prog.Keeps.bind
  · apply Prog.Keeps.bind (Prog.keeps_act fun s h => ⟨h.toTurning.dropUnit hmem .mount, h.gone⟩)
    intro _
    exact Prog.keeps_act fun s h => ⟨h.toTurning.dropUnit hmem .automount, h.gone⟩
  intro _
  apply Prog.Keeps.bind
    (Prog.Keeps.mapSites (keeps_openPrivateRoot_act hquiet fun s => hfile .automountIds s _))
  intro _
  exact Prog.Keeps.mapSites (keeps_openPrivateRoot_act hquiet fun s => hfile .credentials s _)

theorem halvesGo_eq_true : halvesGo o w unit = true ↔
    (w.unit? unit.unitName.mount = none ∨ (o (.unlink unit.unitName .mount)).effective = true) ∧
      (w.unit? unit.unitName.automount = none ∨ o (.unlink unit.unitName .mount) = .ok ∧
        (o (.unlink unit.unitName .automount)).effective = true) := by
  simp only [halvesGo, Bool.and_eq_true, Bool.or_eq_true, Option.isNone_iff_eq_none,
    decide_eq_true_eq]

/-- The rest of a turn, once both halves are gone and the schedule takes the
credential as well. -/
theorem wp_purgeRest (hown : TargetHalves w uid targets) (hmem : unit ∈ targets)
    (hgoes : secretGoes o w unit = true) (h : Turning unit targets w w') :
    Prog.wp o (do
        Prog.mapSites (PurgeSite.record unit.unitName)
          (RuntimeFiles.removeAutomountId unit.unitName)
        Prog.mapSites (.credential unit.unitName) (CredentialStore.remove unit.marker.id))
      (fun _ => Untorn targets w) (fun _ => Visible targets w) (Visible targets w) w' := by
  simp only [secretGoes, Bool.and_eq_true, decide_eq_true_eq] at hgoes
  obtain ⟨⟨⟨⟨⟨⟨-, hids⟩, hrecord⟩, hcredentials⟩, hopen⟩, hdir⟩, hentry⟩ := hgoes
  rw [← ready_iff] at hids hcredentials
  rw [Prog.wp_bind, Prog.wp_mapSites]
  refine wp_openPrivateRoot_act_ready (h.ready _ hids) ?_ ?_ ?_ ?_
  · intro _ v hv _
    have hturn := (h.quiet hv).dropFile .automountIds unit.unitName.text
    have hdone : Untorn targets w (((v.dropFile .automountIds unit.unitName.text).ensureRoot
        .credentials).dropFile .credentials (CredentialStore.fileNameFor unit.marker.id)) := by
      apply ((hturn.quiet (quiet_ensureRoot _ _)).dropFile _ _).untorn hown hmem
      rw [HasSecret, World.file?_dropFile_self]
      exact fun hne => hne rfl
    rw [Prog.wp_mapSites]
    exact wp_openPrivateRoot_act_effective (hturn.ready _ hcredentials) hopen hdir hentry hdone
      (hdone.visible hown)
  · intro hfails
    exact absurd (hrecord.symm.trans hfails) nofun
  · intro hfails
    exact absurd (hrecord.symm.trans hfails) nofun
  · intro hfails
    exact absurd (hrecord.symm.trans hfails) nofun

/-- One turn of the deletion loop. The last half goes only if the credential does. -/
theorem wp_purgeUnit_untorn (hown : TargetHalves w uid targets) (hmem : unit ∈ targets)
    (hmeets : HasSecret w unit.marker.id → halvesGo o w unit = true → secretGoes o w unit = true)
    (h : Untorn targets w w') :
    Prog.wp o (purgeUnit unit) (fun _ => Untorn targets w) (fun _ => Visible targets w)
      (Visible targets w) w' := by
  have hturn := h.turning unit
  by_cases hsecret : HasSecret w' unit.marker.id
  case neg =>
    have hvisible : ∀ v, Taken unit targets w v → Visible targets w v :=
      fun v hv => (hv.untorn hown hmem hv.gone).visible hown
    exact Prog.wp_mono _ (keeps_taken hmem o w' ⟨hturn, hsecret⟩)
      (fun _ v hv => hv.untorn hown hmem hv.gone) (fun _ => hvisible) hvisible
  have hsame := (h.whole unit hmem).resolve_right fun hgone => hgone hsecret
  replace hmeets := hmeets (h.secrets _ hsecret)
  rw [halvesGo_eq_true] at hmeets
  have hvisible := h.visible hown
  have hboth : secretGoes o w unit = true →
      o (.unlink unit.unitName .mount) = .ok ∧ o (.unlink unit.unitName .automount) = .ok := by
    intro hgoes
    simp only [secretGoes, Bool.and_eq_true, decide_eq_true_eq] at hgoes
    exact hgoes.1.1.1.1.1.1
  -- With the mount half gone, the automount half stays unless the turn goes on.
  have hstay : (o (.unlink unit.unitName .mount)).effective = true →
      ¬(o (.unlink unit.unitName .mount) = .ok ∧ o (.unlink unit.unitName .automount) = .ok) →
      Visible targets w (w'.dropUnit unit.unitName.mount) := by
    intro heffective hstops
    apply (hturn.dropUnit hmem .mount).visible hown hmem
    intro _
    refine ⟨.automount, ?_⟩
    rw [World.unit?_dropUnit_ne _ (by simp), hsame]
    intro hnone
    exact hstops (hboth (hmeets ⟨Or.inr heffective, Or.inl hnone⟩))
  unfold purgeUnit unlinkHalves removeUnitFile
  rw [Prog.wp_bind, Prog.wp_bind, Prog.wp_act]
  cases hmount : o (.unlink unit.unitName .mount) with
  | killed => exact hvisible
  | failed applied =>
    cases applied with
    | false => exact hvisible
    | true => exact hstay (by rw [hmount]; rfl) fun hok => nomatch hmount.symm.trans hok.1
  | ok =>
    have heffective : (o (.unlink unit.unitName .mount)).effective = true := by
      rw [hmount]
      rfl
    dsimp only
    rw [Prog.wp_act]
    cases hautomount : o (.unlink unit.unitName .automount) with
    | killed => exact hstay heffective fun hok => nomatch hautomount.symm.trans hok.2
    | failed applied =>
      cases applied with
      | false => exact hstay heffective fun hok => nomatch hautomount.symm.trans hok.2
      | true =>
        have hgoes := hmeets ⟨Or.inr heffective, Or.inr ⟨hmount, by rw [hautomount]; rfl⟩⟩
        exact nomatch hautomount.symm.trans (hboth hgoes).2
    | ok =>
      have hgoes := hmeets ⟨Or.inr heffective, Or.inr ⟨hmount, by rw [hautomount]; rfl⟩⟩
      exact wp_purgeRest hown hmem hgoes ((hturn.dropUnit hmem .mount).dropUnit hmem .automount)

/-- No target is left without a half while it has a credential. -/
def PurgeSpares (host : Host) (uid : UInt32) (o : PurgeSite → Outcome) (w : World) : Prop :=
  ∀ targets, purgeTargets host w uid = .ok targets → ∀ unit ∈ targets,
    HasSecret w unit.marker.id → halvesGo o w unit = true → secretGoes o w unit = true

theorem wp_purge_discoverable (hw : Discoverable w) (hspares : PurgeSpares host uid o w) :
    Prog.wp o (purge host uid) (fun _ => Discoverable) (fun _ => Discoverable) Discoverable w := by
  unfold purge
  rw [Prog.wp_bind, Prog.wp_look, Prog.wp_bind, Prog.wp_ofExcept]
  refine ⟨fun targets htargets => ?_, fun _ _ => hw⟩
  have hown := targetHalves htargets
  have hdone : ∀ v, Visible targets w v → Discoverable v := fun v hv => hv.discoverable hw hown
  have hstart : ∀ v sys, v = { w with sys := sys } → Untorn targets w v := by
    rintro _ sys rfl
    refine ⟨Purging.refl targets w sys, fun unit _ => Or.inl fun _ => rfl, fun root hr => ?_⟩
    cases root <;> exact hr
  have hstops : Prog.Keeps (fun v => ∃ sys, v = { w with sys := sys })
      (Prog.forEach targets (stopUnit host)) := by
    apply Prog.keeps_forEach
    intro unit
    apply keeps_stopUnit
    rintro _ sys ⟨_, rfl⟩
    exact ⟨sys, rfl⟩
  rw [Prog.wp_bind]
  refine Prog.wp_mono _ (hstops o w ⟨w.sys, rfl⟩) ?_ ?_ ?_
  · rintro _ v ⟨sys, hv⟩
    have huntorn := hstart v sys hv
    have hfound := hdone v (huntorn.visible hown)
    rw [Prog.wp_bind]
    refine Prog.wp_act_intro ?_ hfound hfound hfound
    rw [Prog.wp_bind]
    refine Prog.wp_mono _ (Prog.wp_forEach
      (fun rest s => (∀ unit ∈ rest, unit ∈ targets) ∧ Untorn targets w s)
      (E := fun _ => Visible targets w) (C := Visible targets w) ?_
        ⟨fun _ h => h, huntorn⟩) ?_ ?_ ?_
    · rintro unit rest s ⟨hmem, hs⟩
      have hunit := hmem unit List.mem_cons_self
      refine Prog.wp_mono _ (wp_purgeUnit_untorn hown hunit
        (hspares targets htargets unit hunit) hs)
        ?_ (fun _ _ h => h) fun _ h => h
      exact fun _ t ht => ⟨fun other hother => hmem other (List.mem_cons_of_mem _ hother), ht⟩
    · rintro _ t ⟨-, ht⟩
      have hvisible := ht.visible hown
      have hreload : Visible targets w t.reload := ⟨hvisible.toPurging.reload, hvisible.half⟩
      rw [Prog.wp_bind]
      refine Prog.wp_act_intro ?_ (hdone _ hvisible) (hdone _ hreload) (hdone _ hvisible)
      have hroots : Prog.Keeps (Visible targets w) (do removeRoots; return targets.length) := by
        apply Prog.Keeps.bind
        · apply keeps_removeRoots
          · intro s root name hs
            refine ⟨hs.toPurging.dropFile root name, fun unit hmem hid => ?_⟩
            obtain ⟨half, hhalf⟩ := hs.half unit hmem (hasSecret_of_dropFile hid)
            exact ⟨half, by rwa [World.unit?_dropFile]⟩
          · intro s root hs
            refine ⟨hs.toPurging.removeRoot root, fun unit hmem hid => ?_⟩
            obtain ⟨half, hhalf⟩ := hs.half unit hmem (hasSecret_of_removeRoot hid)
            exact ⟨half, by rwa [World.unit?, World.units_setRoot]⟩
        · exact fun _ => Prog.keeps_pure _
      exact Prog.wp_mono _ (hroots o _ hreload) (fun _ => hdone) (fun _ => hdone) hdone
    · exact fun _ => hdone
    · exact hdone
  · rintro _ v ⟨sys, hv⟩
    exact hdone v ((hstart v sys hv).visible hown)
  · rintro v ⟨sys, hv⟩
    exact hdone v ((hstart v sys hv).visible hown)

end Purge

section Runs

variable {host : Host} {w : World}

/-- A call of the root side, or a change of the runtime between the calls. -/
inductive RootCall
  | define (draws : ℕ → UInt64 × UInt64) (input : DefineInput) (schedule : DefineSite → Outcome)
  /-- The removal of what the inspection of the mount point finds. -/
  | remove (base : UnitName) (uid : UInt32) (mountPoint : QString) (schedule : RemoveSite → Outcome)
  | purge (uid : UInt32) (schedule : PurgeSite → Outcome)
  | runtime (sys : Sys)

namespace RootCall

/-- However the call ends, by a return, a failure or a kill. -/
def run (host : Host) (w : World) : RootCall → World
  | define draws input schedule => ((Root.define host draws input).run schedule w).2
  | remove base uid mountPoint schedule =>
    match removalInput base mountPoint (inspectDefinition w base uid mountPoint) with
    | none => w
    | some input => ((Root.remove host input).run schedule w).2
  | purge uid schedule => ((Root.purge host uid).run schedule w).2
  | runtime sys => { w with sys := sys }

/-- The call takes the last carrier of no id whose credential it leaves. -/
def Spares (host : Host) (w : World) : RootCall → Prop
  | define _ input schedule => input.Spares schedule w
  | remove .. => True
  | purge uid schedule => PurgeSpares host uid schedule w
  | runtime _ => True

end RootCall

/-- One call that spares the carriers leaves every credential discoverable. -/
theorem Discoverable.run (h : Discoverable w) {call : RootCall} (hspares : call.Spares host w) :
    Discoverable (call.run host w) := by
  cases call with
  | define draws input schedule => exact Prog.wp_state (wp_define_discoverable h hspares)
  | remove base uid mountPoint schedule =>
    unfold RootCall.run
    dsimp only
    cases hinput : removalInput base mountPoint (inspectDefinition w base uid mountPoint) with
    | none => exact h
    | some input =>
      have hfirst : SecretFirst input w ((remove host input).run schedule w).2 :=
        Prog.wp_state wp_remove_secretFirst
      obtain ⟨marker, hhalves, rfl⟩ := ownedHalves_of_removalInput hinput
      exact hfirst.discoverable h hhalves rfl
  | purge uid schedule => exact Prog.wp_state (wp_purge_discoverable h hspares)
  | runtime sys => exact h

/-- In every run whose calls spare the carriers, no credential is ever out of sight. -/
theorem no_orphaned_secret (host : Host) (w : World) (hw : Discoverable w) (calls : List RootCall)
    (hspares : Runs.Throughout (RootCall.run host) (RootCall.Spares host) w calls) :
    Discoverable (calls.foldl (RootCall.run host) w) :=
  Runs.run_keeps (fun _ _ h hcall => h.run hcall) hw hspares

theorem discoverable_blank : Discoverable World.blank := fun _ hsecret => absurd rfl hsecret

/-- A purge that fails at its second file, and a removal of what it left. -/
theorem no_orphaned_secret_sample :
    Discoverable ([.define (fun n => (0, n.toUInt64)) sampleInput Prog.allOk,
      .purge 1000 (purgeFailsAt (.unlink sampleInput.unitName .automount)),
      .remove sampleInput.unitName 1000 (qs "/mnt/nas") Prog.allOk].foldl
        (RootCall.run sampleHost) World.blank) := by
  apply no_orphaned_secret sampleHost World.blank discoverable_blank
  refine ⟨Or.inr fun _ hsecret => absurd rfl hsecret, ?_, trivial, trivial⟩
  intro targets htargets unit hmem _ hgo
  have hall : (purgeTargets sampleHost sampleWorld 1000).toOption.all (fun targets =>
      targets.all fun unit => !halvesGo (purgeFailsAt (.unlink sampleInput.unitName .automount))
        sampleWorld unit) = true := by
    decide +kernel
  have hnot := List.all_eq_true.1
    ((Option.all_eq_true _ _).1 hall targets (toOption_eq_some.2 htargets)) unit hmem
  rw [Bool.not_eq_true'] at hnot
  exact nomatch hnot.symm.trans hgo

/-- A carrier is one of the files. -/
theorem not_discoverable {id : ShareId} (hsecret : HasSecret w id)
    (hnone : w.units.keys.all (fun key => !carries w id key) = true) : ¬Discoverable w := by
  intro h
  obtain ⟨key, hkey⟩ := h id hsecret
  obtain ⟨node, -, hnode, -⟩ := carries_iff.1 hkey
  have hmem : key ∈ w.units.keys := mem_keys_of_lookup hnode
  have hnot := List.all_eq_true.1 hnone key hmem
  simp [hkey] at hnot

/-- A world with one credential, whose id some unit file carries. -/
theorem discoverable_of_single {id : ShareId} {key : UnitKey}
    (hfiles : w.credentials.all
      (fun dir => dir.files.keys.all (· = CredentialStore.fileNameFor id)) = true)
    (hkey : carries w id key = true) : Discoverable w := by
  intro other hsecret
  obtain ⟨node, hnode⟩ := Option.ne_none_iff_exists'.1 hsecret
  obtain ⟨dir, hdir, hlookup⟩ := Option.bind_eq_some_iff.1 hnode
  have hmem : CredentialStore.fileNameFor other ∈ dir.files.keys := mem_keys_of_lookup hlookup
  have hname := List.all_eq_true.1 ((Option.all_eq_true _ _).1 hfiles dir hdir) _ hmem
  rw [decide_eq_true_eq] at hname
  rw [CredentialStore.fileNameFor_injective hname]
  exact ⟨key, hkey⟩

/-- The sample share, its unit files no longer readable for everyone. -/
def driftedWorld : World :=
  { sampleWorld with
    units := sampleWorld.units.keys.foldl
      (fun units key => (sampleWorld.unit? key).elim units fun node =>
        units.insert key { node with mode := 0o640 }) ∅ }

/-- A purge that is killed after the halves of a definition, and an Add over unit
files whose mode the check does not accept: both leave the credential of a share
that no unit file names. -/
theorem orphaned_secret :
    (Discoverable sampleWorld ∧ ¬Discoverable (RootCall.run sampleHost sampleWorld
      (.purge 1000 fun site => if site =
        .record sampleInput.unitName .openRoot then .killed else .ok))) ∧
    Discoverable driftedWorld ∧ ¬Discoverable (RootCall.run sampleHost driftedWorld
      (.define (fun n => (0, n.toUInt64)) sampleInput Prog.allOk)) := by
  have hid : (RootCall.run sampleHost sampleWorld (.purge 1000 fun site =>
      if site = .record sampleInput.unitName .openRoot then .killed else .ok)).file? .credentials
        (CredentialStore.fileNameFor (candidateId (0, 7))) ≠ none := by decide +kernel
  have hid' : (RootCall.run sampleHost driftedWorld
      (.define (fun n => (0, n.toUInt64)) sampleInput Prog.allOk)).file? .credentials
        (CredentialStore.fileNameFor (candidateId (0, 7))) ≠ none := by decide +kernel
  refine ⟨⟨?_, not_discoverable hid (by decide +kernel)⟩, ?_,
    not_discoverable hid' (by decide +kernel)⟩
  · exact @discoverable_of_single _ (candidateId (0, 7)) sampleInput.unitName.mount
      (by decide +kernel) (by decide +kernel)
  · exact @discoverable_of_single _ (candidateId (0, 7)) sampleInput.unitName.mount
      (by decide +kernel) (by decide +kernel)

end Runs

end NasMount.Root
