import NasMount.Root.RemovalScope
import NasMount.Session.Store

/-!
# Deleting a saved share

The session looks a share up by its id and sends the saved mount point to the
helper, which removes the definition it finds there. The two agree about what is
removed only while the record is not stale.
-/
namespace NasMount.Session

open NasMount.Foundation NasMount.Core NasMount.Root QString

inductive DeleteSite
  | userLock
  | authorize
  | helper (site : RemoveSite)
  | reply
  | sync
  deriving DecidableEq

def notRemoved (mountPoint error : QString) : QString :=
  qs "could not fully remove " ++ mountPoint ++ qs ": " ++ error ++ qs " - retry removal later"

/-- `MountActions::deleteShare`. The record goes once the helper confirmed. -/
def deleteShare (host : Host) (caller : Caller) (id : QString) :
    Prog DeleteSite (World × Config) QString PUnit := do
  Prog.act .userLock (qs "cannot acquire the user lock") fun s => s
  let snapshot ← Prog.look fun s => Store.snapshotById s.2 id
  if !snapshot.present then Prog.raise (qs "no such share")
  else
    let mountPoint := snapshot.share.mountPoint
    Prog.act .authorize (notRemoved mountPoint (qs "the operation failed")) fun s => s
    match ← (Prog.onFst (Prog.mapSites .helper (doUndefine host caller mountPoint))).attempt with
    | .error error => Prog.raise (notRemoved mountPoint error)
    | .ok _ =>
      Prog.act .reply (notRemoved mountPoint (qs "could not confirm the result")) fun s => s
      Prog.act .sync
        (qs "removed the definition, but the local record could not be fully cleared - retry " ++
          qs "from this list") fun s => (s.1, Store.removeShare id s.2)

/-- No unit half and no credential of a definition with another id changed,
whoever owns it. -/
def OthersSpared (id : QString) (w w' : World) : Prop :=
  ∀ base uid mountPoint marker, OwnedHalves w base uid mountPoint marker → marker.id.text ≠ id →
    (∀ half, w'.unit? ⟨base, half⟩ = w.unit? ⟨base, half⟩) ∧
      w'.file? .credentials (CredentialStore.fileNameFor marker.id) =
        w.file? .credentials (CredentialStore.fileNameFor marker.id)

/-- The saved mount point of the record is that of a removable definition of the
caller with another id. -/
def Stale (host : Host) (caller : Caller) (config : Config) (w : World) (id : QString) : Prop :=
  (Store.snapshotById config id).present = true ∧
    ∃ plan base marker,
      prepare host caller (Store.snapshotById config id).share.mountPoint = .ok (plan, base) ∧
        OwnedHalves w base caller.uid plan.path marker ∧ marker.id.text ≠ id ∧
        stoppable w base plan.path (sideAt w caller.uid plan.path base.mount).what = true ∧
        Ready .credentials w

section Delete

variable {host : Host} {caller : Caller} {config : Config} {w : World} {id : QString}

/-- What the call does to the machine is what the helper does with the saved
mount point. -/
theorem deleteShare_world {o : DeleteSite → Outcome} {P : World → Prop} (hw : P w)
    (hhelper : (Store.snapshotById config id).present = true →
      Prog.wp (fun site => o (.helper site))
        (doUndefine host caller (Store.snapshotById config id).share.mountPoint) (fun _ => P)
        (fun _ => P) P w) :
    P ((deleteShare host caller id).run o (w, config)).2.1 := by
  refine @Prog.wp_state _ _ _ _ o (w, config) _ (fun s => P s.1) ?_
  unfold deleteShare
  rw [Prog.wp_bind]
  refine Prog.wp_act_intro ?_ hw hw hw
  rw [Prog.wp_bind, Prog.wp_look]
  cases hpresent : (Store.snapshotById config id).present with
  | false => simpa [hpresent] using hw
  | true =>
    simp only [Bool.not_true, Bool.false_eq_true, if_false]
    rw [Prog.wp_bind]
    refine Prog.wp_act_intro ?_ hw hw hw
    rw [Prog.wp_bind, Prog.wp_attempt, Prog.wp_onFst, Prog.wp_mapSites]
    refine Prog.wp_mono _ (hhelper hpresent) ?_ (fun _ _ h => h) fun _ h => h
    intro _ w' h
    dsimp only
    rw [Prog.wp_bind]
    refine Prog.wp_act_intro ?_ h h h
    exact Prog.wp_act_intro h h h h

/-- A removal spares every definition with another id. -/
theorem othersSpared_of_elsewhere {input : RemovalInput} {uid : UInt32} {mp : QString}
    {marker : Marker} {w' : World} (h : Elsewhere input w w')
    (hhalves : OwnedHalves w input.unitName uid mp marker) (hid : input.shareId = marker.id)
    (hsame : marker.id.text = id) : OthersSpared id w w' := by
  intro base uid' mp' other hother hne
  have hbase : base ≠ input.unitName := by
    rintro rfl
    exact hne (ownedHalves_marker_unique hhalves hother ▸ hsame)
  refine ⟨fun half => h.unit? _ hbase, h.credential _ ?_⟩
  intro hname
  have hsameId := CredentialStore.fileNameFor_injective hname
  exact hne (hsameId ▸ hid ▸ hsame)

theorem deleteShare_world_allOk {P : World → Prop}
    (hpresent : (Store.snapshotById config id).present = true)
    (hhelper : Prog.wp Prog.allOk
      (doUndefine host caller (Store.snapshotById config id).share.mountPoint) (fun _ => P)
      (fun _ => P) P w) :
    P ((deleteShare host caller id).run Prog.allOk (w, config)).2.1 := by
  refine @Prog.wp_state _ _ _ _ Prog.allOk (w, config) _ (fun s => P s.1) ?_
  unfold deleteShare
  rw [Prog.wp_bind, Prog.wp_act_allOk, Prog.wp_bind, Prog.wp_look]
  simp only [hpresent, Bool.not_true, Bool.false_eq_true, if_false]
  rw [Prog.wp_bind, Prog.wp_act_allOk, Prog.wp_bind, Prog.wp_attempt, Prog.wp_onFst,
    Prog.wp_mapSites_allOk]
  refine Prog.wp_mono _ hhelper ?_ (fun _ _ h => h) fun _ h => h
  intro _ w' h
  dsimp only
  rw [Prog.wp_bind, Prog.wp_act_allOk, Prog.wp_act_allOk]
  exact h

/-- Deleting a saved share spares every definition with another id, exactly when
its record is not stale. -/
theorem delete_spares_others_iff (host : Host) (caller : Caller) (config : Config) (w : World)
    (id : QString) :
    (∀ o, OthersSpared id w ((deleteShare host caller id).run o (w, config)).2.1) ↔
      ¬Stale host caller config w id := by
  constructor
  · rintro hspared ⟨hpresent, plan, base, marker, hprepare, hhalves, hne, hstop, hready⟩
    have hinput := removalInput_of_ownedHalves hhalves
    have hgone : ∀ half, ((deleteShare host caller id).run Prog.allOk (w, config)).2.1.unit?
        ⟨base, half⟩ = none := by
      apply deleteShare_world_allOk hpresent
        (P := fun w' => ∀ half, w'.unit? ⟨base, half⟩ = none)
      unfold doUndefine
      rw [Prog.wp_bind, hprepare, Prog.wp_ofExcept]
      refine ⟨fun target htarget => ?_, fun _ herror => nomatch herror⟩
      obtain rfl := Except.ok.inj htarget
      rw [Prog.wp_bind, Prog.wp_look]
      simp only [hinput]
      have hnone : ∀ w', Left host Prog.allOk
          { shareId := marker.id, mountPoint := plan.path, unitName := base
            what := (sideAt w caller.uid plan.path base.mount).what } w w' →
          ∀ half, w'.unit? ⟨base, half⟩ = none := by
        intro w' hleft half
        have hunit := hleft.unit? half
        rwa [if_pos (unlinks_allOk hstop half)] at hunit
      exact Prog.wp_mono _ (wp_remove_left hready) (fun _ => hnone) (fun _ => hnone) hnone
    obtain ⟨half, hpresent⟩ := hhalves.present
    have hsame := (hspared Prog.allOk base caller.uid plan.path marker hhalves hne).1 half
    exact hpresent (hsame.symm.trans (hgone half))
  · intro hfresh o
    have hrefl : OthersSpared id w w := fun _ _ _ _ _ _ => ⟨fun _ => rfl, rfl⟩
    apply deleteShare_world hrefl
    intro hpresent
    unfold doUndefine
    rw [Prog.wp_bind, Prog.wp_ofExcept]
    refine ⟨fun target htarget => ?_, fun _ _ => hrefl⟩
    rw [Prog.wp_bind, Prog.wp_look]
    cases hinput : removalInput target.2 target.1.path
        (inspectDefinition w target.2 caller.uid target.1.path) with
    | none => exact hrefl
    | some input =>
      obtain ⟨marker, hhalves, rfl⟩ := ownedHalves_of_removalInput hinput
      dsimp only
      by_cases hid : marker.id.text = id
      · have hscope : ∀ w', Elsewhere
            { shareId := marker.id, mountPoint := target.1.path, unitName := target.2
              what := (sideAt w caller.uid target.1.path target.2.mount).what } w w' →
            OthersSpared id w w' :=
          fun w' h => othersSpared_of_elsewhere h hhalves rfl hid
        exact Prog.wp_mono _ (keeps_elsewhere _ w ⟨fun _ _ => rfl, fun _ _ => rfl⟩)
          (fun _ w' h => hscope w' h) (fun _ w' h => hscope w' h) hscope
      · have hsame : ∀ w', (w'.units = w.units ∧
            ∀ name, w'.file? .credentials name = w.file? .credentials name) →
            OthersSpared id w w' := by
          rintro w' ⟨hunits, hfiles⟩ base uid mp other hother hne
          exact ⟨fun half => by rw [World.unit?, World.unit?, hunits], hfiles _⟩
        refine Prog.wp_mono _ (wp_remove_refused ?_) (fun _ w' h => hsame w' h)
          (fun _ w' h => hsame w' h) hsame
        rintro ⟨hstop, hready⟩
        exact hfresh ⟨hpresent, target.1, target.2, marker, htarget, hhalves, hid, hstop, hready⟩

end Delete

/-- A record of an earlier share at the mount point that is in use now. -/
def staleConfig : Config :=
  (Store.commitShare true
    { id := sampleId.text, unc := qs "//nas/old", mountPoint := qs "/mnt/nas" } 0 ∅).2

/-- The share that is in use now goes, and its credential with it. -/
theorem stale_record_removes_another :
    ((deleteShare sampleHost Root.sampleCaller sampleId.text).run Prog.allOk
        (sampleWorld, staleConfig)).1 = .returned ⟨⟩ ∧
      ¬OthersSpared sampleId.text sampleWorld
        ((deleteShare sampleHost Root.sampleCaller sampleId.text).run Prog.allOk
          (sampleWorld, staleConfig)).2.1 := by
  refine ⟨by decide +kernel, ?_⟩
  intro hspared
  obtain ⟨marker, hhalves, hinput⟩ := ownedHalves_of_removalInput removalInput_sample
  have hid : sampleRemoval.shareId = marker.id := by rw [hinput]
  have hne : marker.id.text ≠ sampleId.text := by
    rw [← hid]
    decide +kernel
  have hsame := (hspared _ _ _ _ hhalves hne).2
  rw [← hid] at hsame
  have hbefore : (sampleWorld.file? .credentials
      (CredentialStore.fileNameFor sampleRemoval.shareId)).isSome = true := by decide +kernel
  have hafter : (((deleteShare sampleHost Root.sampleCaller sampleId.text).run Prog.allOk
      (sampleWorld, staleConfig)).2.1.file? .credentials
        (CredentialStore.fileNameFor sampleRemoval.shareId)).isSome = false := by decide +kernel
  rw [hsame, hbefore] at hafter
  exact nomatch hafter

end NasMount.Session
