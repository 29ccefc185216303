import NasMount.Core.Runtime

/-!
# The top of a mount stack

The search for the visible mount goes by positions in an unordered list. A chain
of mounts has exactly one exposed position, that of its last mount, wherever in
the list it stands.
-/
namespace NasMount.Core

open NasMount.Foundation QString

/-- No other position of the stack is mounted on this one. -/
def Exposed (stack : List MountEntry) (i : Fin stack.length) : Prop :=
  ∀ j : Fin stack.length, j ≠ i → (stack.get j).parentId ≠ (stack.get i).mountId

instance (stack : List MountEntry) : DecidablePred (Exposed stack) := fun i =>
  inferInstanceAs (Decidable (∀ j : Fin stack.length, j ≠ i →
    (stack.get j).parentId ≠ (stack.get i).mountId))

/-- How many entries of the stack are not covered by another one. -/
def exposedCount (stack : List MountEntry) : ℕ :=
  (Finset.univ.filter (Exposed stack)).card

/-- Mounts on top of each other, the lowest first. -/
structure MountChain (chain : List MountEntry) : Prop where
  distinct : (chain.map MountEntry.mountId).Nodup
  links : chain.IsChain fun below above => above.parentId = below.mountId
  lowest : ∀ first ∈ chain.head?, first.parentId ∉ chain.map MountEntry.mountId

/-- What one visible mount says about the share. -/
def MountEntry.verdict (top : MountEntry) (expectedWhat : QString) :
    MountState × VerificationState :=
  if top.filesystemType = qs "cifs" then
    (.present, if top.mountSource = expectedWhat then .matched else .mismatch)
  else if top.filesystemType = qs "autofs" then (.absent, .notApplicable)
  else (.present, .mismatch)

section Positions

variable {stack : List MountEntry}

theorem zipIdx_eq_map_finRange {α : Type} (l : List α) :
    l.zipIdx = (List.finRange l.length).map fun i => (l.get i, i.val) := by
  apply List.ext_getElem
  · simp
  · intro i hi hi'
    simp

/-- The entries the search keeps are those at the exposed positions. -/
theorem uncovered_eq_map (stack : List MountEntry) :
    uncovered stack =
      ((List.finRange stack.length).filter fun i => Exposed stack i).map stack.get := by
  rw [uncovered, zipIdx_eq_map_finRange, List.filter_map, List.map_map]
  refine congrArg₂ List.map rfl (List.filter_congr fun i _ => ?_)
  rw [Function.comp_apply, Bool.eq_iff_iff, Bool.not_eq_true', List.any_eq_false,
    decide_eq_true_eq, Exposed]
  constructor
  · intro h j hj hparent
    apply h _ (List.mem_map_of_mem (List.mem_finRange j))
    simpa [Fin.val_inj] using ⟨hj, hparent⟩
  · intro h other hother
    obtain ⟨j, -, rfl⟩ := List.mem_map.mp hother
    simp only [Bool.and_eq_true, decide_eq_true_eq, not_and]
    intro hj
    exact h j fun hij => hj (congrArg Fin.val hij)

theorem length_uncovered (stack : List MountEntry) :
    (uncovered stack).length = exposedCount stack := by
  have hset : Finset.univ.filter (Exposed stack) =
      ((List.finRange stack.length).filter fun i => Exposed stack i).toFinset := by
    ext i
    simp
  rw [uncovered_eq_map, List.length_map, exposedCount, hset,
    List.toFinset_card_of_nodup ((List.nodup_finRange _).filter _)]

/-- One exposed position is the whole answer. -/
theorem uncovered_eq_singleton {i : Fin stack.length} (h : ∀ j, Exposed stack j ↔ j = i) :
    uncovered stack = [stack.get i] := by
  have hone : ((List.finRange stack.length).filter fun j => Exposed stack j).Perm [i] := by
    rw [List.perm_ext_iff_of_nodup ((List.nodup_finRange _).filter _) (List.nodup_singleton i)]
    intro j
    simp [h j]
  rw [uncovered_eq_map, List.perm_singleton.mp hone, List.map_singleton]

end Positions

section Chains

variable {chain stack : List MountEntry} {entry : MountEntry}

/-- Every mount of a chain but the last one has another one on it. -/
theorem MountChain.covered (hchain : MountChain chain) (hne : chain ≠ []) (hmem : entry ∈ chain)
    (hlast : entry ≠ chain.getLast hne) :
    ∃ above ∈ chain, above ≠ entry ∧ above.parentId = entry.mountId := by
  obtain ⟨before, after, hsplit⟩ := List.append_of_mem hmem
  cases after with
  | nil => exact absurd (by simp [hsplit]) hlast
  | cons above after =>
    have hlink := hchain.links
    rw [hsplit, List.isChain_append_cons_cons] at hlink
    refine ⟨above, by simp [hsplit], ?_, hlink.2.1⟩
    rintro rfl
    have hdistinct := hchain.distinct
    rw [hsplit] at hdistinct
    simp [List.nodup_append] at hdistinct

/-- No mount of a chain is on the last one. -/
theorem MountChain.last_exposed (hchain : MountChain chain) (hne : chain ≠ [])
    (hmem : entry ∈ chain) :
    entry.parentId ≠ (chain.getLast hne).mountId := by
  obtain ⟨before, after, hsplit⟩ := List.append_of_mem hmem
  intro hparent
  rcases List.eq_nil_or_concat before with rfl | ⟨lower, below, rfl⟩
  · apply hchain.lowest entry (by simp [hsplit])
    rw [hparent]
    exact List.mem_map_of_mem (List.getLast_mem hne)
  · rw [List.concat_eq_append, List.append_assoc, List.singleton_append] at hsplit
    have hlink := hchain.links
    rw [hsplit, List.isChain_append_cons_cons] at hlink
    have hsame : below = chain.getLast hne :=
      List.inj_on_of_nodup_map hchain.distinct (by simp [hsplit]) (List.getLast_mem hne)
        (hlink.2.1.symm.trans hparent)
    have hafter : below ∈ entry :: after := by
      have hlast : chain.getLast hne = (entry :: after).getLast (List.cons_ne_nil _ _) := by
        simp [hsplit]
      rw [hsame, hlast]
      exact List.getLast_mem _
    have hnodup : (lower ++ below :: entry :: after).Nodup := hsplit ▸ hchain.distinct.of_map
    rw [List.nodup_append, List.nodup_cons] at hnodup
    exact hnodup.2.1.1 hafter

/-- In whatever order the chain is listed, its last mount is the visible one. -/
theorem uncovered_of_chain (hchain : MountChain chain) (hne : chain ≠ [])
    (hperm : stack.Perm chain) :
    uncovered stack = [chain.getLast hne] := by
  obtain ⟨i, hi⟩ := List.mem_iff_get.mp (hperm.mem_iff.mpr (List.getLast_mem hne))
  have hnodup : stack.Nodup := hperm.nodup_iff.mpr hchain.distinct.of_map
  rw [← hi]
  apply uncovered_eq_singleton
  intro j
  have hj : stack.get j ∈ chain := hperm.mem_iff.mp (stack.get_mem j)
  constructor
  · intro hexposed
    by_contra hne'
    have hother : stack.get j ≠ chain.getLast hne := by
      rw [← hi]
      exact fun heq => hne' (hnodup.injective_get heq)
    obtain ⟨above, habove, hdiffers, hparent⟩ := hchain.covered hne hj hother
    obtain ⟨k, rfl⟩ := List.mem_iff_get.mp (hperm.mem_iff.mpr habove)
    exact hexposed k (fun hkj => hdiffers (congrArg stack.get hkj)) hparent
  · rintro rfl k -
    rw [hi]
    exact hchain.last_exposed hne (hperm.mem_iff.mp (stack.get_mem k))

end Chains

section Verdict

variable {entries : List MountEntry} {mountPoint expectedWhat : QString}

/-- The entries at the path. -/
def stackAt (entries : List MountEntry) (mountPoint : QString) : List MountEntry :=
  entries.filter fun entry => entry.mountPoint = mountPoint

theorem classifyMountEntries_eq (hclean : cleanPath mountPoint = mountPoint) :
    classifyMountEntries entries mountPoint expectedWhat =
      if stackAt entries mountPoint = [] then (.absent, .notApplicable)
      else
        match uncovered (stackAt entries mountPoint) with
        | [top] => top.verdict expectedWhat
        | _ => (.indeterminate, .indeterminate) := by
  have hstack : (entries.filter fun entry => entry.mountPoint = mountPoint) =
      stackAt entries mountPoint := rfl
  rw [classifyMountEntries, hclean, hstack]
  cases stackAt entries mountPoint with
  | nil => rfl
  | cons entry stack =>
    rw [if_neg (List.cons_ne_nil _ _)]
    rfl

/-- The verdict is that of the visible top, in any order of the lines, and no
verdict at all when no single top is visible. -/
theorem classify_visible_top (entries : List MountEntry) (mountPoint expectedWhat : QString)
    (hclean : cleanPath mountPoint = mountPoint) :
    (∀ chain, MountChain chain → ∀ hne : chain ≠ [], (stackAt entries mountPoint).Perm chain →
      classifyMountEntries entries mountPoint expectedWhat =
        (chain.getLast hne).verdict expectedWhat) ∧
    (stackAt entries mountPoint = [] →
      classifyMountEntries entries mountPoint expectedWhat = (.absent, .notApplicable)) ∧
    (stackAt entries mountPoint ≠ [] → exposedCount (stackAt entries mountPoint) ≠ 1 →
      classifyMountEntries entries mountPoint expectedWhat = (.indeterminate, .indeterminate)) := by
  rw [classifyMountEntries_eq hclean]
  refine ⟨?_, ?_, ?_⟩
  · intro chain hchain hne hperm
    have hstack : stackAt entries mountPoint ≠ [] := by
      intro hnil
      rw [hnil] at hperm
      exact hne hperm.nil_eq.symm
    rw [if_neg hstack, uncovered_of_chain hchain hne hperm]
  · intro hnil
    rw [if_pos hnil]
  · intro hstack hcount
    rw [if_neg hstack]
    rw [← length_uncovered] at hcount
    cases hlist : uncovered (stackAt entries mountPoint) with
    | nil => rfl
    | cons top rest =>
      cases rest with
      | nil => exact absurd (by rw [hlist]; rfl) hcount
      | cons other rest => rfl

/-- The trigger of an automount and the share on it, listed upside down. -/
theorem classify_visible_top_sample :
    classifyMountEntries
      [⟨182, 179, qs "/mnt/nas", qs "cifs", qs "//host/share"⟩,
        ⟨36, 35, qs "/mnt/plain", qs "ext4", qs "/dev/root"⟩,
        ⟨179, 33, qs "/mnt/nas", qs "autofs", qs "systemd-1"⟩]
      (qs "/mnt/nas") (qs "//host/share") = (.present, .matched) :=
  (classify_visible_top _ _ _ (by decide)).1
    [⟨179, 33, qs "/mnt/nas", qs "autofs", qs "systemd-1"⟩,
      ⟨182, 179, qs "/mnt/nas", qs "cifs", qs "//host/share"⟩]
    ⟨by decide, by simp, by decide⟩ (List.cons_ne_nil _ _) (List.Perm.swap ..)

end Verdict

end NasMount.Core
