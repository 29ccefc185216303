import NasMount.Core.MountpointWalk

/-!
# What stays where it was in a directory tree

The interactive walk moves nothing and unmounts nothing: every directory stays
at its path and on its mount. A walk that succeeds has crossed no mount, has
found nothing below its last component, and leaves a directory there. A mount
over a directory concerns the paths at and below it alone.
-/
namespace NasMount.Core

open NasMount.Foundation QString

namespace DirStat

/-- The two directories are on one mount, as far as the kernel reports it. -/
def SameMount (stat stat' : DirStat) : Prop :=
  stat'.mountId = stat.mountId ∧ stat'.device = stat.device

theorem SameMount.refl (stat : DirStat) : SameMount stat stat := ⟨rfl, rfl⟩

end DirStat

theorem crossesMount_congr {child child' parent parent' : DirStat} (hchild : child.SameMount child')
    (hparent : parent.SameMount parent') :
    crossesMount child' parent' = crossesMount child parent := by
  simp only [crossesMount, hchild.1, hchild.2, hparent.1, hparent.2]

namespace Folder

variable {d d' child new : Folder} {name other : QString} {node : Node}
  {path above : List QString}

theorem lookup_setEntry_ne (h : other ≠ name) (node : Node) (entries : List (QString × Node)) :
    (setEntry name node entries).lookup other = entries.lookup other := by
  induction entries with
  | nil => simp [setEntry, List.lookup_cons, beq_eq_false_iff_ne.mpr h]
  | cons entry rest ih =>
    unfold setEntry
    split_ifs with hname
    · have hentry : other ≠ entry.1 := fun heq => h (heq.trans hname)
      rw [List.lookup_cons, List.lookup_cons, beq_eq_false_iff_ne.mpr h,
        beq_eq_false_iff_ne.mpr hentry]
    · rw [List.lookup_cons, List.lookup_cons, ih]

theorem openat_put_ne (h : other ≠ name) : (d.put name node).openat other = d.openat other := by
  simp only [openat, lookup, put, lookup_setEntry_ne h]

theorem descend_cons (name : QString) (rest : List QString) (d : Folder) :
    d.descend (name :: rest) = (d.openat name).bind (descend rest) := rfl

theorem descend_append (xs ys : List QString) (d : Folder) :
    d.descend (xs ++ ys) = (d.descend xs).bind (descend ys) := by
  induction xs generalizing d with
  | nil => rfl
  | cons x xs ih =>
    rw [List.cons_append, descend_cons, descend_cons]
    cases d.openat x with
    | none => rfl
    | some child => exact ih child

/-- Every directory of the one tree is in the other too, on the same mount. -/
def Persists (d d' : Folder) : Prop :=
  ∀ path below, d.descend path = some below →
    ∃ below', d'.descend path = some below' ∧ below.stat.SameMount below'.stat

theorem Persists.refl (d : Folder) : Persists d d :=
  fun _ below h => ⟨below, h, DirStat.SameMount.refl _⟩

/-- A directory with the same entries on the same mount. -/
theorem persists_of_entries (hstat : d.stat.SameMount d'.stat) (hentries : d'.entries = d.entries) :
    Persists d d' := by
  intro path below h
  cases path with
  | nil =>
    obtain rfl := Option.some.inj h
    exact ⟨d', rfl, hstat⟩
  | cons name rest =>
    refine ⟨below, ?_, DirStat.SameMount.refl _⟩
    rw [descend_cons] at h ⊢
    simpa only [openat, lookup, hentries] using h

theorem persists_put (hopen : ∀ child, d.openat name = some child → Persists child new) :
    Persists d (d.put name new.node) := by
  intro path below h
  cases path with
  | nil =>
    obtain rfl := Option.some.inj h
    exact ⟨_, rfl, DirStat.SameMount.refl _⟩
  | cons first rest =>
    by_cases hname : first = name
    · subst hname
      obtain ⟨child, hchild, hrest⟩ := Option.bind_eq_some_iff.mp h
      obtain ⟨below', hbelow, hsame⟩ := hopen child hchild rest below hrest
      refine ⟨below', ?_, hsame⟩
      rw [descend_cons, openat_put]
      exact hbelow
    · refine ⟨below, ?_, DirStat.SameMount.refl _⟩
      rw [descend_cons, openat_put_ne hname]
      exact h

/-! ## Another directory in the place of one -/

/-- Put `new` where the path leads to; nothing happens where there is no directory. -/
def replaceAt : Folder → List QString → Folder → Folder
  | _, [], new => new
  | d, name :: rest, new =>
    match d.openat name with
    | some child => d.put name (child.replaceAt rest new).node
    | none => d

theorem replaceAt_cons (hopen : d.openat name = some child) (rest : List QString) :
    d.replaceAt (name :: rest) new = d.put name (child.replaceAt rest new).node := by
  rw [replaceAt, hopen]

theorem replaceAt_missing (hopen : d.openat name = none) (rest : List QString) :
    d.replaceAt (name :: rest) new = d := by
  rw [replaceAt, hopen]

theorem replaceAt_stat (name : QString) (rest : List QString) :
    (d.replaceAt (name :: rest) new).stat = d.stat := by
  cases hopen : d.openat name with
  | none => rw [replaceAt_missing hopen]
  | some child => rw [replaceAt_cons hopen, put_stat]

theorem descend_replaceAt_self (h : d.descend path = some d') :
    (d.replaceAt path new).descend path = some new := by
  induction path generalizing d with
  | nil => rfl
  | cons name rest ih =>
    obtain ⟨child, hopen, hrest⟩ := Option.bind_eq_some_iff.mp h
    rw [replaceAt_cons hopen, descend_cons, openat_put]
    exact ih hrest

/-- Paths that are neither the replaced one nor below it lead to the same place. -/
theorem descend_replaceAt (new : Folder) (hbeside : ¬path <+: above)
    (h : d.descend above = some d') :
    ∃ d'', (d.replaceAt path new).descend above = some d'' ∧ d''.stat = d'.stat := by
  induction path generalizing d above with
  | nil => exact absurd List.nil_prefix hbeside
  | cons name rest ih =>
    cases above with
    | nil =>
      obtain rfl := Option.some.inj h
      exact ⟨_, rfl, replaceAt_stat name rest⟩
    | cons first above =>
      obtain ⟨child, hfirst, hrest⟩ := Option.bind_eq_some_iff.mp h
      cases hopen : d.openat name with
      | none => exact ⟨d', by rw [replaceAt_missing hopen]; exact h, rfl⟩
      | some found =>
        rw [replaceAt_cons hopen, descend_cons]
        by_cases hname : first = name
        · subst hname
          obtain rfl := Option.some.inj (hopen.symm.trans hfirst)
          rw [openat_put]
          refine ih ?_ hrest
          intro hleads
          exact hbeside (List.cons_prefix_cons.mpr ⟨rfl, hleads⟩)
        · rw [openat_put_ne hname, hfirst]
          exact ⟨d', hrest, rfl⟩

theorem persists_replaceAt (h : d.descend path = some child) (hnew : Persists child new) :
    Persists d (d.replaceAt path new) := by
  induction path generalizing d with
  | nil =>
    obtain rfl := Option.some.inj h
    exact hnew
  | cons name rest ih =>
    obtain ⟨first, hopen, hrest⟩ := Option.bind_eq_some_iff.mp h
    rw [replaceAt_cons hopen]
    apply persists_put
    intro found hfound
    obtain rfl := Option.some.inj (hopen.symm.trans hfound)
    exact ih hrest

/-! ## Mounts on the way of a path -/

/-- The directory at the path is on another mount than the one above it. -/
def CrossesAt (d : Folder) (path : List QString) : Prop :=
  ∃ parent child, d.descend path.dropLast = some parent ∧ d.descend path = some child ∧
    crossesMount child.stat parent.stat = true

theorem CrossesAt.persists (h : d.CrossesAt path) (hpersists : Persists d d') :
    d'.CrossesAt path := by
  obtain ⟨parent, child, hparent, hchild, hcrosses⟩ := h
  obtain ⟨parent', hparent', hsameParent⟩ := hpersists _ _ hparent
  obtain ⟨child', hchild', hsameChild⟩ := hpersists _ _ hchild
  exact ⟨parent', child', hparent', hchild',
    (crossesMount_congr hsameChild hsameParent).trans hcrosses⟩

theorem CrossesAt.replaceAt (h : d.CrossesAt above) (hbeside : ¬path <+: above) :
    (d.replaceAt path new).CrossesAt above := by
  obtain ⟨parent, child, hparent, hchild, hcrosses⟩ := h
  have hbesideParent : ¬path <+: above.dropLast :=
    fun hleads => hbeside (hleads.trans (List.dropLast_prefix above))
  obtain ⟨parent', hparent', hsameParent⟩ := descend_replaceAt new hbesideParent hparent
  obtain ⟨child', hchild', hsameChild⟩ := descend_replaceAt new hbeside hchild
  exact ⟨parent', child', hparent', hchild', by rw [hsameParent, hsameChild, hcrosses]⟩

end Folder

/-! ## The interactive walk -/

section Walk

variable {plan : MountpointPlan} {uid gid : UInt32} {parent opened : Folder}

open Folder

theorem persists_claimed (d : Folder) (uid gid : UInt32) (mode : ℕ) :
    Persists d ((d.fchown uid gid).fchmod mode) := persists_of_entries ⟨rfl, rfl⟩ rfl

/-- Whether it succeeds or not, the walk leaves every directory at its path. -/
theorem persists_walkNoFollow (plan : MountpointPlan) (uid gid : UInt32) (suffix : List QString)
    (parent : Folder) : Persists parent (walkNoFollow plan uid gid suffix parent).2 := by
  induction suffix generalizing parent with
  | nil => exact Persists.refl parent
  | cons component rest ih =>
    have hwork : ∀ child : Folder, Persists child
        (if rest.isEmpty then ((.ok ((child.fchown uid gid).fchmod 0o700) : Except QString Folder),
          (child.fchown uid gid).fchmod 0o700) else walkNoFollow plan uid gid rest child).2 := by
      intro child
      split_ifs
      · exact persists_claimed child uid gid _
      · exact ih child
    cases hlookup : parent.lookup component with
    | none =>
      obtain ⟨fresh, -, -, -, -, -, hwalk⟩ := walkNoFollow_missing plan uid gid rest hlookup
      rw [hwalk]
      apply persists_put
      intro child hopen
      rw [openat_eq_some, hlookup] at hopen
      exact nomatch hopen
    | some node =>
      cases hopen : parent.openat component with
      | none =>
        have hsame : (walkNoFollow plan uid gid (component :: rest) parent).2 = parent := by
          simp only [walkNoFollow, mkdirat_of_some hlookup, hopen]
        rw [hsame]
        exact Persists.refl parent
      | some child =>
        have hchild : ∀ new, Persists child new →
            Persists parent (parent.put component new.node) := by
          intro new hnew
          apply persists_put
          intro found hfound
          obtain rfl := Option.some.inj (hopen.symm.trans hfound)
          exact hnew
        rw [walkNoFollow_existing hopen]
        cases interactiveCheck plan uid component rest.isEmpty false parent.stat child with
        | error e => exact hchild child (Persists.refl child)
        | ok _ => exact hchild _ (hwork child)

theorem not_crosses_of_walk {suffix : List QString}
    (h : (walkNoFollow plan uid gid suffix parent).1 = .ok opened) {path : List QString}
    (hpath : path <+: suffix) : ¬parent.CrossesAt path := by
  induction suffix generalizing parent path with
  | nil => simp [walkNoFollow] at h
  | cons component rest ih =>
    obtain ⟨child, hpass, hfound, -, hrest⟩ := walkNoFollow_ok h
    rintro ⟨up, below, hup, hbelow, hcrosses⟩
    cases path with
    | nil =>
      obtain rfl := Option.some.inj (hup.symm.trans hbelow)
      rw [crossesMount_self rfl rfl] at hcrosses
      exact absurd hcrosses Bool.false_ne_true
    | cons name path =>
      obtain ⟨rfl, hleads⟩ := List.cons_prefix_cons.mp hpath
      obtain ⟨first, hopen, hdescend⟩ := Option.bind_eq_some_iff.mp hbelow
      obtain rfl : first = child := by
        rcases hfound with hchild | ⟨hnone, -, -⟩
        · exact Option.some.inj (hopen.symm.trans hchild)
        · exact absurd (hopen.symm.trans hnone) (Option.some_ne_none first)
      cases path with
      | nil =>
        obtain rfl := Option.some.inj hup
        obtain rfl := Option.some.inj hdescend
        exact absurd (hpass.2.1.symm.trans hcrosses) Bool.false_ne_true
      | cons next path =>
        have hwalk := hrest.resolve_left (by rintro rfl; simp at hleads)
        refine ih hwalk hleads ⟨up, below, ?_, hdescend, hcrosses⟩
        rw [List.dropLast_cons_of_ne_nil (by simp), descend_cons, hopen] at hup
        exact hup

/-- The walk does not go to a path below which a directory is. -/
theorem descend_below_walk {suffix : List QString}
    (h : (walkNoFollow plan uid gid suffix parent).1 = .ok opened) (name : QString)
    (below : List QString) : parent.descend (suffix ++ name :: below) = none := by
  induction suffix generalizing parent with
  | nil => simp [walkNoFollow] at h
  | cons component rest ih =>
    obtain ⟨child, hpass, hfound, -, hrest⟩ := walkNoFollow_ok h
    rw [List.cons_append, descend_cons]
    rcases hfound with hopen | ⟨hnone, -, -⟩
    · rw [hopen, Option.bind_some]
      rcases hrest with rfl | hwalk
      · have hempty := hpass.2.2 rfl
        simp [descend_cons, openat, lookup, hempty]
      · exact ih hwalk
    · rw [hnone, Option.bind_none]

theorem descend_walk {suffix : List QString}
    (h : (walkNoFollow plan uid gid suffix parent).1 = .ok opened) :
    ∃ d, (walkNoFollow plan uid gid suffix parent).2.descend suffix = some d := by
  induction suffix generalizing parent with
  | nil => simp [walkNoFollow] at h
  | cons component rest ih =>
    obtain ⟨child, -, -, hleft, hrest⟩ := walkNoFollow_ok h
    rw [hleft, descend_cons, openat_put, Option.bind_some]
    cases rest with
    | nil => exact ⟨_, rfl⟩
    | cons next rest => exact ih (hrest.resolve_left (by simp))

end Walk

end NasMount.Core
