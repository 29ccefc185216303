import NasMount.Root.DurableFs

/-!
# Durable removal of a directory

The directory is read entry by entry, in whatever order the file system gives,
and every entry is inspected and unlinked before the next one is read. A null
answer of `readdir` means the end or a failure, and `errno` alone tells which;
calls that succeed may leave anything there.
-/
namespace NasMount.Root.DurableFs

open NasMount.Foundation NasMount.Core QString

inductive TreeCall
  | openDir
  | statDir
  | dup
  | fdopendir
  | read (turn : ℕ)
  | statEntry (entry : QString)
  | unlinkEntry (entry : QString)
  | syncDir
  | removeDir
  | syncParent
  deriving DecidableEq

/-- What one name of the parent directory stands for, with the entries where it
is a directory. -/
structure TreeState where
  errno : ℕ
  named : Option (Inode × Entries)

def ENOENT : ℕ := 2

def ENOTDIR : ℕ := 20

/-- The values calls leave in `errno`. An `openat` that fails for a reason of its
own does not report the name as missing. -/
structure Errnos where
  leftover : TreeCall → ℕ
  failing : TreeCall → ℕ
  failing_ne : ∀ call, failing call ≠ 0
  open_ne : failing .openDir ≠ ENOENT

/-- An artifact of the program, which removal may unlink. -/
def Inode.safe (node : Inode) (kind : ArtifactKind) : Bool :=
  node.kind = .regular && node.uid = 0 && node.mode = modeFor kind

/-- `verifyDescriptor` for a directory of root; the result is why it refuses. -/
def directoryRefusal (node : Inode) (kind : ArtifactKind) : Option QString :=
  if node.kind ≠ .directory then some (qs "not a directory")
  else if node.uid ≠ 0 then
    some (qs "owned by uid " ++ number node.uid.toNat ++ qs ", expected 0")
  else if node.mode ≠ modeFor kind then
    some (qs "mode is " ++ octal node.mode ++ qs ", expected " ++ octal (modeFor kind))
  else none

section Program

variable (errnos : Errnos)

/-- A call that has no answer besides its success. -/
def perform (call : TreeCall) (error : QString) (f : TreeState → TreeState) :
    Prog TreeCall TreeState QString PUnit :=
  Prog.act call error fun s => { f s with errno := errnos.leftover call }

def setErrno (errno : ℕ) : Prog TreeCall TreeState QString PUnit := fun _ s =>
  (.returned ⟨⟩, { s with errno := errno })

/-- `openat` with `O_DIRECTORY | O_NOFOLLOW`; false where it returns no
descriptor. -/
def openat : Prog TreeCall TreeState QString Bool := fun o s =>
  match o .openDir with
  | .ok =>
    match s.named with
    | none => (.returned false, { s with errno := ENOENT })
    | some (node, _) =>
      if node.kind = .directory then
        (.returned true, { s with errno := errnos.leftover .openDir })
      else (.returned false, { s with errno := ENOTDIR })
  | .failed _ => (.returned false, { s with errno := errnos.failing .openDir })
  | .killed => (.killed, s)

/-- Open the directory and verify it; false where it is missing. -/
def openVerifiedDir (name : QString) (dirKind : ArtifactKind) :
    Prog TreeCall TreeState QString Bool := do
  if ← openat errnos then
    perform errnos .statDir (name ++ qs ": cannot stat descriptor: ") fun s => s
    let named ← Prog.look fun s => s.named
    match named.bind fun named => directoryRefusal named.1 dirKind with
    | some refusal => Prog.raise (name ++ qs ": " ++ refusal)
    | none => pure true
  else
    let errno ← Prog.look fun s => s.errno
    if errno = ENOENT then pure false else Prog.raise (qs "cannot open " ++ name ++ qs ": ")

/-- `readdir`: the end of the directory leaves `errno` alone. -/
def readdir (turn : ℕ) (next : Option QString) :
    Prog TreeCall TreeState QString (Option QString) := fun o s =>
  match o (.read turn) with
  | .ok =>
    match next with
    | some entry => (.returned (some entry), { s with errno := errnos.leftover (.read turn) })
    | none => (.returned none, s)
  | .failed _ => (.returned none, { s with errno := errnos.failing (.read turn) })
  | .killed => (.killed, s)

/-- Inspect one entry and unlink it. -/
def removeEntry (name entry : QString) (entryKind : ArtifactKind) :
    Prog TreeCall TreeState QString PUnit := do
  let inspectError := qs "cannot inspect " ++ name ++ '/' :: entry ++ qs ": "
  perform errnos (.statEntry entry) inspectError fun s => s
  let node ← Prog.look fun s => s.named.bind fun named => named.2.lookup entry
  match node with
  | none => Prog.raise inspectError
  | some node =>
    if node.kind = .directory then
      Prog.raise (qs "refusing to recurse into unexpected subdirectory " ++ name ++ '/' :: entry)
    else if !node.safe entryKind then
      Prog.raise (qs "refusing unsafe entry " ++ name ++ '/' :: entry)
    else
      perform errnos (.unlinkEntry entry) (qs "cannot remove " ++ name ++ '/' :: entry ++ qs ": ")
        fun s => { s with named := s.named.map fun named => (named.1, named.2.erase entry) }

def isDot (entry : QString) : Bool := entry = qs "." || entry = qs ".."

/-- The loop over the entries still to be read. -/
def clearEntries (name : QString) (entryKind : ArtifactKind) :
    ℕ → List QString → Prog TreeCall TreeState QString PUnit
  | turn, [] => do
    let _ ← readdir errnos turn none
    pure ⟨⟩
  | turn, next :: rest => do
    match ← readdir errnos turn (some next) with
    | none => pure ⟨⟩
    | some entry =>
      if isDot entry then
        setErrno 0
        clearEntries name entryKind (turn + 1) rest
      else
        removeEntry errnos name entry entryKind
        setErrno 0
        clearEntries name entryKind (turn + 1) rest

/-- `unlinkat` with `AT_REMOVEDIR`: the directory has to be empty. -/
def removeDir (error : QString) : Prog TreeCall TreeState QString PUnit := fun o s =>
  let empty := s.named.all fun named => named.2.keys = []
  match o .removeDir with
  | .ok => if empty then (.returned ⟨⟩, { s with named := none }) else (.raised error, s)
  | .failed applied => (.raised error, if applied && empty then { s with named := none } else s)
  | .killed => (.killed, s)

/-- Remove a directory of the program with everything in it. -/
def durableRemoveTree (order : List QString) (name : QString) (dirKind entryKind : ArtifactKind) :
    Prog TreeCall TreeState QString PUnit := do
  if !isSingleComponent name then Prog.raise (qs "invalid directory component: " ++ name)
  else if !(← openVerifiedDir errnos name dirKind) then pure ⟨⟩
  else
    perform errnos .dup (qs "cannot duplicate descriptor for " ++ name ++ qs ": ") fun s => s
    perform errnos .fdopendir (qs "cannot list " ++ name ++ qs ": ") fun s => s
    setErrno 0
    clearEntries errnos name entryKind 0 order
    let savedErrno ← Prog.look fun s => s.errno
    if savedErrno ≠ 0 then Prog.raise (qs "cannot enumerate " ++ name ++ qs ": ")
    else
      perform errnos .syncDir (qs "cannot fsync " ++ name ++ qs " after clearing it: ") fun s => s
      removeDir (qs "cannot remove directory " ++ name ++ qs ": ")
      perform errnos .syncParent
        (qs "cannot fsync parent directory after removing " ++ name ++ qs ": ") fun s => s

end Program

section Loop

/-- `order` lists the entries, each once, with or without the two dot names. -/
def Enumerates (order : List QString) (entries : Entries) : Prop :=
  (order.filter fun entry => !isDot entry).Perm entries.keys

/-- Only safe entries are gone. -/
def OnlySafeGone (kind : ArtifactKind) (entries entries' : Entries) : Prop :=
  ∀ entry, entries'.lookup entry = entries.lookup entry ∨
    entries'.lookup entry = none ∧
      ∃ node, entries.lookup entry = some node ∧ node.safe kind = true

/-- Every call on the entries succeeds, and every entry is safe. -/
structure ClearSucceeds (o : TreeCall → Outcome) (kind : ArtifactKind) (turn : ℕ)
    (order : List QString) (entries : Entries) : Prop where
  read : ∀ k ≤ order.length, o (.read (turn + k)) = .ok
  safe : ∀ entry node, entries.lookup entry = some node → node.safe kind = true
  calls : ∀ entry ∈ entries.keys, o (.statEntry entry) = .ok ∧ o (.unlinkEntry entry) = .ok

variable {errnos : Errnos} {o : TreeCall → Outcome} {name entry next : QString}
  {rest order : List QString}
  {dirKind kind : ArtifactKind} {node dir : Inode} {entries entries' entries'' : Entries}
  {s : TreeState} {turn : ℕ}

theorem onlySafeGone_refl (kind : ArtifactKind) (entries : Entries) :
    OnlySafeGone kind entries entries := fun _ => Or.inl rfl

theorem onlySafeGone_erase (hnode : entries.lookup entry = some node)
    (hsafe : node.safe kind = true) :
    OnlySafeGone kind entries (entries.erase entry) := by
  intro other
  by_cases hother : other = entry
  · subst hother
    exact Or.inr ⟨AList.lookup_erase _ _, node, hnode, hsafe⟩
  · exact Or.inl (AList.lookup_erase_ne hother)

theorem OnlySafeGone.trans (h : OnlySafeGone kind entries entries')
    (h' : OnlySafeGone kind entries' entries'') : OnlySafeGone kind entries entries'' := by
  intro entry
  rcases h' entry with heq | ⟨hnone, node, hnode, hsafe⟩
  · rw [heq]
    exact h entry
  · rcases h entry with heq | ⟨hgone, -⟩
    · exact Or.inr ⟨hnone, node, heq ▸ hnode, hsafe⟩
    · rw [hgone] at hnode
      exact nomatch hnode

/-- The directory is still there, and only safe entries of it are gone. -/
def Cleared (kind : ArtifactKind) (dir : Inode) (entries : Entries) (s : TreeState) : Prop :=
  ∃ entries', s.named = some (dir, entries') ∧ OnlySafeGone kind entries entries'

theorem cleared_refl (h : s.named = some (dir, entries)) : Cleared kind dir entries s :=
  ⟨entries, h, onlySafeGone_refl _ _⟩

theorem Cleared.trans (h' : Cleared kind dir entries' s) (h : OnlySafeGone kind entries entries') :
    Cleared kind dir entries s := by
  obtain ⟨entries'', hnamed, hgone⟩ := h'
  exact ⟨entries'', hnamed, h.trans hgone⟩

/-- The entry that is read first is in the directory, and the others enumerate
what is left without it. -/
theorem Enumerates.cons (h : Enumerates (entry :: rest) entries) (hdot : isDot entry = false) :
    (∃ node, entries.lookup entry = some node) ∧ Enumerates rest (entries.erase entry) := by
  have hperm : (entry :: rest.filter fun entry => !isDot entry).Perm entries.keys := by
    simpa [Enumerates, hdot] using h
  constructor
  · have hmem : entry ∈ entries.keys := hperm.subset List.mem_cons_self
    exact Option.isSome_iff_exists.mp (AList.lookup_isSome.mpr hmem)
  · rw [Enumerates, AList.keys_erase]
    have herase := hperm.erase entry
    rw [List.erase_cons_head] at herase
    convert herase

theorem Enumerates.dot (h : Enumerates (entry :: rest) entries) (hdot : isDot entry = true) :
    Enumerates rest entries := by
  simpa [Enumerates, hdot] using h

/-- Inspecting and unlinking one entry that is there. -/
theorem wp_removeEntry {Q : PUnit → TreeState → Prop} {E : QString → TreeState → Prop}
    {C : TreeState → Prop} (hnamed : s.named = some (dir, entries))
    (hnode : entries.lookup entry = some node)
    (done : o (.statEntry entry) = .ok → o (.unlinkEntry entry) = .ok → node.safe kind = true →
      ∀ t, t.named = some (dir, entries.erase entry) → Q ⟨⟩ t)
    (failed : ¬ (o (.statEntry entry) = .ok ∧ o (.unlinkEntry entry) = .ok ∧
      node.safe kind = true) →
      ∀ t, Cleared kind dir entries t → (∀ error, E error t) ∧ C t) :
    Prog.wp o (removeEntry errnos name entry kind) Q E C s := by
  have hkept : ∀ t, t.named = some (dir, entries) → Cleared kind dir entries t :=
    fun _ => cleared_refl
  have hrefused : ¬ (o (.statEntry entry) = .ok ∧ o (.unlinkEntry entry) = .ok ∧
      node.safe kind = true) → ∀ errno, (∀ error, E error { s with errno := errno }) ∧
        C { s with errno := errno } := fun hnot errno => failed hnot _ (hkept _ hnamed)
  unfold removeEntry perform
  dsimp only
  rw [Prog.wp_bind, Prog.wp_act]
  cases hstat : o (.statEntry entry) with
  | failed applied =>
    have hnot : ¬ (o (.statEntry entry) = .ok ∧ o (.unlinkEntry entry) = .ok ∧
        node.safe kind = true) := fun h => nomatch hstat.symm.trans h.1
    exact (failed hnot _ (hkept _ (by cases applied <;> exact hnamed))).1 _
  | killed => exact (failed (fun h => nomatch hstat.symm.trans h.1) _ (hkept _ hnamed)).2
  | ok =>
    dsimp only
    rw [Prog.wp_bind, Prog.wp_look]
    have hlook : (Option.bind s.named fun named => named.2.lookup entry) = some node := by
      rw [hnamed]
      exact hnode
    rw [hlook]
    dsimp only
    split_ifs with hdirectory hsafe
    · refine (hrefused ?_ _).1 _
      rintro ⟨-, -, hsafe⟩
      simp [Inode.safe, hdirectory] at hsafe
    · refine (hrefused ?_ _).1 _
      rintro ⟨-, -, hsafe'⟩
      simp [hsafe'] at hsafe
    · have hsafe' : node.safe kind = true := by simpa using hsafe
      have hgone : ∀ t : TreeState, t.named = some (dir, entries.erase entry) →
          Cleared kind dir entries t := fun t ht => ⟨_, ht, onlySafeGone_erase hnode hsafe'⟩
      rw [Prog.wp_act]
      cases hunlink : o (.unlinkEntry entry) with
      | ok =>
        apply done hstat hunlink hsafe'
        simp [hnamed]
      | failed applied =>
        refine (failed (fun h => nomatch hunlink.symm.trans h.2.1) _ ?_).1 _
        cases applied
        · exact hkept _ hnamed
        · exact hgone _ (by simp [hnamed])
      | killed => exact (hrefused (fun h => nomatch hunlink.symm.trans h.2.1) _).2

theorem wp_readdir_some {Q : Option QString → TreeState → Prop} {E : QString → TreeState → Prop}
    {C : TreeState → Prop} :
    Prog.wp o (readdir errnos turn (some next)) Q E C s ↔
      match o (.read turn) with
      | .ok => Q (some next) { s with errno := errnos.leftover (.read turn) }
      | .failed _ => Q none { s with errno := errnos.failing (.read turn) }
      | .killed => C s := by
  unfold Prog.wp readdir
  cases o (.read turn) <;> rfl

theorem wp_setErrno {Q : PUnit → TreeState → Prop} {E : QString → TreeState → Prop}
    {C : TreeState → Prop} {errno : ℕ} :
    Prog.wp o (setErrno errno) Q E C s ↔ Q ⟨⟩ { s with errno := errno } := Iff.rfl

/-- One more reading before the others. -/
theorem read_cons_iff :
    (∀ k ≤ (entry :: rest).length, o (.read (turn + k)) = .ok) ↔
      o (.read turn) = .ok ∧ ∀ k ≤ rest.length, o (.read (turn + 1 + k)) = .ok := by
  constructor
  · intro h
    refine ⟨h 0 (Nat.zero_le _), fun k hk => ?_⟩
    have hnext := h (k + 1) (by rw [List.length_cons]; omega)
    rwa [Nat.add_right_comm, Nat.add_assoc]
  · rintro ⟨hfirst, hrest⟩ k hk
    cases k with
    | zero => exact hfirst
    | succ k =>
      have hnext := hrest k (by rw [List.length_cons] at hk; omega)
      rwa [Nat.add_right_comm, Nat.add_assoc] at hnext

theorem clearSucceeds_dot :
    ClearSucceeds o kind turn (entry :: rest) entries ↔
      o (.read turn) = .ok ∧ ClearSucceeds o kind (turn + 1) rest entries := by
  constructor
  · intro h
    obtain ⟨hfirst, hrest⟩ := read_cons_iff.mp h.read
    exact ⟨hfirst, hrest, h.safe, h.calls⟩
  · rintro ⟨hfirst, h⟩
    exact ⟨read_cons_iff.mpr ⟨hfirst, h.read⟩, h.safe, h.calls⟩

theorem mem_keys_erase {other : QString} :
    other ∈ (entries.erase entry).keys ↔ other ≠ entry ∧ other ∈ entries.keys := by
  rw [← AList.mem_keys, AList.mem_erase, AList.mem_keys]

theorem clearSucceeds_entry (hnode : entries.lookup entry = some node) :
    ClearSucceeds o kind turn (entry :: rest) entries ↔
      o (.read turn) = .ok ∧
        (o (.statEntry entry) = .ok ∧ o (.unlinkEntry entry) = .ok ∧ node.safe kind = true) ∧
        ClearSucceeds o kind (turn + 1) rest (entries.erase entry) := by
  have hmem : entry ∈ entries.keys := AList.lookup_isSome.mp (by simp [hnode])
  constructor
  · intro h
    obtain ⟨hfirst, hrest⟩ := read_cons_iff.mp h.read
    obtain ⟨hstat, hunlink⟩ := h.calls entry hmem
    refine ⟨hfirst, ⟨hstat, hunlink, h.safe entry node hnode⟩, hrest, ?_, ?_⟩
    · intro other node' hnode'
      by_cases hother : other = entry
      · rw [hother, AList.lookup_erase] at hnode'
        exact nomatch hnode'
      · rw [AList.lookup_erase_ne hother] at hnode'
        exact h.safe other node' hnode'
    · exact fun other hother => h.calls other (mem_keys_erase.mp hother).2
  · rintro ⟨hfirst, ⟨hstat, hunlink, hsafe⟩, h⟩
    refine ⟨read_cons_iff.mpr ⟨hfirst, h.read⟩, ?_, ?_⟩
    · intro other node' hnode'
      by_cases hother : other = entry
      · rw [hother, hnode] at hnode'
        exact Option.some.inj hnode' ▸ hsafe
      · exact h.safe other node' (by rwa [AList.lookup_erase_ne hother])
    · intro other hkey
      by_cases hother : other = entry
      · exact hother ▸ ⟨hstat, hunlink⟩
      · exact h.calls other (mem_keys_erase.mpr ⟨hother, hkey⟩)

/-- The loop ends with `errno` still zero exactly if everything went well, and
then no entry is left. -/
theorem wp_clearEntries (order : List QString) {turn : ℕ} {entries : Entries} {s : TreeState}
    (hnamed : s.named = some (dir, entries)) (horder : Enumerates order entries)
    (herrno : s.errno = 0) :
    Prog.wp o (clearEntries errnos name kind turn order)
      (fun _ t => Cleared kind dir entries t ∧
        (t.errno = 0 ∧ ClearSucceeds o kind turn order entries ∧
            (∃ left : Entries, t.named = some (dir, left) ∧ left.keys = []) ∨
          t.errno ≠ 0 ∧ ¬ ClearSucceeds o kind turn order entries))
      (fun _ t => Cleared kind dir entries t ∧ ¬ ClearSucceeds o kind turn order entries)
      (fun t => Cleared kind dir entries t ∧ ¬ ClearSucceeds o kind turn order entries) s := by
  induction order generalizing turn entries s with
  | nil =>
    have hempty : entries.keys = [] := List.nil_perm.mp horder
    rw [clearEntries, Prog.wp_bind]
    unfold Prog.wp readdir
    cases hturn : o (.read turn) with
    | ok =>
      refine ⟨cleared_refl hnamed, Or.inl ⟨herrno, ⟨?_, ?_, ?_⟩, entries, hnamed, hempty⟩⟩
      · intro k hk
        obtain rfl := Nat.le_zero.mp hk
        exact hturn
      · intro entry node hnode
        have hmem : entry ∈ entries.keys := AList.lookup_isSome.mp (by simp [hnode])
        rw [hempty] at hmem
        exact absurd hmem List.not_mem_nil
      · intro entry hmem
        rw [hempty] at hmem
        exact absurd hmem List.not_mem_nil
    | failed applied =>
      have hclear : ¬ ClearSucceeds o kind turn [] entries :=
        fun h => nomatch hturn.symm.trans (h.read 0 le_rfl)
      exact ⟨cleared_refl hnamed, Or.inr ⟨errnos.failing_ne _, hclear⟩⟩
    | killed => exact ⟨cleared_refl hnamed, fun h => nomatch hturn.symm.trans (h.read 0 le_rfl)⟩
  | cons entry rest ih =>
    rw [clearEntries, Prog.wp_bind, wp_readdir_some]
    cases hturn : o (.read turn) with
    | failed applied =>
      have hclear : ¬ ClearSucceeds o kind turn (entry :: rest) entries :=
        fun h => nomatch hturn.symm.trans (h.read 0 (Nat.zero_le _))
      exact ⟨cleared_refl hnamed, Or.inr ⟨errnos.failing_ne _, hclear⟩⟩
    | killed =>
      exact ⟨cleared_refl hnamed, fun h => nomatch hturn.symm.trans (h.read 0 (Nat.zero_le _))⟩
    | ok =>
      dsimp only
      by_cases hdot : isDot entry = true
      · rw [if_pos hdot, Prog.wp_bind, wp_setErrno, clearSucceeds_dot, and_iff_right hturn]
        exact ih hnamed (horder.dot hdot) rfl
      · obtain ⟨⟨node, hnode⟩, hrest⟩ := horder.cons (by simpa using hdot)
        rw [if_neg hdot, Prog.wp_bind, clearSucceeds_entry hnode, and_iff_right hturn]
        have hnamed' : ({ s with errno := errnos.leftover (.read turn) } : TreeState).named =
            some (dir, entries) := hnamed
        apply wp_removeEntry hnamed' hnode
        · intro hstat hunlink hsafe t ht
          have ht' : ({ t with errno := 0 } : TreeState).named = some (dir, entries.erase entry) :=
            ht
          have hgone := onlySafeGone_erase hnode hsafe
          rw [Prog.wp_bind, wp_setErrno, and_iff_right ⟨hstat, hunlink, hsafe⟩]
          apply Prog.wp_mono _ (ih ht' hrest rfl)
          · exact fun _ t' h => ⟨h.1.trans hgone, h.2⟩
          · exact fun _ t' h => ⟨h.1.trans hgone, h.2⟩
          · exact fun t' h => ⟨h.1.trans hgone, h.2⟩
        · intro hfailed t ht
          have hclear : ¬ ((o (.statEntry entry) = .ok ∧ o (.unlinkEntry entry) = .ok ∧
              node.safe kind = true) ∧
              ClearSucceeds o kind (turn + 1) rest (entries.erase entry)) :=
                fun hall => hfailed hall.1
          exact ⟨fun _ => ⟨ht, hclear⟩, ht, hclear⟩

end Loop

section Tree

/-- The directory is one of the program's, and every call on it succeeds. -/
structure RemoveSucceeds (o : TreeCall → Outcome) (order : List QString)
    (dirKind entryKind : ArtifactKind) (dir : Inode) (entries : Entries) : Prop where
  verified : directoryRefusal dir dirKind = none
  statDir : o .statDir = .ok
  dup : o .dup = .ok
  fdopendir : o .fdopendir = .ok
  clear : ClearSucceeds o entryKind 0 order entries
  syncDir : o .syncDir = .ok
  removeDir : o .removeDir = .ok
  syncParent : o .syncParent = .ok

/-- The name is opened, and it is missing or its removal succeeds. -/
structure Removes (o : TreeCall → Outcome) (order : List QString) (name : QString)
    (dirKind entryKind : ArtifactKind) (s : TreeState) : Prop where
  single : isSingleComponent name = true
  openDir : o .openDir = .ok
  removed : s.named = none ∨
    ∃ dir entries, s.named = some (dir, entries) ∧
      RemoveSucceeds o order dirKind entryKind dir entries

/-- Only safe entries are gone, and the directory only if all were safe. -/
structure SafelyCleared (kind : ArtifactKind) (s t : TreeState) : Prop where
  missing : s.named = none → t.named = none
  present : ∀ dir entries, s.named = some (dir, entries) →
    Cleared kind dir entries t ∨
      t.named = none ∧ ∀ entry node, entries.lookup entry = some node → node.safe kind = true

variable {errnos : Errnos} {o : TreeCall → Outcome} {name : QString} {order : List QString}
  {dirKind entryKind kind : ArtifactKind} {dir : Inode} {entries : Entries} {s t : TreeState}

theorem safelyCleared_of_named (h : t.named = s.named) : SafelyCleared kind s t := by
  constructor
  · exact fun hnone => h.trans hnone
  · exact fun dir entries hnamed => Or.inl (cleared_refl (h.trans hnamed))

theorem safelyCleared_of_cleared (hnamed : s.named = some (dir, entries))
    (h : Cleared kind dir entries t) : SafelyCleared kind s t := by
  constructor
  · exact fun hnone => nomatch hnone.symm.trans hnamed
  · intro dir' entries' hnamed'
    obtain ⟨rfl, rfl⟩ := Prod.mk.inj (Option.some.inj (hnamed.symm.trans hnamed'))
    exact Or.inl h

theorem safelyCleared_of_gone (hnamed : s.named = some (dir, entries)) (hgone : t.named = none)
    (hsafe : ∀ entry node, entries.lookup entry = some node → node.safe kind = true) :
    SafelyCleared kind s t := by
  constructor
  · exact fun _ => hgone
  · intro dir' entries' hnamed'
    obtain ⟨rfl, rfl⟩ := Prod.mk.inj (Option.some.inj (hnamed.symm.trans hnamed'))
    exact Or.inr ⟨hgone, hsafe⟩

/-- A call that changes neither the name nor the entries. -/
theorem wp_perform {call : TreeCall} {error : QString} {Q : PUnit → TreeState → Prop}
    {E : QString → TreeState → Prop} {C : TreeState → Prop}
    (done : o call = .ok → ∀ t, t.named = s.named → Q ⟨⟩ t)
    (failed : o call ≠ .ok → ∀ t, t.named = s.named → E error t ∧ C t) :
    Prog.wp o (perform errnos call error fun s => s) Q E C s := by
  rw [perform, Prog.wp_act]
  cases hcall : o call with
  | ok => exact done hcall _ rfl
  | failed applied =>
    refine (failed (by simp [hcall]) _ ?_).1
    cases applied <;> rfl
  | killed => exact (failed (by simp [hcall]) _ rfl).2

theorem wp_openat {Q : Bool → TreeState → Prop} {E : QString → TreeState → Prop}
    {C : TreeState → Prop} :
    Prog.wp o (openat errnos) Q E C s ↔
      match o .openDir with
      | .ok =>
        match s.named with
        | none => Q false { s with errno := ENOENT }
        | some (node, _) =>
          if node.kind = .directory then Q true { s with errno := errnos.leftover .openDir }
          else Q false { s with errno := ENOTDIR }
      | .failed _ => Q false { s with errno := errnos.failing .openDir }
      | .killed => C s := by
  unfold Prog.wp openat
  cases o .openDir with
  | ok =>
    cases s.named with
    | none => rfl
    | some named =>
      dsimp only
      split_ifs <;> rfl
  | failed applied => rfl
  | killed => rfl

/-- Opening finds the directory missing, verifies it, or fails. -/
theorem wp_openVerifiedDir {Q : Bool → TreeState → Prop} {E : QString → TreeState → Prop}
    {C : TreeState → Prop}
    (missing : o .openDir = .ok → s.named = none → ∀ t, t.named = s.named → Q false t)
    (verified : ∀ dir entries, o .openDir = .ok → o .statDir = .ok → s.named = some (dir, entries) →
      directoryRefusal dir dirKind = none → ∀ t, t.named = s.named → Q true t)
    (failed : ¬ Removes o order name dirKind entryKind s →
      ∀ t, t.named = s.named → (∀ error, E error t) ∧ C t) :
    Prog.wp o (openVerifiedDir errnos name dirKind) Q E C s := by
  have hcannot : o .openDir ≠ .ok → ¬ Removes o order name dirKind entryKind s :=
    fun hfailed hall => hfailed hall.openDir
  have hrefused : ∀ dir entries, s.named = some (dir, entries) →
      ¬ (directoryRefusal dir dirKind = none ∧ o .statDir = .ok) →
      ¬ Removes o order name dirKind entryKind s := by
    rintro dir entries hnamed hnot ⟨-, -, hnone | ⟨dir', entries', hnamed', hall⟩⟩
    · exact nomatch hnone.symm.trans hnamed
    · obtain ⟨rfl, rfl⟩ := Prod.mk.inj (Option.some.inj (hnamed.symm.trans hnamed'))
      exact hnot ⟨hall.verified, hall.statDir⟩
  rw [openVerifiedDir, Prog.wp_bind, wp_openat]
  cases hopen : o .openDir with
  | failed applied =>
    dsimp only
    rw [if_neg Bool.false_ne_true, Prog.wp_bind, Prog.wp_look, if_neg errnos.open_ne]
    have hmissed := failed (hcannot (by simp [hopen]))
      { s with errno := errnos.failing .openDir } rfl
    exact hmissed.1 _
  | killed => exact (failed (hcannot (by simp [hopen])) _ rfl).2
  | ok =>
    cases hnamed : s.named with
    | none =>
      dsimp only
      rw [if_neg Bool.false_ne_true, Prog.wp_bind, Prog.wp_look, if_pos rfl]
      exact missing hopen hnamed _ hnamed.symm
    | some named =>
      obtain ⟨dir, entries⟩ := named
      dsimp only
      by_cases hkind : dir.kind = .directory
      · rw [if_pos hkind, if_pos rfl, Prog.wp_bind]
        apply wp_perform
        · intro hstat t ht
          have ht' : t.named = s.named := ht.trans hnamed.symm
          rw [Prog.wp_bind, Prog.wp_look, ht]
          dsimp only [Option.bind_some]
          cases hrefusal : directoryRefusal dir dirKind with
          | none => exact verified dir entries hopen hstat hnamed hrefusal t ht'
          | some refusal =>
            refine (failed (hrefused dir entries hnamed fun h => ?_) t ht').1 _
            exact nomatch hrefusal.symm.trans h.1
        · intro hstat t ht
          obtain ⟨hraised, hkilled⟩ :=
            failed (hrefused dir entries hnamed fun h => hstat h.2) t (ht.trans hnamed.symm)
          exact ⟨hraised _, hkilled⟩
      · rw [if_neg hkind, if_neg Bool.false_ne_true, Prog.wp_bind, Prog.wp_look,
          if_neg (by simp [ENOTDIR, ENOENT])]
        refine (failed (hrefused dir entries hnamed fun h => ?_) _ hnamed.symm).1 _
        simp [directoryRefusal, hkind] at h

/-- An empty directory goes where the call takes effect. -/
theorem wp_removeDir {error : QString} {Q : PUnit → TreeState → Prop}
    {E : QString → TreeState → Prop} {C : TreeState → Prop} (hnamed : s.named = some (dir, entries))
    (hempty : entries.keys = [])
    (done : o .removeDir = .ok → ∀ t, t.named = none → Q ⟨⟩ t)
    (failed : o .removeDir ≠ .ok → ∀ t, t.named = s.named ∨ t.named = none →
      (∀ error, E error t) ∧ C t) :
    Prog.wp o (removeDir error) Q E C s := by
  have hall : (s.named.all fun named => decide (named.2.keys = [])) = true := by
    simp [hnamed, hempty]
  unfold Prog.wp removeDir
  dsimp only
  rw [hall]
  cases hremove : o .removeDir with
  | ok => exact done hremove _ rfl
  | failed applied =>
    refine (failed (by simp [hremove]) _ ?_).1 _
    cases applied
    · exact Or.inl rfl
    · exact Or.inr rfl
  | killed => exact (failed (by simp [hremove]) _ (Or.inl rfl)).2

/-- Every way a removal can end. -/
theorem wp_durableRemoveTree
    (horder : ∀ dir entries, s.named = some (dir, entries) → Enumerates order entries) :
    Prog.wp o (durableRemoveTree errnos order name dirKind entryKind)
      (fun _ t => Removes o order name dirKind entryKind s ∧ SafelyCleared entryKind s t ∧
        t.named = none)
      (fun _ t => ¬ Removes o order name dirKind entryKind s ∧ SafelyCleared entryKind s t)
      (fun t => ¬ Removes o order name dirKind entryKind s ∧ SafelyCleared entryKind s t) s := by
  unfold durableRemoveTree
  by_cases hsingle : isSingleComponent name = true
  swap
  · rw [if_pos (by simpa using hsingle)]
    exact ⟨fun hall => hsingle hall.single, safelyCleared_of_named rfl⟩
  rw [if_neg (by simp [hsingle]), Prog.wp_bind]
  apply @wp_openVerifiedDir errnos o name order dirKind entryKind
  · intro hopen hnone t ht
    exact ⟨⟨hsingle, hopen, Or.inl hnone⟩, safelyCleared_of_named ht, ht.trans hnone⟩
  · intro dir entries hopen hstat hnamed hverified t ht
    have hnot : ¬ RemoveSucceeds o order dirKind entryKind dir entries →
        ¬ Removes o order name dirKind entryKind s := by
      rintro hnot ⟨-, -, hnone | ⟨dir', entries', hnamed', hall⟩⟩
      · exact nomatch hnone.symm.trans hnamed
      · obtain ⟨rfl, rfl⟩ := Prod.mk.inj (Option.some.inj (hnamed.symm.trans hnamed'))
        exact hnot hall
    rw [if_neg (by simp), Prog.wp_bind]
    apply wp_perform
    · intro hdup t₁ ht₁
      rw [Prog.wp_bind]
      apply wp_perform
      · intro hlist t₂ ht₂
        have hnamed₂ : t₂.named = some (dir, entries) := by rw [ht₂, ht₁, ht, hnamed]
        have hnamed₃ : ({ t₂ with errno := 0 } : TreeState).named = some (dir, entries) := hnamed₂
        rw [Prog.wp_bind, wp_setErrno, Prog.wp_bind]
        apply Prog.wp_mono _ (wp_clearEntries order hnamed₃ (horder dir entries hnamed) rfl)
        · rintro _ u ⟨hcleared, hresult⟩
          rw [Prog.wp_bind, Prog.wp_look]
          rcases hresult with ⟨herrno, hclear, left, hleft, hempty⟩ | ⟨herrno, hclear⟩
          swap
          · rw [if_pos herrno]
            exact ⟨hnot fun hall => hclear hall.clear, safelyCleared_of_cleared hnamed hcleared⟩
          rw [if_neg (not_not.mpr herrno), Prog.wp_bind]
          have hkept : ∀ v : TreeState, v.named = u.named → SafelyCleared entryKind s v :=
            fun v hv => safelyCleared_of_cleared hnamed ⟨left, hv.trans hleft, by
              obtain ⟨left', hleft', hgone⟩ := hcleared
              obtain ⟨-, rfl⟩ := Prod.mk.inj (Option.some.inj (hleft.symm.trans hleft'))
              exact hgone⟩
          apply wp_perform
          · intro hsync v hv
            rw [Prog.wp_bind]
            apply wp_removeDir (hv.trans hleft) hempty
            · intro hremove x hx
              apply wp_perform
              · intro hparent y hy
                exact ⟨⟨hsingle, hopen, Or.inr ⟨dir, entries, hnamed, hverified, hstat, hdup, hlist,
                  hclear, hsync, hremove, hparent⟩⟩,
                  safelyCleared_of_gone hnamed (hy.trans hx) hclear.safe, hy.trans hx⟩
              · intro hparent y hy
                have hgone := safelyCleared_of_gone hnamed (hy.trans hx) hclear.safe
                have hfailed := hnot fun hall => hparent hall.syncParent
                exact ⟨⟨hfailed, hgone⟩, hfailed, hgone⟩
            · intro hremove x hx
              have hleft : SafelyCleared entryKind s x := by
                rcases hx with hx | hx
                · exact hkept x (hx.trans hv)
                · exact safelyCleared_of_gone hnamed hx hclear.safe
              have hfailed := hnot fun hall => hremove hall.removeDir
              exact ⟨fun _ => ⟨hfailed, hleft⟩, hfailed, hleft⟩
          · intro hsync v hv
            have hfailed := hnot fun hall => hsync hall.syncDir
            exact ⟨⟨hfailed, hkept v hv⟩, hfailed, hkept v hv⟩
        · rintro error u ⟨hcleared, hclear⟩
          exact ⟨hnot fun hall => hclear hall.clear, safelyCleared_of_cleared hnamed hcleared⟩
        · rintro u ⟨hcleared, hclear⟩
          exact ⟨hnot fun hall => hclear hall.clear, safelyCleared_of_cleared hnamed hcleared⟩
      · intro hlist t₂ ht₂
        have hkept := @safelyCleared_of_named entryKind _ _ ((ht₂.trans ht₁).trans ht)
        have hfailed := hnot fun hall => hlist hall.fdopendir
        exact ⟨⟨hfailed, hkept⟩, hfailed, hkept⟩
    · intro hdup t₁ ht₁
      have hkept := @safelyCleared_of_named entryKind _ _ (ht₁.trans ht)
      have hfailed := hnot fun hall => hdup hall.dup
      exact ⟨⟨hfailed, hkept⟩, hfailed, hkept⟩
  · intro hfailed t ht
    have hkept := @safelyCleared_of_named entryKind _ _ ht
    exact ⟨fun _ => ⟨hfailed, hkept⟩, hfailed, hkept⟩

/-- The entry of the directory, where both are there. -/
def TreeState.entry? (s : TreeState) (entry : QString) : Option Inode :=
  s.named.bind fun named => named.2.lookup entry

/-- Nothing depends on the order in which the entries are read. -/
theorem removes_perm {order' : List QString} (h : order.Perm order') :
    Removes o order name dirKind entryKind s ↔ Removes o order' name dirKind entryKind s := by
  have hclear : ∀ entries, ClearSucceeds o entryKind 0 order entries ↔
      ClearSucceeds o entryKind 0 order' entries := by
    intro entries
    constructor
    · exact fun hall => ⟨h.length_eq ▸ hall.read, hall.safe, hall.calls⟩
    · exact fun hall => ⟨h.length_eq ▸ hall.read, hall.safe, hall.calls⟩
  have hremove : ∀ dir entries, RemoveSucceeds o order dirKind entryKind dir entries ↔
      RemoveSucceeds o order' dirKind entryKind dir entries := by
    intro dir entries
    constructor
    · exact fun hall => { hall with clear := (hclear entries).mp hall.clear }
    · exact fun hall => { hall with clear := (hclear entries).mpr hall.clear }
  constructor
  · rintro ⟨hsingle, hopen, hremoved⟩
    simp only [hremove] at hremoved
    exact ⟨hsingle, hopen, hremoved⟩
  · rintro ⟨hsingle, hopen, hremoved⟩
    simp only [← hremove] at hremoved
    exact ⟨hsingle, hopen, hremoved⟩

/-- A removal succeeds exactly if every entry is safe and every call succeeds, or
the directory is found missing. -/
theorem returned_iff_removes
    (horder : ∀ dir entries, s.named = some (dir, entries) → Enumerates order entries) :
    ((durableRemoveTree errnos order name dirKind entryKind).run o s).1 = .returned ⟨⟩ ↔
      Removes o order name dirKind entryKind s := by
  obtain ⟨hreturned, hraised, hkilled⟩ := (Prog.wp_iff _).mp
    (@wp_durableRemoveTree errnos o name order dirKind entryKind s horder)
  cases hrun : (durableRemoveTree errnos order name dirKind entryKind).run o s with
  | mk ending t =>
    cases ending with
    | returned done => exact iff_of_true rfl (hreturned done t hrun).1
    | raised error => exact iff_of_false nofun (hraised error t hrun).1
    | killed => exact iff_of_false nofun (hkilled t hrun).1

/-- Removal unlinks only what it verified: an entry that is gone was a regular
file of root with exactly the mode of its kind, an unsafe entry stays with its
directory and makes the call fail, the call succeeds exactly if the directory is
found missing or everything is safe and succeeds, and the order in which the
entries are read does not matter. -/
theorem durableRemoveTree_verified (errnos : Errnos) (o : TreeCall → Outcome) (name : QString)
    (order : List QString) (dirKind entryKind : ArtifactKind) (s : TreeState)
    (horder : ∀ dir entries, s.named = some (dir, entries) → Enumerates order entries) :
    let result := (durableRemoveTree errnos order name dirKind entryKind).run o s
    (∀ entry node, s.entry? entry = some node → TreeState.entry? result.2 entry ≠ some node →
      node.kind = .regular ∧ node.uid = 0 ∧ node.mode = modeFor entryKind) ∧
    (∀ dir entries entry node, s.named = some (dir, entries) → entries.lookup entry = some node →
      ¬ (node.kind = .regular ∧ node.uid = 0 ∧ node.mode = modeFor entryKind) →
        result.1 ≠ .returned ⟨⟩ ∧
          ∃ left, result.2.named = some (dir, left) ∧ left.lookup entry = some node) ∧
    (result.1 = .returned ⟨⟩ ↔ Removes o order name dirKind entryKind s) ∧
    (result.1 = .returned ⟨⟩ → result.2.named = none) ∧
    ∀ order', order.Perm order' →
      (result.1 = .returned ⟨⟩ ↔
        ((durableRemoveTree errnos order' name dirKind entryKind).run o s).1 = .returned ⟨⟩) := by
  intro result
  have hsafe : ∀ node : Inode, node.safe entryKind = true ↔
      node.kind = .regular ∧ node.uid = 0 ∧ node.mode = modeFor entryKind := by
    intro node
    simp [Inode.safe, and_assoc]
  have hcleared : SafelyCleared entryKind s result.2 ∧
      (result.1 = .returned ⟨⟩ → result.2.named = none) := by
    obtain ⟨hreturned, hraised, hkilled⟩ := (Prog.wp_iff _).mp
      (@wp_durableRemoveTree errnos o name order dirKind entryKind s horder)
    cases hrun : (durableRemoveTree errnos order name dirKind entryKind).run o s with
    | mk ending t =>
      have hresult : result = (ending, t) := hrun
      rw [hresult]
      cases ending with
      | returned done => exact (hreturned done t hrun).2.imp id fun hnone _ => hnone
      | raised error => exact ⟨(hraised error t hrun).2, nofun⟩
      | killed => exact ⟨(hkilled t hrun).2, nofun⟩
  obtain ⟨hcleared, hgone⟩ := hcleared
  -- An unsafe entry is where it was.
  have hkept : ∀ dir entries entry node, s.named = some (dir, entries) →
      entries.lookup entry = some node → ¬ node.safe entryKind = true →
      ∃ left, result.2.named = some (dir, left) ∧ left.lookup entry = some node := by
    intro dir entries entry node hnamed hnode hunsafe
    rcases hcleared.present dir entries hnamed with ⟨left, hleft, honly⟩ | ⟨-, hall⟩
    · refine ⟨left, hleft, ?_⟩
      rcases honly entry with hsame | ⟨-, node', hnode', hsafe'⟩
      · rw [hsame, hnode]
      · obtain rfl := Option.some.inj (hnode.symm.trans hnode')
        exact absurd hsafe' hunsafe
    · exact absurd (hall entry node hnode) hunsafe
  have hiff := @returned_iff_removes errnos o name order dirKind entryKind s horder
  refine ⟨?_, ?_, hiff, hgone, ?_⟩
  · intro entry node hentry hchanged
    rw [← hsafe]
    by_contra hunsafe
    obtain ⟨⟨dir, entries⟩, hnamed, hnode⟩ := Option.bind_eq_some_iff.mp hentry
    obtain ⟨left, hleft, hstill⟩ := hkept dir entries entry node hnamed hnode hunsafe
    apply hchanged
    rw [ TreeState.entry?, hleft]
    exact hstill
  · intro dir entries entry node hnamed hnode hunsafe
    rw [← hsafe] at hunsafe
    obtain ⟨left, hleft, hstill⟩ := hkept dir entries entry node hnamed hnode hunsafe
    refine ⟨fun hreturned => ?_, left, hleft, hstill⟩
    exact nomatch (hgone hreturned).symm.trans hleft
  · intro order' hperm
    have horder' : ∀ dir entries, s.named = some (dir, entries) → Enumerates order' entries :=
      fun dir entries hnamed => ((hperm.filter _).symm).trans (horder dir entries hnamed)
    rw [hiff, removes_perm hperm]
    exact (@returned_iff_removes errnos o name order' dirKind entryKind s horder').symm

section Sample

def sampleErrnos : Errnos where
  leftover := fun _ => 11
  failing := fun _ => 5
  failing_ne := fun _ => by decide
  open_ne := by decide

def sampleTree (uid : UInt32) (entries : Entries) : TreeState where
  errno := 0
  named := some ({ kind := .directory, uid := uid, gid := 0, mode := 0o700 }, entries)

/-- An absent directory whose open fails for lack of descriptors is reported as a
failure, and so is an empty directory of another owner. -/
theorem removal_reports_failure :
    (¬ ∀ (o : TreeCall → Outcome) (s : TreeState),
      ((durableRemoveTree sampleErrnos [] (qs "nasmount") .directory .sensitiveFile).run o s).1 =
          .returned ⟨⟩ ↔
        s.named = none ∨
          (∀ entry node, s.entry? entry = some node → node.safe .sensitiveFile = true) ∧
            ∀ call, o call = .ok) ∧
      ((durableRemoveTree sampleErrnos [] (qs "nasmount") .directory .sensitiveFile).run Prog.allOk
        (sampleTree 1000 ∅)).1 ≠ .returned ⟨⟩ := by
  have hmissing : ((durableRemoveTree sampleErrnos [] (qs "nasmount") .directory .sensitiveFile).run
      (fun call => if call = .openDir then .failed false else .ok) ⟨0, none⟩).1 ≠ .returned ⟨⟩ := by
    decide +kernel
  constructor
  · exact fun h => hmissing ((h _ _).mpr (Or.inl rfl))
  · decide +kernel

/-- A directory with one credential, read between the two dot names. -/
theorem durableRemoveTree_verified_sample :
    ((durableRemoveTree sampleErrnos [qs ".", qs "x.cred", qs ".."] (qs "nasmount") .directory
      .sensitiveFile).run Prog.allOk
        (sampleTree 0 ((∅ : Entries).insert (qs "x.cred") (installed [] .sensitiveFile)))).2.named =
      none := by
  have hverified := durableRemoveTree_verified sampleErrnos Prog.allOk (qs "nasmount")
    [qs ".", qs "x.cred", qs ".."] .directory .sensitiveFile
    (sampleTree 0 ((∅ : Entries).insert (qs "x.cred") (installed [] .sensitiveFile))) (by
      intro dir entries hnamed
      obtain ⟨-, rfl⟩ := Prod.mk.inj (Option.some.inj hnamed)
      exact List.Perm.refl _)
  exact hverified.2.2.2.1 (by decide +kernel)

end Sample

end Tree

end NasMount.Root.DurableFs
