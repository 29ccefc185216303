import NasMount.Session.Store

/-!
# Histories of one share record

Any number of processes read, commit and remove records, one call at a time.
Every call re-reads the file first, and that writes out what an earlier failing
`sync` of the same process has left pending. The generation of a record counts
the commits since its insertion, so what a generation says about the record is
worked out from the calls that took effect since it was read.
-/
namespace NasMount.Session

open NasMount.Foundation NasMount.Core QString

namespace Store

/-- A change that a process has made in memory. -/
inductive Change
  | write (share : Share) (generation : UInt64)
  | delete (id : QString)

def Change.id : Change → QString
  | .write share _ => share.id
  | .delete id => id

def Change.apply : Change → Config → Config
  | .write share generation, config =>
    config.insert share.id
      { writeShareFields ((config.lookup share.id).getD {}) share with
        generation := some generation }
  | .delete id, config => removeShare id config

inductive Call
  | snapshotById (id : QString)
  | commitShare (share : Share) (expectedGeneration : UInt64)
  | removeShare (id : QString)

/-- One call of a process, and the answers of `KConfig::sync` in it: to the one
that re-reading makes for pending changes, and to its own. -/
structure Step (Client : Type) where
  client : Client
  call : Call
  flushed : Bool := true
  synced : Bool := true

inductive Answer
  | snapshot (snap : Snapshot)
  | commit (result : CommitResult)
  | remove (done : Bool)
  deriving DecidableEq

/-- The file, and the changes pending in the memory of each process. -/
structure System (Client : Type) where
  disk : Config
  pending : Client → Option Change := fun _ => none

/-- A call of a client that took effect on a record. -/
inductive Effect
  | committed
  | removed
  /-- A change pending since an earlier call was written out. -/
  | late
  deriving DecidableEq

section Steps

variable {Client : Type} [DecidableEq Client]

/-- `KConfig::reparseConfiguration`: pending changes are written first. -/
def System.reparse (s : System Client) (client : Client) (flushed : Bool) : System Client where
  disk :=
    match s.pending client with
    | some change => if flushed then change.apply s.disk else s.disk
    | none => s.disk
  pending := Function.update s.pending client none

/-- What a call does once the file is read. -/
def System.call (s : System Client) (e : Step Client) : Answer × System Client :=
  match e.call with
  | .snapshotById id => (.snapshot (snapshotById s.disk id), s)
  | .commitShare share expectedGeneration =>
    let outcome := commitShare e.synced share expectedGeneration s.disk
    let pending :=
      if outcome.1 = .syncFailed then
        Function.update s.pending e.client (some (.write share (expectedGeneration + 1)))
      else s.pending
    (.commit outcome.1, { disk := outcome.2, pending := pending })
  | .removeShare id =>
    if (s.disk.lookup id).isSome then
      if e.synced then (.remove true, { s with disk := removeShare id s.disk })
      else (.remove false,
        { s with pending := Function.update s.pending e.client (some (.delete id)) })
    else (.remove true, s)

def System.answer (s : System Client) (e : Step Client) : Answer :=
  ((s.reparse e.client e.flushed).call e).1

def System.step (s : System Client) (e : Step Client) : System Client :=
  ((s.reparse e.client e.flushed).call e).2

/-- Whether re-reading writes out a pending change of the record. -/
def System.flushesLate (s : System Client) (id : QString) (e : Step Client) : Bool :=
  match s.pending e.client with
  | some change => e.flushed && decide (change.id = id)
  | none => false

/-- What a call itself does to the record, once the file is read. -/
def System.ownEffects (s : System Client) (id : QString) (e : Step Client) : List Effect :=
  match e.call with
  | .snapshotById _ => []
  | .commitShare share expectedGeneration =>
    if share.id = id ∧ (commitShare e.synced share expectedGeneration s.disk).1 = .ok then
      [.committed]
    else []
  | .removeShare id' =>
    if id' = id ∧ (s.disk.lookup id').isSome ∧ e.synced then [.removed] else []

def System.stepEffects (s : System Client) (id : QString) (e : Step Client) : List Effect :=
  (if s.flushesLate id e then [Effect.late] else []) ++
    (s.reparse e.client e.flushed).ownEffects id e

/-- Everything that took effect on the record during a run, in order. -/
def System.effects (s : System Client) (id : QString) : List (Step Client) → List Effect
  | [] => []
  | e :: steps => s.stepEffects id e ++ (s.step e).effects id steps

def System.run (s : System Client) (steps : List (Step Client)) : System Client :=
  steps.foldl System.step s

end Steps

/-- The generation of a record, where there is one. -/
def generation? (config : Config) (id : QString) : Option UInt64 :=
  (config.lookup id).map fun g => g.generation.getD 0

/-- The commits that a record's state stands for: none without a record, and
`2^64` where the generation has come round to zero, which no commit presents. -/
def counter : Option UInt64 → ℕ
  | none => 0
  | some g => if g = 0 then 2 ^ 64 else g.toNat

/-- What an effect does to that count. -/
def Effect.count : ℕ → Effect → ℕ
  | n, .committed => n + 1
  | _, .removed => 0
  | n, .late => n

/-- The number of commits since the last removal. -/
def commitsSinceRemoval (effects : List Effect) : ℕ :=
  (effects.reverse.takeWhile fun effect => effect = .committed).length

/-- The record was removed, and since then committed as often as the generation
says. -/
def Reused (generation : UInt64) (effects : List Effect) : Prop :=
  .removed ∈ effects ∧ commitsSinceRemoval effects = generation.toNat

instance (generation : UInt64) (effects : List Effect) : Decidable (Reused generation effects) :=
  inferInstanceAs (Decidable (_ ∧ _))

section Counting

variable {config : Config} {share : Share} {id : QString} {expected : UInt64} {synced : Bool}
  {effects : List Effect} {n : ℕ}

theorem counter_eq_toNat_iff (r : Option UInt64) (token : UInt64) :
    counter r = token.toNat ↔ r = none ∧ token = 0 ∨ r = some token ∧ token ≠ 0 := by
  have hlt := token.toNat_lt
  have hzero : token.toNat = 0 ↔ token = 0 := by
    rw [← UInt64.toNat_inj]
    rfl
  cases r with
  | none => simpa [counter, eq_comm] using hzero
  | some g =>
    rw [counter]
    split_ifs with hg
    · subst hg
      simp only [false_and, Option.some.injEq, false_or]
      constructor
      · intro h
        omega
      · rintro ⟨h, hne⟩
        exact absurd h.symm hne
    · simp only [false_and, Option.some.injEq, false_or, UInt64.toNat_inj]
      constructor
      · rintro rfl
        exact ⟨rfl, hg⟩
      · exact fun h => h.1

/-- The count one commit further. -/
theorem counter_succ {g : UInt64} (h : g ≠ 0) : counter (some (g + 1)) = counter (some g) + 1 := by
  have hlt := g.toNat_lt
  have hsum : (g + 1).toNat = (g.toNat + 1) % 2 ^ 64 := by
    rw [UInt64.toNat_add]
    rfl
  have hzero : g + 1 = 0 ↔ (g.toNat + 1) % 2 ^ 64 = 0 := by
    rw [← UInt64.toNat_inj, hsum]
    rfl
  rw [counter, counter, if_neg h]
  split_ifs with hwrap
  · have := hzero.mp hwrap
    omega
  · have hne := mt hzero.mpr hwrap
    rw [hsum]
    omega

theorem snapshotById_generation (config : Config) (id : QString) :
    (snapshotById config id).present = (generation? config id).isSome ∧
      (snapshotById config id).generation = (generation? config id).getD 0 := by
  rw [snapshotById, generation?]
  cases config.lookup id <;> simp

/-- A commit goes through the check exactly where the count is that of its
generation. -/
theorem commitShare_conflict_iff :
    (commitShare synced share expected config).1 = .generationConflict ↔
      counter (generation? config share.id) ≠ expected.toNat := by
  obtain ⟨hpresent, hgeneration⟩ := snapshotById_generation config share.id
  have hcheck : ((snapshotById config share.id).present ≠ decide (expected ≠ 0) ∨
      (snapshotById config share.id).present ∧
        (snapshotById config share.id).generation ≠ expected) ↔
      counter (generation? config share.id) ≠ expected.toNat := by
    simp only [ne_eq, counter_eq_toNat_iff, hpresent, hgeneration]
    cases generation? config share.id with
    | none => by_cases h : expected = 0 <;> simp [h]
    | some g => by_cases h : expected = 0 <;> simp [h]
  rw [← hcheck, commitShare]
  dsimp only
  by_cases hconflict : (snapshotById config share.id).present ≠ decide (expected ≠ 0) ∨
      (snapshotById config share.id).present ∧
        (snapshotById config share.id).generation ≠ expected
  · rw [if_pos hconflict]
    exact iff_of_true rfl hconflict
  · rw [if_neg hconflict]
    split_ifs <;> simpa using hconflict

/-- A commit that did not succeed leaves the file as it was. -/
theorem commitShare_config (h : (commitShare synced share expected config).1 ≠ .ok) :
    (commitShare synced share expected config).2 = config := by
  unfold commitShare at h ⊢
  dsimp only at h ⊢
  split_ifs at h ⊢
  · rfl
  · exact absurd rfl h
  · rfl

/-- A commit that took effect counts one more. -/
theorem counter_commitShare (h : (commitShare synced share expected config).1 = .ok) :
    counter (generation? config share.id) < 2 ^ 64 ∧
      counter (generation? (commitShare synced share expected config).2 share.id) =
        counter (generation? config share.id) + 1 := by
  have hcount : counter (generation? config share.id) = expected.toNat := by
    by_contra hne
    rw [commitShare_conflict_iff.mpr hne] at h
    exact nomatch h
  have hnew : generation? (commitShare synced share expected config).2 share.id =
      some (expected + 1) := by
    unfold commitShare at h ⊢
    dsimp only at h ⊢
    split_ifs at h ⊢
    simp [generation?]
  refine ⟨hcount ▸ expected.toNat_lt, ?_⟩
  rw [hnew, hcount]
  by_cases hzero : expected = 0
  · subst hzero
    rfl
  · rw [counter_succ hzero, counter, if_neg hzero]

theorem generation?_removeShare (config : Config) (id : QString) :
    generation? (removeShare id config) id = none := by
  simp [generation?, removeShare]

theorem generation?_removeShare_ne {id' : QString} (h : id ≠ id') :
    generation? (removeShare id' config) id = generation? config id := by
  simp [generation?, removeShare, AList.lookup_erase_ne h]

theorem generation?_commitShare_ne (h : id ≠ share.id) :
    generation? (commitShare synced share expected config).2 id = generation? config id := by
  unfold commitShare
  dsimp only
  split_ifs
  · rfl
  · simp [generation?, AList.lookup_insert_ne h]
  · rfl

/-- Effects as a record can have them: a commit only below the largest count. -/
def Possible : ℕ → List Effect → Prop
  | _, [] => True
  | n, effect :: effects =>
    (effect = .committed → n < 2 ^ 64) ∧ Possible (effect.count n) effects

theorem possible_append {xs ys : List Effect} :
    Possible n (xs ++ ys) ↔ Possible n xs ∧ Possible (xs.foldl Effect.count n) ys := by
  induction xs generalizing n with
  | nil => simp [Possible]
  | cons x xs ih => rw [List.cons_append, Possible, ih, Possible, List.foldl_cons, and_assoc]

/-- The count is that of the commits since the last removal, and where nothing
was removed the first count and all commits. -/
theorem foldl_count (hlate : .late ∉ effects) :
    effects.foldl Effect.count n =
      if .removed ∈ effects then commitsSinceRemoval effects else n + effects.length := by
  induction effects using List.reverseRecOn with
  | nil => simp
  | append_singleton front effect ih =>
    have hfront : Effect.late ∉ front := fun h => hlate (List.mem_append_left _ h)
    rw [List.foldl_append, List.foldl_cons, List.foldl_nil, ih hfront]
    cases effect with
    | committed =>
      by_cases hremoved : Effect.removed ∈ front
      · simp [hremoved, Effect.count, commitsSinceRemoval]
      · simp [hremoved, Effect.count]
        omega
    | removed => simp [Effect.count, commitsSinceRemoval]
    | late => exact absurd (by simp) hlate

/-- After some effects the count is that of the generation read before them
exactly if the record was removed and committed that often again. -/
theorem foldl_count_eq_iff {r : Option UInt64} (hpossible : Possible (counter r) effects)
    (hlate : .late ∉ effects) (hne : effects ≠ []) :
    effects.foldl Effect.count (counter r) = (r.getD 0).toNat ↔ Reused (r.getD 0) effects := by
  rw [foldl_count hlate, Reused]
  by_cases hremoved : Effect.removed ∈ effects
  · simp [hremoved]
  · obtain ⟨effect, rest, rfl⟩ := List.exists_cons_of_ne_nil hne
    have hcommitted : effect = .committed := by
      cases effect with
      | committed => rfl
      | removed => exact absurd List.mem_cons_self hremoved
      | late => exact absurd List.mem_cons_self hlate
    have hbelow : counter r < 2 ^ 64 := hpossible.1 hcommitted
    have hcounter : counter r = (r.getD 0).toNat := by
      cases r with
      | none => rfl
      | some g =>
        rw [counter] at hbelow ⊢
        split_ifs at hbelow ⊢ with hg
        · omega
        · rfl
    rw [if_neg hremoved, hcounter, List.length_cons]
    constructor
    · intro h
      omega
    · exact fun h => absurd h.1 hremoved

end Counting

section Runs

variable {Client : Type} [DecidableEq Client] {s : System Client} {e : Step Client} {id : QString}
  {steps : List (Step Client)}

theorem generation?_reparse (h : s.flushesLate id e = false) :
    generation? (s.reparse e.client e.flushed).disk id = generation? s.disk id := by
  rw [System.reparse]
  rw [System.flushesLate] at h
  cases hpending : s.pending e.client with
  | none => rfl
  | some change =>
    rw [hpending] at h
    dsimp only at h ⊢
    split_ifs with hflushed
    · have hid : id ≠ change.id := by
        intro hid
        simp [hflushed, hid] at h
      cases change with
      | write share generation =>
        have hshare : id ≠ share.id := hid
        simp [Change.apply, generation?, AList.lookup_insert_ne hshare]
      | delete id' => exact generation?_removeShare_ne hid
    · rfl

/-- What one call does to the count of a record. -/
theorem counter_call (s : System Client) (e : Step Client) (id : QString) :
    Possible (counter (generation? s.disk id)) (s.ownEffects id e) ∧
      counter (generation? (s.call e).2.disk id) =
        (s.ownEffects id e).foldl Effect.count (counter (generation? s.disk id)) := by
  rw [System.call, System.ownEffects]
  cases e.call with
  | snapshotById id' => exact ⟨trivial, rfl⟩
  | commitShare share expected =>
    dsimp only
    split_ifs with hok
    · obtain ⟨rfl, hok⟩ := hok
      obtain ⟨hbelow, hcount⟩ := counter_commitShare hok
      exact ⟨⟨fun _ => hbelow, trivial⟩, hcount⟩
    · refine ⟨trivial, ?_⟩
      by_cases hid : share.id = id
      · have hkept : (commitShare e.synced share expected s.disk).2 = s.disk := by
          apply commitShare_config
          exact fun h => hok ⟨hid, h⟩
        rw [hkept]
        rfl
      · rw [generation?_commitShare_ne (Ne.symm hid)]
        rfl
  | removeShare id' =>
    dsimp only
    by_cases hpresent : (s.disk.lookup id').isSome = true
    · by_cases hsynced : e.synced = true
      · by_cases hid : id' = id
        · subst hid
          rw [if_pos hpresent, if_pos hsynced, if_pos ⟨rfl, hpresent, hsynced⟩]
          refine ⟨⟨nofun, trivial⟩, ?_⟩
          dsimp only
          rw [generation?_removeShare]
          rfl
        · rw [if_pos hpresent, if_pos hsynced, if_neg fun h => hid h.1]
          refine ⟨trivial, ?_⟩
          dsimp only
          rw [generation?_removeShare_ne (Ne.symm hid)]
          rfl
      · rw [if_pos hpresent, if_neg hsynced, if_neg fun h => hsynced h.2.2]
        exact ⟨trivial, rfl⟩
    · rw [if_neg hpresent, if_neg fun h => hpresent h.2.1]
      exact ⟨trivial, rfl⟩

/-- One step, where nothing pending is written out on the way. -/
theorem counter_step (h : .late ∉ s.stepEffects id e) :
    Possible (counter (generation? s.disk id)) (s.stepEffects id e) ∧
      counter (generation? (s.step e).disk id) =
        (s.stepEffects id e).foldl Effect.count (counter (generation? s.disk id)) := by
  have hflush : s.flushesLate id e = false := by
    by_contra hflush
    rw [Bool.not_eq_false] at hflush
    simp [System.stepEffects, hflush] at h
  have hcall := counter_call (s.reparse e.client e.flushed) e id
  rw [generation?_reparse hflush] at hcall
  simpa [System.stepEffects, hflush, System.step] using hcall

/-- A whole run, where nothing pending is written out on the way. -/
theorem counter_run (h : .late ∉ s.effects id steps) :
    Possible (counter (generation? s.disk id)) (s.effects id steps) ∧
      counter (generation? (s.run steps).disk id) =
        (s.effects id steps).foldl Effect.count (counter (generation? s.disk id)) := by
  induction steps generalizing s with
  | nil => exact ⟨trivial, rfl⟩
  | cons e steps ih =>
    rw [System.effects, List.mem_append, not_or] at h
    obtain ⟨hpossible, hcount⟩ := counter_step h.1
    obtain ⟨hrest, hrestCount⟩ := ih h.2
    rw [hcount] at hrest hrestCount
    refine ⟨?_, ?_⟩
    · rw [System.effects, possible_append]
      exact ⟨hpossible, hrest⟩
    · rw [System.effects, List.foldl_append]
      exact hrestCount

theorem effects_append (s : System Client) (id : QString) (xs ys : List (Step Client)) :
    s.effects id (xs ++ ys) = s.effects id xs ++ (s.run xs).effects id ys := by
  induction xs generalizing s with
  | nil => rfl
  | cons e xs ih =>
    rw [List.cons_append, System.effects, ih, System.effects, List.append_assoc]
    rfl

/-- The answer of a commit whose process has nothing of the record to write out. -/
theorem answer_commitShare {share : Share} {expected : UInt64}
    (hcall : e.call = .commitShare share expected) (hflush : s.flushesLate share.id e = false) :
    s.answer e = .commit .generationConflict ↔
      counter (generation? s.disk share.id) ≠ expected.toNat := by
  rw [System.answer, System.call, hcall]
  dsimp only
  rw [Answer.commit.injEq, commitShare_conflict_iff, generation?_reparse hflush]

/-- The commit answers `ok` only over the record its generation was read from, and
otherwise reports a conflict and changes nothing. -/
def ChecksCommit (s : System Client) (id : QString) (steps : List (Step Client))
    (commit : Step Client) : Prop :=
  ((s.run steps).answer commit = .commit .ok → s.effects id steps = []) ∧
    (s.effects id steps ≠ [] →
      (s.run steps).answer commit = .commit .generationConflict ∧
        (s.run steps).step commit = (s.run steps).reparse commit.client commit.flushed)

/-- A commit that presents the generation of an earlier snapshot overwrites no
change it did not see, unless the record was removed since and committed exactly
as often again as that generation counts. -/
theorem commitShare_checked {share : Share} {snap commit : Step Client} {token : UInt64}
    (hsnap : snap.call = .snapshotById share.id)
    (htoken : ∃ read, s.answer snap = .snapshot read ∧ read.generation = token)
    (hcommit : commit.call = .commitShare share token)
    (hlate : .late ∉ (s.step snap).effects share.id (steps ++ [commit])) :
    ChecksCommit (s.step snap) share.id steps commit ↔
      ¬ Reused token ((s.step snap).effects share.id steps) := by
  have hread : token = (generation? (s.step snap).disk share.id).getD 0 := by
    obtain ⟨read, hanswer, rfl⟩ := htoken
    rw [System.answer, System.call, hsnap] at hanswer
    rw [System.step, System.call, hsnap, ← Answer.snapshot.inj hanswer]
    exact (snapshotById_generation _ _).2
  generalize s.step snap = s at hlate hread ⊢
  rw [effects_append, List.mem_append, not_or] at hlate
  obtain ⟨hlate, hcommitLate⟩ := hlate
  have hflush : (s.run steps).flushesLate share.id commit = false := by
    by_contra hflush
    rw [Bool.not_eq_false] at hflush
    simp [System.effects, System.stepEffects, hflush] at hcommitLate
  obtain ⟨hpossible, hcount⟩ := counter_run hlate
  -- The commit conflicts exactly if its generation is not reused.
  have hconflict : s.effects share.id steps ≠ [] →
      ((s.run steps).answer commit = .commit .generationConflict ↔
        ¬ Reused token (s.effects share.id steps)) := by
    intro hne
    rw [answer_commitShare hcommit hflush, hcount, hread, Ne,
      foldl_count_eq_iff hpossible hlate hne]
  constructor
  · intro hchecks hreused
    have hne : s.effects share.id steps ≠ [] := List.ne_nil_of_mem hreused.1
    exact (hconflict hne).mp (hchecks.2 hne).1 hreused
  · intro hfresh
    constructor
    · intro hok
      by_contra hne
      rw [(hconflict hne).mpr hfresh] at hok
      exact nomatch hok
    · intro hne
      have hanswer := (hconflict hne).mpr hfresh
      refine ⟨hanswer, ?_⟩
      rw [System.answer, System.call, hcommit] at hanswer
      rw [System.step, System.call, hcommit]
      dsimp only at hanswer ⊢
      have hresult := Answer.commit.inj hanswer
      rw [if_neg (by simp [hresult]), commitShare_config (by simp [hresult])]

section Sample

def sampleShare : Share := { id := qs "0a", unc := qs "//nas/a", mountPoint := qs "/mnt/nas" }

/-- An empty file. -/
def emptyStore : System Bool := { disk := ∅ }

def insertSample (client : Bool) : Step Bool :=
  { client := client, call := .commitShare sampleShare 0 }

def readSample (client : Bool) : Step Bool :=
  { client := client, call := .snapshotById sampleShare.id }

def removeSample (client : Bool) : Step Bool :=
  { client := client, call := .removeShare sampleShare.id }

def updateSample (client : Bool) (token : UInt64) : Step Bool :=
  { client := client, call := .commitShare { sampleShare with domain := qs "x" } token }

/-- The file after an insertion that another process then reads. -/
def storedSample : System Bool := (emptyStore.step (insertSample true)).step (readSample true)

/-- A record removed and inserted again carries the generation read before, and
so does the absence of a record that came and went. -/
theorem removed_record_overwritten :
    ¬ ChecksCommit storedSample sampleShare.id [removeSample false, insertSample false]
        (updateSample true 1) ∧
      ¬ ChecksCommit (emptyStore.step (readSample true)) sampleShare.id
        [insertSample false, removeSample false] (insertSample true) := by
  have hupdated : (storedSample.run [removeSample false, insertSample false]).answer
      (updateSample true 1) = .commit .ok := by
    decide +kernel
  have hreplaced : storedSample.effects sampleShare.id [removeSample false, insertSample false] ≠
      [] := by
    decide +kernel
  have hinserted : ((emptyStore.step (readSample true)).run
      [insertSample false, removeSample false]).answer (insertSample true) = .commit .ok := by
    decide +kernel
  have hwent : (emptyStore.step (readSample true)).effects sampleShare.id
      [insertSample false, removeSample false] ≠ [] := by
    decide +kernel
  constructor
  · exact fun h => hreplaced (h.1 hupdated)
  · exact fun h => hwent (h.1 hinserted)

/-- A commit over another client's update. -/
theorem commitShare_checked_sample :
    ChecksCommit storedSample sampleShare.id [readSample false, updateSample false 1]
      (updateSample true 1) := by
  have hchecked := @commitShare_checked Bool _ (emptyStore.step (insertSample true))
    [readSample false, updateSample false 1] { sampleShare with domain := qs "x" } (readSample true)
    (updateSample true 1) 1 rfl ⟨_, rfl, by decide +kernel⟩ rfl (by decide +kernel)
  exact hchecked.mpr (by decide +kernel)

end Sample

end Runs

end Store

end NasMount.Session
