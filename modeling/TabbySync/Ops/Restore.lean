import TabbySync.Ops.Container

/-! # Restore of a backup

`scripts/restore.sh` hands the three files of a backup to a shell in a container, which
stages them in a new directory of the volume, moves what the volume has into another,
installs the new files and lets `tabby-sync doctor` have a look. Its exit trap puts the
old files back unless the doctor has passed the new ones. This is the shell in the
container; the script around it is in `TabbySync.Ops.RoundTrip`.

A symbolic link may lead nowhere from the directory it has been moved to, and the trap
does not see it there; so the results are about volumes without links. -/

namespace TabbySync.Ops
open TabbySync.Library TabbySync.Library.Script

/-! ## The commands -/

/-- The directories while they exist; `newSet` and `oldSet` say that the variables name
them. `probe` is the file that the doctor writes and removes. -/
structure RestoreState where
  data : Dir
  probe : Option Entry
  newDir : Option Dir
  oldDir : Option Dir
  newSet : Bool
  oldSet : Bool
  installStarted : Bool
  committed : Bool

/-- What the environment hands a command: whether a symbolic link leads anywhere, whether
the system call of a command that was cut short had been made, what such a command leaves,
and whether the doctor can write its probe and remove it. -/
structure RestoreTurn where
  resolves : Bool
  made : Bool
  left : Dir
  leftProbe : Option Entry
  writes : Bool
  removes : Bool

/-- `-e` -/
def Dir.has (e : RestoreTurn) (d : Dir) (f : FileName) : Bool :=
  match d f with
  | none => false
  | some .symlink => e.resolves
  | some _ => true

/-- A directory with its database files replaced. -/
def Dir.withDatabase (d database : Dir) : Dir := fun f =>
  if f ∈ sqliteFiles then database f else d f

/-- What lies in the directory for the old files. -/
def RestoreState.old (s : RestoreState) : Dir := s.oldDir.getD emptyDir

section
variable (C : Container) (archive : Dir)

abbrev RestoreCommand := Command RestoreTurn RestoreState

def makeNew : RestoreCommand where
  run _ s := some { s with newDir := some emptyDir, newSet := true }
  cut e s := if e.made then { s with newDir := some emptyDir } else s

def makeOld : RestoreCommand where
  run _ s := some { s with oldDir := some emptyDir, oldSet := true }
  cut e s := if e.made then { s with oldDir := some emptyDir } else s

/-- `tar -xf - -C "$new_dir"` -/
def extract : RestoreCommand where
  run _ s := some { s with newDir := s.newDir.map fun _ => archive }
  cut e s := { s with newDir := s.newDir.map fun _ => e.left }

def newHolds (p : Dir → Bool) : RestoreCommand := .guard fun _ s => s.newDir.any p

def chmodNew (f : FileName) : RestoreCommand :=
  .atomic RestoreTurn.made fun _ s => some { s with
    newDir := s.newDir.map fun d => Function.update d f ((d f).map (Entry.chmod 0o600)) }

/-- `mv "/data/$file" "$old_dir/$file"` if there is such a file. -/
def setAside (f : FileName) : RestoreCommand :=
  .when (fun e s => s.data.has e f) <| .atomic RestoreTurn.made fun _ s =>
    s.oldDir.map fun d => { s with
      data := Function.update s.data f none
      oldDir := some (Function.update d f (s.data f)) }

/-- `mv "$new_dir/$file" "/data/$file"` -/
def install (f : FileName) : RestoreCommand :=
  .atomic RestoreTurn.made fun _ s =>
    (s.newDir.bind (· f)).map fun entry => { s with
      data := Function.update s.data f (some entry)
      newDir := s.newDir.map fun d => Function.update d f none }

def chmodAll (d : Dir) : Dir := fun f =>
  if f ∈ backupFiles then (d f).map (Entry.chmod 0o600) else d f

def chmodData : RestoreCommand where
  run _ s := some { s with data := chmodAll s.data }
  cut e s := { s with data := fun f => if (e.left f).isSome then chmodAll s.data f else s.data f }

/-- `tabby-sync doctor`, which opens the database and may change its files. -/
def consultDoctor : RestoreCommand where
  run e s :=
    let report := C.doctor e.writes e.removes s.data s.probe
    if report.code = 0 then
      some { s with
        data := s.data.updatedBy report.files
        probe := (report.files probePath).map ofNode }
    else none
  cut e s := { s with data := s.data.withDatabase e.left, probe := e.leftProbe }

/-- `rm -rf "$new_dir" "$old_dir"` -/
def removeBoth : RestoreCommand where
  run _ s := some { s with newDir := none, oldDir := none }
  cut e s :=
    if e.made then { s with newDir := none, oldDir := s.oldDir.map (Dir.partly e.left) }
    else { s with newDir := s.newDir.map (Dir.partly e.left) }

/-- `rm -f` of what has been installed, which fails on a directory. -/
def removeInstalled : RestoreCommand :=
  .when (fun _ s => !s.committed && s.installStarted)
    { run := fun _ s =>
        if movedFiles.any fun f => s.data f = some .directory then none
        else some { s with data := emptyDir }
      cut := fun e s => { s with data := Dir.partly e.left s.data } }

/-- `rm -rf "/data/$file"` and `mv "$old_dir/$file" "/data/$file"`. -/
def putBack (f : FileName) : RestoreCommand :=
  .when (fun e s => !s.committed && s.oldSet && s.old.has e f)
    { run := fun _ s => some { s with
        data := Function.update s.data f (s.old f)
        oldDir := some (Function.update s.old f none) }
      cut := fun e s => if e.made then { s with data := Function.update s.data f none } else s }

def removeNew : RestoreCommand :=
  .when (fun _ s => s.newSet)
    { run := fun _ s => some { s with newDir := none }
      cut := fun e s => { s with newDir := s.newDir.map (Dir.partly e.left) } }

def removeOld : RestoreCommand :=
  .when (fun _ s => s.oldSet)
    { run := fun _ s => some { s with oldDir := none }
      cut := fun e s => { s with oldDir := s.oldDir.map (Dir.partly e.left) } }

def restoreInside : Script RestoreTurn RestoreState where
  body := [makeNew, makeOld, extract archive] ++
    backupFiles.flatMap (fun f => [newHolds (·.isPlain f), chmodNew f]) ++
    [newHolds fun d => d.size .masterKey == masterKeySize] ++
    movedFiles.flatMap (fun f => [setAside f]) ++
    [.assign fun s => { s with installStarted := true }] ++
    backupFiles.flatMap (fun f => [install f]) ++
    [chmodData, consultDoctor C, .assign fun s => { s with committed := true }, removeBoth]
  onExit := [removeInstalled] ++ movedFiles.flatMap (fun f => [putBack f]) ++
    [removeNew, removeOld]
  disarms := true

end

/-- The shell begins on a volume. -/
def restoreFrom (data : Dir) (probe : Option Entry) : RestoreState where
  data := data
  probe := probe
  newDir := none
  oldDir := none
  newSet := false
  oldSet := false
  installStarted := false
  committed := false

/-! ## Nothing is lost -/

/-- Each old file is in its place or set aside. -/
def Preserved (orig : Dir) (s : RestoreState) : Prop :=
  ∀ f, orig f ≠ none → s.data f = orig f ∨ s.old f = orig f

/-- Each name is as it was, or its file is set aside. -/
def Sheltered (orig : Dir) (s : RestoreState) : Prop :=
  ∀ f, s.old f = none ∧ s.data f = orig f ∨ s.old f ≠ none ∧ s.old f = orig f

/-- A directory that the shell has no name for is empty: the `mktemp` that made it was cut
short. -/
structure Tidy (s : RestoreState) : Prop where
  new : s.newSet = false → s.newDir = none ∨ s.newDir = some emptyDir
  old : s.oldSet = false → s.oldDir = none ∨ s.oldDir = some emptyDir

/-- The directories are gone, but for an empty one that the shell had no name for. -/
structure Cleared (s : RestoreState) : Prop where
  new : s.newDir = none ∨ s.newSet = false ∧ s.newDir = some emptyDir
  old : s.oldDir = none ∨ s.oldSet = false ∧ s.oldDir = some emptyDir

/-- What the trap finds before the commit: until the first file is installed, names are as
they were or set aside; from then on, all old files are set aside. -/
structure Recoverable (orig : Dir) (s : RestoreState) : Prop where
  uncommitted : s.committed = false
  tidy : Tidy s
  before : s.installStarted = false → Sheltered orig s
  after : s.installStarted = true → s.old = orig

section
variable {C : Container} {orig archive : Dir} {s : RestoreState} {E : RestoreTurn → Prop}

/-- What the shell has no name for holds nothing. -/
theorem Tidy.known (h : Tidy s) : s.oldSet = true ∨ s.old = emptyDir := by
  cases hset : s.oldSet with
  | true => exact .inl rfl
  | false =>
    refine .inr ?_
    rcases h.old hset with hold | hold
    · rw [RestoreState.old, hold, Option.getD_none]
    · rw [RestoreState.old, hold, Option.getD_some]

theorem tidy_of_set (hnew : s.newSet = true) (hold : s.oldSet = true) : Tidy s where
  new h := by rw [hnew] at h; cases h
  old h := by rw [hold] at h; cases h

theorem Sheltered.preserved (h : Sheltered orig s) : Preserved orig s := by
  intro f _
  rcases h f with ⟨-, hf⟩ | ⟨-, hf⟩
  · exact .inl hf
  · exact .inr hf

theorem Recoverable.preserved (h : Recoverable orig s) : Preserved orig s := by
  cases hs : s.installStarted with
  | false => exact (h.before hs).preserved
  | true =>
    intro f _
    rw [h.after hs]
    exact .inr rfl

/-! ## The trap -/

/-- The trap on its way, with some files in their places again. -/
structure PuttingBack (orig : Dir) (done : List FileName) (s : RestoreState) : Prop where
  uncommitted : s.committed = false
  tidy : Tidy s
  sheltered : Sheltered orig s
  back : ∀ f ∈ done, s.old f = none

theorem removeInstalled_meets :
    removeInstalled.Meets E (Recoverable orig) (PuttingBack orig []) (Preserved orig) := by
  refine when_meets (fun _ hs => hs.preserved) ?_ ⟨?_, ?_⟩
  · intro e s _ hs hskip
    have hbefore : s.installStarted = false := by simpa [hs.uncommitted] using hskip
    exact ⟨hs.uncommitted, hs.tidy, hs.before hbefore, by simp⟩
  · rintro e s s' - ⟨hs, -, -, hstarted⟩ hrun
    have hold : s.old = orig := hs.after (by simpa [hs.uncommitted] using hstarted)
    simp only at hrun
    split at hrun
    · cases hrun
    · cases hrun
      refine ⟨hs.uncommitted, ⟨hs.tidy.new, hs.tidy.old⟩, fun f => ?_, by simp⟩
      show s.old f = none ∧ none = orig f ∨ s.old f ≠ none ∧ s.old f = orig f
      rw [hold]
      cases orig f with
      | none => exact .inl ⟨rfl, rfl⟩
      | some entry => exact .inr ⟨by simp, rfl⟩
  · rintro e s - ⟨hs, -, -, hstarted⟩ f -
    have hold : s.old = orig := hs.after (by simpa [hs.uncommitted] using hstarted)
    exact .inr (congrFun hold f)

/-- A file that the trap finds set aside is the old one. -/
theorem PuttingBack.aside {done : List FileName} {f : FileName} {e : RestoreTurn}
    (h : PuttingBack orig done s)
    (hseen : (!s.committed && s.oldSet && s.old.has e f) = true) :
    s.oldSet = true ∧ s.old f = orig f := by
  simp only [h.uncommitted, Bool.not_false, Bool.true_and, Bool.and_eq_true] at hseen
  refine ⟨hseen.1, ?_⟩
  rcases h.sheltered f with ⟨hnone, -⟩ | ⟨-, hf⟩
  · simp [Dir.has, hnone] at hseen
  · exact hf

theorem putBack_meets (horig : ∀ f, orig f ≠ some .symlink) (done : List FileName) (f : FileName) :
    (putBack f).Meets E (PuttingBack orig done) (PuttingBack orig (done ++ [f]))
      (Preserved orig) := by
  refine when_meets (fun _ hs => hs.sheltered.preserved) ?_ ⟨?_, ?_⟩
  · intro e s _ hs hskip
    -- a file that was set aside would have been seen
    have hnone : s.old f = none := by
      rcases hs.sheltered f with ⟨hnone, -⟩ | ⟨hne, hf⟩
      · exact hnone
      · rcases hs.tidy.known with hset | hempty
        · simp only [hs.uncommitted, hset, Bool.not_false, Bool.and_self, Bool.true_and] at hskip
          have hlink := horig f
          rw [← hf] at hlink
          unfold Dir.has at hskip
          split at hskip
          · assumption
          · exact absurd ‹_› hlink
          · cases hskip
        · rw [hempty]
          rfl
    refine ⟨hs.uncommitted, hs.tidy, hs.sheltered, fun g hg => ?_⟩
    rcases List.mem_append.mp hg with hg | hg
    · exact hs.back g hg
    · rw [List.mem_singleton.mp hg]
      exact hnone
  · rintro e s s' - ⟨hs, e', -, hseen⟩ hrun
    have haside := hs.aside hseen
    cases hrun
    refine ⟨hs.uncommitted, ⟨hs.tidy.new, ?_⟩, fun g => ?_, fun g hg => ?_⟩
    · intro hunset
      exact absurd haside.1 (by simpa using hunset)
    · by_cases hg : g = f
      · subst hg
        exact .inl ⟨Function.update_self .., (Function.update_self ..).trans haside.2⟩
      · simp only [RestoreState.old, Option.getD_some, Function.update_of_ne hg]
        exact hs.sheltered g
    · by_cases hgf : g = f
      · subst hgf
        exact Function.update_self ..
      · refine (Function.update_of_ne hgf ..).trans (hs.back g ?_)
        simpa [hgf] using hg
  · rintro e s - ⟨hs, e', -, hseen⟩ g hg
    dsimp only
    split
    · by_cases hgf : g = f
      · subst hgf
        exact .inr (hs.aside hseen).2
      · simp only [Function.update_of_ne hgf]
        exact hs.sheltered.preserved g hg
    · exact hs.sheltered.preserved g hg

/-- The directories are removed without a look at the volume. -/
theorem removeDirs_meet {K : Dir → Option Entry → Prop} :
    Meets E (fun s : RestoreState => K s.data s.probe ∧ Tidy s)
      (fun s => K s.data s.probe ∧ Cleared s) (fun s => K s.data s.probe)
      [removeNew, removeOld] := by
  refine .cons (fun _ hs => hs.1)
    (M := fun s => K s.data s.probe ∧ Tidy s ∧
      (s.newDir = none ∨ s.newSet = false ∧ s.newDir = some emptyDir)) ?_
    (meets_single (fun _ hs => hs.1) (fun _ hs => hs.1) ?_)
  · refine when_meets (fun _ hs => hs.1) ?_ ⟨?_, ?_⟩
    · intro e s _ hs hunset
      exact ⟨hs.1, hs.2, (hs.2.new hunset).imp_right fun hempty => ⟨hunset, hempty⟩⟩
    · rintro e s s' - ⟨hs, -⟩ hrun
      cases hrun
      exact ⟨hs.1, ⟨fun _ => .inl rfl, hs.2.old⟩, .inl rfl⟩
    · intro e s _ hs
      exact hs.1.1
  · refine when_meets (fun _ hs => hs.1) ?_ ⟨?_, ?_⟩
    · intro e s _ hs hunset
      exact ⟨hs.1, hs.2.2, (hs.2.1.old hunset).imp_right fun hempty => ⟨hunset, hempty⟩⟩
    · rintro e s s' - ⟨hs, -⟩ hrun
      cases hrun
      exact ⟨hs.1, hs.2.2, .inl rfl⟩
    · intro e s _ hs
      exact hs.1.1

/-- After an error before the commit, the trap brings the old volume back. -/
theorem trap_puts_back (horig : ∀ f, orig f ≠ some .symlink) :
    Meets E (Recoverable orig) (fun s => s.data = orig ∧ Cleared s) (Preserved orig)
      (restoreInside C archive).onExit := by
  have hback : ∀ s, PuttingBack orig movedFiles s → s.data = orig ∧ Tidy s := by
    intro s hs
    refine ⟨?_, hs.tidy⟩
    funext f
    rcases hs.sheltered f with ⟨-, hf⟩ | ⟨hne, -⟩
    · exact hf
    · exact absurd (hs.back f (mem_movedFiles f)) hne
  have hdirs : Meets E (fun s : RestoreState => s.data = orig ∧ Tidy s)
      (fun s => s.data = orig ∧ Cleared s) (Preserved orig) [removeNew, removeOld] :=
    (removeDirs_meet (K := fun d _ => d = orig)).imp_post (fun _ hs => hs)
      fun s hs f _ => .inl (congrFun hs f)
  refine Meets.append (Meets.append (M := PuttingBack orig []) ?_ ?_) (hdirs.imp_pre hback)
  · exact meets_single (fun _ hs => hs.preserved) (fun _ hs => hs.sheltered.preserved)
      removeInstalled_meets
  · refine meets_forEach (fun _ hs => hs.sheltered.preserved) fun pre f post _ => ?_
    exact meets_single (fun _ hs => hs.sheltered.preserved) (fun _ hs => hs.sheltered.preserved)
      (putBack_meets horig pre f)

/-- The new files are committed, and the shell knows its directories. -/
structure Committed (C : Container) (archive : Dir) (s : RestoreState) : Prop where
  committed : s.committed = true
  restored : Restored C archive s.data s.probe
  tidy : Tidy s

/-- After the commit, the trap leaves the new files. -/
theorem trap_keeps : Meets E (Committed C archive)
    (fun s => Restored C archive s.data s.probe ∧ Cleared s)
    (fun s => Restored C archive s.data s.probe) (restoreInside C archive).onExit := by
  -- nothing is removed or put back
  have hskip : ∀ {p : RestoreTurn → RestoreState → Bool} {c : RestoreCommand},
      (∀ e s, s.committed = true → p e s = false) →
      (Command.when p c).Meets E (Committed C archive) (Committed C archive)
        (fun s => Restored C archive s.data s.probe) := by
    intro p c hp
    refine when_meets (fun _ hs => hs.restored) (fun _ s _ hs _ => hs) ⟨?_, ?_⟩
    · rintro e s s' - ⟨hs, e', -, hseen⟩
      rw [hp e' s hs.committed] at hseen
      cases hseen
    · rintro e s - ⟨hs, e', -, hseen⟩
      rw [hp e' s hs.committed] at hseen
      cases hseen
  refine Meets.append (M := Committed C archive) (Meets.append (M := Committed C archive) ?_ ?_)
    (removeDirs_meet.imp_pre fun _ hs => ⟨hs.restored, hs.tidy⟩)
  · exact meets_single (fun _ hs => hs.restored) (fun _ hs => hs.restored)
      (hskip fun e s hs => by simp [hs])
  · exact meets_forEach (I := fun _ => Committed C archive) (fun _ hs => hs.restored)
      fun pre f post _ => meets_single (fun _ hs => hs.restored) (fun _ hs => hs.restored)
        (hskip fun e s hs => by simp [hs])

/-! ## The body -/

/-- Nothing of the volume has been moved. -/
structure Untouched (orig : Dir) (s : RestoreState) : Prop where
  uncommitted : s.committed = false
  notStarted : s.installStarted = false
  data : s.data = orig
  old : s.old = emptyDir
  tidy : Tidy s

theorem Untouched.recoverable (h : Untouched orig s) : Recoverable orig s where
  uncommitted := h.uncommitted
  tidy := h.tidy
  before _ f := .inl ⟨by rw [h.old]; rfl, by rw [h.data]⟩
  after hs := by rw [h.notStarted] at hs; cases hs

/-- What is done to the staging directory alone, once it has a name. -/
theorem Untouched.set_new (h : Untouched orig s) (newDir : Option Dir) :
    Untouched orig { s with newDir := newDir, newSet := true } :=
  ⟨h.uncommitted, h.notStarted, h.data, h.old, ⟨by simp, h.tidy.old⟩⟩

/-- The new files, some of them checked and with their mode. -/
def staged (archive : Dir) (done : List FileName) : Dir := fun f =>
  if f ∈ done then (archive f).map (Entry.chmod 0o600) else archive f

structure Staging (orig archive : Dir) (done : List FileName) (s : RestoreState) : Prop
    extends Untouched orig s where
  newDir : s.newDir = some (staged archive done)
  oldDir : s.oldDir = some emptyDir
  newSet : s.newSet = true
  oldSet : s.oldSet = true
  plain : ∀ f ∈ done, archive.isPlain f = true

theorem Staging.recoverable {done : List FileName} (h : Staging orig archive done s) :
    Recoverable orig s := h.toUntouched.recoverable

theorem isPlain_staged (done : List FileName) (f : FileName) :
    (staged archive done).isPlain f = archive.isPlain f := by
  by_cases hf : f ∈ done
  · rw [Dir.isPlain, staged, if_pos hf, any_isPlain_chmod, Dir.isPlain]
  · rw [Dir.isPlain, staged, if_neg hf, Dir.isPlain]

theorem size_staged (done : List FileName) (f : FileName) :
    (staged archive done).size f = archive.size f := by
  by_cases hf : f ∈ done
  · rw [Dir.size, staged, if_pos hf, map_size_chmod, Dir.size]
  · rw [Dir.size, staged, if_neg hf, Dir.size]

theorem staged_concat (done : List FileName) (f : FileName) :
    Function.update (staged archive done) f ((staged archive done f).map (Entry.chmod 0o600)) =
      staged archive (done ++ [f]) := by
  have hmode : (staged archive done f).map (Entry.chmod 0o600) =
      (archive f).map (Entry.chmod 0o600) := by
    rw [staged]
    split
    · exact chmod_again _ _
    · rfl
  rw [hmode]
  exact update_ite_mem (fun g => (archive g).map (Entry.chmod 0o600)) archive done f

/-- Directories are made and the archive is unpacked. -/
theorem unpacking_meets : Meets E (Untouched orig) (Staging orig archive []) (Recoverable orig)
    [makeNew, makeOld, extract archive] := by
  refine .cons (fun _ hs => hs.recoverable)
    (M := fun s => Untouched orig s ∧ s.newDir = some emptyDir ∧ s.newSet = true) ⟨?_, ?_⟩ ?_
  · intro e s s' _ hs hrun
    cases hrun
    exact ⟨hs.set_new _, rfl, rfl⟩
  · intro e s _ hs
    simp only [makeNew]
    split
    · exact Untouched.recoverable ⟨hs.uncommitted, hs.notStarted, hs.data, hs.old,
        ⟨fun _ => .inr rfl, hs.tidy.old⟩⟩
    · exact hs.recoverable
  refine .cons (fun _ hs => hs.1.recoverable) (M := fun s => Untouched orig s ∧
    (s.newDir = some emptyDir ∧ s.newSet = true) ∧ s.oldDir = some emptyDir ∧ s.oldSet = true)
    ⟨?_, ?_⟩ ?_
  · rintro e s s' - ⟨hs, hnew⟩ hrun
    cases hrun
    exact ⟨⟨hs.uncommitted, hs.notStarted, hs.data, rfl, tidy_of_set hnew.2 rfl⟩, hnew, rfl, rfl⟩
  · rintro e s - ⟨hs, -⟩
    simp only [makeOld]
    split
    · exact Untouched.recoverable ⟨hs.uncommitted, hs.notStarted, hs.data, rfl,
        ⟨hs.tidy.new, fun _ => .inr rfl⟩⟩
    · exact hs.recoverable
  refine meets_single (fun _ hs => hs.1.recoverable) (fun _ hs => hs.recoverable) ⟨?_, ?_⟩
  · rintro e s s' - ⟨hs, ⟨hnew, hnewSet⟩, hold, hset⟩ hrun
    cases hrun
    refine ⟨⟨hs.uncommitted, hs.notStarted, hs.data, hs.old, tidy_of_set hnewSet hset⟩, ?_, hold,
      hnewSet, hset, by simp⟩
    show s.newDir.map _ = _
    rw [hnew]
    rfl
  · rintro e s - ⟨hs, ⟨-, hnewSet⟩, -, hset⟩
    exact Untouched.recoverable
      ⟨hs.uncommitted, hs.notStarted, hs.data, hs.old, tidy_of_set hnewSet hset⟩

theorem chmodNew_meets (done : List FileName) (f : FileName) :
    (chmodNew f).Meets E (fun s => Staging orig archive done s ∧ archive.isPlain f = true)
      (Staging orig archive (done ++ [f])) (Recoverable orig) := by
  refine atomic_meets (fun _ hs => hs.1.recoverable) (fun _ hs => hs.recoverable) ?_
  rintro e s s' - ⟨hs, hf⟩ hrun
  simp only [hs.newDir, Option.map_some, staged_concat, Option.some.injEq] at hrun
  subst hrun
  refine ⟨⟨hs.uncommitted, hs.notStarted, hs.data, hs.old, tidy_of_set hs.newSet hs.oldSet⟩, rfl,
    hs.oldDir, hs.newSet, hs.oldSet, fun g hg => ?_⟩
  rcases List.mem_append.mp hg with hg | hg
  · exact hs.plain g hg
  · rw [List.mem_singleton.mp hg]
    exact hf

/-- The new files are checked. -/
theorem checking_meets : Meets E (Staging orig archive [])
    (fun s => Staging orig archive backupFiles s ∧ archive.isBackup = true) (Recoverable orig)
    (backupFiles.flatMap (fun f => [newHolds (·.isPlain f), chmodNew f]) ++
      [newHolds fun d => d.size .masterKey == masterKeySize]) := by
  refine Meets.append (M := Staging orig archive backupFiles) ?_ ?_
  · refine meets_forEach (fun _ hs => hs.recoverable) fun pre f post _ => ?_
    refine .cons (fun _ hs => hs.recoverable) (guard_meets (fun _ hs => hs.recoverable)
      fun e s hs hp => ⟨hs, ?_⟩) (meets_single (fun _ hs => hs.1.recoverable)
        (fun _ hs => hs.recoverable) (chmodNew_meets pre f))
    rwa [hs.newDir, Option.any_some, isPlain_staged] at hp
  · refine meets_single (fun _ hs => hs.recoverable) (fun _ hs => hs.1.recoverable)
      (guard_meets (fun _ hs => hs.recoverable) fun e s hs hp => ⟨hs, ?_⟩)
    rw [hs.newDir, Option.any_some, size_staged] at hp
    rw [Dir.isBackup, hp, Bool.and_true, List.all_eq_true]
    exact hs.plain

/-- Some of the old files have been set aside. -/
structure SettingAside (orig archive : Dir) (done : List FileName) (s : RestoreState) : Prop where
  uncommitted : s.committed = false
  notStarted : s.installStarted = false
  data : s.data = fun f => if f ∈ done then none else orig f
  oldDir : s.oldDir = some fun f => if f ∈ done then orig f else none
  newSet : s.newSet = true
  oldSet : s.oldSet = true
  newDir : s.newDir = some (staged archive backupFiles)
  valid : archive.isBackup = true

theorem SettingAside.recoverable {done : List FileName} (h : SettingAside orig archive done s) :
    Recoverable orig s where
  uncommitted := h.uncommitted
  tidy := tidy_of_set h.newSet h.oldSet
  before _ f := by
    simp only [RestoreState.old, h.oldDir, h.data, Option.getD_some]
    by_cases hf : f ∈ done
    · rw [if_pos hf, if_pos hf]
      cases orig f with
      | none => exact .inl ⟨rfl, rfl⟩
      | some entry => exact .inr ⟨by simp, rfl⟩
    · rw [if_neg hf, if_neg hf]
      exact .inl ⟨rfl, rfl⟩
  after hs := by rw [h.notStarted] at hs; cases hs

/-- A file on which both agree counts as done. -/
theorem ite_mem_concat (a b : Dir) {done : List FileName} {f : FileName}
    (h : f ∉ done → b f = a f) :
    (fun g => if g ∈ done then a g else b g) = fun g => if g ∈ done ++ [f] then a g else b g := by
  rw [← update_ite_mem, eq_comm, Function.update_eq_self_iff]
  split
  · rfl
  · exact (h ‹_›).symm

theorem setAside_meets (horig : ∀ f, orig f ≠ some .symlink) (done : List FileName) (f : FileName) :
    (setAside f).Meets E (SettingAside orig archive done)
      (SettingAside orig archive (done ++ [f])) (Recoverable orig) := by
  refine when_meets (fun _ hs => hs.recoverable) ?_ (atomic_meets (fun _ hs => hs.1.recoverable)
    (fun _ hs => hs.recoverable) ?_)
  · intro e s _ hs hskip
    -- what is not seen is not there
    have hnone : f ∉ done → orig f = none := by
      intro hf
      have hdata : s.data f = orig f := by rw [hs.data]; exact if_neg hf
      rw [Dir.has, hdata] at hskip
      split at hskip
      · assumption
      · exact absurd ‹_› (horig f)
      · cases hskip
    refine ⟨hs.uncommitted, hs.notStarted, ?_, ?_, hs.newSet, hs.oldSet, hs.newDir, hs.valid⟩
    · exact hs.data.trans (ite_mem_concat emptyDir orig hnone)
    · exact hs.oldDir.trans
        (congrArg some (ite_mem_concat orig emptyDir fun hf => (hnone hf).symm))
  · rintro e s s' - ⟨hs, e', -, hseen⟩ hrun
    have hf : f ∉ done := by
      intro hf
      simp [Dir.has, hs.data, hf] at hseen
    have hdata : s.data f = orig f := by rw [hs.data]; exact if_neg hf
    rw [hs.oldDir, Option.map_some, Option.some.injEq, hdata, hs.data] at hrun
    subst hrun
    exact ⟨hs.uncommitted, hs.notStarted, update_ite_mem emptyDir orig done f,
      congrArg some (update_ite_mem orig emptyDir done f), hs.newSet, hs.oldSet, hs.newDir, hs.valid⟩

/-- All old files are set aside, whatever lies in their places. -/
structure Away (orig : Dir) (s : RestoreState) : Prop where
  uncommitted : s.committed = false
  started : s.installStarted = true
  oldDir : s.oldDir = some orig
  newSet : s.newSet = true
  oldSet : s.oldSet = true

theorem Away.recoverable (h : Away orig s) : Recoverable orig s where
  uncommitted := h.uncommitted
  tidy := tidy_of_set h.newSet h.oldSet
  before hs := by rw [h.started] at hs; cases hs
  after _ := by simp [RestoreState.old, h.oldDir]

theorem Away.set_data (h : Away orig s) (data : Dir) (probe : Option Entry) (newDir : Option Dir) :
    Away orig { s with data := data, probe := probe, newDir := newDir } :=
  ⟨h.uncommitted, h.started, h.oldDir, h.newSet, h.oldSet⟩

/-- Some of the new files are installed. -/
structure Installing (orig archive : Dir) (done : List FileName) (s : RestoreState) : Prop
    extends Away orig s where
  data : s.data = copied archive done
  newDir : ∃ d, s.newDir = some d ∧ ∀ f ∈ backupFiles, ∀ entry, d f = some entry →
    (archive f).map (Entry.chmod 0o600) = some entry
  valid : archive.isBackup = true

theorem Installing.recoverable {done : List FileName} (h : Installing orig archive done s) :
    Recoverable orig s := h.toAway.recoverable

theorem begin_meets : (Command.assign fun s : RestoreState => { s with installStarted := true }).Meets
    E (SettingAside orig archive movedFiles) (Installing orig archive []) (Recoverable orig) := by
  refine assign_meets (fun _ hs => hs.recoverable) fun s hs => ?_
  have hold : s.oldDir = some orig := by
    rw [hs.oldDir, Option.some.injEq]
    funext f
    exact if_pos (mem_movedFiles f)
  have hdata : s.data = copied archive [] := by
    rw [hs.data]
    funext f
    exact if_pos (mem_movedFiles f)
  refine ⟨⟨hs.uncommitted, rfl, hold, hs.newSet, hs.oldSet⟩, hdata, ⟨_, hs.newDir, fun f hf entry h => ?_⟩,
    hs.valid⟩
  rwa [staged, if_pos hf] at h

theorem install_meets (done : List FileName) {f : FileName} (hf : f ∈ backupFiles) :
    (install f).Meets E (Installing orig archive done) (Installing orig archive (done ++ [f]))
      (Recoverable orig) := by
  refine atomic_meets (fun _ hs => hs.recoverable) (fun _ hs => hs.recoverable) ?_
  intro e s s' _ hs hrun
  obtain ⟨d, hnew, hmode⟩ := hs.newDir
  rw [hnew, Option.bind_some, Option.map_eq_some_iff] at hrun
  obtain ⟨entry, hentry, rfl⟩ := hrun
  have hcopy := hmode f hf entry hentry
  refine ⟨hs.toAway.set_data _ s.probe _, ?_, ⟨_, rfl, fun g hg entry' h => ?_⟩, hs.valid⟩
  · rw [hs.data, ← hcopy, copied_concat]
  · by_cases hgf : g = f
    · subst hgf
      simp at h
    · simp only [Function.update_of_ne hgf] at h
      exact hmode g hg entry' h

theorem chmodData_meets : chmodData.Meets E (Installing orig archive backupFiles)
    (Installing orig archive backupFiles) (Recoverable orig) := by
  constructor
  · intro e s s' _ hs hrun
    cases hrun
    refine ⟨hs.toAway.set_data _ s.probe s.newDir, ?_, hs.newDir, hs.valid⟩
    show chmodAll s.data = _
    rw [hs.data]
    funext f
    by_cases hf : f ∈ backupFiles
    · rw [chmodAll, if_pos hf, copied, if_pos hf, chmod_again]
    · rw [chmodAll, if_neg hf]
  · intro e s _ hs
    exact (hs.toAway.set_data _ s.probe s.newDir).recoverable

theorem consultDoctor_meets : (consultDoctor C).Meets E (Installing orig archive backupFiles)
    (fun s => Away orig s ∧ Restored C archive s.data s.probe) (Recoverable orig) := by
  constructor
  · intro e s s' _ hs hrun
    have hdata : s.data = copyOf archive := hs.data
    simp only [consultDoctor, hdata] at hrun
    split at hrun
    · rename_i hcode
      cases hrun
      exact ⟨hs.toAway.set_data _ _ s.newDir, hs.valid, e.writes, e.removes, s.probe, hcode, rfl, rfl⟩
    · cases hrun
  · intro e s _ hs
    exact (hs.toAway.set_data _ _ s.newDir).recoverable

/-- Throughout the body, the trap can put the old files back, or the new ones are committed. -/
def Safe (C : Container) (orig archive : Dir) (s : RestoreState) : Prop :=
  Recoverable orig s ∨ Committed C archive s

/-- The last two commands. -/
theorem commit_meets : Meets E (fun s => Away orig s ∧ Restored C archive s.data s.probe)
    (fun s => Committed C archive s ∧ s.newDir = none ∧ s.oldDir = none) (Safe C orig archive)
    [.assign fun s => { s with committed := true }, removeBoth] := by
  refine .cons (fun _ hs => .inl hs.1.recoverable)
    (M := fun s => Committed C archive s ∧ s.newSet = true ∧ s.oldSet = true)
    (assign_meets (fun _ hs => .inl hs.1.recoverable) fun s hs =>
      ⟨⟨rfl, hs.2, tidy_of_set hs.1.newSet hs.1.oldSet⟩, hs.1.newSet, hs.1.oldSet⟩)
    (meets_single (fun _ hs => .inr hs.1) (fun _ hs => .inr hs.1) ⟨?_, ?_⟩)
  · rintro e s s' - ⟨hs, hnew, hold⟩ hrun
    cases hrun
    exact ⟨⟨hs.committed, hs.restored, tidy_of_set hnew hold⟩, rfl, rfl⟩
  · rintro e s - ⟨hs, hnew, hold⟩
    simp only [removeBoth]
    split
    · exact .inr ⟨hs.committed, hs.restored, tidy_of_set hnew hold⟩
    · exact .inr ⟨hs.committed, hs.restored, tidy_of_set hnew hold⟩

theorem restore_body (horig : ∀ f, orig f ≠ some .symlink) : Meets E (Untouched orig)
    (fun s => Committed C archive s ∧ s.newDir = none ∧ s.oldDir = none) (Safe C orig archive)
    (restoreInside C archive).body := by
  have haside : Meets E (fun s => Staging orig archive backupFiles s ∧ archive.isBackup = true)
      (SettingAside orig archive movedFiles) (Recoverable orig)
      (movedFiles.flatMap fun f => [setAside f]) := by
    refine Meets.imp_pre ?_ (meets_forEach (I := SettingAside orig archive)
      (fun _ hs => hs.recoverable) fun pre f post _ => meets_single (fun _ hs => hs.recoverable)
        (fun _ hs => hs.recoverable) (setAside_meets horig pre f))
    rintro s ⟨hs, hvalid⟩
    refine ⟨hs.uncommitted, hs.notStarted, ?_, ?_, hs.newSet, hs.oldSet, hs.newDir, hvalid⟩
    · rw [hs.data]
      rfl
    · rw [hs.oldDir]
      rfl
  have hinstall : Meets E (Installing orig archive []) (Installing orig archive backupFiles)
      (Recoverable orig) (backupFiles.flatMap fun f => [install f]) := by
    refine meets_forEach (fun _ hs => hs.recoverable) fun pre f post hfiles => ?_
    have hf : f ∈ backupFiles := by rw [hfiles]; simp
    exact meets_single (fun _ hs => hs.recoverable) (fun _ hs => hs.recoverable)
      (install_meets pre hf)
  have hdoctor : Meets E (Installing orig archive backupFiles)
      (fun s => Away orig s ∧ Restored C archive s.data s.probe) (Recoverable orig)
      [chmodData, consultDoctor C] :=
    .cons (fun _ hs => hs.recoverable) chmodData_meets (meets_single (fun _ hs => hs.recoverable)
      (fun _ hs => hs.1.recoverable) consultDoctor_meets)
  have hbegin : Meets E (SettingAside orig archive movedFiles) (Installing orig archive [])
      (Recoverable orig) [.assign fun s => { s with installStarted := true }] :=
    meets_single (fun _ hs => hs.recoverable) (fun _ hs => hs.recoverable) begin_meets
  have huntil := (((unpacking_meets.append checking_meets).append haside).append hbegin).append
    (hinstall.append hdoctor)
  have hcommit : Meets E (fun s => Away orig s ∧ Restored C archive s.data s.probe) _
      (Safe C orig archive) _ := commit_meets
  have hwhole := (huntil.imp_post (fun _ hs => hs) fun _ hs => .inl hs).append hcommit
  simpa only [restoreInside, List.append_assoc, List.cons_append, List.nil_append] using hwhole

/-- What a shell that got through leaves. -/
structure Done (C : Container) (archive : Dir) (s : RestoreState) : Prop where
  restored : Restored C archive s.data s.probe
  noNew : s.newDir = none
  noOld : s.oldDir = none

theorem Done.cleared (h : Done C archive s) : Cleared s := ⟨.inl h.noNew, .inl h.noOld⟩

theorem restoreInside_guarantees {probe : Option Entry} (horig : ∀ f, orig f ≠ some .symlink) :
    (restoreInside C archive).Guarantees E (fun s => s = restoreFrom orig probe) (Done C archive)
      (fun s => (s.data = orig ∨ Restored C archive s.data s.probe) ∧ Cleared s)
      (Safe C orig archive) (fun s => Preserved orig s ∨ Restored C archive s.data s.probe) where
  body := by
    refine ⟨_, (restore_body horig).imp_pre ?_, fun s hs =>
      ⟨⟨hs.1.restored, hs.2.1, hs.2.2⟩, .inr hs.1.restored⟩⟩
    rintro s rfl
    exact ⟨rfl, rfl, rfl, rfl, ⟨fun _ => .inl rfl, fun _ => .inl rfl⟩⟩
  trap := ((trap_puts_back horig).imp_post (fun _ hs => ⟨.inl hs.1, hs.2⟩) fun _ hs => .inl hs).or
    (trap_keeps.imp_post (fun _ hs => ⟨.inr hs.1, hs.2⟩) fun _ hs => .inr hs)

theorem restoreInside_known (C : Container) (archive : Dir) (probe : Option Entry)
    (horig : ∀ f, orig f ≠ some .symlink) (evs : List (Event RestoreTurn)) :
    Known (Done C archive)
      (fun s => (s.data = orig ∨ Restored C archive s.data s.probe) ∧ Cleared s)
      (Safe C orig archive) (fun s => Preserved orig s ∨ Restored C archive s.data s.probe)
      ((restoreInside C archive).run
        ((restoreInside C archive).start (restoreFrom orig probe)) evs).1
      ((restoreInside C archive).run
        ((restoreInside C archive).start (restoreFrom orig probe)) evs).2 :=
  (restoreInside_guarantees (E := fun _ => True) horig).run rfl fun _ _ => trivial

/-- However a restore goes, with any command failing and any signal or kill, on a volume
without symbolic links: at every moment each of the old files is in its place or in the
directory for the old files, unless the backup has been installed and the doctor has
passed it. A shell that comes to its end leaves the files exactly as they were or exactly
restored, and no directory but an empty one whose `mktemp` was cut short; it ends well only
with the files restored and no directory left. -/
theorem restore_atomic (C : Container) (orig archive : Dir) (probe : Option Entry)
    (horig : ∀ f, orig f ≠ some .symlink) {evs : List (Event RestoreTurn)} {s : RestoreState}
    {phase : Phase RestoreTurn RestoreState}
    (hrun : (restoreInside C archive).run
      ((restoreInside C archive).start (restoreFrom orig probe)) evs = (s, phase)) :
    (Preserved orig s ∨ Restored C archive s.data s.probe) ∧
      (phase = .ended false →
        (s.data = orig ∨ Restored C archive s.data s.probe) ∧ Cleared s) ∧
      (phase = .ended true →
        Restored C archive s.data s.probe ∧ s.newDir = none ∧ s.oldDir = none) := by
  have hknown := restoreInside_known C archive probe horig evs
  rw [hrun] at hknown
  cases phase with
  | body rest => exact ⟨hknown.2, by simp, by simp⟩
  | trap ok rest => exact ⟨hknown, by simp, by simp⟩
  | stopped => exact ⟨hknown, by simp, by simp⟩
  | ended ok =>
    cases ok with
    | false => exact ⟨hknown.2, fun _ => hknown.1, by simp⟩
    | true =>
      obtain ⟨hdone, hkept⟩ := hknown
      exact ⟨hkept, by simp, fun _ => ⟨hdone.restored, hdone.noNew, hdone.noOld⟩⟩

end

/-- A database that is there can be opened, which changes nothing. -/
def openPlainly (path : String) (files : Startup.Files) : Except GoError Startup.Files :=
  match files path with
  | some (.file _ true) => .ok files
  | _ => .error (.text "unable to open database file")

theorem openPlainly_ok {path : String} {files files' : Startup.Files}
    (h : openPlainly path files = .ok files') :
    files' = files ∧ ∃ bytes, files path = some (.file bytes true) := by
  unfold openPlainly at h
  split at h
  · cases h
    exact ⟨rfl, _, ‹_›⟩
  · cases h

theorem containerSettings : Doctor.settings "/data/users.yml" Startup.envDataDir = volumeDir ∧
    Doctor.settings "/data/users.yml" Startup.envUsersFile = FileName.path .users ∧
    Doctor.settings "/data/users.yml" Startup.envMasterKeyProvider = "file" := by
  decide +kernel

def sampleContainer : Container where
  host := { Doctor.plainHost with sqliteOpen := openPlainly }
  getenv := Doctor.settings "/data/users.yml"
  outside := fun _ => none
  dataDir := containerSettings.1
  usersFile := containerSettings.2.1
  provider := containerSettings.2.2
  join_name := fun _ => rfl
  join_probe := rfl
  own := fun _ _ hopen path _ => congrFun (openPlainly_ok hopen).1 path
  opened := fun _ _ hopen => (openPlainly_ok hopen).1 ▸ (openPlainly_ok hopen).2

/-- Every command runs that can; the doctor can write its probe or not. -/
def calmInside (n : Nat) (writes : Bool) : List (Event RestoreTurn) :=
  List.replicate n ⟨.runs, false, ⟨true, false, emptyDir, none, writes, true⟩⟩

/-- A volume with a token and a hot journal of its own. -/
def otherVolume : Dir
  | .db => some (.file [3] 0o600)
  | .wal => some (.file [4] 0o600)
  | .token => some (.file [5] 0o600)
  | _ => none

/-- A restore that the doctor refuses. -/
def refusedRestore : RestoreState × Phase RestoreTurn RestoreState :=
  (restoreInside sampleContainer sampleVolume).run
    ((restoreInside sampleContainer sampleVolume).start (restoreFrom otherVolume none))
    (calmInside 34 false)

theorem otherVolume_plain : ∀ f, otherVolume f ≠ some .symlink := by
  intro f
  cases f <;> simp [otherVolume]

theorem restore_atomic_refused : refusedRestore.1.data = otherVolume ∧
    Cleared refusedRestore.1 := by
  have hend : refusedRestore = (refusedRestore.1, .ended false) := rfl
  obtain ⟨hfiles, hcleared⟩ := (restore_atomic sampleContainer otherVolume sampleVolume none
    otherVolume_plain hend).2.1 rfl
  refine ⟨?_, hcleared⟩
  rcases hfiles with hold | hrestored
  · exact hold
  · have husers := hrestored.copy (f := .users) (by decide)
    cases husers

end TabbySync.Ops
