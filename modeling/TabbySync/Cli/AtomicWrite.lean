import Mathlib.Data.Countable.Basic
import Mathlib.Data.Fintype.EquivFin
import Mathlib.Logic.Equiv.List
import TabbySync.Cli.ConcurrentCommands
import TabbySync.Library.Crash
import TabbySync.Library.FileSystem

/-! # The users file, operation by operation

`saveUsersYAML` writes through `writeFileAtomic`: a new file beside the users file, its
mode, its bytes, an fsync, a close and a rename. Each of them may fail; the new file is
then removed, if that succeeds. A command may also be killed between any two operations
and in the middle of the write.

Read through YAML, commands that work like this do what commands do that replace the file
in one step. Which of them fail shows only later, so the commands of the coarser model are
chosen by a look at the end of the run. -/

namespace TabbySync.Cli.AtomicWrite
open Library Auth

/-! ## The operations -/

inductive Path (ι : Type)
  | users
  | temp (i : ι)
  deriving DecidableEq

abbrev Files (ι : Type) := FileSystem (Path ι)

/-- YAML, and the text of the error for a file that is not there. -/
structure Format where
  marshal : List UserEntry → Bytes
  parse : Bytes → Document
  missing : String
  parse_marshal : ∀ users, UsersFile.document (parse (marshal users)) = .ofEntries users

def Format.decode (F : Format) : Option Bytes → UsersFile
  | none => .unreadable F.missing
  | some bytes => .document (F.parse bytes)

/-- The operations of `writeFileAtomic`; `cleanup` is what it has deferred, after an
error. -/
inductive SavePc
  | createTemp
  | chmod (file : Nat)
  | write (file : Nat)
  | sync (file : Nat)
  | close (file : Nat)
  | rename
  | cleanup (why : String)

/-- A command. From the read on it has the file as it was read and the list to write. -/
inductive Proc (ι : Type)
  | loading (i : ι) (inv : Invocation)
  | saving (i : ι) (inv : Invocation) (file : UsersFile) (users : List UserEntry) (pc : SavePc)
  | failed (why : String) (r : Result)
  | ended (r : Result)

/-- Why the operation fails, and how much a write that fails has written. -/
structure Env where
  fails : Option String
  written : Nat

/-- The invocation, with what becomes of its save. -/
def failing (inv : Invocation) (why : Option String) : Invocation := { inv with saveError := why }

section
variable {ι : Type} [DecidableEq ι] (P : Platform) (F : Format)

def saveStep (i : ι) (env : Env) (fs : Files ι) (inv : Invocation) (file : UsersFile)
    (users : List UserEntry) : SavePc → Files ι × Proc ι
  | .createTemp =>
    match env.fails with
    | some why => (fs, .failed why (runUser P (failing inv (some why)) file))
    | none => (fs.create (.temp i), .saving i inv file users (.chmod fs.fresh))
  | .chmod handle =>
    match env.fails with
    | some why => (fs, .saving i inv file users (.cleanup why))
    | none => (fs, .saving i inv file users (.write handle))
  | .write handle =>
    match env.fails with
    | some why => (fs.write handle ((F.marshal users).take env.written),
        .saving i inv file users (.cleanup why))
    | none => (fs.write handle (F.marshal users), .saving i inv file users (.sync handle))
  | .sync handle =>
    match env.fails with
    | some why => (fs, .saving i inv file users (.cleanup why))
    | none => (fs, .saving i inv file users (.close handle))
  | .close _ =>
    match env.fails with
    | some why => (fs, .saving i inv file users (.cleanup why))
    | none => (fs, .saving i inv file users .rename)
  | .rename =>
    match env.fails with
    | some why => (fs, .saving i inv file users (.cleanup why))
    | none =>
      match fs.rename (.temp i) .users with
      | none => (fs, .saving i inv file users (.cleanup "no such file or directory"))
      | some fs' => (fs', .ended (runUser P (failing inv none) file))
  | .cleanup why =>
    (if env.fails.isNone then fs.remove (.temp i) else fs,
      .failed why (runUser P (failing inv (some why)) file))

def step (env : Env) (fs : Files ι) : Proc ι → Files ι × Proc ι
  | .loading i inv =>
    let file := F.decode (fs.read .users)
    match (runUser P (failing inv none) file).saved with
    | none => (fs, .ended (runUser P (failing inv none) file))
    | some users => (fs, .saving i inv file users .createTemp)
  | .saving i inv file users pc => saveStep P F i env fs inv file users pc
  | p => (fs, p)

def Proc.isOver : Proc ι → Bool
  | .failed .. | .ended .. => true
  | _ => false

/-- What a kill leaves of a write in progress. -/
def tear (written : Nat) (fs : Files ι) : Proc ι → Files ι
  | .saving _ _ _ users (.write handle) => fs.write handle ((F.marshal users).take written)
  | _ => fs

abbrev crashStep : Move Env → Files ι → Option (Proc ι) → Files ι × Option (Proc ι) :=
  crashing (step P F) (tear F) Proc.isOver

end

/-- A directory with the users file in it, or without. -/
def volume {ι : Type} [DecidableEq ι] : Option Bytes → Files ι
  | none => .empty
  | some bytes => (FileSystem.empty.create .users).setContent 0 bytes

abbrev Runs (ι : Type) := Pool (Files ι) ι (Option (Proc ι))

def begun {ι : Type} [DecidableEq ι] (content : Option Bytes) (invs : ι → Invocation) :
    Runs ι where
  shared := volume content
  procs i := some (.loading i (invs i))

/-- How a command ended. -/
def Proc.result {ι : Type} : Proc ι → Option Result
  | .failed _ r => some r
  | .ended r => some r
  | _ => none

/-- The failures of a run, as its last state has them. -/
def failures {ι : Type} (last : Runs ι) (i : ι) : Option String :=
  match last.procs i with
  | some (.failed why _) => some why
  | _ => none

/-- Lists of entries can be written down and read back. -/
theorem exists_format : Nonempty Format := by
  have hchar : Countable Char := Function.Injective.countable (f := Char.toNat) fun a b h => by
    rw [← Char.ofNat_toNat a, ← Char.ofNat_toNat b, h]
  have hstring : Countable String := Function.Injective.countable (f := String.toList)
    fun _ _ h => String.toList_inj.mp h
  have hid : Countable Int64 := Function.Injective.countable (f := Int64.toInt)
    fun _ _ h => Int64.toInt_inj.mp h
  have hentry : Countable UserEntry := Function.Injective.countable
    (f := fun u => (u.id, u.name, u.tokenPrefix, u.tokenHash, u.disabled)) fun a b h => by
      cases a
      cases b
      simp_all
  obtain ⟨f, hf⟩ := exists_injective_nat (List UserEntry)
  have hinj : ∀ users users', List.replicate (f users) (0 : UInt8) = List.replicate (f users') 0 →
      users' = users := fun users users' h => hf (by simpa using congrArg List.length h.symm)
  classical
  refine ⟨fun users => List.replicate (f users) 0, fun bytes =>
    if h : ∃ users, List.replicate (f users) 0 = bytes then
      ⟨.ok h.choose, .ok h.choose, fun _ hok => hok⟩
    else ⟨.error "", .error "", fun _ hok => hok⟩, "", fun users => ?_⟩
  have hexists : ∃ users', List.replicate (f users') (0 : UInt8) = List.replicate (f users) 0 :=
    ⟨users, rfl⟩
  rw [dif_pos hexists]
  have hchoose : hexists.choose = users := (hinj _ _ hexists.choose_spec).symm
  simp only [hchoose]
  rfl

/-! ## Temporary files -/

section
variable {ι : Type} {F : Format} {fs fs' : Files ι} {i j : ι} {p : Proc ι}

theorem Format.decode_marshal (F : Format) (users : List UserEntry) :
    F.decode (some (F.marshal users)) = .ofEntries users := F.parse_marshal users

/-- What a command knows of its temporary file, by its next operation. -/
def SavePc.temp (F : Format) (users : List UserEntry) : SavePc → FileSystem.Knowledge
  | .createTemp | .cleanup _ => .nothing
  | .chmod handle | .write handle => .opened handle []
  | .sync handle | .close handle => .opened handle (F.marshal users)
  | .rename => .closed (F.marshal users)

def Proc.temp (F : Format) : Proc ι → FileSystem.Knowledge
  | .saving _ _ _ users pc => pc.temp F users
  | _ => .nothing

def Proc.IsCommand (i : ι) : Proc ι → Prop
  | .loading j _ | .saving j _ _ _ _ => j = i
  | _ => True

/-- The process is command `i`, and its temporary file is as it knows it. -/
structure TempOk (F : Format) (fs : Files ι) (i : ι) (p : Proc ι) : Prop where
  command : p.IsCommand i
  temp : fs.Shows (.temp i) (p.temp F)

/-- A kill reaches the temporary file of its own command at most. -/
theorem onlyAt_tear (h : TempOk F fs i p) (written : Nat) :
    FileSystem.OnlyAt (.temp i) fs (tear F written fs p) := by
  unfold tear
  split
  · exact FileSystem.onlyAt_setContent h.temp.1 _
  · exact .refl _

variable [DecidableEq ι]

/-- What an operation of a save does: it works on its own temporary file, or moves a
complete one into place and is over. -/
inductive SaveMove (P : Platform) (F : Format) (i : ι) (fs : Files ι) (inv : Invocation)
    (file : UsersFile) (users : List UserEntry) : Files ι → Proc ι → Prop
  | goes (fs' : Files ι) (pc : SavePc) (only : FileSystem.OnlyAt (.temp i) fs fs')
      (temp : fs'.Shows (.temp i) (pc.temp F users)) :
      SaveMove P F i fs inv file users fs' (.saving i inv file users pc)
  | fails (fs' : Files ι) (why : String) (only : FileSystem.OnlyAt (.temp i) fs fs') :
      SaveMove P F i fs inv file users fs' (.failed why (runUser P (failing inv (some why)) file))
  | replaces (fs' : Files ι) (whole : fs.read (.temp i) = some (F.marshal users))
      (moved : fs.rename (.temp i) .users = some fs') :
      SaveMove P F i fs inv file users fs' (.ended (runUser P (failing inv none) file))

theorem saveStep_moves (P : Platform) (env : Env) (inv : Invocation) (file : UsersFile)
    {users : List UserEntry} {pc : SavePc} (h : fs.Shows (.temp i) (pc.temp F users)) :
    SaveMove P F i fs inv file users (saveStep P F i env fs inv file users pc).1
      (saveStep P F i env fs inv file users pc).2 := by
  cases pc with
  | createTemp =>
    simp only [saveStep]
    split
    · exact .fails _ _ (.refl _)
    · exact .goes _ _ (FileSystem.onlyAt_create fs _)
        ⟨FileSystem.entry_create, FileSystem.read_create⟩
  | chmod handle =>
    simp only [saveStep]
    split
    · exact .goes _ _ (.refl _) trivial
    · exact .goes _ _ (.refl _) h
  | write handle =>
    simp only [saveStep]
    split
    · exact .goes _ _ (FileSystem.onlyAt_setContent h.1 _) trivial
    · exact .goes _ _ (FileSystem.onlyAt_setContent h.1 _) ⟨h.1, FileSystem.read_write h.1 h.2 _⟩
  | sync handle =>
    simp only [saveStep]
    split
    · exact .goes _ _ (.refl _) trivial
    · exact .goes _ _ (.refl _) h
  | close handle =>
    simp only [saveStep]
    split
    · exact .goes _ _ (.refl _) trivial
    · exact .goes _ _ (.refl _) h.2
  | rename =>
    simp only [saveStep]
    split
    · exact .goes _ _ (.refl _) trivial
    · split
      · exact .goes _ _ (.refl _) trivial
      · exact .replaces _ h ‹_›
  | cleanup why =>
    refine .fails _ why ?_
    simp only [saveStep]
    split
    · exact FileSystem.onlyAt_remove fs _
    · exact .refl _

end

/-! ## Failures -/

/-- A command whose save fails has written nothing. -/
theorem runUser_failing (P : Platform) (inv : Invocation) (why : String) (file : UsersFile) :
    (runUser P (failing inv (some why)) file).saved = none := by
  have hplan : ∀ plan : Plan, (plan.run (some why)).saved = none := by
    intro plan
    cases plan <;> rfl
  have hedit : ∀ noPath edit,
      (editUsersFile P (failing inv (some why)) file noPath edit).saved = none := by
    intro noPath edit
    unfold editUsersFile
    split
    · rfl
    · split
      · rfl
      · exact hplan _
  unfold runUser
  split
  · rfl
  · split
    · unfold runUserAdd
      split
      · rfl
      · dsimp only
        split
        · rfl
        · exact hedit _ _
    · split
      · unfold runUserRm
        split
        · rfl
        · dsimp only
          split
          · rfl
          · exact hedit _ _
      · split
        · unfold runUserRotate
          split
          · rfl
          · exact hedit _ _
        · rfl

section
variable {ι : Type} [DecidableEq ι] {P : Platform} {F : Format} {s : Runs ι} {i : ι} {p : Proc ι}

theorem failures_failed {why : String} {r : Result} (hp : s.procs i = some (.failed why r))
    {es : List (ι × Move Env)} {last : Runs ι} (hlast : Pool.run (crashStep P F) s es = last) :
    failures last i = some why := by
  have hstays : last.procs i = some (.failed why r) := hlast ▸ over_stays (step P F) (tear F) Proc.isOver (fun _ _ => rfl) rfl hp es
  rw [failures, hstays]

theorem failures_ended {r : Result} (hp : s.procs i = some (.ended r)) {es : List (ι × Move Env)}
    {last : Runs ι} (hlast : Pool.run (crashStep P F) s es = last) : failures last i = none := by
  have hstays : last.procs i = some (.ended r) := hlast ▸ over_stays (step P F) (tear F) Proc.isOver (fun _ _ => rfl) rfl hp es
  rw [failures, hstays]

end

/-! ## The coarser model follows -/

section
variable {ι : Type} {P : Platform} {F : Format} {invs : ι → Invocation}
  {errors : ι → Option String} {content : Option Bytes} {s s' : Runs ι}
  {a a' : Pool UsersFile ι Command} {i : ι}

/-- The command of the coarser model for one that has read the file. -/
def saver (P : Platform) (inv : Invocation) (file : UsersFile) (users : List UserEntry) :
    Option String → Command
  | none => .saving (failing inv none) (entriesOf file) users (runUser P (failing inv none) file)
  | some why => .done (runUser P (failing inv (some why)) file)

def Matches (P : Platform) (inv : Invocation) (error : Option String) : Proc ι → Command → Prop
  | .loading _ inv', c => inv' = inv ∧ c = .loading (failing inv error)
  | .saving _ inv' file users _, c => inv' = inv ∧
      (runUser P (failing inv none) file).saved = some users ∧ c = saver P inv file users error
  | .failed _ r, c => c = .done r
  | .ended r, c => c = .done r

/-- The users file is as it was or as a command has written it. -/
def Whole (F : Format) (content : Option Bytes) (fs : Files ι) : Prop :=
  fs.read .users = content ∨ ∃ users, fs.read .users = some (F.marshal users)

/-- Where the two models stand. -/
structure Follows (P : Platform) (F : Format) (content : Option Bytes) (invs : ι → Invocation)
    (errors : ι → Option String) (s : Runs ι) (a : Pool UsersFile ι Command) : Prop where
  file : a.shared = F.decode (s.shared.read .users)
  whole : Whole F content s.shared
  temps : ∀ i p, s.procs i = some p → TempOk F s.shared i p
  procs : ∀ i p, s.procs i = some p → Matches P (invs i) (errors i) p (a.procs i)

/-- A move of a command that leaves the users file and the files of the others alone. -/
theorem Follows.aside (h : Follows P F content invs errors s a)
    (hother : ∀ j, j ≠ i → s'.procs j = s.procs j)
    (hcoarse : ∀ j, j ≠ i → a'.procs j = a.procs j) (hfile : a'.shared = a.shared)
    (only : FileSystem.OnlyAt (.temp i) s.shared s'.shared)
    (hself : ∀ p, s'.procs i = some p → TempOk F s'.shared i p ∧
      Matches P (invs i) (errors i) p (a'.procs i)) :
    Follows P F content invs errors s' a' := by
  have husers : s'.shared.read .users = s.shared.read .users := (only .users nofun).2
  refine ⟨?_, ?_, fun j p hp => ?_, fun j p hp => ?_⟩
  · rw [hfile, h.file, husers]
  · unfold Whole
    rw [husers]
    exact h.whole
  · by_cases hj : j = i
    · subst hj
      exact (hself p hp).1
    · rw [hother j hj] at hp
      have hfiles := only (.temp j) fun heq => hj (Path.temp.inj heq)
      exact ⟨(h.temps j p hp).command, (h.temps j p hp).temp.frame hfiles.1 hfiles.2⟩
  · by_cases hj : j = i
    · subst hj
      exact (hself p hp).2
    · rw [hother j hj] at hp
      rw [hcoarse j hj]
      exact h.procs j p hp

variable [DecidableEq ι]

/-- The move that puts a complete file into place. -/
theorem Follows.replace (h : Follows P F content invs errors s a) (users : List UserEntry)
    (hother : ∀ j, j ≠ i → s'.procs j = s.procs j)
    (hcoarse : ∀ j, j ≠ i → a'.procs j = a.procs j) (hfile : a'.shared = .ofEntries users)
    (hwhole : s.shared.read (.temp i) = some (F.marshal users))
    (hmoved : s.shared.rename (.temp i) .users = some s'.shared)
    (hself : ∀ p, s'.procs i = some p → TempOk F s'.shared i p ∧
      Matches P (invs i) (errors i) p (a'.procs i)) :
    Follows P F content invs errors s' a' := by
  obtain ⟨-, hread, -, hrest⟩ := FileSystem.rename_ok hmoved nofun
  have husers : s'.shared.read .users = some (F.marshal users) := hread.trans hwhole
  refine ⟨?_, .inr ⟨users, husers⟩, fun j p hp => ?_, fun j p hp => ?_⟩
  · rw [hfile, husers, F.decode_marshal]
  · by_cases hj : j = i
    · subst hj
      exact (hself p hp).1
    · rw [hother j hj] at hp
      have hfiles := hrest (.temp j) (fun heq => hj (Path.temp.inj heq)) nofun
      exact ⟨(h.temps j p hp).command, (h.temps j p hp).temp.frame hfiles.1 hfiles.2⟩
  · by_cases hj : j = i
    · subst hj
      exact (hself p hp).2
    · rw [hother j hj] at hp
      rw [hcoarse j hj]
      exact h.procs j p hp

theorem follows_kill (h : Follows P F content invs errors s a) {p : Proc ι}
    (hp : s.procs i = some p) (hover : p.isOver = false) (written : Nat) :
    Follows P F content invs errors (Pool.fire (crashStep P F) s (i, .kill written)) a := by
  obtain ⟨hshared, hself⟩ := fire_kill (step P F) (tear F) Proc.isOver written hp hover
  refine h.aside (fun j hj => Pool.fire_procs_of_ne hj) (fun _ _ => rfl) rfl ?_ fun q hq => ?_
  · rw [hshared]
    exact onlyAt_tear (h.temps i p hp) written
  · cases hself.symm.trans hq

/-- The read of the users file is the first step of the coarser command. -/
theorem follows_load (h : Follows P F content invs errors s a) {env : Env} {j : ι}
    {inv : Invocation} (hp : s.procs i = some (.loading j inv))
    (hended : ∀ r, (Pool.fire (crashStep P F) s (i, .run env)).procs i = some (.ended r) →
      errors i = none) :
    Follows P F content invs errors (Pool.fire (crashStep P F) s (i, .run env))
      (Pool.fire (Command.step P) a (i, ())) := by
  obtain ⟨hshared, hself⟩ := fire_run (step P F) (tear F) Proc.isOver env hp
  obtain ⟨rfl, hcommand⟩ := h.procs i _ hp
  obtain rfl : j = i := (h.temps i _ hp).command
  have hcoarse : (Pool.fire (Command.step P) a (j, ())).procs j =
      (Command.step P () (F.decode (s.shared.read .users))
        (.loading (failing (invs j) (errors j)))).2 := by
    rw [Pool.fire_procs_self, hcommand, h.file]
  have hfile : (Pool.fire (Command.step P) a (j, ())).shared = a.shared := by
    simp only [Pool.fire, hcommand, Command.step]
    split <;> rfl
  have honly : FileSystem.OnlyAt (.temp j) s.shared
      (Pool.fire (crashStep P F) s (j, .run env)).shared := by
    rw [hshared]
    simp only [step]
    split <;> exact .refl _
  refine h.aside (fun k hk => Pool.fire_procs_of_ne hk) (fun k hk => Pool.fire_procs_of_ne hk)
    hfile honly fun q hq => ?_
  cases hsaved : (runUser P (failing (invs j) none) (F.decode (s.shared.read .users))).saved with
  | none =>
    simp only [step, hsaved] at hself
    rw [hended _ hself] at hcoarse
    simp only [Command.step, hsaved] at hcoarse
    cases hself.symm.trans hq
    exact ⟨⟨trivial, trivial⟩, hcoarse⟩
  | some users =>
    simp only [step, hsaved] at hself
    cases hself.symm.trans hq
    refine ⟨⟨rfl, trivial⟩, rfl, hsaved, ?_⟩
    rw [hcoarse]
    cases herror : errors j with
    | none => simp only [Command.step, hsaved, saver]
    | some why => simp only [Command.step, runUser_failing, saver]

/-- An operation of the save: the rename is the second step of the coarser command, and
the others are none of it. -/
theorem follows_save (h : Follows P F content invs errors s a) {env : Env} {j : ι}
    {inv : Invocation} {file : UsersFile} {users : List UserEntry} {pc : SavePc}
    (hp : s.procs i = some (.saving j inv file users pc))
    (hended : ∀ r, (Pool.fire (crashStep P F) s (i, .run env)).procs i = some (.ended r) →
      errors i = none)
    (hfailed : ∀ why r, (Pool.fire (crashStep P F) s (i, .run env)).procs i =
      some (.failed why r) → errors i = some why) :
    ∃ turns, (turns = [] ∨ turns = [(i, ())]) ∧
      Follows P F content invs errors (Pool.fire (crashStep P F) s (i, .run env))
        (turns.foldl (Pool.fire (Command.step P)) a) := by
  obtain ⟨hshared, hself⟩ := fire_run (step P F) (tear F) Proc.isOver env hp
  obtain ⟨rfl, hsaved, hcommand⟩ := h.procs i _ hp
  obtain ⟨rfl, htemp⟩ := h.temps i _ hp
  have hother : ∀ k, k ≠ j →
      (Pool.fire (crashStep P F) s (j, .run env)).procs k = s.procs k :=
    fun k hk => Pool.fire_procs_of_ne hk
  have hmove := saveStep_moves P env (invs j) file htemp
  simp only [step] at hshared hself
  generalize saveStep P F j env s.shared (invs j) file users pc = x at hshared hself hmove
  obtain ⟨fs', p'⟩ := x
  simp only at hshared hself hmove
  cases hmove with
  | goes pc' only htemp' =>
    refine ⟨[], .inl rfl, h.aside hother (fun _ _ => rfl) rfl (hshared ▸ only) fun q hq => ?_⟩
    cases hself.symm.trans hq
    rw [hshared]
    exact ⟨⟨rfl, htemp'⟩, rfl, hsaved, hcommand⟩
  | fails why only =>
    refine ⟨[], .inl rfl, h.aside hother (fun _ _ => rfl) rfl (hshared ▸ only) fun q hq => ?_⟩
    cases hself.symm.trans hq
    rw [hfailed _ _ hself] at hcommand
    exact ⟨⟨trivial, trivial⟩, hcommand⟩
  | replaces whole moved =>
    rw [hended _ hself] at hcommand
    refine ⟨[(j, ())], .inr rfl, h.replace users hother
      (fun k hk => Pool.fire_procs_of_ne hk) ?_ whole (hshared ▸ moved) fun q hq => ?_⟩
    · simp only [List.foldl_cons, List.foldl_nil, Pool.fire, hcommand, saver, Command.step]
    · cases hself.symm.trans hq
      refine ⟨⟨trivial, trivial⟩, ?_⟩
      rw [List.foldl_cons, List.foldl_nil, Pool.fire_procs_self, hcommand]
      rfl

theorem follows_fire (h : Follows P F content invs errors s a) (ev : ι × Move Env)
    (hended : ∀ r, (Pool.fire (crashStep P F) s ev).procs ev.1 = some (.ended r) →
      errors ev.1 = none)
    (hfailed : ∀ why r, (Pool.fire (crashStep P F) s ev).procs ev.1 = some (.failed why r) →
      errors ev.1 = some why) :
    ∃ turns, (turns = [] ∨ turns = [(ev.1, ())]) ∧
      Follows P F content invs errors (Pool.fire (crashStep P F) s ev)
        (turns.foldl (Pool.fire (Command.step P)) a) := by
  obtain ⟨i, move⟩ := ev
  -- a command that was killed, or is over, stays
  have hstays : Pool.fire (crashStep P F) s (i, move) = s →
      ∃ turns, (turns = [] ∨ turns = [(i, ())]) ∧
        Follows P F content invs errors (Pool.fire (crashStep P F) s (i, move))
          (turns.foldl (Pool.fire (Command.step P)) a) := by
    intro heq
    rw [heq]
    exact ⟨[], .inl rfl, h⟩
  cases hp : s.procs i with
  | none => exact hstays (fire_of_dead _ _ _ hp)
  | some p =>
    cases move with
    | kill written =>
      cases hover : p.isOver with
      | true => exact hstays (fire_kill_of_over _ _ _ written hp hover)
      | false => exact ⟨[], .inl rfl, follows_kill h hp hover written⟩
    | run env =>
      cases p with
      | loading j inv => exact ⟨[(i, ())], .inr rfl, follows_load h hp hended⟩
      | saving j inv file users pc => exact follows_save h hp hended hfailed
      | failed | ended => exact hstays (fire_eq_self _ _ _ (by rw [hp]; rfl))

omit [DecidableEq ι] in
/-- Turns taken one for an event, or none, come in the order of the events. -/
theorem sublist_flatten {es : List (ι × Move Env)} {parts : List (List (ι × Unit))}
    (h : List.Forall₂ (fun ev turns => turns = [] ∨ turns = [(ev.1, ())]) es parts) :
    (parts.flatten.map Prod.fst).Sublist (es.map Prod.fst) := by
  induction h with
  | nil => exact .slnil
  | cons hev _ ih =>
    rw [List.flatten_cons, List.map_cons]
    rcases hev with rfl | rfl
    · exact ih.cons _
    · exact ih.cons_cons _

theorem follows_begun (P : Platform) (F : Format) (content : Option Bytes)
    (invs : ι → Invocation) (errors : ι → Option String) :
    Follows P F content invs errors (begun content invs)
      (commands (F.decode content) fun i => failing (invs i) (errors i)) := by
  have hread : (volume content : Files ι).read .users = content := by
    cases content with
    | none => rfl
    | some bytes => exact FileSystem.read_setContent FileSystem.entry_create bytes
  refine ⟨?_, .inl hread, fun i p hp => ?_, fun i p hp => ?_⟩
  · show F.decode content = F.decode ((volume content : Files ι).read .users)
    rw [hread]
  · cases hp
    exact ⟨rfl, trivial⟩
  · cases hp
    exact ⟨rfl, rfl⟩

/-- However operations fail and commands are killed: the users file is at any time as it
was or as a command has written it, whole. And there are commands that replace the file in
one step, the same but for whose saves fail, that take their turns in the same order, leave
the same list, and end with the same results where the others have ended. -/
theorem commands_refine_atomic (P : Platform) (F : Format) (content : Option Bytes)
    (invs : ι → Invocation) (events : List (ι × Move Env)) :
    Whole F content (Pool.run (crashStep P F) (begun content invs) events).shared ∧
    ∃ (errors : ι → Option String) (turns : List (ι × Unit)),
      (turns.map Prod.fst).Sublist (events.map Prod.fst) ∧
      (Pool.run (Command.step P)
          (commands (F.decode content) fun i => failing (invs i) (errors i)) turns).shared =
        F.decode ((Pool.run (crashStep P F) (begun content invs) events).shared.read .users) ∧
      ∀ i p r, (Pool.run (crashStep P F) (begun content invs) events).procs i = some p →
        p.result = some r →
        (Pool.run (Command.step P)
          (commands (F.decode content) fun i => failing (invs i) (errors i)) turns).procs i =
          .done r := by
  generalize hlast : Pool.run (crashStep P F) (begun content invs) events = last
  obtain ⟨parts, hparts, hfollows⟩ := Pool.run_simulated
    (R := Follows P F content invs (failures last))
    (fun s a ev es hes h => follows_fire h ev (fun r hr => failures_ended hr hes)
      fun why r hr => failures_failed hr hes)
    (follows_begun P F content invs (failures last)) hlast
  refine ⟨hfollows.whole, failures last, parts.flatten, sublist_flatten hparts, hfollows.file,
    fun i p r hp hr => ?_⟩
  have hmatches := hfollows.procs i p hp
  cases p with
  | loading | saving => cases hr
  | failed why r' =>
    cases hr
    exact hmatches
  | ended r' =>
    cases hr
    exact hmatches

end

end TabbySync.Cli.AtomicWrite
