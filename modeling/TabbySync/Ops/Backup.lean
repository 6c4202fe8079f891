import Mathlib.Logic.Function.Basic
import TabbySync.Library.Script
import TabbySync.Store.Contract

/-! # Backup of the data volume

`scripts/backup.sh` stops the service, copies three files of the volume into a temporary
directory next to the destination, renames the directory, and starts the service again
from its exit trap. Every command may fail, and the script may be interrupted or killed
at any point.

What other processes do is handed in with each event: `docker compose ps` may fail to
list a service that runs, and a service that runs may change the volume under the copy. -/

namespace TabbySync.Ops
open TabbySync.Library TabbySync.Library.Script

/-! ## Files -/

/-- The names in the data volume that the scripts handle. -/
inductive FileName
  | db
  | wal
  | shm
  | journal
  | masterKey
  | users
  | token
  deriving DecidableEq, Repr

def FileName.name : FileName → String
  | .db => "tabby-sync.db"
  | .wal => "tabby-sync.db-wal"
  | .shm => "tabby-sync.db-shm"
  | .journal => "tabby-sync.db-journal"
  | .masterKey => "master.key"
  | .users => "users.yml"
  | .token => "token.txt"

inductive Entry
  | file (bytes : Bytes) (mode : Nat)
  | symlink
  | directory
  deriving DecidableEq, Repr

abbrev Dir := FileName → Option Entry

def emptyDir : Dir := fun _ => none

/-- `-f`, `! -L` and `-s`: a regular file that is not empty. -/
def Entry.isPlain : Entry → Bool
  | .file bytes _ => !bytes.isEmpty
  | _ => false

/-- `wc -c` -/
def Entry.size : Entry → Nat
  | .file bytes _ => bytes.length
  | _ => 0

def Entry.chmod (mode : Nat) : Entry → Entry
  | .file bytes _ => .file bytes mode
  | e => e

def Dir.isPlain (d : Dir) (f : FileName) : Bool := (d f).any Entry.isPlain

def Dir.size (d : Dir) (f : FileName) : Nat := ((d f).map Entry.size).getD 0

/-- The files that make up a backup. -/
def backupFiles : List FileName := [.db, .masterKey, .users]

def masterKeySize : Nat := 32

/-- What both scripts ask of a backup. -/
def Dir.isBackup (d : Dir) : Bool :=
  backupFiles.all d.isPlain && d.size .masterKey == masterKeySize

/-- The part of a directory that an `rm` which was cut short has not removed. -/
def Dir.partly (kept d : Dir) : Dir := fun f => if (kept f).isSome then d f else none

/-! ## The service -/

/-- The Compose service, with the variable `was_running` of a script. `startFailed` says
that the trap could not start the service and has set `rc` to 1. -/
structure Service where
  running : Bool
  wasRunning : Bool
  startFailed : Bool
  deriving DecidableEq, Repr

/-- `if ps | grep; then was_running=1; stop; fi`: the `if` hides a failure of `ps`. -/
def Service.stop (listed : Bool) (s : Service) : Service :=
  if s.running && listed then { s with running := false, wasRunning := true } else s

/-- The same, cut short after the assignment. -/
def Service.stopCut (listed made : Bool) (s : Service) : Service :=
  if s.running && listed then { s with running := !made, wasRunning := true } else s

/-- `if ! start; then rc=1; fi`, in the trap: the script goes on after a failure, and the
service may have come up all the same. -/
def Service.start (starts made : Bool) (s : Service) : Service :=
  if s.wasRunning then
    if starts then { s with running := true }
    else { s with running := s.running || made, startFailed := true }
  else s

/-- `exit "$rc"` is an exit with 0, after a body that got through (`ok`) or did not. -/
def Service.exitsZero (ok : Bool) (s : Service) : Bool := ok && !s.startFailed

/-- What a script knows of a service that ran (`r`) when it began. -/
def Service.From (r : Bool) (s : Service) : Prop :=
  s.wasRunning = false ∧ s.running = r ∨ s.wasRunning = true ∧ r = true

/-- The service is as it was, or could not be started again. -/
def Service.Back (r : Bool) (s : Service) : Prop := s.running = r ∨ s.startFailed = true

theorem Service.stop_listed (r : Bool) : Service.stop true ⟨r, false, false⟩ = ⟨false, r, false⟩ := by
  cases r <;> rfl

theorem Service.from_begin (r : Bool) : Service.From r ⟨r, false, false⟩ := .inl ⟨rfl, rfl⟩

theorem Service.from_down (r : Bool) : Service.From r ⟨false, r, false⟩ := by
  cases r
  · exact .inl ⟨rfl, rfl⟩
  · exact .inr ⟨rfl, rfl⟩

theorem Service.from_stopCut (r listed made : Bool) :
    Service.From r (Service.stopCut listed made ⟨r, false, false⟩) := by
  unfold Service.stopCut
  split
  · rename_i h
    exact .inr ⟨rfl, (Bool.and_eq_true_iff.mp h).1⟩
  · exact .inl ⟨rfl, rfl⟩

/-- After the trap's `start`, the service is as it was unless that failed. -/
theorem Service.From.start {r : Bool} {s : Service} (h : s.From r) (starts made : Bool) :
    (s.start starts made).From r ∧ (s.start starts made).Back r := by
  rcases h with ⟨hwas, hrun⟩ | ⟨hwas, hr⟩
  · have hsame : s.start starts made = s := by simp [Service.start, hwas]
    rw [hsame]
    exact ⟨.inl ⟨hwas, hrun⟩, .inl hrun⟩
  · rw [Service.start, if_pos hwas]
    split
    · exact ⟨.inr ⟨hwas, hr⟩, .inl hr.symm⟩
    · exact ⟨.inr ⟨hwas, hr⟩, .inr rfl⟩

/-- An exit with 0 means that the body got through and the service is as it was. -/
theorem Service.Back.of_exitsZero {r ok : Bool} {s : Service} (h : s.Back r)
    (hzero : s.exitsZero ok = true) : ok = true ∧ s.running = r := by
  obtain ⟨hok, hfailed⟩ := Bool.and_eq_true_iff.mp hzero
  rcases h with hrun | hfail
  · exact ⟨hok, hrun⟩
  · rw [hfail] at hfailed
    cases hfailed

/-! ## backup.sh -/

/-- `tmp` is the temporary directory while it exists, `tmpSet` that `$tmp_dir` names it. -/
structure BackupState where
  volume : Dir
  service : Service
  tmp : Option Dir
  tmpSet : Bool
  destination : Option Dir

/-- What the environment hands a command: whether `docker compose` knows the service, lists
it if it runs and manages to start it, whether the system call of a command that was cut short had been made,
what such a command leaves, and the volume as a running service has it. -/
structure BackupTurn where
  configured : Bool
  listed : Bool
  starts : Bool
  made : Bool
  left : Dir
  live : Dir

/-- The volume as the copying container sees it. -/
def BackupState.seen (e : BackupTurn) (s : BackupState) : Dir :=
  if s.service.running then e.live else s.volume

def stopService : Command BackupTurn BackupState where
  run e s := some { s with service := s.service.stop e.listed }
  cut e s := { s with service := s.service.stopCut e.listed e.made }

def makeTmp : Command BackupTurn BackupState where
  run _ s := some { s with tmp := some emptyDir, tmpSet := true }
  cut e s := if e.made then { s with tmp := some emptyDir } else s

def BackupState.putTmp (s : BackupState) (f : FileName) (entry : Option Entry) : BackupState :=
  { s with tmp := s.tmp.map fun d => Function.update d f entry }

/-- `cat` in a container, into the temporary directory, under `umask 077`. -/
def copyFile (f : FileName) : Command BackupTurn BackupState where
  run e s :=
    match s.seen e f with
    | some (.file bytes _) =>
      if bytes.isEmpty then none else some (s.putTmp f (some (.file bytes 0o600)))
    | _ => none
  cut e s := s.putTmp f (e.left f)

def tmpHolds (p : Dir → Bool) : Command BackupTurn BackupState :=
  .guard fun _ s => s.tmp.any p

def chmodTmp (f : FileName) : Command BackupTurn BackupState :=
  .atomic BackupTurn.made fun _ s =>
    some { s with tmp := s.tmp.map fun d => Function.update d f ((d f).map (Entry.chmod 0o600)) }

def renameTmp : Command BackupTurn BackupState :=
  .atomic BackupTurn.made fun _ s =>
    match s.tmp with
    | none => none
    | some d => some { s with tmp := none, destination := some d }

/-- `rm -rf` of a directory that is there, in the trap. -/
def removeTmp : Command BackupTurn BackupState where
  run _ s := some <| if s.tmpSet then { s with tmp := none } else s
  cut e s := if s.tmpSet then { s with tmp := s.tmp.map (Dir.partly e.left) } else s

def startService : Command BackupTurn BackupState :=
  .atomic BackupTurn.made fun e s => some { s with service := s.service.start e.starts e.made }

def backup : Script BackupTurn BackupState where
  -- the first two come before the trap, which does nothing then
  body := [.guard fun _ s => s.destination.isNone, .guard fun e _ => e.configured, stopService,
      makeTmp] ++
    backupFiles.flatMap (fun f => [copyFile f, tmpHolds (·.isPlain f), chmodTmp f]) ++
    [tmpHolds fun d => d.size .masterKey == masterKeySize, renameTmp,
      .assign fun s => { s with tmpSet := false }]
  onExit := [removeTmp, startService]
  disarms := false

/-- The script begins: nothing has been stopped, copied or noted. -/
def backupFrom (volume : Dir) (running : Bool) (destination : Option Dir) : BackupState where
  volume := volume
  service := ⟨running, false, false⟩
  tmp := none
  tmpSet := false
  destination := destination

/-! ## What a backup holds -/

/-- The copies of some files of a directory. -/
def copied (volume : Dir) (done : List FileName) : Dir := fun f =>
  if f ∈ done then (volume f).map (Entry.chmod 0o600) else none

def copyOf (volume : Dir) : Dir := copied volume backupFiles

theorem copied_nil (v : Dir) : copied v [] = emptyDir := rfl

/-- One more file is done. -/
theorem update_ite_mem (a b : Dir) (done : List FileName) (f : FileName) :
    Function.update (fun g => if g ∈ done then a g else b g) f (a f) =
      fun g => if g ∈ done ++ [f] then a g else b g := by
  funext g
  by_cases hg : g = f
  · subst hg
    simp
  · simp [hg]

theorem copied_concat (v : Dir) (done : List FileName) (f : FileName) :
    Function.update (copied v done) f ((v f).map (Entry.chmod 0o600)) = copied v (done ++ [f]) :=
  update_ite_mem (fun g => (v g).map (Entry.chmod 0o600)) emptyDir done f

theorem any_isPlain_chmod (entry : Option Entry) (mode : Nat) :
    (entry.map (Entry.chmod mode)).any Entry.isPlain = entry.any Entry.isPlain := by
  rcases entry with _ | _ | _ | _ <;> rfl

theorem map_size_chmod (entry : Option Entry) (mode : Nat) :
    (entry.map (Entry.chmod mode)).map Entry.size = entry.map Entry.size := by
  rcases entry with _ | _ | _ | _ <;> rfl

theorem chmod_again (entry : Option Entry) (mode : Nat) :
    (entry.map (Entry.chmod mode)).map (Entry.chmod mode) = entry.map (Entry.chmod mode) := by
  rcases entry with _ | _ | _ | _ <;> rfl

theorem size_copied {v : Dir} {done : List FileName} {f : FileName} (hf : f ∈ done) :
    (copied v done).size f = v.size f := by
  rw [Dir.size, copied, if_pos hf, map_size_chmod, Dir.size]

/-! ## Every run of the script -/

section
variable {v : Dir} {r : Bool} {d : Option Dir}

/-- The destination is a whole backup of the volume, where there was nothing before. -/
def Complete (v : Dir) (before : Option Dir) (s : BackupState) : Prop :=
  before = none ∧ v.isBackup = true ∧ s.destination = some (copyOf v)

/-- What holds throughout: of the volume, the destination, and the service that ran
(`r`) when the script began. -/
structure Orderly (v : Dir) (r : Bool) (d : Option Dir) (s : BackupState) : Prop where
  volume : s.volume = v
  destination : s.destination = d ∨ Complete v d s
  service : s.service.From r

/-- The service is down, there is no destination yet, and some files are copied. -/
structure Copying (v : Dir) (r : Bool) (d : Option Dir) (done : List FileName) (s : BackupState) :
    Prop where
  volume : s.volume = v
  service : s.service = ⟨false, r, false⟩
  before : d = none
  destination : s.destination = none
  tmp : s.tmp = some (copied v done)
  plain : ∀ f ∈ done, v.isPlain f = true

theorem orderly_of_down {s : BackupState} (hvolume : s.volume = v)
    (hservice : s.service = ⟨false, r, false⟩) (hdest : s.destination = d) : Orderly v r d s :=
  ⟨hvolume, .inl hdest, hservice ▸ Service.from_down r⟩

theorem Copying.orderly {done : List FileName} {s : BackupState} (h : Copying v r d done s) :
    Orderly v r d s :=
  orderly_of_down h.volume h.service (h.destination.trans h.before.symm)

/-- What is done to the temporary directory alone keeps the order. -/
theorem Orderly.set_tmp {s : BackupState} (h : Orderly v r d s) (tmp : Option Dir) (set : Bool) :
    Orderly v r d { s with tmp := tmp, tmpSet := set } :=
  ⟨h.volume, h.destination, h.service⟩

theorem stopService_meets :
    stopService.Meets (fun e => e.listed = true)
      (fun s => s = backupFrom v r d ∧ d = none)
      (fun s => s.volume = v ∧ s.service = ⟨false, r, false⟩ ∧ s.destination = d ∧ d = none)
      (Orderly v r d) := by
  constructor
  · rintro e s s' he ⟨rfl, hd⟩ hrun
    cases hrun
    rw [he]
    exact ⟨rfl, Service.stop_listed r, rfl, hd⟩
  · rintro e s - ⟨rfl, -⟩
    exact ⟨rfl, .inl rfl, Service.from_stopCut r e.listed e.made⟩

variable {E : BackupTurn → Prop}

theorem makeTmp_meets : makeTmp.Meets E
    (fun s => s.volume = v ∧ s.service = ⟨false, r, false⟩ ∧ s.destination = d ∧ d = none)
    (Copying v r d []) (Orderly v r d) := by
  constructor
  · rintro e s s' - ⟨hvolume, hservice, hdest, hd⟩ hrun
    cases hrun
    exact ⟨hvolume, hservice, hd, hdest.trans hd, by rw [copied_nil], by simp⟩
  · rintro e s - ⟨hvolume, hservice, hdest, hd⟩
    have hs := orderly_of_down hvolume hservice hdest
    simp only [makeTmp]
    split
    · exact hs.set_tmp _ s.tmpSet
    · exact hs

theorem copyFile_meets (done : List FileName) (f : FileName) :
    (copyFile f).Meets E (Copying v r d done) (Copying v r d (done ++ [f])) (Orderly v r d) := by
  constructor
  · intro e s s' _ hs hrun
    have hseen : s.seen e = v := by simp [BackupState.seen, hs.service, hs.volume]
    simp only [copyFile, hseen] at hrun
    split at hrun
    · rename_i bytes mode hf
      split at hrun
      · cases hrun
      · rename_i hne
        cases hrun
        refine ⟨hs.volume, hs.service, hs.before, hs.destination, ?_, ?_⟩
        · rw [BackupState.putTmp, hs.tmp, Option.map_some, ← copied_concat, hf]
          rfl
        · intro g hg
          rcases List.mem_append.mp hg with hg | hg
          · exact hs.plain g hg
          · rw [List.mem_singleton.mp hg]
            simpa [Dir.isPlain, hf, Entry.isPlain] using hne
    · cases hrun
  · intro e s _ hs
    exact hs.orderly.set_tmp _ s.tmpSet

theorem tmpHolds_meets (p : Dir → Bool) (done : List FileName) :
    (tmpHolds p).Meets E (Copying v r d done)
      (fun s => Copying v r d done s ∧ p (copied v done) = true) (Orderly v r d) := by
  refine guard_meets (fun _ hs => hs.orderly) fun e s hs hp => ⟨hs, ?_⟩
  rwa [hs.tmp, Option.any_some] at hp

theorem chmodTmp_meets (done : List FileName) (f : FileName) :
    (chmodTmp f).Meets E (Copying v r d done) (Copying v r d done) (Orderly v r d) := by
  refine atomic_meets (fun _ hs => hs.orderly) (fun _ hs => hs.orderly) fun e s s' _ hs hrun => ?_
  -- the copies have the mode already
  have hsame : Function.update (copied v done) f ((copied v done f).map (Entry.chmod 0o600)) =
      copied v done := by
    rw [Function.update_eq_self_iff, copied]
    split
    · exact chmod_again _ _
    · rfl
  simp only [hs.tmp, Option.map_some, hsame, Option.some.injEq] at hrun
  subst hrun
  exact ⟨hs.volume, hs.service, hs.before, hs.destination, rfl, hs.plain⟩

/-- The rename makes the backup appear, whole. -/
theorem renameTmp_meets :
    renameTmp.Meets E (fun s => Copying v r d backupFiles s ∧
        ((copied v backupFiles).size .masterKey == masterKeySize) = true)
      (fun s => Orderly v r d s ∧ Complete v d s) (Orderly v r d) := by
  refine atomic_meets (fun _ hs => hs.1.orderly) (fun _ hs => hs.1) ?_
  rintro - s s' - ⟨hs, hsize⟩ hrun
  have hv : v.isBackup = true := by
    rw [size_copied (by simp [backupFiles])] at hsize
    rw [Dir.isBackup, hsize, Bool.and_true, List.all_eq_true]
    exact hs.plain
  simp only [hs.tmp, Option.some.injEq] at hrun
  subst hrun
  have hcomplete : Complete v d { s with tmp := none, destination := some (copyOf v) } :=
    ⟨hs.before, hv, rfl⟩
  exact ⟨⟨hs.volume, .inr hcomplete, hs.orderly.service⟩, hcomplete⟩

theorem startService_meets {K : BackupState → Prop}
    (hK : ∀ s service, K s → K { s with service := service }) :
    startService.Meets E (fun s => Orderly v r d s ∧ K s)
      (fun s => Orderly v r d s ∧ K s ∧ s.service.Back r) (Orderly v r d) := by
  refine atomic_meets (fun _ hs => hs.1) (fun _ hs => hs.1) ?_
  rintro e s s' - ⟨hs, hk⟩ hrun
  cases hrun
  obtain ⟨hfrom, hback⟩ := hs.service.start e.starts e.made
  exact ⟨⟨hs.volume, hs.destination, hfrom⟩, hK s _ hk, hback⟩

theorem removeTmp_meets {K : BackupState → Prop} (hK : ∀ s tmp, K s → K { s with tmp := tmp }) :
    removeTmp.Meets E (fun s => Orderly v r d s ∧ K s)
      (fun s => Orderly v r d s ∧ K s ∧ (s.tmpSet = true → s.tmp = none)) (Orderly v r d) := by
  constructor
  · rintro e s s' - ⟨hs, hk⟩ hrun
    simp only [removeTmp, Option.some.injEq] at hrun
    subst hrun
    split
    · exact ⟨hs.set_tmp _ s.tmpSet, hK s _ hk, fun _ => rfl⟩
    · exact ⟨hs, hk, fun hset => absurd hset ‹_›⟩
  · rintro e s - ⟨hs, -⟩
    simp only [removeTmp]
    split
    · exact hs.set_tmp _ s.tmpSet
    · exact hs

/-- What the trap leaves: no temporary directory that the script knows of, and the service
as it was unless it could not be started. -/
def Settled (r : Bool) (s : BackupState) : Prop :=
  s.service.Back r ∧ (s.tmpSet = true → s.tmp = none)

/-- The trap keeps what the body has reached. -/
theorem backup_trap {K : BackupState → Prop}
    (hservice : ∀ s service, K s → K { s with service := service })
    (htmp : ∀ s tmp, K s → K { s with tmp := tmp }) :
    Meets E (fun s => Orderly v r d s ∧ K s) (fun s => Orderly v r d s ∧ K s ∧ Settled r s)
      (Orderly v r d) backup.onExit := by
  refine .cons (fun _ hs => hs.1) (removeTmp_meets htmp) (.cons (fun _ hs => hs.1)
    (startService_meets fun s service hs => ⟨hservice s service hs.1, hs.2⟩) ?_)
  rintro s ⟨hs, ⟨hk, hgone⟩, hback⟩
  exact ⟨⟨hs, hk, hback, hgone⟩, hs⟩

/-- The copies of all files. -/
theorem copies_meet : Meets E (Copying v r d []) (Copying v r d backupFiles) (Orderly v r d)
    (backupFiles.flatMap fun f => [copyFile f, tmpHolds (·.isPlain f), chmodTmp f]) := by
  refine meets_forEach (fun _ hs => hs.orderly) fun pre f post _ => ?_
  refine .cons (fun _ hs => hs.orderly) (copyFile_meets pre f) ?_
  refine .cons (fun _ hs => hs.orderly) (tmpHolds_meets _ _) ?_
  exact meets_single (fun _ hs => hs.1.orderly) (fun _ hs => hs.orderly)
    ⟨fun e s s' he hs => (chmodTmp_meets _ f).run e s s' he hs.1,
      fun e s he hs => (chmodTmp_meets _ f).cut e s he hs.1⟩

/-- The body, from its beginning to a whole backup. -/
theorem backup_body : Meets (fun e => e.listed = true) (fun s => s = backupFrom v r d)
    (fun s => Orderly v r d s ∧ Complete v d s) (Orderly v r d) backup.body := by
  have hstart : ∀ s, s = backupFrom v r d → Orderly v r d s := by
    rintro s rfl
    exact ⟨rfl, .inl rfl, Service.from_begin r⟩
  refine Meets.append (M := Copying v r d backupFiles)
    (Meets.append (M := Copying v r d []) ?_ copies_meet) ?_
  · refine .cons hstart (guard_meets (Q := fun s => s = backupFrom v r d ∧ d = none) hstart ?_) ?_
    · rintro - s rfl hnone
      exact ⟨rfl, Option.isNone_iff_eq_none.mp hnone⟩
    refine .cons (fun s hs => hstart s hs.1) (guard_meets (fun s hs => hstart s hs.1)
      fun _ s hs _ => hs) ?_
    refine .cons (fun s hs => hstart s hs.1) stopService_meets ?_
    exact meets_single (fun s hs => orderly_of_down hs.1 hs.2.1 hs.2.2.1)
      (fun _ hs => hs.orderly) makeTmp_meets
  · refine .cons (fun _ hs => hs.orderly) (tmpHolds_meets _ _) ?_
    refine .cons (fun _ hs => hs.1.orderly) renameTmp_meets ?_
    exact meets_single (fun _ hs => hs.1) (fun _ hs => hs.1) (assign_meets (fun _ hs => hs.1)
      fun s hs => ⟨hs.1.set_tmp s.tmp false, hs.2⟩)

theorem backup_guarantees : backup.Guarantees (fun e => e.listed = true)
    (fun s => s = backupFrom v r d)
    (fun s => Orderly v r d s ∧ Complete v d s ∧ Settled r s)
    (fun s => Orderly v r d s ∧ True ∧ Settled r s) (Orderly v r d) (Orderly v r d) where
  body := ⟨_, backup_body, backup_trap (fun _ _ h => h) fun _ _ h => h⟩
  trap := (backup_trap (fun _ _ h => h) fun _ _ h => h).imp_pre fun _ hs => ⟨hs, trivial⟩

/-- However a backup goes, with any command failing and any signal or kill, as long as
`ps` lists a service that runs: the volume is not touched; a destination that is there
stays, and one that appears is a whole backup of the volume. When the script has come to
its end, the service is as it was unless it could not be started, and the temporary
directory it knew of is gone. If its body got through, the backup is there; if it exits
with 0, the service is as it was as well. -/
theorem backup_all_or_nothing (volume : Dir) (running : Bool) (destination : Option Dir)
    {evs : List (Event BackupTurn)} (hlisted : ∀ ev ∈ evs, ev.env.listed = true)
    {s : BackupState} {phase : Phase BackupTurn BackupState}
    (hrun : backup.run (backup.start (backupFrom volume running destination)) evs = (s, phase)) :
    s.volume = volume ∧
      (s.destination = destination ∨
        destination = none ∧ volume.isBackup = true ∧ s.destination = some (copyOf volume)) ∧
      (∀ ok, phase = .ended ok →
        (s.service.running = running ∨ s.service.startFailed = true) ∧
        (s.tmpSet = true → s.tmp = none) ∧
        (ok = true → s.destination = some (copyOf volume)) ∧
        (s.service.exitsZero ok = true → ok = true ∧ s.service.running = running)) := by
  have hknown := (backup_guarantees (v := volume) (r := running) (d := destination)).run rfl hlisted
  rw [hrun] at hknown
  cases phase with
  | body rest => exact ⟨hknown.2.volume, hknown.2.destination, by simp⟩
  | trap ok rest => exact ⟨hknown.volume, hknown.destination, by simp⟩
  | stopped => exact ⟨hknown.volume, hknown.destination, by simp⟩
  | ended ok =>
    cases ok with
    | false =>
      obtain ⟨⟨-, -, hback, hgone⟩, ho⟩ := hknown
      refine ⟨ho.volume, ho.destination, ?_⟩
      rintro - ⟨⟩
      exact ⟨hback, hgone, by simp, hback.of_exitsZero⟩
    | true =>
      obtain ⟨⟨-, hcomplete, hback, hgone⟩, ho⟩ := hknown
      refine ⟨ho.volume, ho.destination, ?_⟩
      rintro - ⟨⟩
      exact ⟨hback, hgone, fun _ => hcomplete.2.2, hback.of_exitsZero⟩

end

def sampleVolume : Dir
  | .db => some (.file [1] 0o644)
  | .masterKey => some (.file (List.replicate 32 7) 0o600)
  | .users => some (.file [2] 0o644)
  | _ => none

/-- Every command runs. -/
def calmBackup : List (Event BackupTurn) :=
  List.replicate 20 ⟨.runs, false, ⟨true, true, true, false, emptyDir, emptyDir⟩⟩

/-- The backup of a running service, with nothing in its way. -/
def sampleBackup : BackupState × Phase BackupTurn BackupState :=
  backup.run (backup.start (backupFrom sampleVolume true none)) calmBackup

theorem backup_all_or_nothing_calm :
    sampleBackup.1.destination = some (copyOf sampleVolume) ∧ sampleBackup.1.service.running = true := by
  have hlisted : ∀ ev ∈ calmBackup, ev.env.listed = true := by simp [calmBackup]
  have hend : sampleBackup = (sampleBackup.1, .ended true) := rfl
  obtain ⟨-, -, hended⟩ := backup_all_or_nothing sampleVolume true none hlisted hend
  obtain ⟨-, -, hdone, hzero⟩ := hended true rfl
  exact ⟨hdone rfl, (hzero rfl).2⟩

end TabbySync.Ops
