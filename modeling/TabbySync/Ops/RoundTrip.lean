import TabbySync.Ops.Restore

/-! # Restore with the service down

The outer part of `scripts/restore.sh`: it checks the backup, stops the service, pipes the
files into the shell in the container, and starts the service again from its exit trap.
With that, a backup that is restored gives the volume back.

The shell in the container is a process of its own. It may go on after the `docker compose
run` that waits for it has been cut short, and then the trap starts the service beside it;
so the results ask that `run` is over only once the shell is. -/

namespace TabbySync.Ops
open TabbySync.Library TabbySync.Library.Script
open TabbySync.Scrub (utf8)

/-! ## restore.sh -/

/-- `launched` says that there is a container, `overlapped` that its shell has been at work
while the service was running. -/
structure HostState where
  service : Service
  shell : RestoreState × Phase RestoreTurn RestoreState
  launched : Bool
  overlapped : Bool

/-- `launches` says that `run` gets to start the container, `sent` that the `tar` on the left
of the pipe succeeds; `inside` is what happens to the shell meanwhile. -/
structure HostTurn where
  configured : Bool
  listed : Bool
  starts : Bool
  made : Bool
  launches : Bool
  sent : Bool
  inside : List (Event RestoreTurn)

/-- The members of the archive. -/
def packed (source : Dir) : Dir := fun f => if f ∈ backupFiles then source f else none

section
variable (C : Container) (source : Dir)

/-- The shell goes on, if there is one. -/
def HostState.work (evs : List (Event RestoreTurn)) (s : HostState) : HostState :=
  if s.launched && !s.shell.2.isOver && !evs.isEmpty then
    { s with
      shell := (restoreInside C (packed source)).run s.shell evs
      overlapped := s.overlapped || s.service.running }
  else s

def HostState.launch (e : HostTurn) (s : HostState) : HostState :=
  if e.launches then HostState.work C source e.inside { s with launched := true } else s

/-- The pipeline, under `pipefail`. -/
def runInside : Command HostTurn HostState where
  run e s :=
    match (s.launch C source e).shell.2 with
    | .ended true => if e.sent then some (s.launch C source e) else none
    | _ => none
  cut e s := s.launch C source e

def restore : Script HostTurn HostState where
  body := [.guard fun _ _ => source.isBackup, .guard fun e _ => e.configured,
    { run := fun e s => some { s with service := s.service.stop e.listed }
      cut := fun e s => { s with service := s.service.stopCut e.listed e.made } },
    runInside C source]
  onExit := [.atomic HostTurn.made fun e s =>
    some (HostState.work C source e.inside
      { s with service := s.service.start e.starts e.made })]
  disarms := false

def hostFrom (volume : Dir) (probe : Option Entry) (running : Bool) : HostState where
  service := ⟨running, false, false⟩
  shell := (restoreInside C (packed source)).start (restoreFrom volume probe)
  launched := false
  overlapped := false

/-- A `run` that starts a container is over only once the shell in it has got to its end:
the shell is not killed and its trap does not fail. -/
def EndsInside (volume : Dir) (probe : Option Entry) (e : HostTurn) : Prop :=
  e.launches = true → ∃ ok, ((restoreInside C (packed source)).run
    ((restoreInside C (packed source)).start (restoreFrom volume probe)) e.inside).2 = .ended ok

end

section
variable {C : Container} {source volume : Dir} {probe : Option Entry} {r : Bool}

/-- What holds throughout: the volume is whole, and no shell is at work between two commands
or has been while the service ran. -/
structure OffLine (C : Container) (source volume : Dir) (r : Bool) (s : HostState) : Prop where
  service : s.service.From r
  whole : s.shell.1.data = volume ∨ Restored C (packed source) s.shell.1.data s.shell.1.probe
  cleared : Cleared s.shell.1
  idle : s.launched = true → s.shell.2.isOver = true
  alone : s.overlapped = false

theorem work_of_over (C : Container) (source : Dir) {s : HostState}
    (h : s.launched = true → s.shell.2.isOver = true) (evs : List (Event RestoreTurn)) :
    HostState.work C source evs s = s := by
  refine if_neg fun hgoes => ?_
  simp only [Bool.and_eq_true, Bool.not_eq_true'] at hgoes
  rw [h hgoes.1.1] at hgoes
  cases hgoes.1.2

/-- With the service down, the state in which `run` begins. -/
def beforeRun (C : Container) (source volume : Dir) (probe : Option Entry) (r : Bool) :
    HostState :=
  { hostFrom C source volume probe r with service := ⟨false, r, false⟩ }

/-- Before there is a container. -/
theorem offLine_of_service {service : Service} (h : service.From r) :
    OffLine C source volume r { hostFrom C source volume probe r with service := service } where
  service := h
  whole := .inl rfl
  cleared := ⟨.inl rfl, .inl rfl⟩
  idle h := by cases h
  alone := rfl

/-- The shell goes to work with the service down. -/
theorem work_beforeRun {evs : List (Event RestoreTurn)} (h : evs.isEmpty = false) :
    HostState.work C source evs { beforeRun C source volume probe r with launched := true } =
      { beforeRun C source volume probe r with
        launched := true
        shell := (restoreInside C (packed source)).run
          ((restoreInside C (packed source)).start (restoreFrom volume probe)) evs } := by
  refine (if_pos ?_).trans rfl
  rw [h]
  rfl

/-- A shell that ends with the service down. -/
theorem launch_beforeRun (hvolume : ∀ f, volume f ≠ some .symlink) {e : HostTurn}
    (he : EndsInside C source volume probe e) :
    OffLine C source volume r ((beforeRun C source volume probe r).launch C source e) ∧
      (((beforeRun C source volume probe r).launch C source e).shell.2 = .ended true →
        Done C (packed source) ((beforeRun C source volume probe r).launch C source e).shell.1) := by
  unfold HostState.launch
  split
  · rename_i hlaunches
    obtain ⟨ok, hended⟩ := he hlaunches
    have hgoes : e.inside.isEmpty = false := by
      cases hinside : e.inside with
      | nil =>
        rw [hinside] at hended
        cases hended
      | cons ev evs => rfl
    have hknown := restoreInside_known C (packed source) probe hvolume e.inside
    rw [hended] at hknown
    rw [work_beforeRun hgoes]
    cases ok with
    | true =>
      refine ⟨⟨Service.from_down r, .inr hknown.1.restored, hknown.1.cleared, fun _ => ?_, rfl⟩,
        fun _ => hknown.1⟩
      exact congrArg Phase.isOver hended
    | false =>
      refine ⟨⟨Service.from_down r, hknown.1.1, hknown.1.2, fun _ => ?_, rfl⟩, fun htrue => ?_⟩
      · exact congrArg Phase.isOver hended
      · cases hended.symm.trans htrue
  · exact ⟨offLine_of_service (Service.from_down r), fun hended => by cases hended⟩

theorem runInside_meets (hvolume : ∀ f, volume f ≠ some .symlink) :
    (runInside C source).Meets (fun e => e.listed = true ∧ EndsInside C source volume probe e)
      (fun s => s = beforeRun C source volume probe r)
      (fun s => OffLine C source volume r s ∧ Done C (packed source) s.shell.1)
      (OffLine C source volume r) := by
  constructor
  · rintro e s s' ⟨-, he⟩ rfl hrun
    obtain ⟨hoff, hdone⟩ := launch_beforeRun (r := r) hvolume he
    simp only [runInside] at hrun
    split at hrun
    · rename_i hended
      split at hrun
      · cases hrun
        exact ⟨hoff, hdone hended⟩
      · cases hrun
    · cases hrun
  · rintro e s ⟨-, he⟩ rfl
    exact (launch_beforeRun hvolume he).1

theorem restore_guarantees (hvolume : ∀ f, volume f ≠ some .symlink) :
    (restore C source).Guarantees (fun e => e.listed = true ∧ EndsInside C source volume probe e)
      (fun s => s = hostFrom C source volume probe r)
      (fun s => OffLine C source volume r s ∧ Done C (packed source) s.shell.1 ∧ s.service.Back r)
      (fun s => OffLine C source volume r s ∧ True ∧ s.service.Back r)
      (OffLine C source volume r) (OffLine C source volume r) := by
  have hstart : ∀ s, s = hostFrom C source volume probe r → OffLine C source volume r s := by
    rintro s rfl
    exact offLine_of_service (Service.from_begin r)
  -- the trap, whatever the volume has come to
  have htrap : ∀ K : RestoreState → Prop,
      Meets (fun e => e.listed = true ∧ EndsInside C source volume probe e)
        (fun s => OffLine C source volume r s ∧ K s.shell.1)
        (fun s => OffLine C source volume r s ∧ K s.shell.1 ∧ s.service.Back r)
        (OffLine C source volume r) (restore C source).onExit := by
    intro K
    refine meets_single (fun _ hs => hs.1) (fun _ hs => hs.1)
      (atomic_meets (fun _ hs => hs.1) (fun _ hs => hs.1) ?_)
    rintro e s s' - ⟨hs, hk⟩ hrun
    -- no shell is left that could go on
    have hstill := work_of_over C source
      (s := { s with service := s.service.start e.starts e.made }) hs.idle e.inside
    rw [hstill, Option.some.injEq] at hrun
    subst hrun
    obtain ⟨hfrom, hback⟩ := hs.service.start e.starts e.made
    exact ⟨⟨hfrom, hs.whole, hs.cleared, hs.idle, hs.alone⟩, hk, hback⟩
  refine ⟨⟨_, ?_, htrap (Done C (packed source))⟩,
    (htrap fun _ => True).imp_pre fun _ hs => ⟨hs, trivial⟩⟩
  refine .cons hstart (guard_meets hstart fun _ s hs _ => hs) ?_
  refine .cons hstart (guard_meets hstart fun _ s hs _ => hs) ?_
  refine .cons hstart (M := fun s => s = beforeRun C source volume probe r) ⟨?_, ?_⟩ ?_
  · rintro e s s' ⟨he, -⟩ rfl hrun
    cases hrun
    simp only [beforeRun, hostFrom, he, Service.stop_listed]
  · rintro e s - rfl
    exact offLine_of_service (Service.from_stopCut r e.listed e.made)
  refine meets_single ?_ (fun _ hs => hs.1) (runInside_meets hvolume)
  rintro s rfl
  exact offLine_of_service (Service.from_down r)

/-- Around the shell in the container, as long as `docker compose run` is over only once the
shell has come to its end, and `ps` lists a service that runs: the shell never works on the
volume while the service runs, and is over whenever the outer script is between two
commands; the files are then as they were or restored, with no directory left but an empty
one whose `mktemp` was cut short. When the script has come to its end, the service is as it
was unless it could not be started; if its body got through, the files are restored and no
directory is left; if it exits with 0, the service is as it was as well. -/
theorem restore_off_line (C : Container) (source volume : Dir) (probe : Option Entry)
    (running : Bool) (hvolume : ∀ f, volume f ≠ some .symlink) {evs : List (Event HostTurn)}
    (hevs : ∀ ev ∈ evs, ev.env.listed = true ∧ EndsInside C source volume probe ev.env)
    {s : HostState} {phase : Phase HostTurn HostState}
    (hrun : (restore C source).run
      ((restore C source).start (hostFrom C source volume probe running)) evs = (s, phase)) :
    (s.overlapped = false ∧ (s.launched = true → s.shell.2.isOver = true)) ∧
      ((s.shell.1.data = volume ∨
        Restored C (packed source) s.shell.1.data s.shell.1.probe) ∧ Cleared s.shell.1) ∧
      (∀ ok, phase = .ended ok →
        (s.service.running = running ∨ s.service.startFailed = true) ∧
        (ok = true → Restored C (packed source) s.shell.1.data s.shell.1.probe ∧
          s.shell.1.newDir = none ∧ s.shell.1.oldDir = none) ∧
        (s.service.exitsZero ok = true → ok = true ∧ s.service.running = running)) := by
  have hknown := (restore_guarantees (r := running) hvolume).run rfl hevs
  rw [hrun] at hknown
  -- what holds in every phase
  have hoff : OffLine C source volume running s := by
    cases phase with
    | body rest => exact hknown.2
    | trap ok rest => exact hknown
    | stopped => exact hknown
    | ended ok =>
      cases ok with
      | false => exact hknown.2
      | true => exact hknown.2
  refine ⟨⟨hoff.alone, hoff.idle⟩, ⟨hoff.whole, hoff.cleared⟩, ?_⟩
  rintro ok rfl
  cases ok with
  | false =>
    obtain ⟨⟨-, -, hback⟩, -⟩ := hknown
    exact ⟨hback, by simp, hback.of_exitsZero⟩
  | true =>
    obtain ⟨⟨-, hdone, hback⟩, -⟩ := hknown
    exact ⟨hback, fun _ => ⟨hdone.restored, hdone.noNew, hdone.noOld⟩, hback.of_exitsZero⟩

/-! ## There and back -/

theorem packed_copyOf (v : Dir) : packed (copyOf v) = copyOf v := by
  funext f
  by_cases hf : f ∈ backupFiles
  · rw [packed, if_pos hf]
  · rw [packed, if_neg hf, copyOf, copied, if_neg hf]

theorem copyOf_copyOf (v : Dir) : copyOf (copyOf v) = copyOf v := by
  funext f
  by_cases hf : f ∈ backupFiles
  · simp only [copyOf, copied, if_pos hf, chmod_again]
  · simp only [copyOf, copied, if_neg hf]

/-- A database without a log or a journal is copied with its one file. -/
theorem database_copyOf {v : Dir} (h : ∀ f ∈ sqliteFiles, f ≠ .db → v f = none) :
    (copyOf v).database = v.database := by
  funext f
  rw [Dir.database, Dir.database]
  split
  · rename_i hf
    by_cases hdb : f = .db
    · subst hdb
      rw [copyOf, copied, if_pos (by decide)]
      rcases v .db with _ | _ | _ | _ <;> rfl
    · have hnone := h f hf hdb
      rw [copyOf, copied, hnone, Option.map_none, ite_self]
  · rfl

/-- A backup and a restore of it, whose bodies both get through, whatever has happened on
the way and whatever volume it is restored to: that volume then has the key and the users
of the first one, no token, and a database, all with mode 600. What opening a database keeps
(`rows`), that database has from the copied file, and so from the first volume if its
database had neither a log nor a journal beside it. No directory is left, and of the
doctor at most its probe. -/
theorem backup_restore_roundtrip {α : Type} {C : Container} (rows : (FileName → Option Bytes) → α)
    (hrows : ∀ files files', C.host.sqliteOpen (FileName.path .db) files = .ok files' →
      rows (databaseIn files') = rows (databaseIn files))
    {volume other : Dir} {probe : Option Entry} {running running' : Bool}
    {evs : List (Event BackupTurn)} {evs' : List (Event HostTurn)} {b : BackupState} {source : Dir}
    {s : HostState} (hlisted : ∀ ev ∈ evs, ev.env.listed = true)
    (hbackup : backup.run (backup.start (backupFrom volume running none)) evs = (b, .ended true))
    (hsource : b.destination = some source) (hother : ∀ f, other f ≠ some .symlink)
    (hevs' : ∀ ev ∈ evs', ev.env.listed = true ∧ EndsInside C source other probe ev.env)
    (hrestore : (restore C source).run
      ((restore C source).start (hostFrom C source other probe running')) evs' =
        (s, .ended true)) :
    volume.isBackup = true ∧
      (∀ f, f ∉ sqliteFiles → s.shell.1.data f = copyOf volume f) ∧
      (∃ bytes, s.shell.1.data .db = some (.file bytes 0o600)) ∧
      (∀ f bytes mode, s.shell.1.data f = some (.file bytes mode) → mode = 0o600) ∧
      rows s.shell.1.data.database = rows (copyOf volume).database ∧
      ((∀ f ∈ sqliteFiles, f ≠ .db → volume f = none) →
        rows s.shell.1.data.database = rows volume.database) ∧
      (s.shell.1.newDir = none ∧ s.shell.1.oldDir = none) ∧
      (s.shell.1.probe = none ∨ s.shell.1.probe = some (.file (utf8 "ok") 0o600)) := by
  have hcopy := (backup_guarantees (v := volume) (r := running) (d := none)).run rfl hlisted
  rw [hbackup] at hcopy
  obtain ⟨⟨-, ⟨-, hvalid, hdest⟩, -⟩, -⟩ := hcopy
  rw [hdest, Option.some.injEq] at hsource
  subst hsource
  have hknown := (restore_guarantees (r := running') hother).run rfl hevs'
  rw [hrestore] at hknown
  obtain ⟨⟨-, hdone, -⟩, -⟩ := hknown
  have hrestored := hdone.restored
  rw [packed_copyOf] at hrestored
  -- opening the copied file keeps what is read from it
  have hread : rows s.shell.1.data.database = rows (copyOf volume).database := by
    obtain ⟨files, files', hopen, hbefore, hafter⟩ := hrestored.opened
    rw [copyOf_copyOf] at hbefore
    rw [← hafter, hrows files files' hopen, hbefore]
  refine ⟨hvalid, fun f hf => ?_, hrestored.db, fun f bytes mode => hrestored.mode, hread,
    fun hclean => ?_, ⟨hdone.noNew, hdone.noOld⟩, hrestored.probe_left⟩
  · rw [hrestored.copy hf, copyOf_copyOf]
  · rw [hread, database_copyOf hclean]

end

/-- The backup of the sample volume is restored elsewhere, with nothing in its way. -/
def calmRestore : List (Event HostTurn) :=
  List.replicate 8 ⟨.runs, false, ⟨true, true, true, false, true, true, calmInside 26 true⟩⟩

def sampleRestore : HostState × Phase HostTurn HostState :=
  (restore sampleContainer (copyOf sampleVolume)).run
    ((restore sampleContainer (copyOf sampleVolume)).start
      (hostFrom sampleContainer (copyOf sampleVolume) otherVolume none true)) calmRestore

theorem calmRestore_ends : ∀ ev ∈ calmRestore, ev.env.listed = true ∧
    EndsInside sampleContainer (copyOf sampleVolume) otherVolume none ev.env := by
  intro ev hev
  rw [List.eq_of_mem_replicate hev]
  exact ⟨rfl, fun _ => ⟨true, rfl⟩⟩

theorem restore_off_line_calm : sampleRestore.1.overlapped = false ∧
    Restored sampleContainer (packed (copyOf sampleVolume)) sampleRestore.1.shell.1.data
      sampleRestore.1.shell.1.probe := by
  have hend : sampleRestore = (sampleRestore.1, .ended true) := rfl
  obtain ⟨halone, -, hended⟩ := restore_off_line sampleContainer (copyOf sampleVolume) otherVolume
    none true otherVolume_plain calmRestore_ends hend
  exact ⟨halone.1, ((hended true rfl).2.1 rfl).1⟩

/-- A client that dies while its shell is at work: the trap starts the service, and the
shell goes on beside it. -/
def deserted : List (Event HostTurn) :=
  List.replicate 3 ⟨.runs, false, ⟨true, true, true, false, true, true, []⟩⟩ ++
    [⟨.exits, true, ⟨true, true, true, false, true, true, calmInside 12 true⟩⟩,
      ⟨.runs, false, ⟨true, true, true, false, true, true, calmInside 1 true⟩⟩]

example : ((restore sampleContainer (copyOf sampleVolume)).run
    ((restore sampleContainer (copyOf sampleVolume)).start
      (hostFrom sampleContainer (copyOf sampleVolume) otherVolume none true))
    deserted).1.overlapped = true := rfl

theorem backup_restore_roundtrip_calm :
    sampleRestore.1.shell.1.data .users = some (.file [2] 0o600) ∧
    sampleRestore.1.shell.1.data .token = none ∧
    sampleRestore.1.shell.1.data.database .db = sampleVolume.database .db := by
  have hlisted : ∀ ev ∈ calmBackup, ev.env.listed = true := by simp [calmBackup]
  have hbackup : sampleBackup = (sampleBackup.1, .ended true) := rfl
  have hsource : sampleBackup.1.destination = some (copyOf sampleVolume) :=
    congrArg some (funext fun f => by cases f <;> rfl)
  have hrestore : sampleRestore = (sampleRestore.1, .ended true) := rfl
  have hrows : ∀ files files',
      sampleContainer.host.sqliteOpen (FileName.path .db) files = .ok files' →
      databaseIn files' .db = databaseIn files .db := by
    intro files files' hopen
    rw [(openPlainly_ok hopen).1]
  have hclean : ∀ f ∈ sqliteFiles, f ≠ .db → sampleVolume f = none := by decide
  obtain ⟨-, hcopy, -, -, -, hread, -⟩ := backup_restore_roundtrip (fun d => d .db) hrows hlisted
    hbackup hsource otherVolume_plain calmRestore_ends hrestore
  exact ⟨hcopy .users (by decide), hcopy .token (by decide), hread hclean⟩

end TabbySync.Ops
