import TabbySync.Cli.Doctor
import TabbySync.Ops.Backup

/-! # The doctor in the container

`scripts/restore.sh` lets `tabby-sync doctor` have a look at the files it has installed.
The scripts know a volume by names and modes, the doctor by paths: it runs on what the
container shows of the volume, and what it changes there is changed in the volume. -/

namespace TabbySync.Ops
open TabbySync.Startup
open TabbySync.Scrub (utf8)

/-! ## Names and paths -/

/-- The names that `restore.sh` moves out of the way. -/
def movedFiles : List FileName := [.db, .wal, .shm, .journal, .masterKey, .users, .token]

/-- The files SQLite writes. -/
def sqliteFiles : List FileName := [.db, .wal, .shm, .journal]

def volumeDir : String := "/data"

def FileName.path (f : FileName) : String := volumeDir ++ "/" ++ f.name

def probePath : String := volumeDir ++ "/.doctor-probe"

theorem mem_movedFiles (f : FileName) : f ∈ movedFiles := by cases f <;> simp [movedFiles]

theorem FileName.path_injective {f g : FileName} (h : f.path = g.path) : f = g := by
  cases f <;> cases g <;> first | rfl | exact absurd h (by decide +kernel)

theorem FileName.path_ne_probe (f : FileName) : f.path ≠ probePath := by
  cases f <;> decide +kernel

theorem FileName.path_ne_dir (f : FileName) : f.path ≠ volumeDir := by
  cases f <;> decide +kernel

/-! ## Files as the doctor sees them -/

/-- The owner may read a file whose mode says so. -/
def Entry.node : Entry → Node
  | .file bytes mode => .file bytes (mode.testBit 8)
  | .symlink => .hidden
  | .directory => .dir 0

/-- What was written under `umask 077`, or by `sqlite.Open`, which sets the mode. -/
def ofNode : Node → Entry
  | .file bytes _ => .file bytes 0o600
  | .hidden => .symlink
  | .dir _ => .directory

/-- The volume after some of its files were written. -/
def Dir.updatedBy (d : Dir) (files : Files) : Dir := fun f =>
  if files f.path = (d f).map Entry.node then d f else (files f.path).map ofNode

/-- A container of the service, with the environment of docker-compose.yml. About SQLite
it is known that it writes no other files than the database's own and leaves a
database. -/
structure Container where
  host : Host
  getenv : Environment
  /-- What there is beside the files of the volume. -/
  outside : Files
  dataDir : getenv envDataDir = volumeDir
  usersFile : getenv envUsersFile = FileName.path .users
  provider : getenv envMasterKeyProvider = "file"
  join_name : ∀ f : FileName, host.join volumeDir f.name = f.path
  join_probe : host.join volumeDir ".doctor-probe" = probePath
  own : ∀ files files', host.sqliteOpen (FileName.path .db) files = .ok files' →
    ∀ path, (∀ f ∈ sqliteFiles, path ≠ f.path) → files' path = files path
  opened : ∀ files files', host.sqliteOpen (FileName.path .db) files = .ok files' →
    ∃ bytes, files' (FileName.path .db) = some (.file bytes true)

def Container.files (C : Container) (d : Dir) (probe : Option Entry) : Files := fun path =>
  if path = volumeDir then some (.dir 0)
  else if path = probePath then probe.map Entry.node
  else match movedFiles.find? fun f => f.path = path with
    | some f => (d f).map Entry.node
    | none => C.outside path

/-- `os.WriteFile` of the probe and `os.Remove`, whose error is ignored. -/
def probing (writes removes : Bool) (path : String) (files : Files) : Option Files :=
  if writes then
    some (Function.update files path (if removes then none else some (.file (utf8 "ok") true)))
  else none

/-- `tabby-sync doctor` on a volume. -/
def Container.doctor (C : Container) (writes removes : Bool) (d : Dir) (probe : Option Entry) :
    Doctor.Report :=
  Doctor.runDoctor C.host (probing writes removes) C.getenv (C.files d probe)

/-! ## What a doctor that exits with 0 leaves -/

section
variable {C : Container} {d : Dir} {probe : Option Entry}

theorem Container.files_path (f : FileName) : C.files d probe f.path = (d f).map Entry.node := by
  have hfind : movedFiles.find? (fun g => g.path = f.path) = some f := by
    cases f <;> decide +kernel
  rw [Container.files, if_neg f.path_ne_dir, if_neg f.path_ne_probe, hfind]

/-- The doctor has opened the database, on files that only its probe has touched. -/
theorem Container.doctor_ok {writes removes : Bool}
    (h : (C.doctor writes removes d probe).code = 0) :
    ∃ files, C.host.sqliteOpen (FileName.path .db) files =
        .ok (C.doctor writes removes d probe).files ∧
      (∀ f : FileName, files f.path = (d f).map Entry.node) ∧
      (files probePath = none ∨ files probePath = some (.file (utf8 "ok") true)) := by
  obtain ⟨files, -, -, hprobe, -, -, hopen⟩ := Doctor.runDoctor_ok h
  rw [C.dataDir, C.join_probe, probing] at hprobe
  rw [C.dataDir, dbPath, show dbFilename = FileName.name .db from rfl, C.join_name] at hopen
  refine ⟨files, hopen, ?_⟩
  split at hprobe
  · cases hprobe
    refine ⟨fun f => ?_, ?_⟩
    · rw [Function.update_of_ne f.path_ne_probe, Container.files_path]
    · rw [Function.update_self]
      cases removes with
      | true => exact .inl rfl
      | false => exact .inr rfl
  · cases hprobe

end

/-! ## The contents of a database -/

def Entry.bytes : Entry → Option Bytes
  | .file bytes _ => some bytes
  | _ => none

def nodeBytes : Node → Option Bytes
  | .file bytes _ => some bytes
  | _ => none

/-- The contents of the database's files. -/
def databaseIn (files : Files) : FileName → Option Bytes := fun f =>
  if f ∈ sqliteFiles then (files f.path).bind nodeBytes else none

def Dir.database (d : Dir) : FileName → Option Bytes := fun f =>
  if f ∈ sqliteFiles then (d f).bind Entry.bytes else none

theorem nodeBytes_node (entry : Entry) : nodeBytes entry.node = entry.bytes := by
  cases entry <;> rfl

theorem bytes_ofNode (node : Node) : (ofNode node).bytes = nodeBytes node := by
  cases node <;> rfl

theorem bind_bytes_node (entry : Option Entry) :
    (entry.map Entry.node).bind nodeBytes = entry.bind Entry.bytes := by
  cases entry with
  | none => rfl
  | some entry => exact nodeBytes_node entry

theorem databaseIn_of_shown {d : Dir} {files : Files}
    (h : ∀ f : FileName, files f.path = (d f).map Entry.node) : databaseIn files = d.database := by
  funext f
  rw [databaseIn, Dir.database, h, bind_bytes_node]

theorem database_updatedBy (d : Dir) (files : Files) :
    (d.updatedBy files).database = databaseIn files := by
  funext f
  rw [databaseIn, Dir.database, Dir.updatedBy]
  split
  · split
    · rename_i hsame
      rw [hsame, bind_bytes_node]
    · cases files f.path with
      | none => rfl
      | some node => exact bytes_ofNode node
  · rfl

/-! ## A restored volume -/

/-- The volume holds the backup, as a doctor that passed it has left it. -/
def Restored (C : Container) (archive data : Dir) (probe : Option Entry) : Prop :=
  archive.isBackup = true ∧ ∃ writes removes before,
    (C.doctor writes removes (copyOf archive) before).code = 0 ∧
    data = (copyOf archive).updatedBy (C.doctor writes removes (copyOf archive) before).files ∧
    probe = ((C.doctor writes removes (copyOf archive) before).files probePath).map ofNode

section
variable {C : Container} {archive data : Dir} {probe : Option Entry}

/-- What is not the database's is as it was in the backup. -/
theorem Restored.copy (h : Restored C archive data probe) {f : FileName} (hf : f ∉ sqliteFiles) :
    data f = copyOf archive f := by
  obtain ⟨-, writes, removes, before, hcode, rfl, -⟩ := h
  obtain ⟨files, hopen, hshown, -⟩ := C.doctor_ok hcode
  have hsame := C.own _ _ hopen f.path fun g hg hpath => hf (FileName.path_injective hpath ▸ hg)
  rw [Dir.updatedBy, if_pos (hsame.trans (hshown f))]

/-- The database is the one of the backup after it was opened. -/
theorem Restored.opened (h : Restored C archive data probe) :
    ∃ files files', C.host.sqliteOpen (FileName.path .db) files = .ok files' ∧
      databaseIn files = (copyOf archive).database ∧ databaseIn files' = data.database := by
  obtain ⟨-, writes, removes, before, hcode, rfl, -⟩ := h
  obtain ⟨files, hopen, hshown, -⟩ := C.doctor_ok hcode
  exact ⟨files, _, hopen, databaseIn_of_shown hshown, (database_updatedBy _ _).symm⟩

/-- All files have the mode that the script and `sqlite.Open` give them. -/
theorem Restored.mode (h : Restored C archive data probe) {f : FileName} {bytes : Bytes}
    {mode : Nat} (hf : data f = some (.file bytes mode)) : mode = 0o600 := by
  obtain ⟨-, writes, removes, before, hcode, rfl, -⟩ := h
  rw [Dir.updatedBy] at hf
  split at hf
  · rw [copyOf, copied] at hf
    split at hf
    · obtain ⟨entry, -, hentry⟩ := Option.map_eq_some_iff.mp hf
      cases entry with
      | file bytes' mode' =>
        cases hentry
        rfl
      | symlink => cases hentry
      | directory => cases hentry
    · cases hf
  · obtain ⟨node, -, hnode⟩ := Option.map_eq_some_iff.mp hf
    cases node with
    | file bytes' readable =>
      cases hnode
      rfl
    | hidden => cases hnode
    | dir size => cases hnode

/-- There is a database. -/
theorem Restored.db (h : Restored C archive data probe) :
    ∃ bytes, data .db = some (.file bytes 0o600) := by
  obtain ⟨files, files', hopen, -, hdata⟩ := h.opened
  obtain ⟨bytes, hbytes⟩ := C.opened _ _ hopen
  have hdb : (data .db).bind Entry.bytes = some bytes := by
    have hsame := congrFun hdata .db
    rw [databaseIn, if_pos (by decide), hbytes, Dir.database, if_pos (by decide)] at hsame
    exact hsame.symm
  obtain ⟨entry, hentry, hfile⟩ := Option.bind_eq_some_iff.mp hdb
  cases entry with
  | file bytes' mode => exact ⟨bytes', by rw [hentry, h.mode hentry]⟩
  | symlink => cases hfile
  | directory => cases hfile

/-- The probe is gone, or could not be removed. -/
theorem Restored.probe_left (h : Restored C archive data probe) :
    probe = none ∨ probe = some (.file (utf8 "ok") 0o600) := by
  obtain ⟨-, writes, removes, before, hcode, -, rfl⟩ := h
  obtain ⟨files, hopen, -, hprobe⟩ := C.doctor_ok hcode
  rw [C.own _ _ hopen probePath fun f _ => f.path_ne_probe.symm]
  rcases hprobe with hprobe | hprobe
  · rw [hprobe]
    exact .inl rfl
  · rw [hprobe]
    exact .inr rfl

end

end TabbySync.Ops
