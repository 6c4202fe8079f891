import TabbySync.Cli.Scrub

/-! # The doctor

`tabby-sync doctor` checks by hand what `serve` will load: it has its own default for the
users file, looks at the length of a key in the environment and at the size of a key
file, and does not look at the log level. What it says about the server is
`doctor_sound_iff`. -/

namespace TabbySync.Doctor
open TabbySync.Library.Text TabbySync.Auth TabbySync.Startup
open TabbySync.Scrub (utf8 scrubPaths)

/-- One line of the report; a failure counts as an issue. -/
inductive Verdict
  | ok (text : Bytes)
  | fail (text : Bytes)
  deriving DecidableEq, Repr

def Verdict.line : Verdict → Bytes
  | .ok text => utf8 "  [OK]   " ++ text ++ utf8 "\n"
  | .fail text => utf8 "  [FAIL] " ++ text ++ utf8 "\n"

def Verdict.isOk : Verdict → Bool
  | .ok _ => true
  | .fail _ => false

section
variable (H : Host)

/-- `probe` is the files after a file has been written in the data directory and removed
again, `none` if it cannot be written. -/
def checkDataDir (probe : String → Files → Option Files) (dataDir : String) (files : Files) :
    Verdict × Files :=
  if dataDir = "" then (.fail (utf8 "TABBY_SYNC_DATA_DIR is not set"), files)
  else match stat files dataDir with
    | none => (.fail (utf8 ("data directory does not exist: " ++ dataDir)), files)
    | some node =>
      if !node.isDir then (.fail (utf8 ("data directory is not a directory: " ++ dataDir)), files)
      else match probe (H.join dataDir ".doctor-probe") files with
        | none => (.fail (utf8 ("data directory is not writable: " ++ dataDir)), files)
        | some files' => (.ok (utf8 "data directory exists and is writable"), files')

/-- The doctor's own default, next to the database. -/
def usersFilePath (getenv : Environment) : String :=
  if getenv envUsersFile = "" ∧ getenv envDataDir ≠ "" then H.join (getenv envDataDir) "users.yml"
  else getenv envUsersFile

/-- `none` when the loader panics. -/
def checkUsersFile (path : String) (files : Files) : Option Verdict :=
  if path = "" then
    some (.fail (utf8 "TABBY_SYNC_USERS_FILE is not set and TABBY_SYNC_DATA_DIR is empty"))
  else match loadUsers H files path with
    | .ok users =>
      some (.ok (utf8 ("users file loaded (" ++ toString users.ordered.length ++ " users)")))
    | .error e => some (.fail (utf8 ("users file: " ++ e.message)))
    | .panic _ => none

def checkMasterKey (getenv : Environment) (files : Files) : Verdict :=
  let provider := getenv envMasterKeyProvider
  if provider = "" then .fail (utf8 "TABBY_SYNC_MASTER_KEY_PROVIDER is not set")
  else if provider = "file" then
    if getenv envDataDir = "" then
      .fail (utf8 "cannot check master key file without TABBY_SYNC_DATA_DIR")
    else match stat files (masterKeyPath H (getenv envDataDir)) with
      | none => .fail (utf8 "master key file does not exist")
      | some node =>
        if node.size ≠ Keys.masterKeySize then
          .fail (utf8 "master key file has wrong size (want 32 bytes)")
        else .ok (utf8 "master key file exists and has correct size")
  else if provider = "env" then
    if getenv envMasterKey = "" then .fail (utf8 "TABBY_SYNC_MASTER_KEY is not set (provider=env)")
    else if byteLength (getenv envMasterKey) ≠ Keys.masterKeySize * 2 then
      .fail (utf8 "TABBY_SYNC_MASTER_KEY has wrong length (want 64 hex chars)")
    else .ok (utf8 "master key env var is set with correct length")
  else .fail (utf8 ("unknown TABBY_SYNC_MASTER_KEY_PROVIDER: " ++ provider ++ " (want file|env)"))

def checkDatabase (dataDir : String) (files : Files) : List Verdict × Files :=
  if dataDir = "" then ([], files)
  else
    match H.sqliteOpen (dbPath H dataDir) files with
    | .error e =>
      ([.fail (utf8 "database cannot be opened: " ++
        scrubPaths .insertion (utf8 e.message) [utf8 dataDir, utf8 (dbPath H dataDir)])], files)
    | .ok files' => ([.ok (utf8 "database opened successfully (schema up to date)")], files')

structure Report where
  code : Nat
  output : List Bytes
  files : Files

/-- The exit code of a panic. -/
def panicCode : Nat := 2

def runDoctor (probe : String → Files → Option Files) (getenv : Environment) (files : Files) :
    Report :=
  let (dataDir, files₁) := checkDataDir H probe (getenv envDataDir) files
  match checkUsersFile H (usersFilePath H getenv) files₁ with
  | none => ⟨panicCode, [utf8 "Checking environment...\n", dataDir.line], files₁⟩
  | some users =>
    let key := checkMasterKey H getenv files₁
    let (database, files₂) := checkDatabase H (getenv envDataDir) files₁
    let verdicts := [dataDir, users, key] ++ database
    let issues := verdicts.countP fun v => !v.isOk
    let lines := utf8 "Checking environment...\n" :: verdicts.map Verdict.line ++ [utf8 "\n"]
    if issues = 0 then ⟨0, lines ++ [utf8 "All checks passed.\n"], files₂⟩
    else ⟨1, lines ++ [utf8 (toString issues ++ " issue(s) found.\n")], files₂⟩

end

/-! ## What a passed check tells -/

section
variable {H : Host} {probe : String → Files → Option Files} {getenv : Environment}
  {files : Files}

theorem checkDataDir_ok {dataDir : String} (h : (checkDataDir H probe dataDir files).1.isOk = true) :
    dataDir ≠ "" ∧ probe (H.join dataDir ".doctor-probe") files =
      some (checkDataDir H probe dataDir files).2 := by
  unfold checkDataDir at h ⊢
  split at h; · cases h
  rename_i hset
  split at h; · cases h
  rename_i node hstat
  split at h; · cases h
  rename_i hdir
  split at h; · cases h
  rename_i hprobe
  refine ⟨hset, ?_⟩
  simp only [if_neg hset, if_neg hdir, hprobe]

theorem checkUsersFile_ok {path : String} {v : Verdict} (h : checkUsersFile H path files = some v)
    (hok : v.isOk = true) : ∃ users, loadUsers H files path = .ok users := by
  unfold checkUsersFile at h
  split at h
  · cases h
    cases hok
  · split at h
    · exact ⟨_, ‹_›⟩
    · cases h
      cases hok
    · cases h

theorem checkDatabase_ok {dataDir : String} (hdir : dataDir ≠ "")
    (h : ∀ v ∈ (checkDatabase H dataDir files).1, v.isOk = true) :
    H.sqliteOpen (dbPath H dataDir) files = .ok (checkDatabase H dataDir files).2 := by
  unfold checkDatabase at h ⊢
  rw [if_neg hdir] at h ⊢
  split at h
  · exact absurd (h _ (List.mem_singleton.mpr rfl)) (by simp [Verdict.isOk])
  · rename_i hopen
    simp only [hopen]

/-- What the doctor knows of the key: a provider it knows, and the right length. -/
inductive KeyShape (H : Host) (getenv : Environment) (files : Files) : Prop
  | file (provider : getenv envMasterKeyProvider = "file") {node : Node}
      (found : files (masterKeyPath H (getenv envDataDir)) = some node)
      (size : node.size = Keys.masterKeySize)
  | env (provider : getenv envMasterKeyProvider = "env")
      (length : byteLength (getenv envMasterKey) = 2 * Keys.masterKeySize)

theorem stat_some {path : String} {node : Node} (h : stat files path = some node) :
    files path = some node := by
  unfold stat at h
  split at h
  · cases h
  · exact h

theorem checkMasterKey_ok (h : (checkMasterKey H getenv files).isOk = true) :
    KeyShape H getenv files := by
  unfold checkMasterKey at h
  simp only at h
  split at h; · cases h
  split at h
  · rename_i hfile
    split at h; · cases h
    split at h; · cases h
    rename_i node hstat
    split at h; · cases h
    rename_i hsize
    exact .file hfile (stat_some hstat) (not_not.mp hsize)
  · split at h
    · rename_i henv
      split at h; · cases h
      split at h; · cases h
      rename_i hlen
      exact .env henv (by rw [not_not.mp hlen, Nat.mul_comm])
    · cases h

/-- A doctor that exits 0 has seen all its checks pass, on the files `files₁` that its
probe left. -/
theorem runDoctor_ok (h : (runDoctor H probe getenv files).code = 0) :
    ∃ files₁ users, getenv envDataDir ≠ "" ∧
      probe (H.join (getenv envDataDir) ".doctor-probe") files = some files₁ ∧
      loadUsers H files₁ (usersFilePath H getenv) = .ok users ∧ KeyShape H getenv files₁ ∧
      H.sqliteOpen (dbPath H (getenv envDataDir)) files₁ =
        .ok (runDoctor H probe getenv files).files := by
  unfold runDoctor at h ⊢
  simp only at h ⊢
  split at h
  · cases h
  · rename_i v hv
    split at h
    · rename_i hissues
      rw [List.countP_eq_zero] at hissues
      have hall : ∀ v' ∈ [(checkDataDir H probe (getenv envDataDir) files).1, v,
          checkMasterKey H getenv (checkDataDir H probe (getenv envDataDir) files).2] ++
          (checkDatabase H (getenv envDataDir)
            (checkDataDir H probe (getenv envDataDir) files).2).1, v'.isOk = true := by
        intro v' hv'
        simpa using hissues v' hv'
      obtain ⟨hdir, hprobe⟩ := checkDataDir_ok
        (hall (checkDataDir H probe (getenv envDataDir) files).1 (by simp))
      obtain ⟨users, husers⟩ := checkUsersFile_ok hv (hall v (by simp))
      refine ⟨_, users, hdir, hprobe, husers, checkMasterKey_ok (hall _ (by simp)), ?_⟩
      simp only [if_pos (List.countP_eq_zero.mpr hissues)]
      exact checkDatabase_ok hdir fun v' hv' => hall v' (List.mem_append_right _ hv')
    · cases h

end

/-! ## What it tells about the server -/

/-- The database's files are not the users file or the key file: opening the one leaves
the others as they are. -/
def Apart (H : Host) (getenv : Environment) : Prop :=
  ∀ files files', H.sqliteOpen (dbPath H (getenv envDataDir)) files = .ok files' →
    files' (getenv envUsersFile) = files (getenv envUsersFile) ∧
    files' (masterKeyPath H (getenv envDataDir)) =
      files (masterKeyPath H (getenv envDataDir))

/-- A database that was opened can be opened again. -/
def Reopens (H : Host) : Prop :=
  ∀ path files files', H.sqliteOpen path files = .ok files' →
    ∃ files'', H.sqliteOpen path files' = .ok files''

/-- What the server needs and the doctor does not look at. -/
structure Unchecked (H : Host) (getenv : Environment) (files : Files) : Prop where
  usersFile : getenv envUsersFile ≠ ""
  logLevel : (resolved getenv).logLevel ∈ allowedLogLevels
  envKey : getenv envMasterKeyProvider = "env" →
    ∀ c ∈ (getenv envMasterKey).toList, fromHexChar c ≠ none
  fileKey : getenv envMasterKeyProvider = "file" →
    ∃ bytes, files (masterKeyPath H (getenv envDataDir)) = some (.file bytes true)

section
variable {H : Host} {probe : String → Files → Option Files} {getenv : Environment}
  {files : Files}

theorem KeyShape.provider_mem (h : KeyShape H getenv files) :
    (resolved getenv).masterKeyProvider ∈ allowedMasterKeyProviders := by
  cases h with
  | file provider _ _ =>
    show getenv envMasterKeyProvider ∈ _
    rw [provider]
    decide
  | env provider _ =>
    show getenv envMasterKeyProvider ∈ _
    rw [provider]
    decide

/-- A key of the right length loads exactly if it is hexadecimal, or a readable file. -/
theorem KeyShape.loads_iff (h : KeyShape H getenv files) :
    (∃ key, loadFromConfig H getenv files (resolved getenv) = .ok key) ↔
      (getenv envMasterKeyProvider = "env" →
        ∀ c ∈ (getenv envMasterKey).toList, fromHexChar c ≠ none) ∧
      (getenv envMasterKeyProvider = "file" →
        ∃ bytes, files (masterKeyPath H (getenv envDataDir)) = some (.file bytes true)) := by
  cases h with
  | @file provider node found size =>
    have hload : loadFromConfig H getenv files (resolved getenv) =
        fileProviderLoad H files (masterKeyPath H (getenv envDataDir)) := if_pos provider
    rw [hload, fileProviderLoad_iff found size, found]
    constructor
    · rintro ⟨bytes, rfl⟩
      refine ⟨fun henv => ?_, fun _ => ⟨bytes, rfl⟩⟩
      rw [provider] at henv
      exact absurd henv (by decide)
    · intro hneeds
      obtain ⟨bytes, hbytes⟩ := hneeds.2 provider
      exact ⟨bytes, Option.some.inj hbytes⟩
  | env provider length =>
    have hne : (resolved getenv).masterKeyProvider ≠ "file" := by
      show getenv envMasterKeyProvider ≠ "file"
      rw [provider]
      decide
    have hload : loadFromConfig H getenv files (resolved getenv) = envProviderLoad getenv := by
      rw [loadFromConfig, if_neg hne]
      exact if_pos provider
    rw [hload, envProviderLoad_iff length]
    constructor
    · intro hhex
      exact ⟨fun _ => hhex, fun hfile => absurd hfile hne⟩
    · intro hneeds
      exact hneeds.1 provider

/-- After a doctor that exits 0, `serve` gets ready in the same environment exactly if the
users file is named, the log level is known, and the key is not only of the right
length. -/
theorem doctor_sound_iff (hreopens : Reopens H) (hapart : Apart H getenv)
    (h : (runDoctor H probe getenv files).code = 0) :
    (runServe H getenv (runDoctor H probe getenv files).files).isReady = true ↔
      Unchecked H getenv (runDoctor H probe getenv files).files := by
  obtain ⟨files₁, users, hdir, -, husers, hshape, hopen⟩ := runDoctor_ok h
  generalize (runDoctor H probe getenv files).files = files₂ at hopen ⊢
  obtain ⟨files₃, hopen'⟩ := hreopens _ _ _ hopen
  obtain ⟨husers₂, hkey₂⟩ := hapart _ _ hopen
  obtain ⟨husers₃, hkey₃⟩ := hapart _ _ hopen'
  have hshape₃ : KeyShape H getenv files₃ := by
    cases hshape with
    | file provider found size => exact .file provider (by rw [hkey₃, hkey₂, found]) size
    | env provider length => exact .env provider length
  rw [runServe_isReady_iff]
  constructor
  · rintro ⟨cfg, files', users', key, hcfg, hopen'', _, hkey⟩
    obtain ⟨rfl, _, hset, _, hlevel⟩ := load_ok_iff.mp hcfg
    obtain rfl : files₃ = files' := Except.ok.inj (hopen'.symm.trans hopen'')
    obtain ⟨henv, hfile⟩ := hshape₃.loads_iff.mp ⟨key, hkey⟩
    exact ⟨hset, hlevel, henv, fun hp => by rw [← hkey₃]; exact hfile hp⟩
  · intro hneeds
    have hcfg : load getenv = .ok (resolved getenv) :=
      load_ok_iff.mpr ⟨rfl, hdir, hneeds.usersFile, hshape.provider_mem, hneeds.logLevel⟩
    have hpath : usersFilePath H getenv = getenv envUsersFile :=
      if_neg fun hnone => hneeds.usersFile hnone.1
    have husers' : loadUsers H files₃ (getenv envUsersFile) = .ok users := by
      rw [← husers, hpath, loadUsers, loadUsers, usersFileAt, usersFileAt, husers₃, husers₂]
    obtain ⟨key, hkey⟩ := hshape₃.loads_iff.mpr
      ⟨hneeds.envKey, fun hp => by rw [hkey₃]; exact hneeds.fileKey hp⟩
    exact ⟨resolved getenv, files₃, users, key, hcfg, hopen', husers', hkey⟩

end

/-! ## An installation without TABBY_SYNC_USERS_FILE -/

/-- Every users file is a list without users; the database opens and touches nothing. -/
def plainHost : Host where
  join dir name := dir ++ "/" ++ name
  decode _ := ⟨.ok [], .ok [], fun _ h => h⟩
  sqliteOpen _ files := .ok files
  generate := .error (.text "no entropy")

def installed : Files := fun path =>
  if path = "/data" then some (.dir 4096)
  else if path = "/data/users.yml" then some (.file [] true)
  else if path = "/data/master.key" then some (.file (List.replicate 32 7) true)
  else none

def settings (usersFile : String) : Environment := fun key =>
  if key = envDataDir then "/data"
  else if key = envMasterKeyProvider then "file"
  else if key = envUsersFile then usersFile
  else ""

def probeOk : String → Files → Option Files := fun _ files => some files

theorem plainHost_reopens : Reopens plainHost := fun _ _ files' _ => ⟨files', rfl⟩

theorem plainHost_apart (getenv : Environment) : Apart plainHost getenv := by
  intro files files' h
  cases h
  exact ⟨rfl, rfl⟩

theorem doctor_sound_iff_named :
    (runDoctor plainHost probeOk (settings "/data/users.yml") installed).code = 0 ∧
    (runServe plainHost (settings "/data/users.yml")
      (runDoctor plainHost probeOk (settings "/data/users.yml") installed).files).isReady = true := by
  have hcode : (runDoctor plainHost probeOk (settings "/data/users.yml") installed).code = 0 := by
    decide +kernel
  refine ⟨hcode, (doctor_sound_iff plainHost_reopens (plainHost_apart _) hcode).mpr ?_⟩
  exact ⟨by decide +kernel, by decide +kernel, by decide +kernel,
    fun _ => ⟨List.replicate 32 7, by decide +kernel⟩⟩

/-- The doctor finds users.yml next to the database and passes everything; the server
refuses to start. -/
theorem unnamed_users_file_passes_doctor :
    (runDoctor plainHost probeOk (settings "") installed).code = 0 ∧
    (runDoctor plainHost probeOk (settings "") installed).files = installed ∧
    runServe plainHost (settings "") installed =
      .exited 2 (.text "TABBY_SYNC_USERS_FILE is required") := by
  refine ⟨by decide +kernel, rfl, rfl⟩

end TabbySync.Doctor
