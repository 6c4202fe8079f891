import TabbySync.Auth.Users
import TabbySync.Keys.FileProvider

/-! # Starting the server

What `tabby-sync serve` does before it listens: read the environment, open the database,
load the users file and the master key, wrap the store. The machine it runs on is a
parameter where the loaders reach outside the program: YAML, SQLite, path joining, and
the making of a key file that is not there yet. -/

namespace TabbySync.Startup
open TabbySync.Library.Text TabbySync.Auth

/-- What a path leads to; of a `hidden` node not even the size can be learned. -/
inductive Node
  | dir (size : Nat)
  | file (bytes : Bytes) (readable : Bool)
  | hidden
  deriving DecidableEq, Repr

/-- Paths that do not exist lead to `none`. -/
abbrev Files := String → Option Node

def Node.isDir : Node → Bool
  | .dir _ => true
  | _ => false

def Node.size : Node → Nat
  | .dir size => size
  | .file bytes _ => bytes.length
  | .hidden => 0

/-- `os.Stat`, `none` when it fails. -/
def stat (files : Files) (path : String) : Option Node :=
  match files path with
  | some .hidden => none
  | node => node

/-- `os.ReadFile`, but for a file that does not exist. -/
def Node.read : Node → Except GoError Bytes
  | .dir _ => .error (.text "is a directory")
  | .file _ false | .hidden => .error (.text "permission denied")
  | .file bytes true => .ok bytes

/-- The machine. `sqliteOpen` is `sqlite.Open`, with the files as they are once the
database is closed again; `generate` is `FileProvider.generate`. -/
structure Host where
  join : String → String → String
  decode : Bytes → Document
  sqliteOpen : String → Files → Except GoError Files
  generate : Except GoError Keys.Key

abbrev Environment := String → String

/-! ## config.Load -/

def envAddr : String := "TABBY_SYNC_ADDR"
def envDataDir : String := "TABBY_SYNC_DATA_DIR"
def envUsersFile : String := "TABBY_SYNC_USERS_FILE"
def envMasterKeyProvider : String := "TABBY_SYNC_MASTER_KEY_PROVIDER"
def envLogLevel : String := "APP_LOG_LEVEL"

def allowedMasterKeyProviders : List String := ["env", "file"]
def allowedLogLevels : List String := ["error", "warn", "info", "debug"]

structure ServerConfig where
  addr : String
  dataDir : String
  usersFile : String
  masterKeyProvider : String
  logLevel : String
  deriving DecidableEq, Repr

def orDefault (value default : String) : String := if value = "" then default else value

/-- The configuration as the variables have it, with the defaults. -/
def resolved (getenv : Environment) : ServerConfig where
  addr := orDefault (getenv envAddr) ":8080"
  dataDir := getenv envDataDir
  usersFile := getenv envUsersFile
  masterKeyProvider := getenv envMasterKeyProvider
  logLevel := orDefault (getenv envLogLevel) "info"

def load (getenv : Environment) : Except GoError ServerConfig :=
  let cfg := resolved getenv
  if cfg.dataDir = "" then .error (.text (envDataDir ++ " is required"))
  else if cfg.usersFile = "" then .error (.text (envUsersFile ++ " is required"))
  else if cfg.masterKeyProvider = "" then
    .error (.text (envMasterKeyProvider ++ " is required (allowed: [env file])"))
  else if cfg.masterKeyProvider ∉ allowedMasterKeyProviders then
    .error (.text (envMasterKeyProvider ++ " must be one of [env file]"))
  else if cfg.logLevel ∉ allowedLogLevels then
    .error (.text (envLogLevel ++ " must be one of [error warn info debug]"))
  else .ok cfg

/-! ## Users file, master key, encrypted store -/

/-- What a path holds, for the readers of users files. -/
def usersFileAt (H : Host) (files : Files) (path : String) : UsersFile :=
  match files path with
  | none => .unreadable "no such file or directory"
  | some node =>
    match node.read with
    | .error e => .unreadable e.message
    | .ok bytes => .document (H.decode bytes)

/-- `auth.LoadUsersFile`. -/
def loadUsers (H : Host) (files : Files) (path : String) : Loaded UserSnapshot :=
  loadUsersFile (usersFileAt H files path)

def envMasterKey : String := "TABBY_SYNC_MASTER_KEY"
def masterKeyFilename : String := "master.key"
def dbFilename : String := "tabby-sync.db"

def masterKeyPath (H : Host) (dataDir : String) : String := H.join dataDir masterKeyFilename
def dbPath (H : Host) (dataDir : String) : String := H.join dataDir dbFilename

def errMissing : GoError := .text "keys: master key not configured"

/-- `EnvProvider.Load`. -/
def envProviderLoad (getenv : Environment) : Except GoError Bytes :=
  let raw := getenv envMasterKey
  if raw = "" then .error errMissing
  else match hexDecode raw.toList with
    | none => .error (.text "keys: master key env value is not valid hex")
    | some decoded =>
      if decoded.length ≠ Keys.masterKeySize then .error Keys.errInvalidLength else .ok decoded

/-- `FileProvider.Load`. -/
def fileProviderLoad (H : Host) (files : Files) (path : String) : Except GoError Bytes :=
  match files path with
  | none => H.generate.map Subtype.val
  | some node =>
    match node.read with
    | .error e => .error (Keys.wrapPathError "read master key" e)
    | .ok raw => if raw.length ≠ Keys.masterKeySize then .error Keys.errInvalidLength else .ok raw

/-- `keys.LoadFromConfig`. The environment provider reads the same environment. -/
def loadFromConfig (H : Host) (getenv : Environment) (files : Files) (cfg : ServerConfig) :
    Except GoError Bytes :=
  if cfg.masterKeyProvider = "file" then
    fileProviderLoad H files (masterKeyPath H cfg.dataDir)
  else if cfg.masterKeyProvider = "env" then envProviderLoad getenv
  else .error (.text "keys: unsupported master_key_provider")

/-- `encrypted.New` over an open store: the key it keeps. -/
def encryptedNew (masterKey : Bytes) : Except GoError Bytes :=
  if masterKey.length ≠ 32 then .error (.text "encrypted: master key has wrong length")
  else .ok masterKey

/-- How far `serve` gets. -/
inductive Start
  | ready (cfg : ServerConfig) (users : UserSnapshot) (masterKey : Bytes)
  | exited (code : Nat) (err : GoError)
  | panicked (msg : String)

/-- `runServe` up to the listener. -/
def runServe (H : Host) (getenv : Environment) (files : Files) : Start :=
  match load getenv with
  | .error e => .exited 2 e
  | .ok cfg =>
    match H.sqliteOpen (dbPath H cfg.dataDir) files with
    | .error e => .exited 1 e
    | .ok files' =>
      match loadUsers H files' cfg.usersFile with
      | .error e => .exited 1 e
      | .panic msg => .panicked msg
      | .ok users =>
        match loadFromConfig H getenv files' cfg with
        | .error e => .exited 1 e
        | .ok masterKey =>
          match encryptedNew masterKey with
          | .error e => .exited 1 e
          | .ok key => .ready cfg users key

/-- All loaders passed. -/
def Start.isReady : Start → Bool
  | .ready _ _ _ => true
  | _ => false

/-! ## When each loader passes -/

theorem load_ok_iff {getenv : Environment} {cfg : ServerConfig} :
    load getenv = .ok cfg ↔ cfg = resolved getenv ∧ cfg.dataDir ≠ "" ∧ cfg.usersFile ≠ "" ∧
      cfg.masterKeyProvider ∈ allowedMasterKeyProviders ∧ cfg.logLevel ∈ allowedLogLevels := by
  constructor
  · intro h
    unfold load at h
    simp only at h
    split at h; · cases h
    split at h; · cases h
    split at h; · cases h
    split at h; · cases h
    split at h; · cases h
    rename_i hdir husers _ hprovider hlevel
    cases h
    exact ⟨rfl, hdir, husers, not_not.mp hprovider, not_not.mp hlevel⟩
  · rintro ⟨rfl, hdir, husers, hprovider, hlevel⟩
    have hset : (resolved getenv).masterKeyProvider ≠ "" := by
      intro hnone
      rw [hnone] at hprovider
      exact absurd hprovider (by decide)
    simp only [load, if_neg hdir, if_neg husers, if_neg hset, if_neg (not_not.mpr hprovider),
      if_neg (not_not.mpr hlevel)]

/-- Of values of the right length, those that are hexadecimal throughout pass. -/
theorem envProviderLoad_iff {getenv : Environment}
    (hlen : byteLength (getenv envMasterKey) = 2 * Keys.masterKeySize) :
    (∃ key, envProviderLoad getenv = .ok key) ↔
      ∀ c ∈ (getenv envMasterKey).toList, fromHexChar c ≠ none := by
  have hset : getenv envMasterKey ≠ "" := by
    intro hnone
    rw [hnone] at hlen
    cases hlen
  simp only [envProviderLoad, if_neg hset]
  constructor
  · rintro ⟨key, h⟩
    split at h
    · cases h
    · rename_i decoded hdec
      exact (hexDecode_some hdec).2
  · intro hall
    have hlength : (getenv envMasterKey).toList.length = 2 * Keys.masterKeySize := by
      rw [← byteLength_of_hexChars hall, hlen]
    obtain ⟨bytes, hdec⟩ := hexDecode_of_digits (by rw [hlength]; rfl) hall
    have hbytes := (hexDecode_some hdec).1
    have hsize : bytes.length = Keys.masterKeySize := by omega
    exact ⟨bytes, by simp only [hdec, hsize, ne_eq, not_true_eq_false, if_false]⟩

/-- Of nodes of the right size, the readable files pass. -/
theorem fileProviderLoad_iff {H : Host} {files : Files} {path : String} {node : Node}
    (hnode : files path = some node) (hsize : node.size = Keys.masterKeySize) :
    (∃ key, fileProviderLoad H files path = .ok key) ↔ ∃ bytes, node = .file bytes true := by
  simp only [fileProviderLoad, hnode]
  cases node with
  | hidden => cases hsize
  | dir size =>
    refine iff_of_false ?_ ?_
    · rintro ⟨key, h⟩
      cases h
    · rintro ⟨bytes, h⟩
      cases h
  | file bytes readable =>
    cases readable with
    | false =>
      refine iff_of_false ?_ ?_
      · rintro ⟨key, h⟩
        cases h
      · rintro ⟨bytes, h⟩
        cases h
    | true =>
      refine iff_of_true ⟨bytes, ?_⟩ ⟨bytes, rfl⟩
      have hlen : bytes.length = Keys.masterKeySize := hsize
      simp only [Node.read, hlen, ne_eq, not_true_eq_false, if_false]

/-- A loaded key has the length the encrypted store asks for. -/
theorem loadFromConfig_length {H : Host} {getenv : Environment} {files : Files}
    {cfg : ServerConfig} {key : Bytes} (h : loadFromConfig H getenv files cfg = .ok key) :
    key.length = 32 := by
  unfold loadFromConfig at h
  split at h
  · unfold fileProviderLoad at h
    split at h
    · cases hgen : H.generate with
      | error e =>
        rw [hgen] at h
        cases h
      | ok k =>
        rw [hgen] at h
        cases h
        exact k.property
    · split at h
      · cases h
      · split at h
        · cases h
        · rename_i hlen
          cases h
          exact not_not.mp hlen
  · split at h
    · unfold envProviderLoad at h
      simp only at h
      split at h
      · cases h
      · split at h
        · cases h
        · split at h
          · cases h
          · rename_i hlen
            cases h
            exact not_not.mp hlen
    · cases h

theorem encryptedNew_of_loaded {H : Host} {getenv : Environment} {files : Files}
    {cfg : ServerConfig} {key : Bytes} (h : loadFromConfig H getenv files cfg = .ok key) :
    encryptedNew key = .ok key := by
  rw [encryptedNew, if_neg (not_not.mpr (loadFromConfig_length h))]

/-- `serve` gets ready exactly if its loaders pass one after the other. -/
theorem runServe_isReady_iff {H : Host} {getenv : Environment} {files : Files} :
    (runServe H getenv files).isReady = true ↔
      ∃ cfg files' users key, load getenv = .ok cfg ∧
        H.sqliteOpen (dbPath H cfg.dataDir) files = .ok files' ∧
        loadUsers H files' cfg.usersFile = .ok users ∧
        loadFromConfig H getenv files' cfg = .ok key := by
  constructor
  · intro h
    unfold runServe at h
    split at h; · cases h
    rename_i cfg hcfg
    split at h; · cases h
    rename_i files' hopen
    split at h
    · cases h
    · cases h
    · rename_i users husers
      split at h; · cases h
      rename_i key hkey
      exact ⟨cfg, files', users, key, hcfg, hopen, husers, hkey⟩
  · rintro ⟨cfg, files', users, key, hcfg, hopen, husers, hkey⟩
    simp only [runServe, hcfg, hopen, husers, hkey, encryptedNew_of_loaded hkey]
    rfl

end TabbySync.Startup
