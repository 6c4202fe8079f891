import TabbySync.Cli.AtomicWrite
import TabbySync.Cli.Credentials
import TabbySync.Cli.Doctor

/-! # Setting up a server

`tabby-sync init` makes what is missing: the data directory, the master key, a users file
without users, the database. An operator runs `init` and user commands in one environment,
in any order and as often as they like; then `serve` is started.

A `WriteFile` of `init` that is cut short leaves a part of the file, which the next `init`
takes for the whole. The results are about runs where a write that fails leaves no file. -/

namespace TabbySync.Setup
open TabbySync.Auth TabbySync.Cli TabbySync.Startup

/-! ## init -/

inductive WriteFault
  | refused (err : GoError)
  | cut (err : GoError) (written : Nat)

/-- What the environment hands a run of `init`. -/
structure InitTurn where
  mkdir : Option GoError
  random : Except GoError Keys.Key
  keyWrite : Option WriteFault
  usersWrite : Option WriteFault

/-- `os.WriteFile` -/
def writeFile (fault : Option WriteFault) (path : String) (bytes : Bytes) (files : Files) :
    Except GoError Unit × Files :=
  match fault with
  | none => (.ok (), Function.update files path (some (.file bytes true)))
  | some (.refused err) => (.error err, files)
  | some (.cut err written) =>
    (.error err, Function.update files path (some (.file (bytes.take written) true)))

/-- A part of `init`: the line it prints when it is done, or the error that ends the run. -/
abbrev Stage := Files → Except Line Line × Files

def failure (text : String) (err : GoError) : Line :=
  printErr ("error: failed to " ++ text ++ ": " ++ err.message ++ "\n")

/-- `os.MkdirAll` of the data directory. -/
def makeDataDir (turn : InitTurn) (dataDir : String) : Stage := fun files =>
  match turn.mkdir with
  | some err => (.error (failure "create data directory" err), files)
  | none =>
    match files dataDir with
    | none => (.ok (printOut ("data directory: " ++ dataDir ++ "\n")),
        Function.update files dataDir (some (.dir 0)))
    | some (.dir _) => (.ok (printOut ("data directory: " ++ dataDir ++ "\n")), files)
    | some _ => (.error (failure "create data directory" (.text "not a directory")), files)

/-- A file that is made if `os.Stat` says there is none. A `Stat` that fails for another
reason counts as a file. -/
def ensure (path : String) (fault : Option WriteFault) (content : Except Line Bytes)
    (what created present : String) : Stage := fun files =>
  match files path with
  | some _ => (.ok (printOut present), files)
  | none =>
    match content with
    | .error line => (.error line, files)
    | .ok bytes =>
      match writeFile fault path bytes files with
      | (.error err, files') => (.error (failure ("write " ++ what) err), files')
      | (.ok (), files') => (.ok (printOut created), files')

section
variable (H : Host) (marshal : List UserEntry → Bytes) (getenv : Environment)

def initUsersPath : String :=
  if getenv envUsersFile = "" then H.join (getenv envDataDir) "users.yml" else getenv envUsersFile

def initKey (turn : InitTurn) : Stage :=
  let provider := orDefault (getenv envMasterKeyProvider) "file"
  if provider = "file" then
    ensure (masterKeyPath H (getenv envDataDir)) turn.keyWrite
      ((turn.random.mapError (failure "generate master key")).map Subtype.val) "master key"
      "master key: generated (BACK THIS UP IMMEDIATELY)\n" "master key: already exists\n"
  else fun files => (.ok (printOut ("master key: using " ++ provider ++ " provider\n")), files)

def initUsers (turn : InitTurn) : Stage :=
  ensure (initUsersPath H getenv) turn.usersWrite (.ok (marshal [])) "users file"
    ("users file: created at " ++ initUsersPath H getenv ++ "\n")
    ("users file: already exists at " ++ initUsersPath H getenv ++ "\n")

def initDatabase : Stage := fun files =>
  match H.sqliteOpen (dbPath H (getenv envDataDir)) files with
  | .error err => (.error (failure "initialize database" err), files)
  | .ok files' => (.ok (printOut "database: initialized\n"), files')

structure InitReport where
  code : Nat
  output : List Line
  files : Files

def runStages : List Stage → List Line → Files → InitReport
  | [], output, files =>
    ⟨0, output ++ [printOut
      "\ninit complete. You can now add users with: tabby-sync user add <name>\n"], files⟩
  | stage :: rest, output, files =>
    match stage files with
    | (.ok line, files') => runStages rest (output ++ [line]) files'
    | (.error line, files') => ⟨1, output ++ [line], files'⟩

def initStages (turn : InitTurn) : List Stage :=
  [makeDataDir turn (getenv envDataDir), initKey H getenv turn, initUsers H marshal getenv turn,
    initDatabase H getenv]

def runInit (turn : InitTurn) (files : Files) : InitReport :=
  if getenv envDataDir = "" then
    ⟨2, [printErr "error: TABBY_SYNC_DATA_DIR is required\n"], files⟩
  else runStages (initStages H marshal getenv turn) [] files

/-! ## The operator -/

inductive Action
  | init (turn : InitTurn)
  | user (inv : Invocation)

/-- The command, in the environment of the operator. -/
def inPlace (inv : Invocation) : Invocation := { inv with getenv := getenv }

/-- The files after an action; a save of a user command replaces the file or leaves it. -/
def act (P : Platform) (files : Files) : Action → Files
  | .init turn => (runInit H marshal getenv turn files).files
  | .user inv =>
    match (runUser P (inPlace getenv inv) (usersFileAt H files (getenv envUsersFile))).saved with
    | none => files
    | some users =>
      Function.update files (getenv envUsersFile) (some (.file (marshal users) true))

def enteredBy (P : Platform) (files : Files) (l : Ledger) : Action → Ledger
  | .init _ => l
  | .user inv => entered P (inPlace getenv inv) (usersFileAt H files (getenv envUsersFile)) l

/-- The files and the ledger after some actions. -/
def operate (P : Platform) (actions : List Action) (files : Files) (l : Ledger) :
    Files × Ledger :=
  actions.foldl (fun x a => (act H marshal getenv P x.1 a, enteredBy H getenv P x.1 x.2 a)) (files, l)

end

def Action.tokens (P : Platform) : Action → List Bytes
  | .init _ => []
  | .user inv => Cli.tokens P inv

def WriteFault.isCut : WriteFault → Bool
  | .refused _ => false
  | .cut _ _ => true

/-- No write of the action is cut short. -/
def Action.whole : Action → Bool
  | .init turn => !turn.keyWrite.any WriteFault.isCut && !turn.usersWrite.any WriteFault.isCut
  | .user _ => true

/-! ## A machine to set up -/

def IsDir (files : Files) (path : String) : Prop := ∃ size, files path = some (.dir size)

/-- The database can be opened. -/
def Opens (H : Host) (getenv : Environment) (files : Files) : Prop :=
  ∃ files', H.sqliteOpen (dbPath H (getenv envDataDir)) files = .ok files'

/-- An environment that `serve` accepts, with the file provider, and a machine where
directory, key, users file and the database's own files are different things: opening the
database leaves the others, and depends on its own files and the directory alone. -/
structure Workable (H : Host) (marshal : List UserEntry → Bytes) (getenv : Environment)
    (own : String → Prop) : Prop where
  dataDir : getenv envDataDir ≠ ""
  usersFile : getenv envUsersFile ≠ ""
  provider : getenv envMasterKeyProvider = "file"
  logLevel : (resolved getenv).logLevel ∈ allowedLogLevels
  key_ne_users : masterKeyPath H (getenv envDataDir) ≠ getenv envUsersFile
  key_ne_dir : masterKeyPath H (getenv envDataDir) ≠ getenv envDataDir
  users_ne_dir : getenv envUsersFile ≠ getenv envDataDir
  key_foreign : ¬ own (masterKeyPath H (getenv envDataDir))
  users_foreign : ¬ own (getenv envUsersFile)
  touches : ∀ files files', H.sqliteOpen (dbPath H (getenv envDataDir)) files = .ok files' →
    (∀ path, ¬ own path → path ≠ getenv envDataDir → files' path = files path) ∧
      (IsDir files (getenv envDataDir) → IsDir files' (getenv envDataDir))
  depends : ∀ files files', (∀ path, own path → files' path = files path) →
    IsDir files' (getenv envDataDir) → Opens H getenv files → Opens H getenv files'
  reopens : Doctor.Reopens H
  decode : ∀ users, UsersFile.document (H.decode (marshal users)) = .ofEntries users

/-! ## What a stage of init can do -/

/-- A file that is there stays; one that is not is made whole, or not at all with an
error. -/
def Stage.Makes (path : String) (content : Except Line Bytes) (stage : Stage) : Prop :=
  ∀ files,
    ((stage files).2 = files ∧ (files path = none → ∃ line, (stage files).1 = .error line)) ∨
      files path = none ∧ ∃ bytes, content = .ok bytes ∧
        (stage files).2 = Function.update files path (some (.file bytes true))

theorem ensure_makes {path : String} {fault : Option WriteFault} {content : Except Line Bytes}
    {what created present : String} (hwhole : fault.any WriteFault.isCut = false) :
    (ensure path fault content what created present).Makes path content := by
  intro files
  unfold ensure
  cases hpath : files path with
  | some node => exact .inl ⟨rfl, by simp⟩
  | none =>
    cases content with
    | error line => exact .inl ⟨rfl, fun _ => ⟨line, rfl⟩⟩
    | ok bytes =>
      cases fault with
      | none => exact .inr ⟨rfl, bytes, rfl, rfl⟩
      | some fault =>
        cases fault with
        | refused err => exact .inl ⟨rfl, fun _ => ⟨_, rfl⟩⟩
        | cut err written => cases hwhole

/-- The file is there once the stage has passed. -/
theorem Stage.Makes.ok {path : String} {content : Except Line Bytes} {stage : Stage}
    (h : stage.Makes path content) {files files' : Files} {line : Line}
    (hrun : stage files = (.ok line, files')) : files' path ≠ none := by
  have hcases := h files
  rw [hrun] at hcases
  rcases hcases with ⟨hsame, herror⟩ | ⟨-, bytes, -, hmade⟩
  · obtain rfl : files' = files := hsame
    intro hnone
    obtain ⟨line', hline⟩ := herror hnone
    cases hline
  · obtain rfl : files' = Function.update files path (some (.file bytes true)) := hmade
    rw [Function.update_self]
    simp

section
variable {H : Host} {marshal : List UserEntry → Bytes} {getenv : Environment}
  {own : String → Prop} {turn : InitTurn} {files files' : Files}

/-- The files after a stage. -/
inductive Moves (H : Host) (marshal : List UserEntry → Bytes) (getenv : Environment)
    (files : Files) : Files → Prop
  | same : Moves H marshal getenv files files
  | dir (missing : files (getenv envDataDir) = none) :
      Moves H marshal getenv files (Function.update files (getenv envDataDir) (some (.dir 0)))
  | key (missing : files (masterKeyPath H (getenv envDataDir)) = none) (key : Keys.Key) :
      Moves H marshal getenv files
        (Function.update files (masterKeyPath H (getenv envDataDir)) (some (.file key.val true)))
  | users (missing : files (getenv envUsersFile) = none) :
      Moves H marshal getenv files
        (Function.update files (getenv envUsersFile) (some (.file (marshal []) true)))
  | opened {files' : Files} (h : H.sqliteOpen (dbPath H (getenv envDataDir)) files = .ok files') :
      Moves H marshal getenv files files'

theorem makeDataDir_moves : Moves H marshal getenv files
    (makeDataDir turn (getenv envDataDir) files).2 := by
  unfold makeDataDir
  split
  · exact .same
  · split
    · exact .dir ‹_›
    · exact .same
    · exact .same

theorem initKey_makes (hW : Workable H marshal getenv own)
    (hwhole : turn.keyWrite.any WriteFault.isCut = false) :
    (initKey H getenv turn).Makes (masterKeyPath H (getenv envDataDir))
      ((turn.random.mapError (failure "generate master key")).map Subtype.val) := by
  have hprovider : orDefault (getenv envMasterKeyProvider) "file" = "file" := by
    rw [hW.provider]
    rfl
  simp only [initKey, hprovider, if_true]
  exact ensure_makes hwhole

theorem initUsers_makes (hW : Workable H marshal getenv own)
    (hwhole : turn.usersWrite.any WriteFault.isCut = false) :
    (initUsers H marshal getenv turn).Makes (getenv envUsersFile) (.ok (marshal [])) := by
  have hpath : initUsersPath H getenv = getenv envUsersFile := if_neg hW.usersFile
  rw [initUsers, hpath]
  exact ensure_makes hwhole

/-- What `init` has for a key file is a key. -/
theorem key_of_random {bytes : Bytes}
    (h : (turn.random.mapError (failure "generate master key")).map Subtype.val = .ok bytes) :
    ∃ key : Keys.Key, bytes = key.val := by
  cases hrandom : turn.random with
  | error err =>
    rw [hrandom] at h
    cases h
  | ok key =>
    rw [hrandom] at h
    cases h
    exact ⟨key, rfl⟩

theorem whole_init (h : (Action.init turn).whole = true) :
    turn.keyWrite.any WriteFault.isCut = false ∧ turn.usersWrite.any WriteFault.isCut = false := by
  simpa [Action.whole] using h

theorem stage_moves (hW : Workable H marshal getenv own)
    (hwhole : (Action.init turn).whole = true) {stage : Stage}
    (hstage : stage ∈ initStages H marshal getenv turn) :
    Moves H marshal getenv files (stage files).2 := by
  obtain ⟨hkeyWhole, husersWhole⟩ := whole_init hwhole
  simp only [initStages, List.mem_cons, List.not_mem_nil, or_false] at hstage
  rcases hstage with rfl | rfl | rfl | rfl
  · exact makeDataDir_moves
  · rcases initKey_makes hW hkeyWhole files with ⟨hsame, -⟩ | ⟨hnone, bytes, hbytes, hmade⟩
    · rw [hsame]
      exact .same
    · obtain ⟨key, rfl⟩ := key_of_random hbytes
      rw [hmade]
      exact .key hnone key
  · rcases initUsers_makes hW husersWhole files with ⟨hsame, -⟩ | ⟨hnone, bytes, hbytes, hmade⟩
    · rw [hsame]
      exact .same
    · cases hbytes
      rw [hmade]
      exact .users hnone
  · unfold initDatabase
    cases hopen : H.sqliteOpen (dbPath H (getenv envDataDir)) files with
    | error err => exact .same
    | ok files' => exact .opened hopen

/-- What the moves keep, a run of stages keeps. -/
theorem runStages_invariant {I : Files → Prop} {stages : List Stage}
    (hstages : ∀ stage ∈ stages, ∀ files, I files → I (stage files).2) (output : List Line)
    (h : I files) : I (runStages stages output files).files := by
  induction stages generalizing output files with
  | nil => exact h
  | cons stage rest ih =>
    have hnext := hstages stage (.head _) files h
    unfold runStages
    split
    · rename_i line files' hrun
      rw [hrun] at hnext
      exact ih (fun st hst => hstages st (.tail _ hst)) _ hnext
    · rename_i line files' hrun
      rwa [hrun] at hnext

theorem runInit_eq (hW : Workable H marshal getenv own) :
    runInit H marshal getenv turn files = runStages (initStages H marshal getenv turn) [] files :=
  if_neg hW.dataDir

theorem runInit_invariant (hW : Workable H marshal getenv own)
    (hwhole : (Action.init turn).whole = true) {I : Files → Prop}
    (hmoves : ∀ files files', Moves H marshal getenv files files' → I files → I files')
    (h : I files) : I (runInit H marshal getenv turn files).files := by
  rw [runInit_eq hW]
  exact runStages_invariant (I := I)
    (fun stage hstage f => hmoves f _ (stage_moves hW hwhole hstage)) [] h

/-- A run that ends well has been through its first stage. -/
theorem runStages_ok {stage : Stage} {rest : List Stage} {output : List Line}
    (h : (runStages (stage :: rest) output files).code = 0) :
    ∃ line files', stage files = (.ok line, files') ∧
      runStages (stage :: rest) output files = runStages rest (output ++ [line]) files' := by
  cases hrun : stage files with
  | mk result files' =>
    cases result with
    | ok line => exact ⟨line, files', rfl, by rw [runStages, hrun]⟩
    | error line =>
      rw [runStages, hrun] at h
      cases h

/-! ## A volume that is set up -/

structure Complete (H : Host) (getenv : Environment) (files : Files) : Prop where
  key : files (masterKeyPath H (getenv envDataDir)) ≠ none
  users : files (getenv envUsersFile) ≠ none
  dir : IsDir files (getenv envDataDir)
  opens : Opens H getenv files

/-- A key file that is there stays as it is. -/
theorem Moves.key_stays (hW : Workable H marshal getenv own)
    (h : Moves H marshal getenv files files') {node : Node}
    (hkey : files (masterKeyPath H (getenv envDataDir)) = some node) :
    files' (masterKeyPath H (getenv envDataDir)) = some node := by
  cases h with
  | same => exact hkey
  | dir missing => rwa [Function.update_of_ne hW.key_ne_dir]
  | key missing key =>
    rw [missing] at hkey
    cases hkey
  | users missing => rwa [Function.update_of_ne hW.key_ne_users]
  | opened hopen => rwa [(hW.touches _ _ hopen).1 _ hW.key_foreign hW.key_ne_dir]

/-- So does a users file, as far as `init` is concerned. -/
theorem Moves.users_stay (hW : Workable H marshal getenv own)
    (h : Moves H marshal getenv files files') {node : Node}
    (husers : files (getenv envUsersFile) = some node) :
    files' (getenv envUsersFile) = some node := by
  cases h with
  | same => exact husers
  | dir missing => rwa [Function.update_of_ne hW.users_ne_dir]
  | key missing key => rwa [Function.update_of_ne hW.key_ne_users.symm]
  | users missing =>
    rw [missing] at husers
    cases husers
  | opened hopen => rwa [(hW.touches _ _ hopen).1 _ hW.users_foreign hW.users_ne_dir]

theorem Moves.dir_stays (hW : Workable H marshal getenv own)
    (h : Moves H marshal getenv files files') (hdir : IsDir files (getenv envDataDir)) :
    IsDir files' (getenv envDataDir) := by
  cases h with
  | same => exact hdir
  | dir missing => exact ⟨0, Function.update_self ..⟩
  | key missing key => rwa [IsDir, Function.update_of_ne hW.key_ne_dir.symm]
  | users missing => rwa [IsDir, Function.update_of_ne hW.users_ne_dir.symm]
  | opened hopen => exact (hW.touches _ _ hopen).2 hdir

theorem Moves.complete (hW : Workable H marshal getenv own)
    (h : Moves H marshal getenv files files') (hc : Complete H getenv files) :
    Complete H getenv files' := by
  obtain ⟨key, hkey⟩ := Option.ne_none_iff_exists'.mp hc.key
  obtain ⟨users, husers⟩ := Option.ne_none_iff_exists'.mp hc.users
  refine ⟨by simp [h.key_stays hW hkey], by simp [h.users_stay hW husers], h.dir_stays hW hc.dir, ?_⟩
  cases h with
  | same => exact hc.opens
  | dir missing =>
    obtain ⟨size, hsize⟩ := hc.dir
    rw [missing] at hsize
    cases hsize
  | key missing => exact absurd missing hc.key
  | users missing => exact absurd missing hc.users
  | opened hopen => exact hW.reopens _ _ _ hopen

theorem makeDataDir_ok {line : Line}
    (h : makeDataDir turn (getenv envDataDir) files = (.ok line, files')) :
    IsDir files' (getenv envDataDir) := by
  unfold makeDataDir at h
  split at h
  · cases h
  · split at h
    · cases h
      exact ⟨0, Function.update_self ..⟩
    · cases h
      exact ⟨_, ‹_›⟩
    · cases h

theorem initDatabase_ok {line : Line} (h : initDatabase H getenv files = (.ok line, files')) :
    H.sqliteOpen (dbPath H (getenv envDataDir)) files = .ok files' := by
  unfold initDatabase at h
  split at h
  · cases h
  · cases h
    assumption

/-- After an `init` that exits 0 the volume is set up. -/
theorem runInit_complete (hW : Workable H marshal getenv own)
    (hwhole : (Action.init turn).whole = true)
    (h : (runInit H marshal getenv turn files).code = 0) :
    Complete H getenv (runInit H marshal getenv turn files).files := by
  obtain ⟨hkeyWhole, husersWhole⟩ := whole_init hwhole
  have hmoves : ∀ stage ∈ initStages H marshal getenv turn, ∀ {f f' line},
      stage f = (.ok line, f') → Moves H marshal getenv f f' := by
    intro stage hstage f f' line hrun
    have hmove : Moves H marshal getenv f (stage f).2 := stage_moves hW hwhole hstage
    rwa [hrun] at hmove
  rw [runInit_eq hW] at h ⊢
  obtain ⟨_, f₁, hdir, heq⟩ := runStages_ok h
  rw [initStages, heq] at h ⊢
  obtain ⟨_, f₂, hkey, heq⟩ := runStages_ok h
  rw [heq] at h ⊢
  obtain ⟨_, f₃, husers, heq⟩ := runStages_ok h
  rw [heq] at h ⊢
  obtain ⟨_, f₄, hdatabase, heq⟩ := runStages_ok h
  rw [heq]
  have hopen := initDatabase_ok hdatabase
  have hm₂ := hmoves _ (by simp [initStages]) hkey
  have hm₃ := hmoves _ (by simp [initStages]) husers
  have hm₄ := hmoves _ (by simp [initStages]) hdatabase
  obtain ⟨key, hk⟩ := Option.ne_none_iff_exists'.mp ((initKey_makes hW hkeyWhole).ok hkey)
  obtain ⟨users, hu⟩ := Option.ne_none_iff_exists'.mp ((initUsers_makes hW husersWhole).ok husers)
  exact ⟨by simp [runStages, hm₄.key_stays hW (hm₃.key_stays hW hk)],
    by simp [runStages, hm₄.users_stay hW hu],
    hm₄.dir_stays hW (hm₃.dir_stays hW (hm₂.dir_stays hW (makeDataDir_ok hdir))),
    hW.reopens _ _ _ hopen⟩

/-! ## Every run of the operator -/

variable {P : Platform} {issued : List Bytes} {l : Ledger}

/-- The key file and the users file, against the ledger. -/
structure Sane (H : Host) (marshal : List UserEntry → Bytes) (getenv : Environment)
    (P : Platform) (issued : List Bytes) (l : Ledger) (files : Files) : Prop where
  key : files (masterKeyPath H (getenv envDataDir)) = none ∨
    ∃ key : Keys.Key, files (masterKeyPath H (getenv envDataDir)) = some (.file key.val true)
  users : ∃ users, Books P issued l users ∧
    (files (getenv envUsersFile) = some (.file (marshal users) true) ∨
      users = [] ∧ files (getenv envUsersFile) = none)

theorem Moves.sane (hW : Workable H marshal getenv own)
    (h : Moves H marshal getenv files files') (hs : Sane H marshal getenv P issued l files) :
    Sane H marshal getenv P issued l files' := by
  cases h with
  | same => exact hs
  | dir missing =>
    refine ⟨?_, ?_⟩
    · rw [Function.update_of_ne hW.key_ne_dir]
      exact hs.key
    · rw [Function.update_of_ne hW.users_ne_dir]
      exact hs.users
  | key missing key =>
    refine ⟨.inr ⟨key, Function.update_self ..⟩, ?_⟩
    rw [Function.update_of_ne hW.key_ne_users.symm]
    exact hs.users
  | users missing =>
    refine ⟨by rw [Function.update_of_ne hW.key_ne_users]; exact hs.key, ?_⟩
    obtain ⟨users, hbooks, hfile | ⟨rfl, -⟩⟩ := hs.users
    · rw [missing] at hfile
      cases hfile
    · exact ⟨[], hbooks, .inl (Function.update_self ..)⟩
  | opened hopen =>
    have htouches := (hW.touches _ _ hopen).1
    refine ⟨?_, ?_⟩
    · rw [htouches _ hW.key_foreign hW.key_ne_dir]
      exact hs.key
    · rw [htouches _ hW.users_foreign hW.users_ne_dir]
      exact hs.users

theorem usersFileAt_marshal (hW : Workable H marshal getenv own) {path : String}
    {users : List UserEntry} (h : files path = some (.file (marshal users) true)) :
    usersFileAt H files path = .ofEntries users := by
  simp only [usersFileAt, h, Node.read]
  exact hW.decode users

/-- Without a users file a user command does nothing. -/
theorem runUser_missing (inv : Invocation) (why : String) :
    (runUser P inv (.unreadable why)).saved = none ∧ entered P inv (.unreadable why) l = l := by
  have hcode : (runUser P inv (.unreadable why)).code ≠ 0 := by
    intro ok
    obtain ⟨users, hload, -⟩ := runUser_ok ok
    cases hload
  exact ⟨(runUser_honest P inv _).resolve_left hcode, if_neg hcode⟩

/-- A user command replaces the users file, and keeps the books. -/
theorem sane_user (hW : Workable H marshal getenv own) (inv : Invocation)
    (hs : Sane H marshal getenv P issued l files) (hroom : issued.length < 2 ^ 63 - 1)
    (hnew : ∀ t ∈ Cli.tokens P inv, t ∉ issued ∧ Unforgeable P t) :
    Sane H marshal getenv P (issued ++ Cli.tokens P inv) (enteredBy H getenv P files l (.user inv))
      (act H marshal getenv P files (.user inv)) := by
  obtain ⟨users, hbooks, hfile | ⟨rfl, hnone⟩⟩ := hs.users
  · have hat := usersFileAt_marshal hW hfile
    obtain ⟨users', hafter, hbooks'⟩ :
        ∃ users', (runUser P (inPlace getenv inv) (.ofEntries users)).fileAfter (.ofEntries users) =
            .ofEntries users' ∧
          Books P (issued ++ Cli.tokens P inv) (entered P (inPlace getenv inv) (.ofEntries users) l)
            users' := hbooks.command hroom hnew
    simp only [act, enteredBy, hat]
    cases hsaved : (runUser P (inPlace getenv inv) (.ofEntries users)).saved with
    | none =>
      rw [Result.fileAfter, hsaved] at hafter
      cases hafter
      exact ⟨hs.key, users, hbooks', .inl hfile⟩
    | some saved =>
      rw [Result.fileAfter, hsaved] at hafter
      cases hafter
      refine ⟨?_, users', hbooks', .inl (Function.update_self ..)⟩
      dsimp only
      rw [Function.update_of_ne hW.key_ne_users]
      exact hs.key
  · have hat : usersFileAt H files (getenv envUsersFile) =
        .unreadable "no such file or directory" := by simp only [usersFileAt, hnone]
    obtain ⟨hsaved, hentered⟩ := runUser_missing (P := P) (l := l) (inPlace getenv inv)
      "no such file or directory"
    simp only [act, enteredBy, hat, hsaved, hentered]
    exact ⟨hs.key, [], hbooks.mono _, .inr ⟨rfl, hnone⟩⟩

/-- What a user command does to the files. -/
theorem act_user (files : Files) (inv : Invocation) :
    act H marshal getenv P files (.user inv) = files ∨
      ∃ bytes, act H marshal getenv P files (.user inv) =
        Function.update files (getenv envUsersFile) (some (.file bytes true)) := by
  simp only [act]
  cases (runUser P (inPlace getenv inv) (usersFileAt H files (getenv envUsersFile))).saved with
  | none => exact .inl rfl
  | some users => exact .inr ⟨marshal users, rfl⟩

theorem act_complete (hW : Workable H marshal getenv own) {a : Action} (hwhole : a.whole = true)
    (h : Complete H getenv files) : Complete H getenv (act H marshal getenv P files a) := by
  cases a with
  | init turn => exact runInit_invariant hW hwhole (fun _ _ hmoves => hmoves.complete hW) h
  | user inv =>
    rcases act_user (H := H) (P := P) files inv with hsame | ⟨bytes, hwritten⟩
    · rwa [hsame]
    · have hdir : IsDir (Function.update files (getenv envUsersFile) (some (.file bytes true)))
          (getenv envDataDir) := by
        rw [IsDir, Function.update_of_ne hW.users_ne_dir.symm]
        exact h.dir
      rw [hwritten]
      refine ⟨?_, by rw [Function.update_self]; simp, hdir, hW.depends _ _ ?_ hdir h.opens⟩
      · rw [Function.update_of_ne hW.key_ne_users]
        exact h.key
      · rintro path hown
        refine Function.update_of_ne ?_ _ _
        rintro rfl
        exact hW.users_foreign hown

theorem act_key (hW : Workable H marshal getenv own) {a : Action} (hwhole : a.whole = true)
    {node : Node} (h : files (masterKeyPath H (getenv envDataDir)) = some node) :
    act H marshal getenv P files a (masterKeyPath H (getenv envDataDir)) = some node := by
  cases a with
  | init turn =>
    exact runInit_invariant hW hwhole (I := fun f => f (masterKeyPath H (getenv envDataDir)) = some node)
      (fun _ _ hmoves => hmoves.key_stays hW) h
  | user inv =>
    rcases act_user (H := H) (P := P) files inv with hsame | ⟨bytes, hwritten⟩
    · rwa [hsame]
    · rwa [hwritten, Function.update_of_ne hW.key_ne_users]

theorem act_sane (hW : Workable H marshal getenv own) {a : Action} (hwhole : a.whole = true)
    (hs : Sane H marshal getenv P issued l files) (hroom : issued.length < 2 ^ 63 - 1)
    (hnew : ∀ t ∈ a.tokens P, t ∉ issued ∧ Unforgeable P t) :
    Sane H marshal getenv P (issued ++ a.tokens P) (enteredBy H getenv P files l a)
      (act H marshal getenv P files a) := by
  cases a with
  | init turn =>
    rw [Action.tokens, List.append_nil]
    exact runInit_invariant hW hwhole (fun _ _ hmoves => hmoves.sane hW) hs
  | user inv => exact sane_user hW inv hs hroom hnew

theorem operate_append (before after : List Action) (files : Files) (l : Ledger) :
    operate H marshal getenv P (before ++ after) files l =
      operate H marshal getenv P after (operate H marshal getenv P before files l).1
        (operate H marshal getenv P before files l).2 := List.foldl_append

theorem operate_sane (hW : Workable H marshal getenv own) (actions : List Action)
    (hwhole : ∀ a ∈ actions, a.whole = true) (hs : Sane H marshal getenv P issued l files)
    (hroom : issued.length + actions.length < 2 ^ 63)
    (hnodup : (issued ++ actions.flatMap (Action.tokens P)).Nodup)
    (hcollision : ∀ t ∈ actions.flatMap (Action.tokens P), Unforgeable P t) :
    Sane H marshal getenv P (issued ++ actions.flatMap (Action.tokens P))
      (operate H marshal getenv P actions files l).2
      (operate H marshal getenv P actions files l).1 := by
  induction actions generalizing issued l files with
  | nil =>
    rw [List.flatMap_nil, List.append_nil]
    exact hs
  | cons a rest ih =>
    rw [List.flatMap_cons] at hnodup hcollision ⊢
    rw [← List.append_assoc] at hnodup ⊢
    rw [List.length_cons] at hroom
    have hshort : (a.tokens P).length ≤ 1 := by
      cases a with
      | init turn => exact Nat.zero_le 1
      | user inv => exact length_tokens_le P inv
    have hnew : ∀ t ∈ a.tokens P, t ∉ issued ∧ Unforgeable P t := fun t ht =>
      ⟨fun hissued => List.disjoint_of_nodup_append hnodup.of_append_left hissued ht,
        hcollision t (List.mem_append_left _ ht)⟩
    refine ih (fun b hb => hwhole b (.tail _ hb))
      (act_sane hW (hwhole a (.head _)) hs (by omega) hnew) ?_ hnodup
      fun t ht => hcollision t (List.mem_append_right _ ht)
    rw [List.length_append]
    omega

/-- What every action keeps, a run keeps. -/
theorem operate_invariant {I : Files → Prop} (actions : List Action)
    (hact : ∀ a ∈ actions, ∀ f, I f → I (act H marshal getenv P f a)) (h : I files) :
    I (operate H marshal getenv P actions files l).1 := by
  induction actions generalizing files l with
  | nil => exact h
  | cons a rest ih => exact ih (fun b hb => hact b (.tail _ hb)) (hact a (.head _) files h)

/-- A volume that is set up serves, with its key and the users of its file. -/
theorem runServe_complete (hW : Workable H marshal getenv own) (hc : Complete H getenv files)
    {key : Keys.Key} (hkey : files (masterKeyPath H (getenv envDataDir)) = some (.file key.val true))
    {users : List UserEntry} (hfile : files (getenv envUsersFile) = some (.file (marshal users) true))
    {s : UserSnapshot} (hs : loadUsersFile (.ofEntries users) = .ok s) :
    runServe H getenv files = .ready (resolved getenv) s key.val := by
  obtain ⟨files', hopen⟩ := hc.opens
  have htouches := (hW.touches _ _ hopen).1
  have hload : load getenv = .ok (resolved getenv) := by
    refine load_ok_iff.mpr ⟨rfl, hW.dataDir, hW.usersFile, ?_, hW.logLevel⟩
    show getenv envMasterKeyProvider ∈ _
    rw [hW.provider]
    decide
  have husers : loadUsers H files' (resolved getenv).usersFile = .ok s := by
    have hfile' : files' (getenv envUsersFile) = some (.file (marshal users) true) := by
      rw [htouches _ hW.users_foreign hW.users_ne_dir, hfile]
    rw [loadUsers, show (resolved getenv).usersFile = getenv envUsersFile from rfl,
      usersFileAt_marshal hW hfile', hs]
  have hkey' : files' (masterKeyPath H (getenv envDataDir)) = some (.file key.val true) := by
    rw [htouches _ hW.key_foreign hW.key_ne_dir, hkey]
  have hloaded : loadFromConfig H getenv files' (resolved getenv) = .ok key.val := by
    rw [loadFromConfig, if_pos (show (resolved getenv).masterKeyProvider = "file" from hW.provider)]
    change fileProviderLoad H files' (masterKeyPath H (getenv envDataDir)) = _
    simp only [fileProviderLoad, hkey', Node.read, key.property, ne_eq, not_true_eq_false, if_false]
  have hnew : encryptedNew key.val = .ok key.val := if_neg (not_not.mpr key.property)
  have hopen' : H.sqliteOpen (dbPath H (resolved getenv).dataDir) files = .ok files' := hopen
  simp only [runServe, hload, hopen', husers, hloaded, hnew]

/-- An operator runs `init` and user commands on a volume without key and users file, in
any order, with any of them failing. If one `init` has exited 0, `serve` gets to its
listener: with the key file as it has been ever since it was there, and with exactly the
tokens that the ledger has, under its ids. -/
theorem setup_serves (hW : Workable H marshal getenv own) (actions : List Action)
    (hwhole : ∀ a ∈ actions, a.whole = true)
    (hkey : files (masterKeyPath H (getenv envDataDir)) = none)
    (husers : files (getenv envUsersFile) = none)
    (hroom : actions.length < 2 ^ 63) (hnodup : (actions.flatMap (Action.tokens P)).Nodup)
    (hcollision : ∀ t ∈ actions.flatMap (Action.tokens P), Unforgeable P t)
    {before after : List Action} (hsplit : actions = before ++ .init turn :: after)
    (hinit : (runInit H marshal getenv turn
      (operate H marshal getenv P before files fun _ => none).1).code = 0) :
    ∃ s key, runServe H getenv (operate H marshal getenv P actions files fun _ => none).1 =
        .ready (resolved getenv) s key ∧
      (∀ t id, (∃ u, lookup P.sha256 s t = .ok u ∧ u.id = id) ↔
        (operate H marshal getenv P actions files fun _ => none).2 id = some t) ∧
      ∀ early, early <+: actions →
        (operate H marshal getenv P early files fun _ => none).1
            (masterKeyPath H (getenv envDataDir)) = none ∨
          (operate H marshal getenv P early files fun _ => none).1
            (masterKeyPath H (getenv envDataDir)) = some (.file key true) := by
  have hstart : Sane H marshal getenv P [] (fun _ => none) files :=
    ⟨.inl hkey, [], FirstFile.initialised.books, .inr ⟨rfl, husers⟩⟩
  have hsane := operate_sane hW actions hwhole hstart (by simpa using hroom) hnodup hcollision
  rw [List.nil_append] at hsane
  -- set up by the init that ended well, and kept so
  have hcomplete : Complete H getenv (operate H marshal getenv P actions files fun _ => none).1 := by
    subst hsplit
    rw [operate_append]
    refine operate_invariant (I := Complete H getenv) after (fun a ha f => ?_)
      (runInit_complete hW (hwhole (.init turn) (by simp)) hinit)
    exact act_complete hW (hwhole a (by simp [ha]))
  obtain ⟨users, hbooks, hfile | ⟨-, hnone⟩⟩ := hsane.users
  · obtain hnone | ⟨key, hkeyFile⟩ := hsane.key
    · exact absurd hnone hcomplete.key
    obtain ⟨s, hs⟩ := loads_ofEntries.mpr hbooks.valid
    refine ⟨s, key.val, runServe_complete hW hcomplete hkeyFile hfile hs,
      hbooks.accepts hcollision (loadUsersFile_ok hs).2.2, fun early hearly => ?_⟩
    obtain ⟨rest, rfl⟩ := hearly
    cases hnode : (operate H marshal getenv P early files fun _ => none).1
        (masterKeyPath H (getenv envDataDir)) with
    | none => exact .inl rfl
    | some node =>
      -- from here to the end the key file stays
      have hlast : (operate H marshal getenv P (early ++ rest) files fun _ => none).1
          (masterKeyPath H (getenv envDataDir)) = some node := by
        rw [operate_append]
        exact operate_invariant (I := fun f => f (masterKeyPath H (getenv envDataDir)) = some node) rest
          (fun a ha f => act_key hW (hwhole a (by simp [ha]))) hnode
      exact .inr (hlast.symm.trans hkeyFile)
  · exact absurd hnone hcomplete.users

end

/-! ## One user on a new machine -/

/-- The database opens and touches nothing. -/
def newHost (F : AtomicWrite.Format) : Host where
  join dir name := dir ++ "/" ++ name
  decode := F.parse
  sqliteOpen _ files := .ok files
  generate := .error (.text "no entropy")

def newSettings : Environment := Doctor.settings "/data/users.yml"

theorem newHost_workable (F : AtomicWrite.Format) :
    Workable (newHost F) F.marshal newSettings fun _ => False where
  dataDir := by decide
  usersFile := by decide
  provider := by decide
  logLevel := by decide
  key_ne_users := (by decide : "/data" ++ "/" ++ masterKeyFilename ≠ newSettings envUsersFile)
  key_ne_dir := (by decide : "/data" ++ "/" ++ masterKeyFilename ≠ newSettings envDataDir)
  users_ne_dir := by decide
  key_foreign h := h
  users_foreign h := h
  touches _ _ h := by
    cases h
    exact ⟨fun _ _ _ => rfl, fun h => h⟩
  depends _ files' _ _ _ := ⟨files', rfl⟩
  reopens _ _ files' _ := ⟨files', rfl⟩
  decode := F.parse_marshal

def calmTurn : InitTurn := ⟨none, .ok ⟨List.replicate 32 5, rfl⟩, none, none⟩

def firstSteps : List Action := [.init calmTurn, .user (invocation ["add", "alice"] 7)]

/-- The new token is the one the started server accepts for the id 1. -/
theorem setup_serves_alice : ∃ F : AtomicWrite.Format, ∃ s key,
    runServe (newHost F) newSettings (operate (newHost F) F.marshal newSettings twoTokenPlatform
      firstSteps (fun _ => none) fun _ => none).1 = .ready (resolved newSettings) s key ∧
    ∃ u, lookup twoTokenPlatform.sha256 s (plainToken 7) = .ok u ∧ u.id = 1 := by
  obtain ⟨F⟩ := AtomicWrite.exists_format
  have htokens : firstSteps.flatMap (Action.tokens twoTokenPlatform) = [plainToken 7] := rfl
  have hfile : usersFileAt (newHost F)
      (runInit (newHost F) F.marshal newSettings calmTurn fun _ => none).files
      (newSettings envUsersFile) = .ofEntries [] := F.parse_marshal []
  have hledger : (operate (newHost F) F.marshal newSettings twoTokenPlatform firstSteps
      (fun _ => none) fun _ => none).2 1 = some (plainToken 7) := by
    have hentered : (operate (newHost F) F.marshal newSettings twoTokenPlatform firstSteps
        (fun _ => none) fun _ => none).2 =
          entered twoTokenPlatform (inPlace newSettings (invocation ["add", "alice"] 7))
            (usersFileAt (newHost F)
              (runInit (newHost F) F.marshal newSettings calmTurn fun _ => none).files
              (newSettings envUsersFile)) fun _ => none := rfl
    rw [hentered, hfile]
    decide +kernel
  have hnodup : (firstSteps.flatMap (Action.tokens twoTokenPlatform)).Nodup := by
    rw [htokens]
    exact List.nodup_singleton _
  have hcollision : ∀ t ∈ firstSteps.flatMap (Action.tokens twoTokenPlatform),
      Unforgeable twoTokenPlatform t := by
    intro t ht
    rw [htokens] at ht
    rw [List.mem_singleton.mp ht]
    exact noCollision_seven []
  have hsplit : firstSteps = [] ++ .init calmTurn :: [.user (invocation ["add", "alice"] 7)] := rfl
  have hinit : (runInit (newHost F) F.marshal newSettings calmTurn (operate (newHost F) F.marshal
      newSettings twoTokenPlatform [] (fun _ => none) fun _ => none).1).code = 0 := rfl
  obtain ⟨s, key, hserve, haccepts, -⟩ := setup_serves (newHost_workable F) firstSteps
    (by decide) rfl rfl (by decide) hnodup hcollision hsplit hinit
  exact ⟨F, s, key, hserve, (haccepts _ _).mpr hledger⟩

end TabbySync.Setup
