import TabbySync.Auth.Users
import TabbySync.Store.Sqlite

/-! # The user commands

`tabby-sync user add`, `rm` and `rotate` edit users.yml: each reads the whole list,
changes one entry and writes the whole list back. The list is read without the
server's checks, so a command may meet, and may write, a list the server refuses.

What the commands take from outside is a parameter (`Platform`) or a field of the
invocation: the case folding of `strings.EqualFold`, `%q`, SHA-256, the environment,
the answer typed at the prompt, the random bytes of a token, and why a save fails. -/

namespace TabbySync.Cli

open Library.Text Auth

/-- Library functions the commands call. -/
structure Platform where
  /-- A representative of each character's class under simple case folding. -/
  fold : Char → Char
  quote : String → String
  sha256 : Bytes → Vector UInt8 32
  join : String → String → String

/-- A platform the commands can be run on: ASCII folding, and bytes of the token in
place of its hash. -/
def asciiPlatform : Platform where
  fold := Char.toLower
  quote s := "\"" ++ s ++ "\""
  sha256 bytes := Vector.ofFn fun i => bytes.getD (i.val + 4) 0
  join dir name := dir ++ "/" ++ name

inductive Stream
  | stdout
  | stderr
  deriving DecidableEq, Repr

abbrev Line := Stream × String

def printOut (text : String) : Line := (.stdout, text)
def printErr (text : String) : Line := (.stderr, text)

/-- One run of the program. `answer` is the word read at the prompt, `none` when
reading it fails. -/
structure Invocation where
  args : List String
  getenv : String → String
  answer : Option String
  random : Vector UInt8 32
  saveError : Option String

/-- A run that finds its file through `TABBY_SYNC_DATA_DIR`; a prompt is answered "y". -/
def invocation (args : List String) (byte : UInt8) : Invocation where
  args := ["tabby-sync", "user"] ++ args
  getenv key := if key = "TABBY_SYNC_DATA_DIR" then "/data" else ""
  answer := some "y"
  random := Vector.replicate 32 byte
  saveError := none

/-- How a command ends: its exit code, what it prints, and the list it wrote. -/
structure Result where
  code : Nat
  output : List Line
  saved : Option (List UserEntry)
  deriving DecidableEq, Repr

/-! ## Helpers -/

def resolveUsersFile (P : Platform) (getenv : String → String) : String :=
  if getenv "TABBY_SYNC_USERS_FILE" ≠ "" then getenv "TABBY_SYNC_USERS_FILE"
  else if getenv "TABBY_SYNC_DATA_DIR" ≠ "" then P.join (getenv "TABBY_SYNC_DATA_DIR") "users.yml"
  else ""

def loadUsersYAML : UsersFile → Except String (List UserEntry)
  | .unreadable why => .error ("cannot read users file: " ++ why)
  | .document d =>
    match d.lax with
    | .error why => .error ("cannot parse users file: " ++ why)
    | .ok users => .ok users

/-- The numeric id is tried first, then the name up to case. -/
def findUser (P : Platform) (users : List UserEntry) (target : String) :
    Option (Fin users.length) :=
  match (parseInt target).bind fun id => users.findFinIdx? fun u => u.id = id with
  | some i => some i
  | none => users.findFinIdx? fun u => equalFold P.fold u.name target

structure Token where
  plaintext : String
  hash : String
  shown : String
  deriving DecidableEq, Repr

def tokenPrefixStr : String := "tbs_"

/-- `shown` is the start of the token that users.yml keeps in clear. -/
def generateToken (P : Platform) (buf : Vector UInt8 32) : Token :=
  let plaintext := tokenPrefixStr ++ hexEncode buf.toList
  { plaintext
    hash := hexEncode (P.sha256 plaintext.toUTF8.toList).toList
    shown := String.ofList (plaintext.toList.take 12) }

def maxID (users : List UserEntry) : Int64 :=
  users.foldl (fun m u => if m < u.id then u.id else m) 0

/-! ## The edits

What each command does with the list it has read: end at once, or write a list back
and, when that succeeds, report. -/

inductive Plan
  | exit (code : Nat) (output : List Line)
  | save (before : List Line) (users : List UserEntry) (report : List Line)

def showID (id : Int64) : String := toString id.toInt

def newEntry (P : Platform) (name : String) (random : Vector UInt8 32) (users : List UserEntry) :
    UserEntry where
  id := maxID users + 1
  name := name
  tokenPrefix := (generateToken P random).shown
  tokenHash := (generateToken P random).hash
  disabled := false

def addEdit (P : Platform) (name : String) (random : Vector UInt8 32) (users : List UserEntry) :
    Plan :=
  match users.find? fun u => equalFold P.fold u.name name with
  | some u => .exit 1
      [printErr ("error: user " ++ P.quote name ++ " already exists (id=" ++ showID u.id ++ ")\n")]
  | none =>
    let e := newEntry P name random users
    .save [] (users ++ [e])
      [ printOut "user added:\n"
      , printOut ("  id:    " ++ showID e.id ++ "\n")
      , printOut ("  name:  " ++ name ++ "\n")
      , printOut ("  token: " ++ (generateToken P random).plaintext ++ "\n")
      , printOut "\nSave this token now — it will NOT be shown again.\n"
      , printOut "Restart the server to pick up the new user.\n" ]

def notFound (P : Platform) (target : String) : Plan :=
  .exit 1 [printErr ("error: user " ++ P.quote target ++ " not found\n")]

/-- Only "y" and "Y" lower-case to "y". -/
def confirmed (answer : Option String) : Bool :=
  answer.any fun a => toLower (trimSpace a) = "y"

def rmEdit (P : Platform) (force : Bool) (answer : Option String) (target : String)
    (users : List UserEntry) : Plan :=
  match findUser P users target with
  | none => notFound P target
  | some idx =>
    let removed := users.get idx
    let prompt := if force then [] else
      [ printOut ("about to remove user " ++ removed.name ++ " (id=" ++ showID removed.id ++
          "). This cannot be undone.\n")
      , printOut "Continue? [y/N] " ]
    if force || confirmed answer then
      .save prompt (users.eraseIdx idx)
        [ printOut ("user removed: " ++ removed.name ++ " (id=" ++ showID removed.id ++ ")\n")
        , printOut "Restart the server to apply changes.\n" ]
    else .exit 0 (prompt ++ [printOut "aborted.\n"])

def rotatedEntry (P : Platform) (random : Vector UInt8 32) (e : UserEntry) : UserEntry :=
  { e with
    tokenHash := (generateToken P random).hash
    tokenPrefix := (generateToken P random).shown }

def rotateEdit (P : Platform) (random : Vector UInt8 32) (target : String)
    (users : List UserEntry) : Plan :=
  match findUser P users target with
  | none => notFound P target
  | some idx =>
    let e := rotatedEntry P random (users.get idx)
    .save [] (users.set idx e)
      [ printOut ("token rotated for user " ++ e.name ++ " (id=" ++ showID e.id ++ "):\n")
      , printOut ("  token: " ++ (generateToken P random).plaintext ++ "\n")
      , printOut "\nSave this token now — it will NOT be shown again.\n"
      , printOut "The old token is immediately invalid after server restart.\n" ]

/-! ## The commands -/

/-- Carry out a plan: `saveUsersYAML` either replaces the file or leaves it. -/
def Plan.run (saveError : Option String) : Plan → Result
  | .exit code output => ⟨code, output, none⟩
  | .save before users report =>
    match saveError with
    | some why => ⟨1, before ++ [printErr ("error: cannot write users file: " ++ why ++ "\n")], none⟩
    | none => ⟨0, before ++ report, some users⟩

/-- The part the three commands share: find the file, read it, edit it, write it. -/
def editUsersFile (P : Platform) (inv : Invocation) (file : UsersFile) (noPath : String)
    (edit : List UserEntry → Plan) : Result :=
  if resolveUsersFile P inv.getenv = "" then ⟨2, [printErr noPath], none⟩
  else match loadUsersYAML file with
    | .error err => ⟨1, [printErr ("error: " ++ err ++ "\n")], none⟩
    | .ok users => (edit users).run inv.saveError

def runUserAdd (P : Platform) (inv : Invocation) (file : UsersFile) : Result :=
  match inv.args[3]? with
  | none => ⟨2, [printErr "Usage: tabby-sync user add <name>\n"], none⟩
  | some arg =>
    let name := trimSpace arg
    if name = "" then ⟨2, [printErr "error: name must not be empty\n"], none⟩
    else editUsersFile P inv file
      ("error: cannot determine users file path " ++
        "(set TABBY_SYNC_USERS_FILE or TABBY_SYNC_DATA_DIR)\n")
      (addEdit P name inv.random)

/-- The flag and the target among the arguments after `rm`. -/
def parseRm (args : List String) : Bool × String :=
  args.foldl (fun (force, target) arg =>
    if arg = "--force" ∨ arg = "-f" then (true, target)
    else if target = "" then (force, trimSpace arg)
    else (force, target)) (false, "")

def usageRm : Line := printErr "Usage: tabby-sync user rm [--force] <name|id>\n"

def runUserRm (P : Platform) (inv : Invocation) (file : UsersFile) : Result :=
  if inv.args.length < 4 then ⟨2, [usageRm], none⟩
  else
    let (force, target) := parseRm (inv.args.drop 3)
    if target = "" then ⟨2, [usageRm], none⟩
    else editUsersFile P inv file "error: cannot determine users file path\n"
      (rmEdit P force inv.answer target)

def runUserRotate (P : Platform) (inv : Invocation) (file : UsersFile) : Result :=
  match inv.args[3]? with
  | none => ⟨2, [printErr "Usage: tabby-sync user rotate <name|id>\n"], none⟩
  | some arg =>
    editUsersFile P inv file "error: cannot determine users file path\n"
      (rotateEdit P inv.random (trimSpace arg))

def usageUser : Line := printErr "Usage: tabby-sync user <add|rm|rotate> <name|id>\n"

def runUser (P : Platform) (inv : Invocation) (file : UsersFile) : Result :=
  match inv.args[2]? with
  | none => ⟨2, [usageUser], none⟩
  | some subcmd =>
    if subcmd = "add" then runUserAdd P inv file
    else if subcmd = "rm" ∨ subcmd = "remove" then runUserRm P inv file
    else if subcmd = "rotate" then runUserRotate P inv file
    else ⟨2, [printErr ("unknown user subcommand: " ++ subcmd ++ "\n"), usageUser], none⟩

/-- The users file after a command. -/
def Result.fileAfter (r : Result) (file : UsersFile) : UsersFile :=
  match r.saved with
  | none => file
  | some users => .ofEntries users

/-- The entries the commands see in a file. -/
def entriesOf (file : UsersFile) : List UserEntry :=
  match loadUsersYAML file with
  | .ok users => users
  | .error _ => []

/-! ## What a command can do to the list -/

/-- The list a command wrote, from the list it read. -/
inductive Edit (P : Platform) (inv : Invocation) (users : List UserEntry) :
    List UserEntry → Prop
  | added {arg : String} (sub : inv.args[2]? = some "add") (target : inv.args[3]? = some arg)
      (name : trimSpace arg ≠ "")
      (unused : ∀ u ∈ users, equalFold P.fold u.name (trimSpace arg) = false) :
      Edit P inv users (users ++ [newEntry P (trimSpace arg) inv.random users])
  | removed (sub : inv.args[2]? = some "rm" ∨ inv.args[2]? = some "remove")
      (idx : Fin users.length) : Edit P inv users (users.eraseIdx idx)
  | rotated (sub : inv.args[2]? = some "rotate") (idx : Fin users.length) :
      Edit P inv users (users.set idx (rotatedEntry P inv.random (users.get idx)))

section inversion

variable {P : Platform} {inv : Invocation} {file : UsersFile} {users users' : List UserEntry}

theorem Plan.run_saved {saveError : Option String} {plan : Plan}
    (h : (plan.run saveError).saved = some users') :
    ∃ before report, plan = .save before users' report := by
  cases plan with
  | exit code output => cases h
  | save before users report =>
    cases saveError with
    | some why => cases h
    | none => cases h; exact ⟨before, report, rfl⟩

theorem editUsersFile_saved {noPath : String} {edit : List UserEntry → Plan}
    (h : (editUsersFile P inv file noPath edit).saved = some users') :
    ∃ users before report, loadUsersYAML file = .ok users ∧
      edit users = .save before users' report := by
  unfold editUsersFile at h
  split at h; · cases h
  split at h; · cases h
  rename_i users hload
  obtain ⟨before, report, hplan⟩ := Plan.run_saved h
  exact ⟨users, before, report, hload, hplan⟩

/-- A command that exits 0 has read a list and carried out its plan for it. -/
theorem editUsersFile_ok {noPath : String} {edit : List UserEntry → Plan}
    (h : (editUsersFile P inv file noPath edit).code = 0) :
    ∃ users, loadUsersYAML file = .ok users ∧
      editUsersFile P inv file noPath edit = (edit users).run inv.saveError := by
  unfold editUsersFile at h ⊢
  split at h; · cases h
  rename_i hpath
  rw [if_neg hpath]
  split at h; · cases h
  rename_i users hload
  exact ⟨users, hload, rfl⟩

theorem Plan.run_ok {saveError : Option String} {plan : Plan} (h : (plan.run saveError).code = 0) :
    (∃ output, plan = .exit 0 output ∧ plan.run saveError = ⟨0, output, none⟩) ∨
      ∃ before users report, plan = .save before users report ∧
        plan.run saveError = ⟨0, before ++ report, some users⟩ := by
  cases plan with
  | exit code output =>
    cases h
    exact .inl ⟨output, rfl, rfl⟩
  | save before users report =>
    cases saveError with
    | some why => cases h
    | none => exact .inr ⟨before, users, report, rfl, rfl⟩

theorem addEdit_save {name : String} {random : Vector UInt8 32} {before report : List Line}
    (h : addEdit P name random users = .save before users' report) :
    (∀ u ∈ users, equalFold P.fold u.name name = false) ∧
      users' = users ++ [newEntry P name random users] := by
  unfold addEdit at h
  split at h; · cases h
  rename_i hnone
  cases h
  exact ⟨fun u hu => by simpa using List.find?_eq_none.mp hnone u hu, rfl⟩

theorem rmEdit_save {force : Bool} {answer : Option String} {target : String}
    {before report : List Line}
    (h : rmEdit P force answer target users = .save before users' report) :
    ∃ idx : Fin users.length, users' = users.eraseIdx idx := by
  unfold rmEdit at h
  split at h; · cases h
  rename_i idx _
  simp only at h
  split at h
  · cases h
    exact ⟨idx, rfl⟩
  · cases h

theorem rotateEdit_save {random : Vector UInt8 32} {target : String} {before report : List Line}
    (h : rotateEdit P random target users = .save before users' report) :
    ∃ idx : Fin users.length, users' = users.set idx (rotatedEntry P random (users.get idx)) := by
  unfold rotateEdit at h
  split at h; · cases h
  rename_i idx _
  cases h
  exact ⟨idx, rfl⟩

/-- Every list a command writes comes from the one it read by one edit. -/
theorem runUser_saved (h : (runUser P inv file).saved = some users') :
    ∃ users, loadUsersYAML file = .ok users ∧ Edit P inv users users' := by
  unfold runUser at h
  split at h; · cases h
  rename_i subcmd hsub
  split at h
  · rename_i hadd
    unfold runUserAdd at h
    split at h; · cases h
    rename_i arg harg
    simp only at h
    split at h; · cases h
    rename_i hname
    obtain ⟨users, _, _, hload, hplan⟩ := editUsersFile_saved h
    obtain ⟨hunused, rfl⟩ := addEdit_save hplan
    exact ⟨users, hload, .added (hadd ▸ hsub) harg hname hunused⟩
  split at h
  · rename_i hrm
    unfold runUserRm at h
    split at h; · cases h
    simp only at h
    split at h; · cases h
    obtain ⟨users, _, _, hload, hplan⟩ := editUsersFile_saved h
    obtain ⟨idx, rfl⟩ := rmEdit_save hplan
    have sub : inv.args[2]? = some "rm" ∨ inv.args[2]? = some "remove" := by
      rw [hsub]
      exact hrm.imp (congrArg some) (congrArg some)
    exact ⟨users, hload, .removed sub idx⟩
  split at h
  · rename_i hrotate
    unfold runUserRotate at h
    split at h; · cases h
    obtain ⟨users, _, _, hload, hplan⟩ := editUsersFile_saved h
    obtain ⟨idx, rfl⟩ := rotateEdit_save hplan
    exact ⟨users, hload, .rotated (hrotate ▸ hsub) idx⟩
  · cases h

/-- An `add` that exits 0 wrote its list; only `rm` can succeed without writing. -/
theorem runUser_add_saved (sub : inv.args[2]? = some "add") (ok : (runUser P inv file).code = 0) :
    ∃ users', (runUser P inv file).saved = some users' := by
  have hadd : runUser P inv file = runUserAdd P inv file := by
    unfold runUser
    rw [sub]
    rfl
  rw [hadd] at ok ⊢
  unfold runUserAdd at ok ⊢
  split at ok; · cases ok
  simp only at ok ⊢
  split at ok; · cases ok
  rename_i hname
  rw [if_neg hname]
  unfold editUsersFile at ok ⊢
  split at ok; · cases ok
  rename_i hpath
  rw [if_neg hpath]
  split at ok; · cases ok
  unfold addEdit at ok ⊢
  split at ok; · cases ok
  unfold Plan.run at ok ⊢
  simp only at ok ⊢
  split at ok
  · cases ok
  · exact ⟨_, rfl⟩

end inversion

end TabbySync.Cli
