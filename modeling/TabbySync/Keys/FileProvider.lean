import TabbySync.Library.FileSystem
import TabbySync.Library.Interleaving
import TabbySync.Store.Contract

/-! # The master key file

`FileProvider.Load` returns the key on disk or, on a first run, makes one: it writes a
temporary file in the same directory and renames it into place. `tabby-sync init` makes
one too, by writing the file directly. Both find out that there is no key in one step
and install theirs in a later one, and neither looks again.

Calls are machines that make one file operation a step, any of which the environment
may let fail. The temporary file of a call is named after the call: `os.CreateTemp` does
not give one name to two calls. Modes and the parent directory have no part in what is
read back, but the operations that set them are steps that can fail. -/

namespace TabbySync.Keys

open Library

def masterKeySize : Nat := 32

/-- A master key. -/
abbrev Key := { bytes : Bytes // bytes.length = masterKeySize }

inductive Path (ι : Type)
  | masterKey
  | temp (call : ι)
  deriving DecidableEq

abbrev Files (ι : Type) := FileSystem (Path ι)

def errInvalidLength : GoError := .text "keys: master key has wrong length"
def errNotExist : GoError := .text "no such file or directory"

def wrapPathError (op : String) (err : GoError) : GoError := .wrap ("keys: " ++ op) err

/-- What the environment hands one step: random bytes, whether the step's system call
fails, and how far a write that fails has got. -/
structure Env where
  random : Key
  fails : Option GoError
  written : Nat

/-! ## FileProvider.Load -/

/-- The calls on the temporary file between its creation and the rename. -/
inductive TempOp
  | chmod
  | write
  | fsync
  | close
  deriving DecidableEq

def TempOp.text : TempOp → String
  | .chmod => "chmod master key temp file"
  | .write => "write master key temp file"
  | .fsync => "fsync master key temp file"
  | .close => "close master key temp file"

/-- Whether the key is in the temporary file when this call is due. -/
def TempOp.written : TempOp → Bool
  | .chmod | .write => false
  | .fsync | .close => true

inductive LoadPc
  | read
  | mkdir
  | generate
  | createTemp (key : Key)
  | temp (op : TempOp) (file : Nat) (key : Key)
  | rename (key : Key)
  | chmod (key : Key)
  | returned (r : Except GoError Key)

variable {ι : Type} [DecidableEq ι]

/-- Once the temporary file exists, every return removes it. -/
def abandon (i : ι) (fs : Files ι) (op : String) (err : GoError) : Files ι × LoadPc :=
  (fs.remove (.temp i), .returned (.error (wrapPathError op err)))

def loadStep (i : ι) (env : Env) (fs : Files ι) : LoadPc → Files ι × LoadPc
  | .read =>
    match env.fails with
    | some err => (fs, .returned (.error (wrapPathError "read master key" err)))
    | none =>
      match fs.read .masterKey with
      | none => (fs, .mkdir)
      | some raw =>
        if h : raw.length = masterKeySize then (fs, .returned (.ok ⟨raw, h⟩))
        else (fs, .returned (.error errInvalidLength))
  | .mkdir =>
    match env.fails with
    | some err => (fs, .returned (.error (wrapPathError "create master key parent dir" err)))
    | none => (fs, .generate)
  | .generate =>
    match env.fails with
    | some err => (fs, .returned (.error (.wrap "generate master key" err)))
    | none => (fs, .createTemp env.random)
  | .createTemp key =>
    match env.fails with
    | some err => (fs, .returned (.error (wrapPathError "create master key temp file" err)))
    | none => (fs.create (.temp i), .temp .chmod fs.fresh key)
  | .temp op file key =>
    match env.fails with
    | some err => abandon i fs op.text err
    | none =>
      match op with
      | .chmod => (fs, .temp .write file key)
      | .write => (fs.write file key.val, .temp .fsync file key)
      | .fsync => (fs, .temp .close file key)
      | .close => (fs, .rename key)
  | .rename key =>
    match env.fails with
    | some err => abandon i fs "rename master key into place" err
    | none =>
      match fs.rename (.temp i) .masterKey with
      | none => abandon i fs "rename master key into place" errNotExist
      | some fs' => (fs', .chmod key)
  | .chmod key =>
    match env.fails with
    | some err => abandon i fs "chmod master key" err
    | none => (fs.remove (.temp i), .returned (.ok key))
  | .returned r => (fs, .returned r)

/-! ## The master key part of init, under the file provider -/

inductive InitResult
  | installed (key : Key)
  | alreadyExists
  | failed (text : String) (err : GoError)

inductive InitPc
  | stat
  | generate
  | openFile (key : Key)
  | writeFile (file : Nat) (key : Key)
  | closeFile (key : Key)
  | finished (r : InitResult)

/-- A `Stat` that fails for another reason than a missing file counts as a file. -/
def initStep (env : Env) (fs : Files ι) : InitPc → Files ι × InitPc
  | .stat =>
    match env.fails, fs.entry .masterKey with
    | none, none => (fs, .generate)
    | _, _ => (fs, .finished .alreadyExists)
  | .generate =>
    match env.fails with
    | some err => (fs, .finished (.failed "error: failed to generate master key: " err))
    | none => (fs, .openFile env.random)
  | .openFile key =>
    match env.fails with
    | some err => (fs, .finished (.failed "error: failed to write master key: " err))
    | none => ((fs.openTruncate .masterKey).1, .writeFile (fs.openTruncate .masterKey).2 key)
  | .writeFile file key =>
    match env.fails with
    | some err =>
      (fs.write file (key.val.take env.written),
        .finished (.failed "error: failed to write master key: " err))
    | none => (fs.write file key.val, .closeFile key)
  | .closeFile key =>
    match env.fails with
    | some err => (fs, .finished (.failed "error: failed to write master key: " err))
    | none => (fs, .finished (.installed key))
  | .finished r => (fs, .finished r)

/-! ## Calls side by side -/

inductive Proc (ι : Type)
  | load (call : ι) (pc : LoadPc)
  | init (pc : InitPc)

def step (env : Env) (fs : Files ι) : Proc ι → Files ι × Proc ι
  | .load i pc => ((loadStep i env fs pc).1, .load i (loadStep i env fs pc).2)
  | .init pc => ((initStep env fs pc).1, .init (initStep env fs pc).2)

/-- The key a finished call returned or installed. -/
def Proc.key : Proc ι → Option Key
  | .load _ (.returned (.ok key)) => some key
  | .init (.finished (.installed key)) => some key
  | _ => none

inductive Call
  | load
  | init

/-- Calls that have not begun, over some files. -/
def start (fs : Files ι) (calls : ι → Call) : Pool (Files ι) ι (Proc ι) where
  shared := fs
  procs i := match calls i with
    | .load => .load i .read
    | .init => .init .stat

end TabbySync.Keys
