import Mathlib.Data.List.Sort
import TabbySync.Cli.Startup
import TabbySync.Library.Replace

/-! # Paths in the log

`scrubPaths` washes the paths of an installation out of an error text before it is logged:
one secret after the other, the longest first, each replaced everywhere by a marker. Later
replacements work on text that already has markers in it, so what has to be ruled out is
that a marker, or the closing up around one, spells a secret again.

A Go string is the list of its bytes here, whether they are UTF-8 or not. -/

namespace TabbySync.Scrub
open TabbySync.Library.Replace TabbySync.Startup

def utf8 (s : String) : Bytes := s.toUTF8.data.toList

theorem utf8_ne_nil {s : String} (h : s ≠ "") : utf8 s ≠ [] := by
  intro hnil
  have hdata : s.toByteArray.data = #[] := Array.toList_eq_nil_iff.mp hnil
  exact h (String.toByteArray_eq_empty_iff.mp (ByteArray.ext hdata))

/-- `sort.Slice` under the comparison of `scrubPaths`. It is not stable: the order of
strings of one length is left to it. -/
structure SliceSort where
  sort : List Bytes → List Bytes
  perm : ∀ l, (sort l).Perm l
  longestFirst : ∀ l, (sort l).Pairwise fun a b => b.length ≤ a.length

/-- How `sort.Slice` sorts up to twelve elements. -/
def SliceSort.insertion : SliceSort where
  sort := List.insertionSort fun a b => b.length ≤ a.length
  perm := List.perm_insertionSort _
  longestFirst := List.pairwise_insertionSort _

/-- The marker. -/
def redacted : Bytes := utf8 "<redacted>"

/-- One turn of the loop. -/
def scrubSecret (msg s : Bytes) : Bytes := if s = [] then msg else replaceAll s redacted msg

def scrubPaths (S : SliceSort) (msg : Bytes) (secrets : List Bytes) : Bytes :=
  (S.sort secrets).foldl scrubSecret msg

/-- The secret has neither bracket of the marker and is no part of it. -/
def Plain (s : Bytes) : Prop := 0x3C ∉ s ∧ 0x3E ∉ s ∧ ¬ s <:+: redacted

instance (s : Bytes) : Decidable (Plain s) := by unfold Plain; infer_instance

/-! ## What is left of a secret -/

section
variable {s : Bytes}

theorem redacted_eq : redacted = fenced 0x3C 0x3E (utf8 "redacted") := by decide +kernel

theorem Plain.foreign (h : Plain s) : Foreign 0x3C 0x3E (utf8 "redacted") s :=
  ⟨h.1, h.2.1, redacted_eq ▸ h.2.2⟩

/-- A secret that is gone stays gone, whatever is replaced next. -/
theorem Plain.infix_scrubSecret (h : Plain s) {msg t : Bytes} (hs : s <:+: scrubSecret msg t) :
    s <:+: msg := by
  unfold scrubSecret at hs
  split at hs
  · exact hs
  · rw [redacted_eq] at hs
    exact h.foreign.infix_replaceAll hs

theorem Plain.infix_foldl (h : Plain s) {ordered : List Bytes} {msg : Bytes}
    (hs : s <:+: ordered.foldl scrubSecret msg) : s <:+: msg := by
  induction ordered generalizing msg with
  | nil => exact hs
  | cons t ordered ih => exact h.infix_scrubSecret (ih hs)

theorem Plain.not_infix_scrubSecret (h : Plain s) (hne : s ≠ []) (msg : Bytes) :
    ¬ s <:+: scrubSecret msg s := by
  rw [scrubSecret, if_neg hne, redacted_eq]
  exact h.foreign.not_infix_replaceAll hne msg

/-- The loop takes out a secret at its turn, and no later turn brings it back. -/
theorem Plain.not_infix_foldl (h : Plain s) (hne : s ≠ []) {ordered : List Bytes}
    (hmem : s ∈ ordered) (msg : Bytes) : ¬ s <:+: ordered.foldl scrubSecret msg := by
  obtain ⟨done, todo, rfl⟩ := List.append_of_mem hmem
  rw [List.foldl_append, List.foldl_cons]
  intro hs
  exact h.not_infix_scrubSecret hne _ (h.infix_foldl hs)

/-- No secret is left in a scrubbed message. -/
theorem scrubPaths_hides (S : SliceSort) (msg : Bytes) (secrets : List Bytes)
    (plain : ∀ s ∈ secrets, s ≠ [] → Plain s) :
    ∀ s ∈ secrets, s ≠ [] → ¬ s <:+: scrubPaths S msg secrets := by
  intro s hs hne
  exact (plain s hs hne).not_infix_foldl hne ((S.perm secrets).mem_iff.mpr hs) msg

/-- A data directory, a file in it, and a directory whose path overlaps both. -/
def samplePaths : List Bytes := [utf8 "/data", utf8 "/data/tabby-sync.db", utf8 "db/data"]

theorem scrubPaths_hides_sample :
    scrubPaths .insertion (utf8 "open /data/tabby-sync.db/data/data: locked") samplePaths =
        utf8 "open <redacted><redacted><redacted>: locked" ∧
      ∀ s ∈ samplePaths, s ≠ [] →
        ¬ s <:+: scrubPaths .insertion (utf8 "open /data/tabby-sync.db/data/data: locked")
          samplePaths :=
  ⟨by decide +kernel, scrubPaths_hides .insertion _ samplePaths (by decide +kernel)⟩

end

/-! ## What else a caller may rely on -/

/-- A message without secrets is logged as it is. -/
theorem scrubPaths_of_absent (S : SliceSort) {msg : Bytes} {secrets : List Bytes}
    (h : ∀ s ∈ secrets, s ≠ [] → ¬ s <:+: msg) : scrubPaths S msg secrets = msg := by
  have hturn : ∀ s ∈ S.sort secrets, scrubSecret msg s = msg := by
    intro s hs
    unfold scrubSecret
    split
    · rfl
    · rename_i hne
      exact replaceAll_of_not_infix (h s ((S.perm secrets).mem_iff.mp hs) hne)
  unfold scrubPaths
  generalize S.sort secrets = ordered at hturn
  induction ordered with
  | nil => rfl
  | cons s ordered ih =>
    rw [List.foldl_cons, hturn s List.mem_cons_self]
    exact ih fun t ht => hturn t (List.mem_cons_of_mem s ht)

/-- The order of the arguments does not matter, nor how ties are sorted, as long as no two
secrets are of one length. -/
theorem scrubPaths_perm (S S' : SliceSort) (msg : Bytes) {secrets secrets' : List Bytes}
    (hperm : secrets.Perm secrets')
    (hlength : ∀ s ∈ secrets, ∀ t ∈ secrets, s.length = t.length → s = t) :
    scrubPaths S msg secrets = scrubPaths S' msg secrets' := by
  have hsorted : (S.sort secrets).Perm (S'.sort secrets') :=
    (S.perm secrets).trans (hperm.trans (S'.perm secrets').symm)
  have hsame : S.sort secrets = S'.sort secrets' := by
    refine hsorted.eq_of_pairwise ?_ (S.longestFirst secrets) (S'.longestFirst secrets')
    intro s t hs ht hle hge
    have hs' := (S.perm secrets).mem_iff.mp hs
    have ht' := hperm.mem_iff.mpr ((S'.perm secrets').mem_iff.mp ht)
    exact hlength s hs' t ht' (le_antisymm hge hle)
  rw [scrubPaths, scrubPaths, hsame]

/-! ## The log of a failed start -/

/-- An ERROR line of `runServe`: what failed, one attribute, and the error. -/
structure ErrorLine where
  msg : String
  about : String × String
  err : Bytes

def redactPath (v : String) : String := if v = "" then "<unset>" else "<set>"

section
variable (S : SliceSort) (H : Host) (cfg : ServerConfig) (e : GoError)

def errorLine (msg : String) (about : String × String) (secrets : List String) : ErrorLine :=
  ⟨msg, about, scrubPaths S (utf8 e.message) (secrets.map utf8)⟩

def openFailed : ErrorLine :=
  errorLine S e "failed to open sqlite store" ("data_dir", redactPath cfg.dataDir)
    [dbPath H cfg.dataDir, masterKeyPath H cfg.dataDir, cfg.dataDir]

def usersFailed : ErrorLine :=
  errorLine S e "failed to load users file" ("users_file", redactPath cfg.usersFile)
    [cfg.usersFile, masterKeyPath H cfg.dataDir, cfg.dataDir]

def keyFailed : ErrorLine :=
  errorLine S e "failed to load master key" ("provider", cfg.masterKeyProvider)
    [masterKeyPath H cfg.dataDir, dbPath H cfg.dataDir, cfg.usersFile, cfg.dataDir]

def wrapFailed : ErrorLine :=
  errorLine S e "failed to wrap store with encryption" ("provider", cfg.masterKeyProvider)
    [masterKeyPath H cfg.dataDir, dbPath H cfg.dataDir, cfg.usersFile, cfg.dataDir]

end

/-- What `runServe` logs when a loader fails. A bad configuration is printed before there is
a logger. -/
def startLog (S : SliceSort) (H : Host) (getenv : Environment) (files : Files) :
    Option ErrorLine :=
  match load getenv with
  | .error _ => none
  | .ok cfg =>
    match H.sqliteOpen (dbPath H cfg.dataDir) files with
    | .error e => some (openFailed S H cfg e)
    | .ok files' =>
      match loadUsers H files' cfg.usersFile with
      | .error e => some (usersFailed S H cfg e)
      | .panic _ => none
      | .ok _ =>
        match loadFromConfig H getenv files' cfg with
        | .error e => some (keyFailed S H cfg e)
        | .ok masterKey =>
          match encryptedNew masterKey with
          | .error e => some (wrapFailed S H cfg e)
          | .ok _ => none

/-- A start that a loader ends logs the error it ends with, and every such line is scrubbed
of the data directory and of the path of the key file. -/
theorem startLog_cases (S : SliceSort) (H : Host) (getenv : Environment) (files : Files) :
    (startLog S H getenv files = none ∧ ∀ e, runServe H getenv files ≠ .exited 1 e) ∨
      ∃ cfg e msg about secrets, load getenv = .ok cfg ∧ runServe H getenv files = .exited 1 e ∧
        startLog S H getenv files = some (errorLine S e msg about secrets) ∧
        cfg.dataDir ∈ secrets ∧ masterKeyPath H cfg.dataDir ∈ secrets := by
  unfold startLog runServe
  cases hcfg : load getenv with
  | error e => exact .inl ⟨rfl, by simp⟩
  | ok cfg =>
    simp only
    cases H.sqliteOpen (dbPath H cfg.dataDir) files with
    | error e => exact .inr ⟨cfg, e, _, _, _, rfl, rfl, rfl, by simp, by simp⟩
    | ok files' =>
      simp only
      cases loadUsers H files' cfg.usersFile with
      | error e => exact .inr ⟨cfg, e, _, _, _, rfl, rfl, rfl, by simp, by simp⟩
      | panic msg => exact .inl ⟨rfl, by simp⟩
      | ok users =>
        simp only
        cases loadFromConfig H getenv files' cfg with
        | error e => exact .inr ⟨cfg, e, _, _, _, rfl, rfl, rfl, by simp, by simp⟩
        | ok masterKey =>
          simp only
          cases encryptedNew masterKey with
          | error e => exact .inr ⟨cfg, e, _, _, _, rfl, rfl, rfl, by simp, by simp⟩
          | ok key => exact .inl ⟨rfl, by simp⟩

/-- A start that fails with code 1 logs an error that shows neither the data directory nor
the path of the key file. -/
theorem failed_start_hides (S : SliceSort) {H : Host} {getenv : Environment} {files : Files}
    {e : GoError} (h : runServe H getenv files = .exited 1 e) :
    ∃ line, startLog S H getenv files = some line ∧
      ∀ path, path = getenv envDataDir ∨ path = masterKeyPath H (getenv envDataDir) →
        path ≠ "" → Plain (utf8 path) → ¬ utf8 path <:+: line.err := by
  rcases startLog_cases S H getenv files with ⟨-, hno⟩ | ⟨cfg, e', msg, about, secrets, hcfg,
    -, hline, hdir, hkey⟩
  · exact absurd h (hno e)
  · obtain ⟨rfl, -⟩ := load_ok_iff.mp hcfg
    refine ⟨_, hline, ?_⟩
    intro path hpath hne hplain
    have hsecret : path ∈ secrets := by
      rcases hpath with rfl | rfl
      · exact hdir
      · exact hkey
    exact hplain.not_infix_foldl (utf8_ne_nil hne)
      ((S.perm _).mem_iff.mpr (List.mem_map_of_mem hsecret)) _

end TabbySync.Scrub
