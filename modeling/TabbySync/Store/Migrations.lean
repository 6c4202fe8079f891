import Mathlib.Data.List.Sort
import TabbySync.Library.Interleaving
import TabbySync.Library.Text
import TabbySync.Store.Contract

/-! # Schema migrations

`loadMigrations` and `applyMigrations`, run by any number of openers of one database.
What an SQL statement does to the tables is a parameter; what a migration's transaction
does with its statements is modelled. A transaction is one step: it commits as a whole
or, whichever of its statements fails, leaves the database alone. A process that
crashes is one that is not scheduled again.

The set of applied versions is read once, before the transactions, so two openers can
both set out to run a migration; the primary key of `schema_migrations` lets one of
them through. -/

namespace TabbySync.Migrations
open TabbySync.Library TabbySync.Library.Text

/-! ## Loading -/

/-- An entry of the embedded directory, with the file's contents. -/
structure Entry where
  name : String
  isDir : Bool
  body : String
  deriving DecidableEq, Repr

structure Migration where
  version : Nat
  name : String
  sql : String
  deriving DecidableEq, Repr

def isNameChar (c : Char) : Bool :=
  ('a' ≤ c && c ≤ 'z') || c.isDigit || c == '.' || c == '_' || c == '-'

/-- `migrationFilenamePattern.FindStringSubmatch`: the two groups of
`^([0-9]{3})_([a-z0-9._-]+)\.sql$`. -/
def matchFilename (name : String) : Option (List Char × List Char) :=
  match name.toList with
  | a :: b :: c :: '_' :: rest =>
    if [a, b, c].all Char.isDigit && rest.rtake 4 == ".sql".toList &&
        rest.rdrop 4 != [] && (rest.rdrop 4).all isNameChar then
      some ([a, b, c], rest.rdrop 4)
    else none
  | _ => none

/-- `strconv.Atoi` of digits. -/
def atoi (digits : List Char) : Nat := digits.foldl (fun n c => 10 * n + (c.toNat - 48)) 0

/-- The loop over the directory. `quote` renders a name as `%q` does. -/
def readEntries (quote : String → String) : List Entry → Except GoError (List Migration)
  | [] => .ok []
  | e :: es =>
    if e.isDir then readEntries quote es
    else
      match matchFilename e.name with
      | none => .error (.text ("invalid migration filename: " ++ quote e.name))
      | some (digits, name) =>
        match readEntries quote es with
        | .error err => .error err
        | .ok migs => .ok ({ version := atoi digits, name := String.ofList name, sql := e.body } :: migs)

/-- The versions from index `i` on are `i + 1`, `i + 2`, … -/
def checkVersions : Nat → List Migration → Except GoError Unit
  | _, [] => .ok ()
  | i, m :: migs =>
    if m.version ≠ i + 1 then
      .error (.text ("migration versions must start at 001 and be contiguous; got version " ++
        toString m.version ++ " at index " ++ toString i))
    else checkVersions (i + 1) migs

def sortByVersion (migs : List Migration) : List Migration :=
  migs.insertionSort fun a b => a.version ≤ b.version

def loadMigrations (quote : String → String) (entries : List Entry) :
    Except GoError (List Migration) :=
  match readEntries quote entries with
  | .error e => .error e
  | .ok migs =>
    match checkVersions 0 (sortByVersion migs) with
    | .error e => .error e
    | .ok () => .ok (sortByVersion migs)

def splitSQLStatements (raw : String) : List String :=
  ((raw.toList.splitOn ';').map fun p => trimSpace (String.ofList p)).filter (· ≠ "")

/-! ## Applying -/

/-- The tables: the versions in `schema_migrations`, if it exists, and all else. -/
structure Tables (σ : Type) where
  schemaMigrations : Option (List Nat)
  rest : σ

/-- What a statement does to the tables, or the driver's message. -/
abbrev Sql (σ : Type) := String → Tables σ → Except String (Tables σ)

/-- The tables, with every statement executed on the way to them, in order, under the
version of its migration. -/
structure Database (σ : Type) where
  tables : Tables σ
  executed : List (Nat × String)

/-- Where a transaction can fail; `exec n` is its statement number `n`. -/
inductive Stage
  | begin
  | exec (n : Nat)
  | record
  | commit
  deriving DecidableEq, Repr

/-- What the environment hands a step: where it is to fail, and with which message. -/
structure Turn where
  fails : Option (Stage × String)

def Turn.failure (turn : Turn) (stage : Stage) : Option String :=
  match turn.fails with
  | some (s, msg) => if s = stage then some msg else none
  | none => none

section
variable {σ : Type} (quote : String → String) (exec : Sql σ)

def execStatements (turn : Turn) (version : Nat) :
    Nat → List String → Database σ → Except GoError (Database σ)
  | _, [], db => .ok db
  | n, stmt :: stmts, db =>
    match turn.failure (.exec n) with
    | some msg => .error (.text msg)
    | none =>
      match exec stmt db.tables with
      | .error msg => .error (.text msg)
      | .ok tables =>
        execStatements turn version (n + 1) stmts ⟨tables, db.executed ++ [(version, stmt)]⟩

/-- `INSERT INTO schema_migrations`, whose version is the primary key. -/
def recordVersion (version : Nat) (db : Database σ) : Except String (Database σ) :=
  match db.tables.schemaMigrations with
  | none => .error "no such table: schema_migrations"
  | some versions =>
    if version ∈ versions then .error "UNIQUE constraint failed: schema_migrations.version"
    else .ok { db with tables := { db.tables with
      schemaMigrations := some (versions ++ [version]) } }

/-- One migration in its transaction. -/
def applyMigration (turn : Turn) (m : Migration) (db : Database σ) :
    Except GoError (Database σ) :=
  match turn.failure .begin with
  | some msg => .error (.wrap "begin tx" (.text msg))
  | none =>
    match execStatements exec turn m.version 0 (splitSQLStatements m.sql) db with
    | .error e => .error (.wrap "exec statement" e)
    | .ok db' =>
      match turn.failure .record with
      | some msg => .error (.wrap "record migration" (.text msg))
      | none =>
        match recordVersion m.version db' with
        | .error msg => .error (.wrap "record migration" (.text msg))
        | .ok db'' =>
          match turn.failure .commit with
          | some msg => .error (.wrap "commit tx" (.text msg))
          | none => .ok db''

/-- `applyMigrations` of one opener, by what it has left to do. -/
inductive Opener
  | load (entries : List Entry)
  | createTable (migs : List Migration)
  | loadAppliedVersions (migs : List Migration)
  | applying (applied : List Nat) (migs : List Migration)
  | returned (r : Except GoError Unit)

/-- The `%03d_%s` of an error. -/
def label (m : Migration) : String :=
  String.ofList ((toString m.version).toList.leftpad 3 '0') ++ "_" ++ m.name

def step (turn : Turn) (db : Database σ) : Opener → Database σ × Opener
  | .load entries =>
    match loadMigrations quote entries with
    | .error e => (db, .returned (.error (.wrap "load migrations" e)))
    | .ok migs => (db, .createTable migs)
  | .createTable migs =>
    match turn.fails with
    | some (_, msg) => (db, .returned (.error (.wrap "create schema_migrations" (.text msg))))
    | none =>
      -- CREATE TABLE IF NOT EXISTS
      ({ db with tables := { db.tables with
          schemaMigrations := some (db.tables.schemaMigrations.getD []) } },
        .loadAppliedVersions migs)
  | .loadAppliedVersions migs =>
    match turn.fails, db.tables.schemaMigrations with
    | some (_, msg), _ => (db, .returned (.error (.wrap "load applied migrations" (.text msg))))
    | none, none => (db, .returned (.error (.wrap "load applied migrations"
        (.text "no such table: schema_migrations"))))
    | none, some versions => (db, .applying versions migs)
  | .applying _ [] => (db, .returned (.ok ()))
  | .applying applied (m :: migs) =>
    if m.version ∈ applied then (db, .applying applied migs)
    else
      match applyMigration exec turn m db with
      | .error e => (db, .returned (.error (.wrap ("apply migration " ++ label m) e)))
      | .ok db' => (db', .applying applied migs)
  | .returned r => (db, .returned r)

end

/-! ## What is accepted -/

/-- The pattern of a migration's file name, with its two groups. -/
structure FilenamePattern (name : String) (digits short : List Char) : Prop where
  text : name.toList = digits ++ '_' :: (short ++ ".sql".toList)
  three : digits.length = 3
  digit : ∀ c ∈ digits, c.isDigit = true
  nonempty : short ≠ []
  allowed : ∀ c ∈ short, isNameChar c = true

theorem matchFilename_some {name : String} {digits short : List Char}
    (h : matchFilename name = some (digits, short)) : FilenamePattern name digits short := by
  unfold matchFilename at h
  split at h
  · rename_i a b c rest htext
    split at h
    · rename_i hcond
      simp only [Bool.and_eq_true, beq_iff_eq, bne_iff_ne, ne_eq, List.all_eq_true] at hcond
      obtain ⟨⟨⟨hdigits, hsql⟩, hne⟩, hall⟩ := hcond
      cases h
      refine ⟨?_, rfl, hdigits, hne, hall⟩
      rw [htext, ← hsql, List.rdrop, List.rtake, List.take_append_drop]
      rfl
    · cases h
  · cases h

theorem checkVersions_ok {i : Nat} {migs : List Migration} (h : checkVersions i migs = .ok ()) :
    migs.map Migration.version = List.range' (i + 1) migs.length := by
  induction migs generalizing i with
  | nil => rfl
  | cons m migs ih =>
    simp only [checkVersions] at h
    split at h
    · cases h
    · rename_i hv
      rw [List.map_cons, List.length_cons, List.range'_succ, ih h, not_not.mp hv]

theorem readEntries_ok {quote : String → String} {entries : List Entry} {migs : List Migration}
    (h : readEntries quote entries = .ok migs) :
    ∀ e ∈ entries, e.isDir = false → ∃ digits short, FilenamePattern e.name digits short := by
  induction entries generalizing migs with
  | nil =>
    intro e he
    cases he
  | cons e es ih =>
    simp only [readEntries] at h
    intro e' he' hfile
    rcases List.mem_cons.mp he' with rfl | hrest
    · rw [hfile] at h
      simp only [Bool.false_eq_true, if_false] at h
      split at h
      · cases h
      · rename_i digits short hmatch
        exact ⟨digits, short, matchFilename_some hmatch⟩
    · split at h
      · exact ih h e' hrest hfile
      · split at h
        · cases h
        · split at h
          · cases h
          · rename_i hes
            exact ih hes e' hrest hfile

/-- A directory that is accepted, with the migrations it is loaded as. -/
structure Accepted (quote : String → String) (entries : List Entry) (migs : List Migration) :
    Prop where
  named : ∀ e ∈ entries, e.isDir = false → ∃ digits short, FilenamePattern e.name digits short
  versions : migs.map Migration.version = List.range' 1 migs.length
  all : ∃ read, readEntries quote entries = .ok read ∧ migs.Perm read

theorem loadMigrations_ok {quote : String → String} {entries : List Entry}
    {migs : List Migration} (h : loadMigrations quote entries = .ok migs) :
    Accepted quote entries migs := by
  unfold loadMigrations at h
  split at h
  · cases h
  · rename_i read hread
    split at h
    · cases h
    · rename_i hcheck
      cases h
      exact ⟨readEntries_ok hread, checkVersions_ok hcheck, read, hread, List.perm_insertionSort _ _⟩

/-! ## What a transaction does -/

section
variable {σ : Type} {exec : Sql σ}

/-- The statement leaves `schema_migrations` as it is. -/
def KeepsVersions (exec : Sql σ) (stmt : String) : Prop :=
  ∀ versions rest t', exec stmt ⟨some versions, rest⟩ = .ok t' → t'.schemaMigrations = some versions

/-- The statements of a migration, under its version. -/
def statements (m : Migration) : List (Nat × String) :=
  (splitSQLStatements m.sql).map fun stmt => (m.version, stmt)

theorem execStatements_ok {turn : Turn} {version n : Nat} {stmts : List String}
    {db db' : Database σ} {versions : List Nat} (hkeep : ∀ stmt ∈ stmts, KeepsVersions exec stmt)
    (hdb : db.tables.schemaMigrations = some versions)
    (h : execStatements exec turn version n stmts db = .ok db') :
    db'.tables.schemaMigrations = some versions ∧
      db'.executed = db.executed ++ stmts.map fun stmt => (version, stmt) := by
  induction stmts generalizing n db with
  | nil =>
    cases h
    exact ⟨hdb, by simp⟩
  | cons stmt stmts ih =>
    simp only [execStatements] at h
    split at h
    · cases h
    · split at h
      · cases h
      · rename_i tables hexec
        have htables : tables.schemaMigrations = some versions :=
          hkeep stmt (by simp) versions db.tables.rest tables (by rw [← hdb]; exact hexec)
        obtain ⟨hv, hlog⟩ := ih (fun s hs => hkeep s (by simp [hs])) htables h
        refine ⟨hv, ?_⟩
        rw [hlog, List.append_assoc, List.map_cons]
        rfl

/-- A migration that commits was not recorded, and now is, with its statements. -/
theorem applyMigration_ok {turn : Turn} {m : Migration} {db db' : Database σ}
    {versions : List Nat} (hkeep : ∀ stmt ∈ splitSQLStatements m.sql, KeepsVersions exec stmt)
    (hdb : db.tables.schemaMigrations = some versions)
    (h : applyMigration exec turn m db = .ok db') :
    m.version ∉ versions ∧ db'.tables.schemaMigrations = some (versions ++ [m.version]) ∧
      db'.executed = db.executed ++ statements m := by
  unfold applyMigration at h
  split at h
  · cases h
  · split at h
    · cases h
    · rename_i mid hexec
      obtain ⟨hv, hlog⟩ := execStatements_ok hkeep hdb hexec
      split at h
      · cases h
      · split at h
        · cases h
        · rename_i last hrec
          split at h
          · cases h
          · cases h
            simp only [recordVersion, hv] at hrec
            split at hrec
            · cases hrec
            · rename_i hnot
              cases hrec
              exact ⟨hnot, rfl, hlog⟩

end

/-! ## Openers whose migrations extend one another -/

section
variable {σ ι : Type} (quote : String → String) (exec : Sql σ) (files : ι → List Entry)

/-- The binaries of a run: of any two, one has all migrations of the other and then its
own, and no migration writes `schema_migrations` itself. -/
structure Compatible : Prop where
  extend : ∀ i j migs migs', loadMigrations quote (files i) = .ok migs →
    loadMigrations quote (files j) = .ok migs' → migs <+: migs' ∨ migs' <+: migs
  keep : ∀ i migs, loadMigrations quote (files i) = .ok migs → ∀ m ∈ migs,
    ∀ stmt ∈ splitSQLStatements m.sql, KeepsVersions exec stmt

/-- The first migrations of one of the binaries. -/
def Shipped (ms : List Migration) : Prop :=
  ms = [] ∨ ∃ i migs, loadMigrations quote (files i) = .ok migs ∧ ms <+: migs

/-- The database after exactly the migrations `ms`. -/
structure Migrated (ms : List Migration) (db : Database σ) : Prop where
  shipped : Shipped quote files ms
  versions : db.tables.schemaMigrations.getD [] = ms.map Migration.version
  executed : db.executed = ms.flatMap statements

/-- An opener against the database: what it believes applied is applied, and so is every
migration it has passed. -/
def Opener.Follows (entries : List Entry) (db : Database σ) : Opener → Prop
  | .load es => es = entries
  | .createTable migs => loadMigrations quote entries = .ok migs
  | .loadAppliedVersions migs =>
    loadMigrations quote entries = .ok migs ∧ db.tables.schemaMigrations ≠ none
  | .applying applied migs => ∃ versions passed,
    db.tables.schemaMigrations = some versions ∧
    loadMigrations quote entries = .ok (passed ++ migs) ∧
    (∀ m ∈ passed, m.version ∈ versions) ∧ ∀ v ∈ applied, v ∈ versions
  | .returned _ => True

/-- Versions are only ever added. -/
def Extends (db db' : Database σ) : Prop :=
  ∀ versions, db.tables.schemaMigrations = some versions →
    ∃ more, db'.tables.schemaMigrations = some (versions ++ more)

variable {quote exec files}

theorem Extends.refl (db : Database σ) : Extends db db := by
  intro versions h
  exact ⟨[], by rw [List.append_nil]; exact h⟩

theorem Opener.Follows.mono {entries : List Entry} {db db' : Database σ} {o : Opener}
    (h : o.Follows quote entries db) (hext : Extends db db') : o.Follows quote entries db' := by
  cases o with
  | load | createTable | returned => exact h
  | loadAppliedVersions migs =>
    obtain ⟨hload, hsome⟩ := h
    obtain ⟨versions, hv⟩ := Option.ne_none_iff_exists'.mp hsome
    obtain ⟨more, hmore⟩ := hext versions hv
    exact ⟨hload, by rw [hmore]; simp⟩
  | applying applied migs =>
    obtain ⟨versions, passed, hv, hload, hpassed, happlied⟩ := h
    obtain ⟨more, hmore⟩ := hext versions hv
    exact ⟨versions ++ more, passed, hmore, hload,
      fun m hm => List.mem_append_left _ (hpassed m hm),
      fun v hv => List.mem_append_left _ (happlied v hv)⟩

/-- An opener is past a migration once that is recorded, by itself or by another. -/
theorem Opener.Follows.pass {entries : List Entry} {db : Database σ} {applied : List Nat}
    {m : Migration} {migs : List Migration} {versions : List Nat}
    (h : (Opener.applying applied (m :: migs)).Follows quote entries db)
    (hv : db.tables.schemaMigrations = some versions) (hm : m.version ∈ versions) :
    (Opener.applying applied migs).Follows quote entries db := by
  obtain ⟨versions', passed, hv', hload, hpassed, happlied⟩ := h
  obtain rfl : versions = versions' := Option.some.inj (hv.symm.trans hv')
  have hnext : passed ++ m :: migs = (passed ++ [m]) ++ migs := by simp
  refine ⟨versions, passed ++ [m], hv, hnext ▸ hload, ?_, happlied⟩
  intro x hx
  rcases List.mem_append.mp hx with hx | hx
  · exact hpassed x hx
  · rw [List.mem_singleton.mp hx]
    exact hm

/-- The versions of loaded migrations are their positions. -/
theorem versions_of_shipped {ms : List Migration} (h : Shipped quote files ms) :
    ms.map Migration.version = List.range' 1 ms.length := by
  rcases h with rfl | ⟨i, migs, hload, rest, rfl⟩
  · rfl
  · have hall := (loadMigrations_ok hload).versions
    rw [List.map_append, List.length_append, ← List.range'_append_1] at hall
    exact (List.append_inj hall (by simp)).1

/-- The next migration of an opener that is not recorded yet is the next one of the
database. -/
theorem shipped_next (hc : Compatible quote exec files) {ms passed migs : List Migration}
    {m : Migration} {i : ι} (hms : Shipped quote files ms)
    (hload : loadMigrations quote (files i) = .ok (passed ++ m :: migs))
    (hpassed : ∀ m ∈ passed, m.version ∈ ms.map Migration.version)
    (hnew : m.version ∉ ms.map Migration.version) : Shipped quote files (ms ++ [m]) := by
  have hall := (loadMigrations_ok hload).versions
  rw [List.map_append, List.length_append, ← List.range'_append_1] at hall
  obtain ⟨hp, hm⟩ := List.append_inj hall (by simp)
  rw [List.map_cons, List.length_cons, List.range'_succ] at hm
  have hversion : m.version = 1 + passed.length := (List.cons.inj hm).1
  have hlen := versions_of_shipped hms
  -- all passed ones are recorded and `m` is not, so `ms` is as long as what has passed
  have hle : passed.length ≤ ms.length := by
    by_contra hlt
    have hmem : ms.length + 1 ∈ passed.map Migration.version := by
      rw [hp, List.mem_range'_1]
      omega
    obtain ⟨x, hx, hxv⟩ := List.mem_map.mp hmem
    have hrec := hpassed x hx
    rw [hxv, hlen, List.mem_range'_1] at hrec
    omega
  have hge : ms.length ≤ passed.length := by
    by_contra hlt
    apply hnew
    rw [hlen, hversion, List.mem_range'_1]
    omega
  -- and two lists that extend one another agree on that length
  have hpre : ms = passed := by
    rcases hms with rfl | ⟨j, migs', hload', hpre'⟩
    · exact (List.length_eq_zero_iff.mp (by simpa using hle)).symm
    · have hpp : passed <+: passed ++ m :: migs := List.prefix_append _ _
      rcases hc.extend i j _ _ hload hload' with h | h
      · exact (List.prefix_of_prefix_length_le hpre' (hpp.trans h) hge).eq_of_length
          (le_antisymm hge hle)
      · exact (List.prefix_of_prefix_length_le (hpre'.trans h) hpp hge).eq_of_length
          (le_antisymm hge hle)
  subst hpre
  exact .inr ⟨i, _, hload, ⟨migs, by simp⟩⟩

/-- A transaction that commits adds the next migration. -/
theorem applyMigration_migrated (hc : Compatible quote exec files) {turn : Turn}
    {db db' : Database σ} {ms : List Migration} {applied : List Nat} {m : Migration}
    {migs : List Migration} {i : ι} (hdb : Migrated quote files ms db)
    (ho : (Opener.applying applied (m :: migs)).Follows quote (files i) db)
    (h : applyMigration exec turn m db = .ok db') :
    Migrated quote files (ms ++ [m]) db' ∧ Extends db db' ∧
      (Opener.applying applied migs).Follows quote (files i) db' := by
  obtain ⟨versions, passed, hv, hload, hpassed, happlied⟩ := id ho
  obtain ⟨hnew, hv', hlog⟩ := applyMigration_ok (hc.keep i _ hload m (by simp)) hv h
  have hms : versions = ms.map Migration.version := by
    have h := hdb.versions
    rw [hv] at h
    exact h
  have hext : Extends db db' := by
    intro vs hvs
    rw [hv] at hvs
    cases hvs
    exact ⟨[m.version], hv'⟩
  refine ⟨⟨?_, ?_, ?_⟩, hext, (ho.mono hext).pass hv' (by simp)⟩
  · exact shipped_next hc hdb.shipped hload (hms ▸ hpassed) (hms ▸ hnew)
  · simp [hv', hms]
  · simp [hlog, hdb.executed]

/-- One step of one opener on a database that has exactly `ms`: it has exactly `ms`
after it, or one migration more. -/
theorem step_migrated (hc : Compatible quote exec files) (turn : Turn) {db : Database σ}
    {ms : List Migration} {o : Opener} {i : ι} (hdb : Migrated quote files ms db)
    (ho : o.Follows quote (files i) db) :
    (∃ ms', Migrated quote files ms' (step quote exec turn db o).1) ∧
      Extends db (step quote exec turn db o).1 ∧
      (step quote exec turn db o).2.Follows quote (files i) (step quote exec turn db o).1 := by
  cases o with
  | load entries =>
    obtain rfl : entries = files i := ho
    simp only [step]
    split
    · exact ⟨⟨ms, hdb⟩, .refl db, trivial⟩
    · exact ⟨⟨ms, hdb⟩, .refl db, ‹_›⟩
  | createTable migs =>
    simp only [step]
    split
    · exact ⟨⟨ms, hdb⟩, .refl db, trivial⟩
    · refine ⟨⟨ms, hdb.shipped, hdb.versions, hdb.executed⟩, ?_, ho, by simp⟩
      intro versions hv
      exact ⟨[], by simp [hv]⟩
  | loadAppliedVersions migs =>
    simp only [step]
    split
    · exact ⟨⟨ms, hdb⟩, .refl db, trivial⟩
    · exact ⟨⟨ms, hdb⟩, .refl db, trivial⟩
    · rename_i versions _ hv
      refine ⟨⟨ms, hdb⟩, .refl db, versions, [], hv, ho.1, ?_, fun v hv => hv⟩
      intro m hm
      cases hm
  | applying applied migs =>
    cases migs with
    | nil => exact ⟨⟨ms, hdb⟩, .refl db, trivial⟩
    | cons m migs =>
      simp only [step]
      split
      · -- skipped, because it was recorded when the versions were read
        rename_i hskip
        obtain ⟨versions, passed, hv, hload, hpassed, happlied⟩ := id ho
        exact ⟨⟨ms, hdb⟩, .refl db, ho.pass hv (happlied _ hskip)⟩
      · split
        · exact ⟨⟨ms, hdb⟩, .refl db, trivial⟩
        · rename_i db' happly
          obtain ⟨hdb', hext, hnext⟩ := applyMigration_migrated hc hdb ho happly
          exact ⟨⟨ms ++ [m], hdb'⟩, hext, hnext⟩
  | returned r => exact ⟨⟨ms, hdb⟩, .refl db, trivial⟩

/-! ## Whole runs -/

/-- The database has exactly the first migrations of some binary, and every opener
follows it. -/
structure Consistent (quote : String → String) (files : ι → List Entry)
    (s : Pool (Database σ) ι Opener) : Prop where
  db : ∃ ms, Migrated quote files ms s.shared
  openers : ∀ i, (s.procs i).Follows quote (files i) s.shared

theorem fire_consistent [DecidableEq ι] (hc : Compatible quote exec files)
    {s : Pool (Database σ) ι Opener} (h : Consistent quote files s) (ev : ι × Turn) :
    Consistent quote files (Pool.fire (step quote exec) s ev) := by
  obtain ⟨k, turn⟩ := ev
  obtain ⟨ms, hdb⟩ := h.db
  obtain ⟨hdb', hext, hfollows⟩ := step_migrated hc turn hdb (h.openers k)
  refine ⟨hdb', ?_⟩
  exact Pool.forall_procs_fire (Q := fun i (p : Opener) => p.Follows quote (files i) _) hfollows
    fun i _ => (h.openers i).mono hext

/-- Openers that have not started, on a database without tables of their own. -/
def opening (files : ι → List Entry) (rest : σ) : Pool (Database σ) ι Opener where
  shared := ⟨⟨none, rest⟩, []⟩
  procs i := .load (files i)

/-- In every interleaving of openers, with any of them failing or stopping anywhere: what
is committed is exactly the versions `1` to `k` and, once each and in order, the
statements of the migrations with these versions. -/
theorem migrations_exactly_once [DecidableEq ι] (hc : Compatible quote exec files) (rest : σ)
    (es : List (ι × Turn)) :
    (∀ i migs, loadMigrations quote (files i) = .ok migs → Accepted quote (files i) migs) ∧
    ∃ ms, Shipped quote files ms ∧
      (Pool.run (step quote exec) (opening files rest) es).shared.tables.schemaMigrations.getD [] =
        List.range' 1 ms.length ∧
      (Pool.run (step quote exec) (opening files rest) es).shared.executed =
        ms.flatMap statements := by
  have hstart : Consistent quote files (opening files rest) :=
    ⟨⟨[], .inl rfl, rfl, rfl⟩, fun _ => rfl⟩
  have hend : Consistent quote files (Pool.run (step quote exec) (opening files rest) es) :=
    Pool.run_invariant (I := Consistent quote files) (fun _ ev h => fire_consistent hc h ev)
      hstart es
  obtain ⟨ms, hms⟩ := hend.db
  refine ⟨fun i migs => loadMigrations_ok, ms, hms.shipped, ?_, hms.executed⟩
  rw [hms.versions, versions_of_shipped hms.shipped]

end

/-! ## Two binaries, and a migration that resets the bookkeeping -/

/-- Statements that do nothing here, but for the one that empties `schema_migrations`. -/
def resettingSql : Sql Unit := fun stmt t =>
  if stmt = "DELETE FROM schema_migrations" then
    .ok { t with schemaMigrations := t.schemaMigrations.map fun _ => [] }
  else .ok t

def initFile : Entry := ⟨"001_init.sql", false, "CREATE TABLE IF NOT EXISTS a (x);\n"⟩
def indexFile : Entry := ⟨"002_index.sql", false, "CREATE INDEX i ON a (x);\nANALYZE;\n"⟩

/-- An old binary and a new one. -/
def binaries : Fin 2 → List Entry
  | 0 => [initFile]
  | 1 => [initFile, indexFile]

def initMigration : Migration := ⟨1, "init", "CREATE TABLE IF NOT EXISTS a (x);\n"⟩
def indexMigration : Migration := ⟨2, "index", "CREATE INDEX i ON a (x);\nANALYZE;\n"⟩

theorem load_binaries (i : Fin 2) : loadMigrations id (binaries i) =
    .ok (if i = 0 then [initMigration] else [initMigration, indexMigration]) := by
  revert i
  decide +kernel

theorem binaries_compatible : Compatible id resettingSql binaries where
  extend := by
    intro i j migs migs' hi hj
    rw [load_binaries] at hi hj
    cases hi
    cases hj
    revert i j
    decide
  keep := by
    intro i migs hi m hm stmt hstmt versions rest t' hexec
    have hall : ∀ i : Fin 2,
        ∀ m ∈ (if i = 0 then [initMigration] else [initMigration, indexMigration]),
        ∀ stmt ∈ splitSQLStatements m.sql, stmt ≠ "DELETE FROM schema_migrations" := by
      decide +kernel
    rw [load_binaries] at hi
    cases hi
    rw [resettingSql, if_neg (hall i m hm stmt hstmt)] at hexec
    cases hexec
    rfl

/-- Both read the versions before either has applied anything; the old binary then loses
the race for version 1. -/
def racing : List (Fin 2 × Turn) :=
  Pool.schedule ([0, 0, 0, 1, 1, 1, 1, 0, 1].map fun i => (i, ⟨none⟩))

theorem migrations_exactly_once_racing :
    ∃ ms, Shipped id binaries ms ∧
      (Pool.run (step id resettingSql) (opening binaries ()) racing).shared.tables.schemaMigrations.getD []
        = List.range' 1 ms.length ∧
      (Pool.run (step id resettingSql) (opening binaries ()) racing).shared.executed =
        ms.flatMap statements :=
  (migrations_exactly_once binaries_compatible () racing).2

example : (Pool.run (step id resettingSql) (opening binaries ()) racing).shared.executed =
    [(1, "CREATE TABLE IF NOT EXISTS a (x)"), (2, "CREATE INDEX i ON a (x)"), (2, "ANALYZE")] := by
  decide +kernel

def resetFile : Entry := ⟨"002_reset.sql", false, "DELETE FROM schema_migrations;\n"⟩

/-- One binary, opened twice: its second migration removes the record of the first, which
is then run again. -/
theorem reset_migration_repeats :
    let s := opening (fun _ : Fin 2 => [initFile, resetFile]) ()
    let events := ([0, 0, 0, 0, 0, 1, 1, 1, 1].map fun i => (i, (⟨none⟩ : Turn)))
    (Pool.run (step id resettingSql) s (events.take 5)).shared.tables.schemaMigrations = some [2] ∧
    (∀ k, [2] ≠ List.range' 1 k) ∧
    (Pool.run (step id resettingSql) s events).shared.executed =
      [(1, "CREATE TABLE IF NOT EXISTS a (x)"), (2, "DELETE FROM schema_migrations"),
        (1, "CREATE TABLE IF NOT EXISTS a (x)")] := by
  refine ⟨by decide +kernel, ?_, by decide +kernel⟩
  intro k h
  cases k with
  | zero => cases h
  | succ k => cases h

end TabbySync.Migrations
