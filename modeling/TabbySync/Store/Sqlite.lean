import TabbySync.Library.AutoTable
import TabbySync.Library.Rfc3339
import TabbySync.Store.Contract

/-! # The SQLite store

The `configs` table and the transactions of `sqlite.Store`, each as one function
of the committed table: a transaction that fails returns its error and no table,
which is its rollback. Clock readings are arguments. Timestamps are kept on disk as
RFC 3339 text and an empty version as NULL, as the schema has them. -/

namespace TabbySync.Sqlite
open TabbySync.Library TabbySync.Library.Rfc3339

/-- A row on disk. -/
structure Row where
  id : Int64
  userID : Int64
  name : String
  contentCiphertext : Bytes
  contentNonce : Bytes
  lastUsedWithVersion : Option String
  createdAt : String
  modifiedAt : String
  deriving DecidableEq, Repr

/-- `configs`, in rowid order; `last` is its entry in `sqlite_sequence`. -/
abbrev Configs := AutoTable Row.id

/-- `WHERE id = ? AND user_id = ?`. -/
def owned (configID userID : Int64) (r : Row) : Bool := r.id == configID && r.userID == userID

/-- `WHERE user_id = ?`. -/
def ownedBy (userID : Int64) (r : Row) : Bool := r.userID == userID

/-- An AUTOINCREMENT insert. The successor of the largest rowid wraps around, where
SQLite gives up with SQLITE_FULL. -/
def insert (t : Configs) (cols : Row) : Option (Int64 × Configs) :=
  if t.last < t.last + 1 then some (t.last + 1, t.insert { cols with id := t.last + 1 })
  else none

def errFull : GoError := .text "database or disk is full (13)"
def errNoRows : GoError := .text "sql: no rows in result set"
def errParse (s : String) : GoError := .text ("parsing time \"" ++ s ++ "\"")

def nullIfEmpty (s : String) : Option String := if s = "" then none else some s

def scanConfig (r : Row) : Except GoError Config :=
  match parse r.createdAt, parse r.modifiedAt with
  | none, _ => .error (.wrap "sqlite: parse created_at" (errParse r.createdAt))
  | some _, none => .error (.wrap "sqlite: parse modified_at" (errParse r.modifiedAt))
  | some createdAt, some modifiedAt =>
    .ok { id := r.id, userID := r.userID, name := r.name
          contentCiphertext := r.contentCiphertext, contentNonce := r.contentNonce
          lastUsedWithVersion := r.lastUsedWithVersion.getD ""
          createdAt := createdAt, modifiedAt := modifiedAt }

def millisecond : Int := 1000000

/-- A write timestamp after `old`, whatever the clock says. -/
def nextModifiedAt (now old : Int) : Int := if old < now then now else old + millisecond

def validateCreateInput (inp : CreateConfigInput) : Except GoError Unit :=
  if inp.contentCiphertext.length = 0 ∨ inp.contentNonce.length = 0 then
    .error (.detail .errInvalidPatch "ciphertext and nonce are required")
  else .ok ()

/-- The INSERT of `CreateConfig`; the row is then read back by `getConfig`. -/
def createConfigInsert (t : Configs) (now : Int) (userID : Int64) (inp : CreateConfigInput) :
    Except GoError (Int64 × Configs) :=
  match validateCreateInput inp with
  | .error e => .error e
  | .ok () =>
    match insert t { id := 0, userID := userID, name := inp.name
                     contentCiphertext := inp.contentCiphertext
                     contentNonce := inp.contentNonce
                     lastUsedWithVersion := nullIfEmpty inp.lastUsedWithVersion
                     createdAt := format now, modifiedAt := format now } with
    | none => .error (.wrap "sqlite: insert config" errFull)
    | some r => .ok r

/-- The row that reserves an id inside the create transaction. -/
def reservation (userID : Int64) (createdAtText : String) : Row where
  id := 0
  userID := userID
  name := ""
  contentCiphertext := [0]
  contentNonce := [0]
  lastUsedWithVersion := none
  createdAt := createdAtText
  modifiedAt := createdAtText

/-- The finalising UPDATE of the create transaction on its row. -/
def finalise (inp : CreateConfigInput) (modifiedAtText : String) (r : Row) : Row :=
  { r with name := inp.name, contentCiphertext := inp.contentCiphertext
           contentNonce := inp.contentNonce
           lastUsedWithVersion := nullIfEmpty inp.lastUsedWithVersion
           modifiedAt := modifiedAtText }

/-- The transaction of `CreateConfigWithID`: reserve, build, validate, finalise,
read back, commit. `now` is the first clock reading, `now'` the one inside
`nextModifiedAt`. -/
def createConfigWithID (t : Configs) (now now' : Int) (userID : Int64)
    (build : Option CreateConfigInputBuilder) : Except GoError (Config × Configs) :=
  match build with
  | none => .error (.detail .errInvalidPatch "create builder is required")
  | some build =>
    match insert t (reservation userID (format now)) with
    | none => .error (.wrap "sqlite: reserve config id" errFull)
    | some (id, reserved) =>
      match build id with
      | .error e => .error (.wrap "sqlite: build config" e)
      | .ok inp =>
        match validateCreateInput inp with
        | .error e => .error e
        | .ok () =>
          let final := reserved.update (owned id userID)
            (finalise inp (format (nextModifiedAt now' now))) fun _ => rfl
          if (reserved.select (owned id userID)).length ≠ 1 then
            .error (.text "sqlite: finalise config: expected one reserved row")
          else match final.find (owned id userID) with
            | none => .error (.wrap "sqlite: read finalised config" errNoRows)
            | some row =>
              match scanConfig row with
              | .error e => .error (.wrap "sqlite: read finalised config" e)
              | .ok cfg => .ok (cfg, final)

def getConfig (t : Configs) (userID configID : Int64) : Except GoError Config :=
  match t.find (owned configID userID) with
  | none => .error .errConfigNotFound
  | some row => scanConfig row

def listConfigsByUser (t : Configs) (userID : Int64) : Except GoError (List Config) :=
  (t.select (ownedBy userID)).mapM scanConfig

/-- One assignment of the dynamically assembled SET list. -/
inductive SetClause
  | modifiedAt (text : String)
  | name (s : String)
  | contentCiphertext (b : Bytes)
  | contentNonce (b : Bytes)
  | lastUsedWithVersion (v : Option String)

def SetClause.apply (r : Row) : SetClause → Row
  | .modifiedAt text => { r with modifiedAt := text }
  | .name s => { r with name := s }
  | .contentCiphertext b => { r with contentCiphertext := b }
  | .contentNonce b => { r with contentNonce := b }
  | .lastUsedWithVersion v => { r with lastUsedWithVersion := v }

def hasCipher (patch : UpdateConfigPatch) : Bool := patch.contentCiphertext.length > 0
def hasNonce (patch : UpdateConfigPatch) : Bool := patch.contentNonce.length > 0

def setClauses (patch : UpdateConfigPatch) (now old : Int) : List SetClause :=
  (if patch.preserveModifiedAt then [] else [.modifiedAt (format (nextModifiedAt now old))]) ++
  patch.name.toList.map .name ++
  (if hasCipher patch then
    [.contentCiphertext patch.contentCiphertext, .contentNonce patch.contentNonce] else []) ++
  patch.lastUsedWithVersion.toList.map fun v => .lastUsedWithVersion (nullIfEmpty v)

/-- All assignments of a SET list. -/
def applyClauses (clauses : List SetClause) (r : Row) : Row := clauses.foldl SetClause.apply r

/-- The checks `UpdateConfig` makes before it opens a transaction. -/
def validatePatch (patch : UpdateConfigPatch) : Except GoError Unit :=
  if hasCipher patch ≠ hasNonce patch then
    .error (.detail .errInvalidPatch "ciphertext and nonce must be set together")
  else if patch.preserveModifiedAt then
    if patch.expectedModifiedAt = none ∨ patch.name ≠ none ∨ hasCipher patch then
      .error (.detail .errInvalidPatch
        "preserve-modified-at requires expected timestamp and metadata-only patch")
    else .ok ()
  else if patch.expectedModifiedAt ≠ none then
    .error (.detail .errInvalidPatch "expected timestamp requires preserve-modified-at")
  else .ok ()

theorem applyClauses_id (clauses : List SetClause) (r : Row) :
    (applyClauses clauses r).id = r.id := by
  induction clauses generalizing r with
  | nil => rfl
  | cons c cs ih =>
    have : (c.apply r).id = r.id := by cases c <;> rfl
    exact (ih (c.apply r)).trans this

/-- `UpdateConfig` up to its commit; the row is then read back by `getConfig`. -/
def updateConfigTx (t : Configs) (now : Int) (userID configID : Int64)
    (patch : UpdateConfigPatch) : Except GoError Configs :=
  match validatePatch patch with
  | .error e => .error e
  | .ok () =>
    match t.find (owned configID userID) with
    | none => .error .errConfigNotFound
    | some row =>
      match parse row.modifiedAt with
      | none => .error (.wrap "sqlite: parse old modified_at" (errParse row.modifiedAt))
      | some old =>
        if patch.preserveModifiedAt ∧ patch.expectedModifiedAt ≠ some old then
          .error .errConfigChanged
        else if setClauses patch now old = [] then .ok t
        else .ok (t.update (owned configID userID) (applyClauses (setClauses patch now old))
          (applyClauses_id _))

def deleteConfig (t : Configs) (userID configID : Int64) : Except GoError Configs :=
  if (t.select (owned configID userID)).length = 0 then .error .errConfigNotFound
  else .ok (t.delete (owned configID userID))

def countConfigsByUser (t : Configs) (userID : Int64) : Nat :=
  (t.select (ownedBy userID)).length

/-! ## Calls in flight

`CreateConfig` and `UpdateConfig` read their row back after the commit, outside the
transaction; between the two, other calls may run. -/

inductive Result
  | config (r : Except GoError Config)
  | configs (r : Except GoError (List Config))
  | unit (r : Except GoError Unit)
  | count (r : Except GoError Nat)

/-- A method call of `sqlite.Store`, by what it has left to do. -/
inductive Session
  | createConfig (userID : Int64) (inp : CreateConfigInput)
  | createConfigWithID (userID : Int64) (build : Option CreateConfigInputBuilder)
  | getConfig (userID configID : Int64)
  | listConfigsByUser (userID : Int64)
  | updateConfig (userID configID : Int64) (patch : UpdateConfigPatch)
  | deleteConfig (userID configID : Int64)
  | countConfigsByUser (userID : Int64)
  | done (r : Result)

/-- One atomic step of a call. -/
def Session.step (now now' : Int) (t : Configs) : Session → Configs × Session
  | .createConfig userID inp =>
    match createConfigInsert t now userID inp with
    | .error e => (t, .done (.config (.error e)))
    | .ok (id, t') => (t', .getConfig userID id)
  | .createConfigWithID userID build =>
    match Sqlite.createConfigWithID t now now' userID build with
    | .error e => (t, .done (.config (.error e)))
    | .ok (cfg, t') => (t', .done (.config (.ok cfg)))
  | .getConfig userID configID => (t, .done (.config (Sqlite.getConfig t userID configID)))
  | .listConfigsByUser userID => (t, .done (.configs (Sqlite.listConfigsByUser t userID)))
  | .updateConfig userID configID patch =>
    match updateConfigTx t now userID configID patch with
    | .error e => (t, .done (.config (.error e)))
    | .ok t' => (t', .getConfig userID configID)
  | .deleteConfig userID configID =>
    match Sqlite.deleteConfig t userID configID with
    | .error e => (t, .done (.unit (.error e)))
    | .ok t' => (t', .done (.unit (.ok ())))
  | .countConfigsByUser userID => (t, .done (.count (.ok (Sqlite.countConfigsByUser t userID))))
  | .done r => (t, .done r)

/-! ## What each operation does -/

@[simp] theorem owned_iff {configID userID : Int64} {r : Row} :
    owned configID userID r = true ↔ r.id = configID ∧ r.userID = userID := by
  simp [owned]

@[simp] theorem ownedBy_iff {userID : Int64} {r : Row} :
    ownedBy userID r = true ↔ r.userID = userID := by
  simp [ownedBy]

theorem find_owned {t : Configs} {configID userID : Int64} {r : Row} :
    t.find (owned configID userID) = some r ↔
      r ∈ t.rows ∧ r.id = configID ∧ r.userID = userID := by
  rw [AutoTable.find_eq_some (k := configID) fun r hr => (owned_iff.mp hr).1, owned_iff]

theorem lt_nextModifiedAt (now old : Int) : old < nextModifiedAt now old := by
  unfold nextModifiedAt millisecond
  split <;> omega

/-- The caller's view of a row whose two timestamps read as given. -/
def Row.toConfig (r : Row) (createdAt modifiedAt : Int) : Config where
  id := r.id
  userID := r.userID
  name := r.name
  contentCiphertext := r.contentCiphertext
  contentNonce := r.contentNonce
  lastUsedWithVersion := r.lastUsedWithVersion.getD ""
  createdAt := createdAt
  modifiedAt := modifiedAt

theorem scanConfig_ok {r : Row} {cfg : Config} :
    scanConfig r = .ok cfg ↔ parse r.createdAt = some cfg.createdAt ∧
      parse r.modifiedAt = some cfg.modifiedAt ∧ cfg = r.toConfig cfg.createdAt cfg.modifiedAt := by
  unfold scanConfig
  constructor
  · intro h
    split at h
    · cases h
    · cases h
    · rename_i hc hm
      cases h
      exact ⟨hc, hm, rfl⟩
  · rintro ⟨hc, hm, hcfg⟩
    rw [hc, hm]
    exact congrArg Except.ok hcfg.symm

theorem getD_nullIfEmpty (v : String) : (nullIfEmpty v).getD "" = v := by
  unfold nullIfEmpty
  split
  · rename_i h
    rw [h]; rfl
  · rfl

theorem getD_map_nullIfEmpty (v w : Option String) :
    ((v.map nullIfEmpty).getD w).getD "" = v.getD (w.getD "") := by
  cases v with
  | none => rfl
  | some v => exact getD_nullIfEmpty v

theorem scanConfig_error {r : Row} {e : GoError} (h : scanConfig r = .error e) (s : Sentinel) :
    e.is s = false := by
  unfold scanConfig at h
  split at h <;> cases h <;> rfl

/-- A read fails with not-found or with the text of a bad timestamp. -/
theorem getConfig_error {t : Configs} {userID configID : Int64} {e : GoError}
    (h : getConfig t userID configID = .error e) (s : Sentinel) (hs : s ≠ .configNotFound) :
    e.is s = false := by
  unfold getConfig at h
  split at h
  · cases h
    exact beq_eq_false_iff_ne.mpr hs.symm
  · exact scanConfig_error h _

theorem getConfig_ok {t : Configs} {userID configID : Int64} {cfg : Config} :
    getConfig t userID configID = .ok cfg ↔
      ∃ r ∈ t.rows, r.id = configID ∧ r.userID = userID ∧ scanConfig r = .ok cfg := by
  unfold getConfig
  constructor
  · intro h
    split at h
    · cases h
    · rename_i r hr
      obtain ⟨hm, hid, hu⟩ := find_owned.mp hr
      exact ⟨r, hm, hid, hu, h⟩
  · rintro ⟨r, hm, hid, hu, hs⟩
    rw [find_owned.mpr ⟨hm, hid, hu⟩]
    exact hs

theorem insert_eq {t t' : Configs} {cols : Row} {id : Int64} (h : insert t cols = some (id, t')) :
    t.last < id ∧ id = t.last + 1 ∧ t' = t.insert { cols with id := id } := by
  unfold insert at h
  split at h
  · rename_i hlt
    cases h
    exact ⟨hlt, rfl, rfl⟩
  · cases h

/-- A committed plain insert adds one row under a new id, with both timestamps at
the clock reading. -/
theorem createConfigInsert_ok {t t' : Configs} {now : Int} {userID id : Int64}
    {inp : CreateConfigInput} (h : createConfigInsert t now userID inp = .ok (id, t')) :
    ∃ r : Row, t.last < r.id ∧ t' = t.insert r ∧ r.id = id ∧ r.userID = userID ∧
      r.createdAt = format now ∧ r.modifiedAt = format now := by
  unfold createConfigInsert at h
  split at h
  · cases h
  · split at h
    · cases h
    · rename_i hins
      cases h
      obtain ⟨hlt, _, rfl⟩ := insert_eq hins
      refine ⟨_, ?_, rfl, rfl, rfl, rfl, rfl⟩
      exact hlt

/-- The row a create transaction commits. -/
def builtRow (id userID : Int64) (inp : CreateConfigInput) (now now' : Int) : Row where
  id := id
  userID := userID
  name := inp.name
  contentCiphertext := inp.contentCiphertext
  contentNonce := inp.contentNonce
  lastUsedWithVersion := nullIfEmpty inp.lastUsedWithVersion
  createdAt := format now
  modifiedAt := format (nextModifiedAt now' now)

/-- The finalising update meets the reserved row and no other. -/
theorem finalise_reserved {t : Configs} {id userID : Int64} {inp : CreateConfigInput}
    {now now' : Int} (hlt : t.last < id) :
    (t.insert { reservation userID (format now) with id := id }).update (owned id userID)
        (finalise inp (format (nextModifiedAt now' now))) (fun _ => rfl) =
      t.insert (builtRow id userID inp now now') := by
  have hold : t.rows.map (fun r => if owned id userID r then
      finalise inp (format (nextModifiedAt now' now)) r else r) = t.rows :=
    calc t.rows.map _ = t.rows.map (fun r => r) := List.map_congr_left fun r hr => by
          have hne : r.id ≠ id := ne_of_lt (lt_of_le_of_lt (t.bounded r hr) hlt)
          simp [owned, hne]
      _ = t.rows := List.map_id' _
  apply AutoTable.ext
  · rw [AutoTable.rows_insert (r := builtRow id userID inp now now') hlt]
    simp only [AutoTable.update]
    rw [AutoTable.rows_insert hlt, List.map_append, hold]
    simp [owned, reservation, finalise, builtRow]
  · rw [AutoTable.last_insert (r := builtRow id userID inp now now') hlt]
    exact AutoTable.last_insert hlt

theorem select_inserted {t : Configs} {r : Row} (hlt : t.last < r.id) :
    (t.insert r).select (owned r.id r.userID) = [r] := by
  have hnone : t.select (owned r.id r.userID) = [] := List.filter_eq_nil_iff.mpr fun a ha => by
    have hne : a.id ≠ r.id := ne_of_lt (lt_of_le_of_lt (t.bounded a ha) hlt)
    simp [hne]
  rw [AutoTable.select_insert hlt, hnone, List.nil_append, if_pos (by simp)]

/-- The create transaction, with its intermediate row gone. -/
theorem createConfigWithID_eq {t : Configs} {now now' : Int} {userID : Int64}
    {build : CreateConfigInputBuilder} (hlt : t.last < t.last + 1) :
    createConfigWithID t now now' userID (some build) =
      match build (t.last + 1) with
      | .error e => .error (.wrap "sqlite: build config" e)
      | .ok inp =>
        match validateCreateInput inp with
        | .error e => .error e
        | .ok () =>
          match scanConfig (builtRow (t.last + 1) userID inp now now') with
          | .error e => .error (.wrap "sqlite: read finalised config" e)
          | .ok cfg => .ok (cfg, t.insert (builtRow (t.last + 1) userID inp now now')) := by
  have hone : (t.insert { reservation userID (format now) with id := t.last + 1 }).select
      (owned (t.last + 1) userID) = [{ reservation userID (format now) with id := t.last + 1 }] :=
    select_inserted (r := { reservation userID (format now) with id := t.last + 1 }) hlt
  simp only [createConfigWithID, insert, if_pos hlt]
  cases build (t.last + 1) with
  | error e => rfl
  | ok inp =>
    simp only
    cases validateCreateInput inp with
    | error e => rfl
    | ok _ =>
      have hfind : (t.insert (builtRow (t.last + 1) userID inp now now')).find
          (owned (t.last + 1) userID) = some (builtRow (t.last + 1) userID inp now now') :=
        find_owned.mpr ⟨(AutoTable.mem_insert (r := builtRow (t.last + 1) userID inp now now')
          hlt).mpr (.inr rfl), rfl, rfl⟩
      simp only [finalise_reserved hlt, hfind, hone, List.length_singleton, ne_eq,
        not_true_eq_false, if_false]

/-- A committed create ran its builder once, with the id it committed under. -/
theorem createConfigWithID_ok {t t' : Configs} {now now' : Int} {userID : Int64}
    {build : Option CreateConfigInputBuilder} {cfg : Config}
    (h : createConfigWithID t now now' userID build = .ok (cfg, t')) :
    ∃ (b : CreateConfigInputBuilder) (inp : CreateConfigInput), t.last < t.last + 1 ∧
      build = some b ∧ b (t.last + 1) = .ok inp ∧ validateCreateInput inp = .ok () ∧
      scanConfig (builtRow (t.last + 1) userID inp now now') = .ok cfg ∧
      t' = t.insert (builtRow (t.last + 1) userID inp now now') := by
  cases build with
  | none => cases h
  | some b =>
    by_cases hlt : t.last < t.last + 1
    · rw [createConfigWithID_eq hlt] at h
      cases hb : b (t.last + 1) with
      | error e => rw [hb] at h; cases h
      | ok inp =>
        simp only [hb] at h
        cases hv : validateCreateInput inp with
        | error e => rw [hv] at h; cases h
        | ok _ =>
          simp only [hv] at h
          split at h
          · cases h
          · rename_i hs
            cases h
            exact ⟨b, inp, hlt, rfl, hb, hv, hs, rfl⟩
    · simp [createConfigWithID, insert, hlt] at h

/-- The row an update leaves: the supplied fields, and a later `modified_at` unless
it is to be preserved. -/
def patchedRow (patch : UpdateConfigPatch) (now old : Int) (r : Row) : Row where
  id := r.id
  userID := r.userID
  name := patch.name.getD r.name
  contentCiphertext := if hasCipher patch then patch.contentCiphertext else r.contentCiphertext
  contentNonce := if hasCipher patch then patch.contentNonce else r.contentNonce
  lastUsedWithVersion := (patch.lastUsedWithVersion.map nullIfEmpty).getD r.lastUsedWithVersion
  createdAt := r.createdAt
  modifiedAt := if patch.preserveModifiedAt then r.modifiedAt
    else format (nextModifiedAt now old)

theorem patchedRow_id (patch : UpdateConfigPatch) (now old : Int) (r : Row) :
    (patchedRow patch now old r).id = r.id := rfl

theorem applyClauses_setClauses (patch : UpdateConfigPatch) (now old : Int) (r : Row) :
    applyClauses (setClauses patch now old) r = patchedRow patch now old r := by
  unfold applyClauses setClauses patchedRow
  generalize format (nextModifiedAt now old) = stamp
  cases patch.preserveModifiedAt <;> cases patch.name <;> cases patch.lastUsedWithVersion <;>
    cases hasCipher patch <;> rfl

/-- On a readable row a valid patch commits, unless it is a compare-and-set that
lost. -/
theorem updateConfigTx_eq {t : Configs} {now old : Int} {userID configID : Int64}
    {patch : UpdateConfigPatch} {row : Row} (hval : validatePatch patch = .ok ())
    (hrow : t.find (owned configID userID) = some row) (hold : parse row.modifiedAt = some old) :
    updateConfigTx t now userID configID patch =
      if patch.preserveModifiedAt ∧ patch.expectedModifiedAt ≠ some old then
        .error .errConfigChanged
      else .ok (t.update (owned configID userID) (patchedRow patch now old)
        (patchedRow_id patch now old)) := by
  have hfun : applyClauses (setClauses patch now old) = patchedRow patch now old :=
    funext (applyClauses_setClauses patch now old)
  simp only [updateConfigTx, hval, hrow, hold]
  split
  · rfl
  · split
    · rename_i hnil
      refine congrArg Except.ok (AutoTable.update_of_none fun r _ _ => ?_).symm
      rw [← hfun, hnil]; rfl
    · simp only [hfun]

/-- A committed update found the caller's row, passed the compare-and-set if it was
one, and changed that row alone. -/
theorem updateConfigTx_ok {t t' : Configs} {now : Int} {userID configID : Int64}
    {patch : UpdateConfigPatch} (h : updateConfigTx t now userID configID patch = .ok t') :
    ∃ row old, row ∈ t.rows ∧ row.id = configID ∧ row.userID = userID ∧
      parse row.modifiedAt = some old ∧ validatePatch patch = .ok () ∧
      (patch.preserveModifiedAt = true → patch.expectedModifiedAt = some old) ∧
      t' = t.update (owned configID userID) (patchedRow patch now old) (patchedRow_id patch now old) := by
  cases hval : validatePatch patch with
  | error e => simp [updateConfigTx, hval] at h
  | ok _ =>
    cases hrow : t.find (owned configID userID) with
    | none => simp [updateConfigTx, hval, hrow] at h
    | some row =>
      cases hold : parse row.modifiedAt with
      | none => simp [updateConfigTx, hval, hrow, hold] at h
      | some old =>
        obtain ⟨hm, hid, hu⟩ := find_owned.mp hrow
        rw [updateConfigTx_eq hval hrow hold] at h
        split at h
        · cases h
        · rename_i hcas
          refine ⟨row, old, hm, hid, hu, hold, rfl, fun hp => ?_, (Except.ok.inj h).symm⟩
          by_contra hne
          exact hcas ⟨hp, hne⟩

/-- What a committed update leaves of a row of the caller. -/
theorem updateConfigTx_row {t t' : Configs} {now : Int} {userID configID : Int64}
    {patch : UpdateConfigPatch} {r : Row}
    (h : updateConfigTx t now userID configID patch = .ok t') (hr : r ∈ t.rows)
    (hid : r.id = configID) (hu : r.userID = userID) :
    ∃ old, validatePatch patch = .ok () ∧
      (patch.preserveModifiedAt = true → patch.expectedModifiedAt = some old) ∧
      parse r.modifiedAt = some old ∧ patchedRow patch now old r ∈ t'.rows := by
  obtain ⟨row, old, hmem, hrid, _, hold, hval, hexp, rfl⟩ := updateConfigTx_ok h
  have hrow : row = r := t.key_inj hmem hr (hrid.trans hid.symm)
  subst hrow
  exact ⟨old, hval, hexp, hold,
    AutoTable.mem_update.mpr ⟨row, hr, if_pos (owned_iff.mpr ⟨hid, hu⟩)⟩⟩

/-- Row by row: a committed update leaves a row alone or leaves it patched. -/
theorem updateConfigTx_same_id {t t' : Configs} {now : Int} {userID configID : Int64}
    {patch : UpdateConfigPatch} {r r' : Row}
    (h : updateConfigTx t now userID configID patch = .ok t') (hr : r ∈ t.rows)
    (hr' : r' ∈ t'.rows) (hid : r'.id = r.id) :
    r' = r ∨ ∃ old, r.id = configID ∧ r.userID = userID ∧ validatePatch patch = .ok () ∧
      parse r.modifiedAt = some old ∧ r' = patchedRow patch now old r := by
  obtain ⟨row, old, hmem, hrid, _, hold, hval, _, rfl⟩ := updateConfigTx_ok h
  have hr'_eq := AutoTable.eq_of_mem_update hr' hr hid
  split at hr'_eq
  · rename_i hown
    obtain ⟨hc, hu⟩ := owned_iff.mp hown
    have hrow : row = r := t.key_inj hmem hr (hrid.trans hc.symm)
    subst hrow
    exact .inr ⟨old, hc, hu, hval, hold, hr'_eq⟩
  · exact .inl hr'_eq

/-- A transaction that reports a lost compare-and-set was one, on a readable row with
another stamp. -/
theorem updateConfigTx_lost {t : Configs} {now : Int} {userID configID : Int64}
    {inner : UpdateConfigPatch} {e : GoError}
    (h : updateConfigTx t now userID configID inner = .error e)
    (he : e.is .configChanged = true) : inner.preserveModifiedAt = true ∧
      ∃ r old, t.find (owned configID userID) = some r ∧ parse r.modifiedAt = some old ∧
        inner.expectedModifiedAt ≠ some old := by
  unfold updateConfigTx at h
  split at h
  · rename_i e' hval
    cases h
    unfold validatePatch at hval
    split at hval
    · cases hval
      cases he
    · split at hval <;> split at hval <;> cases hval <;> cases he
  · split at h
    · cases h
      cases he
    · rename_i r hr
      split at h
      · cases h
        cases he
      · rename_i old hold
        split at h
        · rename_i hlost
          exact ⟨hlost.1, r, old, hr, hold, hlost.2⟩
        · split at h <;> cases h

theorem validatePatch_cipher {patch : UpdateConfigPatch} (h : validatePatch patch = .ok ()) :
    hasCipher patch = hasNonce patch := by
  unfold validatePatch at h
  split at h
  · cases h
  · rename_i hne
    exact not_not.mp hne

/-- A patch that passed validation and preserves `modified_at` is metadata only. -/
theorem validatePatch_preserve {patch : UpdateConfigPatch} (h : validatePatch patch = .ok ())
    (hp : patch.preserveModifiedAt = true) : patch.name = none ∧ hasCipher patch = false := by
  unfold validatePatch at h
  split at h
  · cases h
  · split at h
    · cases h
    · rename_i hn
      simp only [ne_eq, not_or, not_not, Bool.not_eq_true] at hn
      exact ⟨hn.2.1, hn.2.2⟩

theorem deleteConfig_ok {t t' : Configs} {userID configID : Int64}
    (h : deleteConfig t userID configID = .ok t') : t' = t.delete (owned configID userID) := by
  unfold deleteConfig at h
  split at h
  · cases h
  · exact (Except.ok.inj h).symm

/-- A successful traversal returns one result for each element, in order. -/
theorem forall₂_of_mapM_ok {α β : Type} {f : α → Except GoError β} {as : List α} {bs : List β}
    (h : as.mapM f = .ok bs) : List.Forall₂ (fun a b => f a = .ok b) as bs := by
  induction as generalizing bs with
  | nil =>
    cases h
    exact .nil
  | cons a as ih =>
    rw [List.mapM_cons] at h
    cases ha : f a with
    | error e => rw [ha] at h; cases h
    | ok b =>
      cases has : as.mapM f with
      | error e => rw [ha, has] at h; cases h
      | ok rest =>
        rw [ha, has] at h
        cases h
        exact .cons ha (ih has)

/-- A traversal fails with the error of some element. -/
theorem mapM_error {α β : Type} {f : α → Except GoError β} {as : List α} {e : GoError}
    (h : as.mapM f = .error e) : ∃ a ∈ as, f a = .error e := by
  induction as with
  | nil => cases h
  | cons a as ih =>
    rw [List.mapM_cons] at h
    cases ha : f a with
    | error e' =>
      rw [ha] at h
      cases h
      exact ⟨a, by simp, ha⟩
    | ok b =>
      cases has : as.mapM f with
      | error e' =>
        rw [ha, has] at h
        cases h
        obtain ⟨a', ha', he⟩ := ih has
        exact ⟨a', by simp [ha'], he⟩
      | ok rest => rw [ha, has] at h; cases h

theorem mem_of_mapM_ok {α β : Type} {f : α → Except GoError β} {as : List α} {bs : List β}
    (h : as.mapM f = .ok bs) : ∀ b ∈ bs, ∃ a ∈ as, f a = .ok b := by
  have hrel := forall₂_of_mapM_ok h
  clear h
  intro b hb
  induction hrel with
  | nil => cases hb
  | cons hab _ ih =>
    rcases List.mem_cons.mp hb with rfl | hrest
    · exact ⟨_, by simp, hab⟩
    · obtain ⟨a, ha, hf⟩ := ih hrest
      exact ⟨a, by simp [ha], hf⟩

theorem listConfigsByUser_ok {t : Configs} {userID : Int64} {cfgs : List Config}
    (h : listConfigsByUser t userID = .ok cfgs) {cfg : Config} (hmem : cfg ∈ cfgs) :
    ∃ r ∈ t.rows, r.userID = userID ∧ scanConfig r = .ok cfg := by
  obtain ⟨r, hr, hs⟩ := mem_of_mapM_ok h cfg hmem
  obtain ⟨hrow, hu⟩ := AutoTable.mem_select.mp hr
  exact ⟨r, hrow, ownedBy_iff.mp hu, hs⟩

/-- One atomic step of any caller: nothing, or one committed transaction. -/
inductive Commits (t : Configs) : Configs → Prop
  | idle : Commits t t
  | insert {t' : Configs} {now : Int} {userID id : Int64} {inp : CreateConfigInput}
      (h : createConfigInsert t now userID inp = .ok (id, t')) : Commits t t'
  | create {t' : Configs} {now now' : Int} {userID : Int64}
      {build : Option CreateConfigInputBuilder} {cfg : Config}
      (h : createConfigWithID t now now' userID build = .ok (cfg, t')) : Commits t t'
  | update {t' : Configs} {now : Int} {userID configID : Int64} {patch : UpdateConfigPatch}
      (h : updateConfigTx t now userID configID patch = .ok t') : Commits t t'
  | delete {t' : Configs} {userID configID : Int64}
      (h : deleteConfig t userID configID = .ok t') : Commits t t'

theorem Session.step_commits (now now' : Int) (t : Configs) (s : Session) :
    Commits t (s.step now now' t).1 := by
  cases s with
  | createConfig userID inp =>
    simp only [step]
    split
    · exact .idle
    · exact .insert ‹_›
  | createConfigWithID userID build =>
    simp only [step]
    split
    · exact .idle
    · exact .create ‹_›
  | updateConfig userID configID patch =>
    simp only [step]
    split
    · exact .idle
    · exact .update ‹_›
  | deleteConfig userID configID =>
    simp only [step]
    split
    · exact .idle
    · exact .delete ‹_›
  | getConfig | listConfigsByUser | countConfigsByUser | done => exact .idle

end TabbySync.Sqlite
