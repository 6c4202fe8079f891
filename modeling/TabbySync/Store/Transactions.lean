import TabbySync.Library.Interleaving
import TabbySync.Store.Sqlite

/-! # The store's transactions, statement by statement

`Sqlite` has each transaction of the store as one function of the committed table. Here
`CreateConfigWithID` and `UpdateConfig` are taken apart into the statements they send:
`BEGIN IMMEDIATE` takes the write lock and the committed table as the transaction's own
copy, every statement works on that copy, `COMMIT` publishes it, and whatever returns
earlier rolls back. Any statement can fail. Readers see the committed table at any time;
a writer waits for the lock.

The result is that at every moment an open transaction's copy is what the one-step
functions of `Sqlite` compute from the table as it is committed at that moment, so that a
commit is one of their commits and nothing else changes the table. -/

namespace TabbySync.Transactions
open TabbySync.Library TabbySync.Library.Rfc3339
open TabbySync.Sqlite hiding Session

/-- The database file: what is committed, and whether a write transaction is open. -/
structure Database where
  committed : Configs
  locked : Bool

/-- What the environment hands a step: a clock reading, and the driver's message if the
statement is to fail. -/
structure Turn where
  now : Int
  fails : Option String

/-- `CreateConfigWithID`, by its next statement; `w` is the transaction's copy. -/
inductive CreatePc
  | begin
  | reserve (w : Configs)
  | lastInsertId (createdAt : Int) (id : Int64) (w : Configs)
  | build (createdAt : Int) (id : Int64) (w : Configs)
  | finalise (createdAt : Int) (id : Int64) (inp : CreateConfigInput) (w : Configs)
  | rowsAffected (id : Int64) (affected : Nat) (w : Configs)
  | readBack (id : Int64) (w : Configs)
  | commit (row : Config) (w : Configs)
  | returned (r : Except GoError Config)

/-- `UpdateConfig`, by its next statement. -/
inductive UpdatePc
  | validate
  | begin
  | select (w : Configs)
  | write (old : Int) (w : Configs)
  | commit (w : Configs)
  | reload
  | returned (r : Except GoError Config)

/-- A call on the store. `given` are the ids a create's builder has been called with;
the calls of one statement are those of `Sqlite`. -/
inductive Call
  | create (userID : Int64) (builder : Option CreateConfigInputBuilder) (given : List Int64)
      (pc : CreatePc)
  | update (userID configID : Int64) (patch : UpdateConfigPatch) (pc : UpdatePc)
  | single (s : Sqlite.Session)

/-- The deferred `tx.Rollback()`: the copy is dropped and the lock released. -/
def Database.rollback (db : Database) : Database := { db with locked := false }

def Database.commit (w : Configs) : Database where
  committed := w
  locked := false

/-- A statement inside a transaction: its error ends the call and the transaction. -/
def statement {α : Type} (turn : Turn) (db : Database) (text : String) (returned : GoError → α)
    (next : Database × α) : Database × α :=
  match turn.fails with
  | some msg => (db.rollback, returned (.wrap text (.text msg)))
  | none => next

/-- `BeginTx`: fails, waits for the lock, or takes it. -/
def beginTx {α : Type} (turn : Turn) (db : Database) (text : String) (returned : GoError → α)
    (waiting : α) (opened : Configs → α) : Database × α :=
  match turn.fails with
  | some msg => (db, returned (.wrap text (.text msg)))
  | none =>
    if db.locked then (db, waiting) else ({ db with locked := true }, opened db.committed)

def failed (e : GoError) : CreatePc := .returned (.error e)

/-- One step of `CreateConfigWithID`, with the ids its builder is called with in it. -/
def createStep (turn : Turn) (db : Database) (userID : Int64)
    (builder : Option CreateConfigInputBuilder) : CreatePc → (Database × CreatePc) × List Int64
  | .begin =>
    match builder with
    | none => ((db, failed (.detail .errInvalidPatch "create builder is required")), [])
    | some _ => (beginTx turn db "sqlite: begin create tx" failed .begin .reserve, [])
  | .reserve w =>
    (statement turn db "sqlite: reserve config id" failed <|
      match insert w (reservation userID (format turn.now)) with
      | none => (db.rollback, failed (.wrap "sqlite: reserve config id" errFull))
      | some (id, w') => (db, .lastInsertId turn.now id w'), [])
  | .lastInsertId createdAt id w =>
    (statement turn db "sqlite: reserved config id" failed (db, .build createdAt id w), [])
  | .build createdAt id w =>
    match builder with
    | none => ((db, .build createdAt id w), [])
    | some build =>
      match build id with
      | .error e => ((db.rollback, failed (.wrap "sqlite: build config" e)), [id])
      | .ok inp =>
        match validateCreateInput inp with
        | .error e => ((db.rollback, failed e), [id])
        | .ok () => ((db, .finalise createdAt id inp w), [id])
  | .finalise createdAt id inp w =>
    (statement turn db "sqlite: finalise config" failed
      (db, .rowsAffected id (w.select (owned id userID)).length
        (w.update (owned id userID)
          (Sqlite.finalise inp (format (nextModifiedAt turn.now createdAt))) fun _ => rfl)), [])
  | .rowsAffected id affected w =>
    (statement turn db "sqlite: finalise rows affected" failed <|
      if affected ≠ 1 then
        (db.rollback, failed (.text "sqlite: finalise config: expected one reserved row"))
      else (db, .readBack id w), [])
  | .readBack id w =>
    (statement turn db "sqlite: read finalised config" failed <|
      match w.find (owned id userID) with
      | none => (db.rollback, failed (.wrap "sqlite: read finalised config" errNoRows))
      | some row =>
        match scanConfig row with
        | .error e => (db.rollback, failed (.wrap "sqlite: read finalised config" e))
        | .ok cfg => (db, .commit cfg w), [])
  | .commit row w =>
    (statement turn db "sqlite: commit create" failed (.commit w, .returned (.ok row)), [])
  | .returned r => ((db, .returned r), [])

/-- One step of `UpdateConfig`. -/
def updateStep (turn : Turn) (db : Database) (userID configID : Int64)
    (patch : UpdateConfigPatch) : UpdatePc → Database × UpdatePc
  | .validate =>
    match validatePatch patch with
    | .error e => (db, .returned (.error e))
    | .ok () => (db, .begin)
  | .begin =>
    beginTx turn db "sqlite: begin update tx" (fun e => .returned (.error e)) .begin .select
  | .select w =>
    statement turn db "sqlite: read modified_at" (fun e => .returned (.error e)) <|
      match w.find (owned configID userID) with
      | none => (db.rollback, .returned (.error .errConfigNotFound))
      | some row =>
        match parse row.modifiedAt with
        | none => (db.rollback, .returned (.error
            (.wrap "sqlite: parse old modified_at" (errParse row.modifiedAt))))
        | some old =>
          if patch.preserveModifiedAt ∧ patch.expectedModifiedAt ≠ some old then
            (db.rollback, .returned (.error .errConfigChanged))
          else (db, .write old w)
  | .write old w =>
    -- with nothing to set no statement is sent
    if setClauses patch turn.now old = [] then (db, .commit w)
    else statement turn db "sqlite: update config" (fun e => .returned (.error e))
      (db, .commit (w.update (owned configID userID)
        (applyClauses (setClauses patch turn.now old)) (applyClauses_id _)))
  | .commit w =>
    statement turn db "sqlite: commit update" (fun e => .returned (.error e)) (.commit w, .reload)
  | .reload =>
    match turn.fails with
    | some msg => (db, .returned (.error (.text msg)))
    | none => (db, .returned (getConfig db.committed userID configID))
  | .returned r => (db, .returned r)

/-- Calls that only read. -/
def isRead : Sqlite.Session → Bool
  | .getConfig _ _ | .listConfigsByUser _ | .countConfigsByUser _ | .done _ => true
  | _ => false

def step (turn : Turn) (db : Database) : Call → Database × Call
  | .create userID builder given pc =>
    match createStep turn db userID builder pc with
    | ((db', pc'), ids) => (db', .create userID builder (given ++ ids) pc')
  | .update userID configID patch pc =>
    match updateStep turn db userID configID patch pc with
    | (db', pc') => (db', .update userID configID patch pc')
  | .single (.done r) => (db, .single (.done r))
  | .single s =>
    match turn.fails with
    | some msg => (db, .single (.done (.config (.error (.text msg)))))
    | none =>
      if isRead s || !db.locked then
        match s.step turn.now turn.now db.committed with
        | (t', s') => ({ db with committed := t' }, .single s')
      else (db, .single s)

/-! ## What one step can do -/

/-- The call has a write transaction open. -/
def Call.inTx : Call → Bool
  | .create _ _ _ (.begin) | .create _ _ _ (.returned _) => false
  | .create _ _ _ _ => true
  | .update _ _ _ (.select _) | .update _ _ _ (.write _ _) | .update _ _ _ (.commit _) => true
  | .update _ _ _ _ => false
  | .single _ => false

/-- The call stands where one stands that has published nothing. An update that returned
an error may have published or not. -/
def Call.silent : Call → Bool
  | .create _ _ _ (.returned (.ok _)) => false
  | .update _ _ _ .reload | .update _ _ _ (.returned (.ok _)) => false
  | _ => true

/-- The kinds of steps, by what they do to the database and to the call's transaction. -/
inductive Moves (db : Database) (c : Call) : Database → Call → Prop
  | stays {c' : Call} (htx : c'.inTx = c.inTx) (hs : c.silent = true → c'.silent = true) :
      Moves db c db c'
  | begins {c' : Call} (hfree : db.locked = false) (hc : c.inTx = false) (hc' : c'.inTx = true) :
      Moves db c { db with locked := true } c'
  | rollsBack {c' : Call} (hc : c.inTx = true) (hc' : c'.inTx = false) (hs : c'.silent = true) :
      Moves db c db.rollback c'
  | creates {userID : Int64} {builder : Option CreateConfigInputBuilder} {given : List Int64}
      {row : Config} {w : Configs} (hc : c = .create userID builder given (.commit row w)) :
      Moves db c (.commit w) (.create userID builder given (.returned (.ok row)))
  | updates {userID configID : Int64} {patch : UpdateConfigPatch} {w : Configs}
      (hc : c = .update userID configID patch (.commit w)) :
      Moves db c (.commit w) (.update userID configID patch .reload)
  | writes {s s' : Sqlite.Session} {t' : Configs} (hc : c = .single s) (hfree : db.locked = false)
      (h : Commits db.committed t') : Moves db c { db with committed := t' } (.single s')

theorem isRead_step {s : Sqlite.Session} (h : isRead s = true) (now now' : Int) (t : Configs) :
    (s.step now now' t).1 = t := by
  cases s with
  | getConfig | listConfigsByUser | countConfigsByUser | done => rfl
  | createConfig | createConfigWithID | updateConfig | deleteConfig => cases h

section
variable {turn : Turn} {db : Database} {c : Call} {α : Type} {text : String} {returned : GoError → α}

/-- What holds after a rollback with any error and after the statement holds after it. -/
theorem statement_spec {Q : Database → α → Prop} {next : Database × α}
    (hret : ∀ e, Q db.rollback (returned e)) (h : Q next.1 next.2) :
    Q (statement turn db text returned next).1 (statement turn db text returned next).2 := by
  unfold statement
  split
  · exact hret _
  · exact h

theorem beginTx_spec {Q : Database → α → Prop} {waiting : α} {opened : Configs → α}
    (hret : ∀ e, Q db (returned e)) (hwait : Q db waiting)
    (hopen : db.locked = false → Q { db with locked := true } (opened db.committed)) :
    Q (beginTx turn db text returned waiting opened).1
      (beginTx turn db text returned waiting opened).2 := by
  unfold beginTx
  split
  · exact hret _
  · split
    · exact hwait
    · rename_i hfree
      exact hopen (by simpa using hfree)

theorem Moves.of_statement {f : α → Call} {next : Database × α} (hc : c.inTx = true)
    (hret : ∀ e, (f (returned e)).inTx = false ∧ (f (returned e)).silent = true)
    (h : Moves db c next.1 (f next.2)) :
    Moves db c (statement turn db text returned next).1
      (f (statement turn db text returned next).2) :=
  statement_spec (Q := fun db' x => Moves db c db' (f x))
    (fun e => .rollsBack hc (hret e).1 (hret e).2) h

theorem Moves.of_beginTx {f : α → Call} {waiting : α} {opened : Configs → α}
    (hc : c.inTx = false) (hret : ∀ e, (f (returned e)).inTx = false ∧ (f (returned e)).silent = true)
    (hwait : (f waiting).inTx = false ∧ (f waiting).silent = true)
    (hopen : ∀ w, (f (opened w)).inTx = true) :
    Moves db c (beginTx turn db text returned waiting opened).1
      (f (beginTx turn db text returned waiting opened).2) :=
  beginTx_spec (Q := fun db' x => Moves db c db' (f x))
    (fun e => .stays ((hret e).1.trans hc.symm) fun _ => (hret e).2)
    (.stays (hwait.1.trans hc.symm) fun _ => hwait.2)
    fun hfree => .begins hfree hc (hopen _)

end

theorem createStep_moves (turn : Turn) (db : Database) (userID : Int64)
    (builder : Option CreateConfigInputBuilder) (given : List Int64) (pc : CreatePc) :
    Moves db (.create userID builder given pc) (createStep turn db userID builder pc).1.1
      (.create userID builder (given ++ (createStep turn db userID builder pc).2)
        (createStep turn db userID builder pc).1.2) := by
  cases pc with
  | begin =>
    simp only [createStep]
    split
    · exact .stays rfl fun h => h
    · exact .of_beginTx (f := .create userID _ _) rfl (fun _ => ⟨rfl, rfl⟩) ⟨rfl, rfl⟩ fun _ => rfl
  | reserve w =>
    refine .of_statement (f := .create userID builder _) rfl (fun _ => ⟨rfl, rfl⟩) ?_
    split
    · exact .rollsBack rfl rfl rfl
    · exact .stays rfl fun h => h
  | lastInsertId createdAt id w =>
    exact .of_statement (f := .create userID builder _) rfl (fun _ => ⟨rfl, rfl⟩) (.stays rfl fun h => h)
  | build createdAt id w =>
    simp only [createStep]
    split
    · exact .stays rfl fun h => h
    · split
      · exact .rollsBack rfl rfl rfl
      · split
        · exact .rollsBack rfl rfl rfl
        · exact .stays rfl fun h => h
  | finalise createdAt id inp w =>
    exact .of_statement (f := .create userID builder _) rfl (fun _ => ⟨rfl, rfl⟩) (.stays rfl fun h => h)
  | rowsAffected id affected w =>
    refine .of_statement (f := .create userID builder _) rfl (fun _ => ⟨rfl, rfl⟩) ?_
    split
    · exact .rollsBack rfl rfl rfl
    · exact .stays rfl fun h => h
  | readBack id w =>
    refine .of_statement (f := .create userID builder _) rfl (fun _ => ⟨rfl, rfl⟩) ?_
    split
    · exact .rollsBack rfl rfl rfl
    · split
      · exact .rollsBack rfl rfl rfl
      · exact .stays rfl fun h => h
  | commit row w =>
    refine .of_statement (f := .create userID builder _) rfl (fun _ => ⟨rfl, rfl⟩) ?_
    simp only [createStep, List.append_nil]
    exact .creates rfl
  | returned r =>
    simp only [createStep, List.append_nil]
    exact .stays rfl fun h => h

theorem updateStep_moves (turn : Turn) (db : Database) (userID configID : Int64)
    (patch : UpdateConfigPatch) (pc : UpdatePc) :
    Moves db (.update userID configID patch pc) (updateStep turn db userID configID patch pc).1
      (.update userID configID patch (updateStep turn db userID configID patch pc).2) := by
  cases pc with
  | validate =>
    simp only [updateStep]
    split
    · exact .stays rfl fun h => h
    · exact .stays rfl fun h => h
  | begin =>
    exact .of_beginTx (f := .update userID configID patch) rfl (fun _ => ⟨rfl, rfl⟩) ⟨rfl, rfl⟩
      fun _ => rfl
  | select w =>
    refine .of_statement (f := .update userID configID patch) rfl (fun _ => ⟨rfl, rfl⟩) ?_
    split
    · exact .rollsBack rfl rfl rfl
    · split
      · exact .rollsBack rfl rfl rfl
      · split
        · exact .rollsBack rfl rfl rfl
        · exact .stays rfl fun h => h
  | write old w =>
    simp only [updateStep]
    split
    · exact .stays rfl fun h => h
    · exact .of_statement (f := .update userID configID patch) rfl (fun _ => ⟨rfl, rfl⟩)
        (.stays rfl fun h => h)
  | commit w =>
    exact .of_statement (f := .update userID configID patch) rfl (fun _ => ⟨rfl, rfl⟩) (.updates rfl)
  | reload =>
    simp only [updateStep]
    split
    · exact .stays rfl (fun h => by cases h)
    · exact .stays rfl (fun h => by cases h)
  | returned r => exact .stays rfl fun h => h

theorem step_moves (turn : Turn) (db : Database) (c : Call) :
    Moves db c (step turn db c).1 (step turn db c).2 := by
  unfold step
  split
  · exact createStep_moves turn db _ _ _ _
  · exact updateStep_moves turn db _ _ _ _
  · exact .stays rfl fun h => h
  · rename_i s _
    split
    · exact .stays rfl fun h => h
    · split
      · rename_i hgo
        by_cases hread : isRead s = true
        · have hsame := isRead_step hread turn.now turn.now db.committed
          simp only [hsame]
          exact .stays rfl fun h => h
        · have hfree : db.locked = false := by simpa [hread] using hgo
          exact .writes rfl hfree (s.step_commits _ _ _)
      · exact .stays rfl fun h => h

/-! ## What an open transaction has done so far -/

/-- The builder was called with `id` and gave an input that passed validation. -/
def Built (builder : Option CreateConfigInputBuilder) (id : Int64) (inp : CreateConfigInput) : Prop :=
  ∃ build, builder = some build ∧ build id = .ok inp ∧ validateCreateInput inp = .ok ()

/-- The copy is the committed table with the built row added, under the next id. -/
def Finalised (t : Configs) (userID : Int64) (builder : Option CreateConfigInputBuilder)
    (id : Int64) (w : Configs) : Prop :=
  ∃ inp createdAt now', Built builder id inp ∧ t.last < t.last + 1 ∧ id = t.last + 1 ∧
    w = t.insert (builtRow id userID inp createdAt now')

/-- A create's transaction against the committed table. -/
def CreatePc.Holds (t : Configs) (userID : Int64) (builder : Option CreateConfigInputBuilder)
    (given : List Int64) : CreatePc → Prop
  | .begin => given = []
  | .reserve w => given = [] ∧ w = t
  | .lastInsertId createdAt id w | .build createdAt id w =>
    given = [] ∧ insert t (reservation userID (format createdAt)) = some (id, w)
  | .finalise createdAt id inp w =>
    given = [id] ∧ insert t (reservation userID (format createdAt)) = some (id, w) ∧
      Built builder id inp
  | .rowsAffected id _ w | .readBack id w => given = [id] ∧ Finalised t userID builder id w
  | .commit row w =>
    given = [row.id] ∧
      ∃ createdAt now', createConfigWithID t createdAt now' userID builder = .ok (row, w)
  | .returned (.ok row) => given = [row.id]
  | .returned (.error _) => given.length ≤ 1

/-- An update's transaction against the committed table. -/
def UpdatePc.Holds (t : Configs) (userID configID : Int64) (patch : UpdateConfigPatch) :
    UpdatePc → Prop
  | .begin => validatePatch patch = .ok ()
  | .select w => validatePatch patch = .ok () ∧ w = t
  | .write old w =>
    validatePatch patch = .ok () ∧ w = t ∧
      ∃ row, t.find (owned configID userID) = some row ∧ parse row.modifiedAt = some old ∧
        ¬(patch.preserveModifiedAt ∧ patch.expectedModifiedAt ≠ some old)
  | .commit w => ∃ now, updateConfigTx t now userID configID patch = .ok w
  | .validate | .reload | .returned _ => True

def Call.Holds (t : Configs) : Call → Prop
  | .create userID builder given pc => pc.Holds t userID builder given
  | .update userID configID patch pc => pc.Holds t userID configID patch
  | .single _ => True

/-- Without a transaction a call holds nothing of the table. -/
theorem Call.Holds.of_not_inTx {t : Configs} {c : Call} (h : c.Holds t) (htx : c.inTx = false)
    (t' : Configs) : c.Holds t' := by
  cases c with
  | create userID builder given pc =>
    cases pc with
    | begin => exact h
    | returned r =>
      cases r with
      | ok row => exact h
      | error e => exact h
    | _ => cases htx
  | update userID configID patch pc =>
    cases pc with
    | validate | reload | returned => trivial
    | begin => exact h
    | _ => cases htx
  | single s => trivial

/-- Read back and committed, the copy is what the one-step transaction gives. -/
theorem Finalised.createConfigWithID {t w : Configs} {userID id : Int64}
    {builder : Option CreateConfigInputBuilder} (h : Finalised t userID builder id w) :
    ∃ r createdAt now', w.find (owned id userID) = some r ∧ r.id = id ∧
      ∀ cfg, scanConfig r = .ok cfg →
        Sqlite.createConfigWithID t createdAt now' userID builder = .ok (cfg, w) := by
  obtain ⟨inp, createdAt, now', ⟨build, rfl, hbuild, hval⟩, hlt, rfl, rfl⟩ := h
  refine ⟨builtRow (t.last + 1) userID inp createdAt now', createdAt, now', ?_, rfl, ?_⟩
  · have hmem := (AutoTable.mem_insert (r := builtRow (t.last + 1) userID inp createdAt now')
      hlt).mpr (.inr rfl)
    exact find_owned.mpr ⟨hmem, rfl, rfl⟩
  · intro cfg hscan
    rw [createConfigWithID_eq hlt]
    simp only [hbuild, hval, hscan]

theorem scanConfig_id {r : Row} {cfg : Config} (h : scanConfig r = .ok cfg) : cfg.id = r.id := by
  obtain ⟨_, _, hcfg⟩ := scanConfig_ok.mp h
  rw [hcfg]
  rfl

section
variable {turn : Turn} {db : Database} {t : Configs} {text : String}

theorem create_statement {userID : Int64} {builder : Option CreateConfigInputBuilder}
    {given : List Int64} {next : Database × CreatePc}
    (hret : ∀ e, (failed e).Holds t userID builder given)
    (h : next.2.Holds t userID builder given) :
    (statement turn db text failed next).2.Holds t userID builder given :=
  statement_spec (Q := fun _ x => CreatePc.Holds t userID builder given x) hret h

theorem update_statement {userID configID : Int64} {patch : UpdateConfigPatch}
    {next : Database × UpdatePc} (h : next.2.Holds t userID configID patch) :
    (statement turn db text (fun e => .returned (.error e)) next).2.Holds t userID configID patch :=
  statement_spec (Q := fun _ x => UpdatePc.Holds t userID configID patch x) (fun _ => trivial) h

end

theorem createStep_holds {turn : Turn} {db : Database} {userID : Int64}
    {builder : Option CreateConfigInputBuilder} {given : List Int64} {pc : CreatePc}
    (h : pc.Holds db.committed userID builder given) :
    (createStep turn db userID builder pc).1.2.Holds db.committed userID builder
      (given ++ (createStep turn db userID builder pc).2) := by
  -- a returned error allows for no builder call or one
  have hfailed : ∀ {ids : List Int64}, ids.length ≤ 1 →
      ∀ e, (failed e).Holds db.committed userID builder ids := fun hids _ => hids
  cases pc with
  | begin =>
    have hg : given = [] := h
    subst hg
    simp only [createStep, List.nil_append]
    split
    · exact hfailed (by simp) _
    · exact beginTx_spec (Q := fun _ x => CreatePc.Holds db.committed userID _ [] x)
        (hfailed (by simp)) rfl fun _ => ⟨rfl, rfl⟩
  | reserve w =>
    obtain ⟨rfl, rfl⟩ := h
    refine create_statement (hfailed (by simp [createStep])) ?_
    split
    · exact hfailed (by simp [createStep]) _
    · rename_i hins
      exact ⟨rfl, hins⟩
  | lastInsertId createdAt id w =>
    obtain ⟨rfl, hins⟩ := h
    exact create_statement (hfailed (by simp [createStep])) ⟨rfl, hins⟩
  | build createdAt id w =>
    obtain ⟨rfl, hins⟩ := h
    simp only [createStep, List.nil_append]
    split
    · exact ⟨rfl, hins⟩
    · split
      · exact hfailed (by simp) _
      · rename_i hbuild
        split
        · exact hfailed (by simp) _
        · rename_i hval
          exact ⟨rfl, hins, _, rfl, hbuild, hval⟩
  | finalise createdAt id inp w =>
    obtain ⟨rfl, hins, hbuilt⟩ := h
    obtain ⟨hlt, rfl, rfl⟩ := insert_eq hins
    refine create_statement (hfailed (by simp [createStep])) ?_
    exact ⟨rfl, inp, createdAt, turn.now, hbuilt, hlt, rfl, finalise_reserved hlt⟩
  | rowsAffected id affected w =>
    obtain ⟨rfl, hfin⟩ := h
    refine create_statement (hfailed (by simp [createStep])) ?_
    split
    · exact hfailed (by simp [createStep]) _
    · exact ⟨rfl, hfin⟩
  | readBack id w =>
    obtain ⟨rfl, hfin⟩ := h
    obtain ⟨r, createdAt, now', hfind, hid, hscan⟩ := hfin.createConfigWithID
    refine create_statement (hfailed (by simp [createStep])) ?_
    simp only [hfind]
    split
    · exact hfailed (by simp [createStep]) _
    · rename_i cfg hcfg
      refine ⟨?_, createdAt, now', hscan cfg hcfg⟩
      simp [createStep, scanConfig_id hcfg, hid]
  | commit row w =>
    obtain ⟨rfl, _⟩ := h
    exact create_statement (hfailed (by simp [createStep])) rfl
  | returned r =>
    simp only [createStep, List.append_nil]
    exact h

theorem updateStep_holds {turn : Turn} {db : Database} {userID configID : Int64}
    {patch : UpdateConfigPatch} {pc : UpdatePc}
    (h : pc.Holds db.committed userID configID patch) :
    (updateStep turn db userID configID patch pc).2.Holds db.committed userID configID patch := by
  cases pc with
  | validate =>
    simp only [updateStep]
    split
    · trivial
    · rename_i hval
      exact hval
  | begin =>
    exact beginTx_spec (Q := fun _ x => UpdatePc.Holds db.committed userID configID patch x)
      (fun _ => trivial) h fun _ => ⟨h, rfl⟩
  | select w =>
    obtain ⟨hval, rfl⟩ := h
    refine update_statement ?_
    split
    · trivial
    · rename_i row hrow
      split
      · trivial
      · rename_i old hold
        split
        · trivial
        · rename_i hcas
          exact ⟨hval, rfl, row, hrow, hold, hcas⟩
  | write old w =>
    obtain ⟨hval, rfl, row, hrow, hold, hcas⟩ := h
    simp only [updateStep]
    split
    · rename_i hnil
      refine ⟨turn.now, ?_⟩
      simp only [updateConfigTx, hval, hrow, hold, if_neg hcas, if_pos hnil]
    · rename_i hset
      refine update_statement ⟨turn.now, ?_⟩
      simp only [updateConfigTx, hval, hrow, hold, if_neg hcas, if_neg hset]
  | commit w =>
    exact update_statement trivial
  | reload =>
    simp only [updateStep]
    split
    · trivial
    · trivial
  | returned r => trivial

theorem step_holds (turn : Turn) {db : Database} {c : Call} (h : c.Holds db.committed) :
    (step turn db c).2.Holds db.committed := by
  unfold step
  split
  · exact createStep_holds h
  · exact updateStep_holds h
  · trivial
  · split
    · trivial
    · split
      · trivial
      · trivial

/-! ## One writer at a time -/

/-- At most one transaction is open, only under the lock, and every open one has done to
the committed table what its statements so far do. -/
structure Isolated {ι : Type} (s : Pool Database ι Call) : Prop where
  exclusive : Pool.Exclusive Call.inTx Database.locked s
  holds : ∀ i, (s.procs i).Holds s.shared.committed

variable {ι : Type} [DecidableEq ι]

/-- Only a call that publishes, or a writer that found the lock free, changes the
committed table. -/
theorem Moves.committed_eq {db db' : Database} {c c' : Call} (h : Moves db c db' c') :
    db'.committed = db.committed ∨
      (c.inTx = true ∧ c'.inTx = false) ∨ (db.locked = false ∧ c'.inTx = false) := by
  cases h with
  | stays | begins | rollsBack => exact .inl rfl
  | creates hc =>
    subst hc
    exact .inr (.inl ⟨rfl, rfl⟩)
  | updates hc =>
    subst hc
    exact .inr (.inl ⟨rfl, rfl⟩)
  | writes _ hfree _ => exact .inr (.inr ⟨hfree, rfl⟩)

theorem Moves.lockMove {db db' : Database} {c c' : Call} (h : Moves db c db' c') :
    Pool.LockMove db.locked c.inTx db'.locked c'.inTx := by
  cases h with
  | stays htx _ => exact .keeps rfl htx
  | begins hfree _ _ => exact .takes hfree rfl
  | rollsBack hc hc' _ => exact .gives hc hc'
  | creates hc =>
    subst hc
    exact .gives rfl rfl
  | updates hc =>
    subst hc
    exact .gives rfl rfl
  | writes hc _ _ =>
    subst hc
    exact .keeps rfl rfl

theorem fire_isolated {s : Pool Database ι Call} (h : Isolated s) (ev : ι × Turn) :
    Isolated (Pool.fire step s ev) := by
  obtain ⟨k, turn⟩ := ev
  have hmove := step_moves turn s.shared (s.procs k)
  refine ⟨h.exclusive.fire hmove.lockMove, ?_⟩
  refine Pool.forall_procs_fire
    (Q := fun _ (p : Call) => p.Holds (step turn s.shared (s.procs k)).1.committed) ?_
    fun i hik => ?_
  · have hholds := step_holds turn (h.holds k)
    rcases hmove.committed_eq with hsame | ⟨_, hout⟩ | ⟨_, hout⟩
    · rw [hsame]
      exact hholds
    · exact hholds.of_not_inTx hout _
    · exact hholds.of_not_inTx hout _
  · cases htx : (s.procs i).inTx with
    | false => exact (h.holds i).of_not_inTx htx _
    | true =>
      -- under another call's lock nothing is published
      rcases hmove.committed_eq with hsame | ⟨hin, _⟩ | ⟨hfree, _⟩
      · rw [hsame]
        exact h.holds i
      · exact absurd (h.exclusive.unique i k htx hin) hik
      · rw [h.exclusive.locked i htx] at hfree
        cases hfree

end TabbySync.Transactions
