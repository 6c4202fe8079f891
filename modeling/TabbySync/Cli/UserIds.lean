import TabbySync.Cli.Loadability

/-! # Ids over a run of commands

`add` takes the id after the largest one in the file, so what it knows of the past is
what is still in the file. Rows of a removed user stay in the database, under an id
that nothing else remembers. Over a run of commands the ids that ever were in the file
are those still in it and those that an `rm` took out (`everIn_iff`); an `add` gives
out an id not seen before exactly when it avoids both. -/

namespace TabbySync.Cli

open Auth Sqlite

variable {P : Platform} {inv : Invocation} {file : UsersFile}

def idsOf (file : UsersFile) : List Int64 := (entriesOf file).map fun u => u.id

/-- The commands one after the other on one file. -/
def runAll (P : Platform) : List Invocation → UsersFile → UsersFile
  | [], file => file
  | inv :: rest, file => runAll P rest ((runUser P inv file).fileAfter file)

def Invocation.isRm (inv : Invocation) : Bool :=
  inv.args[2]? = some "rm" ∨ inv.args[2]? = some "remove"

/-- The ids that the `rm` commands of a run took out of the file. -/
def removedIDs (P : Platform) : List Invocation → UsersFile → List Int64
  | [], _ => []
  | inv :: rest, file =>
    let file' := (runUser P inv file).fileAfter file
    (if inv.isRm then (idsOf file).filter fun id => id ∉ idsOf file' else []) ++
      removedIDs P rest file'

/-- The id was in the file at some point of the run. -/
def EverIn (P : Platform) (before : List Invocation) (file : UsersFile) (id : Int64) : Prop :=
  ∃ early, early <+: before ∧ id ∈ idsOf (runAll P early file)

theorem runAll_append (a b : List Invocation) :
    runAll P (a ++ b) file = runAll P b (runAll P a file) := by
  induction a generalizing file with
  | nil => rfl
  | cons inv rest ih => exact ih

/-! ## One command -/

theorem entriesOf_ofEntries (users : List UserEntry) : entriesOf (.ofEntries users) = users := rfl

/-- The entries after a command: those before, or one edit of them. -/
theorem entriesOf_fileAfter (P : Platform) (inv : Invocation) (file : UsersFile) :
    (runUser P inv file).fileAfter file = file ∨
      Edit P inv (entriesOf file) (entriesOf ((runUser P inv file).fileAfter file)) := by
  unfold Result.fileAfter
  split
  · exact .inl rfl
  · rename_i users' hsaved
    obtain ⟨users, hload, hedit⟩ := runUser_saved hsaved
    have : entriesOf file = users := by rw [entriesOf, hload]
    rw [this]
    exact .inr hedit

/-- Only `rm` takes an id out of the file. -/
theorem mem_idsOf_fileAfter (P : Platform) (inv : Invocation) {id : Int64} (h : id ∈ idsOf file) :
    id ∈ idsOf ((runUser P inv file).fileAfter file) ∨ inv.isRm = true := by
  obtain heq | hedit := entriesOf_fileAfter P inv file
  · rw [heq]
    exact .inl h
  · unfold idsOf at h ⊢
    revert hedit
    generalize entriesOf ((runUser P inv file).fileAfter file) = users'
    intro hedit
    cases hedit with
    | added => exact .inl (by rw [List.map_append]; exact List.mem_append_left _ h)
    | removed sub => exact .inr (decide_eq_true sub)
    | rotated sub idx =>
      rw [map_set_of_eq (f := fun e : UserEntry => e.id) (rotatedEntry_id P inv.random _)]
      exact .inl h

/-! ## The whole run -/

theorem kept_or_removed {before : List Invocation} {id : Int64} (h : id ∈ idsOf file) :
    id ∈ idsOf (runAll P before file) ∨ id ∈ removedIDs P before file := by
  induction before generalizing file with
  | nil => exact .inl h
  | cons inv rest ih =>
    simp only [removedIDs, List.mem_append]
    by_cases hin : id ∈ idsOf ((runUser P inv file).fileAfter file)
    · exact (ih hin).imp_right .inr
    · have hrm := (mem_idsOf_fileAfter P inv h).resolve_left hin
      rw [if_pos hrm]
      exact .inr (.inl (List.mem_filter.mpr ⟨h, decide_eq_true hin⟩))

theorem EverIn.cons {rest : List Invocation} {id : Int64}
    (h : EverIn P rest ((runUser P inv file).fileAfter file) id) :
    EverIn P (inv :: rest) file id := by
  obtain ⟨early, hpre, hid⟩ := h
  exact ⟨inv :: early, (List.cons_prefix_cons).mpr ⟨rfl, hpre⟩, hid⟩

/-- What ever was in the file is in it still, or some `rm` took it out. -/
theorem everIn_iff {before : List Invocation} {id : Int64} :
    EverIn P before file id ↔
      id ∈ idsOf (runAll P before file) ∨ id ∈ removedIDs P before file := by
  induction before generalizing file with
  | nil => simp [EverIn, removedIDs, List.prefix_nil]
  | cons inv rest ih =>
    constructor
    · rintro ⟨early, hpre, hid⟩
      cases early with
      | nil => exact kept_or_removed hid
      | cons inv' early =>
        obtain ⟨rfl, hrest⟩ := List.cons_prefix_cons.mp hpre
        refine (ih.mp ⟨early, hrest, hid⟩).imp_right fun h => ?_
        exact List.mem_append_right _ h
    · rintro (hin | hremoved)
      · exact (ih.mpr (.inl hin)).cons
      · obtain hhere | hlater := List.mem_append.mp hremoved
        · refine ⟨[], List.nil_prefix, ?_⟩
          split at hhere
          · exact (List.mem_filter.mp hhere).1
          · cases hhere
        · exact (ih.mpr (.inr hlater)).cons

instance (P : Platform) (before : List Invocation) (file : UsersFile) (id : Int64) :
    Decidable (EverIn P before file id) :=
  decidable_of_iff _ everIn_iff.symm

/-- No row belongs to an id that never was in the file. -/
theorem listConfigsByUser_of_unowned {t : Configs} {userID : Int64}
    (h : ∀ r ∈ t.rows, r.userID ≠ userID) : listConfigsByUser t userID = .ok [] := by
  have : t.select (ownedBy userID) = [] := by
    rw [List.eq_nil_iff_forall_not_mem]
    intro r hr
    obtain ⟨hrow, hu⟩ := Library.AutoTable.mem_select.mp hr
    exact h r hrow (ownedBy_iff.mp hu)
  rw [listConfigsByUser, this]
  rfl

/-- The id after the largest one in the file was not taken out by an earlier `rm`, and
it did not wrap around to an id in the file. -/
def NextUnused (users : List UserEntry) (removed : List Int64) : Prop :=
  maxID users + 1 ∉ removed ∧
    ((maxID users).toInt < 2 ^ 63 - 1 ∨ maxID users + 1 ∉ users.map fun u => u.id)

instance (users : List UserEntry) (removed : List Int64) :
    Decidable (NextUnused users removed) := by
  unfold NextUnused
  infer_instance

theorem next_not_mem {users : List UserEntry} (room : (maxID users).toInt < 2 ^ 63 - 1) :
    maxID users + 1 ∉ users.map fun u => u.id := by
  intro h
  obtain ⟨u, hu, heq⟩ := List.mem_map.mp h
  exact ((le_maxID hu).trans_lt (lt_next (maxID_nonneg users) room)).ne heq

theorem nextUnused_iff (P : Platform) (file : UsersFile) (before : List Invocation) :
    NextUnused (entriesOf (runAll P before file)) (removedIDs P before file) ↔
      ¬ EverIn P before file (maxID (entriesOf (runAll P before file)) + 1) := by
  rw [everIn_iff, not_or, NextUnused, idsOf, and_comm]
  refine and_congr_left fun _ => ⟨?_, .inr⟩
  rintro (room | hnot)
  · exact next_not_mem room
  · exact hnot

/-- Each `add` of a run appends an entry whose id is new to the whole run, earlier
entries included, exactly when the next id is unused; and then no row whose owner ever
was in the file belongs to it. -/
theorem added_id_new_iff (P : Platform) (file : UsersFile) (before : List Invocation)
    (inv : Invocation) (sub : inv.args[2]? = some "add")
    (ok : (runUser P inv (runAll P before file)).code = 0) :
    ∃ e, entriesOf (runAll P (before ++ [inv]) file) = entriesOf (runAll P before file) ++ [e] ∧
      (¬ EverIn P before file e.id ↔
        NextUnused (entriesOf (runAll P before file)) (removedIDs P before file)) ∧
      (NextUnused (entriesOf (runAll P before file)) (removedIDs P before file) →
        ∀ t : Configs, (∀ r ∈ t.rows, EverIn P before file r.userID) →
          listConfigsByUser t e.id = .ok []) := by
  obtain ⟨users', hsaved⟩ := runUser_add_saved sub ok
  obtain ⟨users, hload, hedit⟩ := runUser_saved hsaved
  have husers : entriesOf (runAll P before file) = users := by rw [entriesOf, hload]
  have hafter : entriesOf (runAll P (before ++ [inv]) file) = users' := by
    rw [runAll_append]
    simp only [runAll, Result.fileAfter, hsaved, entriesOf_ofEntries]
  have hnew := nextUnused_iff P file before
  rw [husers] at hnew ⊢
  rw [hafter]
  cases hedit with
  | @added arg _ _ _ _ =>
    refine ⟨newEntry P _ inv.random users, rfl, hnew.symm, fun hnext t howners => ?_⟩
    refine listConfigsByUser_of_unowned fun r hr heq => hnew.mp hnext ?_
    have hever := howners r hr
    rwa [heq] at hever
  | removed sub' =>
    rw [sub] at sub'
    exact absurd sub' (by decide)
  | rotated sub' =>
    rw [sub] at sub'
    exact absurd sub' (by decide)

def twoUsers : UsersFile :=
  .ofEntries [sampleEntry 1 "alice" 'a', sampleEntry 2 "bob" 'b']

theorem added_id_new_iff_carol :
    ∃ e, entriesOf (runAll asciiPlatform
        [invocation ["rm", "alice"] 0, invocation ["add", "carol"] 7] twoUsers) =
      entriesOf (runAll asciiPlatform [invocation ["rm", "alice"] 0] twoUsers) ++ [e] ∧
      ¬ EverIn asciiPlatform [invocation ["rm", "alice"] 0] twoUsers e.id := by
  obtain ⟨e, happ, hnew, -⟩ := added_id_new_iff asciiPlatform twoUsers
    [invocation ["rm", "alice"] 0] (invocation ["add", "carol"] 7) rfl (by decide +kernel)
  exact ⟨e, happ, hnew.mpr (by decide +kernel)⟩

/-- A row that user 2 stored while their id was in the file. -/
def rowOfBob : Row where
  id := 1
  userID := 2
  name := "laptop"
  contentCiphertext := [1]
  contentNonce := [2]
  lastUsedWithVersion := none
  createdAt := "2024-01-01T00:00:00Z"
  modifiedAt := "2024-01-01T00:00:00Z"

/-- After `rm bob`, `add carol` gives out bob's id, and with it bob's rows. -/
theorem removed_id_given_again :
    Loads twoUsers ∧
    (runUser asciiPlatform (invocation ["rm", "bob"] 0) twoUsers).code = 0 ∧
    (runUser asciiPlatform (invocation ["add", "carol"] 7)
      (runAll asciiPlatform [invocation ["rm", "bob"] 0] twoUsers)).code = 0 ∧
    (entriesOf (runAll asciiPlatform
        [invocation ["rm", "bob"] 0, invocation ["add", "carol"] 7] twoUsers)).map
      (fun u => (u.id, u.name)) = [(1, "alice"), (2, "carol")] ∧
    EverIn asciiPlatform [invocation ["rm", "bob"] 0] twoUsers 2 ∧
    ∃ cfg, listConfigsByUser ((Library.AutoTable.empty 0).insert rowOfBob) 2 = .ok [cfg] ∧
      cfg.name = "laptop" := by
  have loads : Loads twoUsers :=
    loads_ofEntries.mpr (valid_samples [(1, "alice", 'a'), (2, "bob", 'b')] (by decide +kernel))
  refine ⟨loads, by decide +kernel, by decide +kernel, by decide +kernel,
    ⟨[], List.nil_prefix, by decide +kernel⟩, ?_⟩
  refine ⟨⟨1, 2, "laptop", [1], [2], "", 1704067200000000000, 1704067200000000000⟩, ?_, rfl⟩
  decide +kernel

end TabbySync.Cli
