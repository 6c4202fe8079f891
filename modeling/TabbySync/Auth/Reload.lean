import Mathlib.Data.List.Induction
import TabbySync.Auth.Users

/-! # Reloading the users file

How building the store ends, for every list of entries. The validation answers with an
error; a hash that stands twice in a list it let through is a panic of `newUserSnapshot`,
which `Reload` hands on to its caller. The live snapshot changes only when a list is
accepted. -/

namespace TabbySync.Auth

open Library.Text

/-- `UserStore.Reload`: how it ends, and the snapshot that is live afterwards. -/
def reload (live : UserSnapshot) (file : UsersFile) : Loaded Unit × UserSnapshot :=
  match loadUsersFile file with
  | .error err => (.error err, live)
  | .panic msg => (.panic msg, live)
  | .ok fresh => (.ok (), fresh)

/-- What the validation loop checks. -/
structure Checked (entries : List UserEntry) : Prop where
  wellFormed : ∀ e ∈ entries, e.WellFormed
  ids : (entries.map fun e => e.id).Nodup
  names : (entries.map fun e => e.normalised.name).Nodup

variable {entries : List UserEntry}

theorem valid_iff_checked :
    Valid entries ↔ Checked entries ∧ (entries.map fun e => e.normalised.tokenHash).Nodup := by
  constructor
  · intro h
    exact ⟨⟨h.wellFormed, h.ids, h.names⟩, h.hashes⟩
  · intro h
    exact ⟨h.1.wellFormed, h.1.ids, h.1.names, h.2⟩

theorem validateAndNormalise_ok_iff {users : List User} :
    validateAndNormalise entries = .ok users ↔
      Checked entries ∧ users = entries.map UserEntry.normalised := by
  unfold validateAndNormalise
  rw [validateFrom_ok_iff]
  constructor
  · intro h
    obtain ⟨hall, hids, hnames, rfl⟩ := h
    exact ⟨⟨fun e he => (hall e he).1, hids, hnames⟩, rfl⟩
  · intro h
    obtain ⟨hchecked, rfl⟩ := h
    exact ⟨fun e he => ⟨hchecked.wellFormed e he, by simp, by simp⟩, hchecked.ids,
      hchecked.names, rfl⟩

/-- The message of the one panic. -/
def duplicateHash : String := "auth: duplicate token_hash in users snapshot"

/-- The snapshot loop ends in a snapshot or in the panic. -/
theorem snapshotFrom_cases (snap : UserSnapshot) (users : List User) :
    (∃ s, snapshotFrom snap users = .ok s) ∨ snapshotFrom snap users = .panic duplicateHash := by
  induction users generalizing snap with
  | nil => exact .inl ⟨snap, rfl⟩
  | cons u rest ih =>
    unfold snapshotFrom
    split
    · exact .inr rfl
    · exact ih _

/-- The three ways building the store can end. -/
theorem buildStore_cases (entries : List UserEntry) :
    (Valid entries ∧ ∃ s, buildStore entries = .ok s) ∨
      (¬ Checked entries ∧ ∃ err, buildStore entries = .error err) ∨
      (Checked entries ∧ ¬ Valid entries ∧ buildStore entries = .panic duplicateHash) := by
  by_cases hvalid : Valid entries
  · exact .inl ⟨hvalid, accepted_iff.mpr hvalid⟩
  refine .inr ?_
  have hrefused : ∀ s, buildStore entries ≠ .ok s :=
    fun s hs => hvalid (buildStore_ok_iff.mp hs).1
  unfold buildStore at hrefused ⊢
  cases hres : validateAndNormalise entries with
  | error err =>
    refine .inl ⟨fun hchecked => ?_, err, rfl⟩
    rw [validateAndNormalise_ok_iff.mpr ⟨hchecked, rfl⟩] at hres
    cases hres
  | ok users =>
    rw [hres] at hrefused
    refine .inr ⟨(validateAndNormalise_ok_iff.mp hres).1, hvalid, ?_⟩
    rcases snapshotFrom_cases .empty users with ⟨s, hs⟩ | hpanic
    · exact absurd hs (hrefused s)
    · exact hpanic

/-- The loader accepts the list if it is valid and answers with an error if it is not. -/
structure LoadsExactly (entries : List UserEntry) : Prop where
  accepts : (∃ s, buildStore entries = .ok s) ↔ Valid entries
  rejects : ¬ Valid entries → ∃ err, buildStore entries = .error err ∧
    ∀ live, reload live (.ofEntries entries) = (.error err, live)
  never_panics : ∀ msg, buildStore entries ≠ .panic msg

/-- The loader treats a list as it should exactly unless the list passes the validation
and has a hash twice. -/
theorem loadsExactly_iff (entries : List UserEntry) :
    LoadsExactly entries ↔
      (Checked entries → (entries.map fun e => e.normalised.tokenHash).Nodup) := by
  constructor
  · intro h hchecked
    rcases buildStore_cases entries with ⟨hvalid, _⟩ | ⟨hnot, _⟩ | ⟨_, _, hpanic⟩
    · exact hvalid.hashes
    · exact absurd hchecked hnot
    · exact absurd hpanic (h.never_panics _)
  · intro h
    refine ⟨accepted_iff, fun hinvalid => ?_, fun msg hmsg => ?_⟩
    · rcases buildStore_cases entries with ⟨hvalid, _⟩ | ⟨_, err, herr⟩ | ⟨hchecked, hnot, _⟩
      · exact absurd hvalid hinvalid
      · refine ⟨err, herr, fun live => ?_⟩
        have hload : loadUsersFile (.ofEntries entries) = .error err := herr
        rw [reload, hload]
      · exact absurd (valid_iff_checked.mpr ⟨hchecked, h hchecked⟩) hnot
    · rcases buildStore_cases entries with ⟨_, s, hs⟩ | ⟨_, err, herr⟩ | ⟨hchecked, hnot, _⟩
      · rw [hs] at hmsg
        cases hmsg
      · rw [herr] at hmsg
        cases hmsg
      · exact hnot (valid_iff_checked.mpr ⟨hchecked, h hchecked⟩)

/-- A record copied under another id and name, with its hash. -/
def copiedRecord : List UserEntry :=
  [ ⟨1, "alice", "tbs_a", String.ofList (List.replicate 64 'a'), false⟩
  , ⟨2, "bob", "tbs_b", String.ofList (List.replicate 64 'a'), false⟩ ]

theorem copied_hash_panics :
    ¬ Valid copiedRecord ∧ buildStore copiedRecord = .panic duplicateHash := by
  have hhash : hashPattern (normaliseHash (String.ofList (List.replicate 64 'a'))) = true := by
    obtain ⟨hsame, hpattern⟩ := repeatedDigit (rfl : isHexDigit 'a' = true)
    rw [hsame]
    exact hpattern
  have hchecked : Checked copiedRecord := by
    refine ⟨?_, by decide, by decide +kernel⟩
    intro e he
    rcases List.mem_pair.mp he with rfl | rfl
    · exact ⟨by decide, by decide +kernel, by decide +kernel, hhash⟩
    · exact ⟨by decide, by decide +kernel, by decide +kernel, hhash⟩
  have hinvalid : ¬ Valid copiedRecord := fun h =>
    (List.nodup_cons.mp h.hashes).1 (List.mem_singleton.mpr rfl)
  rcases buildStore_cases copiedRecord with ⟨hvalid, _⟩ | ⟨hnot, _⟩ | ⟨_, _, hpanic⟩
  · exact absurd hvalid hinvalid
  · exact absurd hchecked hnot
  · exact ⟨hinvalid, hpanic⟩

/-! ## Runs of reloads -/

/-- The live snapshot after some calls of `Reload`, those that panic included. -/
def reloads (live : UserSnapshot) (files : List UsersFile) : UserSnapshot :=
  files.foldl (fun live file => (reload live file).2) live

def Refused (file : UsersFile) : Prop := ∀ s, loadUsersFile file ≠ .ok s

theorem reload_live (live : UserSnapshot) (file : UsersFile) :
    loadUsersFile file = .ok (reload live file).2 ∨ Refused file ∧ (reload live file).2 = live := by
  unfold reload Refused
  split
  · rename_i err herr
    exact .inr ⟨fun s hs => (by rw [herr] at hs; cases hs), rfl⟩
  · rename_i msg hmsg
    exact .inr ⟨fun s hs => (by rw [hmsg] at hs; cases hs), rfl⟩
  · rename_i fresh hfresh
    exact .inl hfresh

/-- The live snapshot is that of the last file that loaded. -/
theorem reloads_live (live : UserSnapshot) (files : List UsersFile) :
    (reloads live files = live ∧ ∀ file ∈ files, Refused file) ∨
      ∃ before file after, files = before ++ file :: after ∧
        loadUsersFile file = .ok (reloads live files) ∧ ∀ f ∈ after, Refused f := by
  -- from the last file backwards
  induction files using List.reverseRecOn with
  | nil => exact .inl ⟨rfl, by simp⟩
  | append_singleton files file ih =>
    have hlast : reloads live (files ++ [file]) = (reload (reloads live files) file).2 := by
      rw [reloads, List.foldl_append]
      rfl
    rw [hlast]
    rcases reload_live (reloads live files) file with hload | ⟨hrefused, hkeep⟩
    · exact .inr ⟨files, file, [], rfl, hload, by simp⟩
    · rw [hkeep]
      rcases ih with ⟨hsame, hall⟩ | ⟨before, f, after, hsplit, hload, hall⟩
      · refine .inl ⟨hsame, fun f hf => ?_⟩
        rcases List.mem_append.mp hf with hf | hf
        · exact hall f hf
        · rwa [List.mem_singleton.mp hf]
      · refine .inr ⟨before, f, after ++ [file], by simp [hsplit], hload, fun f' hf' => ?_⟩
        rcases List.mem_append.mp hf' with hf' | hf'
        · exact hall f' hf'
        · rwa [List.mem_singleton.mp hf']

end TabbySync.Auth
