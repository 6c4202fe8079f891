import Mathlib.Data.List.Nodup
import TabbySync.Cli.UserCommands

/-! # Commands and the loader

Does a list that a user command writes still start the server? `rm` and `rotate`
always keep it loadable. `add` keeps it loadable exactly when the largest id leaves
room for another and no entry has the new name once both are trimmed: the command
compares the names as they stand in the file, the loader compares them trimmed. -/

namespace TabbySync.Cli

open Library.Text Auth

/-! ## The generated token -/

theorem hashPattern_hexEncode (v : Vector UInt8 32) : hashPattern (hexEncode v.toList) = true := by
  have len : (hexEncode v.toList).toList.length = 64 := by
    rw [length_hexEncode, Vector.length_toList]
  simp only [hashPattern, decide_eq_true_eq]
  exact ⟨len, List.all_eq_true.mpr fun c hc => isHexDigit_of_mem_hexEncode hc⟩

theorem normaliseHash_hexEncode (bytes : List UInt8) :
    normaliseHash (hexEncode bytes) = hexEncode bytes :=
  normaliseHash_of_hexDigits fun _ hc => isHexDigit_of_mem_hexEncode hc

theorem normaliseHash_generateToken (P : Platform) (buf : Vector UInt8 32) :
    normaliseHash (generateToken P buf).hash = (generateToken P buf).hash :=
  normaliseHash_hexEncode _

/-- The part of the token kept in clear holds no white space, so it is not blank. -/
theorem trimSpace_shown_ne (P : Platform) (buf : Vector UInt8 32) :
    trimSpace (generateToken P buf).shown ≠ "" := by
  have plain : ∀ c ∈ (generateToken P buf).shown.toList, isSpace c = false := by
    intro c hc
    simp only [generateToken, String.toList_ofList, String.toList_append] at hc
    obtain hc | hc := List.mem_append.mp (List.mem_of_mem_take hc)
    · have all : tokenPrefixStr.toList.all (fun d => isSpace d = false) = true := by decide
      exact of_decide_eq_true (List.all_eq_true.mp all c hc)
    · exact (isHexDigit_plain (isHexDigit_of_mem_hexEncode hc)).1
  rw [trimSpace_of_no_space plain]
  intro h
  have len := congrArg (fun s => s.toList.length) h
  simp [generateToken, tokenPrefixStr] at len

/-! ## Ids -/

theorem maxID_foldl_le (users : List UserEntry) (m : Int64) :
    m ≤ users.foldl (fun m u => if m < u.id then u.id else m) m ∧
      ∀ u ∈ users, u.id ≤ users.foldl (fun m u => if m < u.id then u.id else m) m := by
  induction users generalizing m with
  | nil => simp
  | cons v rest ih =>
    rw [List.foldl_cons]
    obtain ⟨hm, hrest⟩ := ih (if m < v.id then v.id else m)
    have step : m ≤ (if m < v.id then v.id else m) ∧ v.id ≤ (if m < v.id then v.id else m) := by
      split <;> grind
    refine ⟨step.1.trans hm, fun u hu => ?_⟩
    obtain rfl | hu := List.mem_cons.mp hu
    · exact step.2.trans hm
    · exact hrest u hu

theorem maxID_nonneg (users : List UserEntry) : 0 ≤ maxID users := (maxID_foldl_le users 0).1

theorem le_maxID {users : List UserEntry} {u : UserEntry} (hu : u ∈ users) :
    u.id ≤ maxID users := (maxID_foldl_le users 0).2 u hu

/-- The next id is positive unless the counter is at its end, where it wraps. -/
theorem one_le_next_iff {m : Int64} (h : 0 ≤ m) : 1 ≤ m + 1 ↔ m.toInt < 2 ^ 63 - 1 := by
  have hm := Int64.le_iff_toInt_le.mp h
  have hlt := m.toInt_lt
  rw [Int64.le_iff_toInt_le, Int64.toInt_add]
  change (1 : Int) ≤ (m.toInt + 1).bmod (2 ^ 64) ↔ _
  change (0 : Int) ≤ _ at hm
  constructor
  · intro hpos
    by_contra hge
    have : m.toInt = 2 ^ 63 - 1 := by omega
    rw [this] at hpos
    revert hpos
    decide
  · intro hroom
    rw [Int.bmod_eq_of_le] <;> omega

theorem lt_next {m : Int64} (h : 0 ≤ m) (room : m.toInt < 2 ^ 63 - 1) : m < m + 1 := by
  have hm := Int64.le_iff_toInt_le.mp h
  change (0 : Int) ≤ _ at hm
  rw [Int64.lt_iff_toInt_lt, Int64.toInt_add]
  change m.toInt < (m.toInt + 1).bmod (2 ^ 64)
  rw [Int.bmod_eq_of_le] <;> omega

/-! ## Valid lists under the edits -/

/-- Replacing an element by one with the same image does not change the images. -/
theorem map_set_of_eq {α β : Type} {f : α → β} {l : List α} {i : Fin l.length} {a : α}
    (h : f a = f (l.get i)) : (l.set i a).map f = l.map f := by
  apply List.ext_getElem?
  intro j
  simp only [List.getElem?_map, List.getElem?_set]
  grind

/-- The generated hash is not the hash of an entry. -/
def FreshToken (P : Platform) (random : Vector UInt8 32) (users : List UserEntry) : Prop :=
  ∀ u ∈ users, u.normalised.tokenHash ≠ (generateToken P random).hash

theorem rotatedEntry_id (P : Platform) (random : Vector UInt8 32) (e : UserEntry) :
    (rotatedEntry P random e).id = e.id := by
  rw [rotatedEntry]

theorem rotatedEntry_name (P : Platform) (random : Vector UInt8 32) (e : UserEntry) :
    (rotatedEntry P random e).normalised.name = e.normalised.name := by
  simp only [rotatedEntry, UserEntry.normalised]

theorem rotatedEntry_tokenPrefix (P : Platform) (random : Vector UInt8 32) (e : UserEntry) :
    (rotatedEntry P random e).normalised.tokenPrefix =
      trimSpace (generateToken P random).shown := by
  simp only [rotatedEntry, UserEntry.normalised]

theorem rotatedEntry_tokenHash (P : Platform) (random : Vector UInt8 32) (e : UserEntry) :
    (rotatedEntry P random e).normalised.tokenHash =
      normaliseHash (generateToken P random).hash := by
  simp only [rotatedEntry, UserEntry.normalised]

theorem valid_rotate {P : Platform} {random : Vector UInt8 32} {users : List UserEntry}
    (hv : Valid users) (fresh : FreshToken P random users) (idx : Fin users.length) :
    Valid (users.set idx (rotatedEntry P random (users.get idx))) where
  wellFormed e he := by
    obtain he | rfl := List.mem_or_eq_of_mem_set he
    · exact hv.wellFormed e he
    · obtain ⟨hid, hname, -, -⟩ := hv.wellFormed _ (List.get_mem users idx)
      refine ⟨?_, ?_, ?_, ?_⟩
      · rwa [rotatedEntry_id]
      · rwa [rotatedEntry_name]
      · rw [rotatedEntry_tokenPrefix]
        exact trimSpace_shown_ne P random
      · rw [rotatedEntry_tokenHash, normaliseHash_generateToken]
        exact hashPattern_hexEncode _
  ids := by
    rw [map_set_of_eq (f := fun e : UserEntry => e.id) (rotatedEntry_id P random _)]
    exact hv.ids
  names := by
    rw [map_set_of_eq (f := fun e : UserEntry => e.normalised.name) (rotatedEntry_name P random _)]
    exact hv.names
  hashes := by
    rw [List.map_set]
    refine hv.hashes.set ?_
    rw [rotatedEntry_tokenHash, normaliseHash_generateToken]
    intro hm
    obtain ⟨u, hu, heq⟩ := List.mem_map.mp hm
    exact fresh u hu heq

/-- What `add` needs of the list: an id left to give, and no entry that has the name
once both are trimmed. -/
def RoomFor (name : String) (users : List UserEntry) : Prop :=
  (maxID users).toInt < 2 ^ 63 - 1 ∧ ∀ u ∈ users, trimSpace u.name ≠ name

instance (name : String) (users : List UserEntry) : Decidable (RoomFor name users) := by
  unfold RoomFor
  infer_instance

theorem valid_add_iff {P : Platform} {arg : String} {random : Vector UInt8 32}
    {users : List UserEntry} (hv : Valid users) (fresh : FreshToken P random users)
    (hname : trimSpace arg ≠ "") :
    Valid (users ++ [newEntry P (trimSpace arg) random users]) ↔
      RoomFor (trimSpace arg) users := by
  have name : (newEntry P (trimSpace arg) random users).normalised.name = trimSpace arg :=
    trimSpace_trimSpace arg
  have hash : (newEntry P (trimSpace arg) random users).normalised.tokenHash =
      (generateToken P random).hash := normaliseHash_generateToken P random
  rw [valid_append_iff hv, name, hash]
  constructor
  · rintro ⟨hwf, -, hnames, -⟩
    exact ⟨(one_le_next_iff (maxID_nonneg users)).mp hwf.id_pos, hnames⟩
  · rintro ⟨room, hnames⟩
    have id_pos := (one_le_next_iff (maxID_nonneg users)).mpr room
    have wf : (newEntry P (trimSpace arg) random users).WellFormed := by
      refine ⟨id_pos, ?_, trimSpace_shown_ne P random, ?_⟩
      · rw [name]; exact hname
      · rw [hash]; exact hashPattern_hexEncode _
    refine ⟨wf, fun u hu => ?_, hnames, fresh⟩
    exact ((le_maxID hu).trans_lt (lt_next (maxID_nonneg users) room)).ne

/-! ## The commands -/

/-- The server starts with this file. -/
def Loads (file : UsersFile) : Prop := ∃ s, loadUsersFile file = .ok s

theorem loads_ofEntries {entries : List UserEntry} :
    Loads (.ofEntries entries) ↔ Valid entries := accepted_iff

/-- The commands read the very entries the server has checked. -/
theorem loadUsersFile_ok {file : UsersFile} {s : UserSnapshot} (h : loadUsersFile file = .ok s) :
    loadUsersYAML file = .ok (entriesOf file) ∧ Valid (entriesOf file) ∧
      s.ordered = (entriesOf file).map UserEntry.normalised := by
  cases file with
  | unreadable why => cases h
  | document d =>
    simp only [loadUsersFile] at h
    split at h; · cases h
    rename_i entries hstrict
    have hload : loadUsersYAML (.document d) = .ok entries := by
      rw [loadUsersYAML, d.lax_of_strict entries hstrict]
    have hentries : entriesOf (.document d) = entries := by
      rw [entriesOf, hload]
    rw [hentries]
    exact ⟨hload, buildStore_ok_iff.mp h⟩

theorem Loads.valid {file : UsersFile} (h : Loads file) :
    loadUsersYAML file = .ok (entriesOf file) ∧ Valid (entriesOf file) := by
  obtain ⟨s, hs⟩ := h
  obtain ⟨hload, hv, _⟩ := loadUsersFile_ok hs
  exact ⟨hload, hv⟩

/-- `rm` and `rotate` ask for nothing. -/
def KeepsLoadable (inv : Invocation) (users : List UserEntry) : Prop :=
  inv.args[2]? = some "add" → RoomFor (trimSpace (inv.args.getD 3 "")) users

/-- A command that exits 0 on a loadable file, with a token not seen before, leaves a
loadable file exactly when it is not an `add`, or is an `add` for which there is room. -/
theorem runUser_loads_iff (P : Platform) (inv : Invocation) (file : UsersFile)
    (loads : Loads file) (ok : (runUser P inv file).code = 0)
    (fresh : FreshToken P inv.random (entriesOf file)) :
    Loads ((runUser P inv file).fileAfter file) ↔ KeepsLoadable inv (entriesOf file) := by
  obtain ⟨hload, hv⟩ := loads.valid
  unfold Result.fileAfter
  split
  · rename_i hnone
    -- nothing was written: an aborted rm, never an add
    refine iff_of_true loads fun sub => ?_
    obtain ⟨users', hsaved⟩ := runUser_add_saved sub ok
    rw [hnone] at hsaved
    cases hsaved
  · rename_i users' hsaved
    obtain ⟨users, hload', hedit⟩ := runUser_saved hsaved
    obtain rfl : users = entriesOf file := by
      rw [hload] at hload'
      exact (Except.ok.inj hload').symm
    rw [loads_ofEntries]
    cases hedit with
    | @added arg sub target name unused =>
      have harg : inv.args.getD 3 "" = arg := by
        rw [List.getD_eq_getElem?_getD, target]
        rfl
      rw [valid_add_iff hv fresh name, KeepsLoadable, harg]
      exact ⟨fun h _ => h, fun h => h sub⟩
    | removed sub idx =>
      refine iff_of_true (hv.sublist (List.eraseIdx_sublist _ _)) fun add => ?_
      rw [add] at sub
      exact absurd sub (by decide)
    | rotated sub idx =>
      refine iff_of_true (valid_rotate hv fresh idx) fun add => ?_
      rw [add] at sub
      exact absurd sub (by decide)

/-- An enabled user whose hash is one digit repeated. -/
def sampleEntry (id : Int64) (name : String) (digit : Char) : UserEntry where
  id := id
  name := name
  tokenPrefix := "tbs_00000000"
  tokenHash := String.ofList (List.replicate 64 digit)
  disabled := false

/-- Such entries are valid if their ids, names and digits are. -/
theorem valid_samples (samples : List (Int64 × String × Char))
    (h : (∀ s ∈ samples, 1 ≤ s.1 ∧ trimSpace s.2.1 ≠ "" ∧ isHexDigit s.2.2 = true) ∧
      (samples.map fun s => s.1).Nodup ∧ (samples.map fun s => trimSpace s.2.1).Nodup ∧
      (samples.map fun s => s.2.2).Nodup) :
    Valid (samples.map fun s => sampleEntry s.1 s.2.1 s.2.2) := by
  obtain ⟨hall, hids, hnames, hdigits⟩ := h
  have hshown : trimSpace "tbs_00000000" ≠ "" := by decide +kernel
  refine ⟨?_, by rwa [List.map_map], by rwa [List.map_map], ?_⟩
  · intro e he
    obtain ⟨s, hs, rfl⟩ := List.mem_map.mp he
    obtain ⟨hid, hname, hdigit⟩ := hall s hs
    obtain ⟨hsame, hpattern⟩ := repeatedDigit hdigit
    refine ⟨hid, hname, hshown, ?_⟩
    show hashPattern (normaliseHash _) = true
    rw [sampleEntry, hsame]
    exact hpattern
  · have hhashes : (samples.map fun s => sampleEntry s.1 s.2.1 s.2.2).map
        (fun e => e.normalised.tokenHash) =
          (samples.map fun s => s.2.2).map fun digit =>
            String.ofList (List.replicate 64 digit) := by
      rw [List.map_map, List.map_map]
      exact List.map_congr_left fun s hs => (repeatedDigit (hall s hs).2.2).1
    rw [hhashes]
    refine hdigits.map fun digit digit' heq => ?_
    have hrep := String.ofList_injective heq
    exact List.head_eq_of_cons_eq hrep

theorem runUser_loads_iff_add :
    Loads (.ofEntries [sampleEntry 1 "alice" 'a']) ∧
    (Loads ((runUser asciiPlatform (invocation ["add", "bob"] 7)
        (.ofEntries [sampleEntry 1 "alice" 'a'])).fileAfter
          (.ofEntries [sampleEntry 1 "alice" 'a'])) ↔
      KeepsLoadable (invocation ["add", "bob"] 7) [sampleEntry 1 "alice" 'a']) :=
  have loads : Loads (.ofEntries [sampleEntry 1 "alice" 'a']) :=
    loads_ofEntries.mpr (valid_samples [(1, "alice", 'a')] (by decide +kernel))
  ⟨loads, runUser_loads_iff asciiPlatform (invocation ["add", "bob"] 7) _ loads
    (by decide +kernel) (by unfold FreshToken; decide +kernel)⟩

/-- A name with blanks around it in the file is not the trimmed name to `add`, but it is
to the loader: `add X` succeeds next to " X " and the server no longer starts. -/
theorem add_beside_padded_name :
    Loads (.ofEntries [sampleEntry 1 " X " 'a']) ∧
    FreshToken asciiPlatform (invocation ["add", "X"] 7).random [sampleEntry 1 " X " 'a'] ∧
    (runUser asciiPlatform (invocation ["add", "X"] 7)
      (.ofEntries [sampleEntry 1 " X " 'a'])).code = 0 ∧
    loadUsersFile ((runUser asciiPlatform (invocation ["add", "X"] 7)
        (.ofEntries [sampleEntry 1 " X " 'a'])).fileAfter
          (.ofEntries [sampleEntry 1 " X " 'a'])) =
      .error (.text "auth: users[1]: name is duplicated") := by
  have loads : Loads (.ofEntries [sampleEntry 1 " X " 'a']) :=
    loads_ofEntries.mpr (valid_samples [(1, " X ", 'a')] (by decide +kernel))
  refine ⟨loads, ?_, by decide +kernel, by rfl⟩
  unfold FreshToken
  decide +kernel

end TabbySync.Cli
