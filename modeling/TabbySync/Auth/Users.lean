import Mathlib.Data.List.Nodup
import TabbySync.Library.Text
import TabbySync.Store.Contract

/-! # Loading the users file

`LoadUsersFile` checks the entries one by one (`validateAndNormalise`) and then
builds the snapshot that requests are authenticated against. Ids and trimmed names
are compared in the first pass, where a repetition is an error; normalised hashes are
compared in the second, where a repetition is a panic. `buildStore_ok_iff` says which
lists come through both. -/

namespace TabbySync.Auth

open Library.Text

/-! ## Entries and users -/

/-- One entry of users.yml as the decoder delivers it. -/
structure UserEntry where
  id : Int64
  name : String
  tokenPrefix : String
  tokenHash : String
  disabled : Bool
  deriving DecidableEq, Repr

/-- A validated, normalised entry. -/
structure User where
  id : Int64
  name : String
  tokenPrefix : String
  tokenHash : String
  disabled : Bool
  deriving DecidableEq, Repr

/-- `^[0-9a-f]{64}$` -/
def hashPattern (s : String) : Bool := s.toList.length = 64 ∧ s.toList.all isHexDigit

/-- The hash as it is stored. No character outside ASCII lower-cases to a hexadecimal
digit, so lower-casing the ASCII letters decides the pattern as the code does. -/
def normaliseHash (s : String) : String := toLower (trimSpace s)

def UserEntry.normalised (e : UserEntry) : User where
  id := e.id
  name := trimSpace e.name
  tokenPrefix := trimSpace e.tokenPrefix
  tokenHash := normaliseHash e.tokenHash
  disabled := e.disabled

def entryError (i : Nat) (text : String) : GoError :=
  .text ("auth: users[" ++ toString i ++ "]: " ++ text)

/-- The body of the validation loop for entry `i`, given the ids and names before it. -/
def validateEntry (i : Nat) (seenID : List Int64) (seenName : List String) (e : UserEntry) :
    Except GoError User :=
  let u := e.normalised
  if e.id < 1 then .error (entryError i "id must be a positive integer")
  else if e.id ∈ seenID then .error (entryError i "id is duplicated")
  else if u.name = "" then .error (entryError i "name must not be empty")
  else if u.name ∈ seenName then .error (entryError i "name is duplicated")
  else if u.tokenPrefix = "" then .error (entryError i "token_prefix must not be empty")
  else if hashPattern u.tokenHash = false then
    .error (entryError i "token_hash must be 64 lowercase hex characters")
  else .ok u

def validateFrom (i : Nat) (seenID : List Int64) (seenName : List String) :
    List UserEntry → Except GoError (List User)
  | [] => .ok []
  | e :: rest =>
    match validateEntry i seenID seenName e with
    | .error err => .error err
    | .ok u =>
      match validateFrom (i + 1) (u.id :: seenID) (u.name :: seenName) rest with
      | .error err => .error err
      | .ok us => .ok (u :: us)

def validateAndNormalise (entries : List UserEntry) : Except GoError (List User) :=
  validateFrom 0 [] [] entries

/-! ## The snapshot -/

/-- The users in file order. The map from hashes to users is a search of this list:
no two users in it share a hash. -/
@[ext]
structure UserSnapshot where
  ordered : List User
  distinct : (ordered.map User.tokenHash).Nodup

def UserSnapshot.empty : UserSnapshot := ⟨[], List.nodup_nil⟩

def UserSnapshot.byHash (s : UserSnapshot) (key : String) : Option User :=
  s.ordered.find? fun u => u.tokenHash = key

theorem UserSnapshot.byHash_none {s : UserSnapshot} {key : String} :
    s.byHash key = none ↔ key ∉ s.ordered.map User.tokenHash := by
  simp only [byHash, List.find?_eq_none, decide_eq_true_eq, List.mem_map, not_exists, not_and]

def UserSnapshot.push (s : UserSnapshot) (u : User) (h : s.byHash u.tokenHash = none) :
    UserSnapshot where
  ordered := s.ordered ++ [u]
  distinct := by
    rw [List.map_append, List.nodup_append]
    refine ⟨s.distinct, by simp, ?_⟩
    intro a ha b hb hab
    obtain rfl : b = u.tokenHash := by simpa using hb
    exact byHash_none.mp h (hab ▸ ha)

/-- How building the store ends. -/
inductive Loaded (α : Type)
  | ok (a : α)
  | error (err : GoError)
  | panic (msg : String)

/-- The loop of `newUserSnapshot`, with the users read so far in `snap`. -/
def snapshotFrom (snap : UserSnapshot) : List User → Loaded UserSnapshot
  | [] => .ok snap
  | u :: rest =>
    match h : snap.byHash u.tokenHash with
    | some _ => .panic "auth: duplicate token_hash in users snapshot"
    | none => snapshotFrom (snap.push u h) rest

def newUserSnapshot (users : List User) : Loaded UserSnapshot := snapshotFrom .empty users

/-- `LoadUsersFile` after the file has been decoded. -/
def buildStore (entries : List UserEntry) : Loaded UserSnapshot :=
  match validateAndNormalise entries with
  | .error err => .error err
  | .ok users => newUserSnapshot users

/-- A users file for its two readers: the server decodes it strictly, the command line
does not. Strict decoding only refuses more. -/
structure Document where
  strict : Except String (List UserEntry)
  lax : Except String (List UserEntry)
  lax_of_strict : ∀ entries, strict = .ok entries → lax = .ok entries

inductive UsersFile
  | unreadable (why : String)
  | document (d : Document)

/-- The file that marshalling the entries writes. -/
def UsersFile.ofEntries (entries : List UserEntry) : UsersFile :=
  .document ⟨.ok entries, .ok entries, fun _ h => h⟩

def loadUsersFile : UsersFile → Loaded UserSnapshot
  | .unreadable why => .error (.wrap "auth: read users file" (.text why))
  | .document d =>
    match d.strict with
    | .error why => .error (.wrap "auth: decode users file" (.text why))
    | .ok entries => buildStore entries

/-! ## Lookup -/

def errUnauthorized : GoError := .text "auth: unauthorized"

/-- The hash compared against when no user has the token's hash. -/
def zeroHashHex : String := hexEncode (List.replicate 32 0)

/-- `UserStore.Lookup`. A Go string is any sequence of bytes. -/
def lookup (sha256 : Bytes → Vector UInt8 32) (snap : UserSnapshot) (token : Bytes) :
    Except GoError User :=
  let hashHex := hexEncode (sha256 token).toList
  let candidate := snap.byHash hashHex
  let expected := (candidate.map User.tokenHash).getD zeroHashHex
  let matched := hashHex == expected
  match candidate with
  | none => .error errUnauthorized
  | some u =>
    if !matched then .error errUnauthorized
    else if u.disabled then .error errUnauthorized
    else .ok u

/-- A hash names at most one user. -/
theorem UserSnapshot.byHash_some {s : UserSnapshot} {key : String} {u : User} :
    s.byHash key = some u ↔ u ∈ s.ordered ∧ u.tokenHash = key := by
  constructor
  · intro h
    exact ⟨List.mem_of_find?_eq_some h, by simpa using List.find?_some h⟩
  · rintro ⟨hmem, hkey⟩
    cases hfind : s.byHash key with
    | none => exact absurd (List.mem_map.mpr ⟨u, hmem, hkey⟩) (byHash_none.mp hfind)
    | some v =>
      have hv := List.mem_of_find?_eq_some hfind
      have hvkey : v.tokenHash = key := by simpa using List.find?_some hfind
      rw [List.inj_on_of_nodup_map s.distinct hv hmem (hvkey.trans hkey.symm)]

/-- A token authenticates the enabled user whose hash is the token's. -/
theorem lookup_eq {sha256 : Bytes → Vector UInt8 32} {s : UserSnapshot} {token : Bytes} :
    lookup sha256 s token =
      match s.byHash (hexEncode (sha256 token).toList) with
      | none => .error errUnauthorized
      | some u => if u.disabled then .error errUnauthorized else .ok u := by
  unfold lookup
  simp only
  cases h : s.byHash (hexEncode (sha256 token).toList) with
  | none => rfl
  | some u =>
    have hkey := (UserSnapshot.byHash_some.mp h).2
    simp [hkey]

/-! ## What the loader accepts -/

/-- An entry that passes the checks made on it alone. -/
structure UserEntry.WellFormed (e : UserEntry) : Prop where
  id_pos : 1 ≤ e.id
  name : e.normalised.name ≠ ""
  tokenPrefix : e.normalised.tokenPrefix ≠ ""
  tokenHash : hashPattern e.normalised.tokenHash = true

theorem normaliseHash_of_hexDigits {s : String} (h : ∀ c ∈ s.toList, isHexDigit c = true) :
    normaliseHash s = s := by
  have plain := fun c (hc : c ∈ s.toList) => isHexDigit_plain (h c hc)
  rw [normaliseHash, trimSpace_of_no_space fun c hc => (plain c hc).1,
    toLower_of_lower fun c hc => (plain c hc).2]

/-- 64 digits are a hash, as they stand. -/
theorem hash_of_hexDigits {cs : List Char} (hlen : cs.length = 64)
    (h : ∀ c ∈ cs, isHexDigit c = true) :
    normaliseHash (String.ofList cs) = String.ofList cs ∧ hashPattern (String.ofList cs) = true := by
  have hdigits : ∀ c ∈ (String.ofList cs).toList, isHexDigit c = true := by
    rw [String.toList_ofList]
    exact h
  refine ⟨normaliseHash_of_hexDigits hdigits, ?_⟩
  simp only [hashPattern, decide_eq_true_eq]
  exact ⟨by rw [String.toList_ofList, hlen], List.all_eq_true.mpr hdigits⟩

theorem repeatedDigit {digit : Char} (h : isHexDigit digit = true) :
    normaliseHash (String.ofList (List.replicate 64 digit)) =
        String.ofList (List.replicate 64 digit) ∧
      hashPattern (String.ofList (List.replicate 64 digit)) = true :=
  hash_of_hexDigits List.length_replicate fun _ hc => List.eq_of_mem_replicate hc ▸ h

/-- A list of entries the server can be started with. -/
structure Valid (entries : List UserEntry) : Prop where
  wellFormed : ∀ e ∈ entries, e.WellFormed
  ids : (entries.map fun e => e.id).Nodup
  names : (entries.map fun e => e.normalised.name).Nodup
  hashes : (entries.map fun e => e.normalised.tokenHash).Nodup

instance (e : UserEntry) : Decidable e.WellFormed :=
  decidable_of_iff (1 ≤ e.id ∧ e.normalised.name ≠ "" ∧ e.normalised.tokenPrefix ≠ "" ∧
      hashPattern e.normalised.tokenHash = true)
    ⟨fun ⟨a, b, c, d⟩ => ⟨a, b, c, d⟩, fun h => ⟨h.id_pos, h.name, h.tokenPrefix, h.tokenHash⟩⟩

instance (entries : List UserEntry) : Decidable (Valid entries) :=
  decidable_of_iff ((∀ e ∈ entries, e.WellFormed) ∧ (entries.map fun e => e.id).Nodup ∧
      (entries.map fun e => e.normalised.name).Nodup ∧
      (entries.map fun e => e.normalised.tokenHash).Nodup)
    ⟨fun ⟨a, b, c, d⟩ => ⟨a, b, c, d⟩, fun h => ⟨h.wellFormed, h.ids, h.names, h.hashes⟩⟩

theorem validateEntry_ok_iff {i : Nat} {seenID : List Int64} {seenName : List String}
    {e : UserEntry} {u : User} :
    validateEntry i seenID seenName e = .ok u ↔
      e.WellFormed ∧ e.id ∉ seenID ∧ e.normalised.name ∉ seenName ∧ u = e.normalised := by
  constructor
  · intro h
    unfold validateEntry at h
    simp only at h
    split at h; · cases h
    split at h; · cases h
    split at h; · cases h
    split at h; · cases h
    split at h; · cases h
    split at h; · cases h
    rename_i hid hdup hname hseen hshown hhash
    cases h
    exact ⟨⟨not_lt.mp hid, hname, hshown, by simpa using hhash⟩, hdup, hseen, rfl⟩
  · rintro ⟨⟨hid, hname, hshown, hhash⟩, hdup, hseen, rfl⟩
    simp [validateEntry, not_lt.mpr hid, hname, hshown, hhash, hdup, hseen]

theorem validateFrom_ok_iff {entries : List UserEntry} {i : Nat} {seenID : List Int64}
    {seenName : List String} {us : List User} :
    validateFrom i seenID seenName entries = .ok us ↔
      (∀ e ∈ entries, e.WellFormed ∧ e.id ∉ seenID ∧ e.normalised.name ∉ seenName) ∧
      (entries.map fun e => e.id).Nodup ∧ (entries.map fun e => e.normalised.name).Nodup ∧
      us = entries.map UserEntry.normalised := by
  -- the seen sets grow by the entry just checked
  induction entries generalizing i seenID seenName us with
  | nil => simp [validateFrom, eq_comm]
  | cons e rest ih =>
    constructor
    · intro h
      unfold validateFrom at h
      split at h; · cases h
      rename_i u hu
      split at h; · cases h
      rename_i us' hrest
      obtain ⟨hwf, hid, hname, rfl⟩ := validateEntry_ok_iff.mp hu
      obtain ⟨hall, hids, hnames, rfl⟩ := ih.mp hrest
      cases h
      refine ⟨?_, ?_, ?_, rfl⟩
      · intro e' he'
        obtain rfl | he' := List.mem_cons.mp he'
        · exact ⟨hwf, hid, hname⟩
        · obtain ⟨h1, h2, h3⟩ := hall e' he'
          exact ⟨h1, fun h => h2 (List.mem_cons_of_mem _ h), fun h => h3 (List.mem_cons_of_mem _ h)⟩
      · refine List.nodup_cons.mpr ⟨fun hm => ?_, hids⟩
        obtain ⟨e', he', heq⟩ := List.mem_map.mp hm
        exact (hall e' he').2.1 (heq ▸ List.mem_cons_self)
      · refine List.nodup_cons.mpr ⟨fun hm => ?_, hnames⟩
        obtain ⟨e', he', heq⟩ := List.mem_map.mp hm
        exact (hall e' he').2.2 (heq ▸ List.mem_cons_self)
    · rintro ⟨hall, hids, hnames, rfl⟩
      obtain ⟨hid, hids⟩ := List.nodup_cons.mp hids
      obtain ⟨hname, hnames⟩ := List.nodup_cons.mp hnames
      have he := hall e List.mem_cons_self
      have hu := (validateEntry_ok_iff (i := i)).mpr ⟨he.1, he.2.1, he.2.2, rfl⟩
      have hrest : validateFrom (i + 1) (e.id :: seenID) (e.normalised.name :: seenName) rest =
          .ok (rest.map UserEntry.normalised) := by
        refine ih.mpr ⟨fun e' he' => ?_, hids, hnames, rfl⟩
        obtain ⟨h1, h2, h3⟩ := hall e' (List.mem_cons_of_mem _ he')
        refine ⟨h1, ?_, ?_⟩
        · exact List.not_mem_cons_of_ne_of_not_mem
            (fun heq => hid (List.mem_map.mpr ⟨e', he', heq⟩)) h2
        · exact List.not_mem_cons_of_ne_of_not_mem
            (fun heq => hname (List.mem_map.mpr ⟨e', he', heq⟩)) h3
      unfold validateFrom
      rw [hu]
      simp only
      rw [show e.normalised.id = e.id from rfl, hrest]
      rfl

theorem snapshotFrom_ok_iff {users : List User} {snap s : UserSnapshot} :
    snapshotFrom snap users = .ok s ↔ s.ordered = snap.ordered ++ users := by
  induction users generalizing snap with
  | nil =>
    rw [snapshotFrom, List.append_nil, Loaded.ok.injEq, eq_comm, UserSnapshot.ext_iff]
  | cons u rest ih =>
    unfold snapshotFrom
    split
    · rename_i v hv
      refine ⟨fun h => (by cases h), fun h => absurd s.distinct ?_⟩
      -- the repeated hash would stand twice in the snapshot
      have hmem : u.tokenHash ∈ snap.ordered.map User.tokenHash := by
        by_contra hn
        rw [UserSnapshot.byHash_none.mpr hn] at hv
        cases hv
      rw [h, List.map_append, List.nodup_append]
      exact fun hd => hd.2.2 _ hmem _ (by simp) rfl
    · rw [ih]
      simp [UserSnapshot.push]

theorem buildStore_ok_iff {entries : List UserEntry} {s : UserSnapshot} :
    buildStore entries = .ok s ↔
      Valid entries ∧ s.ordered = entries.map UserEntry.normalised := by
  constructor
  · intro h
    unfold buildStore at h
    split at h; · cases h
    rename_i users hu
    obtain ⟨hall, hids, hnames, rfl⟩ := validateFrom_ok_iff.mp hu
    have hord := snapshotFrom_ok_iff.mp h
    rw [UserSnapshot.empty, List.nil_append] at hord
    refine ⟨⟨fun e he => (hall e he).1, hids, hnames, ?_⟩, hord⟩
    have hd := s.distinct
    rwa [hord, List.map_map] at hd
  · rintro ⟨hv, hord⟩
    have hu : validateAndNormalise entries = .ok (entries.map UserEntry.normalised) :=
      validateFrom_ok_iff.mpr
        ⟨fun e he => ⟨hv.wellFormed e he, by simp, by simp⟩, hv.ids, hv.names, rfl⟩
    unfold buildStore
    rw [hu]
    exact snapshotFrom_ok_iff.mpr hord

theorem Valid.sublist {users users' : List UserEntry} (hv : Valid users)
    (h : users'.Sublist users) : Valid users' where
  wellFormed e he := hv.wellFormed e (h.subset he)
  ids := hv.ids.sublist (h.map _)
  names := hv.names.sublist (h.map _)
  hashes := hv.hashes.sublist (h.map _)

theorem nodup_map_append_singleton {α β : Type} {f : α → β} {l : List α} {a : α} :
    ((l ++ [a]).map f).Nodup ↔ (l.map f).Nodup ∧ ∀ b ∈ l, f b ≠ f a := by
  simp [List.nodup_append]

theorem valid_append_iff {users : List UserEntry} {e : UserEntry} (hv : Valid users) :
    Valid (users ++ [e]) ↔ e.WellFormed ∧ (∀ u ∈ users, u.id ≠ e.id) ∧
      (∀ u ∈ users, u.normalised.name ≠ e.normalised.name) ∧
      ∀ u ∈ users, u.normalised.tokenHash ≠ e.normalised.tokenHash := by
  constructor
  · intro h
    exact ⟨h.wellFormed e (by simp), (nodup_map_append_singleton.mp h.ids).2,
      (nodup_map_append_singleton.mp h.names).2, (nodup_map_append_singleton.mp h.hashes).2⟩
  · rintro ⟨hwf, hid, hname, hhash⟩
    refine ⟨fun u hu => ?_, nodup_map_append_singleton.mpr ⟨hv.ids, hid⟩,
      nodup_map_append_singleton.mpr ⟨hv.names, hname⟩,
      nodup_map_append_singleton.mpr ⟨hv.hashes, hhash⟩⟩
    obtain hu | hu := List.mem_append.mp hu
    · exact hv.wellFormed u hu
    · rwa [List.mem_singleton.mp hu]

/-- The server starts with this list: the loader neither fails nor panics. -/
def Accepted (entries : List UserEntry) : Prop := ∃ s, buildStore entries = .ok s

theorem accepted_iff {entries : List UserEntry} : Accepted entries ↔ Valid entries := by
  constructor
  · rintro ⟨s, hs⟩
    exact (buildStore_ok_iff.mp hs).1
  · intro hv
    have hd : ((entries.map UserEntry.normalised).map User.tokenHash).Nodup := by
      rw [List.map_map]
      exact hv.hashes
    exact ⟨⟨_, hd⟩, buildStore_ok_iff.mpr ⟨hv, rfl⟩⟩

instance (entries : List UserEntry) : Decidable (Accepted entries) :=
  decidable_of_iff _ accepted_iff.symm

end TabbySync.Auth
