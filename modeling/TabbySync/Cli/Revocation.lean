import Mathlib.Data.List.InsertIdx
import TabbySync.Cli.UserIds

/-! # Commands and authentication

What a command that exits 0 changes for the tokens of the users: `add` lets its new token
in, `rm` shuts out the token of the entry it removes, `rotate` does both for one entry,
and no other token notices. An `rm` that is not confirmed also exits 0; it changes
nothing. -/

namespace TabbySync.Cli

open Library.Text Auth

/-! ## Lookups after an edit of the list -/

section
variable {s s' : UserSnapshot} {e v : User} {i : Nat}

theorem byHash_append (h : s'.ordered = s.ordered ++ [e]) (key : String) :
    s'.byHash key = if e.tokenHash = key then some e else s.byHash key := by
  split
  · rename_i hkey
    exact UserSnapshot.byHash_some.mpr ⟨by simp [h], hkey⟩
  · rename_i hkey
    refine Option.ext fun u => ?_
    rw [UserSnapshot.byHash_some, UserSnapshot.byHash_some, h, List.mem_append,
      List.mem_singleton]
    constructor
    · rintro ⟨hmem | rfl, hu⟩
      · exact ⟨hmem, hu⟩
      · exact absurd hu hkey
    · rintro ⟨hmem, hu⟩
      exact ⟨.inl hmem, hu⟩

/-- Whoever has the hash of entry `i` is entry `i`. -/
theorem index_of_hash (hv : s.ordered[i]? = some v) {u : User} {j : Nat}
    (hu : s.ordered[j]? = some u) (hash : u.tokenHash = v.tokenHash) : j = i := by
  have hj : (s.ordered.map User.tokenHash)[j]? = some u.tokenHash := by
    rw [List.getElem?_map, hu]; rfl
  have hi : (s.ordered.map User.tokenHash)[i]? = some u.tokenHash := by
    rw [List.getElem?_map, hv, hash]; rfl
  obtain ⟨hlt, _⟩ := List.getElem?_eq_some_iff.mp hj
  exact (List.getElem?_inj hlt s.distinct).mp (hj.trans hi.symm)

theorem byHash_eraseIdx (hv : s.ordered[i]? = some v) (h : s'.ordered = s.ordered.eraseIdx i)
    (key : String) : s'.byHash key = if v.tokenHash = key then none else s.byHash key := by
  split
  · rename_i hkey
    rw [Option.eq_none_iff_forall_ne_some]
    intro u hu
    obtain ⟨hmem, huk⟩ := UserSnapshot.byHash_some.mp hu
    rw [h, List.mem_eraseIdx_iff_getElem?] at hmem
    obtain ⟨j, hj, huj⟩ := hmem
    exact hj (index_of_hash hv huj (huk.trans hkey.symm))
  · rename_i hkey
    refine Option.ext fun u => ?_
    rw [UserSnapshot.byHash_some, UserSnapshot.byHash_some, h, List.mem_eraseIdx_iff_getElem?]
    constructor
    · rintro ⟨⟨j, _, hu⟩, huk⟩
      exact ⟨List.mem_of_getElem? hu, huk⟩
    · rintro ⟨hmem, huk⟩
      obtain ⟨j, hu⟩ := List.mem_iff_getElem?.mp hmem
      refine ⟨⟨j, ?_, hu⟩, huk⟩
      rintro rfl
      cases hv.symm.trans hu
      exact hkey huk

theorem byHash_set (hv : s.ordered[i]? = some v) (h : s'.ordered = s.ordered.set i e)
    (fresh : e.tokenHash ≠ v.tokenHash) (key : String) :
    s'.byHash key = if e.tokenHash = key then some e
      else if v.tokenHash = key then none else s.byHash key := by
  obtain ⟨hi, _⟩ := List.getElem?_eq_some_iff.mp hv
  have hmem : ∀ u, u ∈ s'.ordered ↔ u = e ∨ ∃ j, j ≠ i ∧ s.ordered[j]? = some u := by
    intro u
    rw [h, List.mem_iff_getElem?]
    constructor
    · rintro ⟨j, hj⟩
      rw [List.getElem?_set] at hj
      split at hj
      · exact .inl (Option.some.inj hj).symm
      · rename_i hne
        exact .inr ⟨j, Ne.symm hne, hj⟩
    · rintro (rfl | ⟨j, hj, hu⟩)
      · exact ⟨i, by rw [List.getElem?_set, if_pos rfl, if_pos hi]⟩
      · exact ⟨j, by rw [List.getElem?_set, if_neg (Ne.symm hj)]; exact hu⟩
  split
  · rename_i hkey
    exact UserSnapshot.byHash_some.mpr ⟨(hmem e).mpr (.inl rfl), hkey⟩
  · rename_i hkey
    refine Option.ext fun u => ?_
    rw [UserSnapshot.byHash_some, hmem]
    split
    · rename_i hvk
      refine iff_of_false ?_ nofun
      rintro ⟨rfl | ⟨j, hj, hu⟩, huk⟩
      · exact hkey huk
      · exact hj (index_of_hash hv hu (huk.trans hvk.symm))
    · rename_i hvk
      rw [UserSnapshot.byHash_some]
      constructor
      · rintro ⟨rfl | ⟨j, _, hu⟩, huk⟩
        · exact absurd huk hkey
        · exact ⟨List.mem_of_getElem? hu, huk⟩
      · rintro ⟨hu, huk⟩
        obtain ⟨j, hj⟩ := List.mem_iff_getElem?.mp hu
        refine ⟨.inr ⟨j, ?_, hj⟩, huk⟩
        rintro rfl
        cases hv.symm.trans hj
        exact hvk huk

end

/-! ## Commands that exit 0 -/

/-- The line that shows the generated token. -/
def tokenLine (P : Platform) (inv : Invocation) : Line :=
  printOut ("  token: " ++ (generateToken P inv.random).plaintext ++ "\n")

def Invocation.forced (inv : Invocation) : Bool := (parseRm (inv.args.drop 3)).1
def Invocation.rmTarget (inv : Invocation) : String := (parseRm (inv.args.drop 3)).2
def Invocation.rotateTarget (inv : Invocation) : String := trimSpace (inv.args.getD 3 "")

/-- The ways to exit 0, from the list that was read. -/
inductive Succeeds (P : Platform) (inv : Invocation) (users : List UserEntry) (r : Result) : Prop
  | added (name : String) (sub : inv.args[2]? = some "add") (printed : tokenLine P inv ∈ r.output)
      (saved : r.saved = some (users ++ [newEntry P name inv.random users]))
  | removed (idx : Fin users.length) (sub : inv.isRm = true)
      (target : findUser P users inv.rmTarget = some idx)
      (sure : (inv.forced || confirmed inv.answer) = true)
      (saved : r.saved = some (users.eraseIdx idx))
  | aborted (idx : Fin users.length) (sub : inv.isRm = true)
      (target : findUser P users inv.rmTarget = some idx)
      (unsure : (inv.forced || confirmed inv.answer) = false) (saved : r.saved = none)
  | rotated (idx : Fin users.length) (sub : inv.args[2]? = some "rotate")
      (target : findUser P users inv.rotateTarget = some idx) (printed : tokenLine P inv ∈ r.output)
      (saved : r.saved = some (users.set idx (rotatedEntry P inv.random (users.get idx))))

section
variable {P : Platform} {inv : Invocation} {file : UsersFile}

theorem runUserAdd_ok (sub : inv.args[2]? = some "add") (ok : (runUserAdd P inv file).code = 0) :
    ∃ users, loadUsersYAML file = .ok users ∧ Succeeds P inv users (runUserAdd P inv file) := by
  unfold runUserAdd at ok ⊢
  split at ok; · cases ok
  simp only at ok ⊢
  split at ok; · cases ok
  rename_i arg _ hname
  rw [if_neg hname]
  obtain ⟨users, hload, heq⟩ := editUsersFile_ok ok
  rw [heq] at ok ⊢
  refine ⟨users, hload, ?_⟩
  obtain ⟨output, hplan, -⟩ | ⟨before, users', report, hplan, hrun⟩ := Plan.run_ok ok
  · unfold addEdit at hplan
    split at hplan <;> cases hplan
  · unfold addEdit at hplan
    split at hplan; · cases hplan
    cases hplan
    rw [hrun]
    exact .added (trimSpace arg) sub (by simp [tokenLine]) rfl

theorem runUserRm_ok (sub : inv.isRm = true) (ok : (runUserRm P inv file).code = 0) :
    ∃ users, loadUsersYAML file = .ok users ∧ Succeeds P inv users (runUserRm P inv file) := by
  unfold runUserRm at ok ⊢
  split at ok; · cases ok
  rename_i hargs
  rw [if_neg hargs]
  simp only at ok ⊢
  split at ok; · cases ok
  rename_i htarget
  rw [if_neg htarget]
  obtain ⟨users, hload, heq⟩ := editUsersFile_ok ok
  rw [heq] at ok ⊢
  refine ⟨users, hload, ?_⟩
  obtain ⟨output, hplan, hrun⟩ | ⟨before, users', report, hplan, hrun⟩ := Plan.run_ok ok
  all_goals
    unfold rmEdit at hplan
    split at hplan
  · cases hplan
  · rename_i idx hidx
    simp only at hplan
    split at hplan; · cases hplan
    rename_i hunsure
    rw [hrun]
    exact .aborted idx sub hidx (Bool.eq_false_iff.mpr hunsure) rfl
  · cases hplan
  · rename_i idx hidx
    simp only at hplan
    split at hplan
    · rename_i hsure
      cases hplan
      rw [hrun]
      exact .removed idx sub hidx hsure rfl
    · cases hplan

theorem runUserRotate_ok (sub : inv.args[2]? = some "rotate")
    (ok : (runUserRotate P inv file).code = 0) :
    ∃ users, loadUsersYAML file = .ok users ∧ Succeeds P inv users (runUserRotate P inv file) := by
  unfold runUserRotate at ok ⊢
  split at ok; · cases ok
  rename_i arg harg
  obtain ⟨users, hload, heq⟩ := editUsersFile_ok ok
  rw [heq] at ok ⊢
  refine ⟨users, hload, ?_⟩
  have htarget : inv.rotateTarget = trimSpace arg := by
    rw [Invocation.rotateTarget, List.getD_eq_getElem?_getD, harg]
    rfl
  obtain ⟨output, hplan, -⟩ | ⟨before, users', report, hplan, hrun⟩ := Plan.run_ok ok
  · unfold rotateEdit at hplan
    split at hplan <;> cases hplan
  · unfold rotateEdit at hplan
    split at hplan; · cases hplan
    rename_i idx hidx
    cases hplan
    rw [hrun]
    exact .rotated idx sub (htarget ▸ hidx) (by simp [tokenLine]) rfl

theorem runUser_ok (ok : (runUser P inv file).code = 0) :
    ∃ users, loadUsersYAML file = .ok users ∧ Succeeds P inv users (runUser P inv file) := by
  unfold runUser at ok ⊢
  split at ok; · cases ok
  rename_i subcmd hsub
  split at ok
  · rename_i hadd
    rw [if_pos hadd]
    exact runUserAdd_ok (hadd ▸ hsub) ok
  rename_i hadd
  rw [if_neg hadd]
  split at ok
  · rename_i hrm
    rw [if_pos hrm]
    have sub : inv.isRm = true := by
      rw [Invocation.isRm, hsub]
      exact decide_eq_true (hrm.imp (congrArg some) (congrArg some))
    exact runUserRm_ok sub ok
  rename_i hrm
  rw [if_neg hrm]
  split at ok
  · rename_i hrotate
    rw [if_pos hrotate]
    exact runUserRotate_ok (hrotate ▸ hsub) ok
  · cases ok

end

/-! ## What it means for the tokens -/

/-- The generated token, as a client sends it. -/
def newToken (P : Platform) (inv : Invocation) : Bytes :=
  (generateToken P inv.random).plaintext.toUTF8.toList

/-- The token hashes to the entry's hash. -/
def TokenOf (P : Platform) (e : UserEntry) (token : Bytes) : Prop :=
  hexEncode (P.sha256 token).toList = e.normalised.tokenHash

/-- What a command that exits 0 does to the entries (`users` to `users'`) and to the
lookups of the server started with them (`s` to `s'`). -/
inductive Changes (P : Platform) (inv : Invocation) (users users' : List UserEntry) (r : Result)
    (s s' : UserSnapshot) : Prop
  /-- `add`: the printed token is in, as the new id. -/
  | added (e : UserEntry) (sub : inv.args[2]? = some "add") (printed : tokenLine P inv ∈ r.output)
      (entries : users' = users ++ [e]) (id : ∀ u ∈ users, u.id ≠ e.id)
      (new : lookup P.sha256 s' (newToken P inv) = .ok e.normalised)
      (others : ∀ t, t ≠ newToken P inv → lookup P.sha256 s' t = lookup P.sha256 s t)
  /-- `rm`: the entry and its token are out. -/
  | removed (idx : Fin users.length) (sub : inv.isRm = true)
      (target : findUser P users inv.rmTarget = some idx)
      (sure : (inv.forced || confirmed inv.answer) = true)
      (entries : users' = users.eraseIdx idx)
      (revoked : ∀ t, TokenOf P (users.get idx) t → lookup P.sha256 s' t = .error errUnauthorized)
      (others : ∀ t, ¬ TokenOf P (users.get idx) t → lookup P.sha256 s' t = lookup P.sha256 s t)
  /-- `rm` without a yes. -/
  | aborted (idx : Fin users.length) (sub : inv.isRm = true)
      (target : findUser P users inv.rmTarget = some idx)
      (unsure : (inv.forced || confirmed inv.answer) = false)
      (entries : users' = users) (same : ∀ t, lookup P.sha256 s' t = lookup P.sha256 s t)
  /-- `rotate`: the printed token is in if the entry is enabled, the old one is out; id,
  name and flag of the entry stay. -/
  | rotated (idx : Fin users.length) (e : UserEntry) (sub : inv.args[2]? = some "rotate")
      (target : findUser P users inv.rotateTarget = some idx) (printed : tokenLine P inv ∈ r.output)
      (entries : users' = users.set idx e)
      (kept : e.id = (users.get idx).id ∧ e.name = (users.get idx).name ∧
        e.disabled = (users.get idx).disabled)
      (new : lookup P.sha256 s' (newToken P inv) =
        if (users.get idx).disabled then .error errUnauthorized else .ok e.normalised)
      (revoked : ∀ t, TokenOf P (users.get idx) t → lookup P.sha256 s' t = .error errUnauthorized)
      (others : ∀ t, t ≠ newToken P inv → ¬ TokenOf P (users.get idx) t →
        lookup P.sha256 s' t = lookup P.sha256 s t)

section
variable {P : Platform} {inv : Invocation} {users : List UserEntry} {s s' : UserSnapshot}

/-- No other token has the hash of the generated one. -/
def NoCollision (P : Platform) (inv : Invocation) : Prop :=
  ∀ t, P.sha256 t = P.sha256 (newToken P inv) → t = newToken P inv

theorem hash_newToken (P : Platform) (inv : Invocation) :
    hexEncode (P.sha256 (newToken P inv)).toList = (generateToken P inv.random).hash := rfl

theorem newEntry_tokenHash (P : Platform) (name : String) (random : Vector UInt8 32)
    (users : List UserEntry) : (newEntry P name random users).normalised.tokenHash =
      (generateToken P random).hash := normaliseHash_generateToken P random

/-- A token with the generated hash is the generated token. -/
theorem NoCollision.eq (h : NoCollision P inv) {t : Bytes}
    (ht : (generateToken P inv.random).hash = hexEncode (P.sha256 t).toList) :
    t = newToken P inv := by
  rw [← hash_newToken] at ht
  exact h t (Vector.toList_inj.mp (hexEncode_injective ht).symm)

/-- Lookups depend on the map alone. -/
theorem lookup_congr {sha256 : Bytes → Vector UInt8 32} {t : Bytes}
    (h : s'.byHash (hexEncode (sha256 t).toList) = s.byHash (hexEncode (sha256 t).toList)) :
    lookup sha256 s' t = lookup sha256 s t := by
  rw [lookup_eq, lookup_eq, h]

theorem changes_added {users' : List UserEntry} {r : Result} {name : String}
    (ordered : s.ordered = users.map UserEntry.normalised)
    (ordered' : s'.ordered = users'.map UserEntry.normalised)
    (entries : users' = users ++ [newEntry P name inv.random users]) (ids : Valid users')
    (collision : NoCollision P inv)
    (sub : inv.args[2]? = some "add") (printed : tokenLine P inv ∈ r.output) :
    Changes P inv users users' r s s' := by
  have hpush : s'.ordered = s.ordered ++ [(newEntry P name inv.random users).normalised] := by
    rw [ordered', entries, ordered, List.map_append]
    rfl
  have hbyHash := byHash_append hpush
  rw [newEntry_tokenHash] at hbyHash
  refine .added _ sub printed entries (fun u hu => ?_) ?_ fun t ht => lookup_congr ?_
  · have hnodup := ids.ids
    rw [entries] at hnodup
    exact (nodup_map_append_singleton.mp hnodup).2 u hu
  · rw [lookup_eq, hbyHash, hash_newToken, if_pos rfl]
    rfl
  · rw [hbyHash, if_neg fun heq => ht (collision.eq heq)]

theorem changes_removed {users' : List UserEntry} {r : Result} {idx : Fin users.length}
    (ordered : s.ordered = users.map UserEntry.normalised)
    (ordered' : s'.ordered = users'.map UserEntry.normalised)
    (entries : users' = users.eraseIdx idx) (sub : inv.isRm = true)
    (target : findUser P users inv.rmTarget = some idx)
    (sure : (inv.forced || confirmed inv.answer) = true) :
    Changes P inv users users' r s s' := by
  have hv : s.ordered[idx.val]? = some (users.get idx).normalised := by
    rw [ordered]
    simp
  have herase : s'.ordered = s.ordered.eraseIdx idx := by
    rw [ordered', entries, ordered, List.eraseIdx_map]
  have hbyHash := byHash_eraseIdx hv herase
  refine .removed idx sub target sure entries (fun t ht => ?_) fun t ht => lookup_congr ?_
  · rw [lookup_eq, hbyHash, if_pos ht.symm]
  · rw [hbyHash, if_neg fun heq => ht heq.symm]

theorem changes_rotated {users' : List UserEntry} {r : Result} {idx : Fin users.length}
    (ordered : s.ordered = users.map UserEntry.normalised)
    (ordered' : s'.ordered = users'.map UserEntry.normalised)
    (entries : users' = users.set idx (rotatedEntry P inv.random (users.get idx)))
    (fresh : FreshToken P inv.random users) (collision : NoCollision P inv)
    (sub : inv.args[2]? = some "rotate") (target : findUser P users inv.rotateTarget = some idx)
    (printed : tokenLine P inv ∈ r.output) : Changes P inv users users' r s s' := by
  have hv : s.ordered[idx.val]? = some (users.get idx).normalised := by
    rw [ordered]
    simp
  have hset : s'.ordered =
      s.ordered.set idx (rotatedEntry P inv.random (users.get idx)).normalised := by
    rw [ordered', entries, ordered, List.map_set]
  have hnew : (rotatedEntry P inv.random (users.get idx)).normalised.tokenHash =
      (generateToken P inv.random).hash := by
    rw [rotatedEntry_tokenHash, normaliseHash_generateToken]
  have hfresh := fresh (users.get idx) (List.get_mem users idx)
  have hbyHash := byHash_set hv hset (by rw [hnew]; exact hfresh.symm)
  rw [hnew] at hbyHash
  refine .rotated idx _ sub target printed entries ?_ ?_ (fun t ht => ?_)
    fun t ht hold => lookup_congr ?_
  · simp only [rotatedEntry, and_self]
  · rw [lookup_eq, hbyHash, hash_newToken, if_pos rfl]
    rfl
  · rw [lookup_eq, hbyHash, if_neg fun heq => hfresh (ht.symm.trans heq.symm), if_pos ht.symm]
  · rw [hbyHash, if_neg fun heq => ht (collision.eq heq), if_neg fun heq => hold heq.symm]

end

/-- A command that exits 0 on a file the server starts with, and leaves one it starts
with, changes the entries and the lookups at its target and nowhere else. -/
theorem commands_change_target (P : Platform) (inv : Invocation) (file : UsersFile)
    (s s' : UserSnapshot) (loads : loadUsersFile file = .ok s)
    (ok : (runUser P inv file).code = 0)
    (loads' : loadUsersFile ((runUser P inv file).fileAfter file) = .ok s')
    (fresh : FreshToken P inv.random (entriesOf file)) (collision : NoCollision P inv) :
    Changes P inv (entriesOf file) (entriesOf ((runUser P inv file).fileAfter file))
      (runUser P inv file) s s' := by
  obtain ⟨hload, hv, hordered⟩ := loadUsersFile_ok loads
  obtain ⟨-, hv', hordered'⟩ := loadUsersFile_ok loads'
  obtain ⟨users, hload', hsucceeds⟩ := runUser_ok ok
  obtain rfl : entriesOf file = users := Except.ok.inj (hload.symm.trans hload')
  have hafter : ∀ users', (runUser P inv file).saved = some users' →
      entriesOf ((runUser P inv file).fileAfter file) = users' := by
    intro users' hsaved
    rw [Result.fileAfter, hsaved]
    rfl
  cases hsucceeds with
  | added name sub printed saved =>
    exact changes_added hordered hordered' (hafter _ saved) hv' collision sub printed
  | removed idx sub target sure saved =>
    exact changes_removed hordered hordered' (hafter _ saved) sub target sure
  | rotated idx sub target printed saved =>
    exact changes_rotated hordered hordered' (hafter _ saved) fresh collision sub target printed
  | aborted idx sub target unsure saved =>
    have hfile : (runUser P inv file).fileAfter file = file := by
      rw [Result.fileAfter, saved]
    rw [hfile, loads] at loads'
    cases loads'
    exact .aborted idx sub target unsure (congrArg entriesOf hfile) fun _ => rfl

/-! ## One user -/

/-- The token made of one byte repeated. -/
def plainToken (byte : UInt8) : Bytes :=
  (tokenPrefixStr ++ hexEncode (List.replicate 32 byte)).toUTF8.toList

/-- A platform on which two tokens have hashes of their own. -/
def twoTokenPlatform : Platform :=
  { asciiPlatform with
    sha256 := fun bytes =>
      if bytes = plainToken 1 then Vector.replicate 32 1
      else if bytes = plainToken 7 then Vector.replicate 32 7
      else Vector.replicate 32 0 }

/-- A user whose token is the given digit repeated. -/
def alice (digit : Char) : UserEntry where
  id := 1
  name := "alice"
  tokenPrefix := String.ofList ("tbs_".toList ++ (List.replicate 4 ['0', digit]).flatten)
  tokenHash := String.ofList (List.replicate 32 ['0', digit]).flatten
  disabled := false

theorem noCollision_seven (args : List String) :
    NoCollision twoTokenPlatform (invocation args 7) := by
  have hseven : twoTokenPlatform.sha256 (plainToken 7) = Vector.replicate 32 7 := by decide +kernel
  intro t ht
  rw [show newToken twoTokenPlatform (invocation args 7) = plainToken 7 from rfl, hseven] at ht
  simp only [twoTokenPlatform] at ht
  split at ht
  · exact absurd ht (by decide)
  · split at ht
    · assumption
    · exact absurd ht (by decide)

theorem freshToken_seven : FreshToken twoTokenPlatform (Vector.replicate 32 7) [alice '1'] := by
  unfold FreshToken
  decide +kernel

theorem loads_alice (digit : Char) (h : isHexDigit digit = true)
    (hshown : (alice digit).normalised.tokenPrefix ≠ "") : Loads (.ofEntries [alice digit]) := by
  have hhash : hashPattern (alice digit).normalised.tokenHash = true := by
    have hdigits : ∀ c ∈ (List.replicate 32 ['0', digit]).flatten, isHexDigit c = true := by
      intro c hc
      obtain ⟨pair, hpair, hc⟩ := List.mem_flatten.mp hc
      rw [List.eq_of_mem_replicate hpair] at hc
      rcases List.mem_pair.mp hc with rfl | rfl
      · rfl
      · exact h
    obtain ⟨hsame, hpattern⟩ := hash_of_hexDigits (by simp) hdigits
    show hashPattern (normaliseHash (String.ofList _)) = true
    rw [hsame]
    exact hpattern
  have hname : trimSpace "alice" ≠ "" := by decide +kernel
  refine loads_ofEntries.mpr ⟨?_, List.nodup_singleton _, List.nodup_singleton _,
    List.nodup_singleton _⟩
  intro e he
  rw [List.mem_singleton.mp he]
  exact ⟨le_refl 1, hname, hshown, hhash⟩

/-- `rotate` on a file with one user. -/
theorem commands_change_target_rotate : ∃ s s',
    Changes twoTokenPlatform (invocation ["rotate", "alice"] 7) [alice '1'] [alice '7']
      (runUser twoTokenPlatform (invocation ["rotate", "alice"] 7) (.ofEntries [alice '1']))
      s s' := by
  have hrun : (runUser twoTokenPlatform (invocation ["rotate", "alice"] 7)
        (.ofEntries [alice '1'])).code = 0 ∧
      (runUser twoTokenPlatform (invocation ["rotate", "alice"] 7)
        (.ofEntries [alice '1'])).saved = some [alice '7'] := by decide +kernel
  have hafter : (runUser twoTokenPlatform (invocation ["rotate", "alice"] 7)
      (.ofEntries [alice '1'])).fileAfter (.ofEntries [alice '1']) = .ofEntries [alice '7'] := by
    rw [Result.fileAfter, hrun.2]
  obtain ⟨s, hs⟩ := loads_alice '1' rfl (by decide +kernel)
  obtain ⟨s', hs'⟩ := loads_alice '7' rfl (by decide +kernel)
  have hchange := commands_change_target twoTokenPlatform (invocation ["rotate", "alice"] 7)
    (.ofEntries [alice '1']) s s' hs hrun.1 (by rw [hafter]; exact hs') freshToken_seven
    (noCollision_seven _)
  rw [hafter] at hchange
  exact ⟨s, s', hchange⟩

/-- `user rm alice`, answered "n" at the prompt. -/
def unconfirmed : Invocation := { invocation ["rm", "alice"] 7 with answer := some "n" }

/-- It exits 0, and the token of its target still authenticates. -/
theorem unconfirmed_rm_keeps_token :
    (runUser twoTokenPlatform unconfirmed (.ofEntries [alice '1'])).code = 0 ∧
    FreshToken twoTokenPlatform unconfirmed.random [alice '1'] ∧
    NoCollision twoTokenPlatform unconfirmed ∧
    ∃ s, loadUsersFile (.ofEntries [alice '1']) = .ok s ∧
      loadUsersFile ((runUser twoTokenPlatform unconfirmed (.ofEntries [alice '1'])).fileAfter
        (.ofEntries [alice '1'])) = .ok s ∧
      TokenOf twoTokenPlatform (alice '1') (plainToken 1) ∧
      lookup twoTokenPlatform.sha256 s (plainToken 1) = .ok (alice '1').normalised := by
  have hrun : (runUser twoTokenPlatform unconfirmed (.ofEntries [alice '1'])).code = 0 ∧
      (runUser twoTokenPlatform unconfirmed (.ofEntries [alice '1'])).saved = none := by
    decide +kernel
  have htoken : TokenOf twoTokenPlatform (alice '1') (plainToken 1) := by
    unfold TokenOf
    decide +kernel
  obtain ⟨s, hs⟩ := loads_alice '1' rfl (by decide +kernel)
  have hordered := (loadUsersFile_ok hs).2.2
  have hbyHash : s.byHash (hexEncode (twoTokenPlatform.sha256 (plainToken 1)).toList) =
      some (alice '1').normalised :=
    UserSnapshot.byHash_some.mpr ⟨by rw [hordered]; exact .head _, htoken.symm⟩
  refine ⟨hrun.1, freshToken_seven, noCollision_seven ["rm", "alice"], s, hs, ?_, htoken, ?_⟩
  · rw [Result.fileAfter, hrun.2]
    exact hs
  · rw [lookup_eq, hbyHash]
    rfl

end TabbySync.Cli
