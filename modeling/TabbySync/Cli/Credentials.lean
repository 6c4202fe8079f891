import TabbySync.Cli.Bootstrap
import TabbySync.Cli.Revocation

/-! # Tokens over a run of commands

An operator starts with the users file that `init` or `bootstrap` leaves, runs user
commands and keeps a ledger: which token each id was given last, and which ids were
removed. After any run of commands the server starts with the file, and the tokens it
accepts are those of the ledger.

The commands compare names as they stand in the file and the loader compares them
trimmed. On a file that only these commands have written that makes no difference, since
they write trimmed names. -/

namespace TabbySync.Cli

open Library.Text Auth Bootstrap

/-! ## The ledger -/

/-- The token each id has. -/
abbrev Ledger := Int64 → Option Bytes

inductive Deed
  | issued (id : Int64) (token : Bytes)
  | revoked (id : Int64)

def Ledger.note (l : Ledger) : Deed → Ledger
  | .issued id token => Function.update l id (some token)
  | .revoked id => Function.update l id none

def Deed.id : Deed → Int64
  | .issued id _ => id
  | .revoked id => id

theorem Ledger.note_issued (l : Ledger) (id : Int64) (token : Bytes) :
    l.note (.issued id token) id = some token := by
  rw [Ledger.note, Function.update_self]

theorem Ledger.note_revoked (l : Ledger) (id : Int64) : l.note (.revoked id) id = none := by
  rw [Ledger.note, Function.update_self]

theorem Ledger.note_of_ne (l : Ledger) {d : Deed} {id : Int64} (h : id ≠ d.id) :
    l.note d id = l id := by
  cases d with
  | issued id' token => exact Function.update_of_ne h _ _
  | revoked id' => exact Function.update_of_ne h _ _

/-- What a command that exits 0 has done, by its arguments and the answer at its prompt. -/
def deed (P : Platform) (inv : Invocation) (users : List UserEntry) : Option Deed :=
  if inv.args[2]? = some "add" then some (.issued (maxID users + 1) (newToken P inv))
  else if inv.isRm then
    if inv.forced || confirmed inv.answer then
      (findUser P users inv.rmTarget).map fun idx => .revoked (users.get idx).id
    else none
  else (findUser P users inv.rotateTarget).map fun idx => .issued (users.get idx).id (newToken P inv)

/-- The ledger after one command. -/
def entered (P : Platform) (inv : Invocation) (file : UsersFile) (l : Ledger) : Ledger :=
  if (runUser P inv file).code = 0 then
    match deed P inv (entriesOf file) with
    | none => l
    | some d => l.note d
  else l

def ledgerAfter (P : Platform) : List Invocation → UsersFile → Ledger → Ledger
  | [], _, l => l
  | inv :: rest, file, l =>
    ledgerAfter P rest ((runUser P inv file).fileAfter file) (entered P inv file l)

/-! ## Lists with keys -/

section
variable {α β : Type} {f : α → β} {l : List α}

/-- Whoever has the key of the element at an index stands there. -/
theorem index_of_key (h : (l.map f).Nodup) {i : Fin l.length} {j : Nat} {a : α}
    (ha : l[j]? = some a) (hkey : f a = f (l.get i)) : j = i := by
  have hj : (l.map f)[j]? = some (f a) := by
    rw [List.getElem?_map, ha]
    rfl
  have hi : (l.map f)[i.val]? = some (f a) := by
    rw [List.getElem?_map, hkey]
    simp
  obtain ⟨hlt, _⟩ := List.getElem?_eq_some_iff.mp hj
  exact (List.getElem?_inj hlt h).mp (hj.trans hi.symm)

theorem mem_eraseIdx_of_nodup (h : (l.map f).Nodup) {i : Fin l.length} {a : α} :
    a ∈ l.eraseIdx i ↔ a ∈ l ∧ f a ≠ f (l.get i) := by
  rw [List.mem_eraseIdx_iff_getElem?]
  constructor
  · rintro ⟨j, hj, ha⟩
    exact ⟨List.mem_of_getElem? ha, fun hkey => hj (index_of_key h ha hkey)⟩
  · rintro ⟨ha, hkey⟩
    obtain ⟨j, hj⟩ := List.mem_iff_getElem?.mp ha
    refine ⟨j, ?_, hj⟩
    rintro rfl
    have hsame : l.get i = a := by
      rw [List.getElem?_eq_some_iff] at hj
      exact hj.2
    exact hkey (by rw [hsame])

theorem mem_set_of_nodup (h : (l.map f).Nodup) {i : Fin l.length} {a b : α} :
    a ∈ l.set i b ↔ a = b ∨ a ∈ l ∧ f a ≠ f (l.get i) := by
  rw [← mem_eraseIdx_of_nodup h, List.mem_eraseIdx_iff_getElem?, List.mem_iff_getElem?]
  constructor
  · rintro ⟨j, hj⟩
    rw [List.getElem?_set] at hj
    split at hj
    · rw [if_pos i.isLt] at hj
      exact .inl (Option.some.inj hj).symm
    · rename_i hne
      exact .inr ⟨j, Ne.symm hne, hj⟩
  · rintro (rfl | ⟨j, hj, ha⟩)
    · exact ⟨i, by rw [List.getElem?_set, if_pos rfl, if_pos i.isLt]⟩
    · exact ⟨j, by rwa [List.getElem?_set, if_neg (Ne.symm hj)]⟩

end

/-! ## Commands that fail -/

/-- Only an exit with 0 comes with a list that was written. -/
def Result.Honest (r : Result) : Prop := r.code = 0 ∨ r.saved = none

section
variable (P : Platform) (inv : Invocation) (file : UsersFile)

theorem Plan.run_honest (saveError : Option String) (plan : Plan) :
    (plan.run saveError).Honest := by
  cases plan with
  | exit code output => exact .inr rfl
  | save before users report =>
    cases saveError with
    | some why => exact .inr rfl
    | none => exact .inl rfl

theorem editUsersFile_honest (noPath : String) (edit : List UserEntry → Plan) :
    (editUsersFile P inv file noPath edit).Honest := by
  unfold editUsersFile
  split
  · exact .inr rfl
  · split
    · exact .inr rfl
    · exact Plan.run_honest _ _

theorem runUserAdd_honest : (runUserAdd P inv file).Honest := by
  unfold runUserAdd
  split
  · exact .inr rfl
  · dsimp only
    split
    · exact .inr rfl
    · exact editUsersFile_honest P inv file _ _

theorem runUserRm_honest : (runUserRm P inv file).Honest := by
  unfold runUserRm
  split
  · exact .inr rfl
  · dsimp only
    split
    · exact .inr rfl
    · exact editUsersFile_honest P inv file _ _

theorem runUserRotate_honest : (runUserRotate P inv file).Honest := by
  unfold runUserRotate
  split
  · exact .inr rfl
  · exact editUsersFile_honest P inv file _ _

theorem runUser_honest : (runUser P inv file).Honest := by
  unfold runUser
  split
  · exact .inr rfl
  · split
    · exact runUserAdd_honest P inv file
    · split
      · exact runUserRm_honest P inv file
      · split
        · exact runUserRotate_honest P inv file
        · exact .inr rfl

/-- A command that does not exit 0 leaves the file. -/
theorem fileAfter_of_failed (h : (runUser P inv file).code ≠ 0) :
    (runUser P inv file).fileAfter file = file := by
  rw [Result.fileAfter, (runUser_honest P inv file).resolve_left h]

end

/-! ## The books agree -/

/-- The token a command generates; `rm` has none. -/
def tokens (P : Platform) (inv : Invocation) : List Bytes :=
  if inv.args[2]? = some "add" ∨ inv.args[2]? = some "rotate" then [newToken P inv] else []

/-- No other token has the hash of this one. -/
def Unforgeable (P : Platform) (token : Bytes) : Prop :=
  ∀ t, P.sha256 t = P.sha256 token → t = token

/-- The ledger against the entries of the file. `issued` are the tokens that have been
generated. -/
structure Books (P : Platform) (issued : List Bytes) (l : Ledger) (users : List UserEntry) :
    Prop where
  valid : Valid users
  trimmed : ∀ e ∈ users, trimSpace e.name = e.name
  enabled : ∀ e ∈ users, e.disabled = false
  small : ∀ e ∈ users, e.id.toInt ≤ issued.length
  kept : ∀ e ∈ users, ∃ t, l e.id = some t ∧ TokenOf P e t
  known : ∀ id t, l id = some t → t ∈ issued ∧ ∃ e ∈ users, e.id = id

section
variable {P : Platform} {inv : Invocation} {issued : List Bytes} {l : Ledger}
  {users : List UserEntry}

theorem TokenOf.sha256_eq {e : UserEntry} {t t' : Bytes} (h : TokenOf P e t)
    (h' : TokenOf P e t') : P.sha256 t = P.sha256 t' :=
  Vector.toList_inj.mp (hexEncode_injective (h.trans h'.symm))

/-- A token that has not been issued is not in the file. -/
theorem Books.fresh (h : Books P issued l users) (hnew : newToken P inv ∉ issued)
    (hcollision : Unforgeable P (newToken P inv)) : FreshToken P inv.random users := by
  intro e he heq
  obtain ⟨t, ht, htoken⟩ := h.kept e he
  have hown : TokenOf P e (newToken P inv) := by
    rw [TokenOf, hash_newToken, heq]
  have hsame : t = newToken P inv := hcollision t (htoken.sha256_eq hown)
  exact hnew (hsame ▸ (h.known _ _ ht).1)

/-- More tokens may have been generated. -/
theorem Books.mono (h : Books P issued l users) (more : List Bytes) :
    Books P (issued ++ more) l users where
  valid := h.valid
  trimmed := h.trimmed
  enabled := h.enabled
  small e he := (h.small e he).trans (by simp)
  kept := h.kept
  known id t ht := by
    obtain ⟨hissued, hentry⟩ := h.known id t ht
    exact ⟨List.mem_append_left _ hissued, hentry⟩

theorem maxID_mem (users : List UserEntry) :
    maxID users = 0 ∨ ∃ u ∈ users, u.id = maxID users := by
  have hfold : ∀ (us : List UserEntry) (m : Int64),
      us.foldl (fun m u => if m < u.id then u.id else m) m = m ∨
        ∃ u ∈ us, u.id = us.foldl (fun m u => if m < u.id then u.id else m) m := by
    intro us
    induction us with
    | nil => exact fun m => .inl rfl
    | cons v rest ih =>
      intro m
      rw [List.foldl_cons]
      rcases ih (if m < v.id then v.id else m) with hsame | ⟨u, hu, heq⟩
      · rw [hsame]
        split
        · exact .inr ⟨v, .head _, rfl⟩
        · exact .inl rfl
      · exact .inr ⟨u, .tail _ hu, heq⟩
  exact hfold users 0

theorem Books.maxID_le (h : Books P issued l users) : (maxID users).toInt ≤ issued.length := by
  rcases maxID_mem users with hzero | ⟨u, hu, heq⟩
  · rw [hzero]
    exact Int.natCast_nonneg _
  · rw [← heq]
    exact h.small u hu

/-! ## One command -/

theorem equalFold_self (fold : Char → Char) (name : String) : equalFold fold name name = true :=
  decide_eq_true rfl

theorem toInt_next {m : Int64} (h : 0 ≤ m) (room : m.toInt < 2 ^ 63 - 1) :
    (m + 1).toInt = m.toInt + 1 := by
  have hm := Int64.le_iff_toInt_le.mp h
  change (0 : Int) ≤ _ at hm
  rw [Int64.toInt_add]
  change (m.toInt + 1).bmod (2 ^ 64) = _
  rw [Int.bmod_eq_of_le] <;> omega

/-- What an `add` has written. -/
theorem add_saved {users' : List UserEntry} (sub : inv.args[2]? = some "add")
    (hedit : Edit P inv users users') :
    ∃ arg, trimSpace arg ≠ "" ∧ (∀ u ∈ users, equalFold P.fold u.name (trimSpace arg) = false) ∧
      users' = users ++ [newEntry P (trimSpace arg) inv.random users] := by
  cases hedit with
  | added _ _ name unused => exact ⟨_, name, unused, rfl⟩
  | removed rm =>
    rw [sub] at rm
    exact absurd rm (by decide)
  | rotated rotate =>
    rw [sub] at rotate
    exact absurd rotate (by decide)

theorem Books.added (h : Books P issued l users) (hroom : issued.length < 2 ^ 63 - 1)
    (fresh : FreshToken P inv.random users) {arg : String} (hname : trimSpace arg ≠ "")
    (unused : ∀ u ∈ users, equalFold P.fold u.name (trimSpace arg) = false) :
    Books P (issued ++ [newToken P inv])
      (l.note (.issued (maxID users + 1) (newToken P inv)))
      (users ++ [newEntry P (trimSpace arg) inv.random users]) := by
  have hmax := h.maxID_le
  have room : (maxID users).toInt < 2 ^ 63 - 1 := by omega
  have hid := toInt_next (maxID_nonneg users) room
  have hvalid : Valid (users ++ [newEntry P (trimSpace arg) inv.random users]) := by
    refine (valid_add_iff h.valid fresh hname).mpr ⟨room, fun u hu heq => ?_⟩
    have hfold := unused u hu
    rw [← heq, h.trimmed u hu, equalFold_self] at hfold
    cases hfold
  have hother : ∀ u ∈ users, u.id ≠ maxID users + 1 :=
    (nodup_map_append_singleton.mp hvalid.ids).2
  have hentry : ∀ e, e ∈ users ++ [newEntry P (trimSpace arg) inv.random users] →
      e ∈ users ∨ e = newEntry P (trimSpace arg) inv.random users := by
    intro e he
    rwa [List.mem_append, List.mem_singleton] at he
  refine ⟨hvalid, fun e he => ?_, fun e he => ?_, fun e he => ?_, fun e he => ?_, fun id t ht => ?_⟩
  · rcases hentry e he with hold | rfl
    · exact h.trimmed e hold
    · exact trimSpace_trimSpace arg
  · rcases hentry e he with hold | rfl
    · exact h.enabled e hold
    · rfl
  · rw [List.length_append, List.length_singleton]
    rcases hentry e he with hold | rfl
    · have := h.small e hold
      omega
    · show (maxID users + 1).toInt ≤ _
      omega
  · rcases hentry e he with hold | rfl
    · obtain ⟨t, ht, htoken⟩ := h.kept e hold
      exact ⟨t, (l.note_of_ne (hother e hold)).trans ht, htoken⟩
    · exact ⟨newToken P inv, l.note_issued _ _, (newEntry_tokenHash ..).symm⟩
  · by_cases hnew : id = maxID users + 1
    · subst hnew
      rw [l.note_issued] at ht
      cases ht
      exact ⟨by simp, _, List.mem_append_right _ (List.mem_singleton.mpr rfl), rfl⟩
    · rw [l.note_of_ne hnew] at ht
      obtain ⟨hissued, e, he, heid⟩ := h.known id t ht
      exact ⟨List.mem_append_left _ hissued, e, List.mem_append_left _ he, heid⟩

theorem Books.removed (h : Books P issued l users) (idx : Fin users.length) :
    Books P issued (l.note (.revoked (users.get idx).id)) (users.eraseIdx idx) := by
  have hmem : ∀ e, e ∈ users.eraseIdx idx ↔ e ∈ users ∧ e.id ≠ (users.get idx).id :=
    fun e => mem_eraseIdx_of_nodup (f := fun e : UserEntry => e.id) h.valid.ids
  refine ⟨h.valid.sublist (List.eraseIdx_sublist _ _), fun e he => ?_, fun e he => ?_,
    fun e he => ?_, fun e he => ?_, fun id t ht => ?_⟩
  · exact h.trimmed e ((hmem e).mp he).1
  · exact h.enabled e ((hmem e).mp he).1
  · exact h.small e ((hmem e).mp he).1
  · obtain ⟨hold, hne⟩ := (hmem e).mp he
    obtain ⟨t, ht, htoken⟩ := h.kept e hold
    exact ⟨t, (l.note_of_ne hne).trans ht, htoken⟩
  · by_cases hgone : id = (users.get idx).id
    · subst hgone
      rw [l.note_revoked] at ht
      cases ht
    · rw [l.note_of_ne hgone] at ht
      obtain ⟨hissued, e, he, rfl⟩ := h.known id t ht
      exact ⟨hissued, e, (hmem e).mpr ⟨he, hgone⟩, rfl⟩

theorem Books.rotated (h : Books P issued l users) (fresh : FreshToken P inv.random users)
    (idx : Fin users.length) :
    Books P (issued ++ [newToken P inv]) (l.note (.issued (users.get idx).id (newToken P inv)))
      (users.set idx (rotatedEntry P inv.random (users.get idx))) := by
  have hmem : ∀ e, e ∈ users.set idx (rotatedEntry P inv.random (users.get idx)) ↔
      e = rotatedEntry P inv.random (users.get idx) ∨
        e ∈ users ∧ e.id ≠ (users.get idx).id :=
    fun e => mem_set_of_nodup (f := fun e : UserEntry => e.id) h.valid.ids
  have hidx := List.get_mem users idx
  refine ⟨valid_rotate h.valid fresh idx, fun e he => ?_, fun e he => ?_, fun e he => ?_,
    fun e he => ?_, fun id t ht => ?_⟩
  · rcases (hmem e).mp he with rfl | ⟨hold, -⟩
    · exact h.trimmed (users.get idx) hidx
    · exact h.trimmed e hold
  · rcases (hmem e).mp he with rfl | ⟨hold, -⟩
    · exact h.enabled (users.get idx) hidx
    · exact h.enabled e hold
  · rw [List.length_append, List.length_singleton]
    rcases (hmem e).mp he with rfl | ⟨hold, -⟩
    · have := h.small _ hidx
      rw [rotatedEntry_id]
      omega
    · have := h.small e hold
      omega
  · rcases (hmem e).mp he with rfl | ⟨hold, hne⟩
    · refine ⟨newToken P inv, l.note_issued _ _, ?_⟩
      rw [TokenOf, rotatedEntry_tokenHash, normaliseHash_generateToken, hash_newToken]
    · obtain ⟨t, ht, htoken⟩ := h.kept e hold
      exact ⟨t, (l.note_of_ne hne).trans ht, htoken⟩
  · by_cases hown : id = (users.get idx).id
    · subst hown
      rw [l.note_issued] at ht
      cases ht
      exact ⟨by simp, _, (hmem _).mpr (.inl rfl), rotatedEntry_id ..⟩
    · rw [l.note_of_ne hown] at ht
      obtain ⟨hissued, e, he, rfl⟩ := h.known id t ht
      exact ⟨List.mem_append_left _ hissued, e, (hmem e).mpr (.inr ⟨he, hown⟩), rfl⟩

/-- The deed of a command that has exited 0. -/
theorem entered_ok {file : UsersFile} (ok : (runUser P inv file).code = 0) {d : Deed}
    (hd : deed P inv (entriesOf file) = some d) : entered P inv file l = l.note d := by
  rw [entered, if_pos ok, hd]

theorem length_tokens_le (P : Platform) (inv : Invocation) : (tokens P inv).length ≤ 1 := by
  unfold tokens
  split
  · exact le_refl 1
  · exact Nat.zero_le 1

theorem tokens_of_add (sub : inv.args[2]? = some "add") : tokens P inv = [newToken P inv] :=
  if_pos (.inl sub)

theorem tokens_of_rotate (sub : inv.args[2]? = some "rotate") : tokens P inv = [newToken P inv] :=
  if_pos (.inr sub)

theorem not_add_of_isRm (sub : inv.isRm = true) : inv.args[2]? ≠ some "add" := by
  intro hadd
  simp [Invocation.isRm, hadd] at sub

/-- Every command keeps the books. -/
theorem Books.command (h : Books P issued l users) (hroom : issued.length < 2 ^ 63 - 1)
    (hnew : ∀ t ∈ tokens P inv, t ∉ issued ∧ Unforgeable P t) :
    ∃ users', (runUser P inv (.ofEntries users)).fileAfter (.ofEntries users) =
        .ofEntries users' ∧
      Books P (issued ++ tokens P inv) (entered P inv (.ofEntries users) l) users' := by
  by_cases ok : (runUser P inv (.ofEntries users)).code = 0
  · obtain ⟨_, hload, hsucceeds⟩ := runUser_ok ok
    cases hload
    have hafter : ∀ users', (runUser P inv (.ofEntries users)).saved = some users' →
        (runUser P inv (.ofEntries users)).fileAfter (.ofEntries users) = .ofEntries users' :=
      fun users' hsaved => by rw [Result.fileAfter, hsaved]
    cases hsucceeds with
    | added name sub printed saved =>
      obtain ⟨_, hload, hedit⟩ := runUser_saved saved
      cases hload
      obtain ⟨arg, hname, unused, hwritten⟩ := add_saved sub hedit
      rw [hwritten] at saved
      rw [tokens_of_add sub] at hnew ⊢
      obtain ⟨hissued, hcollision⟩ := hnew _ (List.mem_singleton.mpr rfl)
      refine ⟨_, hafter _ saved, ?_⟩
      rw [entered_ok ok (d := .issued (maxID users + 1) (newToken P inv)) (if_pos sub)]
      exact h.added hroom (h.fresh hissued hcollision) hname unused
    | removed idx sub target sure saved =>
      have hdeed : deed P inv (entriesOf (.ofEntries users)) =
          some (.revoked (users.get idx).id) := by
        rw [deed, if_neg (not_add_of_isRm sub), if_pos sub, if_pos sure]
        exact congrArg (Option.map _) target
      refine ⟨_, hafter _ saved, ?_⟩
      rw [entered_ok ok hdeed]
      exact (h.removed idx).mono _
    | aborted idx sub target unsure saved =>
      have hdeed : deed P inv (entriesOf (.ofEntries users)) = none := by
        rw [deed, if_neg (not_add_of_isRm sub), if_pos sub, unsure]
        rfl
      refine ⟨users, by rw [Result.fileAfter, saved], ?_⟩
      rw [entered, if_pos ok, hdeed]
      exact h.mono _
    | rotated idx sub target printed saved =>
      have hadd : inv.args[2]? ≠ some "add" := by
        rw [sub]
        decide
      have hrm : ¬ inv.isRm = true := by simp [Invocation.isRm, sub]
      have hdeed : deed P inv (entriesOf (.ofEntries users)) =
          some (.issued (users.get idx).id (newToken P inv)) := by
        rw [deed, if_neg hadd, if_neg hrm]
        exact congrArg (Option.map _) target
      rw [tokens_of_rotate sub] at hnew ⊢
      obtain ⟨hissued, hcollision⟩ := hnew _ (List.mem_singleton.mpr rfl)
      refine ⟨_, hafter _ saved, ?_⟩
      rw [entered_ok ok hdeed]
      exact h.rotated (h.fresh hissued hcollision) idx
  · refine ⟨users, fileAfter_of_failed P inv _ ok, ?_⟩
    rw [entered, if_neg ok]
    exact h.mono _

/-! ## Every run -/

theorem Books.run (invs : List Invocation) (h : Books P issued l users)
    (hroom : issued.length + invs.length < 2 ^ 63)
    (hnodup : (issued ++ invs.flatMap (tokens P)).Nodup)
    (hcollision : ∀ t ∈ invs.flatMap (tokens P), Unforgeable P t) :
    ∃ users', runAll P invs (.ofEntries users) = .ofEntries users' ∧
      Books P (issued ++ invs.flatMap (tokens P)) (ledgerAfter P invs (.ofEntries users) l)
        users' := by
  induction invs generalizing issued l users with
  | nil => exact ⟨users, rfl, h.mono []⟩
  | cons inv rest ih =>
    rw [List.flatMap_cons] at hnodup hcollision ⊢
    rw [← List.append_assoc] at hnodup ⊢
    rw [List.length_cons] at hroom
    have hshort := length_tokens_le P inv
    have hnew : ∀ t ∈ tokens P inv, t ∉ issued ∧ Unforgeable P t := fun t ht =>
      ⟨fun hissued => List.disjoint_of_nodup_append hnodup.of_append_left hissued ht,
        hcollision t (List.mem_append_left _ ht)⟩
    obtain ⟨users', hfile, hbooks⟩ := h.command (by omega) hnew
    rw [runAll, ledgerAfter, hfile]
    refine ih hbooks ?_ hnodup fun t ht => hcollision t (List.mem_append_right _ ht)
    rw [List.length_append]
    omega

/-- A server started with the file accepts the tokens of the ledger. -/
theorem Books.accepts (h : Books P issued l users) (hcollision : ∀ t ∈ issued, Unforgeable P t)
    {s : UserSnapshot} (hordered : s.ordered = users.map UserEntry.normalised) (t : Bytes)
    (id : Int64) : (∃ u, lookup P.sha256 s t = .ok u ∧ u.id = id) ↔ l id = some t := by
  rw [lookup_eq]
  constructor
  · rintro ⟨u, hlookup, rfl⟩
    cases hbyHash : s.byHash (hexEncode (P.sha256 t).toList) with
    | none =>
      rw [hbyHash] at hlookup
      cases hlookup
    | some v =>
      obtain ⟨hmem, hhash⟩ := UserSnapshot.byHash_some.mp hbyHash
      rw [hordered] at hmem
      obtain ⟨e, he, rfl⟩ := List.mem_map.mp hmem
      obtain ⟨t', ht', htoken⟩ := h.kept e he
      have htoken' : TokenOf P e t := hhash.symm
      have hsame : t = t' := hcollision t' (h.known _ _ ht').1 t (htoken'.sha256_eq htoken)
      have henabled : e.normalised.disabled = false := h.enabled e he
      simp only [hbyHash, henabled, Bool.false_eq_true, if_false, Except.ok.injEq] at hlookup
      rw [← hlookup, hsame]
      exact ht'
  · intro hid
    obtain ⟨-, e, he, rfl⟩ := h.known id t hid
    obtain ⟨t', ht', htoken⟩ := h.kept e he
    obtain rfl : t = t' := Option.some.inj (hid.symm.trans ht')
    have hbyHash : s.byHash (hexEncode (P.sha256 t).toList) = some e.normalised := by
      refine UserSnapshot.byHash_some.mpr ⟨?_, htoken.symm⟩
      rw [hordered]
      exact List.mem_map_of_mem he
    have henabled : e.normalised.disabled = false := h.enabled e he
    refine ⟨e.normalised, ?_, rfl⟩
    simp only [hbyHash, henabled, Bool.false_eq_true, if_false]

end

/-- The users file before the first user command, with the ledger and the tokens so far. -/
inductive FirstFile (P : Platform) : List UserEntry → Ledger → List Bytes → Prop
  /-- `init` -/
  | initialised : FirstFile P [] (fun _ => none) []
  /-- `bootstrap`, with its token in token.txt. -/
  | bootstrapped {name : String} (hname : NameOk name) (random : Vector UInt8 32) :
      FirstFile P [firstEntry name (generateToken P random)]
        (Ledger.note (fun _ => none)
          (.issued 1 (generateToken P random).plaintext.toUTF8.toList))
        [(generateToken P random).plaintext.toUTF8.toList]

theorem FirstFile.books {P : Platform} {users : List UserEntry} {l : Ledger} {issued : List Bytes}
    (h : FirstFile P users l issued) : Books P issued l users := by
  cases h with
  | initialised =>
    exact ⟨⟨by simp, by simp, by simp, by simp⟩, by simp, by simp, by simp, by simp, by simp⟩
  | @bootstrapped name hname random =>
    refine ⟨firstEntry_valid hname random, fun e he => ?_, fun e he => ?_, fun e he => ?_,
      fun e he => ?_, fun id t ht => ?_⟩
    · rw [List.mem_singleton.mp he]
      exact hname.1
    · rw [List.mem_singleton.mp he]
      rfl
    · rw [List.mem_singleton.mp he]
      exact le_refl 1
    · rw [List.mem_singleton.mp he]
      exact ⟨_, Ledger.note_issued _ _ _, (normaliseHash_generateToken P random).symm⟩
    · by_cases hid : id = 1
      · subst hid
        rw [Ledger.note_issued] at ht
        cases ht
        exact ⟨List.mem_singleton.mpr rfl, _, List.mem_singleton.mpr rfl, rfl⟩
      · rw [Ledger.note_of_ne _ hid] at ht
        cases ht

/-- After any run of user commands on the file of `init` or `bootstrap`, those that fail
and those that are aborted included: the server starts with the file, and a token
authenticates an id exactly when the ledger has it under that id. -/
theorem server_accepts_ledger (P : Platform) {users : List UserEntry} {l : Ledger}
    {issued : List Bytes} (hfirst : FirstFile P users l issued) (invs : List Invocation)
    (hroom : issued.length + invs.length < 2 ^ 63)
    (hnodup : (issued ++ invs.flatMap (tokens P)).Nodup)
    (hcollision : ∀ t ∈ issued ++ invs.flatMap (tokens P), Unforgeable P t) :
    ∃ s, loadUsersFile (runAll P invs (.ofEntries users)) = .ok s ∧
      ∀ t id, (∃ u, lookup P.sha256 s t = .ok u ∧ u.id = id) ↔
        ledgerAfter P invs (.ofEntries users) l id = some t := by
  obtain ⟨users', hfile, hbooks⟩ := hfirst.books.run invs hroom hnodup
    fun t ht => hcollision t (List.mem_append_right _ ht)
  rw [hfile]
  obtain ⟨s, hs⟩ := loads_ofEntries.mpr hbooks.valid
  exact ⟨s, hs, hbooks.accepts hcollision (loadUsersFile_ok hs).2.2⟩

/-- A user is added and given another token. -/
def addThenRotate : List Invocation :=
  [invocation ["add", "alice"] 1, invocation ["rotate", "alice"] 7]

theorem unforgeable_one : Unforgeable twoTokenPlatform (plainToken 1) := by
  have hone : twoTokenPlatform.sha256 (plainToken 1) = Vector.replicate 32 1 := if_pos rfl
  intro t ht
  rw [hone] at ht
  simp only [twoTokenPlatform] at ht
  split at ht
  · assumption
  · split at ht
    · exact absurd ht (by decide)
    · exact absurd ht (by decide)

/-- The new token is in, the old one is out. -/
theorem server_accepts_ledger_rotated : ∃ s,
    loadUsersFile (runAll twoTokenPlatform addThenRotate (.ofEntries [])) = .ok s ∧
    (∃ u, lookup twoTokenPlatform.sha256 s (plainToken 7) = .ok u ∧ u.id = 1) ∧
    ¬ ∃ u, lookup twoTokenPlatform.sha256 s (plainToken 1) = .ok u ∧ u.id = 1 := by
  have htokens : addThenRotate.flatMap (tokens twoTokenPlatform) = [plainToken 1, plainToken 7] := rfl
  have hne : plainToken 1 ≠ plainToken 7 := by decide +kernel
  have hledger : ledgerAfter twoTokenPlatform addThenRotate (.ofEntries []) (fun _ => none) 1 =
      some (plainToken 7) := by decide +kernel
  obtain ⟨s, hs, haccepts⟩ := server_accepts_ledger twoTokenPlatform .initialised addThenRotate
    (by decide) (by simp [htokens, hne]) (by
      intro t ht
      rw [htokens] at ht
      rcases List.mem_pair.mp ht with rfl | rfl
      · exact unforgeable_one
      · exact noCollision_seven [])
  refine ⟨s, hs, (haccepts _ _).mpr hledger, fun hold => hne ?_⟩
  exact (Option.some.inj (hledger.symm.trans ((haccepts _ _).mp hold))).symm

end TabbySync.Cli
