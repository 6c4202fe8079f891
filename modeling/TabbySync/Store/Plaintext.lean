import TabbySync.Store.View

/-! # A plaintext store, and that the encrypted store refines it

What callers of `encrypted.Store` are promised: a map from ids to entries that hands
out ids in increasing order, with no ciphertext, NULL or timestamp text in it. Calls
made one after another on the encrypted store, from an empty table, return what the
map returns. -/

namespace TabbySync.Plaintext
open TabbySync.Library TabbySync.Library.Rfc3339 TabbySync.Sqlite TabbySync.Crypto
open TabbySync.Encrypted hiding Session Result

/-! ## The map -/

structure Entry where
  id : Int64
  owner : Int64
  name : String
  content : Bytes
  version : String
  createdAt : Int
  modifiedAt : Int
  deriving DecidableEq

def Entry.toConfig (e : Entry) : ConfigWithPlaintext where
  id := e.id
  userID := e.owner
  name := e.name
  content := e.content
  lastUsedWithVersion := e.version
  createdAt := e.createdAt
  modifiedAt := e.modifiedAt

abbrev Store := AutoTable Entry.id

/-- The entry under an id, for its owner. -/
def named (configID userID : Int64) (e : Entry) : Bool := e.id == configID && e.owner == userID

/-- Every supplied field overwrites; a new name or content is a modification. -/
def Entry.patch (now : Int) (patch : UpdateConfigPlaintextPatch) (e : Entry) : Entry where
  id := e.id
  owner := e.owner
  name := patch.name.getD e.name
  content := patch.content.getD e.content
  version := patch.lastUsedWithVersion.getD e.version
  createdAt := e.createdAt
  modifiedAt :=
    if patch.name.getD e.name = e.name ∧ patch.content.getD e.content = e.content then e.modifiedAt
    else nextModifiedAt now e.modifiedAt

theorem Entry.patch_id (now : Int) (patch : UpdateConfigPlaintextPatch) (e : Entry) :
    (e.patch now patch).id = e.id := rfl

theorem named_patch (now : Int) (patch : UpdateConfigPlaintextPatch) (configID userID : Int64)
    (e : Entry) : named configID userID (e.patch now patch) = named configID userID e := rfl

def newEntry (id userID : Int64) (inp : CreateConfigPlaintextInput) (now now' : Int) : Entry where
  id := id
  owner := userID
  name := inp.name
  content := inp.content
  version := inp.lastUsedWithVersion
  createdAt := now
  modifiedAt := nextModifiedAt now' now

/-- A create takes the next id, as long as there is one. -/
def create (now now' : Int) (a : Store) (userID : Int64) (inp : CreateConfigPlaintextInput) :
    Except GoError (ConfigWithPlaintext × Store) :=
  if a.last < a.last + 1 then
    .ok ((newEntry (a.last + 1) userID inp now now').toConfig,
      a.insert (newEntry (a.last + 1) userID inp now now'))
  else .error (.wrap "sqlite: reserve config id" errFull)

def get (a : Store) (userID configID : Int64) : Except GoError ConfigWithPlaintext :=
  match a.find (named configID userID) with
  | none => .error .errConfigNotFound
  | some e => .ok e.toConfig

def list (a : Store) (userID : Int64) : List ConfigWithPlaintext :=
  (a.select fun e => e.owner == userID).map Entry.toConfig

def update (now : Int) (a : Store) (userID configID : Int64)
    (patch : UpdateConfigPlaintextPatch) : Except GoError (ConfigWithPlaintext × Store) :=
  match a.find (named configID userID) with
  | none => .error .errConfigNotFound
  | some e => .ok ((e.patch now patch).toConfig,
      a.update (named configID userID) (Entry.patch now patch) (Entry.patch_id now patch))

def delete (a : Store) (userID configID : Int64) : Except GoError Store :=
  match a.find (named configID userID) with
  | none => .error .errConfigNotFound
  | some _ => .ok (a.delete (named configID userID))

def count (a : Store) (userID : Int64) : Nat := (a.select fun e => e.owner == userID).length

/-! ## Calls, one after another -/

/-- The operations of both stores. -/
inductive Call
  | create (userID : Int64) (inp : CreateConfigPlaintextInput)
  | get (userID configID : Int64)
  | list (userID : Int64)
  | update (userID configID : Int64) (patch : UpdateConfigPlaintextPatch)
  | delete (userID configID : Int64)
  | count (userID : Int64)

/-- A call with what the environment hands its steps; alone, no call takes more than
four. -/
structure Turn where
  call : Call
  env : Fin 4 → Env

def Call.start : Call → Encrypted.Session
  | .create userID inp => .create userID inp
  | .get userID configID => .get userID configID
  | .list userID => .list userID
  | .update userID configID patch => .update userID configID patch .reading
  | .delete userID configID => .delete userID configID
  | .count userID => .count userID

/-- A call on the encrypted store, run alone. -/
def Turn.run (P : Primitives) (masterKey : Bytes) (turn : Turn) (t : Configs) :
    Configs × Encrypted.Session :=
  let step := fun (x : Configs × Encrypted.Session) i => x.2.step P masterKey (turn.env i) x.1
  step (step (step (step (t, turn.call.start) 0) 1) 2) 3

/-- The same call on the map. A create reads the clock in its first step, an update when
it writes, in its second; an update whose context is done gives up first. -/
def Turn.spec (turn : Turn) (a : Store) : Store × Encrypted.Result :=
  match turn.call with
  | .create userID inp =>
    match create (turn.env 0).now (turn.env 0).now' a userID inp with
    | .error e => (a, .config (.error e))
    | .ok (cfg, a') => (a', .config (.ok cfg))
  | .get userID configID => (a, .config (get a userID configID))
  | .list userID => (a, .configs (.ok (list a userID)))
  | .update userID configID patch =>
    match (turn.env 0).ctxErr with
    | some e => (a, .config (.error e.toError))
    | none =>
      match update (turn.env 1).now a userID configID patch with
      | .error e => (a, .config (.error e))
      | .ok (cfg, a') => (a', .config (.ok cfg))
  | .delete userID configID =>
    match delete a userID configID with
    | .error e => (a, .unit (.error e))
    | .ok a' => (a', .unit (.ok ()))
  | .count userID => (a, .count (.ok (count a userID)))

/-- What each call of a sequence leaves with its caller. -/
def outcomes (P : Primitives) (masterKey : Bytes) : Configs → List Turn → List Encrypted.Session
  | _, [] => []
  | t, turn :: turns =>
    (turn.run P masterKey t).2 :: outcomes P masterKey (turn.run P masterKey t).1 turns

def specOutcomes : Store → List Turn → List Encrypted.Result
  | _, [] => []
  | a, turn :: turns => (turn.spec a).2 :: specOutcomes (turn.spec a).1 turns

/-- Every time in the map has an RFC 3339 text. -/
def Timed (a : Store) : Prop :=
  ∀ e ∈ a.rows, Representable e.createdAt ∧ Representable e.modifiedAt

/-- So has every time that occurs in a sequence of calls. -/
def TimedAlong : Store → List Turn → Prop
  | _, [] => True
  | a, turn :: turns => Timed (turn.spec a).1 ∧ TimedAlong (turn.spec a).1 turns

instance (a : Store) : Decidable (Timed a) :=
  inferInstanceAs (Decidable (∀ e ∈ a.rows, Representable e.createdAt ∧ Representable e.modifiedAt))

instance decidableTimedAlong (a : Store) : (turns : List Turn) → Decidable (TimedAlong a turns)
  | [] => isTrue trivial
  | turn :: turns => @instDecidableAnd _ _ inferInstance (decidableTimedAlong (turn.spec a).1 turns)

/-! ## A row and the entry it stores -/

/-- The row opens to the entry under its own ids, and its texts read as the entry's
times. -/
structure Seals (P : Primitives) (masterKey : Bytes) (r : Row) (e : Entry) : Prop where
  id : r.id = e.id
  owner : r.userID = e.owner
  view : viewOf P masterKey e.owner e.id r = ⟨e.name, .ok e.content, e.version⟩
  createdAt : parse r.createdAt = some e.createdAt
  modifiedAt : parse r.modifiedAt = some e.modifiedAt

section
variable {P : Primitives} {masterKey : Bytes} {t : Configs} {a : Store} {r : Row} {e : Entry}

theorem Seals.named (h : Seals P masterKey r e) (configID userID : Int64) :
    owned configID userID r = named configID userID e := by
  rw [owned, Plaintext.named, h.id, h.owner]

theorem Seals.ownedBy (h : Seals P masterKey r e) (userID : Int64) :
    Sqlite.ownedBy userID r = (e.owner == userID) := by
  rw [Sqlite.ownedBy, h.owner]

theorem Seals.scan (h : Seals P masterKey r e) :
    scanConfig r = .ok (r.toConfig e.createdAt e.modifiedAt) :=
  scanConfig_ok.mpr ⟨h.createdAt, h.modifiedAt, rfl⟩

theorem Seals.toPlaintext (h : Seals P masterKey r e) :
    toPlaintext (r.toConfig e.createdAt e.modifiedAt) e.content = e.toConfig := by
  obtain ⟨hname, _, hversion⟩ := View.mk.inj h.view
  simp only [Encrypted.toPlaintext, Row.toConfig, Entry.toConfig, h.id, h.owner, hname, hversion]

theorem Seals.openRow (h : Seals P masterKey r e) :
    openRow P masterKey e.owner e.id (r.toConfig e.createdAt e.modifiedAt) = .ok e.toConfig := by
  have hopen : decrypt P masterKey e.owner e.id r.contentCiphertext r.contentNonce =
      .ok e.content := (View.mk.inj h.view).2.1
  rw [← h.toPlaintext]
  simp only [Encrypted.openRow, Row.toConfig, hopen]

theorem find_named {configID userID : Int64}
    (h : a.find (Plaintext.named configID userID) = some e) :
    e.id = configID ∧ e.owner = userID := by
  simpa [Plaintext.named] using (AutoTable.find_mem h).2

theorem get_refines (h : AutoTable.Rel (Seals P masterKey) t a) (userID configID : Int64) :
    getConfigPlaintext P masterKey t userID configID = get a userID configID := by
  rcases h.find fun r e hs => hs.named configID userID with ⟨hr, he⟩ | ⟨r, e, hr, he, hs⟩
  · simp only [getConfigPlaintext, getConfig, get, hr, he]
  · obtain ⟨rfl, rfl⟩ := find_named he
    simp only [getConfigPlaintext, getConfig, get, hr, he, hs.scan, hs.openRow]

/-- A traversal of rows that all succeed. -/
theorem mapM_rel {α β γ : Type} {f : α → Except GoError γ} {R : α → β → Prop} {S : γ → β → Prop}
    (hf : ∀ x y, R x y → ∃ z, f x = .ok z ∧ S z y) {xs : List α} {ys : List β}
    (h : List.Forall₂ R xs ys) : ∃ zs, xs.mapM f = .ok zs ∧ List.Forall₂ S zs ys := by
  induction h with
  | nil => exact ⟨[], rfl, .nil⟩
  | @cons x y xs ys hxy _ ih =>
    obtain ⟨z, hz, hS⟩ := hf x y hxy
    obtain ⟨zs, hzs, hrest⟩ := ih
    exact ⟨z :: zs, by rw [List.mapM_cons, hz, hzs]; rfl, .cons hS hrest⟩

theorem list_refines (h : AutoTable.Rel (Seals P masterKey) t a) (userID : Int64) :
    listConfigsByUserPlaintext P masterKey t userID = .ok (list a userID) := by
  have hsel : List.Forall₂ (fun r e => r.userID = userID ∧ Seals P masterKey r e)
      (t.select (Sqlite.ownedBy userID)) (a.select fun e => e.owner == userID) :=
    (List.forall₂_and_left _ _).mpr ⟨fun r hr => ownedBy_iff.mp (AutoTable.mem_select.mp hr).2,
      h.select fun r e hs => hs.ownedBy userID⟩
  obtain ⟨cfgs, hscan, hcfgs⟩ := mapM_rel (f := scanConfig) (S := fun cfg e =>
    openRow P masterKey userID cfg.id cfg = .ok e.toConfig) (fun r e ⟨hu, hs⟩ => by
      refine ⟨_, hs.scan, ?_⟩
      rw [← hu, hs.owner, show (r.toConfig e.createdAt e.modifiedAt).id = e.id from hs.id]
      exact hs.openRow) hsel
  obtain ⟨out, hopen, hout⟩ := mapM_rel (S := fun cfg e => cfg = Entry.toConfig e)
    (fun _ _ hcfg => ⟨_, hcfg, rfl⟩) hcfgs
  have hlist : out = list a userID := by
    rw [← List.forall₂_eq_eq_eq]
    exact List.forall₂_map_right_iff.mpr hout
  simp only [listConfigsByUserPlaintext, listConfigsByUser, hscan, hopen, hlist]

theorem count_refines (h : AutoTable.Rel (Seals P masterKey) t a) (userID : Int64) :
    countConfigsByUser t userID = count a userID :=
  (h.select fun _ _ hs => hs.ownedBy userID).length_eq

theorem delete_refines (h : AutoTable.Rel (Seals P masterKey) t a) (userID configID : Int64) :
    (∃ e, deleteConfig t userID configID = .error e ∧ delete a userID configID = .error e) ∨
      ∃ t' a', deleteConfig t userID configID = .ok t' ∧ delete a userID configID = .ok a' ∧
        AutoTable.Rel (Seals P masterKey) t' a' := by
  have hnamed := fun r e (hs : Seals P masterKey r e) => hs.named configID userID
  rcases h.find hnamed with ⟨hr, he⟩ | ⟨r, e, hr, he, _⟩
  · have hnil : t.select (owned configID userID) = [] := by
      simpa [AutoTable.find, AutoTable.select] using hr
    exact .inl ⟨_, by rw [deleteConfig, hnil]; rfl, by rw [delete, he]⟩
  · have hne : (t.select (owned configID userID)).length ≠ 0 :=
      List.length_pos_iff.mpr (List.ne_nil_of_mem (AutoTable.mem_select.mpr
        (AutoTable.find_mem hr))) |>.ne'
    exact .inr ⟨_, _, if_neg hne, by rw [delete, he], h.delete hnamed⟩

/-- The row a create builds stores the entry it was given. -/
theorem seals_builtRow (hP : P.OpensSealed) {id userID : Int64} {inp : CreateConfigPlaintextInput}
    {ct n : Bytes} {nonce : Nonce} {now now' : Int}
    (henc : encrypt P masterKey userID id inp.content nonce = .ok (ct, n))
    (hnow : Representable now) (hnext : Representable (nextModifiedAt now' now)) :
    Seals P masterKey (builtRow id userID ⟨inp.name, ct, n, inp.lastUsedWithVersion⟩ now now')
      (newEntry id userID inp now now') where
  id := rfl
  owner := rfl
  view := View.ext rfl (decrypt_encrypt hP henc) (getD_nullIfEmpty inp.lastUsedWithVersion)
  createdAt := parse_format hnow
  modifiedAt := parse_format hnext

/-- With an id left and readable stamps, a create commits the row it builds. -/
theorem createConfigPlaintext_of_scan {env : Env} {userID : Int64}
    {inp : CreateConfigPlaintextInput} {ct n : Bytes} {cfg : Config} (hlt : t.last < t.last + 1)
    (henc : encrypt P masterKey userID (t.last + 1) inp.content env.nonce = .ok (ct, n))
    (hct : 0 < ct.length) (hn : 0 < n.length)
    (hscan : scanConfig (builtRow (t.last + 1) userID ⟨inp.name, ct, n, inp.lastUsedWithVersion⟩
      env.now env.now') = .ok cfg) :
    createConfigPlaintext P masterKey env t userID inp =
      .ok (toPlaintext cfg inp.content, t.insert (builtRow (t.last + 1) userID
        ⟨inp.name, ct, n, inp.lastUsedWithVersion⟩ env.now env.now')) := by
  have hvalid : validateCreateInput ⟨inp.name, ct, n, inp.lastUsedWithVersion⟩ = .ok () :=
    if_neg (by simp only; omega)
  simp only [createConfigPlaintext, createConfigWithID_eq hlt, buildCreate, henc, hvalid, hscan]

/-- A create commits a row that stores the new entry. -/
theorem create_refines (hP : P.OpensSealed) (hT : P.AppendsTag)
    (hk : masterKey.length = keySize) (h : AutoTable.Rel (Seals P masterKey) t a) {env : Env}
    {userID : Int64} {inp : CreateConfigPlaintextInput}
    (htimes : ∀ cfg a', create env.now env.now' a userID inp = .ok (cfg, a') → Timed a') :
    (∃ e, createConfigPlaintext P masterKey env t userID inp = .error e ∧
        create env.now env.now' a userID inp = .error e) ∨
      ∃ cfg t' a', createConfigPlaintext P masterKey env t userID inp = .ok (cfg, t') ∧
        create env.now env.now' a userID inp = .ok (cfg, a') ∧
        AutoTable.Rel (Seals P masterKey) t' a' := by
  by_cases hlt : t.last < t.last + 1
  · right
    obtain ⟨ct, n, henc, hct, hn⟩ :=
      encrypt_total hT hk userID (t.last + 1) inp.content env.nonce
    have hspec : create env.now env.now' a userID inp =
        .ok ((newEntry (t.last + 1) userID inp env.now env.now').toConfig,
          a.insert (newEntry (t.last + 1) userID inp env.now env.now')) := by
      rw [create, ← h.last, if_pos hlt]
    have hmem : newEntry (t.last + 1) userID inp env.now env.now' ∈
        (a.insert (newEntry (t.last + 1) userID inp env.now env.now')).rows :=
      (AutoTable.mem_insert (h.last ▸ hlt)).mpr (.inr rfl)
    obtain ⟨hnow, hnext⟩ := htimes _ _ hspec _ hmem
    have hseals : Seals P masterKey (builtRow (t.last + 1) userID
        ⟨inp.name, ct, n, inp.lastUsedWithVersion⟩ env.now env.now')
        (newEntry (t.last + 1) userID inp env.now env.now') := seals_builtRow hP henc hnow hnext
    have hcfg := createConfigPlaintext_of_scan hlt henc hct hn hseals.scan
    have hrel := h.insert (show t.last < (builtRow (t.last + 1) userID
      ⟨inp.name, ct, n, inp.lastUsedWithVersion⟩ env.now env.now').id from hlt) hseals.id hseals
    rw [show inp.content = (newEntry (t.last + 1) userID inp env.now env.now').content from rfl,
      hseals.toPlaintext] at hcfg
    exact ⟨_, _, _, hcfg, hspec, hrel⟩
  · left
    have hlt' : ¬ a.last < a.last + 1 := h.last ▸ hlt
    exact ⟨_, by simp [createConfigPlaintext, createConfigWithID, Sqlite.insert, hlt], if_neg hlt'⟩

/-- The update compares with the entry. -/
theorem changed_eq_false_iff {patch : UpdateConfigPlaintextPatch} :
    changed patch e.toConfig = false ↔
      patch.name.getD e.name = e.name ∧ patch.content.getD e.content = e.content := by
  rw [changed, Bool.or_eq_false_iff, nameChanged_eq_false, contentChanged_eq_false]
  rfl

theorem applyPatch_entry (now : Int) (patch : UpdateConfigPlaintextPatch) :
    applyPatch patch ⟨e.name, .ok e.content, e.version⟩ =
      ⟨(e.patch now patch).name, .ok (e.patch now patch).content, (e.patch now patch).version⟩ := by
  cases hc : patch.content <;> simp [applyPatch, Entry.patch, hc]

/-- The inner patch of an update that read the entry turns its row into the row of the
patched entry. -/
theorem innerPatch_seals (hP : P.OpensSealed) (hT : P.AppendsTag)
    (hk : masterKey.length = keySize) (hs : Seals P masterKey r e) (nonce : Nonce)
    (patch : UpdateConfigPlaintextPatch) :
    ∃ inner, innerPatch P masterKey nonce e.owner e.id patch e.toConfig = .ok inner ∧
      validatePatch inner = .ok () ∧
      (inner.preserveModifiedAt = true → inner.expectedModifiedAt = some e.modifiedAt) ∧
      ∀ now, Representable (e.patch now patch).modifiedAt →
        Seals P masterKey (patchedRow inner now e.modifiedAt r) (e.patch now patch) := by
  obtain ⟨hname, hcontent, hversion⟩ := View.mk.inj hs.view
  cases hchanged : changed patch e.toConfig with
  | true =>
    obtain ⟨inner, hinner, hval, hpres⟩ := changedPatch_total hT hk nonce patch e.toConfig
    refine ⟨inner, by rw [innerPatch, if_pos hchanged, hinner], hval, by simp [hpres], ?_⟩
    intro now hrep
    have hmod : (e.patch now patch).modifiedAt = nextModifiedAt now e.modifiedAt :=
      if_neg (by rw [← changed_eq_false_iff, hchanged]; simp)
    refine ⟨hs.id, hs.owner, ?_, hs.createdAt, ?_⟩
    · rw [← applyPatch_entry, ← hs.view]
      refine viewOf_changed hP hinner hval (fun hn => ?_) (fun hc => ?_)
      · rw [show r.name = e.name from hname]
        exact nameChanged_eq_false.mp hn
      · have hget : patch.content.getD e.content = e.content := contentChanged_eq_false.mp hc
        change (patch.content.map Except.ok).getD (viewOf P masterKey e.owner e.id r).content =
          (viewOf P masterKey e.owner e.id r).content
        rw [hs.view]
        cases hpc : patch.content with
        | none => rfl
        | some content => simpa [hpc] using hget
    · rw [hmod] at hrep ⊢
      simp only [patchedRow, hpres, Bool.false_eq_true, if_false]
      exact parse_format hrep
  | false =>
    refine ⟨idempotentPatch patch e.toConfig, by rw [innerPatch, if_neg (by simp [hchanged])],
      validatePatch_idempotent, fun _ => rfl, fun now _ => ?_⟩
    obtain ⟨hn, hc⟩ := changed_eq_false_iff.mp hchanged
    refine ⟨hs.id, hs.owner, ?_, hs.createdAt, ?_⟩
    · rw [viewOf_metadata]
      refine View.ext (hname.trans hn.symm) (hcontent.trans (congrArg Except.ok hc.symm)) ?_
      rw [show r.lastUsedWithVersion.getD "" = e.version from hversion]
      cases hpv : patch.lastUsedWithVersion with
      | none => simp [idempotentPatch, Entry.patch, hpv]
      | some v =>
        by_cases hv : v = e.version <;> simp [idempotentPatch, Entry.patch, Entry.toConfig, hpv, hv]
    · rw [show (e.patch now patch).modifiedAt = e.modifiedAt from if_pos ⟨hn, hc⟩]
      exact hs.modifiedAt

/-- An update, alone: it reads, writes, reads back and returns. -/
theorem update_refines (hP : P.OpensSealed) (hT : P.AppendsTag)
    (hk : masterKey.length = keySize) (h : AutoTable.Rel (Seals P masterKey) t a)
    {env : Fin 4 → Env} (hctx : (env 0).ctxErr = none) {userID configID : Int64}
    {patch : UpdateConfigPlaintextPatch}
    (htimes : ∀ cfg a', update (env 1).now a userID configID patch = .ok (cfg, a') → Timed a') :
    (∃ err, Turn.run P masterKey ⟨.update userID configID patch, env⟩ t =
          (t, .done (.config (.error err))) ∧
        update (env 1).now a userID configID patch = .error err) ∨
      ∃ cfg t' a', Turn.run P masterKey ⟨.update userID configID patch, env⟩ t =
          (t', .done (.config (.ok cfg))) ∧
        update (env 1).now a userID configID patch = .ok (cfg, a') ∧
        AutoTable.Rel (Seals P masterKey) t' a' := by
  have hnamed := fun r e (hs : Seals P masterKey r e) => hs.named configID userID
  have hget := get_refines h userID configID
  rcases h.find hnamed with ⟨_, he⟩ | ⟨r, e, hr, he, hs⟩
  · left
    rw [get, he] at hget
    refine ⟨.errConfigNotFound, ?_, by rw [update, he]⟩
    simp only [Turn.run, Call.start, Encrypted.Session.step, updateStep, hctx, hget]
  · right
    obtain ⟨rfl, rfl⟩ := find_named he
    have hspec : update (env 1).now a e.owner e.id patch = .ok ((e.patch (env 1).now patch).toConfig,
        a.update (named e.id e.owner) (Entry.patch (env 1).now patch)
          (Entry.patch_id _ patch)) := by
      rw [update, he]
    have hfind : (a.update (named e.id e.owner) (Entry.patch (env 1).now patch)
        (Entry.patch_id _ patch)).find (named e.id e.owner) = some (e.patch (env 1).now patch) := by
      rw [AutoTable.find_update (named_patch _ patch e.id e.owner), he, Option.map_some]
    have hrep := (htimes _ _ hspec _ (AutoTable.find_mem hfind).1).2
    obtain ⟨inner, hinner, hval, hcas, hseals⟩ :=
      innerPatch_seals hP hT hk hs (env 1).nonce patch
    have htx := @updateConfigTx_eq t (env 1).now e.modifiedAt e.owner e.id inner r hval hr
      hs.modifiedAt
    rw [if_neg fun hlost => hlost.2 (hcas hlost.1)] at htx
    have hrel := h.update (patchedRow_id inner (env 1).now e.modifiedAt)
      (Entry.patch_id (env 1).now patch) hnamed
      (fun x hx y hy hxy hp => by
        obtain ⟨hxid, _⟩ := owned_iff.mp hp
        have hxr : x = r := t.key_inj hx (AutoTable.find_mem hr).1 (hxid.trans hs.id.symm)
        have hye : y = e := a.key_inj hy (AutoTable.find_mem he).1 (hxy.id.symm.trans hxid)
        subst hxr hye
        exact hseals _ hrep)
    rw [get, he] at hget
    have hanswer := get_refines hrel e.owner e.id
    rw [get, hfind] at hanswer
    obtain ⟨row, _, hreload, _⟩ := getConfigPlaintext_ok hanswer
    refine ⟨_, _, _, ?_, hspec, hrel⟩
    simp only [Turn.run, Call.start, Encrypted.Session.step, updateStep, hctx, hget, hinner, htx,
      hreload, hanswer]

/-- One call, on both stores. -/
theorem turn_refines (hP : P.OpensSealed) (hT : P.AppendsTag) (hk : masterKey.length = keySize)
    (h : AutoTable.Rel (Seals P masterKey) t a) {turn : Turn} (htimes : Timed (turn.spec a).1) :
    (turn.run P masterKey t).2 = .done (turn.spec a).2 ∧
      AutoTable.Rel (Seals P masterKey) (turn.run P masterKey t).1 (turn.spec a).1 := by
  obtain ⟨call, env⟩ := turn
  cases call with
  | create userID inp =>
    have htimes' : ∀ cfg a', create (env 0).now (env 0).now' a userID inp = .ok (cfg, a') →
        Timed a' := fun cfg a' heq => by simpa only [Turn.spec, heq] using htimes
    rcases create_refines hP hT hk h htimes' with ⟨e, hrun, hspec⟩ | ⟨cfg, t', a', hrun, hspec, hrel⟩
    · simp only [Turn.run, Call.start, Encrypted.Session.step, Turn.spec, hrun, hspec]
      exact ⟨trivial, h⟩
    · simp only [Turn.run, Call.start, Encrypted.Session.step, Turn.spec, hrun, hspec]
      exact ⟨trivial, hrel⟩
  | get userID configID =>
    simp only [Turn.run, Call.start, Encrypted.Session.step, Turn.spec, get_refines h]
    exact ⟨trivial, h⟩
  | list userID =>
    simp only [Turn.run, Call.start, Encrypted.Session.step, Turn.spec, list_refines h]
    exact ⟨trivial, h⟩
  | update userID configID patch =>
    cases hctx : (env 0).ctxErr with
    | some e =>
      simp only [Turn.run, Call.start, Encrypted.Session.step, updateStep, Turn.spec, hctx]
      exact ⟨trivial, h⟩
    | none =>
      have htimes' : ∀ cfg a', update (env 1).now a userID configID patch = .ok (cfg, a') →
          Timed a' := fun cfg a' heq => by simpa only [Turn.spec, hctx, heq] using htimes
      rcases update_refines hP hT hk h hctx htimes' with
        ⟨e, hrun, hspec⟩ | ⟨cfg, t', a', hrun, hspec, hrel⟩
      · simp only [hrun, Turn.spec, hctx, hspec]
        exact ⟨trivial, h⟩
      · simp only [hrun, Turn.spec, hctx, hspec]
        exact ⟨trivial, hrel⟩
  | delete userID configID =>
    rcases delete_refines h userID configID with ⟨e, hrun, hspec⟩ | ⟨t', a', hrun, hspec, hrel⟩
    · simp only [Turn.run, Call.start, Encrypted.Session.step, Turn.spec, hrun, hspec]
      exact ⟨trivial, h⟩
    · simp only [Turn.run, Call.start, Encrypted.Session.step, Turn.spec, hrun, hspec]
      exact ⟨trivial, hrel⟩
  | count userID =>
    simp only [Turn.run, Call.start, Encrypted.Session.step, Turn.spec, count_refines h]
    exact ⟨trivial, h⟩

theorem outcomes_refine (hP : P.OpensSealed) (hT : P.AppendsTag)
    (hk : masterKey.length = keySize) (h : AutoTable.Rel (Seals P masterKey) t a)
    {turns : List Turn} (htimes : TimedAlong a turns) :
    outcomes P masterKey t turns = (specOutcomes a turns).map .done := by
  induction turns generalizing t a with
  | nil => rfl
  | cons turn turns ih =>
    obtain ⟨hout, hrel⟩ := turn_refines hP hT hk h htimes.1
    rw [outcomes, specOutcomes, List.map_cons, hout, ih hrel htimes.2]

end

/-- The error a call returned, if it did. -/
def failure : Encrypted.Result → Option GoError
  | .config (.error e) | .configs (.error e) | .unit (.error e) => some e
  | _ => none

/-- The error names none of what the map does not know: a decryption, an invalid patch, a
lost race. -/
def Foreseen (e : GoError) : Prop :=
  e.is .decrypt = false ∧ e.is .invalidPatch = false ∧ e.is .configChanged = false

theorem spec_failure {turn : Turn} {a : Store} {e : GoError}
    (h : failure (turn.spec a).2 = some e) : Foreseen e := by
  have hnotFound : Foreseen .errConfigNotFound := ⟨rfl, rfl, rfl⟩
  obtain ⟨call, env⟩ := turn
  cases call with
  | create userID inp =>
    simp only [Turn.spec, create] at h
    split at h <;> rename_i heq <;> split at heq <;> cases heq
    · cases h
      exact ⟨rfl, rfl, rfl⟩
    · cases h
  | get userID configID =>
    simp only [Turn.spec, get] at h
    split at h <;> cases h
    exact hnotFound
  | list userID => cases h
  | update userID configID patch =>
    simp only [Turn.spec, update] at h
    split at h
    · rename_i ctxErr _
      cases h
      cases ctxErr <;> exact ⟨rfl, rfl, rfl⟩
    · split at h <;> rename_i heq <;> split at heq <;> cases heq
      · cases h
        exact hnotFound
      · cases h
  | delete userID configID =>
    simp only [Turn.spec, delete] at h
    split at h <;> rename_i heq <;> split at heq <;> cases heq
    · cases h
      exact hnotFound
    · cases h
  | count userID => cases h

theorem mem_specOutcomes {a : Store} {turns : List Turn} {r : Encrypted.Result}
    (h : r ∈ specOutcomes a turns) : ∃ (turn : Turn) (a' : Store), r = (turn.spec a').2 := by
  induction turns generalizing a with
  | nil => cases h
  | cons turn turns ih =>
    rcases List.mem_cons.mp h with hr | hr
    · exact ⟨turn, a, hr⟩
    · exact ih hr

/-- Calls one after another from an empty table return what the map returns; in
particular no call reports a row that does not open, a patch it made invalid, or a race
it lost. -/
theorem encrypted_refines_plaintext {P : Primitives} (hP : P.OpensSealed) (hT : P.AppendsTag)
    {masterKey : Bytes} (hk : masterKey.length = keySize) {turns : List Turn}
    (htimes : TimedAlong (AutoTable.empty 0) turns) :
    outcomes P masterKey (AutoTable.empty 0) turns =
        (specOutcomes (AutoTable.empty 0) turns).map .done ∧
      ∀ r, .done r ∈ outcomes P masterKey (AutoTable.empty 0) turns →
        ∀ e, failure r = some e → Foreseen e := by
  have hrefine := outcomes_refine hP hT hk (AutoTable.Rel.empty 0) htimes
  refine ⟨hrefine, fun r hr e he => ?_⟩
  rw [hrefine, List.mem_map] at hr
  obtain ⟨r', hr', hdone⟩ := hr
  cases hdone
  obtain ⟨turn, a, rfl⟩ := mem_specOutcomes hr'
  exact spec_failure he

/-- A create with empty content, a rename, a version, a look from another user, a list
and a delete. -/
def sampleTurns : List Turn :=
  [.create 1 ⟨"a", [], ""⟩, .update 1 1 ⟨some "b", some [7], none⟩, .update 1 1 ⟨none, none, some "2"⟩,
    .get 2 1, .list 1, .delete 1 1, .count 1].map
    fun call => ⟨call, fun i => ⟨i, i, ⟨List.replicate 12 i.val.toUInt8, List.length_replicate⟩, none⟩⟩

theorem encrypted_refines_plaintext_sample :
    outcomes transparent (List.replicate 32 7) (AutoTable.empty 0) sampleTurns =
      (specOutcomes (AutoTable.empty 0) sampleTurns).map .done :=
  (encrypted_refines_plaintext transparent_opensSealed transparent_appendsTag (by decide)
    (by decide +kernel)).1

end TabbySync.Plaintext
