import TabbySync.Store.Sqlite
import TabbySync.Crypto.Envelope

/-! # The encrypted store

`encrypted.Store`: the plaintext operations over the SQLite store. An operation that
makes one database call is a function of the table; `UpdateConfigPlaintext` reads,
compares, writes and reads again, and retries when its compare-and-set fails, so it is
a machine that makes one database call at a time. -/

namespace TabbySync.Encrypted
open TabbySync.Sqlite TabbySync.Crypto
open TabbySync.Library.Rfc3339 (parse)

/-- What the environment hands one step: clock readings, random bytes, and the state of
the caller's context. -/
structure Env where
  now : Int
  now' : Int
  nonce : Nonce
  ctxErr : Option ContextErr

/-- One clock reading, a nonce of zeros and a context that is not done. -/
def envAt (now : Int) : Env :=
  ⟨now, now, ⟨List.replicate nonceSize 0, List.length_replicate⟩, none⟩

def toPlaintext (row : Config) (pt : Bytes) : ConfigWithPlaintext where
  id := row.id
  userID := row.userID
  name := row.name
  content := pt
  lastUsedWithVersion := row.lastUsedWithVersion
  createdAt := row.createdAt
  modifiedAt := row.modifiedAt

section
variable (P : Primitives) (masterKey : Bytes)

/-- The callback of `CreateConfigPlaintext`. -/
def buildCreate (userID : Int64) (inp : CreateConfigPlaintextInput) (nonce : Nonce) :
    CreateConfigInputBuilder := fun configID =>
  match encrypt P masterKey userID configID inp.content nonce with
  | .error e => .error (.wrap "encrypted: encrypt create" e)
  | .ok (ct, nonce) =>
    .ok { name := inp.name, contentCiphertext := ct, contentNonce := nonce
          lastUsedWithVersion := inp.lastUsedWithVersion }

def createConfigPlaintext (env : Env) (t : Configs) (userID : Int64)
    (inp : CreateConfigPlaintextInput) : Except GoError (ConfigWithPlaintext × Configs) :=
  match createConfigWithID t env.now env.now' userID
      (some (buildCreate P masterKey userID inp env.nonce)) with
  | .error e => .error e
  | .ok (row, t') => .ok (toPlaintext row inp.content, t')

/-- A row as read, opened under the given ids. -/
def openRow (userID configID : Int64) (row : Config) : Except GoError ConfigWithPlaintext :=
  match decrypt P masterKey userID configID row.contentCiphertext row.contentNonce with
  | .error _ => .error .errDecrypt
  | .ok pt => .ok (toPlaintext row pt)

def getConfigPlaintext (t : Configs) (userID configID : Int64) :
    Except GoError ConfigWithPlaintext :=
  match getConfig t userID configID with
  | .error e => .error e
  | .ok row => openRow P masterKey userID configID row

def listConfigsByUserPlaintext (t : Configs) (userID : Int64) :
    Except GoError (List ConfigWithPlaintext) :=
  match listConfigsByUser t userID with
  | .error e => .error e
  | .ok rows => rows.mapM fun row => openRow P masterKey userID row.id row

/-! ## UpdateConfigPlaintext -/

def nameChanged (patch : UpdateConfigPlaintextPatch) (current : ConfigWithPlaintext) : Bool :=
  match patch.name with
  | none => false
  | some name => name != current.name

def contentChanged (patch : UpdateConfigPlaintextPatch) (current : ConfigWithPlaintext) : Bool :=
  match patch.content with
  | none => false
  | some content => content != current.content

def changed (patch : UpdateConfigPlaintextPatch) (current : ConfigWithPlaintext) : Bool :=
  nameChanged patch current || contentChanged patch current

/-- The unconditional write: the fields that differ from what was read. The version is
passed on as supplied. -/
def changedPatch (nonce : Nonce) (userID configID : Int64) (patch : UpdateConfigPlaintextPatch)
    (current : ConfigWithPlaintext) : Except GoError UpdateConfigPatch :=
  let name := if nameChanged patch current then patch.name else none
  match contentChanged patch current, patch.content with
  | true, some content =>
    match encrypt P masterKey userID configID content nonce with
    | .error e => .error (.wrap "encrypted: encrypt update" e)
    | .ok (ct, nonce) =>
      .ok { name := name, contentCiphertext := ct, contentNonce := nonce
            lastUsedWithVersion := patch.lastUsedWithVersion }
  | _, _ => .ok { name := name, lastUsedWithVersion := patch.lastUsedWithVersion }

/-- The compare-and-set write of a patch that repeats what was read. -/
def idempotentPatch (patch : UpdateConfigPlaintextPatch) (current : ConfigWithPlaintext) :
    UpdateConfigPatch where
  lastUsedWithVersion := match patch.lastUsedWithVersion with
    | none => none
    | some v => if v ≠ current.lastUsedWithVersion then some v else none
  preserveModifiedAt := true
  expectedModifiedAt := some current.modifiedAt

inductive Result
  | config (r : Except GoError ConfigWithPlaintext)
  | configs (r : Except GoError (List ConfigWithPlaintext))
  | unit (r : Except GoError Unit)
  | count (r : Except GoError Nat)
  deriving DecidableEq

/-- Where an update stands: about to read, about to write against what it read, inside
`UpdateConfig` after its commit, or about to read its answer. -/
inductive UpdatePc
  | reading
  | writing (current : ConfigWithPlaintext)
  | reloading (idempotent : Bool)
  | returning
  deriving DecidableEq

/-- A method call of `encrypted.Store`, by what it has left to do. -/
inductive Session
  | create (userID : Int64) (inp : CreateConfigPlaintextInput)
  | get (userID configID : Int64)
  | list (userID : Int64)
  | update (userID configID : Int64) (patch : UpdateConfigPlaintextPatch) (pc : UpdatePc)
  | delete (userID configID : Int64)
  | count (userID : Int64)
  | done (r : Result)
  deriving DecidableEq

/-- What the update makes of an error of its inner `UpdateConfig`: only the idempotent
branch retries, and only on a lost compare-and-set. -/
def updateFailed (userID configID : Int64) (patch : UpdateConfigPlaintextPatch)
    (idempotent : Bool) (e : GoError) : Session :=
  if idempotent && e.is .configChanged then .update userID configID patch .reading
  else .done (.config (.error e))

/-- The patch an update hands to its inner `UpdateConfig`. -/
def innerPatch (nonce : Nonce) (userID configID : Int64) (patch : UpdateConfigPlaintextPatch)
    (current : ConfigWithPlaintext) : Except GoError UpdateConfigPatch :=
  if changed patch current then changedPatch P masterKey nonce userID configID patch current
  else .ok (idempotentPatch patch current)

/-- One database call of an update. -/
def updateStep (env : Env) (t : Configs) (userID configID : Int64)
    (patch : UpdateConfigPlaintextPatch) : UpdatePc → Configs × Session
  | .reading =>
    match env.ctxErr with
    | some e => (t, .done (.config (.error e.toError)))
    | none =>
      match getConfigPlaintext P masterKey t userID configID with
      | .error e => (t, .done (.config (.error e)))
      | .ok current => (t, .update userID configID patch (.writing current))
  | .writing current =>
    match innerPatch P masterKey env.nonce userID configID patch current with
    | .error e => (t, .done (.config (.error e)))
    | .ok inner =>
      match updateConfigTx t env.now userID configID inner with
      | .error e => (t, updateFailed userID configID patch (!changed patch current) e)
      | .ok t' => (t', .update userID configID patch (.reloading (!changed patch current)))
  | .reloading idempotent =>
    match getConfig t userID configID with
    | .error e => (t, updateFailed userID configID patch idempotent e)
    | .ok _ => (t, .update userID configID patch .returning)
  | .returning => (t, .done (.config (getConfigPlaintext P masterKey t userID configID)))

/-- One atomic step of a call. -/
def Session.step (env : Env) (t : Configs) : Session → Configs × Session
  | .create userID inp =>
    match createConfigPlaintext P masterKey env t userID inp with
    | .error e => (t, .done (.config (.error e)))
    | .ok (cfg, t') => (t', .done (.config (.ok cfg)))
  | .get userID configID =>
    (t, .done (.config (getConfigPlaintext P masterKey t userID configID)))
  | .list userID => (t, .done (.configs (listConfigsByUserPlaintext P masterKey t userID)))
  | .update userID configID patch pc => updateStep P masterKey env t userID configID patch pc
  | .delete userID configID =>
    match deleteConfig t userID configID with
    | .error e => (t, .done (.unit (.error e)))
    | .ok t' => (t', .done (.unit (.ok ())))
  | .count userID => (t, .done (.count (.ok (countConfigsByUser t userID))))
  | .done r => (t, .done r)

end

/-! ## What each operation does -/

section
variable {P : Primitives} {masterKey : Bytes} {t : Configs} {userID configID : Int64}

theorem openRow_ok {row : Config} {cfg : ConfigWithPlaintext}
    (h : openRow P masterKey userID configID row = .ok cfg) :
    ∃ pt, decrypt P masterKey userID configID row.contentCiphertext row.contentNonce = .ok pt ∧
      cfg = toPlaintext row pt := by
  unfold openRow at h
  split at h
  · cases h
  · rename_i pt hpt
    cases h
    exact ⟨pt, hpt, rfl⟩

theorem getConfigPlaintext_ok {cfg : ConfigWithPlaintext}
    (h : getConfigPlaintext P masterKey t userID configID = .ok cfg) :
    ∃ row pt, getConfig t userID configID = .ok row ∧
      decrypt P masterKey userID configID row.contentCiphertext row.contentNonce = .ok pt ∧
      cfg = toPlaintext row pt := by
  unfold getConfigPlaintext at h
  split at h
  · cases h
  · rename_i row hrow
    obtain ⟨pt, hpt, hcfg⟩ := openRow_ok h
    exact ⟨row, pt, hrow, hpt, hcfg⟩

theorem createConfigPlaintext_ok {env : Env} {inp : CreateConfigPlaintextInput}
    {cfg : ConfigWithPlaintext} {t' : Configs}
    (h : createConfigPlaintext P masterKey env t userID inp = .ok (cfg, t')) :
    ∃ row, createConfigWithID t env.now env.now' userID
        (some (buildCreate P masterKey userID inp env.nonce)) = .ok (row, t') ∧
      cfg = toPlaintext row inp.content := by
  unfold createConfigPlaintext at h
  split at h
  · cases h
  · rename_i row t'' hrow
    cases h
    exact ⟨row, hrow, rfl⟩

theorem nameChanged_eq_false {patch : UpdateConfigPlaintextPatch} {current : ConfigWithPlaintext} :
    nameChanged patch current = false ↔ patch.name.getD current.name = current.name := by
  cases hn : patch.name <;> simp [nameChanged, hn]

theorem contentChanged_eq_false {patch : UpdateConfigPlaintextPatch}
    {current : ConfigWithPlaintext} :
    contentChanged patch current = false ↔
      patch.content.getD current.content = current.content := by
  cases hc : patch.content <;> simp [contentChanged, hc]

/-- A patch that changes nothing repeats the name and the content it was compared with. -/
theorem supplied_of_not_changed {patch : UpdateConfigPlaintextPatch}
    {current : ConfigWithPlaintext} (h : changed patch current = false) :
    (∀ name, patch.name = some name → name = current.name) ∧
      ∀ content, patch.content = some content → content = current.content := by
  obtain ⟨hn, hc⟩ := Bool.or_eq_false_iff.mp h
  constructor
  · intro name hname
    simpa [hname] using nameChanged_eq_false.mp hn
  · intro content hcontent
    simpa [hcontent] using contentChanged_eq_false.mp hc

theorem validatePatch_idempotent {patch : UpdateConfigPlaintextPatch}
    {current : ConfigWithPlaintext} : validatePatch (idempotentPatch patch current) = .ok () := by
  simp [validatePatch, hasCipher, hasNonce, idempotentPatch]

/-- The unconditional write carries the changed name, the changed content sealed, and
the version. -/
theorem changedPatch_ok {nonce : Nonce} {patch : UpdateConfigPlaintextPatch}
    {current : ConfigWithPlaintext} {inner : UpdateConfigPatch}
    (h : changedPatch P masterKey nonce userID configID patch current = .ok inner) :
    inner.name = (if nameChanged patch current then patch.name else none) ∧
      inner.lastUsedWithVersion = patch.lastUsedWithVersion ∧
      ((contentChanged patch current = true ∧ ∃ content, patch.content = some content ∧
          encrypt P masterKey userID configID content nonce =
            .ok (inner.contentCiphertext, inner.contentNonce)) ∨
        (contentChanged patch current = false ∧ inner.contentCiphertext = [])) := by
  unfold changedPatch at h
  simp only at h
  split at h
  · rename_i content hchanged hcontent
    split at h
    · cases h
    · rename_i ct n henc
      cases h
      exact ⟨rfl, rfl, .inl ⟨hchanged, content, hcontent, henc⟩⟩
  · rename_i hno
    cases h
    refine ⟨rfl, rfl, .inr ⟨?_, rfl⟩⟩
    cases hc : contentChanged patch current with
    | false => rfl
    | true =>
      cases hcontent : patch.content with
      | none => simp [contentChanged, hcontent] at hc
      | some content => exact absurd hcontent (hno content hc)

theorem changedPatch_preserve {nonce : Nonce} {patch : UpdateConfigPlaintextPatch}
    {current : ConfigWithPlaintext} {inner : UpdateConfigPatch}
    (h : changedPatch P masterKey nonce userID configID patch current = .ok inner) :
    inner.preserveModifiedAt = false := by
  unfold changedPatch at h
  simp only at h
  split at h
  · split at h <;> cases h
    rfl
  · cases h
    rfl

/-- A patch hands over a ciphertext only if it seals changed content. -/
theorem innerPatch_cipher {nonce : Nonce} {patch : UpdateConfigPlaintextPatch}
    {current : ConfigWithPlaintext} {inner : UpdateConfigPatch}
    (h : innerPatch P masterKey nonce userID configID patch current = .ok inner)
    (hc : hasCipher inner = true) : contentChanged patch current = true ∧
      ∃ content, encrypt P masterKey userID configID content nonce =
        .ok (inner.contentCiphertext, inner.contentNonce) := by
  unfold innerPatch at h
  split at h
  · obtain ⟨_, _, ⟨hchanged, content, _, henc⟩ | ⟨_, hnil⟩⟩ := changedPatch_ok h
    · exact ⟨hchanged, content, henc⟩
    · simp [hasCipher, hnil] at hc
  · cases h
    simp [hasCipher, idempotentPatch] at hc

/-- Under a full-size key the unconditional write is a valid patch. -/
theorem changedPatch_total (hT : P.AppendsTag) (hk : masterKey.length = keySize) (nonce : Nonce)
    (patch : UpdateConfigPlaintextPatch) (current : ConfigWithPlaintext) :
    ∃ inner, changedPatch P masterKey nonce userID configID patch current = .ok inner ∧
      validatePatch inner = .ok () ∧ inner.preserveModifiedAt = false := by
  unfold changedPatch
  simp only
  split
  · rename_i content _ _
    obtain ⟨ct, n, henc, hct, hn⟩ := encrypt_total hT hk userID configID content nonce
    rw [henc]
    refine ⟨_, rfl, ?_, rfl⟩
    simp [validatePatch, hasCipher, hasNonce, hct, hn]
  · exact ⟨_, rfl, by simp [validatePatch, hasCipher, hasNonce], rfl⟩

theorem getConfigPlaintext_error {e : GoError}
    (h : getConfigPlaintext P masterKey t userID configID = .error e) :
    e.is .configChanged = false := by
  unfold getConfigPlaintext at h
  split at h
  · rename_i hget
    cases h
    exact getConfig_error hget _ (by decide)
  · unfold openRow at h
    split at h <;> cases h
    rfl

/-- The name that is written: the supplied one, if it is not the one that was read. -/
theorem innerPatch_name {nonce : Nonce} {patch : UpdateConfigPlaintextPatch}
    {current : ConfigWithPlaintext} {inner : UpdateConfigPatch}
    (h : innerPatch P masterKey nonce userID configID patch current = .ok inner) :
    inner.name = if nameChanged patch current then patch.name else none := by
  unfold innerPatch at h
  split at h
  · exact (changedPatch_ok h).1
  · rename_i hsame
    cases h
    have hname := (Bool.or_eq_false_iff.mp (Bool.eq_false_iff.mpr hsame)).1
    rw [hname]
    rfl

theorem innerPatch_error {nonce : Nonce} {patch : UpdateConfigPlaintextPatch}
    {current : ConfigWithPlaintext} {e : GoError}
    (h : innerPatch P masterKey nonce userID configID patch current = .error e) :
    e.is .configChanged = false := by
  unfold innerPatch at h
  split at h
  · unfold changedPatch at h
    simp only at h
    split at h
    · split at h
      · rename_i e' henc
        cases h
        exact encrypt_error henc _
      · cases h
    · cases h
  · cases h

/-- The unconditional write is no compare-and-set. -/
theorem innerPatch_preserve {nonce : Nonce} {patch : UpdateConfigPlaintextPatch}
    {current : ConfigWithPlaintext}
    {inner : UpdateConfigPatch}
    (h : innerPatch P masterKey nonce userID configID patch current = .ok inner)
    (hp : inner.preserveModifiedAt = true) : changed patch current = false ∧
      inner.expectedModifiedAt = some current.modifiedAt := by
  unfold innerPatch at h
  split at h
  · rw [changedPatch_preserve h] at hp
    cases hp
  · cases h
    exact ⟨Bool.eq_false_iff.mpr ‹_›, rfl⟩

/-- The reading step ends the call with an error or hands over what it read. -/
theorem updateStep_reading (env : Env) (patch : UpdateConfigPlaintextPatch) :
    (updateStep P masterKey env t userID configID patch .reading).1 = t ∧
      ((∃ e, (updateStep P masterKey env t userID configID patch .reading).2 =
          .done (.config (.error e))) ∨
        ∃ current, (updateStep P masterKey env t userID configID patch .reading).2 =
          .update userID configID patch (.writing current)) := by
  simp only [updateStep]
  split
  · exact ⟨rfl, .inl ⟨_, rfl⟩⟩
  · split
    · exact ⟨rfl, .inl ⟨_, rfl⟩⟩
    · exact ⟨rfl, .inr ⟨_, rfl⟩⟩

end

/-- Where a step of an update leads. -/
inductive UpdateNext (P : Primitives) (masterKey : Bytes) (t : Configs) (userID configID : Int64)
    (patch : UpdateConfigPlaintextPatch) : UpdatePc → Session → Prop
  | fails {pc : UpdatePc} {e : GoError} (h : e.is .configChanged = false) :
      UpdateNext P masterKey t userID configID patch pc (.done (.config (.error e)))
  | reads {current : ConfigWithPlaintext}
      (h : getConfigPlaintext P masterKey t userID configID = .ok current) :
      UpdateNext P masterKey t userID configID patch .reading
        (.update userID configID patch (.writing current))
  | retries {current : ConfigWithPlaintext} {r : Row} {m : Int}
      (hsame : changed patch current = false) (hr : t.find (owned configID userID) = some r)
      (hm : parse r.modifiedAt = some m) (hne : m ≠ current.modifiedAt) :
      UpdateNext P masterKey t userID configID patch (.writing current)
        (.update userID configID patch .reading)
  | commits {current : ConfigWithPlaintext} {idempotent : Bool} :
      UpdateNext P masterKey t userID configID patch (.writing current)
        (.update userID configID patch (.reloading idempotent))
  | reloads {idempotent : Bool} :
      UpdateNext P masterKey t userID configID patch (.reloading idempotent)
        (.update userID configID patch .returning)
  | returns {cfg : ConfigWithPlaintext} :
      UpdateNext P masterKey t userID configID patch .returning (.done (.config (.ok cfg)))

theorem updateStep_next (P : Primitives) (masterKey : Bytes) (env : Env) (t : Configs)
    (userID configID : Int64) (patch : UpdateConfigPlaintextPatch) (pc : UpdatePc) :
    UpdateNext P masterKey t userID configID patch pc
      (updateStep P masterKey env t userID configID patch pc).2 := by
  cases pc with
  | reading =>
    simp only [updateStep]
    split
    · rename_i ctxErr _
      exact .fails (by cases ctxErr <;> rfl)
    · split
      · exact .fails (getConfigPlaintext_error ‹_›)
      · exact .reads ‹_›
  | writing current =>
    simp only [updateStep]
    split
    · exact .fails (innerPatch_error ‹_›)
    · rename_i inner hinner
      split
      · rename_i e htx
        simp only [updateFailed]
        split
        · rename_i hretry
          obtain ⟨_, he⟩ := (Bool.and_eq_true _ _).mp hretry
          obtain ⟨hp, r, m, hr, hm, hne⟩ := updateConfigTx_lost htx he
          obtain ⟨hsame, hexp⟩ := innerPatch_preserve hinner hp
          exact .retries hsame hr hm fun heq => hne (hexp.trans (congrArg some heq.symm))
        · rename_i hretry
          refine .fails ?_
          by_contra he
          rw [Bool.not_eq_false] at he
          obtain ⟨hp, _⟩ := updateConfigTx_lost htx he
          simp [(innerPatch_preserve hinner hp).1, he] at hretry
      · exact .commits
  | reloading idempotent =>
    simp only [updateStep]
    split
    · rename_i e hget
      have he := getConfig_error hget .configChanged (by decide)
      simp only [updateFailed, he, Bool.and_false]
      exact .fails he
    · exact .reloads
  | returning =>
    simp only [updateStep]
    cases hget : getConfigPlaintext P masterKey t userID configID with
    | error e => exact .fails (getConfigPlaintext_error hget)
    | ok cfg => exact .returns

section
variable {P : Primitives} {masterKey : Bytes} {t : Configs} {userID configID : Int64}

/-- Only the write of an update writes. -/
theorem updateStep_fst_of_not_writing {env : Env} {patch : UpdateConfigPlaintextPatch}
    {pc : UpdatePc} (h : ∀ current, pc ≠ .writing current) :
    (updateStep P masterKey env t userID configID patch pc).1 = t := by
  cases pc with
  | reading => exact (updateStep_reading env patch).1
  | writing current => exact absurd rfl (h current)
  | reloading idempotent =>
    simp only [updateStep]
    split <;> rfl
  | returning => rfl

/-- The write of an update commits its inner `UpdateConfig` and stands before the reload, or
leaves the table and stands elsewhere. -/
theorem updateStep_write (env : Env) (patch : UpdateConfigPlaintextPatch)
    (current : ConfigWithPlaintext) :
    (∃ inner t', innerPatch P masterKey env.nonce userID configID patch current = .ok inner ∧
      updateConfigTx t env.now userID configID inner = .ok t' ∧
      updateStep P masterKey env t userID configID patch (.writing current) =
        (t', .update userID configID patch (.reloading (!changed patch current)))) ∨
    ((updateStep P masterKey env t userID configID patch (.writing current)).1 = t ∧
      ∀ idempotent, (updateStep P masterKey env t userID configID patch (.writing current)).2 ≠
        .update userID configID patch (.reloading idempotent)) := by
  simp only [updateStep]
  cases innerPatch P masterKey env.nonce userID configID patch current with
  | error e => exact .inr ⟨rfl, by simp⟩
  | ok inner =>
    simp only
    cases htx : updateConfigTx t env.now userID configID inner with
    | error e =>
      refine .inr ⟨rfl, ?_⟩
      simp only [updateFailed]
      split <;> simp
    | ok t' => exact .inl ⟨inner, t', rfl, htx, rfl⟩

/-- An update leaves the table, but for the commit of its inner `UpdateConfig`. -/
theorem updateStep_table (env : Env) (patch : UpdateConfigPlaintextPatch) (pc : UpdatePc) :
    (updateStep P masterKey env t userID configID patch pc).1 = t ∨
      ∃ inner, updateConfigTx t env.now userID configID inner =
        .ok (updateStep P masterKey env t userID configID patch pc).1 := by
  cases pc with
  | reading | reloading | returning => exact .inl (updateStep_fst_of_not_writing (by simp))
  | writing current =>
    obtain ⟨inner, t', _, htx, hstep⟩ | ⟨hleft, _⟩ := updateStep_write (P := P) env patch current
    · exact .inr ⟨inner, by rw [hstep, htx]⟩
    · exact .inl hleft

theorem updateStep_commits (env : Env) (patch : UpdateConfigPlaintextPatch) (pc : UpdatePc) :
    Commits t (updateStep P masterKey env t userID configID patch pc).1 := by
  obtain hleft | ⟨inner, htx⟩ := updateStep_table env patch pc
  · rw [hleft]
    exact .idle
  · exact .update htx

theorem Session.step_commits (env : Env) (s : Session) :
    Commits t (s.step P masterKey env t).1 := by
  cases s with
  | create userID inp =>
    simp only [step]
    split
    · exact .idle
    · rename_i h
      obtain ⟨row, hrow, _⟩ := createConfigPlaintext_ok h
      exact .create hrow
  | update userID configID patch pc => exact updateStep_commits env patch pc
  | delete userID configID =>
    simp only [step]
    split
    · exact .idle
    · exact .delete ‹_›
  | get | list | count | done => exact .idle

end

end TabbySync.Encrypted
