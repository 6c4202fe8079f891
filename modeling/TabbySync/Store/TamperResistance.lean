import TabbySync.Library.Interleaving
import TabbySync.Store.Encrypted

/-! # Reads under an adversary with the database file

Calls of the encrypted store run next to an adversary that may replace the whole table
between any two of their steps: by rows with other ciphertexts and nonces, with pairs
copied from anywhere, with new rows for any user. Authenticated encryption is ideal: it
opens what was sealed before, and nothing else. A log keeps everything that was sealed;
associated data names user and row, so what opens for a row was sealed for that row. -/

namespace TabbySync.TamperResistance
open TabbySync.Library TabbySync.Crypto TabbySync.Encrypted
open TabbySync.Sqlite hiding Session Result

/-! ## Ideal authenticated encryption -/

/-- One call of Seal, with what it returned. -/
structure Sealed where
  key : Bytes
  nonce : Bytes
  plaintext : Bytes
  aad : Bytes
  ciphertext : Bytes
  deriving DecidableEq

/-- Open is given everything sealed so far and succeeds only on that. -/
structure IdealAead where
  gcmSeal : (key nonce plaintext aad : Bytes) → Bytes
  gcmOpen : (log : List Sealed) → (key nonce ciphertext aad : Bytes) → Option Bytes
  authentic : ∀ log key nonce ct aad pt, gcmOpen log key nonce ct aad = some pt →
    ⟨key, nonce, pt, aad, ct⟩ ∈ log

section
variable (A : IdealAead) (hkdf : Bytes → String → Bytes) (masterKey : Bytes)

/-- The primitives at a moment of a run. -/
def primitives (log : List Sealed) : Primitives where
  hkdf := hkdf
  gcmSeal := A.gcmSeal
  gcmOpen := A.gcmOpen log

/-! ## Calls and the adversary -/

/-- The content that the next step of a call passes to `Encrypt`, with the ids it does
so for: a create once its id is reserved, whether or not it commits; an update at its
write, if the content differs from what it read. -/
def encrypts (t : Configs) : Session → Option (Int64 × Int64 × Bytes)
  | .create userID inp =>
    if t.last < t.last + 1 then some (userID, t.last + 1, inp.content) else none
  | .update userID configID patch (.writing current) =>
    if contentChanged patch current then patch.content.map fun pt => (userID, configID, pt)
    else none
  | _ => none

/-- The record of an `Encrypt` for the given ids. -/
def sealing (userID configID : Int64) (pt : Bytes) (nonce : Nonce) : Sealed where
  key := hkdf masterKey (hkdfInfo userID)
  nonce := nonce
  plaintext := pt
  aad := buildAAD userID configID
  ciphertext := A.gcmSeal (hkdf masterKey (hkdfInfo userID)) nonce pt (buildAAD userID configID)

/-- The table, and everything sealed so far. -/
structure Vault where
  table : Configs
  log : List Sealed

inductive Party
  | call (s : Session)
  | adversary

/-- What the environment hands a step; `tampered` is the table the adversary puts in
place when the step is its own. -/
structure Turn where
  env : Env
  tampered : Configs

/-- The seals of a call's next step. -/
def sealsOf (env : Env) (t : Configs) (s : Session) : List Sealed :=
  if masterKey.length = keySize then
    (encrypts t s).toList.map fun e => sealing A hkdf masterKey e.1 e.2.1 e.2.2 env.nonce
  else []

def step (turn : Turn) (v : Vault) : Party → Vault × Party
  | .call s =>
    let r := s.step (primitives A hkdf v.log) masterKey turn.env v.table
    (⟨r.1, v.log ++ sealsOf A hkdf masterKey turn.env v.table s⟩, .call r.2)
  | .adversary => (⟨turn.tampered, v.log⟩, .adversary)

end

section
variable {A : IdealAead} {hkdf : Bytes → String → Bytes} {masterKey : Bytes}

/-! ## The log is complete

A step takes from Seal what the log records, and nothing else: under another Seal that
agrees on the recorded arguments it does the same. -/

theorem buildCreate_seals_only {log : List Sealed} {nonce : Nonce} {userID configID : Int64}
    {inp : CreateConfigPlaintextInput} {seal' : Bytes → Bytes → Bytes → Bytes → Bytes}
    (h : A.gcmSeal (hkdf masterKey (hkdfInfo userID)) nonce inp.content (buildAAD userID configID) =
      seal' (hkdf masterKey (hkdfInfo userID)) nonce inp.content (buildAAD userID configID)) :
    buildCreate (primitives A hkdf log) masterKey userID inp nonce configID =
      buildCreate ⟨hkdf, seal', A.gcmOpen log⟩ masterKey userID inp nonce configID := by
  by_cases hk : masterKey.length = keySize
  · simp only [buildCreate, encrypt_eq hk, primitives, h]
  · simp [buildCreate, encrypt, deriveSubkey, hk]

theorem changedPatch_seals_only {log : List Sealed} {nonce : Nonce} {userID configID : Int64}
    {patch : UpdateConfigPlaintextPatch} {current : ConfigWithPlaintext}
    {seal' : Bytes → Bytes → Bytes → Bytes → Bytes}
    (h : ∀ pt, contentChanged patch current = true → patch.content = some pt →
      A.gcmSeal (hkdf masterKey (hkdfInfo userID)) nonce pt (buildAAD userID configID) =
        seal' (hkdf masterKey (hkdfInfo userID)) nonce pt (buildAAD userID configID)) :
    changedPatch (primitives A hkdf log) masterKey nonce userID configID patch current =
      changedPatch ⟨hkdf, seal', A.gcmOpen log⟩ masterKey nonce userID configID patch current := by
  unfold changedPatch
  simp only
  split
  · rename_i content hchanged hcontent
    by_cases hk : masterKey.length = keySize
    · simp only [encrypt_eq hk, primitives, h content hchanged hcontent]
    · simp [encrypt, deriveSubkey, hk]
  · rfl

/-- A step seals nothing but what `encrypts` says: replacing the sealing function everywhere
else does not show. So the log misses no ciphertext of the store. -/
theorem step_seals_only {log : List Sealed} {env : Env} {t : Configs} {s : Session}
    {seal' : Bytes → Bytes → Bytes → Bytes → Bytes}
    (h : ∀ userID configID pt, encrypts t s = some (userID, configID, pt) →
      A.gcmSeal (hkdf masterKey (hkdfInfo userID)) env.nonce pt (buildAAD userID configID) =
        seal' (hkdf masterKey (hkdfInfo userID)) env.nonce pt (buildAAD userID configID)) :
    s.step (primitives A hkdf log) masterKey env t =
      s.step ⟨hkdf, seal', A.gcmOpen log⟩ masterKey env t := by
  cases s with
  | create userID inp =>
    simp only [Encrypted.Session.step, createConfigPlaintext]
    by_cases hlt : t.last < t.last + 1
    · -- the builder is called with the reserved id alone
      have hbuild : buildCreate (primitives A hkdf log) masterKey userID inp env.nonce (t.last + 1) =
          buildCreate ⟨hkdf, seal', A.gcmOpen log⟩ masterKey userID inp env.nonce (t.last + 1) :=
        buildCreate_seals_only (h userID (t.last + 1) inp.content (by simp [encrypts, hlt]))
      rw [createConfigWithID_eq hlt, createConfigWithID_eq hlt, hbuild]
    · simp [createConfigWithID, Sqlite.insert, hlt]
  | update userID configID patch pc =>
    cases pc with
    | writing current =>
      have hpatch : changedPatch (primitives A hkdf log) masterKey env.nonce userID configID patch
          current = changedPatch ⟨hkdf, seal', A.gcmOpen log⟩ masterKey env.nonce userID configID
          patch current := by
        refine changedPatch_seals_only fun pt hchanged hcontent => ?_
        exact h userID configID pt (by simp [encrypts, hchanged, hcontent])
      simp only [Encrypted.Session.step, updateStep, innerPatch, hpatch]
    | reading | reloading | returning => rfl
  | get | list | delete | count | done => rfl

/-! ## What opens was sealed for the row -/

variable {ι : Type} [DecidableEq ι]

/-- A call of the run passed this content to `Encrypt` for this user and row. -/
def Given (A : IdealAead) (hkdf : Bytes → String → Bytes) (masterKey : Bytes)
    (s₀ : Pool Vault ι Party) (events : List (ι × Turn)) (userID configID : Int64) (pt : Bytes) :
    Prop :=
  ∃ before ev after s, events = before ++ ev :: after ∧
    (Pool.run (step A hkdf masterKey) s₀ before).procs ev.1 = .call s ∧
    encrypts (Pool.run (step A hkdf masterKey) s₀ before).shared.table s =
      some (userID, configID, pt)

variable {s₀ : Pool Vault ι Party} {events : List (ι × Turn)} {userID configID : Int64}

theorem Given.append {pt : Bytes} (h : Given A hkdf masterKey s₀ events userID configID pt)
    (later : List (ι × Turn)) :
    Given A hkdf masterKey s₀ (events ++ later) userID configID pt := by
  obtain ⟨before, ev, after, s, rfl, hproc, henc⟩ := h
  exact ⟨before, ev, after ++ later, s, by simp, hproc, henc⟩

theorem mem_sealsOf {env : Env} {t : Configs} {s : Session} {r : Sealed}
    (h : r ∈ sealsOf A hkdf masterKey env t s) :
    ∃ userID configID pt, encrypts t s = some (userID, configID, pt) ∧
      r = sealing A hkdf masterKey userID configID pt env.nonce := by
  unfold sealsOf at h
  split at h
  · obtain ⟨e, he, rfl⟩ := List.mem_map.mp h
    exact ⟨e.1, e.2.1, e.2.2, Option.mem_toList.mp he, rfl⟩
  · cases h

/-- Everything in the log was sealed by a call of the run. -/
theorem log_given (hlog : s₀.shared.log = []) {r : Sealed}
    (h : r ∈ (Pool.run (step A hkdf masterKey) s₀ events).shared.log) :
    ∃ userID configID pt nonce, Given A hkdf masterKey s₀ events userID configID pt ∧
      r = sealing A hkdf masterKey userID configID pt nonce := by
  -- by the last step of the run
  induction events using List.reverseRecOn with
  | nil =>
    rw [show (Pool.run (step A hkdf masterKey) s₀ []).shared.log = [] from hlog] at h
    cases h
  | append_singleton before ev ih =>
    have hold : r ∈ (Pool.run (step A hkdf masterKey) s₀ before).shared.log →
        ∃ userID configID pt nonce,
          Given A hkdf masterKey s₀ (before ++ [ev]) userID configID pt ∧
          r = sealing A hkdf masterKey userID configID pt nonce := by
      intro hr
      obtain ⟨userID, configID, pt, nonce, hgiven, hr⟩ := ih hr
      exact ⟨userID, configID, pt, nonce, hgiven.append [ev], hr⟩
    rw [Pool.run_append] at h
    change r ∈ (step A hkdf masterKey ev.2 _ _).1.log at h
    cases hproc : (Pool.run (step A hkdf masterKey) s₀ before).procs ev.1 with
    | adversary =>
      rw [hproc] at h
      exact hold h
    | call s =>
      rw [hproc] at h
      rcases List.mem_append.mp h with hr | hr
      · exact hold hr
      · obtain ⟨userID, configID, pt, henc, hr⟩ := mem_sealsOf hr
        exact ⟨userID, configID, pt, ev.2.env.nonce, ⟨before, ev, [], s, rfl, hproc, henc⟩, hr⟩

theorem decrypt_given (hlog : s₀.shared.log = []) {ct n pt : Bytes}
    (h : decrypt (primitives A hkdf (Pool.run (step A hkdf masterKey) s₀ events).shared.log)
      masterKey userID configID ct n = .ok pt) :
    Given A hkdf masterKey s₀ events userID configID pt := by
  have hmem := A.authentic _ _ _ _ _ _ (decrypt_ok h)
  obtain ⟨userID', configID', pt', nonce, hgiven, hr⟩ := log_given hlog hmem
  obtain ⟨huser, hconfig⟩ := buildAAD_injective (congrArg Sealed.aad hr)
  have hpt : pt = pt' := congrArg Sealed.plaintext hr
  rw [huser, hconfig, hpt]
  exact hgiven

/-! ## Get and List -/

/-- What the reads of a state return. A content they return was given to a create or an
update of the run, which encrypted it for that very user and row. -/
structure AuthenticReads (A : IdealAead) (hkdf : Bytes → String → Bytes) (masterKey : Bytes)
    (s₀ : Pool Vault ι Party) (events : List (ι × Turn)) (v : Vault) : Prop where
  get : ∀ userID configID cfg,
    getConfigPlaintext (primitives A hkdf v.log) masterKey v.table userID configID = .ok cfg →
    cfg.id = configID ∧ cfg.userID = userID ∧
      Given A hkdf masterKey s₀ events userID configID cfg.content
  /-- A list has all rows of the user, one result for each, by ascending id. -/
  list : ∀ userID cfgs,
    listConfigsByUserPlaintext (primitives A hkdf v.log) masterKey v.table userID = .ok cfgs →
    List.Forall₂ (fun r cfg => cfg.id = r.id ∧ cfg.userID = userID ∧ cfg.name = r.name ∧
        Given A hkdf masterKey s₀ events userID r.id cfg.content)
      (v.table.select (ownedBy userID)) cfgs ∧
    cfgs.Pairwise fun a b => a.id < b.id
  /-- A list that fails has not opened a row, or could not read the timestamps of one. -/
  listError : ∀ userID e,
    listConfigsByUserPlaintext (primitives A hkdf v.log) masterKey v.table userID = .error e →
    e = .errDecrypt ∨ ∃ r ∈ v.table.rows, r.userID = userID ∧ scanConfig r = .error e

theorem openRow_error {P : Primitives} {row : Config} {e : GoError}
    (h : openRow P masterKey userID configID row = .error e) : e = .errDecrypt := by
  unfold openRow at h
  split at h
  · cases h
    rfl
  · cases h

theorem forall₂_trans {α β γ : Type} {R : α → β → Prop} {S : β → γ → Prop} {T : α → γ → Prop}
    (h : ∀ a b c, R a b → S b c → T a c) {as : List α} {bs : List β} {cs : List γ}
    (hR : List.Forall₂ R as bs) (hS : List.Forall₂ S bs cs) : List.Forall₂ T as cs := by
  induction hR generalizing cs with
  | nil =>
    cases hS
    exact .nil
  | cons hab _ ih =>
    cases hS with
    | cons hbc hrest => exact .cons (h _ _ _ hab hbc) (ih hrest)

/-- A listed row, from the table to the caller. -/
theorem list_rows {P : Primitives} {t : Configs} {cfgs : List ConfigWithPlaintext}
    (h : listConfigsByUserPlaintext P masterKey t userID = .ok cfgs) :
    List.Forall₂ (fun r cfg => r.userID = userID ∧ ∃ pt c m, cfg = toPlaintext (r.toConfig c m) pt ∧
        decrypt P masterKey userID r.id r.contentCiphertext r.contentNonce = .ok pt)
      (t.select (ownedBy userID)) cfgs := by
  unfold listConfigsByUserPlaintext at h
  split at h
  · cases h
  · rename_i rows hrows
    refine (List.forall₂_and_left _ _).mpr ⟨fun r hr => ?_, ?_⟩
    · exact ownedBy_iff.mp (AutoTable.mem_select.mp hr).2
    · refine forall₂_trans ?_ (forall₂_of_mapM_ok hrows) (forall₂_of_mapM_ok h)
      intro r row cfg hscan hopen
      obtain ⟨pt, hpt, rfl⟩ := openRow_ok hopen
      obtain ⟨_, _, hrow⟩ := scanConfig_ok.mp hscan
      rw [hrow] at hpt ⊢
      exact ⟨pt, _, _, rfl, hpt⟩

/-- Results that have the ids of the rows come in the order of the rows. -/
theorem ascending_of_rows {t : Configs} {p : Row → Bool} {cfgs : List ConfigWithPlaintext}
    (h : List.Forall₂ (fun r cfg => cfg.id = r.id) (t.select p) cfgs) :
    cfgs.Pairwise fun a b => a.id < b.id := by
  have hids : cfgs.map (fun cfg => cfg.id) = (t.select p).map Row.id := by
    generalize t.select p = rows at h
    induction h with
    | nil => rfl
    | cons hid _ ih => rw [List.map_cons, List.map_cons, hid, ih]
  have hsorted : (t.select p).Pairwise fun a b => a.id < b.id := t.sorted.filter p
  rw [← List.pairwise_map (f := Row.id), ← hids] at hsorted
  exact List.pairwise_map.mp hsorted

/-- Whatever the adversary does to the table, in every state of every run that begins
with nothing sealed the reads are authentic. -/
theorem reads_authentic (A : IdealAead) (hkdf : Bytes → String → Bytes) (masterKey : Bytes)
    (s₀ : Pool Vault ι Party) (hlog : s₀.shared.log = []) (events : List (ι × Turn)) :
    AuthenticReads A hkdf masterKey s₀ events
      (Pool.run (step A hkdf masterKey) s₀ events).shared where
  get := by
    intro userID configID cfg h
    obtain ⟨row, pt, hrow, hpt, rfl⟩ := getConfigPlaintext_ok h
    obtain ⟨r, _, hid, hu, hscan⟩ := getConfig_ok.mp hrow
    obtain ⟨_, _, hcfg⟩ := scanConfig_ok.mp hscan
    refine ⟨?_, ?_, decrypt_given hlog hpt⟩
    · rw [hcfg]
      exact hid
    · rw [hcfg]
      exact hu
  list := by
    intro userID cfgs h
    have hrows := list_rows h
    refine ⟨hrows.imp ?_, ascending_of_rows (hrows.imp ?_)⟩
    · rintro r cfg ⟨hu, pt, c, m, rfl, hpt⟩
      exact ⟨rfl, hu, rfl, decrypt_given hlog hpt⟩
    · rintro r cfg ⟨_, pt, c, m, rfl, _⟩
      rfl
  listError := by
    intro userID e h
    unfold listConfigsByUserPlaintext at h
    split at h
    · rename_i e' hlist
      cases h
      obtain ⟨r, hr, hscan⟩ := mapM_error hlist
      obtain ⟨hmem, hu⟩ := AutoTable.mem_select.mp hr
      exact .inr ⟨r, hmem, ownedBy_iff.mp hu, hscan⟩
    · obtain ⟨row, _, hopen⟩ := mapM_error h
      exact .inl (openRow_error hopen)

end

/-! ## Runs

Users 1 and 2 create a row each. -/

/-- The ideal functionality itself: Open looks the ciphertext up in the log. -/
def logAead : IdealAead where
  gcmSeal := transparent.gcmSeal
  gcmOpen log key nonce ct aad :=
    (log.find? fun r => r.key = key ∧ r.nonce = nonce ∧ r.aad = aad ∧ r.ciphertext = ct).map
      Sealed.plaintext
  authentic log key nonce ct aad pt h := by
    obtain ⟨r, hr, rfl⟩ := Option.map_eq_some_iff.mp h
    have hmatch := List.find?_some hr
    simp only [decide_eq_true_eq] at hmatch
    obtain ⟨rfl, rfl, rfl, rfl⟩ := hmatch
    exact List.mem_of_find?_eq_some hr

def vaultKey : Bytes := List.replicate 32 7

def parties : Pool Vault (Fin 3) Party where
  shared := ⟨AutoTable.empty 0, []⟩
  procs
    | 0 => .call (.create 1 ⟨"a", [5], ""⟩)
    | 1 => .call (.create 2 ⟨"b", [6], ""⟩)
    | 2 => .adversary

def vaultAfter (events : List (Fin 3 × Turn)) : Vault :=
  (Pool.run (step logAead transparent.hkdf vaultKey) parties events).shared

/-- Both creates; the adversary's table plays no part in them. -/
def creates : List (Fin 3 × Turn) :=
  Pool.schedule [(0, ⟨envAt 0, AutoTable.empty 0⟩), (1, ⟨envAt 0, AutoTable.empty 0⟩)]

/-- The adversary puts the pair of row 2 into row 1. -/
def swapped : Configs :=
  (vaultAfter creates).table.update (owned 1 1)
    (fun r => match (vaultAfter creates).table.find (owned 2 2) with
      | none => r
      | some r' => { r with contentCiphertext := r'.contentCiphertext
                            contentNonce := r'.contentNonce })
    fun _ => by split <;> rfl

def swap : List (Fin 3 × Turn) := creates ++ Pool.schedule [(2, ⟨envAt 0, swapped⟩)]

/-- After the swap row 1 no longer opens, and row 2 opens to what user 2 gave. -/
theorem reads_authentic_swap :
    getConfigPlaintext (primitives logAead transparent.hkdf (vaultAfter swap).log) vaultKey
      (vaultAfter swap).table 1 1 = .error .errDecrypt ∧
    getConfigPlaintext (primitives logAead transparent.hkdf (vaultAfter swap).log) vaultKey
      (vaultAfter swap).table 2 2 = .ok ⟨2, 2, "b", [6], "", 0, 1000000⟩ ∧
    Given logAead transparent.hkdf vaultKey parties swap 2 2 [6] := by
  have hget : getConfigPlaintext (primitives logAead transparent.hkdf (vaultAfter swap).log)
      vaultKey (vaultAfter swap).table 2 2 = .ok ⟨2, 2, "b", [6], "", 0, 1000000⟩ := by
    decide +kernel
  exact ⟨by decide +kernel, hget,
    ((reads_authentic logAead transparent.hkdf vaultKey parties rfl swap).get 2 2 _ hget).2.2⟩

/-- A row of user 1 with a timestamp that is none. -/
def undatedRow : Row where
  id := 1
  userID := 1
  name := "a"
  contentCiphertext := []
  contentNonce := []
  lastUsedWithVersion := none
  createdAt := "never"
  modifiedAt := "never"

/-- The adversary inserts it, and the list of user 1 fails before anything is opened,
with the error of the timestamp. -/
theorem undated_row_fails_list :
    listConfigsByUserPlaintext (primitives logAead transparent.hkdf (vaultAfter
        [(2, ⟨envAt 0, (AutoTable.empty 0).insert undatedRow⟩)]).log) vaultKey
      (vaultAfter [(2, ⟨envAt 0, (AutoTable.empty 0).insert undatedRow⟩)]).table 1 =
        .error (.wrap "sqlite: parse created_at" (errParse "never")) ∧
    GoError.wrap "sqlite: parse created_at" (errParse "never") ≠ .errDecrypt := by
  decide +kernel

end TabbySync.TamperResistance
