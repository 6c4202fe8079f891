import TabbySync.Library.Interleaving
import TabbySync.Store.Encrypted

/-! # `modified_at` as a version token

Any number of clients call `sqlite.Store` and `encrypted.Store` at once, under a
clock that may stall or run backwards. Every write path either leaves a row's name,
ciphertext and nonce alone or gives the row a later `modified_at`, and ids are never
handed out twice; so an unchanged `modified_at` vouches for an unchanged row, which is
what the compare-and-set of a metadata-only update rests on. -/

namespace TabbySync.VersionToken
open TabbySync.Library TabbySync.Library.Rfc3339 TabbySync.Sqlite TabbySync.Crypto
open TabbySync.Encrypted (Env toPlaintext getConfigPlaintext listConfigsByUserPlaintext)

/-! ## What a row can become -/

/-- The columns the token stands for are as they were, and so is the token. -/
def SameVersion (r r' : Row) : Prop :=
  r'.name = r.name ∧ r'.contentCiphertext = r.contentCiphertext ∧
    r'.contentNonce = r.contentNonce ∧ r'.modifiedAt = r.modifiedAt

/-- The token was readable and has moved on. -/
def Bumped (r r' : Row) : Prop :=
  ∃ old, parse r.modifiedAt = some old ∧ ∀ new, parse r'.modifiedAt = some new → old < new

/-- `r'` is the row `r` at a later time. -/
structure RowEvolves (r r' : Row) : Prop where
  id : r'.id = r.id
  userID : r'.userID = r.userID
  createdAt : r'.createdAt = r.createdAt
  token : SameVersion r r' ∨ Bumped r r'

theorem RowEvolves.refl (r : Row) : RowEvolves r r :=
  ⟨rfl, rfl, rfl, .inl ⟨rfl, rfl, rfl, rfl⟩⟩

theorem RowEvolves.trans {a b c : Row} (hab : RowEvolves a b) (hbc : RowEvolves b c) :
    RowEvolves a c := by
  refine ⟨hbc.id.trans hab.id, hbc.userID.trans hab.userID, hbc.createdAt.trans hab.createdAt, ?_⟩
  rcases hab.token with ⟨hn, hc, hx, hm⟩ | ⟨old, hold, hnew⟩
  · rcases hbc.token with ⟨hn', hc', hx', hm'⟩ | hbump
    · exact .inl ⟨hn'.trans hn, hc'.trans hc, hx'.trans hx, hm'.trans hm⟩
    · exact .inr (by simpa only [Bumped, hm] using hbump)
  · right
    refine ⟨old, hold, fun new hc => ?_⟩
    rcases hbc.token with ⟨_, _, _, hm'⟩ | ⟨mid, hmid, hlast⟩
    · exact hnew new (hm' ▸ hc)
    · exact (hnew mid hmid).trans (hlast new hc)

/-- A readable token never goes back. -/
theorem RowEvolves.modifiedAt_le {r r' : Row} (h : RowEvolves r r') {m m' : Int}
    (hm : parse r.modifiedAt = some m) (hm' : parse r'.modifiedAt = some m') : m ≤ m' := by
  rcases h.token with ⟨_, _, _, hsame⟩ | ⟨old, hold, hnew⟩
  · rw [hsame, hm] at hm'
    exact le_of_eq (Option.some.inj hm')
  · rw [hold] at hm
    exact Option.some.inj hm ▸ le_of_lt (hnew m' hm')

/-- An equal readable token vouches for the columns. -/
theorem RowEvolves.same_of_modifiedAt {r r' : Row} (h : RowEvolves r r') {m : Int}
    (hm : parse r.modifiedAt = some m) (hm' : parse r'.modifiedAt = some m) :
    SameVersion r r' := by
  rcases h.token with hsame | ⟨old, hold, hnew⟩
  · exact hsame
  · rw [hold] at hm
    exact absurd (hnew m hm') (by rw [Option.some.inj hm]; exact lt_irrefl m)

/-! ## What a table can become -/

/-- Every row is an old row at a later time, or carries an id that was never used. -/
structure Evolves (t t' : Configs) : Prop where
  last : t.last ≤ t'.last
  row : ∀ r' ∈ t'.rows, t.last < r'.id ∨ ∃ r ∈ t.rows, RowEvolves r r'

theorem Evolves.refl (t : Configs) : Evolves t t :=
  ⟨le_refl _, fun r hr => .inr ⟨r, hr, .refl r⟩⟩

theorem Evolves.trans {a b c : Configs} (hab : Evolves a b) (hbc : Evolves b c) :
    Evolves a c := by
  refine ⟨hab.last.trans hbc.last, fun r'' hr'' => ?_⟩
  rcases hbc.row r'' hr'' with hfresh | ⟨r', hr', hrow'⟩
  · exact .inl (lt_of_le_of_lt hab.last hfresh)
  · rcases hab.row r' hr' with hfresh | ⟨r, hr, hrow⟩
    · exact .inl (hrow'.id ▸ hfresh)
    · exact .inr ⟨r, hr, hrow.trans hrow'⟩

/-- One id is one row, at both ends. -/
theorem Evolves.of_id {t t' : Configs} (h : Evolves t t') {r r' : Row} (hr : r ∈ t.rows)
    (hr' : r' ∈ t'.rows) (hid : r'.id = r.id) : RowEvolves r r' := by
  rcases h.row r' hr' with hfresh | ⟨a, ha, hrow⟩
  · exact absurd hfresh (not_lt_of_ge (hid ▸ t.bounded r hr))
  · have : a = r := t.key_inj ha hr (hrow.id.symm.trans hid)
    exact this ▸ hrow

theorem evolves_insert {t : Configs} {r : Row} (h : t.last < r.id) : Evolves t (t.insert r) := by
  refine ⟨?_, fun r' hr' => ?_⟩
  · rw [AutoTable.last_insert h]; exact le_of_lt h
  · rcases (AutoTable.mem_insert h).mp hr' with hold | rfl
    · exact .inr ⟨r', hold, .refl r'⟩
    · exact .inl h

/-- What an update does to its row: a new stamp, or the version column alone. -/
theorem patchedRow_evolves {patch : UpdateConfigPatch} {now old : Int} {r : Row}
    (hval : validatePatch patch = .ok ()) (hold : parse r.modifiedAt = some old) :
    RowEvolves r (patchedRow patch now old r) := by
  refine ⟨rfl, rfl, rfl, ?_⟩
  cases hp : patch.preserveModifiedAt with
  | true =>
    obtain ⟨hname, hcipher⟩ := validatePatch_preserve hval hp
    left
    simp [SameVersion, patchedRow, hp, hname, hcipher]
  | false =>
    refine .inr ⟨old, hold, fun new hnew => ?_⟩
    have hstamp : (patchedRow patch now old r).modifiedAt = format (nextModifiedAt now old) := by
      simp [patchedRow, hp]
    rw [hstamp] at hnew
    rw [eq_of_parse_format hnew]
    exact lt_nextModifiedAt now old

theorem evolves_update {t t' : Configs} {now : Int} {userID configID : Int64}
    {patch : UpdateConfigPatch} (h : updateConfigTx t now userID configID patch = .ok t') :
    Evolves t t' := by
  obtain ⟨row, old, hmem, hid, -, hold, hval, -, rfl⟩ := updateConfigTx_ok h
  refine ⟨le_refl _, fun r' hr' => .inr ?_⟩
  obtain ⟨a, ha, _, rfl | ⟨hsel, rfl⟩⟩ := AutoTable.mem_update_key hr'
  · exact ⟨r', ha, .refl r'⟩
  · have : a = row := t.key_inj ha hmem ((owned_iff.mp hsel).1.trans hid.symm)
    subst this
    exact ⟨a, ha, patchedRow_evolves hval hold⟩

theorem commits_evolves {t t' : Configs} (h : Commits t t') : Evolves t t' := by
  cases h with
  | idle => exact .refl t
  | insert h =>
    obtain ⟨r, hlt, rfl, _⟩ := createConfigInsert_ok h
    exact evolves_insert hlt
  | create h =>
    obtain ⟨_, _, hlt, _, _, _, _, rfl⟩ := createConfigWithID_ok h
    exact evolves_insert hlt
  | update h => exact evolves_update h
  | delete h =>
    rw [deleteConfig_ok h]
    exact ⟨le_refl _, fun r hr => .inr ⟨r, (AutoTable.mem_delete.mp hr).1, .refl r⟩⟩

/-! ## Clients -/

/-- A call in flight, on either store. -/
inductive Client
  | raw (s : Sqlite.Session)
  | enc (s : Encrypted.Session)

section
variable (P : Primitives) (masterKey : Bytes)

def Client.step (env : Env) (t : Configs) : Client → Configs × Client
  | .raw s => ((s.step env.now env.now' t).1, .raw (s.step env.now env.now' t).2)
  | .enc s => ((s.step P masterKey env t).1, .enc (s.step P masterKey env t).2)

/-- The `UpdateConfig` transaction the next step of a client opens. -/
def Client.updating (env : Env) : Client → Option (Int64 × Int64 × UpdateConfigPatch)
  | .raw (.updateConfig userID configID patch) => some (userID, configID, patch)
  | .enc (.update userID configID patch (.writing current)) =>
    match Encrypted.innerPatch P masterKey env.nonce userID configID patch current with
    | .ok inner => some (userID, configID, inner)
    | .error _ => none
  | _ => none

end

/-- The next step of a client is the transaction of `CreateConfigWithID`. -/
def Client.creating : Client → Bool
  | .raw (.createConfigWithID _ _) => true
  | .enc (.create _ _) => true
  | _ => false

/-- The SET list assigns `name`, `content_ciphertext` or `content_nonce`. -/
def writesVersioned (patch : UpdateConfigPatch) : Bool := patch.name.isSome || hasCipher patch

/-- A row as a get or a list by its owner returns it. -/
def Reads (t : Configs) (userID configID : Int64) (cfg : Config) : Prop :=
  getConfig t userID configID = .ok cfg ∨
    ∃ cfgs, listConfigsByUser t userID = .ok cfgs ∧ cfg ∈ cfgs ∧ cfg.id = configID

def ReadsPlaintext (P : Primitives) (masterKey : Bytes) (t : Configs) (userID configID : Int64)
    (cfg : ConfigWithPlaintext) : Prop :=
  getConfigPlaintext P masterKey t userID configID = .ok cfg ∨
    ∃ cfgs, listConfigsByUserPlaintext P masterKey t userID = .ok cfgs ∧ cfg ∈ cfgs ∧
      cfg.id = configID

theorem Reads.row {t : Configs} {userID configID : Int64} {cfg : Config}
    (h : Reads t userID configID cfg) :
    ∃ r ∈ t.rows, r.id = configID ∧ r.userID = userID ∧ scanConfig r = .ok cfg := by
  rcases h with hget | ⟨cfgs, hlist, hmem, hid⟩
  · exact getConfig_ok.mp hget
  · obtain ⟨r, hr, hu, hs⟩ := listConfigsByUser_ok hlist hmem
    refine ⟨r, hr, ?_, hu, hs⟩
    rw [(scanConfig_ok.mp hs).2.2] at hid
    exact hid

section
variable {P : Primitives} {masterKey : Bytes}

theorem ReadsPlaintext.reads {t : Configs} {userID configID : Int64} {cfg : ConfigWithPlaintext}
    (h : ReadsPlaintext P masterKey t userID configID cfg) :
    ∃ row pt, Reads t userID configID row ∧
      decrypt P masterKey userID configID row.contentCiphertext row.contentNonce = .ok pt ∧
      cfg = toPlaintext row pt := by
  rcases h with hget | ⟨cfgs, hlist, hmem, hid⟩
  · obtain ⟨row, pt, hrow, hpt, hcfg⟩ := Encrypted.getConfigPlaintext_ok hget
    exact ⟨row, pt, .inl hrow, hpt, hcfg⟩
  · unfold listConfigsByUserPlaintext at hlist
    split at hlist
    · cases hlist
    · rename_i rows hrows
      obtain ⟨row, hrow, hopen⟩ := mem_of_mapM_ok hlist cfg hmem
      obtain ⟨pt, hpt, hcfg⟩ := Encrypted.openRow_ok hopen
      have hrid : row.id = configID := by
        rw [hcfg] at hid
        exact hid
      rw [hrid] at hpt
      exact ⟨row, pt, .inr ⟨rows, hrows, hrow, hrid⟩, hpt, hcfg⟩

theorem Client.step_commits (env : Env) (t : Configs) (c : Client) :
    Commits t (c.step P masterKey env t).1 := by
  cases c with
  | raw s => exact Sqlite.Session.step_commits env.now env.now' t s
  | enc s => exact Encrypted.Session.step_commits env s

/-- A client about to update commits exactly that transaction. -/
theorem Client.step_updating {env : Env} {t t' : Configs} {c : Client} {userID configID : Int64}
    {patch : UpdateConfigPatch}
    (hc : c.updating P masterKey env = some (userID, configID, patch))
    (h : updateConfigTx t env.now userID configID patch = .ok t') :
    (c.step P masterKey env t).1 = t' := by
  unfold updating at hc
  split at hc
  · cases hc
    simp [step, Sqlite.Session.step, h]
  · split at hc
    · rename_i inner hinner
      cases hc
      simp [step, Encrypted.Session.step, Encrypted.updateStep, hinner, h]
    · cases hc
  · cases hc

/-- A row that a `CreateConfigWithID` step adds is the one its transaction built. -/
theorem Client.step_creating {env : Env} {t : Configs} {c : Client} (hc : c.creating = true)
    {r : Row} (hr : r ∈ (c.step P masterKey env t).1.rows) (hnew : r ∉ t.rows) :
    ∃ id userID inp, r = builtRow id userID inp env.now env.now' := by
  have key : ∀ {userID : Int64} {build : Option CreateConfigInputBuilder} {cfg : Config}
      {t' : Configs}, createConfigWithID t env.now env.now' userID build = .ok (cfg, t') →
      r ∈ t'.rows → ∃ id userID inp, r = builtRow id userID inp env.now env.now' := by
    intro userID build cfg t' h hr
    obtain ⟨b, inp, hlt, _, _, _, _, rfl⟩ := createConfigWithID_ok h
    rcases (AutoTable.mem_insert hlt).mp hr with hold | rfl
    · exact absurd hold hnew
    · exact ⟨_, _, inp, rfl⟩
  unfold creating at hc
  split at hc
  · simp only [step, Sqlite.Session.step] at hr
    split at hr
    · exact absurd hr hnew
    · exact key ‹_› hr
  · simp only [step, Encrypted.Session.step] at hr
    split at hr
    · exact absurd hr hnew
    · rename_i h
      obtain ⟨row, hrow, _⟩ := Encrypted.createConfigPlaintext_ok h
      exact key hrow hr
  · cases hc

variable {ι : Type} [DecidableEq ι]

theorem run_evolves (s : Pool Configs ι Client) (es : List (ι × Env)) :
    Evolves s.shared (Pool.run (Client.step P masterKey) s es).shared :=
  Pool.run_shared_rel Evolves.refl (fun _ _ _ => Evolves.trans)
    (fun env t c => commits_evolves (c.step_commits env t)) s es

theorem fire_evolves (s : Pool Configs ι Client) (ev : ι × Env) :
    Evolves s.shared (Pool.fire (Client.step P masterKey) s ev).shared :=
  run_evolves s [ev]

/-- A committed update that writes a versioned column gives its row a later stamp,
also where it writes the value that was there. -/
theorem update_bumps {t t' : Configs} {now : Int} {userID configID : Int64}
    {patch : UpdateConfigPatch} (h : updateConfigTx t now userID configID patch = .ok t')
    (hw : writesVersioned patch = true) {r r' : Row} (hr : r ∈ t.rows) (hr' : r' ∈ t'.rows)
    (hid : r.id = configID) (hid' : r'.id = configID) {m m' : Int}
    (hm : parse r.modifiedAt = some m) (hm' : parse r'.modifiedAt = some m') : m < m' := by
  obtain ⟨row, old, hmem, hrow, huser, hold, hval, -, rfl⟩ := updateConfigTx_ok h
  have hrr : r = row := t.key_inj hr hmem (hid.trans hrow.symm)
  subst hrr
  have hp : patch.preserveModifiedAt = false := by
    cases hp : patch.preserveModifiedAt with
    | false => rfl
    | true =>
      obtain ⟨hname, hcipher⟩ := validatePatch_preserve hval hp
      simp [writesVersioned, hname, hcipher] at hw
  have hpatched : r' = patchedRow patch now old r := by
    rw [AutoTable.eq_of_mem_update hr' hr (hid'.trans hid.symm),
      if_pos (owned_iff.mpr ⟨hid, huser⟩)]
  rw [hpatched] at hm'
  simp only [patchedRow, hp, Bool.false_eq_true, if_false] at hm'
  rw [eq_of_parse_format hm', Option.some.inj (hm.symm.trans hold)]
  exact lt_nextModifiedAt now old

/-- Reads of one row at two moments with one stamp saw one version. -/
theorem Evolves.reads_agree {t t' : Configs} (h : Evolves t t') {userID configID : Int64}
    {cfg cfg' : Config} (hr : Reads t userID configID cfg) (hr' : Reads t' userID configID cfg')
    (heq : cfg'.modifiedAt = cfg.modifiedAt) :
    cfg'.name = cfg.name ∧ cfg'.contentCiphertext = cfg.contentCiphertext ∧
      cfg'.contentNonce = cfg.contentNonce := by
  obtain ⟨r, hmem, hid, _, hs⟩ := hr.row
  obtain ⟨r', hmem', hid', _, hs'⟩ := hr'.row
  obtain ⟨_, hm, hcfg⟩ := scanConfig_ok.mp hs
  obtain ⟨_, hm', hcfg'⟩ := scanConfig_ok.mp hs'
  have hrow := h.of_id hmem hmem' (hid'.trans hid.symm)
  obtain ⟨hn, hc, hx, _⟩ := hrow.same_of_modifiedAt hm (heq ▸ hm')
  rw [hcfg, hcfg']
  exact ⟨hn, hc, hx⟩

/-- What `modified_at` promises from a state of the clients on. -/
structure SoundFrom (P : Primitives) (masterKey : Bytes) (s : Pool Configs ι Client) : Prop where
  /-- Whatever runs next, a row keeps its owner and `created_at`, and its `modified_at`
  does not decrease. -/
  stamps : ∀ es, ∀ r ∈ s.shared.rows,
    ∀ r' ∈ (Pool.run (Client.step P masterKey) s es).shared.rows, r'.id = r.id →
      r'.userID = r.userID ∧ r'.createdAt = r.createdAt ∧
        ∀ m m', parse r.modifiedAt = some m → parse r'.modifiedAt = some m' → m ≤ m'
  /-- A step that changes a versioned column moves `modified_at` on. -/
  changes : ∀ ev, ∀ r ∈ s.shared.rows,
    ∀ r' ∈ (Pool.fire (Client.step P masterKey) s ev).shared.rows, r'.id = r.id →
      (r'.name ≠ r.name ∨ r'.contentCiphertext ≠ r.contentCiphertext ∨
        r'.contentNonce ≠ r.contentNonce) →
      ∀ m m', parse r.modifiedAt = some m → parse r'.modifiedAt = some m' → m < m'
  /-- So does a committed update that writes one, changed or not. -/
  writes : ∀ i env userID configID patch t',
    (s.procs i).updating P masterKey env = some (userID, configID, patch) →
      updateConfigTx s.shared env.now userID configID patch = .ok t' →
      writesVersioned patch = true →
      (Pool.fire (Client.step P masterKey) s (i, env)).shared = t' ∧
        ∀ r ∈ s.shared.rows, ∀ r' ∈ t'.rows, r.id = configID → r'.id = configID →
          ∀ m m', parse r.modifiedAt = some m → parse r'.modifiedAt = some m' → m < m'
  /-- A row made by `CreateConfigWithID` is modified after it is created, then and later. -/
  created : ∀ i env es, (s.procs i).creating = true →
    ∀ r ∈ (Pool.fire (Client.step P masterKey) s (i, env)).shared.rows, r ∉ s.shared.rows →
      ∀ r' ∈ (Pool.run (Client.step P masterKey) s ((i, env) :: es)).shared.rows, r'.id = r.id →
        ∀ c m, parse r'.createdAt = some c → parse r'.modifiedAt = some m → c < m
  /-- Two reads with one stamp return one name, ciphertext and nonce. -/
  reads : ∀ es userID configID cfg cfg', Reads s.shared userID configID cfg →
    Reads (Pool.run (Client.step P masterKey) s es).shared userID configID cfg' →
      cfg'.modifiedAt = cfg.modifiedAt →
      cfg'.name = cfg.name ∧ cfg'.contentCiphertext = cfg.contentCiphertext ∧
        cfg'.contentNonce = cfg.contentNonce
  /-- Two plaintext reads with one stamp return one name and content. -/
  plaintexts : ∀ es userID configID cfg cfg', ReadsPlaintext P masterKey s.shared userID configID cfg →
    ReadsPlaintext P masterKey (Pool.run (Client.step P masterKey) s es).shared userID configID cfg' →
      cfg'.modifiedAt = cfg.modifiedAt → cfg'.name = cfg.name ∧ cfg'.content = cfg.content

/-- From every state of every run, `modified_at` is a sound version token. -/
theorem modifiedAt_sound (P : Primitives) (masterKey : Bytes) (s : Pool Configs ι Client) :
    SoundFrom P masterKey s where
  stamps := by
    intro es r hr r' hr' hid
    have hrow := (run_evolves s es).of_id hr hr' hid
    exact ⟨hrow.userID, hrow.createdAt, fun m m' => hrow.modifiedAt_le⟩
  changes := by
    intro ev r hr r' hr' hid hne m m' hm hm'
    rcases ((fire_evolves s ev).of_id hr hr' hid).token with ⟨hn, hc, hx, _⟩ | ⟨old, hold, hnew⟩
    · simp [hn, hc, hx] at hne
    · rw [← Option.some.inj (hold.symm.trans hm)]
      exact hnew m' hm'
  writes := by
    intro i env userID configID patch t' hup htx hw
    exact ⟨Client.step_updating hup htx, fun r hr r' hr' hid hid' m m' hm hm' =>
      update_bumps htx hw hr hr' hid hid' hm hm'⟩
  created := by
    intro i env es hc r hr hnew r' hr' hid c m hcm hmm
    obtain ⟨id, userID, inp, hbuilt⟩ := Client.step_creating hc hr hnew
    have hrow := (run_evolves (Pool.fire (Client.step P masterKey) s (i, env)) es).of_id hr hr' hid
    rw [hrow.createdAt, hbuilt] at hcm
    have hcnow : c = env.now := eq_of_parse_format hcm
    -- the stamp the transaction wrote is already later, and stamps do not go back
    have hlt := lt_nextModifiedAt env.now' env.now
    rcases hrow.token with ⟨_, _, _, hsame⟩ | ⟨old, hold, hlater⟩
    · rw [hsame, hbuilt] at hmm
      rw [hcnow, eq_of_parse_format hmm]
      exact hlt
    · rw [hbuilt] at hold
      have := hlater m hmm
      rw [eq_of_parse_format hold] at this
      rw [hcnow]
      exact hlt.trans this
  reads := by
    intro es userID configID cfg cfg' hr hr' heq
    exact (run_evolves s es).reads_agree hr hr' heq
  plaintexts := by
    intro es userID configID cfg cfg' hr hr' heq
    obtain ⟨row, pt, hread, hpt, rfl⟩ := hr.reads
    obtain ⟨row', pt', hread', hpt', rfl⟩ := hr'.reads
    obtain ⟨hn, hc, hx⟩ := (run_evolves s es).reads_agree hread hread' heq
    rw [hc, hx, hpt] at hpt'
    exact ⟨hn, (Except.ok.inj hpt').symm⟩

end

end TabbySync.VersionToken
