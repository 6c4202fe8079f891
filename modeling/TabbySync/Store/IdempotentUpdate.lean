import TabbySync.Store.VersionToken

/-! # Updates that repeat what they read

An `UpdateConfigPlaintext` whose patch repeats the name and content it read writes at
most the version column, and only if `modified_at` still is what it read. Among any
other clients this neither swallows nor overwrites a concurrent change. -/

namespace TabbySync.IdempotentUpdate
open TabbySync.Library TabbySync.Library.Rfc3339 TabbySync.Sqlite TabbySync.Crypto
open TabbySync.Encrypted TabbySync.VersionToken

section
variable {P : Primitives} {masterKey : Bytes} {userID configID : Int64}
variable {patch : UpdateConfigPlaintextPatch} {current : ConfigWithPlaintext}

/-- A row that shows what an update read: the stamp, the name and, opened, the content. -/
structure Shows (P : Primitives) (masterKey : Bytes) (userID configID : Int64)
    (current : ConfigWithPlaintext) (r : Row) : Prop where
  id : r.id = configID
  owner : r.userID = userID
  modifiedAt : parse r.modifiedAt = some current.modifiedAt
  name : r.name = current.name
  content : decrypt P masterKey userID configID r.contentCiphertext r.contentNonce =
    .ok current.content

/-- The row no longer has the name and content the update read. -/
def Differs (P : Primitives) (masterKey : Bytes) (userID configID : Int64)
    (current : ConfigWithPlaintext) (r : Row) : Prop :=
  r.name ≠ current.name ∨ decrypt P masterKey userID configID r.contentCiphertext
    r.contentNonce ≠ .ok current.content

/-- What a read has of its row. -/
theorem getConfigPlaintext_row {t : Configs}
    (hread : getConfigPlaintext P masterKey t userID configID = .ok current) :
    ∃ r, t.find (owned configID userID) = some r ∧
      Shows P masterKey userID configID current r ∧
      parse r.createdAt = some current.createdAt ∧ current =
        ⟨r.id, r.userID, r.name, current.content, r.lastUsedWithVersion.getD "",
          current.createdAt, current.modifiedAt⟩ := by
  obtain ⟨row, pt, hrow, hpt, rfl⟩ := getConfigPlaintext_ok hread
  obtain ⟨r, hr, hid, hu, hs⟩ := getConfig_ok.mp hrow
  obtain ⟨hc, hm, hcfg⟩ := scanConfig_ok.mp hs
  rw [hcfg] at hpt ⊢
  exact ⟨r, find_owned.mpr ⟨hr, hid, hu⟩, ⟨hid, hu, hm, rfl, hpt⟩, hc, rfl⟩

/-- What an update holds after its read is shown by its row. -/
theorem reading_shows {env : Env} {t : Configs}
    (h : (updateStep P masterKey env t userID configID patch .reading).2 =
      .update userID configID patch (.writing current)) :
    ∃ r ∈ t.rows, Shows P masterKey userID configID current r ∧
      r.lastUsedWithVersion.getD "" = current.lastUsedWithVersion := by
  have hnext := updateStep_next P masterKey env t userID configID patch .reading
  rw [h] at hnext
  cases hnext with
  | reads hread =>
    obtain ⟨r, hr, hshow, _, hcur⟩ := getConfigPlaintext_row hread
    exact ⟨r, (find_owned.mp hr).1, hshow, by rw [hcur]⟩

theorem updateStep_idempotent {env : Env} {t : Configs} (h : changed patch current = false) :
    updateStep P masterKey env t userID configID patch (.writing current) =
      match updateConfigTx t env.now userID configID (idempotentPatch patch current) with
      | .error e => (t, updateFailed userID configID patch true e)
      | .ok t' => (t', .update userID configID patch (.reloading true)) := by
  cases htx : updateConfigTx t env.now userID configID (idempotentPatch patch current) <;>
    simp [updateStep, innerPatch, h, htx]

/-- The compare-and-set against a row that is gone, unreadable or another version. -/
theorem idempotentTx_error {t : Configs} {now : Int}
    (h : ∀ r ∈ t.rows, r.id = configID → parse r.modifiedAt ≠ some current.modifiedAt) :
    updateConfigTx t now userID configID (idempotentPatch patch current) =
      .error (match t.find (owned configID userID) with
        | none => .errConfigNotFound
        | some r => match parse r.modifiedAt with
          | none => .wrap "sqlite: parse old modified_at" (errParse r.modifiedAt)
          | some _ => .errConfigChanged) := by
  rw [updateConfigTx, validatePatch_idempotent]
  cases hfind : t.find (owned configID userID) with
  | none => rfl
  | some r =>
    obtain ⟨hr, hid, _⟩ := find_owned.mp hfind
    cases hparse : parse r.modifiedAt with
    | none => simp only [hparse]
    | some old =>
      have hne : current.modifiedAt ≠ old := fun heq => h r hr hid (heq ▸ hparse)
      simp [hparse, idempotentPatch, hne]

/-- Once a row has had another name or content, its stamp is not the old one again. -/
theorem stamp_moved {r₀ r r' : Row} (h₀ : RowEvolves r₀ r) (h : RowEvolves r r')
    (hshow : Shows P masterKey userID configID current r₀)
    (hdiff : Differs P masterKey userID configID current r) :
    parse r'.modifiedAt ≠ some current.modifiedAt := by
  intro hm'
  rcases h₀.token with ⟨hname, hct, hnonce, _⟩ | ⟨old, hold, hnew⟩
  · rcases hdiff with hne | hne
    · exact hne (hname.trans hshow.name)
    · rw [hct, hnonce] at hne
      exact hne hshow.content
  · rw [Option.some.inj (hold.symm.trans hshow.modifiedAt)] at hnew
    rcases h.token with ⟨_, _, _, hsame⟩ | ⟨mid, hmid, hlater⟩
    · exact lt_irrefl _ (hnew _ (hsame ▸ hm'))
    · exact lt_irrefl _ ((hnew mid hmid).trans (hlater _ hm'))

/-- A compare-and-set that commits finds the row as it was read, and writes at most the
version column. -/
theorem idempotentTx_ok {t₀ t t' : Configs} {r₀ : Row} {now : Int} (hev : Evolves t₀ t)
    (hr₀ : r₀ ∈ t₀.rows) (hshow : Shows P masterKey userID configID current r₀)
    (h : updateConfigTx t now userID configID (idempotentPatch patch current) = .ok t') :
    (∃ r ∈ t.rows, Shows P masterKey userID configID current r) ∧
      ∃ version : Row → Option String, t' = t.update (owned configID userID)
        (fun r => { r with lastUsedWithVersion := version r }) fun _ => rfl := by
  obtain ⟨r, old, hr, hid, hu, hold, _, hexp, rfl⟩ := updateConfigTx_ok h
  have hm : parse r.modifiedAt = some current.modifiedAt := hold.trans (hexp rfl).symm
  have hrow : RowEvolves r₀ r := hev.of_id hr₀ hr (hid.trans hshow.id.symm)
  obtain ⟨hname, hct, hnonce, _⟩ := hrow.same_of_modifiedAt hshow.modifiedAt hm
  refine ⟨⟨r, hr, hid, hu, hm, hname.trans hshow.name, ?_⟩, ?_⟩
  · rw [hct, hnonce, hshow.content]
  · exact ⟨fun r => (patchedRow (idempotentPatch patch current) now old r).lastUsedWithVersion, rfl⟩

variable {ι : Type} [DecidableEq ι]

/-- An update reads in `s₀`, other clients run `es`, and the update takes its
idempotent branch. If its transaction commits, the row shows what was read and
supplied, and at most the version column changes. If the row had another name or
content in between, the step changes nothing: the compare-and-set fails and the update
reads again, unless the row is gone or its stamp is not readable, which the caller is
told. -/
theorem idempotent_update_guarded {s₀ s s' : Pool Configs ι Client} {i : ι} {env₀ env : Env}
    {es : List (ι × Env)} (hstart : s₀.procs i = .enc (.update userID configID patch .reading))
    (hread : (Pool.fire (Client.step P masterKey) s₀ (i, env₀)).procs i =
      .enc (.update userID configID patch (.writing current)))
    (hsame : changed patch current = false) (hidle : ∀ ev ∈ es, ev.1 ≠ i)
    (hs : s = Pool.run (Client.step P masterKey) s₀ ((i, env₀) :: es))
    (hs' : s' = Pool.fire (Client.step P masterKey) s (i, env)) :
    (s'.procs i = .enc (.update userID configID patch (.reloading true)) →
      (∃ r ∈ s.shared.rows, Shows P masterKey userID configID current r) ∧
      (∀ name, patch.name = some name → name = current.name) ∧
      (∀ content, patch.content = some content → content = current.content) ∧
      ∃ version : Row → Option String, s'.shared = s.shared.update (owned configID userID)
        (fun r => { r with lastUsedWithVersion := version r }) fun _ => rfl) ∧
    (∀ es₁ es₂, es = es₁ ++ es₂ →
      ∀ r ∈ (Pool.run (Client.step P masterKey) s₀ ((i, env₀) :: es₁)).shared.rows,
        r.id = configID → Differs P masterKey userID configID current r →
      s'.shared = s.shared ∧
      match s.shared.find (owned configID userID) with
      | none => s'.procs i = .enc (.done (.config (.error .errConfigNotFound)))
      | some r' => match parse r'.modifiedAt with
        | none => s'.procs i = .enc (.done (.config (.error
            (.wrap "sqlite: parse old modified_at" (errParse r'.modifiedAt)))))
        | some _ =>
          updateConfigTx s.shared env.now userID configID (idempotentPatch patch current) =
            .error .errConfigChanged ∧
          s'.procs i = .enc (.update userID configID patch .reading)) := by
  have hproc : s.procs i = .enc (.update userID configID patch (.writing current)) := by
    rw [hs, Pool.run_cons, Pool.run_procs_of_idle hidle, hread]
  rw [Pool.fire_procs_self, hstart] at hread
  obtain ⟨r₀, hr₀, hshow, _⟩ := reading_shows (Client.enc.inj hread)
  have hev : Evolves s₀.shared s.shared := hs ▸ run_evolves s₀ _
  have hshared : s'.shared =
      (updateStep P masterKey env s.shared userID configID patch (.writing current)).1 := by
    rw [hs', Pool.fire, hproc]; rfl
  have hlocal : s'.procs i = .enc
      (updateStep P masterKey env s.shared userID configID patch (.writing current)).2 := by
    rw [hs', Pool.fire_procs_self, hproc]; rfl
  rw [updateStep_idempotent hsame] at hshared hlocal
  refine ⟨fun hdone => ?_, fun es₁ es₂ hes r hr hid hdiff => ?_⟩
  · cases htx : updateConfigTx s.shared env.now userID configID (idempotentPatch patch current) with
    | error e =>
      rw [htx, hdone] at hlocal
      simp only [updateFailed, Client.enc.injEq] at hlocal
      split at hlocal <;> cases hlocal
    | ok t' =>
      rw [htx] at hshared
      obtain ⟨hrow, version, rfl⟩ := idempotentTx_ok hev hr₀ hshow htx
      obtain ⟨hname, hcontent⟩ := supplied_of_not_changed hsame
      exact ⟨hrow, hname, hcontent, version, hshared⟩
  · have hmoved : ∀ r' ∈ s.shared.rows, r'.id = configID →
        parse r'.modifiedAt ≠ some current.modifiedAt := by
      intro r' hr' hid'
      have hbefore : RowEvolves r₀ r := (run_evolves s₀ _).of_id hr₀ hr (hid.trans hshow.id.symm)
      rw [hs, hes, ← List.cons_append, Pool.run_append] at hr'
      have hafter : RowEvolves r r' := (run_evolves _ es₂).of_id hr hr' (hid'.trans hid.symm)
      exact stamp_moved hbefore hafter hshow hdiff
    rw [idempotentTx_error hmoved] at hshared hlocal ⊢
    refine ⟨hshared, ?_⟩
    cases hfind : s.shared.find (owned configID userID) with
    | none =>
      simp only [hfind] at hlocal ⊢
      exact hlocal
    | some r' =>
      cases hparse : parse r'.modifiedAt with
      | none =>
        simp only [hfind, hparse] at hlocal ⊢
        exact hlocal
      | some m =>
        simp only [hfind, hparse] at hlocal ⊢
        exact ⟨trivial, hlocal⟩

end

/-! ## A run

User 1 creates a row, a client sends its name again, and before that client writes,
another renames the row. -/

def sameName : UpdateConfigPlaintextPatch := ⟨some "a", none, some "2"⟩

/-- The three calls: a create, the update that repeats the name, and the rename. -/
def renameRace : Pool Configs (Fin 3) Client where
  shared := AutoTable.empty 0
  procs
    | 0 => .enc (.create 1 ⟨"a", [1], "1"⟩)
    | 1 => .enc (.update 1 1 sameName .reading)
    | 2 => .raw (.updateConfig 1 1 { name := some "b" })

def renameKey : Bytes := List.replicate 32 7

def created : Pool Configs (Fin 3) Client :=
  Pool.run (Client.step transparent renameKey) renameRace (Pool.schedule [(0, envAt 0)])

def read : ConfigWithPlaintext := ⟨1, 1, "a", [1], "1", 0, 1000000⟩

theorem created_reads : (Pool.fire (Client.step transparent renameKey) created
    (1, envAt 1)).procs 1 = .enc (.update 1 1 sameName (.writing read)) := by rfl

/-- The state after the read and a rename at the given time. -/
def renamedAt (now : Int) : Pool Configs (Fin 3) Client :=
  Pool.run (Client.step transparent renameKey) created
    (Pool.schedule [(1, envAt 1), (2, envAt now)])

theorem idempotent_update_guarded_rename :
    (Pool.fire (Client.step transparent renameKey) (renamedAt 5) (1, envAt 6)).shared =
      (renamedAt 5).shared := by
  have hrow : ∃ r ∈ (renamedAt 5).shared.rows, r.id = 1 ∧
      Differs transparent renameKey 1 1 read r := ⟨_, .head _, rfl, .inl (by decide)⟩
  obtain ⟨r, hr, hid, hdiff⟩ := hrow
  have hstart : created.procs 1 = .enc (.update 1 1 sameName .reading) := rfl
  exact ((idempotent_update_guarded hstart created_reads rfl (by decide) rfl rfl).2
    [(2, envAt 5)] [] rfl r hr hid hdiff).1

/-- The first instant of the year 10000, whose text no RFC 3339 reader takes. -/
def year10000 : Int := 253402300800000000000

/-- A rename under a clock in the year 10000 commits, and the compare-and-set that
comes after it reports the text of the stamp, not a lost race. -/
theorem stale_update_reports_stamp :
    created.procs 1 = .enc (.update 1 1 sameName .reading) ∧
    (Pool.fire (Client.step transparent renameKey) created (1, envAt 1)).procs 1 =
      .enc (.update 1 1 sameName (.writing read)) ∧
    changed sameName read = false ∧
    (∃ r ∈ (renamedAt year10000).shared.rows, r.id = 1 ∧ r.userID = 1 ∧ r.name ≠ read.name) ∧
    updateConfigTx (renamedAt year10000).shared 6 1 1 (idempotentPatch sameName read) =
      .error (.wrap "sqlite: parse old modified_at" (errParse "10000-01-01T00:00:00Z")) ∧
    (Pool.fire (Client.step transparent renameKey) (renamedAt year10000) (1, envAt 6)).procs 1 =
      .enc (.done (.config (.error (.wrap "sqlite: parse old modified_at"
        (errParse "10000-01-01T00:00:00Z"))))) :=
  ⟨rfl, created_reads, rfl, ⟨_, .head _, rfl, rfl, by decide⟩, rfl, rfl⟩

end TabbySync.IdempotentUpdate
