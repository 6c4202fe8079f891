import TabbySync.Library.Interleaving
import TabbySync.Store.View

/-! # modified_at as a semantic clock

Clients poll `modified_at` and download when it advances, so an upload that changes
neither name nor content should leave it alone. `UpdateConfigPlaintext` decides between
the bumping and the preserving write against a row it read one step earlier, and the
bumping write is not guarded. Its stamp therefore moves without a change exactly when a
bumping write commits on a row that already has everything it writes. -/

namespace TabbySync.SemanticClock
open TabbySync.Library TabbySync.Library.Rfc3339 TabbySync.Crypto TabbySync.Encrypted
open TabbySync.Sqlite hiding Session

/-- The row's `modified_at` is set to a later instant. -/
def Advances (r r' : Row) : Prop :=
  ∃ old new, parse r.modifiedAt = some old ∧ r'.modifiedAt = format new ∧ old < new

section
variable (P : Primitives) (masterKey : Bytes)

/-- The row's name or its content, opened under its own ids, is another one. -/
def SemanticChange (r r' : Row) : Prop :=
  r'.name ≠ r.name ∨ (viewOf P masterKey r.userID r.id r').content ≠
    (viewOf P masterKey r.userID r.id r).content

/-- Every name and content the patch supplies is the one the row has. -/
def Repeats (patch : UpdateConfigPlaintextPatch) (r : Row) : Prop :=
  patch.name.getD r.name = r.name ∧
    (patch.content.map Except.ok).getD (viewOf P masterKey r.userID r.id r).content =
      (viewOf P masterKey r.userID r.id r).content

variable {ι : Type} [DecidableEq ι]

/-- A step of an update advances a row's stamp only with a change of its name or
content, and leaves the stamp of the row it repeats. -/
def ClockIsSemantic (s : Pool Configs ι Session) (ev : ι × Env) : Prop :=
  ∀ userID configID patch pc, s.procs ev.1 = .update userID configID patch pc →
    ∀ r ∈ s.shared.rows, ∀ r' ∈ (Pool.fire (Session.step P masterKey) s ev).shared.rows,
      r'.id = r.id →
      (Advances r r' → SemanticChange P masterKey r r') ∧
      (r.id = configID → r.userID = userID → Repeats P masterKey patch r →
        r'.modifiedAt = r.modifiedAt)

/-- A write that carries changed fields and commits finds one of them still different
in the row. -/
def WritesChange (s : Pool Configs ι Session) (ev : ι × Env) : Prop :=
  match s.procs ev.1 with
  | .update userID configID patch (.writing current) =>
    (Pool.fire (Session.step P masterKey) s ev).procs ev.1 =
        .update userID configID patch (.reloading false) →
      ∀ r ∈ s.shared.rows, r.id = configID → r.userID = userID →
        (nameChanged patch current = true ∧ patch.name ≠ some r.name) ∨
        (contentChanged patch current = true ∧ patch.content.map Except.ok ≠
          some (viewOf P masterKey userID configID r).content)
  | _ => True

instance (s : Pool Configs ι Session) (ev : ι × Env) :
    Decidable (WritesChange P masterKey s ev) := by
  unfold WritesChange
  -- the match looks into the stage of an update only
  refine Session.casesOn (s.procs ev.1) ?_ ?_ ?_ ?update ?_ ?_ ?_
  case update =>
    intro userID configID patch pc
    cases pc <;> infer_instance
  all_goals
    intros
    infer_instance

end

/-! ## What a step of an update does to the stamps -/

section
variable {P : Primitives} {masterKey : Bytes} {t : Configs} {userID configID : Int64}
variable {patch : UpdateConfigPlaintextPatch} {current : ConfigWithPlaintext} {env : Env}

/-- The write of an update either commits its changed fields, and stands before the
reload of a bumping write, or leaves every stamp. -/
theorem updateStep_writing :
    (∃ inner t', changedPatch P masterKey env.nonce userID configID patch current = .ok inner ∧
      updateConfigTx t env.now userID configID inner = .ok t' ∧
      updateStep P masterKey env t userID configID patch (.writing current) =
        (t', .update userID configID patch (.reloading false))) ∨
    ((updateStep P masterKey env t userID configID patch (.writing current)).2 ≠
        .update userID configID patch (.reloading false) ∧
      ∀ r ∈ t.rows, ∀ r' ∈ (updateStep P masterKey env t userID configID patch
        (.writing current)).1.rows, r'.id = r.id → r'.modifiedAt = r.modifiedAt) := by
  have hstay : ∀ r ∈ t.rows, ∀ r' ∈ t.rows, r'.id = r.id → r'.modifiedAt = r.modifiedAt := by
    intro r hr r' hr' hid
    rw [t.key_inj hr' hr hid]
  rcases updateStep_write env patch current with ⟨inner, t', hinner, htx, hstep⟩ | ⟨hleft, hne⟩
  · rw [hstep]
    cases hch : changed patch current with
    | true =>
      rw [innerPatch, hch, if_pos rfl] at hinner
      exact .inl ⟨inner, t', hinner, htx, rfl⟩
    | false =>
      refine .inr ⟨by simp, ?_⟩
      rw [innerPatch, hch, if_neg Bool.false_ne_true] at hinner
      cases hinner
      intro r hr r' hr' hid
      -- the preserving write touches the version column alone
      rcases updateConfigTx_same_id htx hr hr' hid with rfl | ⟨_, _, _, _, _, rfl⟩ <;> rfl
  · rw [hleft]
    exact .inr ⟨hne false, hstay⟩

/-- A bumping write changes the name or the content of its row exactly if one of the
fields it carries differs there. -/
theorem semanticChange_patchedRow (hP : P.OpensSealed) {nonce : Nonce} {inner : UpdateConfigPatch}
    {now old : Int} {r : Row} (hid : r.id = configID) (hu : r.userID = userID)
    (hinner : changedPatch P masterKey nonce userID configID patch current = .ok inner)
    (hval : validatePatch inner = .ok ()) :
    SemanticChange P masterKey r (patchedRow inner now old r) ↔
      (nameChanged patch current = true ∧ patch.name ≠ some r.name) ∨
      (contentChanged patch current = true ∧ patch.content.map Except.ok ≠
        some (viewOf P masterKey userID configID r).content) := by
  subst hid hu
  rw [SemanticChange, changedPatch_name hinner, changedPatch_content hP hinner hval]
  refine or_congr ?_ ?_
  · cases hn : patch.name with
    | none => simp [nameChanged, hn]
    | some name => cases nameChanged patch current <;> simp
  · cases hc : patch.content with
    | none => simp [contentChanged, hc]
    | some content => cases contentChanged patch current <;> simp

/-- A bumping write that commits advances the stamp of its row. -/
theorem advances_patchedRow {inner : UpdateConfigPatch} {old : Int} {r : Row} (now : Int)
    (hpres : inner.preserveModifiedAt = false) (hold : parse r.modifiedAt = some old) :
    Advances r (patchedRow inner now old r) := by
  refine ⟨old, nextModifiedAt now old, hold, ?_, lt_nextModifiedAt now old⟩
  simp [patchedRow, hpres]

theorem not_advances {r r' : Row} (h : r'.modifiedAt = r.modifiedAt) : ¬ Advances r r' := by
  rintro ⟨old, new, hold, hnew, hlt⟩
  rw [← h, hnew] at hold
  have : old = new := eq_of_parse_format hold
  omega

end

/-! ## Steps and runs -/

section
variable {P : Primitives} {masterKey : Bytes} {ι : Type} [DecidableEq ι]

theorem fire_update (P : Primitives) (masterKey : Bytes) {s : Pool Configs ι Session}
    {ev : ι × Env} {userID configID : Int64} {patch : UpdateConfigPlaintextPatch} {pc : UpdatePc}
    (h : s.procs ev.1 = .update userID configID patch pc) :
    (Pool.fire (Session.step P masterKey) s ev).shared =
        (updateStep P masterKey ev.2 s.shared userID configID patch pc).1 ∧
      (Pool.fire (Session.step P masterKey) s ev).procs ev.1 =
        (updateStep P masterKey ev.2 s.shared userID configID patch pc).2 := by
  constructor
  · rw [Pool.fire, h]; rfl
  · rw [Pool.fire_procs_self, h]; rfl

/-- A row whose stamp stays meets both halves of the property. -/
theorem clock_of_stays {userID configID : Int64} {patch : UpdateConfigPlaintextPatch} {r r' : Row}
    (h : r'.modifiedAt = r.modifiedAt) :
    (Advances r r' → SemanticChange P masterKey r r') ∧
      (r.id = configID → r.userID = userID → Repeats P masterKey patch r →
        r'.modifiedAt = r.modifiedAt) :=
  ⟨fun hadv => absurd hadv (not_advances h), fun _ _ _ => h⟩

/-- What a patch repeats, it does not change. -/
theorem Repeats.not_writes {patch : UpdateConfigPlaintextPatch} {current : ConfigWithPlaintext}
    {r : Row} (h : Repeats P masterKey patch r) :
    ¬ ((nameChanged patch current = true ∧ patch.name ≠ some r.name) ∨
      (contentChanged patch current = true ∧ patch.content.map Except.ok ≠
        some (viewOf P masterKey r.userID r.id r).content)) := by
  obtain ⟨hname, hcontent⟩ := h
  rintro (⟨hch, hne⟩ | ⟨hch, hne⟩)
  · cases hn : patch.name with
    | none => simp [nameChanged, hn] at hch
    | some name =>
      rw [hn] at hname hne
      exact hne (congrArg some hname)
  · cases hc : patch.content with
    | none => simp [contentChanged, hc] at hch
    | some content =>
      rw [hc] at hcontent hne
      exact hne (congrArg some hcontent)

theorem clockIsSemantic_iff (hP : P.OpensSealed) (s : Pool Configs ι Session) (ev : ι × Env) :
    ClockIsSemantic P masterKey s ev ↔ WritesChange P masterKey s ev := by
  constructor
  · intro hclock
    unfold WritesChange
    split
    · rename_i userID configID patch current hproc
      intro hcommit r hr hid hu
      obtain ⟨hshared, hlocal⟩ := fire_update P masterKey hproc
      rcases updateStep_writing with ⟨inner, t', hinner, htx, hstep⟩ | ⟨hne, _⟩
      · obtain ⟨old, hval, _, hold, hmem⟩ := updateConfigTx_row htx hr hid hu
        rw [hstep] at hshared
        have hadv := advances_patchedRow ev.2.now (changedPatch_preserve hinner) hold
        have hrow := hclock userID configID patch _ hproc r hr (patchedRow inner ev.2.now old r)
          (hshared ▸ hmem) rfl
        exact (semanticChange_patchedRow hP hid hu hinner hval).mp (hrow.1 hadv)
      · exact absurd (hlocal.symm.trans hcommit) hne
    · trivial
  · intro hwrites userID configID patch pc hproc r hr r' hr' hid
    obtain ⟨hshared, hlocal⟩ := fire_update P masterKey hproc
    rw [hshared] at hr'
    cases pc with
    | reading | reloading | returning =>
      rw [updateStep_fst_of_not_writing (by simp)] at hr'
      rw [s.shared.key_inj hr' hr hid]
      exact clock_of_stays rfl
    | writing current =>
      rcases updateStep_writing with ⟨inner, t', hinner, htx, hstep⟩ | ⟨_, hstays⟩
      · rw [hstep] at hr' hlocal
        rcases updateConfigTx_same_id htx hr hr' hid with rfl | ⟨old, hc, hu, hval, hold, rfl⟩
        · exact clock_of_stays rfl
        · simp only [WritesChange, hproc] at hwrites
          have hdiff := hwrites hlocal r hr hc hu
          refine ⟨fun _ => (semanticChange_patchedRow hP hc hu hinner hval).mpr hdiff, ?_⟩
          intro _ _ hrep
          subst hc hu
          exact absurd hdiff hrep.not_writes
      · exact clock_of_stays (hstays r hr r' hr' hid)

/-- A write meets the condition if its row still reads as it did for the call. -/
theorem writesChange_of_current {s : Pool Configs ι Session} {ev : ι × Env}
    {userID configID : Int64} {patch : UpdateConfigPlaintextPatch} {current : ConfigWithPlaintext}
    (hproc : s.procs ev.1 = .update userID configID patch (.writing current))
    (hread : getConfigPlaintext P masterKey s.shared userID configID = .ok current) :
    WritesChange P masterKey s ev := by
  simp only [WritesChange, hproc]
  intro hcommit r hr hid hu
  have hchanged : changed patch current = true := by
    have hlocal := (fire_update P masterKey hproc).2.symm.trans hcommit
    rcases updateStep_write ev.2 patch current with ⟨_, _, _, _, hstep⟩ | ⟨_, hne⟩
    · rw [hstep] at hlocal
      simpa using hlocal
    · exact absurd hlocal (hne false)
  obtain ⟨row, pt, hrow, hpt, rfl⟩ := getConfigPlaintext_ok hread
  obtain ⟨r₀, hr₀, hid₀, _, hscan⟩ := getConfig_ok.mp hrow
  obtain rfl : r₀ = r := s.shared.key_inj hr₀ hr (hid₀.trans hid.symm)
  obtain ⟨_, _, hcfg⟩ := scanConfig_ok.mp hscan
  have hname : row.name = r₀.name := congrArg Config.name hcfg
  have hcontent : (viewOf P masterKey userID configID r₀).content = .ok pt := by
    rw [hcfg] at hpt
    exact hpt
  rcases Bool.or_eq_true_iff.mp hchanged with hn | hc
  · refine .inl ⟨hn, fun heq => ?_⟩
    simp [nameChanged, heq, toPlaintext, hname] at hn
  · refine .inr ⟨hc, fun heq => ?_⟩
    rw [hcontent] at heq
    obtain ⟨content, hcarried, hsame⟩ := Option.map_eq_some_iff.mp heq
    cases hsame
    simp [contentChanged, hcarried, toPlaintext] at hc

/-- In every schedule `modified_at` advances only on a semantic change, at every step,
exactly if every write that carries changed fields still finds one of them different. -/
theorem semantic_clock (hP : P.OpensSealed) (s : Pool Configs ι Session) (es : List (ι × Env)) :
    Pool.Along (Session.step P masterKey) (ClockIsSemantic P masterKey) s es ↔
      Pool.Along (Session.step P masterKey) (WritesChange P masterKey) s es :=
  Pool.along_congr (I := fun _ => True) (fun s ev _ => clockIsSemantic_iff hP s ev)
    (fun _ _ _ _ => trivial) trivial es

end

/-! ## Two devices upload one content

User 1 has a row. Two devices send the same new content. -/

def deviceKey : Bytes := List.replicate 32 7

def upload : UpdateConfigPlaintextPatch := ⟨none, some [2], none⟩

def devices : Pool Configs (Fin 3) Session where
  shared := AutoTable.empty 0
  procs
    | 0 => .create 1 ⟨"a", [1], ""⟩
    | 1 => .update 1 1 upload .reading
    | 2 => .update 1 1 upload .reading

/-- The second device reads after the first has finished: its upload repeats the row. -/
def oneByOne : List (Fin 3 × Env) :=
  Pool.schedule ([0, 1, 1, 1, 1, 2, 2, 2, 2].map fun i => (i, envAt 0))

theorem semantic_clock_oneByOne :
    Pool.Along (Session.step transparent deviceKey) (ClockIsSemantic transparent deviceKey)
      devices oneByOne :=
  (semantic_clock transparent_opensSealed devices oneByOne).mpr (by decide +kernel)

/-- Both devices read the row before either writes; the first has written. -/
def bothRead : Pool Configs (Fin 3) Session :=
  Pool.run (Session.step transparent deviceKey) devices
    (Pool.schedule ([0, 1, 2, 1].map fun i => (i, envAt 0)))

/-- The row with the uploaded content, as stamped. -/
def uploaded (stamp : Int) : Row where
  id := 1
  userID := 1
  name := "a"
  contentCiphertext := transparent.gcmSeal (transparent.hkdf deviceKey (hkdfInfo 1))
    (List.replicate 12 0) [2] (buildAAD 1 1)
  contentNonce := List.replicate 12 0
  lastUsedWithVersion := none
  createdAt := format 0
  modifiedAt := format stamp

theorem uploaded_same (stamp stamp' : Int) : (uploaded stamp').id = (uploaded stamp).id ∧
    ¬ SemanticChange transparent deviceKey (uploaded stamp) (uploaded stamp') := by
  refine ⟨rfl, ?_⟩
  rintro (hname | hcontent)
  · exact hname rfl
  · exact hcontent rfl

/-- The second device then writes the content the row already has, and the stamp
advances from one millisecond to the next. -/
theorem identical_upload_advances :
    bothRead.procs 2 = .update 1 1 upload (.writing ⟨1, 1, "a", [1], "", 0, 1000000⟩) ∧
    bothRead.shared.rows = [uploaded 2000000] ∧
    (Pool.fire (Session.step transparent deviceKey) bothRead (2, envAt 0)).shared.rows =
      [uploaded 3000000] ∧
    Repeats transparent deviceKey upload (uploaded 2000000) ∧
    Advances (uploaded 2000000) (uploaded 3000000) ∧
    ¬ SemanticChange transparent deviceKey (uploaded 2000000) (uploaded 3000000) ∧
    ¬ Pool.Along (Session.step transparent deviceKey) (ClockIsSemantic transparent deviceKey)
      devices ([0, 1, 2, 1, 2].map fun i => (i, envAt 0)) := by
  have hproc : bothRead.procs 2 =
      .update 1 1 upload (.writing ⟨1, 1, "a", [1], "", 0, 1000000⟩) := by decide +kernel
  have hbefore : bothRead.shared.rows = [uploaded 2000000] := by decide +kernel
  have hafter : (Pool.fire (Session.step transparent deviceKey) bothRead
      (2, envAt 0)).shared.rows = [uploaded 3000000] := by decide +kernel
  have hadv : Advances (uploaded 2000000) (uploaded 3000000) :=
    ⟨2000000, 3000000, by decide +kernel, rfl, by decide⟩
  obtain ⟨hid, hno⟩ := uploaded_same 2000000 3000000
  refine ⟨hproc, hbefore, hafter, ⟨rfl, by decide +kernel⟩, hadv, hno, fun h => ?_⟩
  have hlast : ClockIsSemantic transparent deviceKey bothRead (2, envAt 0) := h.2.2.2.2.1
  have hmem : uploaded 2000000 ∈ bothRead.shared.rows := hbefore ▸ .head _
  have hmem' : uploaded 3000000 ∈ (Pool.fire (Session.step transparent deviceKey) bothRead
      (2, envAt 0)).shared.rows := hafter ▸ .head _
  exact hno ((hlast 1 1 upload _ hproc (uploaded 2000000) hmem (uploaded 3000000) hmem' hid).1 hadv)

end TabbySync.SemanticClock
