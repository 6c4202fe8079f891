import TabbySync.Store.IdempotentUpdate
import TabbySync.Store.View

/-! # Concurrent updates of one row, explained serially

Any number of `UpdateConfigPlaintext` calls race on one row. A call that changes
something writes only the fields that differ from its read; if another call has changed
a field it left out, the outcome mixes two patches. Where no such write happens, every
run in which all calls succeed ends as if they had been applied one after another.

The order is built as the run goes. A call that writes is ordered last when it commits.
A compare-and-set that has nothing to write is ordered where it read: by then other
calls may have changed the version column, which does not move the stamp. -/

namespace TabbySync.PatchSerial
open TabbySync.Library TabbySync.Library.Rfc3339 TabbySync.Sqlite TabbySync.Crypto
open TabbySync.Encrypted hiding Session
open TabbySync.VersionToken TabbySync.IdempotentUpdate

section
variable (P : Primitives) (masterKey : Bytes) (userID configID : Int64) {ι : Type}

/-- All calls at their start. -/
def start (t : Configs) (patches : ι → UpdateConfigPlaintextPatch) :
    Pool Configs ι Encrypted.Session where
  shared := t
  procs i := .update userID configID (patches i) .reading

/-- If the step is an unconditional write, the row still has every supplied name and
content that the write leaves out. -/
def LeavesOutCurrent (s : Pool Configs ι Encrypted.Session) (ev : ι × Env) : Prop :=
  match s.procs ev.1 with
  | .update userID configID patch (.writing current) =>
    changed patch current = true → ∀ r ∈ s.shared.rows, r.id = configID →
      (nameChanged patch current = false → patch.name.getD r.name = r.name) ∧
      (contentChanged patch current = false →
        (patch.content.map Except.ok).getD (viewOf P masterKey userID configID r).content =
          (viewOf P masterKey userID configID r).content)
  | _ => True

instance (s : Pool Configs ι Encrypted.Session) (ev : ι × Env) :
    Decidable (LeavesOutCurrent P masterKey s ev) := by
  unfold LeavesOutCurrent
  split <;> infer_instance

end

section
variable {P : Primitives} {masterKey : Bytes} {userID configID : Int64}
variable {patch : UpdateConfigPlaintextPatch} {current : ConfigWithPlaintext}

/-- A compare-and-set writes its patch as a whole, or nothing: then the patch changes
nothing where it was read. -/
theorem viewOf_idempotent {now old : Int} {r r₀ : Row} (hsame : changed patch current = false)
    (hr : Shows P masterKey userID configID current r)
    (hr₀ : Shows P masterKey userID configID current r₀)
    (hv₀ : r₀.lastUsedWithVersion.getD "" = current.lastUsedWithVersion) :
    viewOf P masterKey userID configID (patchedRow (idempotentPatch patch current) now old r) =
        applyPatch patch (viewOf P masterKey userID configID r) ∨
      (viewOf P masterKey userID configID (patchedRow (idempotentPatch patch current) now old r) =
          viewOf P masterKey userID configID r ∧
        applyPatch patch (viewOf P masterKey userID configID r₀) =
          viewOf P masterKey userID configID r₀) := by
  rw [viewOf_metadata, applyPatch_repeat hsame hr.name hr.content,
    applyPatch_repeat hsame hr₀.name hr₀.content]
  cases hpv : patch.lastUsedWithVersion with
  | none =>
    left
    simp [idempotentPatch, hpv, viewOf]
  | some v =>
    by_cases hv : v = current.lastUsedWithVersion
    · right
      simp [idempotentPatch, hpv, hv, viewOf, hv₀]
    · left
      simp [idempotentPatch, hpv, hv]

end

/-! ## The order a run builds -/

section
variable (P : Primitives) (masterKey : Bytes) (userID configID : Int64)
variable {ι : Type} (patches : ι → UpdateConfigPlaintextPatch) (v₀ : View)

/-- How far a call is, against the order so far and the row as it is. A call that has
read carries the row it read and the place of that row's view in the order. -/
inductive Stage (order : List ι) (r : Row) (i : ι) : Encrypted.Session → Prop
  | reading (hi : i ∉ order) : Stage order r i (.update userID configID (patches i) .reading)
  | writing {current : ConfigWithPlaintext} {r₀ : Row} (hi : i ∉ order)
      (hshow : Shows P masterKey userID configID current r₀)
      (hversion : r₀.lastUsedWithVersion.getD "" = current.lastUsedWithVersion)
      (hrow : RowEvolves r₀ r)
      (hpass : Passes (fun i => applyPatch (patches i)) order v₀
        (viewOf P masterKey userID configID r₀)) :
      Stage order r i (.update userID configID (patches i) (.writing current))
  | reloading {idempotent : Bool} (hi : i ∈ order) :
      Stage order r i (.update userID configID (patches i) (.reloading idempotent))
  | returning (hi : i ∈ order) : Stage order r i (.update userID configID (patches i) .returning)
  | returned {cfg : ConfigWithPlaintext} (hi : i ∈ order) :
      Stage order r i (.done (.config (.ok cfg)))
  | failed {e : GoError} : Stage order r i (.done (.config (.error e)))

/-- The row shows the outcome of an order of the calls that have committed. -/
structure Explained (s : Pool Configs ι Encrypted.Session) (order : List ι) (r : Row) : Prop where
  nodup : order.Nodup
  mem : r ∈ s.shared.rows
  id : r.id = configID
  owner : r.userID = userID
  view : viewOf P masterKey userID configID r = serial (fun i => applyPatch (patches i)) order v₀
  stage : ∀ i, Stage P masterKey userID configID patches v₀ order r i (s.procs i)

end

section
variable {P : Primitives} {masterKey : Bytes} {userID configID : Int64}
variable {ι : Type} {patches : ι → UpdateConfigPlaintextPatch} {v₀ : View}
variable {s : Pool Configs ι Encrypted.Session} {order order' : List ι} {r r' : Row} {i : ι}
variable {env : Env}

/-- A call that does not move keeps its place when another commits. -/
theorem Stage.mono {j : ι} {p : Encrypted.Session}
    (h : Stage P masterKey userID configID patches v₀ order r j p)
    (hmem : j ∈ order' ↔ j ∈ order) (hrow : RowEvolves r r')
    (hpass : ∀ w, Passes (fun i => applyPatch (patches i)) order v₀ w →
      Passes (fun i => applyPatch (patches i)) order' v₀ w) :
    Stage P masterKey userID configID patches v₀ order' r' j p := by
  cases h with
  | reading hi => exact .reading (mt hmem.mp hi)
  | writing hi hshow hversion hr hp =>
    exact .writing (mt hmem.mp hi) hshow hversion (hr.trans hrow) (hpass _ hp)
  | reloading hi => exact .reloading (hmem.mpr hi)
  | returning hi => exact .returning (hmem.mpr hi)
  | returned hi => exact .returned (hmem.mpr hi)
  | failed => exact .failed

variable [DecidableEq ι]

/-- A step that leaves the table alone only moves its own call. -/
theorem Explained.local (h : Explained P masterKey userID configID patches v₀ s order r)
    (hsame : ((s.procs i).step P masterKey env s.shared).1 = s.shared)
    (hstage : Stage P masterKey userID configID patches v₀ order r i
      ((s.procs i).step P masterKey env s.shared).2) :
    Explained P masterKey userID configID patches v₀
      (Pool.fire (Encrypted.Session.step P masterKey) s (i, env)) order r := by
  refine ⟨h.nodup, ?_, h.id, h.owner, h.view, ?_⟩
  · simpa only [Pool.fire, hsame] using h.mem
  · exact Pool.forall_procs_fire
      (Q := Stage P masterKey userID configID patches v₀ order r) hstage fun j _ => h.stage j

/-- A step that commits moves the row and puts its call into the order. -/
theorem Explained.commit (h : Explained P masterKey userID configID patches v₀ s order r)
    (hperm : order'.Perm (i :: order)) (hi : i ∉ order)
    (hmem : r' ∈ ((s.procs i).step P masterKey env s.shared).1.rows) (hrow : RowEvolves r r')
    (hview : viewOf P masterKey userID configID r' =
      serial (fun i => applyPatch (patches i)) order' v₀)
    (hpass : ∀ w, Passes (fun i => applyPatch (patches i)) order v₀ w →
      Passes (fun i => applyPatch (patches i)) order' v₀ w) {idempotent : Bool}
    (hproc : ((s.procs i).step P masterKey env s.shared).2 =
      .update userID configID (patches i) (.reloading idempotent)) :
    Explained P masterKey userID configID patches v₀
      (Pool.fire (Encrypted.Session.step P masterKey) s (i, env)) order' r' := by
  refine ⟨hperm.nodup_iff.mpr (List.nodup_cons.mpr ⟨hi, h.nodup⟩), hmem, hrow.id.trans h.id,
    hrow.userID.trans h.owner, hview, ?_⟩
  refine Pool.forall_procs_fire (Q := Stage P masterKey userID configID patches v₀ order' r')
    ?_ fun j hj => ?_
  · rw [hproc]
    exact .reloading (hperm.mem_iff.mpr (by simp))
  · exact (h.stage j).mono (by rw [hperm.mem_iff]; simp [hj]) hrow hpass

/-- The unconditional write is ordered last. -/
theorem Explained.changed (hP : P.OpensSealed)
    (h : Explained P masterKey userID configID patches v₀ s order r)
    {current : ConfigWithPlaintext} {inner : UpdateConfigPatch} {t' : Configs} (hi : i ∉ order)
    (hproc : s.procs i = .update userID configID (patches i) (.writing current))
    (hchanged : changed (patches i) current = true)
    (hcond : LeavesOutCurrent P masterKey s (i, env))
    (hinner : changedPatch P masterKey env.nonce userID configID (patches i) current = .ok inner)
    (htx : updateConfigTx s.shared env.now userID configID inner = .ok t') :
    ∃ r', Explained P masterKey userID configID patches v₀
      (Pool.fire (Encrypted.Session.step P masterKey) s (i, env)) (order ++ [i]) r' := by
  have hstep : (s.procs i).step P masterKey env s.shared =
      (t', .update userID configID (patches i) (.reloading false)) := by
    simp [hproc, Encrypted.Session.step, updateStep, innerPatch, hchanged, hinner, htx]
  obtain ⟨old, hval, _, hold, hmem⟩ := updateConfigTx_row htx h.mem h.id h.owner
  simp only [LeavesOutCurrent, hproc] at hcond
  obtain ⟨hname, hcontent⟩ := hcond hchanged r h.mem h.id
  refine ⟨patchedRow inner env.now old r, h.commit (List.perm_append_singleton i order) hi
    (hstep ▸ hmem) (patchedRow_evolves hval hold) ?_ (fun _ hp => hp.concat i) (by rw [hstep])⟩
  rw [viewOf_changed hP hinner hval hname hcontent, h.view, serial_concat]

/-- The compare-and-set is ordered last if it writes, and where it read if not. -/
theorem Explained.idempotent (h : Explained P masterKey userID configID patches v₀ s order r)
    {current : ConfigWithPlaintext} {r₀ : Row} {t' : Configs} (hi : i ∉ order)
    (hproc : s.procs i = .update userID configID (patches i) (.writing current))
    (hsame : Encrypted.changed (patches i) current = false)
    (hshow : Shows P masterKey userID configID current r₀)
    (hversion : r₀.lastUsedWithVersion.getD "" = current.lastUsedWithVersion)
    (hrow : RowEvolves r₀ r)
    (hpass : Passes (fun i => applyPatch (patches i)) order v₀
      (viewOf P masterKey userID configID r₀))
    (htx : updateConfigTx s.shared env.now userID configID
      (idempotentPatch (patches i) current) = .ok t') :
    ∃ order' r', Explained P masterKey userID configID patches v₀
      (Pool.fire (Encrypted.Session.step P masterKey) s (i, env)) order' r' := by
  have hstep : (s.procs i).step P masterKey env s.shared =
      (t', .update userID configID (patches i) (.reloading true)) := by
    simp [hproc, Encrypted.Session.step, updateStep_idempotent hsame, htx]
  obtain ⟨old, hval, hexp, hold, hmem⟩ := updateConfigTx_row htx h.mem h.id h.owner
  have hm : parse r.modifiedAt = some current.modifiedAt := hold.trans (hexp rfl).symm
  obtain ⟨hn, hct, hnonce, _⟩ := hrow.same_of_modifiedAt hshow.modifiedAt hm
  have hr : Shows P masterKey userID configID current r :=
    ⟨h.id, h.owner, hm, hn.trans hshow.name, by rw [hct, hnonce, hshow.content]⟩
  have hevolves := @patchedRow_evolves _ env.now old r hval hold
  rcases @viewOf_idempotent _ _ _ _ _ _ env.now old _ _ hsame hr hshow hversion with
    hwrites | ⟨hstays, hthere⟩
  · refine ⟨order ++ [i], _, h.commit (List.perm_append_singleton i order) hi (hstep ▸ hmem)
      hevolves ?_ (fun _ hp => hp.concat i) (by rw [hstep])⟩
    rw [hwrites, h.view, serial_concat]
  · obtain ⟨order', hperm, hserial, hpasses⟩ := hpass.insert hthere
    refine ⟨order', _, h.commit hperm hi (hstep ▸ hmem) hevolves ?_ hpasses (by rw [hstep])⟩
    rw [hstays, h.view, hserial]

/-- Every step that leaves out only current fields keeps the run explained. -/
theorem explained_fire (hP : P.OpensSealed)
    (h : Explained P masterKey userID configID patches v₀ s order r)
    (hcond : LeavesOutCurrent P masterKey s (i, env)) :
    ∃ order' r', Explained P masterKey userID configID patches v₀
      (Pool.fire (Encrypted.Session.step P masterKey) s (i, env)) order' r' := by
  have hstage := h.stage i
  generalize hp : s.procs i = p at hstage
  cases hstage with
  | reading hi =>
    obtain ⟨hsame, hout⟩ := @updateStep_reading P masterKey s.shared userID configID env (patches i)
    refine ⟨order, r, h.local (by rw [hp]; exact hsame) ?_⟩
    rw [hp, Encrypted.Session.step]
    rcases hout with ⟨e, he⟩ | ⟨current, hcurrent⟩
    · rw [he]
      exact .failed
    · obtain ⟨r₁, hr₁, hshow, hversion⟩ := reading_shows hcurrent
      have hr : r₁ = r := s.shared.key_inj hr₁ h.mem (hshow.id.trans h.id.symm)
      subst hr
      rw [hcurrent]
      exact .writing hi hshow hversion (.refl r₁) (h.view ▸ passes_end order v₀)
  | @writing current r₀ hi hshow hversion hrow hpass =>
    cases hchanged : changed (patches i) current with
    | true =>
      cases hinner : changedPatch P masterKey env.nonce userID configID (patches i) current with
      | error e =>
        refine ⟨order, r, h.local ?_ ?_⟩ <;>
          simp only [hp, Encrypted.Session.step, updateStep, innerPatch, hchanged, if_true, hinner]
        exact .failed
      | ok inner =>
        cases htx : updateConfigTx s.shared env.now userID configID inner with
        | error e =>
          refine ⟨order, r, h.local ?_ ?_⟩ <;>
            simp only [hp, Encrypted.Session.step, updateStep, innerPatch, hchanged, if_true,
              hinner, htx, updateFailed, Bool.not_true, Bool.false_and, Bool.false_eq_true,
              if_false]
          exact .failed
        | ok t' => exact ⟨_, h.changed hP hi hp hchanged hcond hinner htx⟩
    | false =>
      cases htx : updateConfigTx s.shared env.now userID configID
          (idempotentPatch (patches i) current) with
      | error e =>
        refine ⟨order, r, h.local ?_ ?_⟩ <;>
          simp only [hp, Encrypted.Session.step, updateStep_idempotent hchanged, htx, updateFailed]
        split
        · exact .reading hi
        · exact .failed
      | ok t' => exact h.idempotent hi hp hchanged hshow hversion hrow hpass htx
  | reloading hi =>
    cases hget : getConfig s.shared userID configID with
    | error e =>
      have hkept := getConfig_error hget .configChanged (by decide)
      refine ⟨order, r, h.local ?_ ?_⟩ <;>
        simp only [hp, Encrypted.Session.step, updateStep, hget, updateFailed, hkept,
          Bool.and_false, Bool.false_eq_true, if_false]
      exact .failed
    | ok cfg =>
      refine ⟨order, r, h.local ?_ ?_⟩ <;> simp only [hp, Encrypted.Session.step, updateStep, hget]
      exact .returning hi
  | returning hi =>
    refine ⟨order, r, h.local (by rw [hp]; rfl) ?_⟩
    rw [hp, Encrypted.Session.step, updateStep]
    cases getConfigPlaintext P masterKey s.shared userID configID with
    | error e => exact .failed
    | ok cfg => exact .returned hi
  | returned hi => exact ⟨order, r, h.local (by rw [hp]; rfl) (by rw [hp]; exact .returned hi)⟩
  | failed => exact ⟨order, r, h.local (by rw [hp]; rfl) (by rw [hp]; exact .failed)⟩

end

/-- If every unconditional write leaves out only current fields and every call succeeds,
the row ends as some order of the patches leaves it. -/
theorem updates_serialise {P : Primitives} (hP : P.OpensSealed) {masterKey : Bytes}
    {userID configID : Int64} {ι : Type} [DecidableEq ι]
    (patches : ι → UpdateConfigPlaintextPatch) {t : Configs} {r : Row} (hr : r ∈ t.rows)
    (hid : r.id = configID) (hu : r.userID = userID) {es : List (ι × Env)}
    (hcond : Pool.Along (Encrypted.Session.step P masterKey)
      (LeavesOutCurrent P masterKey) (start userID configID t patches) es)
    (hok : ∀ i, ∃ cfg, (Pool.run (Encrypted.Session.step P masterKey)
      (start userID configID t patches) es).procs i = .done (.config (.ok cfg))) :
    ∃ order : List ι, order.Nodup ∧ (∀ i, i ∈ order) ∧
      ∃ r' ∈ (Pool.run (Encrypted.Session.step P masterKey)
          (start userID configID t patches) es).shared.rows,
        r'.id = configID ∧ r'.userID = userID ∧
        viewOf P masterKey userID configID r' = serial (fun i => applyPatch (patches i)) order
          (viewOf P masterKey userID configID r) := by
  have hstart : Explained P masterKey userID configID patches
      (viewOf P masterKey userID configID r) (start userID configID t patches) [] r :=
    ⟨List.nodup_nil, hr, hid, hu, rfl, fun i => .reading (by simp)⟩
  obtain ⟨order, r', h⟩ := Pool.run_invariant_along (I := fun s => ∃ order r',
      Explained P masterKey userID configID patches (viewOf P masterKey userID configID r)
        s order r')
    (fun s ev ⟨order, r', h⟩ hc => explained_fire hP h hc) ⟨[], r, hstart⟩ hcond
  refine ⟨order, h.nodup, fun i => ?_, r', h.mem, h.id, h.owner, h.view⟩
  obtain ⟨cfg, hcfg⟩ := hok i
  have hstage := h.stage i
  rw [hcfg] at hstage
  cases hstage with
  | returned hi => exact hi

/-! ## Two calls

The row has name "A" and content 1. One call supplies "A" and 2, the other "B" and 3. -/

def raceKey : Bytes := List.replicate 32 7

def raceRow : Row :=
  builtRow 1 1 ⟨"A", transparent.gcmSeal (transparent.hkdf raceKey (hkdfInfo 1))
    (List.replicate 12 0) [1] (buildAAD 1 1), List.replicate 12 0, ""⟩ 0 0

def racePatches : Fin 2 → UpdateConfigPlaintextPatch
  | 0 => ⟨some "A", some [2], none⟩
  | 1 => ⟨some "B", some [3], none⟩

def race (es : List (Fin 2 × Env)) : Pool Configs (Fin 2) Encrypted.Session :=
  Pool.run (Encrypted.Session.step transparent raceKey)
    (start 1 1 ((AutoTable.empty 0).insert raceRow) racePatches) es

/-- One call after the other. -/
def inTurn : List (Fin 2 × Env) :=
  Pool.schedule ([0, 0, 0, 0, 1, 1, 1, 1].map fun i => (i, envAt 5))

theorem updates_serialise_inTurn : ∃ order : List (Fin 2), order.Nodup ∧ (∀ i, i ∈ order) ∧
    ∃ r ∈ (race inTurn).shared.rows, r.id = 1 ∧ r.userID = 1 ∧
      viewOf transparent raceKey 1 1 r = serial (fun i => applyPatch (racePatches i)) order
        (viewOf transparent raceKey 1 1 raceRow) := by
  refine updates_serialise transparent_opensSealed racePatches (r := raceRow) ?_ rfl rfl ?_ ?_
  · exact .head _
  · decide +kernel
  · intro i
    match i with
    | 0 => exact ⟨_, rfl⟩
    | 1 => exact ⟨_, rfl⟩

/-- The first call reads before the second runs, and writes after it. -/
def overtaken : List (Fin 2 × Env) :=
  Pool.schedule ([0, 1, 1, 1, 1, 0, 0, 0].map fun i => (i, envAt 5))

/-- Both calls succeed and the row has the name of one and the content of the other. -/
theorem overtaken_mixes_patches :
    (∀ i, ∃ cfg, (race overtaken).procs i = .done (.config (.ok cfg))) ∧
    ¬ ∃ order : List (Fin 2), order.Nodup ∧ (∀ i, i ∈ order) ∧
      ∃ r ∈ (race overtaken).shared.rows, r.id = 1 ∧ r.userID = 1 ∧
        viewOf transparent raceKey 1 1 r = serial (fun i => applyPatch (racePatches i)) order
          (viewOf transparent raceKey 1 1 raceRow) := by
  refine ⟨fun i => ?_, ?_⟩
  · match i with
    | 0 => exact ⟨_, rfl⟩
    | 1 => exact ⟨_, rfl⟩
  · rintro ⟨order, hnodup, hall, r, hr, _, _, hview⟩
    have hmixed : ∀ order ∈ [[0, 1], [1, 0]], ∀ r ∈ (race overtaken).shared.rows,
        viewOf transparent raceKey 1 1 r ≠ serial (fun i => applyPatch (racePatches i)) order
          (viewOf transparent raceKey 1 1 raceRow) := by decide +kernel
    exact hmixed order (by simpa using orders_of_two hnodup hall) r hr hview

end TabbySync.PatchSerial
