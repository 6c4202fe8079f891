import TabbySync.Store.IdempotentUpdate
import TabbySync.Store.View

/-! # A patch on its own

`UpdateConfigPlaintext` with nobody else writing. The call reads once and writes once: the
fields that the patch changes, and a new `modified_at` if the name or the content is among
them. A second call with the same patch finds everything as it wants it and leaves the table
as it is. -/

namespace TabbySync.SequentialPatch
open TabbySync.Library TabbySync.Library.Rfc3339 TabbySync.Crypto TabbySync.Encrypted
open TabbySync.IdempotentUpdate
open TabbySync.Sqlite hiding Session Result

/-! ## The call alone -/

/-- A step at a time and with a nonce; the caller's context is not done. -/
def live (now : Int) (nonce : Nonce) : Env := ⟨now, now, nonce, none⟩

/-- Steps of one call, with nothing in between. -/
def alone (P : Primitives) (masterKey : Bytes) (nonce : Nonce) :
    (Nat → Int) → Nat → Configs → Session → Configs × Session
  | _, 0, t, s => (t, s)
  | clock, n + 1, t, s =>
    let next := s.step P masterKey (live (clock 0) nonce) t
    alone P masterKey nonce (fun i => clock (i + 1)) n next.1 next.2

/-- What one call leaves of its row. -/
structure MinimalWrite (P : Primitives) (masterKey : Bytes) (userID configID : Int64)
    (nonce : Nonce) (patch : UpdateConfigPlaintextPatch) (current : ConfigWithPlaintext)
    (r r' : Row) : Prop where
  fixed : r'.id = r.id ∧ r'.userID = r.userID ∧ r'.createdAt = r.createdAt
  rewritten : (r'.contentCiphertext, r'.contentNonce) ≠ (r.contentCiphertext, r.contentNonce) ↔
    ∃ content, patch.content = some content ∧ content ≠ current.content
  sealed : ∀ content, patch.content = some content → content ≠ current.content →
    encrypt P masterKey userID configID content nonce =
      .ok (r'.contentCiphertext, r'.contentNonce)
  name : r'.name = patch.name.getD r.name
  modifiedAt : r'.modifiedAt ≠ r.modifiedAt ↔
    (∃ name, patch.name = some name ∧ name ≠ r.name) ∨
      ∃ content, patch.content = some content ∧ content ≠ current.content
  version : patch.lastUsedWithVersion = none → r'.lastUsedWithVersion = r.lastUsedWithVersion
  versionSet : ∀ v, patch.lastUsedWithVersion = some v →
    r'.lastUsedWithVersion.getD "" = v ∧
      (r.lastUsedWithVersion ≠ some "" → r'.lastUsedWithVersion = nullIfEmpty v)

section
variable {P : Primitives} {masterKey : Bytes} {t : Configs} {userID configID : Int64}
variable {patch : UpdateConfigPlaintextPatch} {current : ConfigWithPlaintext}

theorem alone_done (nonce : Nonce) (clock : Nat → Int) (n : Nat) (r : Result) :
    alone P masterKey nonce clock n t (.done r) = (t, .done r) := by
  induction n generalizing clock with
  | zero => rfl
  | succ n ih => exact ih _

theorem decrypt_keySize {ct n pt : Bytes}
    (h : decrypt P masterKey userID configID ct n = .ok pt) : masterKey.length = keySize := by
  unfold decrypt deriveSubkey at h
  by_contra hk
  rw [if_pos hk] at h
  split at h <;> cases h

/-- Under a full-size key there is always a patch to hand on. -/
theorem innerPatch_total (hT : P.AppendsTag) (hk : masterKey.length = keySize) (nonce : Nonce)
    (patch : UpdateConfigPlaintextPatch) (current : ConfigWithPlaintext) :
    ∃ inner, innerPatch P masterKey nonce userID configID patch current = .ok inner ∧
      validatePatch inner = .ok () ∧ (inner.preserveModifiedAt = true →
        changed patch current = false ∧ inner.expectedModifiedAt = some current.modifiedAt) := by
  unfold innerPatch
  split
  · have htotal : ∃ inner, changedPatch P masterKey nonce userID configID patch current =
        .ok inner ∧ validatePatch inner = .ok () ∧ inner.preserveModifiedAt = false :=
      changedPatch_total hT hk nonce patch current
    obtain ⟨inner, hinner, hval, hpres⟩ := htotal
    exact ⟨inner, hinner, hval, fun h => by rw [hpres] at h; cases h⟩
  · rename_i hsame
    exact ⟨_, rfl, validatePatch_idempotent, fun _ => ⟨Bool.eq_false_iff.mpr hsame, rfl⟩⟩

/-! ## What is written -/

section
variable {r : Row} {nonce : Nonce}

theorem differs_of_nameChanged (hshow : Shows P masterKey userID configID current r) :
    nameChanged patch current = true ↔ ∃ name, patch.name = some name ∧ name ≠ r.name := by
  rw [hshow.name]
  cases hn : patch.name <;> simp [nameChanged, hn]

theorem differs_of_contentChanged (patch : UpdateConfigPlaintextPatch)
    (current : ConfigWithPlaintext) :
    contentChanged patch current = true ↔
      ∃ content, patch.content = some content ∧ content ≠ current.content := by
  cases hc : patch.content <;> simp [contentChanged, hc]

/-- A later stamp is another text. -/
theorem format_ne {now m : Int} (hm : parse r.modifiedAt = some m) :
    format (nextModifiedAt now m) ≠ r.modifiedAt := by
  intro h
  rw [← h] at hm
  have hsame := eq_of_parse_format hm
  have hlater := lt_nextModifiedAt now m
  omega

/-- A version column that is not the empty text is as the store writes it. -/
theorem eq_nullIfEmpty {v : Option String} (h : v ≠ some "") : v = nullIfEmpty (v.getD "") := by
  cases v with
  | none => rfl
  | some v =>
    have hne : v ≠ "" := fun hv => h (congrArg some hv)
    exact (if_neg hne).symm

/-- New content is never sealed to what was there: that opens to the old content. -/
theorem sealed_ne (hP : P.OpensSealed) (hshow : Shows P masterKey userID configID current r)
    {content ct n : Bytes} (hne : content ≠ current.content)
    (henc : encrypt P masterKey userID configID content nonce = .ok (ct, n)) :
    (ct, n) ≠ (r.contentCiphertext, r.contentNonce) := by
  intro h
  obtain ⟨rfl, rfl⟩ := Prod.mk.inj h
  have hopen := (decrypt_encrypt hP henc).symm.trans hshow.content
  exact hne (Except.ok.inj hopen)

/-- The columns of the content after an unconditional write. -/
theorem patchedRow_content {inner : UpdateConfigPatch} (now m : Int) (r : Row)
    (hinner : changedPatch P masterKey nonce userID configID patch current = .ok inner)
    (hval : validatePatch inner = .ok ()) :
    (contentChanged patch current = true ∧ ∃ content, patch.content = some content ∧
        encrypt P masterKey userID configID content nonce =
          .ok ((patchedRow inner now m r).contentCiphertext,
            (patchedRow inner now m r).contentNonce)) ∨
      (contentChanged patch current = false ∧
        (patchedRow inner now m r).contentCiphertext = r.contentCiphertext ∧
        (patchedRow inner now m r).contentNonce = r.contentNonce) := by
  obtain ⟨_, _, ⟨hcc, content, hpc, henc⟩ | ⟨hcc, hnil⟩⟩ := changedPatch_ok hinner
  · have hsealed : hasCipher inner = true := by
      rw [validatePatch_cipher hval, hasNonce, (encrypt_ok henc).2.2, nonce.property]
      rfl
    refine .inl ⟨hcc, content, hpc, ?_⟩
    simp only [patchedRow, hsealed, if_true]
    exact henc
  · have hempty : hasCipher inner = false := by simp [hasCipher, hnil]
    refine .inr ⟨hcc, ?_⟩
    simp [patchedRow, hempty]

theorem minimalWrite_changed (hP : P.OpensSealed) {inner : UpdateConfigPatch} (now : Int)
    (hshow : Shows P masterKey userID configID current r)
    (hchanged : changed patch current = true)
    (hinner : changedPatch P masterKey nonce userID configID patch current = .ok inner)
    (hval : validatePatch inner = .ok ()) :
    MinimalWrite P masterKey userID configID nonce patch current r
      (patchedRow inner now current.modifiedAt r) := by
  have hdiffers := differs_of_contentChanged patch current
  have hcontent := patchedRow_content now current.modifiedAt r hinner hval
  have hversion := (changedPatch_ok hinner).2.1
  refine ⟨⟨rfl, rfl, rfl⟩, ?_, ?_, ?_, ?_, ?_, ?_⟩
  · rw [← hdiffers]
    rcases hcontent with ⟨hcc, content, hpc, henc⟩ | ⟨hcc, hct, hn⟩
    · obtain ⟨content', hpc', hne⟩ := hdiffers.mp hcc
      rw [hpc, Option.some.injEq] at hpc'
      exact iff_of_true (sealed_ne hP hshow (hpc' ▸ hne) henc) hcc
    · rw [hct, hn, hcc]
      simp
  · intro content hpc hne
    rcases hcontent with ⟨_, content', hpc', henc⟩ | ⟨hcc, _⟩
    · rw [hpc, Option.some.injEq] at hpc'
      exact hpc' ▸ henc
    · rw [hdiffers.mpr ⟨content, hpc, hne⟩] at hcc
      cases hcc
  · rw [changedPatch_name hinner]
    split
    · rfl
    · rename_i hn
      rw [hshow.name]
      exact (nameChanged_eq_false.mp (Bool.eq_false_iff.mpr hn)).symm
  · have hstamp : (patchedRow inner now current.modifiedAt r).modifiedAt =
        format (nextModifiedAt now current.modifiedAt) := by
      simp [patchedRow, changedPatch_preserve hinner]
    rw [hstamp, ← differs_of_nameChanged hshow, ← hdiffers]
    exact iff_of_true (format_ne hshow.modifiedAt) (Bool.or_eq_true_iff.mp hchanged)
  · intro hnone
    simp [patchedRow, hversion, hnone]
  · intro v hv
    have hset : (patchedRow inner now current.modifiedAt r).lastUsedWithVersion =
        nullIfEmpty v := by
      simp [patchedRow, hversion, hv]
    rw [hset]
    exact ⟨getD_nullIfEmpty v, fun _ => rfl⟩

theorem minimalWrite_same (now : Int) (hshow : Shows P masterKey userID configID current r)
    (hversion : r.lastUsedWithVersion.getD "" = current.lastUsedWithVersion)
    (hsame : changed patch current = false) :
    MinimalWrite P masterKey userID configID nonce patch current r
      (patchedRow (idempotentPatch patch current) now current.modifiedAt r) := by
  obtain ⟨hsn, hsc⟩ := supplied_of_not_changed hsame
  have hnoname : ¬ ∃ name, patch.name = some name ∧ name ≠ r.name := by
    rintro ⟨name, hn, hne⟩
    exact hne ((hsn name hn).trans hshow.name.symm)
  have hnocontent : ¬ ∃ content, patch.content = some content ∧ content ≠ current.content := by
    rintro ⟨content, hc, hne⟩
    exact hne (hsc content hc)
  refine ⟨⟨rfl, rfl, rfl⟩, ?_, ?_, ?_, ?_, ?_, ?_⟩
  · exact iff_of_false (fun h => h rfl) hnocontent
  · intro content hc hne
    exact absurd ⟨content, hc, hne⟩ hnocontent
  · show r.name = patch.name.getD r.name
    cases hn : patch.name with
    | none => rfl
    | some name => exact hshow.name.trans (hsn name hn).symm
  · exact iff_of_false (fun h => h rfl) (fun h => h.elim hnoname hnocontent)
  · intro hnone
    simp [patchedRow, idempotentPatch, hnone]
  · intro v hv
    by_cases hkeep : v = current.lastUsedWithVersion
    · -- not written: the column reads as the supplied value already
      have hcol : (patchedRow (idempotentPatch patch current) now current.modifiedAt
          r).lastUsedWithVersion = r.lastUsedWithVersion := by
        simp [patchedRow, idempotentPatch, hv, hkeep]
      rw [hcol, hkeep]
      refine ⟨hversion, fun hne => ?_⟩
      rw [← hversion]
      exact eq_nullIfEmpty hne
    · have hcol : (patchedRow (idempotentPatch patch current) now current.modifiedAt
          r).lastUsedWithVersion = nullIfEmpty v := by
        simp [patchedRow, idempotentPatch, hv, hkeep]
      rw [hcol]
      exact ⟨getD_nullIfEmpty v, fun _ => rfl⟩

end

/-! ## The empty version

A version column that holds the empty text would read like NULL and be left as it is. No
operation of the stores writes one. -/

def EmptyIsNull (t : Configs) : Prop := ∀ r ∈ t.rows, r.lastUsedWithVersion ≠ some ""

theorem nullIfEmpty_ne (v : String) : nullIfEmpty v ≠ some "" := by
  unfold nullIfEmpty
  split
  · simp
  · rename_i hne
    simpa using hne

theorem EmptyIsNull.insert {r : Row} (h : EmptyIsNull t) (hlt : t.last < r.id)
    (hr : r.lastUsedWithVersion ≠ some "") : EmptyIsNull (t.insert r) := by
  intro a ha
  rcases (AutoTable.mem_insert hlt).mp ha with hold | rfl
  · exact h a hold
  · exact hr

theorem EmptyIsNull.commits {t' : Configs} (h : EmptyIsNull t) (hc : Commits t t') :
    EmptyIsNull t' := by
  cases hc with
  | idle => exact h
  | insert hins =>
    unfold createConfigInsert at hins
    split at hins
    · cases hins
    · split at hins
      · cases hins
      · rename_i hrow
        cases hins
        obtain ⟨hlt, _, rfl⟩ := insert_eq hrow
        exact h.insert hlt (nullIfEmpty_ne _)
  | create hins =>
    obtain ⟨_, inp, hlt, _, _, _, _, rfl⟩ := createConfigWithID_ok hins
    exact h.insert hlt (nullIfEmpty_ne _)
  | @update _ _ _ _ inner htx =>
    obtain ⟨_, old, _, _, _, _, _, _, rfl⟩ := updateConfigTx_ok htx
    intro a ha
    obtain ⟨b, hb, _, rfl | ⟨_, rfl⟩⟩ := AutoTable.mem_update_key ha
    · exact h a hb
    · show (inner.lastUsedWithVersion.map nullIfEmpty).getD b.lastUsedWithVersion ≠ some ""
      cases inner.lastUsedWithVersion with
      | none => exact h b hb
      | some v => exact nullIfEmpty_ne v
  | delete hdel =>
    rw [deleteConfig_ok hdel]
    intro a ha
    exact h a (AutoTable.mem_delete.mp ha).1

theorem EmptyIsNull.run {ι : Type} [DecidableEq ι] {s : Pool Configs ι VersionToken.Client}
    (h : EmptyIsNull s.shared) (es : List (ι × Env)) :
    EmptyIsNull (Pool.run (VersionToken.Client.step P masterKey) s es).shared :=
  Pool.run_invariant (I := fun s => EmptyIsNull s.shared)
    (fun s ev hs => hs.commits (VersionToken.Client.step_commits ev.2 s.shared _)) h es

/-! ## One pass -/

/-- The call goes through its loop once: it is not at its start again, and four steps
later it has returned what its row in `t'` reads as. -/
def OnePass (P : Primitives) (masterKey : Bytes) (nonce : Nonce) (clock : Nat → Int)
    (userID configID : Int64) (patch : UpdateConfigPlaintextPatch) (t t' : Configs) : Prop :=
  alone P masterKey nonce clock 4 t (.update userID configID patch .reading) =
      (t', .done (.config (getConfigPlaintext P masterKey t' userID configID))) ∧
    ∀ n, 0 < n → (alone P masterKey nonce clock n t (.update userID configID patch .reading)).2 ≠
      .update userID configID patch .reading

theorem getConfigPlaintext_of_error {e : GoError} (h : getConfig t userID configID = .error e) :
    getConfigPlaintext P masterKey t userID configID = .error e := by
  rw [getConfigPlaintext, h]

/-- After its commit the call reads twice and returns. -/
theorem alone_reloading (nonce : Nonce) (clock : Nat → Int) (idempotent : Bool) (n : Nat) :
    (alone P masterKey nonce clock n t (.update userID configID patch (.reloading idempotent))).2 ≠
        .update userID configID patch .reading ∧
      alone P masterKey nonce clock (n + 2) t
          (.update userID configID patch (.reloading idempotent)) =
        (t, .done (.config (getConfigPlaintext P masterKey t userID configID))) := by
  cases hget : getConfig t userID configID with
  | error e =>
    have hchanged := getConfig_error hget .configChanged (by decide)
    have hstep : ∀ now, (Session.update userID configID patch
        (.reloading idempotent)).step P masterKey (live now nonce) t =
          (t, .done (.config (.error e))) := by
      intro now
      simp [Encrypted.Session.step, updateStep, hget, updateFailed, hchanged]
    rw [getConfigPlaintext_of_error hget]
    refine ⟨?_, ?_⟩
    · cases n with
      | zero => simp [alone]
      | succ n => simp [alone, hstep, alone_done]
    · simp only [alone, hstep]
      exact alone_done nonce _ n _
  | ok row =>
    have hstep : ∀ now, (Session.update userID configID patch
        (.reloading idempotent)).step P masterKey (live now nonce) t =
          (t, .update userID configID patch .returning) := by
      intro now
      simp [Encrypted.Session.step, updateStep, hget]
    have hlast : ∀ now, (Session.update userID configID patch .returning).step P
        masterKey (live now nonce) t =
          (t, .done (.config (getConfigPlaintext P masterKey t userID configID))) := fun _ => rfl
    refine ⟨?_, ?_⟩
    · rcases n with _ | _ | n
      · simp [alone]
      · simp [alone, hstep]
      · simp [alone, hstep, hlast, alone_done]
    · simp only [alone, hstep, hlast, alone_done]

theorem onePass_of_error {e : GoError} (nonce : Nonce) (clock : Nat → Int)
    (h : getConfigPlaintext P masterKey t userID configID = .error e) :
    OnePass P masterKey nonce clock userID configID patch t t := by
  have hstep : ∀ now, (Session.update userID configID patch .reading).step P
      masterKey (live now nonce) t = (t, .done (.config (.error e))) := by
    intro now
    simp [Encrypted.Session.step, updateStep, live, h]
  refine ⟨?_, fun n hn => ?_⟩
  · simp only [alone, hstep, h]
    rfl
  · obtain ⟨n, rfl⟩ := Nat.exists_eq_add_of_lt hn
    simp [alone, hstep, alone_done]

theorem onePass_of_commit {inner : UpdateConfigPatch} {nonce : Nonce} {clock : Nat → Int}
    {t' : Configs} (hread : getConfigPlaintext P masterKey t userID configID = .ok current)
    (hinner : innerPatch P masterKey nonce userID configID patch current = .ok inner)
    (htx : updateConfigTx t (clock 1) userID configID inner = .ok t') :
    OnePass P masterKey nonce clock userID configID patch t t' := by
  have hfirst : ∀ now, (Session.update userID configID patch .reading).step P
      masterKey (live now nonce) t = (t, .update userID configID patch (.writing current)) := by
    intro now
    simp [Encrypted.Session.step, updateStep, live, hread]
  have hwrite : (Session.update userID configID patch (.writing current)).step P
      masterKey (live (clock 1) nonce) t =
        (t', .update userID configID patch (.reloading (!changed patch current))) := by
    simp [Encrypted.Session.step, updateStep, live, hinner, htx]
  have hcommit : ∀ n, alone P masterKey nonce clock (n + 2) t
      (.update userID configID patch .reading) = alone P masterKey nonce
        (fun i => clock (i + 1 + 1)) n t'
          (.update userID configID patch (.reloading (!changed patch current))) := by
    intro n
    simp only [alone, hfirst, hwrite]
  refine ⟨(hcommit 2).trans (alone_reloading nonce _ _ 0).2, fun n hn => ?_⟩
  rcases n with _ | _ | n
  · exact absurd hn (Nat.lt_irrefl 0)
  · simp [alone, hfirst]
  · rw [hcommit n]
    exact (alone_reloading nonce _ _ n).1

/-! ## Both calls -/

/-- The configuration as read, with what the patch supplies. -/
def patched (patch : UpdateConfigPlaintextPatch) (current : ConfigWithPlaintext)
    (modifiedAt : Int) : ConfigWithPlaintext where
  id := current.id
  userID := current.userID
  name := patch.name.getD current.name
  content := patch.content.getD current.content
  lastUsedWithVersion := patch.lastUsedWithVersion.getD current.lastUsedWithVersion
  createdAt := current.createdAt
  modifiedAt := modifiedAt

/-- The read of a row that opens and whose `created_at` is readable. -/
theorem getConfigPlaintext_of_row {r : Row} {createdAt : Int} {pt : Bytes}
    (hr : t.find (owned configID userID) = some r) (hc : parse r.createdAt = some createdAt)
    (hpt : decrypt P masterKey userID configID r.contentCiphertext r.contentNonce = .ok pt) :
    getConfigPlaintext P masterKey t userID configID =
      match parse r.modifiedAt with
      | none => .error (.wrap "sqlite: parse modified_at" (errParse r.modifiedAt))
      | some m => .ok
        ⟨r.id, r.userID, r.name, pt, r.lastUsedWithVersion.getD "", createdAt, m⟩ := by
  simp only [getConfigPlaintext, getConfig, hr, scanConfig, hc]
  cases parse r.modifiedAt with
  | none => rfl
  | some m =>
    simp only [openRow, hpt]
    rfl

section
variable {nonce : Nonce} {r r' : Row}
variable (hw : MinimalWrite P masterKey userID configID nonce patch current r r')
include hw

theorem MinimalWrite.opens (hP : P.OpensSealed)
    (hshow : Shows P masterKey userID configID current r) :
    decrypt P masterKey userID configID r'.contentCiphertext r'.contentNonce =
      .ok (patch.content.getD current.content) := by
  by_cases hnew : ∃ content, patch.content = some content ∧ content ≠ current.content
  · obtain ⟨content, hc, hne⟩ := hnew
    rw [hc]
    exact decrypt_encrypt hP (hw.sealed content hc hne)
  · have hkept := not_not.mp (mt hw.rewritten.mp hnew)
    obtain ⟨hct, hn⟩ := Prod.mk.inj hkept
    rw [hct, hn, hshow.content]
    cases hc : patch.content with
    | none => rfl
    | some content =>
      have hsame : content = current.content := by
        by_contra hne
        exact hnew ⟨content, hc, hne⟩
      rw [hsame]
      rfl

theorem MinimalWrite.versionReads :
    r'.lastUsedWithVersion.getD "" =
      patch.lastUsedWithVersion.getD (r.lastUsedWithVersion.getD "") := by
  cases hv : patch.lastUsedWithVersion with
  | none => rw [hw.version hv]; rfl
  | some v => exact (hw.versionSet v hv).1

/-- What the row reads as after a minimal write: the configuration as read, patched,
unless the new stamp is one that no reader takes. -/
theorem MinimalWrite.reads (hP : P.OpensSealed) {t' : Configs}
    (hshow : Shows P masterKey userID configID current r)
    (hc : parse r.createdAt = some current.createdAt)
    (hcur : current = ⟨r.id, r.userID, r.name, current.content, r.lastUsedWithVersion.getD "",
      current.createdAt, current.modifiedAt⟩)
    (hr' : t'.find (owned configID userID) = some r') :
    getConfigPlaintext P masterKey t' userID configID =
      match parse r'.modifiedAt with
      | none => .error (.wrap "sqlite: parse modified_at" (errParse r'.modifiedAt))
      | some m => .ok (patched patch current m) := by
  obtain ⟨hid, huser, hcreated⟩ := hw.fixed
  rw [getConfigPlaintext_of_row hr' (hcreated ▸ hc) (hw.opens hP hshow)]
  cases parse r'.modifiedAt with
  | none => rfl
  | some m =>
    simp only [patched]
    rw [hid, huser, hw.name, hw.versionReads, hcur]

end

theorem not_changed_patched (patch : UpdateConfigPlaintextPatch) (current : ConfigWithPlaintext)
    (m : Int) : changed patch (patched patch current m) = false := by
  refine Bool.or_eq_false_iff.mpr ⟨nameChanged_eq_false.mpr ?_, contentChanged_eq_false.mpr ?_⟩
  · cases hn : patch.name <;> simp [patched, hn]
  · cases hc : patch.content <;> simp [patched, hc]

/-- A call whose patch has been applied leaves the table. -/
theorem onePass_patched (nonce : Nonce) (clock : Nat → Int) {m : Int}
    (hread : getConfigPlaintext P masterKey t userID configID = .ok (patched patch current m)) :
    OnePass P masterKey nonce clock userID configID patch t t := by
  obtain ⟨r, hr, hshow, _, _⟩ := getConfigPlaintext_row hread
  have hsame := not_changed_patched patch current m
  have hinner : innerPatch P masterKey nonce userID configID patch (patched patch current m) =
      .ok (idempotentPatch patch (patched patch current m)) := by
    simp [innerPatch, hsame]
  have hnothing : idempotentPatch patch (patched patch current m) =
      { preserveModifiedAt := true, expectedModifiedAt := some m } := by
    cases hv : patch.lastUsedWithVersion <;> simp [idempotentPatch, patched, hv]
  refine onePass_of_commit hread hinner ?_
  rw [updateConfigTx_eq validatePatch_idempotent hr hshow.modifiedAt, hnothing,
    if_neg (by simp [patched])]
  exact congrArg Except.ok (AutoTable.update_of_none fun a _ _ => rfl)

end

/-! ## The patch, once and twice -/

/-- A patch of a row that can be read, with nobody else writing. The call goes through its
loop once and writes the minimum, to its own row alone. The same patch once more leaves the
table as it is. Both calls return the row patched or, if the clock of the first was out of
the years of the layout, the error of the unreadable stamp. -/
theorem patch_writes_minimum {P : Primitives} {masterKey : Bytes} (hP : P.OpensSealed)
    (hT : P.AppendsTag) {t : Configs} {userID configID : Int64} {current : ConfigWithPlaintext}
    (hread : getConfigPlaintext P masterKey t userID configID = .ok current)
    (patch : UpdateConfigPlaintextPatch) (nonce : Nonce) (clock : Nat → Int) :
    ∃ r r' t', t.find (owned configID userID) = some r ∧
      t'.find (owned configID userID) = some r' ∧
      t'.rows = t.rows.map (fun a => if owned configID userID a then r' else a) ∧
      MinimalWrite P masterKey userID configID nonce patch current r r' ∧
      OnePass P masterKey nonce clock userID configID patch t t' ∧
      (∀ nonce' clock', OnePass P masterKey nonce' clock' userID configID patch t' t') ∧
      getConfigPlaintext P masterKey t' userID configID =
        match parse r'.modifiedAt with
        | none => .error (.wrap "sqlite: parse modified_at" (errParse r'.modifiedAt))
        | some m => .ok (patched patch current m) := by
  obtain ⟨r, hr, hshow, hc, hcur⟩ := getConfigPlaintext_row hread
  have hversion : r.lastUsedWithVersion.getD "" = current.lastUsedWithVersion := by rw [hcur]
  obtain ⟨inner, hinner, hval, hexp⟩ := innerPatch_total hT (decrypt_keySize hshow.content) nonce
    patch current
  have hw : MinimalWrite P masterKey userID configID nonce patch current r
      (patchedRow inner (clock 1) current.modifiedAt r) := by
    have hcase := hinner
    unfold innerPatch at hcase
    split at hcase
    · exact minimalWrite_changed hP (clock 1) hshow ‹_› hcase hval
    · cases hcase
      exact minimalWrite_same (clock 1) hshow hversion (Bool.eq_false_iff.mpr ‹_›)
  have htx : updateConfigTx t (clock 1) userID configID inner =
      .ok (t.update (owned configID userID) (patchedRow inner (clock 1) current.modifiedAt)
        (patchedRow_id inner (clock 1) current.modifiedAt)) := by
    rw [updateConfigTx_eq hval hr hshow.modifiedAt, if_neg fun h => h.2 (hexp h.1).2]
  have hr' : (t.update (owned configID userID) (patchedRow inner (clock 1) current.modifiedAt)
      (patchedRow_id inner (clock 1) current.modifiedAt)).find (owned configID userID) =
        some (patchedRow inner (clock 1) current.modifiedAt r) := by
    rw [AutoTable.find_update (fun a => by rfl), hr]
    rfl
  have hreads := hw.reads hP hshow hc hcur hr'
  refine ⟨r, _, _, hr, hr', ?_, hw, onePass_of_commit hread hinner htx, ?_, hreads⟩
  · refine List.map_congr_left fun a ha => ?_
    split
    · rename_i hown
      obtain ⟨hid, hu⟩ := owned_iff.mp hown
      have hone := find_owned.mpr ⟨ha, hid, hu⟩
      rw [hr, Option.some.injEq] at hone
      rw [hone]
    · rfl
  · intro nonce' clock'
    split at hreads
    · exact onePass_of_error nonce' clock' hreads
    · exact onePass_patched nonce' clock' hreads

/-! ## A rename -/

def rename : UpdateConfigPlaintextPatch := ⟨some "b", none, some "2"⟩

def zeroNonce : Nonce := (envAt 0).nonce

theorem created_shows : getConfigPlaintext transparent renameKey created.shared 1 1 = .ok read := by
  rfl

theorem patch_writes_minimum_rename : ∃ t',
    OnePass transparent renameKey zeroNonce (fun _ => 5) 1 1 rename created.shared t' ∧
    ∀ nonce' clock', OnePass transparent renameKey nonce' clock' 1 1 rename t' t' := by
  obtain ⟨_, _, t', _, _, _, _, honce, htwice, _⟩ := patch_writes_minimum transparent_opensSealed
    transparent_appendsTag created_shows rename zeroNonce fun _ => 5
  exact ⟨t', honce, htwice⟩

/-- The table after the rename under a clock in the year 10000. -/
def renamedLate : Configs :=
  (alone transparent renameKey zeroNonce (fun _ => year10000) 4 created.shared
    (.update 1 1 rename .reading)).1

/-- The rename commits under that clock, and no row is returned: neither then nor when the
patch is sent again. -/
theorem late_rename_returns_no_row :
    getConfigPlaintext transparent renameKey created.shared 1 1 = .ok read ∧
    renamedLate.rows.map Row.name = ["b"] ∧
    alone transparent renameKey zeroNonce (fun _ => year10000) 4 created.shared
        (.update 1 1 rename .reading) =
      (renamedLate, .done (.config (.error (.wrap "sqlite: parse modified_at"
        (errParse "10000-01-01T00:00:00Z"))))) ∧
    alone transparent renameKey zeroNonce (fun _ => year10000) 4 renamedLate
        (.update 1 1 rename .reading) =
      (renamedLate, .done (.config (.error (.wrap "sqlite: parse modified_at"
        (errParse "10000-01-01T00:00:00Z"))))) := by
  refine ⟨created_shows, ?_, ?_, ?_⟩ <;> rfl

end TabbySync.SequentialPatch
