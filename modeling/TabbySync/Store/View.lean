import TabbySync.Store.Encrypted

/-! # The plaintext view of a row

What patches speak about: a row's name, its content as it opens and its version. A
commit of `UpdateConfigPlaintext` acts on the view as the patch says, provided the
fields it leaves out are the ones it was supplied with. -/

namespace TabbySync.Encrypted
open TabbySync.Sqlite TabbySync.Crypto

@[ext]
structure View where
  name : String
  content : Except GoError Bytes
  version : String
  deriving DecidableEq

/-- A patch on its own: every supplied field overwrites. -/
def applyPatch (patch : UpdateConfigPlaintextPatch) (v : View) : View where
  name := patch.name.getD v.name
  content := (patch.content.map Except.ok).getD v.content
  version := patch.lastUsedWithVersion.getD v.version

section
variable (P : Primitives) (masterKey : Bytes) (userID configID : Int64)

def viewOf (r : Row) : View where
  name := r.name
  content := decrypt P masterKey userID configID r.contentCiphertext r.contentNonce
  version := r.lastUsedWithVersion.getD ""

end

/-! ## What a commit does to the view -/

section
variable {P : Primitives} {masterKey : Bytes} {userID configID : Int64}
variable {patch : UpdateConfigPlaintextPatch} {current : ConfigWithPlaintext}

/-- The name an unconditional write leaves: the supplied one if it differed from what
was read. -/
theorem changedPatch_name {nonce : Nonce} {inner : UpdateConfigPatch} {now old : Int} {r : Row}
    (hinner : changedPatch P masterKey nonce userID configID patch current = .ok inner) :
    (patchedRow inner now old r).name =
      if nameChanged patch current then patch.name.getD r.name else r.name := by
  obtain ⟨hn, _, _⟩ := changedPatch_ok hinner
  show inner.name.getD r.name = _
  rw [hn]
  cases nameChanged patch current <;> rfl

/-- The content an unconditional write leaves, opened. -/
theorem changedPatch_content (hP : P.OpensSealed) {nonce : Nonce} {inner : UpdateConfigPatch}
    {now old : Int} {r : Row}
    (hinner : changedPatch P masterKey nonce userID configID patch current = .ok inner)
    (hval : validatePatch inner = .ok ()) :
    (viewOf P masterKey userID configID (patchedRow inner now old r)).content =
      if contentChanged patch current then
        (patch.content.map Except.ok).getD (viewOf P masterKey userID configID r).content
      else (viewOf P masterKey userID configID r).content := by
  show decrypt P masterKey userID configID
    (if hasCipher inner then inner.contentCiphertext else r.contentCiphertext)
    (if hasCipher inner then inner.contentNonce else r.contentNonce) = _
  obtain ⟨_, _, ⟨hcc, content, hpc, henc⟩ | ⟨hcc, hnil⟩⟩ := changedPatch_ok hinner
  · have hsealed : hasCipher inner = true := by
      rw [validatePatch_cipher hval, hasNonce, (encrypt_ok henc).2.2, nonce.property]
      rfl
    rw [hpc, hcc, if_pos hsealed, if_pos hsealed, decrypt_encrypt hP henc]
    rfl
  · have hempty : ¬ hasCipher inner = true := by simp [hasCipher, hnil]
    rw [hcc, if_neg hempty, if_neg hempty]
    rfl

theorem viewOf_changed (hP : P.OpensSealed) {nonce : Nonce} {inner : UpdateConfigPatch}
    {now old : Int} {r : Row}
    (hinner : changedPatch P masterKey nonce userID configID patch current = .ok inner)
    (hval : validatePatch inner = .ok ())
    (hname : nameChanged patch current = false → patch.name.getD r.name = r.name)
    (hcontent : contentChanged patch current = false →
      (patch.content.map Except.ok).getD (viewOf P masterKey userID configID r).content =
        (viewOf P masterKey userID configID r).content) :
    viewOf P masterKey userID configID (patchedRow inner now old r) =
      applyPatch patch (viewOf P masterKey userID configID r) := by
  apply View.ext
  · show (patchedRow inner now old r).name = patch.name.getD r.name
    rw [changedPatch_name hinner]
    split
    · rfl
    · exact (hname (Bool.eq_false_iff.mpr ‹_›)).symm
  · rw [changedPatch_content hP hinner hval]
    split
    · rfl
    · exact (hcontent (Bool.eq_false_iff.mpr ‹_›)).symm
  · show ((inner.lastUsedWithVersion.map nullIfEmpty).getD r.lastUsedWithVersion).getD "" = _
    rw [(changedPatch_ok hinner).2.1]
    exact getD_map_nullIfEmpty _ _

/-- A patch that repeats a view's name and content can only change its version. -/
theorem applyPatch_repeat {v : View} (hsame : changed patch current = false)
    (hn : v.name = current.name) (hc : v.content = .ok current.content) :
    applyPatch patch v = { v with version := patch.lastUsedWithVersion.getD v.version } := by
  obtain ⟨hsn, hsc⟩ := supplied_of_not_changed hsame
  apply View.ext
  · cases hpn : patch.name with
    | none => simp [applyPatch, hpn]
    | some name => simp [applyPatch, hpn, hsn name hpn, hn]
  · cases hpc : patch.content with
    | none => simp [applyPatch, hpc]
    | some content => simp [applyPatch, hpc, hsc content hpc, hc]
  · rfl

theorem viewOf_metadata {now old : Int} (r : Row) :
    viewOf P masterKey userID configID (patchedRow (idempotentPatch patch current) now old r) =
      { viewOf P masterKey userID configID r with
        version := (idempotentPatch patch current).lastUsedWithVersion.getD
          (r.lastUsedWithVersion.getD "") } :=
  View.ext rfl rfl (getD_map_nullIfEmpty _ _)

end

end TabbySync.Encrypted
