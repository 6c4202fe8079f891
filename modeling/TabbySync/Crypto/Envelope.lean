import Mathlib.Algebra.Group.Nat.Defs
import TabbySync.Store.Contract

/-! # The encryption envelope

`Encrypt` and `Decrypt` over the primitives they call. AES-256-GCM and
HKDF-SHA256 themselves are parameters; what a result needs of them is a named
hypothesis of that result. -/

namespace TabbySync.Crypto

def cryptoVersion : UInt8 := 1
def nonceSize : Nat := 12
def keySize : Nat := 32

/-- The library calls of the envelope: 32 bytes of HKDF output, `gcm.Seal` and
`gcm.Open`. -/
structure Primitives where
  hkdf : (masterKey : Bytes) → (info : String) → Bytes
  gcmSeal : (key nonce plaintext aad : Bytes) → Bytes
  gcmOpen : (key nonce ciphertext aad : Bytes) → Option Bytes

/-- What was sealed opens under the same key, nonce and associated data. -/
def Primitives.OpensSealed (P : Primitives) : Prop :=
  ∀ key nonce plaintext aad,
    P.gcmOpen key nonce (P.gcmSeal key nonce plaintext aad) aad = some plaintext

/-- A sealed text is its plaintext's length and a 16-byte tag. -/
def Primitives.AppendsTag (P : Primitives) : Prop :=
  ∀ key nonce plaintext aad,
    (P.gcmSeal key nonce plaintext aad).length = plaintext.length + 16

/-- Twelve bytes read from `crypto/rand`. -/
abbrev Nonce := { bs : Bytes // bs.length = nonceSize }

def hkdfInfo (userID : Int64) : String := "tabby-sync/v1/user/" ++ toString userID.toInt

/-- `binary.BigEndian.PutUint64`. -/
def putUint64 (x : UInt64) : Bytes :=
  [x >>> 56, x >>> 48, x >>> 40, x >>> 32, x >>> 24, x >>> 16, x >>> 8, x].map UInt64.toUInt8

/-- The version byte and the two ids as 64-bit big-endian patterns. -/
def buildAAD (userID configID : Int64) : Bytes :=
  cryptoVersion :: (putUint64 userID.toUInt64 ++ putUint64 configID.toUInt64)

def deriveSubkey (P : Primitives) (masterKey : Bytes) (userID : Int64) : Except GoError Bytes :=
  if masterKey.length ≠ keySize then .error (.text "crypto: master key has wrong length")
  else .ok (P.hkdf masterKey (hkdfInfo userID))

/-- The ciphertext and the nonce it was sealed under. -/
def encrypt (P : Primitives) (masterKey : Bytes) (userID configID : Int64) (plaintext : Bytes)
    (nonce : Nonce) : Except GoError (Bytes × Bytes) := do
  let subkey ← deriveSubkey P masterKey userID
  return (P.gcmSeal subkey nonce plaintext (buildAAD userID configID), nonce)

def decrypt (P : Primitives) (masterKey : Bytes) (userID configID : Int64)
    (ciphertext nonce : Bytes) : Except GoError Bytes :=
  if nonce.length ≠ nonceSize then .error .errDecrypt
  else match deriveSubkey P masterKey userID with
    | .error _ => .error .errDecrypt
    | .ok subkey =>
      match P.gcmOpen subkey nonce ciphertext (buildAAD userID configID) with
      | none => .error .errDecrypt
      | some plaintext => .ok plaintext

theorem encrypt_eq {P : Primitives} {masterKey : Bytes} (hk : masterKey.length = keySize)
    (userID configID : Int64) (plaintext : Bytes) (nonce : Nonce) :
    encrypt P masterKey userID configID plaintext nonce =
      .ok (P.gcmSeal (P.hkdf masterKey (hkdfInfo userID)) nonce plaintext
        (buildAAD userID configID), nonce) := by
  simp [encrypt, deriveSubkey, hk]

/-- A successful `Encrypt` had a full-size key, and its nonce is the one it drew. -/
theorem encrypt_ok {P : Primitives} {masterKey : Bytes} {userID configID : Int64}
    {plaintext : Bytes} {nonce : Nonce} {ct n : Bytes}
    (h : encrypt P masterKey userID configID plaintext nonce = .ok (ct, n)) :
    masterKey.length = keySize ∧
      ct = P.gcmSeal (P.hkdf masterKey (hkdfInfo userID)) nonce plaintext
        (buildAAD userID configID) ∧ n = nonce := by
  by_cases hk : masterKey.length = keySize
  · rw [encrypt_eq hk] at h
    cases h
    exact ⟨hk, rfl, rfl⟩
  · simp [encrypt, deriveSubkey, hk] at h

theorem encrypt_error {P : Primitives} {masterKey : Bytes} {userID configID : Int64}
    {content : Bytes} {nonce : Nonce} {e : GoError}
    (h : encrypt P masterKey userID configID content nonce = .error e) (s : Sentinel) :
    e.is s = false := by
  unfold encrypt deriveSubkey at h
  split at h <;> cases h
  rfl

/-- Under a full-size key `Encrypt` succeeds, and neither output is empty. -/
theorem encrypt_total {P : Primitives} (hT : P.AppendsTag) {masterKey : Bytes}
    (hk : masterKey.length = keySize) (userID configID : Int64) (plaintext : Bytes)
    (nonce : Nonce) : ∃ ct n, encrypt P masterKey userID configID plaintext nonce = .ok (ct, n) ∧
      0 < ct.length ∧ 0 < n.length := by
  refine ⟨_, _, encrypt_eq hk userID configID plaintext nonce, ?_, ?_⟩
  · rw [hT]
    exact Nat.succ_pos _
  · rw [nonce.property]
    exact Nat.succ_pos _

theorem decrypt_encrypt {P : Primitives} (hP : P.OpensSealed) {masterKey : Bytes}
    {userID configID : Int64} {plaintext : Bytes} {nonce : Nonce} {ct n : Bytes}
    (h : encrypt P masterKey userID configID plaintext nonce = .ok (ct, n)) :
    decrypt P masterKey userID configID ct n = .ok plaintext := by
  obtain ⟨hk, rfl, rfl⟩ := encrypt_ok h
  simp only [decrypt, nonce.property, ne_eq, not_true_eq_false, if_false, deriveSubkey, hk, hP _ _ _ _]

/-! ## The associated data names the row -/

/-- A number is known by its bytes. -/
theorem eq_of_bytes {n x y : Nat} (hx : x < 256 ^ n) (hy : y < 256 ^ n)
    (h : ∀ k < n, x / 256 ^ k % 256 = y / 256 ^ k % 256) : x = y := by
  induction n generalizing x y with
  | zero => simp only [Nat.pow_zero] at hx hy; omega
  | succ n ih =>
    rw [Nat.pow_succ] at hx hy
    have hhigh : x / 256 = y / 256 := by
      refine ih (by omega) (by omega) fun k hk => ?_
      rw [Nat.div_div_eq_div_mul, Nat.div_div_eq_div_mul, Nat.mul_comm, ← Nat.pow_succ]
      exact h (k + 1) (by omega)
    have hlow := h 0 (by omega)
    simp only [Nat.pow_zero, Nat.div_one] at hlow
    omega

theorem putUint64_toNat (x : UInt64) : (putUint64 x).map UInt8.toNat =
    [7, 6, 5, 4, 3, 2, 1, 0].map fun k => x.toNat / 256 ^ k % 256 := by
  simp [putUint64, UInt64.toNat_shiftRight, Nat.shiftRight_eq_div_pow]

theorem putUint64_injective {x y : UInt64} (h : putUint64 x = putUint64 y) : x = y := by
  have hbytes := congrArg (List.map UInt8.toNat) h
  rw [putUint64_toNat, putUint64_toNat] at hbytes
  apply UInt64.toNat_inj.mp
  refine eq_of_bytes (n := 8) x.toNat_lt y.toNat_lt fun k hk => ?_
  exact List.map_inj_left.mp hbytes k (by simp; omega)

/-- Over all pairs of signed ids, different pairs have different associated data. -/
theorem buildAAD_injective {userID configID userID' configID' : Int64}
    (h : buildAAD userID configID = buildAAD userID' configID') :
    userID = userID' ∧ configID = configID' := by
  obtain ⟨huser, hconfig⟩ := List.append_inj (List.cons.inj h).2 rfl
  have hpattern : ∀ {a b : Int64}, putUint64 a.toUInt64 = putUint64 b.toUInt64 → a = b := by
    intro a b hab
    cases a
    cases b
    exact congrArg Int64.ofUInt64 (putUint64_injective hab)
  exact ⟨hpattern huser, hpattern hconfig⟩

/-- What `Decrypt` returns came out of `gcm.Open` with the row's associated data. -/
theorem decrypt_ok {P : Primitives} {masterKey : Bytes} {userID configID : Int64}
    {ct n pt : Bytes} (h : decrypt P masterKey userID configID ct n = .ok pt) :
    P.gcmOpen (P.hkdf masterKey (hkdfInfo userID)) n ct (buildAAD userID configID) = some pt := by
  unfold decrypt deriveSubkey at h
  split at h
  · cases h
  · split at h
    · cases h
    · rename_i hkey
      split at hkey
      · cases hkey
      · cases hkey
        split at h
        · cases h
        · rename_i hopen
          cases h
          exact hopen

/-! ## A transparent instance

The plaintext followed by a tag that depends on the key, the nonce and the
associated data. It keeps nothing secret; it opens what it sealed and nothing
sealed under another tag, which is all that runs on fixed inputs look at. -/

def tag (key nonce aad : Bytes) : Bytes :=
  List.ofFn fun i : Fin 16 => key.getD i 0 + key.getD (i + 16) 0 + (nonce ++ aad).foldl (· + ·) 0

def transparent : Primitives where
  hkdf masterKey info := masterKey.map (· + info.toList.foldl (fun a c => a + c.toNat.toUInt8) 0)
  gcmSeal key nonce plaintext aad := plaintext ++ tag key nonce aad
  gcmOpen key nonce ciphertext aad :=
    if ciphertext.drop (ciphertext.length - 16) = tag key nonce aad then
      some (ciphertext.take (ciphertext.length - 16))
    else none

theorem transparent_appendsTag : transparent.AppendsTag := by
  intro key nonce plaintext aad
  simp [transparent, tag]

theorem transparent_opensSealed : transparent.OpensSealed := by
  intro key nonce plaintext aad
  have hlen : (tag key nonce aad).length = 16 := by simp [tag]
  simp [transparent, hlen]

end TabbySync.Crypto
