import Mathlib.Order.Basic

/-! # The persistence contract

The records that cross the store boundary and the errors its implementations
return. A byte slice is the list of its bytes: no code here tells a nil slice from
an empty one. An instant is a number of nanoseconds since the Unix epoch in UTC. -/

namespace TabbySync

abbrev Bytes := List UInt8

instance int64LinearOrder : LinearOrder Int64 where
  le_refl := Int64.le_refl
  le_trans _ _ _ := Int64.le_trans
  le_antisymm _ _ := Int64.le_antisymm
  le_total := Int64.le_total
  lt_iff_le_not_ge a b := by
    rw [Int64.lt_iff_toInt_lt, Int64.le_iff_toInt_le, Int64.le_iff_toInt_le]
    omega
  toDecidableLE := inferInstance

/-! ## Errors -/

/-- The package-level error values callers test with `errors.Is`. -/
inductive Sentinel
  | configNotFound
  | invalidPatch
  | configChanged
  | decrypt
  | canceled
  | deadlineExceeded
  deriving DecidableEq, Repr

/-- An error value: a sentinel, a text, or one of the two `%w` wrappings in use. -/
inductive GoError
  | sentinel (s : Sentinel)
  | text (msg : String)
  /-- `fmt.Errorf("context: %w", cause)` -/
  | wrap (context : String) (cause : GoError)
  /-- `fmt.Errorf("%w: note", cause)` -/
  | detail (cause : GoError) (note : String)
  deriving DecidableEq, Repr

namespace GoError

def errConfigNotFound : GoError := .sentinel .configNotFound
def errInvalidPatch : GoError := .sentinel .invalidPatch
def errConfigChanged : GoError := .sentinel .configChanged
def errDecrypt : GoError := .sentinel .decrypt

/-- `errors.Is(err, target)`. -/
def is : GoError → Sentinel → Bool
  | .sentinel s, target => s == target
  | .text _, _ => false
  | .wrap _ cause, target => cause.is target
  | .detail cause _, target => cause.is target

/-- `err.Error()`. -/
def message : GoError → String
  | .sentinel .configNotFound => "store: config not found"
  | .sentinel .invalidPatch => "store: invalid update patch"
  | .sentinel .configChanged => "store: config changed"
  | .sentinel .decrypt => "crypto: decryption failed"
  | .sentinel .canceled => "context canceled"
  | .sentinel .deadlineExceeded => "context deadline exceeded"
  | .text msg => msg
  | .wrap context cause => context ++ ": " ++ cause.message
  | .detail cause note => cause.message ++ ": " ++ note

end GoError

/-- What `ctx.Err()` returns once a context is done. -/
inductive ContextErr
  | canceled
  | deadlineExceeded
  deriving DecidableEq, Repr

def ContextErr.toError : ContextErr → GoError
  | .canceled => .sentinel .canceled
  | .deadlineExceeded => .sentinel .deadlineExceeded

/-! ## Rows as callers see them -/

structure Config where
  id : Int64
  userID : Int64
  name : String
  contentCiphertext : Bytes
  contentNonce : Bytes
  lastUsedWithVersion : String
  createdAt : Int
  modifiedAt : Int
  deriving DecidableEq, Repr

structure CreateConfigInput where
  name : String
  contentCiphertext : Bytes
  contentNonce : Bytes
  lastUsedWithVersion : String
  deriving DecidableEq, Repr

/-- A callback run with the reserved id inside the create transaction. -/
abbrev CreateConfigInputBuilder := Int64 → Except GoError CreateConfigInput

/-- A partial update. An empty ciphertext or nonce means "do not change". -/
structure UpdateConfigPatch where
  name : Option String := none
  contentCiphertext : Bytes := []
  contentNonce : Bytes := []
  lastUsedWithVersion : Option String := none
  preserveModifiedAt : Bool := false
  expectedModifiedAt : Option Int := none
  deriving DecidableEq, Repr

/-! ## The plaintext view -/

structure CreateConfigPlaintextInput where
  name : String
  content : Bytes
  lastUsedWithVersion : String
  deriving DecidableEq, Repr

/-- Absent fields are left alone; a present empty value clears. -/
structure UpdateConfigPlaintextPatch where
  name : Option String
  content : Option Bytes
  lastUsedWithVersion : Option String
  deriving DecidableEq, Repr

structure ConfigWithPlaintext where
  id : Int64
  userID : Int64
  name : String
  content : Bytes
  lastUsedWithVersion : String
  createdAt : Int
  modifiedAt : Int
  deriving DecidableEq, Repr

end TabbySync
