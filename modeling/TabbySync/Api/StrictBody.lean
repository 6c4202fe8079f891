import TabbySync.Api.Handlers
import TabbySync.Library.Json

/-! # Strict bodies

`decodeJSON` decodes the first value of a body and then asks `Decoder.More` whether anything
follows. `More` is made for the inside of arrays and objects: it also says no when the next
byte closes one. So a body passes with anything after its first value that starts, blanks
apart, with a closing bracket.

`Decode` is the scanner of the library and then any function from the text of a value to the
request (which may refuse the text: an unknown field, another type, nesting too deep). -/

namespace TabbySync.Api

open Library

variable {α : Type}

def decode (unmarshal : Bytes → Option α) (body : Bytes) : Option (α × Bytes) :=
  match Json.scan body with
  | none => none
  | some (text, rest) => (unmarshal text).map fun v => (v, rest)

/-- The body is one JSON value and blanks around it, and the value is decoded to `v`. -/
def ExactlyOne (unmarshal : Bytes → Option α) (body : Bytes) (v : α) : Prop :=
  ∃ w text w', Json.Blank w ∧ Json.IsValue text ∧ Json.Blank w' ∧ body = w ++ (text ++ w') ∧
    unmarshal text = some v

/-- `decodeJSON` is strict about a body. -/
structure StrictOn (unmarshal : Bytes → Option α) (body : Bytes) : Prop where
  only : ∀ v, decodeJSON (decode unmarshal) (some body) = .ok v → ExactlyOne unmarshal body v
  rejects : ∀ text rest, Json.scan body = some (text, rest) → ¬ Json.Blank rest →
    decodeJSON (decode unmarshal) (some body) = .error (writeError 400 errBadRequest)

/-- Blanks apart, the bytes start with a closing bracket. -/
def Closes (rest : Bytes) : Prop :=
  ∃ k : Json.Kind, (rest.dropWhile Json.isSpace).head? = some k.closing

section
variable {unmarshal : Bytes → Option α} {body text rest : Bytes} {v : α}

theorem more_eq_false_iff : more rest = false ↔ Json.Blank rest ∨ Closes rest := by
  have hspace : (fun b : UInt8 => decide (b = 0x20 ∨ b = 0x09 ∨ b = 0x0D ∨ b = 0x0A)) =
      Json.isSpace := rfl
  unfold more Closes Json.Blank
  rw [hspace, ← List.dropWhile_eq_nil_iff]
  cases rest.dropWhile Json.isSpace with
  | nil => simp
  | cons b r =>
    constructor
    · intro h
      by_cases harray : b = 0x5D
      · exact .inr ⟨.array, congrArg some harray⟩
      · by_cases hobject : b = 0x7D
        · exact .inr ⟨.object, congrArg some hobject⟩
        · exact absurd h (by simp [harray, hobject])
    · intro h
      obtain ⟨k, hk⟩ := h.resolve_left nofun
      rw [Option.some.inj hk]
      cases k <;> rfl

theorem decode_eq_some_iff :
    decode unmarshal body = some (v, rest) ↔
      ∃ text, Json.scan body = some (text, rest) ∧ unmarshal text = some v := by
  unfold decode
  split
  · rename_i hscan
    simp [hscan]
  · rename_i text rest' hscan
    simp only [hscan, Option.map_eq_some_iff, Option.some.injEq, Prod.mk.injEq]
    constructor
    · intro h
      obtain ⟨_, hv, rfl, rfl⟩ := h
      exact ⟨text, ⟨rfl, rfl⟩, hv⟩
    · intro h
      obtain ⟨_, ⟨rfl, rfl⟩, hv⟩ := h
      exact ⟨v, hv, rfl, rfl⟩

theorem decodeJSON_eq_ok_iff {dec : Bytes → Option (α × Bytes)} :
    decodeJSON dec (some body) = .ok v ↔ ∃ rest, dec body = some (v, rest) ∧ more rest = false := by
  unfold decodeJSON
  dsimp only
  split
  · rename_i hdec
    simp [hdec]
  · rename_i v' rest hdec
    split
    · rename_i hmore
      simp [hdec, hmore]
    · rename_i hmore
      simp [hdec, Bool.eq_false_iff.mpr hmore]

theorem decodeJSON_ok_iff :
    decodeJSON (decode unmarshal) (some body) = .ok v ↔
      ∃ text rest, Json.scan body = some (text, rest) ∧ unmarshal text = some v ∧
        (Json.Blank rest ∨ Closes rest) := by
  simp only [decodeJSON_eq_ok_iff, decode_eq_some_iff, more_eq_false_iff]
  constructor
  · intro h
    obtain ⟨rest, ⟨text, hscan, hv⟩, hrest⟩ := h
    exact ⟨text, rest, hscan, hv, hrest⟩
  · intro h
    obtain ⟨text, rest, hscan, hv, hrest⟩ := h
    exact ⟨rest, ⟨text, hscan, hv⟩, hrest⟩

/-- Every refusal is a 400. -/
theorem decodeJSON_error (h : ∀ v, decodeJSON (decode unmarshal) (some body) ≠ .ok v) :
    decodeJSON (decode unmarshal) (some body) = .error (writeError 400 errBadRequest) := by
  unfold decodeJSON at h ⊢
  dsimp only at h ⊢
  split
  · rfl
  · rename_i v rest hdecode
    rw [hdecode] at h
    split
    · rfl
    · rename_i hmore
      exact absurd (if_neg hmore) (h v)

/-- `decodeJSON` is strict about a body unless its first value is decoded and what follows
starts with a closing bracket. -/
theorem strictOn_iff (unmarshal : Bytes → Option α) (body : Bytes) :
    StrictOn unmarshal body ↔ ∀ text rest, Json.scan body = some (text, rest) →
      (unmarshal text).isSome = true → ¬ Closes rest := by
  constructor
  · intro h text rest hscan hvalue hcloses
    obtain ⟨v, hv⟩ := Option.isSome_iff_exists.mp hvalue
    have hok := decodeJSON_ok_iff.mpr ⟨text, rest, hscan, hv, .inr hcloses⟩
    have hnotBlank : ¬ Json.Blank rest := by
      intro hblank
      obtain ⟨k, hk⟩ := hcloses
      rw [List.dropWhile_eq_nil_iff.mpr hblank] at hk
      cases hk
    rw [h.rejects text rest hscan hnotBlank] at hok
    cases hok
  · intro h
    have hblank : ∀ text rest v, Json.scan body = some (text, rest) → unmarshal text = some v →
        Json.Blank rest ∨ Closes rest → Json.Blank rest := by
      intro text rest v hscan hv hrest
      exact hrest.resolve_right (h text rest hscan (by rw [hv]; rfl))
    constructor
    · intro v hok
      obtain ⟨text, rest, hscan, hv, hrest⟩ := decodeJSON_ok_iff.mp hok
      obtain ⟨w, hw, htext, hbody⟩ := Json.scan_sound hscan
      exact ⟨w, text, rest, hw, htext, hblank text rest v hscan hv hrest, hbody, hv⟩
    · intro text rest hscan hnotBlank
      refine decodeJSON_error fun v hok => hnotBlank ?_
      obtain ⟨text', rest', hscan', hv, hrest⟩ := decodeJSON_ok_iff.mp hok
      rw [hscan] at hscan'
      cases hscan'
      exact hblank text rest v hscan hv hrest

theorem scan_of_blank {w w' : Bytes} (hw : Json.Blank w) (htext : Json.IsValue text)
    (hw' : Json.Blank w') : Json.scan (w ++ (text ++ w')) = some (text, w') := by
  refine Json.scan_complete hw htext ?_
  cases w' with
  | nil => rfl
  | cons b w' =>
    rcases Json.isSpace_cases (hw' b (by simp)) with rfl | rfl | rfl | rfl <;> rfl

/-- The body of one value that is decoded always passes. -/
theorem decodeJSON_of_exactlyOne (h : ExactlyOne unmarshal body v) :
    decodeJSON (decode unmarshal) (some body) = .ok v := by
  obtain ⟨w, text, w', hw, htext, hw', rfl, hv⟩ := h
  exact decodeJSON_ok_iff.mpr ⟨text, w', scan_of_blank hw htext hw', hv, .inl hw'⟩

end

/-- The text of an object with the name "a". -/
def objectA : Bytes := [0x7B, 0x22, 0x6E, 0x61, 0x6D, 0x65, 0x22, 0x3A, 0x22, 0x61, 0x22, 0x7D]

/-- A decoder that knows this text. -/
def unmarshalA (text : Bytes) : Option CreateConfigRequest :=
  if text = objectA then some ⟨"a"⟩ else none

/-- The object, a closing bracket and an x: the body is accepted. -/
theorem trailing_bracket_accepted :
    decodeJSON (decode unmarshalA) (some (objectA ++ [0x5D, 0x78])) = .ok ⟨"a"⟩ ∧
      ¬ ∃ v, ExactlyOne unmarshalA (objectA ++ [0x5D, 0x78]) v := by
  have hscan : Json.scan (objectA ++ [0x5D, 0x78]) = some (objectA, [0x5D, 0x78]) := by
    decide +kernel
  constructor
  · exact decodeJSON_ok_iff.mpr ⟨objectA, [0x5D, 0x78], hscan, rfl, .inr ⟨.array, rfl⟩⟩
  · intro h
    obtain ⟨v, w, text, w', hw, htext, hw', hbody, _⟩ := h
    rw [hbody, scan_of_blank hw htext hw'] at hscan
    cases hscan
    cases hw' 0x5D (by simp)

end TabbySync.Api
