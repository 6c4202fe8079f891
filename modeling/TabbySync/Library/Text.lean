import Mathlib.Algebra.Group.Int.Defs
import Mathlib.Algebra.Group.Nat.Defs
import Mathlib.Algebra.GroupWithZero.Nat
import Mathlib.Data.List.DropRight

/-! # Text functions

Trimming, case, hexadecimal and decimal integers, over the characters of a string,
with the Unicode notion of white space. Case folding is one function on characters:
the classes of simple folding are the fibres of whichever function is supplied. -/

namespace TabbySync.Library.Text

/-! ## White space -/

/-- The characters of the Unicode property White_Space. -/
def isSpace (c : Char) : Bool :=
  (0x09 ≤ c.toNat ∧ c.toNat ≤ 0x0D) ∨ c.toNat = 0x20 ∨ c.toNat = 0x85 ∨ c.toNat = 0xA0 ∨
  c.toNat = 0x1680 ∨ (0x2000 ≤ c.toNat ∧ c.toNat ≤ 0x200A) ∨ c.toNat = 0x2028 ∨
  c.toNat = 0x2029 ∨ c.toNat = 0x202F ∨ c.toNat = 0x205F ∨ c.toNat = 0x3000

def trimSpace (s : String) : String :=
  String.ofList ((s.toList.dropWhile isSpace).rdropWhile isSpace)

theorem trimSpace_of_no_space {s : String} (h : ∀ c ∈ s.toList, isSpace c = false) :
    trimSpace s = s := by
  have front : s.toList.dropWhile isSpace = s.toList := by
    rw [List.dropWhile_eq_self_iff]
    intro hl
    simp [h _ (List.getElem_mem hl)]
  have back : s.toList.rdropWhile isSpace = s.toList := by
    rw [List.rdropWhile_eq_self_iff]
    intro hl
    simp [h _ (List.getLast_mem hl)]
  rw [trimSpace, front, back, String.ofList_toList]

/-- Trimming twice is trimming once. -/
@[simp] theorem trimSpace_trimSpace (s : String) : trimSpace (trimSpace s) = trimSpace s := by
  have front : ((s.toList.dropWhile isSpace).rdropWhile isSpace).dropWhile isSpace =
      (s.toList.dropWhile isSpace).rdropWhile isSpace := by
    rw [List.dropWhile_eq_self_iff]
    intro hl
    -- what is left after the cut at the end is a front part of what was there
    have hp := List.rdropWhile_prefix isSpace (s.toList.dropWhile isSpace)
    rw [hp.getElem hl]
    exact List.dropWhile_get_zero_not _ _ (hl.trans_le hp.length_le)
  unfold trimSpace
  rw [String.toList_ofList, front, List.rdropWhile_idempotent]

/-! ## Case -/

/-- Lower case of the ASCII letters. -/
def toLower (s : String) : String := String.ofList (s.toList.map Char.toLower)

theorem toLower_of_lower {s : String} (h : ∀ c ∈ s.toList, c.toLower = c) : toLower s = s := by
  rw [toLower, List.map_congr_left h, List.map_id', String.ofList_toList]

/-- Equality up to a folding of the characters. -/
def equalFold (fold : Char → Char) (s t : String) : Bool :=
  s.toList.map fold = t.toList.map fold

/-! ## Hexadecimal -/

def hexDigits : List Char :=
  ['0', '1', '2', '3', '4', '5', '6', '7', '8', '9', 'a', 'b', 'c', 'd', 'e', 'f']

def hexDigit (n : Nat) : Char := hexDigits.getD n '0'

def isHexDigit (c : Char) : Bool := hexDigits.contains c

/-- Two lower-case digits for each byte. -/
def hexEncode (bytes : List UInt8) : String :=
  String.ofList (bytes.flatMap fun b => [hexDigit (b.toNat / 16), hexDigit (b.toNat % 16)])

theorem isHexDigit_hexDigit (n : Nat) : isHexDigit (hexDigit n) = true := by
  unfold hexDigit isHexDigit
  rw [List.contains_iff_mem, List.getD_eq_getElem?_getD]
  cases h : hexDigits[n]? with
  | none => decide
  | some c => exact List.mem_of_getElem? h

theorem isHexDigit_of_mem_hexEncode {bytes : List UInt8} {c : Char}
    (h : c ∈ (hexEncode bytes).toList) : isHexDigit c = true := by
  rw [hexEncode, String.toList_ofList, List.mem_flatMap] at h
  obtain ⟨b, -, hc⟩ := h
  simp only [List.mem_cons, List.not_mem_nil, or_false] at hc
  obtain rfl | rfl := hc <;> exact isHexDigit_hexDigit _

theorem length_hexEncode (bytes : List UInt8) :
    (hexEncode bytes).toList.length = 2 * bytes.length := by
  rw [hexEncode, String.toList_ofList]
  induction bytes with
  | nil => rfl
  | cons b bs ih => rw [List.flatMap_cons, List.length_append, ih, List.length_cons]; simp; omega

theorem hexDigit_injective : ∀ m < 16, ∀ n < 16, hexDigit m = hexDigit n → m = n := by decide

theorem hexEncode_injective {as bs : List UInt8} (h : hexEncode as = hexEncode bs) : as = bs := by
  have hchars := congrArg String.toList h
  simp only [hexEncode, String.toList_ofList] at hchars
  clear h
  induction as generalizing bs with
  | nil =>
    cases bs with
    | nil => rfl
    | cons b bs => simp at hchars
  | cons a as ih =>
    cases bs with
    | nil => simp at hchars
    | cons b bs =>
      simp only [List.flatMap_cons, List.cons_append, List.nil_append, List.cons.injEq] at hchars
      obtain ⟨hhigh, hlow, hrest⟩ := hchars
      have ha := a.toNat_lt
      have hb := b.toNat_lt
      have hhigh := hexDigit_injective _ (by omega) _ (by omega) hhigh
      have hlow := hexDigit_injective _ (by omega) _ (by omega) hlow
      rw [ih hrest, UInt8.toNat_inj.mp (show a.toNat = b.toNat by omega)]

/-- Hexadecimal digits are neither white space nor changed by lower case. -/
theorem isHexDigit_plain {c : Char} (h : isHexDigit c = true) :
    isSpace c = false ∧ c.toLower = c := by
  have all : hexDigits.all (fun d => isSpace d = false ∧ d.toLower = d) = true := by decide
  exact of_decide_eq_true (List.all_eq_true.mp all c (List.contains_iff_mem.mp h))

/-- The value of a hexadecimal digit in either case. -/
def fromHexChar (c : Char) : Option Nat :=
  if 48 ≤ c.toNat ∧ c.toNat ≤ 57 then some (c.toNat - 48)
  else if 97 ≤ c.toNat ∧ c.toNat ≤ 102 then some (c.toNat - 87)
  else if 65 ≤ c.toNat ∧ c.toNat ≤ 70 then some (c.toNat - 55)
  else none

/-- The bytes that pairs of digits stand for. -/
def hexDecode : List Char → Option (List UInt8)
  | [] => some []
  | [_] => none
  | a :: b :: rest =>
    match fromHexChar a, fromHexChar b, hexDecode rest with
    | some x, some y, some bytes => some (UInt8.ofNat (16 * x + y) :: bytes)
    | _, _, _ => none

theorem hexDecode_some {cs : List Char} {bytes : List UInt8} (h : hexDecode cs = some bytes) :
    cs.length = 2 * bytes.length ∧ ∀ c ∈ cs, fromHexChar c ≠ none := by
  induction cs using List.twoStepInduction generalizing bytes with
  | nil =>
    cases h
    exact ⟨rfl, fun c hc => by cases hc⟩
  | singleton c => cases h
  | cons_cons a b rest ih _ =>
    cases ha : fromHexChar a with
    | none => simp [hexDecode, ha] at h
    | some x =>
      cases hb : fromHexChar b with
      | none => simp [hexDecode, ha, hb] at h
      | some y =>
        cases hrest : hexDecode rest with
        | none => simp [hexDecode, ha, hb, hrest] at h
        | some bytes' =>
          rw [hexDecode, ha, hb, hrest] at h
          cases h
          obtain ⟨hlen, hall⟩ := ih hrest
          refine ⟨by simp only [List.length_cons, hlen]; omega, ?_⟩
          intro c hc
          rcases List.mem_cons.mp hc with rfl | hc
          · simp [ha]
          · rcases List.mem_cons.mp hc with rfl | hc
            · simp [hb]
            · exact hall c hc

/-- Digits throughout, and evenly many, is all it takes. -/
theorem hexDecode_of_digits {cs : List Char} (heven : cs.length % 2 = 0)
    (hall : ∀ c ∈ cs, fromHexChar c ≠ none) : ∃ bytes, hexDecode cs = some bytes := by
  induction cs using List.twoStepInduction with
  | nil => exact ⟨[], rfl⟩
  | singleton c => cases heven
  | cons_cons a b rest ih _ =>
    obtain ⟨bytes, hbytes⟩ := ih (by simp only [List.length_cons] at heven; omega)
      fun c hc => hall c (by simp [hc])
    obtain ⟨x, hx⟩ := Option.ne_none_iff_exists'.mp (hall a (by simp))
    obtain ⟨y, hy⟩ := Option.ne_none_iff_exists'.mp (hall b (by simp))
    exact ⟨UInt8.ofNat (16 * x + y) :: bytes, by rw [hexDecode, hx, hy, hbytes]⟩

/-! ## Bytes of a text -/

/-- `len(s)`: the bytes of the encoding. -/
def byteLength (s : String) : Nat := (s.toList.map Char.utf8Size).sum

theorem utf8Size_of_hexChar {c : Char} (h : fromHexChar c ≠ none) : c.utf8Size = 1 := by
  have hlt : c.toNat ≤ 127 := by
    by_contra hgt
    apply h
    unfold fromHexChar
    rw [if_neg (by omega), if_neg (by omega), if_neg (by omega)]
  have hval : c.val ≤ 0x7F := UInt32.le_iff_toNat_le.mpr hlt
  simp [Char.utf8Size, hval]

theorem byteLength_of_hexChars {s : String} (h : ∀ c ∈ s.toList, fromHexChar c ≠ none) :
    byteLength s = s.toList.length := by
  have hones : s.toList.map Char.utf8Size = s.toList.map fun _ => 1 :=
    List.map_congr_left fun c hc => utf8Size_of_hexChar (h c hc)
  rw [byteLength, hones]
  simp

/-! ## Decimal integers -/

/-- The value of a run of decimal digits, most significant first. -/
def decimal (cs : List Char) : Option Nat :=
  if cs ≠ [] ∧ cs.all Char.isDigit then
    some (cs.foldl (fun n c => 10 * n + (c.toNat - '0'.toNat)) 0)
  else none

/-- A signed decimal integer of 64 bits: an optional sign, then digits, within range. -/
def parseInt (s : String) : Option Int64 :=
  match s.toList with
  | '-' :: cs => (decimal cs).bind fun n => if n ≤ 2 ^ 63 then some (Int64.ofInt (-n)) else none
  | '+' :: cs => (decimal cs).bind fun n => if n < 2 ^ 63 then some (Int64.ofInt n) else none
  | cs => (decimal cs).bind fun n => if n < 2 ^ 63 then some (Int64.ofInt n) else none

end TabbySync.Library.Text
