import Mathlib.Data.List.TakeWhile

/-! # JSON texts

The grammar of JSON over bytes, and a scanner that takes the first value off a text. A
scanner returns what it took and what is left. Inside a string any byte from 0x20 on may
stand, so a text need not be valid UTF-8. -/

namespace TabbySync.Library.Json

/-- The bytes of a text. -/
abbrev Text := List UInt8

/-! ## Scanners -/

abbrev Scanner := Text → Option (Text × Text)

/-- One scanner after the other. -/
def Scanner.seq (p q : Scanner) : Scanner := fun bs =>
  match p bs with
  | none => none
  | some (t, r) =>
    match q r with
    | none => none
    | some (t', r') => some (t ++ t', r')

/-- One byte with a property. -/
def one (f : UInt8 → Bool) : Scanner
  | [] => none
  | b :: r => if f b then some ([b], r) else none

def span (f : UInt8 → Bool) : Scanner := fun bs => some (bs.takeWhile f, bs.dropWhile f)

/-- Run a scanner only if the next byte has a property. -/
def optional (f : UInt8 → Bool) (p : Scanner) : Scanner := fun bs =>
  if bs.head?.any f then p bs else some ([], bs)

def word (w : Text) : Scanner := fun bs =>
  if w.isPrefixOf bs then some (w, bs.drop w.length) else none

/-! ## Blanks, numbers and strings -/

def isSpace (b : UInt8) : Bool := b = 0x20 ∨ b = 0x09 ∨ b = 0x0D ∨ b = 0x0A

def isDigit (b : UInt8) : Bool := 0x30 ≤ b ∧ b ≤ 0x39

def isHex (b : UInt8) : Bool :=
  isDigit b ∨ (0x61 ≤ b ∧ b ≤ 0x66) ∨ (0x41 ≤ b ∧ b ≤ 0x46)

def isExponentMark (b : UInt8) : Bool := b = 0x65 ∨ b = 0x45

def isSign (b : UInt8) : Bool := b = 0x2B ∨ b = 0x2D

def Blank (t : Text) : Prop := ∀ b ∈ t, isSpace b = true

def blank : Scanner := span isSpace

def IsDigits (t : Text) : Prop := t ≠ [] ∧ ∀ b ∈ t, isDigit b = true

def digits : Scanner := (one isDigit).seq (span isDigit)

/-- Zero, or digits that do not start with one. -/
def integer : Scanner := fun bs =>
  if bs.head? = some 0x30 then one isDigit bs else digits bs

def fraction : Scanner := optional (· = 0x2E) ((one (· = 0x2E)).seq digits)

def exponent : Scanner :=
  optional isExponentMark ((one isExponentMark).seq ((optional isSign (one isSign)).seq digits))

def number : Scanner :=
  (optional (· = 0x2D) (one (· = 0x2D))).seq (integer.seq (fraction.seq exponent))

/-- The parts of a number: sign, integer, fraction, exponent. -/
inductive IsNumber : Text → Prop
  | mk {s i f e : Text} (sign : s = [] ∨ s = [0x2D])
      (int : i = [0x30] ∨ IsDigits i ∧ i.head? ≠ some 0x30)
      (frac : f = [] ∨ ∃ ds, IsDigits ds ∧ f = 0x2E :: ds)
      (exp : e = [] ∨ ∃ m s ds, isExponentMark m = true ∧
        (s = [] ∨ ∃ c, isSign c = true ∧ s = [c]) ∧ IsDigits ds ∧ e = m :: (s ++ ds)) :
      IsNumber (s ++ (i ++ (f ++ e)))

/-- What may follow a backslash, `u` apart. -/
def isEscape (b : UInt8) : Bool :=
  b = 0x62 ∨ b = 0x66 ∨ b = 0x6E ∨ b = 0x72 ∨ b = 0x74 ∨ b = 0x5C ∨ b = 0x2F ∨ b = 0x22

/-- A byte that stands for itself in a string. -/
def isPlain (b : UInt8) : Bool := 0x20 ≤ b ∧ b ≠ 0x22 ∧ b ≠ 0x5C

/-- The rest of a string, with its closing quote. -/
inductive IsChars : Text → Prop
  | close : IsChars [0x22]
  | plain {b : UInt8} {t : Text} (hb : isPlain b = true) (ht : IsChars t) : IsChars (b :: t)
  | escape {b : UInt8} {t : Text} (hb : isEscape b = true) (ht : IsChars t) :
      IsChars (0x5C :: b :: t)
  | unicode {a b c d : UInt8} {t : Text} (ha : isHex a = true) (hb : isHex b = true)
      (hc : isHex c = true) (hd : isHex d = true) (ht : IsChars t) :
      IsChars (0x5C :: 0x75 :: a :: b :: c :: d :: t)

/-- Put bytes before what was taken. -/
def taking (t : Text) : Option (Text × Text) → Option (Text × Text)
  | none => none
  | some (t', r) => some (t ++ t', r)

def chars : Scanner
  | [] => none
  | b :: r =>
    if b = 0x22 then some ([b], r)
    else if isPlain b then taking [b] (chars r)
    else if b = 0x5C then
      match r with
      | e :: r =>
        if isEscape e then taking [b, e] (chars r)
        else if e = 0x75 then
          match r with
          | h₁ :: h₂ :: h₃ :: h₄ :: r =>
            if isHex h₁ && isHex h₂ && isHex h₃ && isHex h₄ then
              taking [b, e, h₁, h₂, h₃, h₄] (chars r)
            else none
          | _ => none
        else none
      | [] => none
    else none

def quoted : Scanner := (one (· = 0x22)).seq chars

/-! ## Values -/

inductive Kind
  | array
  | object

def Kind.opening : Kind → UInt8
  | .array => 0x5B
  | .object => 0x7B

def Kind.closing : Kind → UInt8
  | .array => 0x5D
  | .object => 0x7D

def literals : List Text :=
  [[0x6E, 0x75, 0x6C, 0x6C], [0x74, 0x72, 0x75, 0x65], [0x66, 0x61, 0x6C, 0x73, 0x65]]

/-- What stands before a value of an array or an object: blanks, or a key and a colon. -/
def IsLead : Kind → Text → Prop
  | .array, t => Blank t
  | .object, t => ∃ w k w' w'', Blank w ∧ IsChars k ∧ Blank w' ∧ Blank w'' ∧
      t = w ++ (0x22 :: k ++ (w' ++ (0x3A :: w'')))

mutual
inductive IsValue : Text → Prop
  | literal {t : Text} (h : t ∈ literals) : IsValue t
  | number {t : Text} (h : IsNumber t) : IsValue t
  | string {t : Text} (h : IsChars t) : IsValue (0x22 :: t)
  | empty {w : Text} (k : Kind) (h : Blank w) : IsValue (k.opening :: (w ++ [k.closing]))
  | items {t : Text} (k : Kind) (h : IsItems k t) : IsValue (k.opening :: t)

/-- The items of an array or an object, up to the closing bracket. -/
inductive IsItems : Kind → Text → Prop
  | last {k : Kind} {l v w : Text} (hl : IsLead k l) (hv : IsValue v) (hw : Blank w) :
      IsItems k (l ++ (v ++ (w ++ [k.closing])))
  | more {k : Kind} {l v w t : Text} (hl : IsLead k l) (hv : IsValue v) (hw : Blank w)
      (ht : IsItems k t) : IsItems k (l ++ (v ++ (w ++ (0x2C :: t))))
end

def lead : Kind → Scanner
  | .array => blank
  | .object => blank.seq (quoted.seq (blank.seq ((one (· = 0x3A)).seq blank)))

/-- What follows an item: a comma and more of them, or the closing bracket. -/
def afterItem (k : Kind) (p : Scanner) : Scanner := fun r =>
  if r.head? = some 0x2C then (one (· = 0x2C)).seq p r else one (· = k.closing) r

mutual
def value : Nat → Scanner
  | 0 => fun _ => none
  | fuel + 1 => fun bs =>
    match bs.head? with
    | none => none
    | some b =>
      if b = 0x22 then quoted bs
      else if b = 0x5B then (one (· = 0x5B)).seq (items .array true fuel) bs
      else if b = 0x7B then (one (· = 0x7B)).seq (items .object true fuel) bs
      else if b = 0x6E then word [0x6E, 0x75, 0x6C, 0x6C] bs
      else if b = 0x74 then word [0x74, 0x72, 0x75, 0x65] bs
      else if b = 0x66 then word [0x66, 0x61, 0x6C, 0x73, 0x65] bs
      else number bs

/-- The items after an opening bracket, where there may be none, or after a comma. -/
def items (k : Kind) (first : Bool) : Nat → Scanner
  | 0 => fun _ => none
  | fuel + 1 => fun bs =>
    if first && (bs.dropWhile isSpace).head? = some k.closing then
      blank.seq (one (· = k.closing)) bs
    else
      (lead k).seq ((value fuel).seq (blank.seq (afterItem k (items k false fuel)))) bs
end

/-- The first value of a text, without the blanks before it, and what follows it. -/
def scan (bs : Text) : Option (Text × Text) :=
  value (bs.length + 1) (bs.dropWhile isSpace)

/-! ## What is taken is in the grammar -/

/-- What a scanner takes stands at the front and is in the language. -/
def Sound (p : Scanner) (L : Text → Prop) : Prop :=
  ∀ bs t r, p bs = some (t, r) → bs = t ++ r ∧ L t

section
variable {p q : Scanner} {L M : Text → Prop} {f : UInt8 → Bool}

theorem Sound.mono (h : Sound p L) (hsub : ∀ t, L t → M t) : Sound p M := by
  intro bs t r hp
  obtain ⟨hbs, ht⟩ := h bs t r hp
  exact ⟨hbs, hsub t ht⟩

theorem Sound.seq (hp : Sound p L) (hq : Sound q M) :
    Sound (p.seq q) fun t => ∃ a b, L a ∧ M b ∧ t = a ++ b := by
  intro bs t r h
  unfold Scanner.seq at h
  split at h
  · cases h
  rename_i a r₁ ha
  split at h
  · cases h
  rename_i b r₂ hb
  obtain ⟨hbs, hla⟩ := hp bs a r₁ ha
  obtain ⟨hr, hmb⟩ := hq r₁ b r₂ hb
  cases h
  exact ⟨by rw [hbs, hr, List.append_assoc], a, b, hla, hmb, rfl⟩

theorem sound_one (f : UInt8 → Bool) : Sound (one f) fun t => ∃ b, f b = true ∧ t = [b] := by
  intro bs t r h
  cases bs with
  | nil => cases h
  | cons b bs =>
    simp only [one] at h
    split at h
    · rename_i hb
      cases h
      exact ⟨rfl, b, hb, rfl⟩
    · cases h

theorem sound_span (f : UInt8 → Bool) : Sound (span f) fun t => ∀ b ∈ t, f b = true := by
  intro bs t r h
  cases h
  exact ⟨List.takeWhile_append_dropWhile.symm, fun b hb => List.mem_takeWhile_imp hb⟩

theorem Sound.optional (h : Sound p L) : Sound (optional f p) fun t => t = [] ∨ L t := by
  intro bs t r hopt
  unfold Json.optional at hopt
  split at hopt
  · obtain ⟨hbs, ht⟩ := h bs t r hopt
    exact ⟨hbs, .inr ht⟩
  · cases hopt
    exact ⟨rfl, .inl rfl⟩

theorem sound_word (w : Text) : Sound (word w) fun t => t = w := by
  intro bs t r h
  unfold word at h
  split at h
  · rename_i hpre
    cases h
    obtain ⟨rest, rfl⟩ := List.isPrefixOf_iff_prefix.mp hpre
    exact ⟨by rw [List.drop_left], rfl⟩
  · cases h

end

theorem sound_digits : Sound digits IsDigits := by
  refine ((sound_one isDigit).seq (sound_span isDigit)).mono fun t ht => ?_
  obtain ⟨a, b, ⟨d, hd, rfl⟩, hb, rfl⟩ := ht
  refine ⟨by simp, fun c hc => ?_⟩
  rcases List.mem_cons.mp hc with rfl | hc
  · exact hd
  · exact hb c hc

theorem sound_integer :
    Sound integer fun t => t = [0x30] ∨ IsDigits t ∧ t.head? ≠ some 0x30 := by
  intro bs t r h
  unfold integer at h
  split at h
  · rename_i hzero
    obtain ⟨hbs, b, _, rfl⟩ := sound_one isDigit bs t r h
    rw [hbs] at hzero
    exact ⟨hbs, .inl (by rw [Option.some.inj hzero])⟩
  · rename_i hzero
    obtain ⟨hbs, ht⟩ := sound_digits bs t r h
    refine ⟨hbs, .inr ⟨ht, fun hhead => hzero ?_⟩⟩
    rw [hbs, List.head?_append, hhead]
    rfl

theorem sound_number : Sound number IsNumber := by
  have hsign := (sound_one fun b => b = 0x2D).optional (f := fun b => b = 0x2D)
  have hfrac := ((sound_one fun b => b = 0x2E).seq sound_digits).optional (f := fun b => b = 0x2E)
  have hexp := ((sound_one isExponentMark).seq
    (((sound_one isSign).optional (f := isSign)).seq sound_digits)).optional (f := isExponentMark)
  refine (hsign.seq (sound_integer.seq (hfrac.seq hexp))).mono fun t ht => ?_
  obtain ⟨s, _, hs, ⟨i, _, hi, ⟨f, e, hf, he, rfl⟩, rfl⟩, rfl⟩ := ht
  refine .mk (hs.imp_right fun h => ?_) hi (hf.imp_right fun h => ?_) (he.imp_right fun h => ?_)
  · obtain ⟨b, hb, rfl⟩ := h
    rw [of_decide_eq_true hb]
  · obtain ⟨_, ds, ⟨b, hb, rfl⟩, hds, rfl⟩ := h
    exact ⟨ds, hds, by rw [of_decide_eq_true hb]; rfl⟩
  · obtain ⟨_, _, ⟨m, hm, rfl⟩, ⟨sgn, ds, hsgn, hds, rfl⟩, rfl⟩ := h
    exact ⟨m, sgn, ds, hm, hsgn, hds, rfl⟩

theorem taking_some {a t r : Text} {x : Option (Text × Text)} (h : taking a x = some (t, r)) :
    ∃ t', x = some (t', r) ∧ t = a ++ t' := by
  unfold taking at h
  split at h
  · cases h
  · cases h
    exact ⟨_, rfl, rfl⟩

theorem sound_chars : Sound chars IsChars := by
  intro bs
  fun_induction chars bs with
  | case2 r₀ =>
    intro t r h
    cases h
    exact ⟨rfl, .close⟩
  | case3 b r₀ _ hplain ih =>
    intro t r h
    obtain ⟨t', hr, rfl⟩ := taking_some h
    obtain ⟨rfl, ht'⟩ := ih t' r hr
    exact ⟨rfl, .plain hplain ht'⟩
  | case4 e r₀ hescape _ _ ih =>
    intro t r h
    obtain ⟨t', hr, rfl⟩ := taking_some h
    obtain ⟨rfl, ht'⟩ := ih t' r hr
    exact ⟨rfl, .escape hescape ht'⟩
  | case5 h₁ h₂ h₃ h₄ r₀ hhex _ _ _ ih =>
    intro t r h
    obtain ⟨t', hr, rfl⟩ := taking_some h
    obtain ⟨rfl, ht'⟩ := ih t' r hr
    simp only [Bool.and_eq_true] at hhex
    exact ⟨rfl, .unicode hhex.1.1.1 hhex.1.1.2 hhex.1.2 hhex.2 ht'⟩
  | _ =>
    -- the branches without a string
    intro t r h
    cases h

theorem sound_quoted : Sound quoted fun t => ∃ k, IsChars k ∧ t = 0x22 :: k := by
  refine ((sound_one fun b => b = 0x22).seq sound_chars).mono fun t ht => ?_
  obtain ⟨_, k, ⟨b, hb, rfl⟩, hk, rfl⟩ := ht
  exact ⟨k, hk, by rw [of_decide_eq_true hb]; rfl⟩

theorem sound_lead (k : Kind) : Sound (lead k) (IsLead k) := by
  cases k with
  | array => exact sound_span isSpace
  | object =>
    have hblank := sound_span isSpace
    refine (hblank.seq (sound_quoted.seq (hblank.seq
      ((sound_one fun b => b = 0x3A).seq hblank)))).mono fun t ht => ?_
    obtain ⟨w, _, hw, ⟨_, _, ⟨key, hkey, rfl⟩, ⟨w', _, hw', ⟨_, w'', ⟨b, hb, rfl⟩, hw'', rfl⟩, rfl⟩,
      rfl⟩, rfl⟩ := ht
    refine ⟨w, key, w', w'', hw, hkey, hw', hw'', ?_⟩
    rw [of_decide_eq_true hb]
    rfl

theorem sound_afterItem {k : Kind} {p : Scanner} {L : Text → Prop} (h : Sound p L) :
    Sound (afterItem k p) fun t => t = [k.closing] ∨ ∃ t', L t' ∧ t = 0x2C :: t' := by
  intro bs t r hafter
  unfold afterItem at hafter
  split at hafter
  · obtain ⟨hbs, _, t', ⟨b, hb, rfl⟩, ht', rfl⟩ := (sound_one _).seq h bs t r hafter
    exact ⟨hbs, .inr ⟨t', ht', by rw [of_decide_eq_true hb]; rfl⟩⟩
  · obtain ⟨hbs, b, hb, rfl⟩ := sound_one _ bs t r hafter
    exact ⟨hbs, .inl (by rw [of_decide_eq_true hb])⟩

/-- What may follow an opening bracket; after a comma, items only. -/
def IsBody (k : Kind) (first : Bool) (t : Text) : Prop :=
  IsItems k t ∨ first = true ∧ ∃ w, Blank w ∧ t = w ++ [k.closing]

theorem sound_value_items (fuel : Nat) :
    Sound (value fuel) IsValue ∧ ∀ k first, Sound (items k first fuel) (IsBody k first) := by
  induction fuel with
  | zero =>
    constructor
    · intro bs t r h
      cases h
    · intro k first bs t r h
      cases h
  | succ fuel ih =>
    obtain ⟨ihvalue, ihitems⟩ := ih
    constructor
    · have hbracket : ∀ (k : Kind),
          Sound ((one (· = k.opening)).seq (items k true fuel)) IsValue := by
        intro k
        refine ((sound_one _).seq (ihitems k true)).mono fun t ht => ?_
        obtain ⟨_, t', ⟨b, hb, rfl⟩, hbody, rfl⟩ := ht
        rw [of_decide_eq_true hb]
        rcases hbody with hitems | ⟨_, w, hw, rfl⟩
        · exact .items k hitems
        · exact .empty k hw
      have hword : ∀ w ∈ literals, Sound (word w) IsValue :=
        fun w hw => (sound_word w).mono fun t ht => .literal (ht ▸ hw)
      intro bs t r h
      rw [value] at h
      dsimp only at h
      split at h
      · cases h
      split at h
      · refine sound_quoted.mono (fun t ht => ?_) bs t r h
        obtain ⟨k, hk, rfl⟩ := ht
        exact .string hk
      split at h
      · exact hbracket .array bs t r h
      split at h
      · exact hbracket .object bs t r h
      split at h
      · exact hword _ (by simp [literals]) bs t r h
      split at h
      · exact hword _ (by simp [literals]) bs t r h
      split at h
      · exact hword _ (by simp [literals]) bs t r h
      · exact sound_number.mono (fun _ => .number) bs t r h
    · intro k first bs t r h
      rw [items] at h
      dsimp only at h
      split at h
      · rename_i hclose
        obtain ⟨hbs, w, _, hw, ⟨b, hb, rfl⟩, rfl⟩ := (sound_span isSpace).seq (sound_one _) bs t r h
        have hfirst : first = true := (Bool.and_eq_true_iff.mp hclose).1
        exact ⟨hbs, .inr ⟨hfirst, w, hw, by rw [of_decide_eq_true hb]⟩⟩
      · obtain ⟨hbs, l, _, hl, ⟨v, _, hv, ⟨w, a, hw, ha, rfl⟩, rfl⟩, rfl⟩ :=
          (sound_lead k).seq (ihvalue.seq ((sound_span isSpace).seq
            (sound_afterItem (k := k) (ihitems k false)))) bs t r h
        refine ⟨hbs, .inl ?_⟩
        rcases ha with rfl | ⟨t', hbody, rfl⟩
        · exact .last hl hv hw
        · exact .more hl hv hw (hbody.resolve_right nofun)

/-- What is scanned is a value, with blanks before it. -/
theorem scan_sound {bs t r : Text} (h : scan bs = some (t, r)) :
    ∃ w, Blank w ∧ IsValue t ∧ bs = w ++ (t ++ r) := by
  obtain ⟨hbs, hvalue⟩ := (sound_value_items _).1 _ t r h
  refine ⟨bs.takeWhile isSpace, fun b hb => List.mem_takeWhile_imp hb, hvalue, ?_⟩
  rw [← hbs, List.takeWhile_append_dropWhile]

/-! ## What is in the grammar is taken -/

/-- The scanner takes `t` off the text, and no more, when `r` follows. -/
def Takes (p : Scanner) (t r : Text) : Prop := p (t ++ r) = some (t, r)

/-- The text does not start with a byte that has the property. -/
def NoStart (f : UInt8 → Bool) (r : Text) : Prop := r.head?.any f = false

section
variable {p q : Scanner} {f : UInt8 → Bool} {a b t r : Text}

theorem Takes.seq (hp : Takes p a (b ++ r)) (hq : Takes q b r) : Takes (p.seq q) (a ++ b) r := by
  unfold Takes at hp hq
  simp only [Takes, Scanner.seq, List.append_assoc, hp, hq]

theorem takes_one {c : UInt8} (h : f c = true) (r : Text) : Takes (one f) [c] r := if_pos h

theorem NoStart.takeWhile (h : NoStart f r) : r.takeWhile f = [] ∧ r.dropWhile f = r := by
  cases r with
  | nil => exact ⟨rfl, rfl⟩
  | cons c r =>
    have hc : f c = false := h
    simp [hc]

theorem takes_span (ht : ∀ c ∈ t, f c = true) (hr : NoStart f r) : Takes (span f) t r := by
  unfold Takes span
  rw [List.takeWhile_append_of_pos ht, List.dropWhile_append_of_pos ht, hr.takeWhile.1,
    hr.takeWhile.2, List.append_nil]

theorem takes_optional_nil (hr : NoStart f r) : Takes (optional f p) [] r :=
  if_neg (by rw [List.nil_append, hr]; exact Bool.false_ne_true)

theorem Takes.optional {c : UInt8} (hp : Takes p (c :: t) r) (hc : f c = true) :
    Takes (optional f p) (c :: t) r :=
  (if_pos hc).trans hp

theorem takes_word (w r : Text) : Takes (word w) w r := by
  unfold Takes word
  rw [if_pos (List.isPrefixOf_iff_prefix.mpr (List.prefix_append w r)), List.drop_left]

theorem takes_digits (ht : IsDigits t) (hr : NoStart isDigit r) : Takes digits t r := by
  obtain ⟨hne, hall⟩ := ht
  cases t with
  | nil => exact absurd rfl hne
  | cons c t =>
    exact (takes_one (hall c (by simp)) _).seq
      (takes_span (fun b hb => hall b (List.mem_cons_of_mem _ hb)) hr)

theorem takes_integer (ht : t = [0x30] ∨ IsDigits t ∧ t.head? ≠ some 0x30)
    (hr : NoStart isDigit r) : Takes integer t r := by
  rcases ht with rfl | ⟨hdigits, hhead⟩
  · exact rfl
  · have hne : (t ++ r).head? ≠ some 0x30 := by
      cases t with
      | nil => exact absurd rfl hdigits.1
      | cons c t => exact hhead
    exact (if_neg hne).trans (takes_digits hdigits hr)

theorem NoStart.append (ht : NoStart f t) (hr : NoStart f r) : NoStart f (t ++ r) := by
  cases t with
  | nil => exact hr
  | cons c t => exact ht

theorem NoStart.of_imp {g : UInt8 → Bool} (h : NoStart f r) (hfg : ∀ c, g c = true → f c = true) :
    NoStart g r := by
  cases r with
  | nil => rfl
  | cons c r =>
    have hc : f c = false := h
    refine Bool.eq_false_iff.mpr fun hg => ?_
    rw [hfg c hg] at hc
    cases hc

/-- A byte with which a number could go on. -/
def isNumberByte (b : UInt8) : Bool := isDigit b || b = 0x2E || isExponentMark b

theorem isDigit_of_isExponentMark {c : UInt8} (h : isExponentMark c = true) :
    isDigit c = false ∧ c ≠ 0x2E := by
  rcases of_decide_eq_true h with rfl | rfl <;> exact ⟨rfl, by decide⟩

theorem isDigit_of_isSign {c : UInt8} (h : isSign c = true) : isDigit c = false := by
  rcases of_decide_eq_true h with rfl | rfl <;> rfl

theorem noStart_isSign (ht : IsDigits t) (r : Text) : NoStart isSign (t ++ r) := by
  cases t with
  | nil => exact absurd rfl ht.1
  | cons c t =>
    refine Bool.eq_false_iff.mpr fun hsign => ?_
    have hc := ht.2 c (by simp)
    rw [isDigit_of_isSign hsign] at hc
    cases hc

theorem takes_number (ht : IsNumber t) (hr : NoStart isNumberByte r) : Takes number t r := by
  have hrdigit : NoStart isDigit r := hr.of_imp fun c hc => by simp [isNumberByte, hc]
  have hrdot : NoStart (· = 0x2E) r :=
    hr.of_imp fun c hc => by simp [isNumberByte, of_decide_eq_true hc]
  have hrmark : NoStart isExponentMark r := hr.of_imp fun c hc => by simp [isNumberByte, hc]
  obtain ⟨hsign, hint, hfrac, hexp⟩ := ht
  rename_i s i f e
  -- from the right: each part is followed by one that cannot be its own
  have hedigit : NoStart isDigit e ∧ NoStart (· = 0x2E) e := by
    rcases hexp with rfl | ⟨m, _, _, hm, _, _, rfl⟩
    · exact ⟨rfl, rfl⟩
    · exact ⟨(isDigit_of_isExponentMark hm).1, decide_eq_false (isDigit_of_isExponentMark hm).2⟩
  have htake_e : Takes exponent e r := by
    rcases hexp with rfl | ⟨m, sgn, ds, hm, hsgn, hds, rfl⟩
    · exact takes_optional_nil hrmark
    · have hdigits := takes_digits hds hrdigit
      refine Takes.optional ((takes_one hm _).seq ?_) hm
      rcases hsgn with rfl | ⟨c, hc, rfl⟩
      · exact (takes_optional_nil (noStart_isSign hds r)).seq hdigits
      · exact ((takes_one hc _).optional hc).seq hdigits
  have htake_f : Takes fraction f (e ++ r) := by
    rcases hfrac with rfl | ⟨ds, hds, rfl⟩
    · exact takes_optional_nil (hedigit.2.append hrdot)
    · exact Takes.optional ((takes_one (decide_eq_true rfl) _).seq
        (takes_digits hds (hedigit.1.append hrdigit))) (decide_eq_true rfl)
  have hfdigit : NoStart isDigit f := by
    rcases hfrac with rfl | ⟨_, _, rfl⟩ <;> rfl
  have htake_i : Takes integer i (f ++ (e ++ r)) :=
    takes_integer hint (hfdigit.append (hedigit.1.append hrdigit))
  have htake_s : Takes (Json.optional (· = 0x2D) (one (· = 0x2D))) s (i ++ (f ++ (e ++ r))) := by
    rcases hsign with rfl | rfl
    · refine takes_optional_nil ?_
      have hi : IsDigits i := by
        rcases hint with rfl | ⟨hi, _⟩
        · exact ⟨by simp, fun b hb => by rw [List.mem_singleton.mp hb]; rfl⟩
        · exact hi
      exact (noStart_isSign hi _).of_imp fun c hc => by rw [of_decide_eq_true hc]; rfl
    · exact (takes_one (decide_eq_true rfl) _).optional (decide_eq_true rfl)
  have htake_fe := htake_f.seq htake_e
  rw [← List.append_assoc] at htake_i
  have htake_ife := htake_i.seq htake_fe
  rw [← List.append_assoc f, ← List.append_assoc i] at htake_s
  exact htake_s.seq htake_ife

theorem takes_chars (ht : IsChars t) (r : Text) : Takes chars t r := by
  have hback : isPlain 0x5C = false := rfl
  induction ht with
  | close =>
    show chars (0x22 :: r) = _
    rw [chars.eq_def]
    exact if_pos rfl
  | @plain b t hb _ ih =>
    have hne : b ≠ 0x22 := (of_decide_eq_true hb).2.1
    show chars (b :: (t ++ r)) = _
    rw [chars.eq_def]
    dsimp only
    rw [if_neg hne, if_pos hb, ih]
    rfl
  | @escape b t hb _ ih =>
    show chars (0x5C :: b :: (t ++ r)) = _
    rw [chars.eq_def]
    dsimp only
    rw [if_neg (by decide), if_neg (by simp [hback]), if_pos rfl, if_pos hb, ih]
    rfl
  | @unicode a b c d t ha hb hc hd _ ih =>
    have hu : isEscape 0x75 = false := rfl
    show chars (0x5C :: 0x75 :: a :: b :: c :: d :: (t ++ r)) = _
    rw [chars.eq_def]
    dsimp only
    rw [if_neg (by decide), if_neg (by simp [hback]), if_pos rfl, if_neg (by simp [hu]),
      if_pos rfl, if_pos (by simp [ha, hb, hc, hd]), ih]
    rfl

theorem takes_quoted (ht : IsChars t) (r : Text) : Takes quoted (0x22 :: t) r :=
  (takes_one (decide_eq_true rfl) (t ++ r)).seq (takes_chars ht r)

theorem takes_blank (ht : Blank t) (hr : NoStart isSpace r) : Takes blank t r := takes_span ht hr

theorem takes_lead {k : Kind} (ht : IsLead k t) (hr : NoStart isSpace r) : Takes (lead k) t r := by
  cases k with
  | array => exact takes_blank ht hr
  | object =>
    obtain ⟨w, key, w', w'', hw, hkey, hw', hw'', rfl⟩ := ht
    have hcolon : Takes ((one (· = 0x3A)).seq blank) (0x3A :: w'') r :=
      (takes_one (decide_eq_true rfl) _).seq (takes_blank hw'' hr)
    have hafter : Takes (blank.seq ((one (· = 0x3A)).seq blank)) (w' ++ 0x3A :: w'') r :=
      (takes_blank (r := 0x3A :: w'' ++ r) hw' rfl).seq hcolon
    have hkeyed : Takes (quoted.seq (blank.seq ((one (· = 0x3A)).seq blank)))
        (0x22 :: key ++ (w' ++ 0x3A :: w'')) r :=
      (takes_quoted hkey _).seq hafter
    exact (takes_blank (r := 0x22 :: key ++ (w' ++ 0x3A :: w'') ++ r) hw rfl).seq hkeyed

/-- A byte with which a number can start. -/
def isNumberStart (b : UInt8) : Bool := b = 0x2D || isDigit b

theorem IsNumber.start (h : IsNumber t) : ∃ c t', t = c :: t' ∧ isNumberStart c = true := by
  cases h with
  | @mk s i f e hsign hint _ _ =>
    rcases hsign with rfl | rfl
    · rcases hint with rfl | ⟨⟨hne, hall⟩, _⟩
      · exact ⟨_, _, rfl, rfl⟩
      · cases i with
        | nil => exact absurd rfl hne
        | cons c i => exact ⟨c, _, rfl, by simp [isNumberStart, hall c (by simp)]⟩
    · exact ⟨_, _, rfl, rfl⟩

theorem ne_of_isNumberStart {c d : UInt8} (hc : isNumberStart c = true)
    (hd : isNumberStart d = false) : c ≠ d := by
  intro h
  rw [h, hd] at hc
  cases hc

theorem isSpace_cases {c : UInt8} (h : isSpace c = true) :
    c = 0x20 ∨ c = 0x09 ∨ c = 0x0D ∨ c = 0x0A := of_decide_eq_true h

/-- A value starts with a byte that is neither blank nor a closing bracket. -/
theorem IsValue.start (h : IsValue t) :
    ∃ c t', t = c :: t' ∧ isSpace c = false ∧ ∀ k : Kind, c ≠ k.closing := by
  have hclosing : ∀ c : UInt8, c ≠ 0x5D → c ≠ 0x7D → ∀ k : Kind, c ≠ k.closing := by
    intro c harray hobject k
    cases k with
    | array => exact harray
    | object => exact hobject
  cases h with
  | literal h =>
    simp only [literals, List.mem_cons, List.not_mem_nil, or_false] at h
    rcases h with rfl | rfl | rfl <;>
      exact ⟨_, _, rfl, rfl, hclosing _ (by decide) (by decide)⟩
  | number h =>
    obtain ⟨c, t', rfl, hc⟩ := h.start
    refine ⟨c, t', rfl, Bool.eq_false_iff.mpr fun hspace => ?_,
      hclosing c (ne_of_isNumberStart hc rfl) (ne_of_isNumberStart hc rfl)⟩
    rcases isSpace_cases hspace with rfl | rfl | rfl | rfl <;> cases hc
  | string h => exact ⟨_, _, rfl, rfl, hclosing _ (by decide) (by decide)⟩
  | empty k h => cases k <;> exact ⟨_, _, rfl, rfl, hclosing _ (by decide) (by decide)⟩
  | items k h => cases k <;> exact ⟨_, _, rfl, rfl, hclosing _ (by decide) (by decide)⟩

theorem IsValue.noStart_isSpace (h : IsValue t) (r : Text) : NoStart isSpace (t ++ r) := by
  obtain ⟨c, t', rfl, hc, _⟩ := h.start
  exact hc

/-- A list of items does not look like an empty one. -/
theorem head_dropWhile_lead {k : Kind} {l v : Text} (hl : IsLead k l) (hv : IsValue v) (r : Text) :
    ((l ++ (v ++ r)).dropWhile isSpace).head? ≠ some k.closing := by
  obtain ⟨c, v', rfl, hspace, hclosing⟩ := hv.start
  cases k with
  | array =>
    rw [List.dropWhile_append_of_pos hl, List.cons_append,
      List.dropWhile_cons_of_neg (by simp [hspace])]
    exact fun h => hclosing .array (Option.some.inj h)
  | object =>
    obtain ⟨w, key, w', w'', hw, _, _, _, rfl⟩ := hl
    rw [List.append_assoc, List.dropWhile_append_of_pos hw]
    exact fun h => nomatch h

/-- No number goes on with blanks and then a comma or a bracket. -/
theorem noStart_isNumberByte {w : Text} (hw : Blank w) {c : UInt8} (hc : isNumberByte c = false)
    (r : Text) : NoStart isNumberByte (w ++ (c :: r)) := by
  cases w with
  | nil => exact hc
  | cons b w =>
    rcases isSpace_cases (hw b (by simp)) with rfl | rfl | rfl | rfl <;> rfl

end

/-! ## Values and items are taken -/

theorem value_literal (fuel : Nat) {w : Text} (hw : w ∈ literals) (r : Text) :
    Takes (value (fuel + 1)) w r := by
  simp only [literals, List.mem_cons, List.not_mem_nil, or_false] at hw
  rcases hw with rfl | rfl | rfl
  · exact takes_word [0x6E, 0x75, 0x6C, 0x6C] r
  · exact takes_word [0x74, 0x72, 0x75, 0x65] r
  · exact takes_word [0x66, 0x61, 0x6C, 0x73, 0x65] r

theorem value_bracket (fuel : Nat) (k : Kind) (t : Text) :
    value (fuel + 1) (k.opening :: t) =
      (one (· = k.opening)).seq (items k true fuel) (k.opening :: t) := by
  cases k <;> rfl

theorem value_number (fuel : Nat) {c : UInt8} (hc : isNumberStart c = true) (t : Text) :
    value (fuel + 1) (c :: t) = number (c :: t) := by
  have hne : ∀ d, isNumberStart d = false → c ≠ d := fun _ => ne_of_isNumberStart hc
  rw [value]
  dsimp only [List.head?_cons]
  rw [if_neg (hne _ rfl), if_neg (hne _ rfl), if_neg (hne _ rfl), if_neg (hne _ rfl),
    if_neg (hne _ rfl), if_neg (hne _ rfl)]

theorem takes_item {fuel : Nat} {k : Kind} {l v w tail r : Text} {d : UInt8} (first : Bool)
    (hl : IsLead k l) (hv : IsValue v) (hw : Blank w) (hd : isSpace d = false)
    (hvalue : Takes (value fuel) v (w ++ (d :: tail) ++ r))
    (hafter : Takes (afterItem k (items k false fuel)) (d :: tail) r) :
    Takes (items k first (fuel + 1)) (l ++ (v ++ (w ++ (d :: tail)))) r := by
  have hblank := (takes_blank (r := d :: tail ++ r) hw hd).seq hafter
  have hrest := hvalue.seq hblank
  have hitem := (takes_lead (r := v ++ (w ++ (d :: tail)) ++ r) hl ?_).seq hrest
  · unfold Takes
    rw [items]
    refine (if_neg fun hempty => ?_).trans hitem
    have hclose := of_decide_eq_true (Bool.and_eq_true_iff.mp hempty).2
    rw [List.append_assoc, List.append_assoc] at hclose
    exact head_dropWhile_lead hl hv _ hclose
  · rw [List.append_assoc]
    exact hv.noStart_isSpace _

theorem takes_value_items (fuel : Nat) :
    (∀ t r, IsValue t → t.length < fuel → NoStart isNumberByte r → Takes (value fuel) t r) ∧
      ∀ k first t r, IsBody k first t → t.length < fuel → Takes (items k first fuel) t r := by
  induction fuel with
  | zero =>
    constructor
    · intro t r _ hlen
      exact absurd hlen (Nat.not_lt_zero _)
    · intro k first t r _ hlen
      exact absurd hlen (Nat.not_lt_zero _)
  | succ fuel ih =>
    obtain ⟨ihvalue, ihitems⟩ := ih
    constructor
    · intro t r ht hlen hr
      have hbracket : ∀ (k : Kind) (t' : Text), t = k.opening :: t' → IsBody k true t' →
          Takes (value (fuel + 1)) t r := by
        intro k t' heq hbody
        subst heq
        refine (value_bracket fuel k (t' ++ r)).trans ?_
        exact (takes_one (decide_eq_true rfl) (t' ++ r)).seq
          (ihitems k true t' r hbody (Nat.lt_of_succ_lt_succ hlen))
      cases ht with
      | literal h => exact value_literal fuel h r
      | number h =>
        obtain ⟨c, t', rfl, hc⟩ := h.start
        exact (value_number fuel hc (t' ++ r)).trans (takes_number h hr)
      | string h => exact takes_quoted h r
      | empty k h => exact hbracket k _ rfl (.inr ⟨rfl, _, h, rfl⟩)
      | items k h => exact hbracket k _ rfl (.inl h)
    · intro k first t r hbody hlen
      have hclosing : isNumberByte k.closing = false ∧ isSpace k.closing = false ∧
          k.closing ≠ 0x2C := by
        cases k <;> exact ⟨rfl, rfl, by decide⟩
      rcases hbody with hitems | ⟨rfl, w, hw, rfl⟩
      · cases hitems with
        | @last _ l v w hl hv hw =>
          simp only [List.length_append, List.length_cons] at hlen
          refine takes_item first hl hv hw hclosing.2.1 (ihvalue v _ hv (by omega) ?_) ?_
          · rw [List.append_assoc]
            exact noStart_isNumberByte hw hclosing.1 _
          · refine (if_neg fun hcomma => hclosing.2.2 (Option.some.inj hcomma)).trans ?_
            exact takes_one (decide_eq_true rfl) r
        | @more _ l v w t hl hv hw ht =>
          simp only [List.length_append, List.length_cons] at hlen
          refine takes_item first hl hv hw rfl (ihvalue v _ hv (by omega) ?_) ?_
          · rw [List.append_assoc]
            exact noStart_isNumberByte hw rfl _
          · refine (if_pos rfl).trans ?_
            exact (takes_one (decide_eq_true rfl) _).seq
              (ihitems k false t r (.inl ht) (by omega))
      · have hclose : Takes (blank.seq (one (· = k.closing))) (w ++ [k.closing]) r :=
          (takes_blank (r := k.closing :: r) hw hclosing.2.1).seq
            (takes_one (decide_eq_true rfl) r)
        unfold Takes
        rw [items]
        refine (if_pos ?_).trans hclose
        rw [List.append_assoc, List.dropWhile_append_of_pos hw]
        simp [hclosing.2.1]

/-- A value is scanned off a text as it stands, unless it is a number that goes on. -/
theorem scan_complete {w t r : Text} (hw : Blank w) (ht : IsValue t) (hr : NoStart isNumberByte r) :
    scan (w ++ (t ++ r)) = some (t, r) := by
  have hdrop : (w ++ (t ++ r)).dropWhile isSpace = t ++ r := by
    rw [List.dropWhile_append_of_pos hw, (ht.noStart_isSpace r).takeWhile.2]
  rw [scan, hdrop]
  refine (takes_value_items _).1 t r ht ?_ hr
  simp only [List.length_append]
  omega

end TabbySync.Library.Json
