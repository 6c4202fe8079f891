import Mathlib.Data.List.TakeWhile
import Mathlib.Tactic.IntervalCases

/-! # RFC 3339 text of instants

An instant is a number of nanoseconds since 1970-01-01T00:00:00Z. `format` and
`parse` follow the `2006-01-02T15:04:05.999999999Z07:00` layout of the time
library: the fraction drops its trailing zeros, the reader accepts any number of
fraction digits, a one-digit hour and a numeric offset, and refuses a year that
is not four digits. Within the years 0 to 9999 reading undoes writing; outside
them nothing that was written can be read, so a text never stands for another
instant than the one it was written for. -/

namespace TabbySync.Library.Rfc3339

/-! ## The proleptic Gregorian calendar -/

/-- A calendar date. -/
structure Date where
  year : Int
  month : Nat
  day : Nat
  deriving DecidableEq, Repr

/-- Length of a month. -/
def daysIn (year : Int) (month : Nat) : Nat :=
  if month = 2 then
    if year % 4 = 0 ∧ (year % 100 ≠ 0 ∨ year % 400 = 0) then 29 else 28
  else if month = 4 ∨ month = 6 ∨ month = 9 ∨ month = 11 then 30
  else 31

/-- The date of a day number (day 0 is 1970-01-01). Years start in March here, so
that the leap day is the last of its year, century and four-century cycle. -/
def dateOfDay (z : Int) : Date :=
  let z := z + 719468
  let era := z / 146097
  let doe := z % 146097
  let century := min 3 (doe / 36524)
  let doc := doe - century * 36524
  let quad := doc / 1461
  let doq := doc % 1461
  let yoq := min 3 (doq / 365)
  let doy := (doq - yoq * 365).toNat
  let mp := (5 * doy + 2) / 153
  let month := if mp < 10 then mp + 3 else mp - 9
  { year := era * 400 + century * 100 + quad * 4 + yoq + if month ≤ 2 then 1 else 0
    month := month
    day := doy - (153 * mp + 2) / 5 + 1 }

/-- The day number of a date. -/
def dayOfDate (d : Date) : Int :=
  let y := if d.month ≤ 2 then d.year - 1 else d.year
  let yoe := y % 400
  let mp := if d.month ≤ 2 then d.month + 9 else d.month - 3
  y / 400 * 146097 + (yoe * 365 + yoe / 4 - yoe / 100) + ((153 * mp + 2) / 5 + d.day - 1 : Nat)
    - 719468

/-- The cycle decomposition behind `dateOfDay`, with the bounds that make it
invertible. -/
private theorem cycles (doe : Int) (h0 : 0 ≤ doe) (h1 : doe < 146097) :
    ∃ century quad yoq doy : Int,
      century = min 3 (doe / 36524) ∧ quad = (doe - century * 36524) / 1461 ∧
      yoq = min 3 ((doe - century * 36524) % 1461 / 365) ∧
      doy = (doe - century * 36524) % 1461 - yoq * 365 ∧
      0 ≤ century ∧ century ≤ 3 ∧ 0 ≤ quad ∧ quad ≤ 24 ∧ 0 ≤ yoq ∧ yoq ≤ 3 ∧
      0 ≤ doy ∧ doy ≤ 365 ∧
      (doy = 365 → yoq = 3 ∧ (quad = 24 → century = 3)) ∧
      doe = century * 36524 + quad * 1461 + yoq * 365 + doy := by
  refine ⟨_, _, _, _, rfl, rfl, rfl, rfl, ?_⟩
  have hc : min 3 (doe / 36524) = 3 ∧ 109572 ≤ doe ∨
      min 3 (doe / 36524) = doe / 36524 ∧ doe < 109572 := by omega
  generalize min 3 (doe / 36524) = century at hc ⊢
  generalize hdoc : doe - century * 36524 = doc
  have hdoc0 : 0 ≤ doc ∧ doc ≤ 36524 ∧ (doc = 36524 → century = 3) := by omega
  have hcb : 0 ≤ century ∧ century ≤ 3 := by omega
  generalize hq : doc / 1461 = quad
  generalize hr : doc % 1461 = doq
  have hqb : 0 ≤ quad ∧ quad ≤ 24 ∧ 0 ≤ doq ∧ doq ≤ 1460 ∧ doc = quad * 1461 + doq := by omega
  have hy : min 3 (doq / 365) = 3 ∧ 1095 ≤ doq ∨ min 3 (doq / 365) = doq / 365 ∧ doq < 1095 := by
    omega
  generalize min 3 (doq / 365) = yoq at hy ⊢
  omega

/-- The month arithmetic: a day of a March year lies in the month it is put in. -/
private theorem monthDay (doy : Nat) (h : doy ≤ 365) :
    ∃ mp, mp = (5 * doy + 2) / 153 ∧ mp ≤ 11 ∧ (153 * mp + 2) / 5 ≤ doy ∧
      (mp = 11 ∨ doy < (153 * (mp + 1) + 2) / 5) ∧ (mp = 11 → doy < 366) := by
  refine ⟨_, rfl, ?_⟩
  omega

/-- A day of a March year is a day of its month: the last day of February needs a
leap year, and a March year has 366 days only before one. -/
private theorem day_le_daysIn {era century quad yoq : Int} {doy mp : Nat} (hmp : mp ≤ 11)
    (hstart : (153 * mp + 2) / 5 ≤ doy) (hend : mp = 11 ∨ doy < (153 * (mp + 1) + 2) / 5)
    (hdoy : doy ≤ 365) (hleap : (doy : Int) = 365 → yoq = 3 ∧ (quad = 24 → century = 3))
    (hq0 : 0 ≤ quad) (hq24 : quad ≤ 24) (hy0 : 0 ≤ yoq) (hy3 : yoq ≤ 3) :
    doy - (153 * mp + 2) / 5 + 1 ≤
      daysIn (era * 400 + century * 100 + quad * 4 + yoq +
        if (if mp < 10 then mp + 3 else mp - 9) ≤ 2 then 1 else 0)
        (if mp < 10 then mp + 3 else mp - 9) := by
  by_cases hfeb : mp = 11
  · subst hfeb
    simp only [daysIn, show ¬ (11 < 10) by decide, if_false, Nat.reduceSub, Nat.le_refl, if_true,
      Nat.reduceMul, Nat.reduceAdd, Nat.reduceDiv]
    split <;> omega
  · have hlen : doy - (153 * mp + 2) / 5 + 1 ≤
        if mp = 1 ∨ mp = 3 ∨ mp = 6 ∨ mp = 8 then 30 else 31 := by
      interval_cases mp <;> simp at * <;> omega
    refine le_trans hlen (le_of_eq ?_)
    clear hlen hstart hend
    interval_cases mp <;> simp [daysIn] at *

/-- Every day number has a date that is on the calendar and leads back to it. -/
theorem dateOfDay_spec (z : Int) :
    1 ≤ (dateOfDay z).month ∧ (dateOfDay z).month ≤ 12 ∧ 1 ≤ (dateOfDay z).day ∧
      (dateOfDay z).day ≤ daysIn (dateOfDay z).year (dateOfDay z).month ∧
      dayOfDate (dateOfDay z) = z := by
  have hz : z + 719468 = (z + 719468) / 146097 * 146097 + (z + 719468) % 146097 := by omega
  obtain ⟨century, quad, yoq, doy, hc, hq, hy, hd, hc0, hc3, hq0, hq24, hy0, hy3, hd0, hd365,
    hleap, hdoe⟩ := cycles ((z + 719468) % 146097) (by omega) (by omega)
  obtain ⟨doy, rfl⟩ := Int.eq_ofNat_of_zero_le hd0
  obtain ⟨mp, hmp, hmp11, hstart, hend, _⟩ := monthDay doy (by omega)
  have hdate : dateOfDay z =
      { year := (z + 719468) / 146097 * 400 + century * 100 + quad * 4 + yoq +
          if (if mp < 10 then mp + 3 else mp - 9) ≤ 2 then 1 else 0
        month := if mp < 10 then mp + 3 else mp - 9
        day := doy - (153 * mp + 2) / 5 + 1 } := by
    simp only [dateOfDay, ← hc, ← hq, ← hy, ← hd, Int.toNat_natCast, ← hmp]
  rw [hdate]
  generalize (z + 719468) / 146097 = era at hz ⊢
  generalize (z + 719468) % 146097 = doe at hz hdoe
  clear hc hq hy hd hdate hmp
  refine ⟨by dsimp only; split <;> omega, by dsimp only; split <;> omega, by dsimp only; omega,
    ?_, ?_⟩
  · exact day_le_daysIn hmp11 hstart hend (by omega) hleap hq0 hq24 hy0 hy3
  · -- the March year splits back into the cycles it was put together from
    have hyear : ∀ y : Int, y = era * 400 + century * 100 + quad * 4 + yoq →
        y / 400 = era ∧ y % 400 * 365 + y % 400 / 4 - y % 400 / 100 =
          century * 36524 + quad * 1461 + yoq * 365 := by
      intro y hy
      have hm : y % 400 = century * 100 + quad * 4 + yoq := by omega
      rw [hm]
      omega
    dsimp only [dayOfDate]
    by_cases hm : mp < 10
    · have h2 : ¬ mp + 3 ≤ 2 := by omega
      simp only [hm, if_true, h2, if_false, Nat.add_sub_cancel]
      obtain ⟨he, hdays⟩ := hyear (era * 400 + century * 100 + quad * 4 + yoq + 0) (by omega)
      rw [he, hdays]
      omega
    · have h2 : mp - 9 ≤ 2 := by omega
      have h9 : mp - 9 + 9 = mp := by omega
      simp only [hm, if_false, h2, if_true, h9]
      obtain ⟨he, hdays⟩ := hyear (era * 400 + century * 100 + quad * 4 + yoq + 1 - 1) (by omega)
      rw [he, hdays]
      omega

/-! ## Writing -/

def nanosPerSecond : Nat := 1000000000
def nanosPerDay : Nat := 86400 * nanosPerSecond

/-- Decimal digits, padded with zeros on the left. -/
def appendInt (x width : Nat) : List Char :=
  List.replicate (width - (Nat.toDigits 10 x).length) '0' ++ Nat.toDigits 10 x

def appendYear (y : Int) : List Char :=
  if y < 0 then '-' :: appendInt y.natAbs 4 else appendInt y.natAbs 4

/-- The fraction of a second, without its trailing zeros. -/
def appendNano (nanos : Nat) : List Char :=
  if nanos = 0 then []
  else '.' :: ((appendInt nanos 9).reverse.dropWhile (· == '0')).reverse

/-- The characters of an instant. -/
def formatChars (t : Int) : List Char :=
  let date := dateOfDay (t / nanosPerDay)
  let tod := (t % nanosPerDay).toNat
  let sec := tod / nanosPerSecond
  appendYear date.year ++ '-' :: (appendInt date.month 2 ++ '-' :: (appendInt date.day 2 ++
    'T' :: (appendInt (sec / 3600) 2 ++ ':' :: (appendInt (sec / 60 % 60) 2 ++
    ':' :: (appendInt (sec % 60) 2 ++ (appendNano (tod % nanosPerSecond) ++ ['Z']))))))

/-- `Time.UTC().Format(time.RFC3339Nano)`. -/
def format (t : Int) : String := String.ofList (formatChars t)

/-! ## Reading -/

/-- Exactly `n` decimal digits. -/
def takeDigits (n : Nat) (cs : List Char) : Option (Nat × List Char) :=
  if (cs.take n).length = n ∧ (cs.take n).all Char.isDigit then
    some (Nat.ofDigitChars 10 (cs.take n) 0, cs.drop n)
  else none

/-- One fixed character of the layout. -/
def takeChar (c : Char) : List Char → Option (List Char)
  | [] => none
  | x :: rest => if x = c then some rest else none

/-- The hour may have one digit. -/
def takeHour (cs : List Char) : Option (Nat × List Char) :=
  match takeDigits 2 cs with
  | some r => some r
  | none => takeDigits 1 cs

/-- The optional fraction: nine digits count, further ones are skipped. -/
def takeNano : List Char → Nat × List Char
  | [] => (0, [])
  | x :: rest =>
    let ds := rest.takeWhile Char.isDigit
    if (x = '.' ∨ x = ',') ∧ ds ≠ [] then
      (Nat.ofDigitChars 10 (ds.take 9) 0 * 10 ^ (9 - (ds.take 9).length),
        rest.dropWhile Char.isDigit)
    else (0, x :: rest)

/-- The zone, as its offset in seconds, and the end of the text. -/
def takeZone (cs : List Char) : Option Int :=
  match cs with
  | 'Z' :: rest => if rest = [] then some 0 else none
  | sign :: rest => do
    let (hr, rest) ← takeDigits 2 rest
    let rest ← takeChar ':' rest
    let (mm, rest) ← takeDigits 2 rest
    if hr > 24 ∨ mm > 60 ∨ rest ≠ [] then none
    else if sign = '+' then some ((hr * 60 + mm) * 60)
    else if sign = '-' then some (-((hr * 60 + mm) * 60))
    else none
  | [] => none

/-- The instant of a wall-clock reading, with the range checks of the reader. -/
def instant (date : Date) (hour min sec nanos : Nat) (offset : Int) : Option Int :=
  if 1 ≤ date.month ∧ date.month ≤ 12 ∧ 1 ≤ date.day ∧ date.day ≤ daysIn date.year date.month ∧
      hour < 24 ∧ min < 60 ∧ sec < 60 then
    some ((dayOfDate date * 86400 + hour * 3600 + min * 60 + sec - offset) * nanosPerSecond + nanos)
  else none

/-- `2006-01-02`. -/
def takeDate (cs : List Char) : Option (Date × List Char) := do
  let (year, cs) ← takeDigits 4 cs
  let cs ← takeChar '-' cs
  let (month, cs) ← takeDigits 2 cs
  let cs ← takeChar '-' cs
  let (day, cs) ← takeDigits 2 cs
  some (⟨year, month, day⟩, cs)

/-- `15:04:05`. -/
def takeClock (cs : List Char) : Option ((Nat × Nat × Nat) × List Char) := do
  let (hour, cs) ← takeHour cs
  let cs ← takeChar ':' cs
  let (min, cs) ← takeDigits 2 cs
  let cs ← takeChar ':' cs
  let (sec, cs) ← takeDigits 2 cs
  some ((hour, min, sec), cs)

def parseChars (cs : List Char) : Option Int := do
  let (date, cs) ← takeDate cs
  let cs ← takeChar 'T' cs
  let ((hour, min, sec), cs) ← takeClock cs
  let (nanos, cs) := takeNano cs
  let offset ← takeZone cs
  instant date hour min sec nanos offset

/-- `time.Parse(time.RFC3339Nano, s)`. -/
def parse (s : String) : Option Int := parseChars s.toList

/-! ## Reading undoes writing -/

theorem appendInt_digits {x width : Nat} : ∀ c ∈ appendInt x width, c.isDigit = true := by
  intro c hc
  rcases List.mem_append.mp hc with hc | hc
  · rw [List.eq_of_mem_replicate hc]; rfl
  · exact Nat.isDigit_of_mem_toDigits (by decide) (by decide) hc

@[simp] theorem ofDigitChars_appendInt {x width : Nat} :
    Nat.ofDigitChars 10 (appendInt x width) 0 = x := by
  simp [appendInt, Nat.ofDigitChars_append]

theorem appendInt_length {x width : Nat} (hw : 0 < width) (hx : x < 10 ^ width) :
    (appendInt x width).length = width := by
  have hle := (Nat.length_toDigits_le_iff (by decide) hw).mpr hx
  simp only [appendInt, List.length_append, List.length_replicate]
  omega

theorem takeDigits_append {ds : List Char} (hd : ∀ c ∈ ds, c.isDigit = true) (cs : List Char) :
    takeDigits ds.length (ds ++ cs) = some (Nat.ofDigitChars 10 ds 0, cs) := by
  simp only [takeDigits, List.take_left', List.drop_left', List.all_eq_true]
  rw [if_pos ⟨trivial, hd⟩]

theorem takeDigits_appendInt {x width : Nat} (hw : 0 < width) (hx : x < 10 ^ width)
    (cs : List Char) : takeDigits width (appendInt x width ++ cs) = some (x, cs) := by
  have h := takeDigits_append (@appendInt_digits x width) cs
  rwa [appendInt_length hw hx, ofDigitChars_appendInt] at h

@[simp] theorem takeChar_self (c : Char) (cs : List Char) : takeChar c (c :: cs) = some cs := by
  simp [takeChar]

theorem takeHour_appendInt {x : Nat} {cs : List Char} (hx : x < 100) :
    takeHour (appendInt x 2 ++ cs) = some (x, cs) := by
  simp [takeHour, takeDigits_appendInt (by decide : 0 < 2) hx cs]

theorem takeWhile_append_of_stop {p : Char → Bool} {ds : List Char} {z : Char}
    (hd : ∀ c ∈ ds, p c = true) (hz : p z = false) (cs : List Char) :
    (ds ++ z :: cs).takeWhile p = ds ∧ (ds ++ z :: cs).dropWhile p = z :: cs := by
  induction ds with
  | nil => simp [hz]
  | cons d ds ih =>
    obtain ⟨h₁, h₂⟩ := ih (fun c hc => hd c (by simp [hc]))
    have := hd d (by simp)
    simp [this, h₁, h₂]

/-- The zeros a fraction drops are the ones the reader scales back in. -/
theorem trimmed_append_zeros (ds : List Char) :
    ∃ k, (ds.reverse.dropWhile (· == '0')).reverse ++ List.replicate k '0' = ds := by
  refine ⟨(ds.reverse.takeWhile (· == '0')).length, ?_⟩
  have hz : ds.reverse.takeWhile (· == '0') =
      List.replicate (ds.reverse.takeWhile (· == '0')).length '0' :=
    List.eq_replicate_of_mem fun c hc => by simpa using List.mem_takeWhile_imp hc
  have h := congrArg List.reverse (List.takeWhile_append_dropWhile (p := (· == '0'))
    (l := ds.reverse))
  rw [List.reverse_append, List.reverse_reverse] at h
  rw [hz, List.reverse_replicate] at h
  simpa using h

theorem takeNano_appendNano {nanos : Nat} (h : nanos < 10 ^ 9) :
    takeNano (appendNano nanos ++ ['Z']) = (nanos, ['Z']) := by
  by_cases h0 : nanos = 0
  · simp [appendNano, h0, takeNano]
  obtain ⟨k, hk⟩ := trimmed_append_zeros (appendInt nanos 9)
  generalize hds : ((appendInt nanos 9).reverse.dropWhile (· == '0')).reverse = ds at hk
  have hlen : ds.length + k = 9 := by
    have := congrArg List.length hk
    simpa [appendInt_length (by decide : 0 < 9) h] using this
  have hval : nanos = 10 ^ k * Nat.ofDigitChars 10 ds 0 := by
    have := congrArg (fun cs => Nat.ofDigitChars 10 cs 0) hk
    simpa [Nat.ofDigitChars_append] using this.symm
  have hne : ds ≠ [] := by
    intro he; rw [he] at hval; exact h0 (by simpa using hval)
  have hdig : ∀ c ∈ ds, c.isDigit = true := by
    intro c hc
    have : c ∈ appendInt nanos 9 := by rw [← hk]; exact List.mem_append_left _ hc
    exact appendInt_digits c this
  obtain ⟨htake, hdrop⟩ := takeWhile_append_of_stop hdig (by rfl : 'Z'.isDigit = false) []
  have htake9 : ds.take 9 = ds := List.take_of_length_le (by omega)
  have hscale : 9 - ds.length = k := by omega
  simp only [appendNano, h0, if_false, hds, List.cons_append, takeNano, htake, hdrop, htake9,
    hscale]
  simp [hne, hval, Nat.mul_comm]

/-- The years the layout can hold. -/
def Representable (t : Int) : Prop :=
  0 ≤ (dateOfDay (t / nanosPerDay)).year ∧ (dateOfDay (t / nanosPerDay)).year < 10000

instance (t : Int) : Decidable (Representable t) := inferInstanceAs (Decidable (_ ∧ _))

theorem takeDate_fields {year month day : Nat} {cs : List Char} (hy : year < 10 ^ 4)
    (hm : month < 10 ^ 2) (hd : day < 10 ^ 2) :
    takeDate (appendInt year 4 ++ '-' :: (appendInt month 2 ++ '-' :: (appendInt day 2 ++ cs))) =
      some (⟨year, month, day⟩, cs) := by
  simp only [takeDate, takeDigits_appendInt (by decide : 0 < 4) hy, takeChar_self,
    takeDigits_appendInt (by decide : 0 < 2) hm, takeDigits_appendInt (by decide : 0 < 2) hd,
    Option.bind_eq_bind, Option.bind_some]

theorem takeClock_fields {hour min sec : Nat} {cs : List Char} (hh : hour < 10 ^ 2)
    (hm : min < 10 ^ 2) (hs : sec < 10 ^ 2) :
    takeClock (appendInt hour 2 ++ ':' :: (appendInt min 2 ++ ':' :: (appendInt sec 2 ++ cs))) =
      some ((hour, min, sec), cs) := by
  simp only [takeClock, takeHour_appendInt hh, takeChar_self,
    takeDigits_appendInt (by decide : 0 < 2) hm, takeDigits_appendInt (by decide : 0 < 2) hs,
    Option.bind_eq_bind, Option.bind_some]

/-- The reader on a text with the layout's fields in range. -/
theorem parseChars_fields {year month day hour min sec nanos : Nat} (hy : year < 10 ^ 4)
    (hmo : month < 10 ^ 2) (hd : day < 10 ^ 2) (hh : hour < 10 ^ 2) (hmi : min < 10 ^ 2)
    (hs : sec < 10 ^ 2) (hn : nanos < 10 ^ 9) :
    parseChars (appendInt year 4 ++ '-' :: (appendInt month 2 ++ '-' :: (appendInt day 2 ++
      'T' :: (appendInt hour 2 ++ ':' :: (appendInt min 2 ++ ':' :: (appendInt sec 2 ++
      (appendNano nanos ++ ['Z']))))))) =
    instant ⟨year, month, day⟩ hour min sec nanos 0 := by
  simp only [parseChars, takeDate_fields hy hmo hd, takeChar_self, takeClock_fields hh hmi hs,
    takeNano_appendNano hn, Option.bind_eq_bind, Option.bind_some]
  rfl

/-- Within the years of the layout, reading undoes writing. -/
theorem parse_format {t : Int} (h : Representable t) : parse (format t) = some t := by
  obtain ⟨hm1, hm12, hd1, hdin, hday⟩ := dateOfDay_spec (t / nanosPerDay)
  obtain ⟨hy0, hy1⟩ := h
  have htod : (t % nanosPerDay).toNat < 86400 * nanosPerSecond := by
    simp only [nanosPerDay, nanosPerSecond]; omega
  have hsplit : t = t / nanosPerDay * nanosPerDay + (t % nanosPerDay).toNat := by
    simp only [nanosPerDay, nanosPerSecond]; omega
  simp only [parse, format, String.toList_ofList, formatChars]
  generalize dateOfDay (t / nanosPerDay) = date at *
  generalize (t % nanosPerDay).toNat = tod at *
  obtain ⟨year, month, day⟩ := date
  simp only at hm1 hm12 hd1 hdin hday hy0 hy1 ⊢
  obtain ⟨year, rfl⟩ := Int.eq_ofNat_of_zero_le hy0
  have hday31 : day ≤ 31 := le_trans hdin (by unfold daysIn; split <;> split <;> omega)
  have hyear : appendYear (year : Int) = appendInt year 4 := by
    simp [appendYear, show ¬ ((year : Int) < 0) by omega]
  simp only [nanosPerDay, nanosPerSecond] at htod hsplit hday ⊢
  rw [hyear, parseChars_fields (by omega) (by omega) (by omega) (by omega) (by omega) (by omega)
    (by omega), instant, if_pos ⟨hm1, hm12, hd1, hdin, by omega, by omega, by omega⟩, hday]
  simp only [nanosPerSecond, Option.some.injEq]
  omega

/-- A year of five or more digits: the fifth stands where the layout has a dash. -/
theorem parseChars_longYear {ds cs : List Char} (hd : ∀ c ∈ ds, c.isDigit = true)
    (hl : 4 < ds.length) : parseChars (ds ++ cs) = none := by
  obtain ⟨d, tail, htail⟩ : ∃ d tail, ds.drop 4 = d :: tail :=
    List.exists_cons_of_length_pos (by rw [List.length_drop]; omega)
  have hne : d ≠ '-' := by
    rintro rfl
    exact absurd (hd '-' (List.mem_of_mem_drop (htail ▸ List.mem_cons_self))) (by decide)
  have hfour : ∀ c ∈ ds.take 4, c.isDigit = true := fun c hc => hd c (List.mem_of_mem_take hc)
  have hdigits := takeDigits_append hfour (d :: tail ++ cs)
  rw [List.length_take, Nat.min_eq_left (by omega), List.cons_append, ← List.cons_append, ← htail,
    ← List.append_assoc, List.take_append_drop, htail] at hdigits
  have hdash : takeChar '-' (d :: (tail ++ cs)) = none := by simp [takeChar, hne]
  have hdate : takeDate (ds ++ cs) = none := by
    simp only [takeDate, hdigits, List.cons_append, hdash, Option.bind_eq_bind, Option.bind_some,
      Option.bind_none]
  rw [parseChars, hdate]
  rfl

/-- A year outside the layout's leaves a text that is not read at all. -/
theorem parse_format_of_not_representable {t : Int} (h : ¬ Representable t) :
    parse (format t) = none := by
  simp only [parse, format, String.toList_ofList, formatChars]
  simp only [Representable, not_and_or, not_le, not_lt] at h
  generalize dateOfDay (t / nanosPerDay) = date at *
  by_cases hneg : date.year < 0
  · have hsign : ∀ cs, takeDigits 4 ('-' :: cs) = none := fun cs => by simp [takeDigits]
    rw [appendYear, if_pos hneg, parseChars, takeDate, List.cons_append, hsign]
    rfl
  · have hbig : ¬ (Nat.toDigits 10 date.year.natAbs).length ≤ 4 := by
      rw [Nat.length_toDigits_le_iff (by decide) (by decide)]
      omega
    rw [appendYear, if_neg hneg]
    apply parseChars_longYear appendInt_digits
    rw [appendInt, List.length_append]
    omega

/-- A text never stands for another instant than the one it was written for. -/
theorem eq_of_parse_format {t t' : Int} (h : parse (format t) = some t') : t' = t := by
  by_cases hr : Representable t
  · rw [parse_format hr] at h; exact (Option.some.inj h).symm
  · rw [parse_format_of_not_representable hr] at h; cases h

example : format 1700000000120000000 = "2023-11-14T22:13:20.12Z" := by decide +kernel
example : parse "2024-02-29T23:30:00+01:00" = some 1709245800000000000 := by decide +kernel
example : parse "2023-02-29T00:00:00Z" = none := by decide +kernel

end TabbySync.Library.Rfc3339
