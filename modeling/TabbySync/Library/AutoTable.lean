import Mathlib.Data.List.Forall2
import Mathlib.Data.List.Sort
import Mathlib.Order.Basic

/-! # Tables with an increasing key

A table is the list of its rows in key order together with the largest key it
has ever handed out. A new row takes a key above that mark, an update leaves
keys alone, and a deletion does not lower the mark, so a key is never given to
two rows. The order and the bound are fields: a table that breaks them cannot
be built. -/

namespace TabbySync.Library

/-- Rows in ascending key order, none above the high-water mark `last`. -/
@[ext]
structure AutoTable {α K : Type} [LinearOrder K] (key : α → K) where
  rows : List α
  last : K
  sorted : rows.Pairwise fun a b => key a < key b
  bounded : ∀ r ∈ rows, key r ≤ last

namespace AutoTable

variable {α K : Type} [LinearOrder K] {key : α → K}

instance [DecidableEq α] : DecidableEq (AutoTable key) := fun s t =>
  decidable_of_iff (s.rows = t.rows ∧ s.last = t.last) AutoTable.ext_iff.symm

/-- A table without rows whose keys start above `last`. -/
def empty (last : K) : AutoTable key where
  rows := []
  last := last
  sorted := List.Pairwise.nil
  bounded := by simp

/-- The rows a condition selects, in key order. -/
def select (t : AutoTable key) (p : α → Bool) : List α := t.rows.filter p

/-- The first row a condition selects. -/
def find (t : AutoTable key) (p : α → Bool) : Option α := t.rows.find? p

/-- Append a row under a key above every key handed out so far; a row under
another key is refused. -/
def insert (t : AutoTable key) (r : α) : AutoTable key :=
  if h : t.last < key r then
    { rows := t.rows ++ [r]
      last := key r
      sorted := List.pairwise_append.mpr ⟨t.sorted, List.pairwise_singleton _ _, fun a ha b hb => by
        rw [List.mem_singleton.mp hb]
        exact lt_of_le_of_lt (t.bounded a ha) h⟩
      bounded := fun a ha => by
        rcases List.mem_append.mp ha with ha | ha
        · exact le_of_lt (lt_of_le_of_lt (t.bounded a ha) h)
        · exact le_of_eq (congrArg key (List.mem_singleton.mp ha)) }
  else t

/-- Rewrite the selected rows in place; the rewriting keeps the key. -/
def update (t : AutoTable key) (p : α → Bool) (f : α → α) (hf : ∀ r, key (f r) = key r) :
    AutoTable key where
  rows := t.rows.map fun r => if p r then f r else r
  last := t.last
  sorted := List.pairwise_map.mpr (t.sorted.imp fun {a b} h => by
    have ha : key (if p a then f a else a) = key a := by split <;> simp [hf]
    have hb : key (if p b then f b else b) = key b := by split <;> simp [hf]
    rw [ha, hb]; exact h)
  bounded := fun r hr => by
    obtain ⟨a, ha, rfl⟩ := List.mem_map.mp hr
    have he : key (if p a then f a else a) = key a := by split <;> simp [hf]
    rw [he]; exact t.bounded a ha

/-- Drop the selected rows. The mark stays where it is. -/
def delete (t : AutoTable key) (p : α → Bool) : AutoTable key where
  rows := t.rows.filter fun r => !p r
  last := t.last
  sorted := t.sorted.filter _
  bounded := fun r hr => t.bounded r (List.mem_filter.mp hr).1

/-- Keys up to `k` are handed out elsewhere. -/
def raise (t : AutoTable key) (k : K) : AutoTable key where
  rows := t.rows
  last := max t.last k
  sorted := t.sorted
  bounded := fun r hr => (t.bounded r hr).trans (le_max_left _ _)

@[simp] theorem rows_empty (l : K) : (empty l : AutoTable key).rows = [] := rfl

theorem rows_insert {t : AutoTable key} {r : α} (h : t.last < key r) :
    (t.insert r).rows = t.rows ++ [r] := by simp [insert, h]

theorem last_insert {t : AutoTable key} {r : α} (h : t.last < key r) :
    (t.insert r).last = key r := by simp [insert, h]

theorem mem_insert {t : AutoTable key} {r a : α} (h : t.last < key r) :
    a ∈ (t.insert r).rows ↔ a ∈ t.rows ∨ a = r := by simp [rows_insert h]

theorem mem_update {t : AutoTable key} {p : α → Bool} {f : α → α} {hf : ∀ r, key (f r) = key r}
    {r : α} : r ∈ (t.update p f hf).rows ↔ ∃ a ∈ t.rows, (if p a then f a else a) = r :=
  List.mem_map

theorem mem_delete {t : AutoTable key} {p : α → Bool} {r : α} :
    r ∈ (t.delete p).rows ↔ r ∈ t.rows ∧ p r = false := by
  simp [delete, List.mem_filter]

theorem mem_select {t : AutoTable key} {p : α → Bool} {r : α} :
    r ∈ t.select p ↔ r ∈ t.rows ∧ p r = true := List.mem_filter

theorem find_mem {t : AutoTable key} {p : α → Bool} {r : α} (h : t.find p = some r) :
    r ∈ t.rows ∧ p r = true :=
  ⟨List.mem_of_find?_eq_some h, List.find?_some h⟩

/-- A key names at most one row. -/
theorem key_inj (t : AutoTable key) {a b : α} (ha : a ∈ t.rows) (hb : b ∈ t.rows)
    (h : key a = key b) : a = b := by
  have hs := t.sorted
  generalize t.rows = rows at ha hb hs
  induction rows with
  | nil => cases ha
  | cons x rest ih =>
    obtain ⟨hx, hrest⟩ := List.pairwise_cons.mp hs
    rcases List.mem_cons.mp ha with hax | har <;> rcases List.mem_cons.mp hb with hbx | hbr
    · rw [hax, hbx]
    · exact absurd h (ne_of_lt (hax ▸ hx b hbr))
    · exact absurd h.symm (ne_of_lt (hbx ▸ hx a har))
    · exact ih har hbr hrest

/-- A condition that pins the key finds exactly the row it holds of. -/
theorem find_eq_some {t : AutoTable key} {p : α → Bool} {k : K}
    (hp : ∀ r, p r = true → key r = k) {r : α} :
    t.find p = some r ↔ r ∈ t.rows ∧ p r = true := by
  constructor
  · exact find_mem
  · rintro ⟨hr, hpr⟩
    cases hf : t.find p with
    | none => exact absurd hpr (by simpa using List.find?_eq_none.mp hf r hr)
    | some a =>
      obtain ⟨ha, hpa⟩ := find_mem hf
      rw [t.key_inj ha hr ((hp a hpa).trans (hp r hpr).symm)]

/-- A row of the rewritten table carries the key of the row it came from. -/
theorem mem_update_key {t : AutoTable key} {p : α → Bool} {f : α → α}
    {hf : ∀ r, key (f r) = key r} {r : α} (h : r ∈ (t.update p f hf).rows) :
    ∃ a ∈ t.rows, key a = key r ∧ (r = a ∨ (p a = true ∧ r = f a)) := by
  obtain ⟨a, ha, rfl⟩ := mem_update.mp h
  by_cases hp : p a = true
  · exact ⟨a, ha, by simp [hp, hf], .inr ⟨hp, by simp [hp]⟩⟩
  · exact ⟨a, ha, by simp [hp], .inl (by simp [hp])⟩

/-- The row under a key after the rewriting is the row that was there, rewritten. -/
theorem eq_of_mem_update {t : AutoTable key} {p : α → Bool} {f : α → α}
    {hf : ∀ r, key (f r) = key r} {r a : α} (hr : r ∈ (t.update p f hf).rows) (ha : a ∈ t.rows)
    (hk : key r = key a) : r = if p a then f a else a := by
  obtain ⟨b, hb, rfl⟩ := mem_update.mp hr
  have hkb : key (if p b then f b else b) = key b := by split <;> simp [hf]
  rw [t.key_inj hb ha (hkb.symm.trans hk)]

/-- Rewriting nothing changes nothing. -/
theorem update_of_none {t : AutoTable key} {p : α → Bool} {f : α → α}
    {hf : ∀ r, key (f r) = key r} (h : ∀ r ∈ t.rows, p r = true → f r = r) :
    t.update p f hf = t := by
  apply AutoTable.ext
  · calc t.rows.map (fun r => if p r then f r else r) = t.rows.map id :=
        List.map_congr_left fun r hr => by
          by_cases hp : p r = true
          · simp [hp, h r hr hp]
          · simp [hp]
      _ = t.rows := List.map_id _
  · rfl

/-- A search that the rewriting respects finds the rewritten row. -/
theorem find_update {t : AutoTable key} {p : α → Bool} {f : α → α} {hf : ∀ r, key (f r) = key r}
    (hp : ∀ r, p (f r) = p r) : (t.update p f hf).find p = (t.find p).map f := by
  simp only [find, update, List.find?_map]
  have hc : (p ∘ fun r => if p r then f r else r) = p := by
    funext r
    by_cases h : p r = true <;> simp [h, hp]
  rw [hc]
  cases h : t.rows.find? p with
  | none => rfl
  | some r => simp [List.find?_some h]

/-! ## Selections the operations do not touch -/

theorem select_insert {t : AutoTable key} {r : α} (h : t.last < key r) (q : α → Bool) :
    (t.insert r).select q = t.select q ++ if q r then [r] else [] := by
  simp only [select, rows_insert h, List.filter_append, List.filter_cons, List.filter_nil]

theorem select_update_of_disjoint {t : AutoTable key} {p q : α → Bool} {f : α → α}
    {hf : ∀ r, key (f r) = key r} (hq : ∀ r, q (f r) = q r) (hpq : ∀ r, p r = true → q r = false) :
    (t.update p f hf).select q = t.select q := by
  simp only [select, update, List.filter_map]
  have hc : (q ∘ fun r => if p r then f r else r) = q := by
    funext r; by_cases hp : p r = true <;> simp [hp, hq]
  rw [hc]
  calc (t.rows.filter q).map (fun r => if p r then f r else r) = (t.rows.filter q).map id :=
      List.map_congr_left fun r hr => by
        have hqr := (List.mem_filter.mp hr).2
        have hp : p r = false := by
          cases hpr : p r with
          | false => rfl
          | true => rw [hpq r hpr] at hqr; cases hqr
        simp [hp]
    _ = t.rows.filter q := List.map_id _

/-- A selection the rewriting respects is rewritten like the table. -/
theorem select_update {t : AutoTable key} {p q : α → Bool} {f : α → α}
    {hf : ∀ r, key (f r) = key r} (hq : ∀ r, q (f r) = q r) :
    (t.update p f hf).select q = (t.select q).map fun r => if p r then f r else r := by
  simp only [select, update, List.filter_map]
  have hc : (q ∘ fun r => if p r then f r else r) = q := by
    funext r; by_cases hp : p r = true <;> simp [hp, hq]
  rw [hc]

theorem select_delete (t : AutoTable key) (p q : α → Bool) :
    (t.delete p).select q = (t.select q).filter fun r => !p r := by
  simp only [select, delete, List.filter_filter, Bool.and_comm]

theorem select_delete_of_disjoint {t : AutoTable key} {p q : α → Bool}
    (hpq : ∀ r, p r = true → q r = false) : (t.delete p).select q = t.select q := by
  rw [select_delete]
  apply List.filter_eq_self.mpr
  intro r hr
  have hqr := (List.mem_filter.mp hr).2
  cases hpr : p r with
  | false => rfl
  | true => rw [hpq r hpr] at hqr; cases hqr

theorem select_eq_filter_select {t : AutoTable key} {p q : α → Bool}
    (h : ∀ r, p r = true → q r = true) : t.select p = (t.select q).filter p := by
  simp only [select, List.filter_filter]
  refine List.filter_congr fun r _ => ?_
  cases hp : p r with
  | false => rfl
  | true => rw [h r hp]; rfl

/-- A search inside a selection sees only the selection. -/
theorem find_eq_find_select {t : AutoTable key} {p q : α → Bool}
    (h : ∀ r, p r = true → q r = true) : t.find p = (t.select q).find? p := by
  simp only [find, select]
  induction t.rows with
  | nil => rfl
  | cons r rest ih =>
    by_cases hp : p r = true
    · simp [hp, h r hp]
    · by_cases hq : q r = true
      · simp [hp, hq, ih]
      · simp [hp, hq, ih]

/-! ## Tables related row by row

A table that stores what another one means. Each operation keeps the relation if it
does so on single rows. -/

/-- The same keys handed out, and related rows in the same places. -/
structure Rel {β : Type} {key' : β → K} (R : α → β → Prop) (t : AutoTable key)
    (a : AutoTable key') : Prop where
  last : t.last = a.last
  rows : List.Forall₂ R t.rows a.rows

section
variable {β : Type} {key' : β → K} {R : α → β → Prop} {t : AutoTable key} {a : AutoTable key'}
variable {p : α → Bool} {q : β → Bool}

theorem Rel.empty (l : K) : Rel R (AutoTable.empty l : AutoTable key)
    (AutoTable.empty l : AutoTable key') := ⟨rfl, .nil⟩

theorem Rel.select (h : Rel R t a) (hpq : ∀ x y, R x y → p x = q y) :
    List.Forall₂ R (t.select p) (a.select q) :=
  List.rel_filter (fun _ _ hxy => iff_of_eq (congrArg (· = true) (hpq _ _ hxy))) h.rows

theorem Rel.find (h : Rel R t a) (hpq : ∀ x y, R x y → p x = q y) :
    (t.find p = none ∧ a.find q = none) ∨
      ∃ x y, t.find p = some x ∧ a.find q = some y ∧ R x y := by
  have hsel := h.select hpq
  simp only [AutoTable.find, ← List.head?_filter]
  simp only [AutoTable.select] at hsel
  generalize t.rows.filter p = xs at hsel ⊢
  generalize a.rows.filter q = ys at hsel ⊢
  cases hsel with
  | nil => exact .inl ⟨rfl, rfl⟩
  | cons hxy _ => exact .inr ⟨_, _, rfl, rfl, hxy⟩

theorem Rel.insert (h : Rel R t a) {x : α} {y : β} (hx : t.last < key x) (hk : key x = key' y)
    (hxy : R x y) : Rel R (t.insert x) (a.insert y) := by
  have hy : a.last < key' y := h.last ▸ hk ▸ hx
  refine ⟨?_, ?_⟩
  · rw [AutoTable.last_insert hx, AutoTable.last_insert hy, hk]
  · rw [AutoTable.rows_insert hx, AutoTable.rows_insert hy]
    exact List.rel_append h.rows (.cons hxy .nil)

theorem Rel.update (h : Rel R t a) {f : α → α} {g : β → β} (hf : ∀ x, key (f x) = key x)
    (hg : ∀ y, key' (g y) = key' y) (hpq : ∀ x y, R x y → p x = q y)
    (hfg : ∀ x ∈ t.rows, ∀ y ∈ a.rows, R x y → p x = true → R (f x) (g y)) :
    Rel R (t.update p f hf) (a.update q g hg) := by
  refine ⟨h.last, ?_⟩
  have hrows := h.rows
  simp only [AutoTable.update]
  generalize t.rows = xs at hrows hfg
  generalize a.rows = ys at hrows hfg
  induction hrows with
  | nil => exact .nil
  | @cons x y xs ys hxy _ ih =>
    refine .cons ?_ (ih fun x' hx' y' hy' => hfg x' (by simp [hx']) y' (by simp [hy']))
    simp only [← hpq x y hxy]
    split
    · exact hfg x (by simp) y (by simp) hxy ‹_›
    · exact hxy

theorem Rel.delete (h : Rel R t a) (hpq : ∀ x y, R x y → p x = q y) :
    Rel R (t.delete p) (a.delete q) :=
  ⟨h.last, List.rel_filter (fun _ _ hxy => iff_of_eq (by simp only [hpq _ _ hxy])) h.rows⟩

end

end AutoTable

end TabbySync.Library
