import Mathlib.Data.List.Infix
import Mathlib.Data.Nat.Find

/-! # Replacing every occurrence of a word

Leftmost, non-overlapping replacement in a list of symbols. The replacement is a marker
fenced by two symbols: a word without these symbols cannot reach across the border of a
marker, so what stands between the markers is all there is to look at. -/

namespace TabbySync.Library.Replace

variable {α : Type}

/-! ## Words and fences -/

/-- A word between two fences. -/
def fenced (left right : α) (word : List α) : List α := left :: (word ++ [right])

/-- A word that can be neither part of a marker nor reach across its border. -/
structure Foreign (left right : α) (word s : List α) : Prop where
  not_left : left ∉ s
  not_right : right ∉ s
  not_marker : ¬ s <:+: fenced left right word

/-- A word does not reach across a symbol it does not have. -/
theorem infix_append_cons {a : α} {s l r : List α} (ha : a ∉ s) (h : s <:+: l ++ a :: r) :
    s <:+: l ∨ s <:+: r := by
  have hstart : ∀ p, p ⊆ s → p <+: a :: r → p = [] := by
    intro p hp hpre
    rcases List.prefix_cons_iff.mp hpre with hnil | ⟨p', rfl, -⟩
    · exact hnil
    · exact absurd (hp List.mem_cons_self) ha
  rcases List.infix_append_iff.mp h with hl | hr | ⟨p, q, rfl, hp, hq⟩
  · exact .inl hl
  · rcases List.infix_cons_iff.mp hr with hpre | hr
    · rw [hstart s (List.Subset.refl s) hpre]
      exact .inl (List.nil_infix)
    · exact .inr hr
  · rw [hstart q (List.subset_append_right p q) hq, List.append_nil]
    exact .inl hp.isInfix

/-- What is foreign to a marker and occurs next to it occurs before or after it. -/
theorem Foreign.infix_around {left right : α} {word s before after : List α}
    (hs : Foreign left right word s) (h : s <:+: before ++ (fenced left right word ++ after)) :
    s <:+: before ∨ s <:+: after := by
  have hcut : before ++ (fenced left right word ++ after) =
      before ++ left :: (word ++ right :: after) := by simp [fenced]
  rw [hcut] at h
  rcases infix_append_cons hs.not_left h with hbefore | h
  · exact .inl hbefore
  · rcases infix_append_cons hs.not_right h with hword | hafter
    · have hpart : word <:+: fenced left right word := ⟨[left], [right], rfl⟩
      exact absurd (hword.trans hpart) hs.not_marker
    · exact .inr hafter

/-! ## Replacement -/

section
variable [DecidableEq α]

/-- The first `n` occurrences of a non-empty `old`, from the left, become `new`. -/
def replace (old new : List α) : Nat → List α → List α
  | 0, text => text
  | n + 1, text =>
    match text.dropInfix? old with
    | none => text
    | some (before, after) => before ++ (new ++ replace old new n after)

/-- Every occurrence: there are at most as many as there are symbols. -/
def replaceAll (old new text : List α) : List α := replace old new text.length text

section
variable {old text before after : List α}

theorem dropInfix?_some (h : text.dropInfix? old = some (before, after)) :
    text = before ++ (old ++ after) ∧ (old ≠ [] → ¬ old <:+: before) := by
  obtain ⟨⟨old', htext, hold⟩, hleftmost⟩ := List.dropInfix?_eq_some_iff.mp h
  obtain rfl := eq_of_beq hold
  rw [List.append_assoc] at htext
  refine ⟨htext, ?_⟩
  rintro hne ⟨p, q, rfl⟩
  have hle := hleftmost p old' (q ++ (old' ++ after)) (by simp [htext]) (beq_self_eq_true _)
  have hpos := List.length_pos_iff.mpr hne
  simp only [List.length_append] at hle
  omega

theorem dropInfix?_none : text.dropInfix? old = none ↔ ¬ old <:+: text := by
  constructor
  · rintro hnone ⟨p, q, htext⟩
    -- of the places where the word occurs, the scan finds the first
    have hplaces : ∃ n p q, text = p ++ old ++ q ∧ p.length = n := ⟨_, p, q, htext.symm, rfl⟩
    classical
    obtain ⟨first, rest, hfirst, hlength⟩ := Nat.find_spec hplaces
    have hsome : text.dropInfix? old = some (first, rest) := by
      refine List.dropInfix?_eq_some_iff.mpr ⟨⟨old, hfirst, beq_self_eq_true _⟩, ?_⟩
      intro p' old' q' htext' hold'
      obtain rfl := eq_of_beq hold'
      rw [hlength]
      exact Nat.find_min' hplaces ⟨p', q', htext', rfl⟩
    rw [hnone] at hsome
    cases hsome
  · intro habsent
    cases h : text.dropInfix? old with
    | none => rfl
    | some cut =>
      have hinfix : old <:+: text := ⟨cut.1, cut.2, by rw [(dropInfix?_some h).1]; simp⟩
      exact absurd hinfix habsent

/-- A text without the word stays as it is. -/
theorem replaceAll_of_not_infix {new : List α} (h : ¬ old <:+: text) :
    replaceAll old new text = text := by
  unfold replaceAll
  cases text.length with
  | zero => rfl
  | succ n => simp only [replace, dropInfix?_none.mpr h]

end

section
variable {left right : α} {word old s : List α}

/-- Replacement makes no new occurrence of a word that is foreign to the marker. -/
theorem Foreign.infix_replace (hs : Foreign left right word s) {n : Nat} {text : List α}
    (h : s <:+: replace old (fenced left right word) n text) : s <:+: text := by
  induction n generalizing text with
  | zero => exact h
  | succ n ih =>
    unfold replace at h
    split at h
    · exact h
    · rename_i before after hcut
      rw [(dropInfix?_some hcut).1]
      rcases hs.infix_around h with hbefore | hafter
      · exact hbefore.trans (List.prefix_append _ _).isInfix
      · have hrest : after <:+ before ++ (old ++ after) := ⟨before ++ old, by simp⟩
        exact (ih hafter).trans hrest.isInfix

theorem Foreign.infix_replaceAll (hs : Foreign left right word s) {text : List α}
    (h : s <:+: replaceAll old (fenced left right word) text) : s <:+: text :=
  hs.infix_replace h

/-- Replacement leaves no occurrence of its word: none before the first marker, none across
a marker, and none in the rest. -/
theorem Foreign.not_infix_replace (hs : Foreign left right word s) (hne : s ≠ []) {n : Nat}
    {text : List α} (hn : text.length ≤ n) :
    ¬ s <:+: replace s (fenced left right word) n text := by
  induction n generalizing text with
  | zero =>
    intro h
    rw [List.length_eq_zero_iff.mp (Nat.le_zero.mp hn)] at h
    exact hne (List.infix_nil.mp h)
  | succ n ih =>
    unfold replace
    split
    · rename_i hnone
      exact dropInfix?_none.mp hnone
    · rename_i before after hcut
      obtain ⟨htext, hbefore⟩ := dropInfix?_some hcut
      have hshort : after.length ≤ n := by
        have hpos := List.length_pos_iff.mpr hne
        rw [htext] at hn
        simp only [List.length_append] at hn
        omega
      intro h
      rcases hs.infix_around h with h | h
      · exact hbefore hne h
      · exact ih hshort h

theorem Foreign.not_infix_replaceAll (hs : Foreign left right word s) (hne : s ≠ [])
    (text : List α) : ¬ s <:+: replaceAll s (fenced left right word) text :=
  hs.not_infix_replace hne le_rfl

end

end

end TabbySync.Library.Replace
