import Mathlib.Logic.Function.Defs

/-! # Handlers and wrappers

A handler takes a call to a result; a wrapper makes a handler from the one it wraps. What
a wrapper does with the wrapped handler at a given call is said for all handlers at once:
it answers without it, or it calls it once, on another call, and finishes the result. -/

namespace TabbySync.Library

abbrev Wrapper (γ δ : Type) := (γ → δ) → γ → δ

namespace Wrapper

variable {γ δ : Type}

/-- Compose wrappers around a handler, the first outermost; absent ones are skipped. -/
def chain (h : γ → δ) : List (Option (Wrapper γ δ)) → γ → δ
  | [] => h
  | none :: ws => chain h ws
  | some w :: ws => w (chain h ws)

/-- At this call the wrapped handler has no part in the result. -/
def Answers (w : Wrapper γ δ) (c : γ) (out : δ) : Prop := ∀ h, w h c = out

/-- At this call the wrapped handler is called once, on `c'`. -/
def Passes (w : Wrapper γ δ) (c c' : γ) (finish : δ → δ) : Prop := ∀ h, w h c = finish (h c')

/-- A list of wrappers as one. -/
def stack (ws : List (Option (Wrapper γ δ))) : Wrapper γ δ := fun h => chain h ws

variable {w : Wrapper γ δ} {ws : List (Option (Wrapper γ δ))} {c c' c'' : γ} {f g : δ → δ}
  {out : δ}

theorem stack_nil_passes (c : γ) : Passes (stack ([] : List (Option (Wrapper γ δ)))) c c id :=
  fun _ => rfl

theorem Answers.stack (h : Answers w c out) : Answers (stack (some w :: ws)) c out :=
  fun _ => h _

theorem Passes.stack_answers (h : Passes w c c' f) (hs : Answers (stack ws) c' out) :
    Answers (stack (some w :: ws)) c (f out) :=
  fun k => (h _).trans (congrArg f (hs k))

theorem Passes.stack_passes (h : Passes w c c' f) (hs : Passes (stack ws) c' c'' g) :
    Passes (stack (some w :: ws)) c c'' (f ∘ g) :=
  fun k => (h _).trans (congrArg f (hs k))

/-- How a stack of wrappers treats a call: an answer with `A`, or a call of the handler on
a `c'` with `R`; either way the results are finished by functions with `K`. -/
inductive Mediates (A : δ → Prop) (R : γ → Prop) (K : (δ → δ) → Prop) (w : Wrapper γ δ) (c : γ) :
    Prop
  | answers {out : δ} (h : Answers w c out) (ha : A out)
  | passes {c' : γ} {f : δ → δ} (h : Passes w c c' f) (hr : R c') (hf : K f)

/-- A wrapper that passes hands the question on to the rest of the stack. -/
theorem Mediates.of_passes {A : δ → Prop} {R : γ → Prop} {K : (δ → δ) → Prop}
    (h : Passes w c c' f) (hA : ∀ out, A out → A (f out)) (hK : ∀ g, K g → K (f ∘ g))
    (hs : Mediates A R K (stack ws) c') : Mediates A R K (stack (some w :: ws)) c := by
  cases hs with
  | answers hs ha => exact .answers (h.stack_answers hs) (hA _ ha)
  | passes hs hr hf => exact .passes (h.stack_passes hs) hr (hK _ hf)

/-- The same for a wrapper that leaves the result as it is. -/
theorem Mediates.of_forwards {A : δ → Prop} {R : γ → Prop} {K : (δ → δ) → Prop}
    (h : Passes w c c' id) (hs : Mediates A R K (Wrapper.stack ws) c') :
    Mediates A R K (Wrapper.stack (some w :: ws)) c :=
  .of_passes h (fun _ ha => ha) (fun _ hg => hg) hs

end Wrapper

end TabbySync.Library
