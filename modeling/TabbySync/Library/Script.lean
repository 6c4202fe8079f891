import Mathlib.Logic.Basic

/-! # Scripts that may be stopped anywhere

A shell script under `set -e` with a trap on its exit. The commands of the body run one
after the other until one fails or a signal arrives; then, and at the end unless the body
has removed the trap, the commands of the trap run. A failure inside the trap ends it, and
a kill ends everything where it stands.

A command says apart what it leaves when it succeeds and what it may leave when it is cut
short. A block of commands accordingly has, besides pre- and postcondition, a condition
that holds at every moment on the way (`Meets`), and a script is put together from a body
whose condition in between is the precondition of the trap (`Script.Guarantees`). -/

namespace TabbySync.Library

namespace Script

/-- A command over states `σ`, with what its environment hands it. -/
structure Command (ε σ : Type) where
  /-- What it leaves when it succeeds, `none` where it cannot. -/
  run : ε → σ → Option σ
  /-- What it leaves when it fails or is stopped halfway. -/
  cut : ε → σ → σ

/-- What becomes of the next command: it runs, the script exits (by an error or a signal),
or everything is killed. -/
inductive Fate
  | runs
  | exits
  | killed
  deriving DecidableEq, Repr

structure Event (ε : Type) where
  fate : Fate
  /-- The next command had begun when the script exited or was killed. -/
  begun : Bool
  env : ε

/-- What an exit or a kill leaves of the next command. -/
def Event.left {ε σ : Type} (ev : Event ε) (c : Command ε σ) (s : σ) : σ :=
  if ev.begun then c.cut ev.env s else s

/-- Where a script stands. `stopped` is short of its end: killed, or with a trap that did
not get through. -/
inductive Phase (ε σ : Type)
  | body (rest : List (Command ε σ))
  | trap (ok : Bool) (rest : List (Command ε σ))
  | ended (ok : Bool)
  | stopped

def Phase.isOver {ε σ : Type} : Phase ε σ → Bool
  | .ended _ | .stopped => true
  | _ => false

end Script

open Script

structure Script (ε σ : Type) where
  body : List (Command ε σ)
  onExit : List (Command ε σ)
  /-- The body ends by removing the trap. -/
  disarms : Bool

namespace Script

variable {ε σ : Type}

def step (S : Script ε σ) (x : σ × Phase ε σ) (ev : Event ε) : σ × Phase ε σ :=
  match x with
  | (s, .body []) =>
    match ev.fate with
    | .runs => (s, if S.disarms then .ended true else .trap true S.onExit)
    | .exits => (s, .trap false S.onExit)
    | .killed => (s, .stopped)
  | (s, .body (c :: rest)) =>
    match ev.fate with
    | .runs =>
      match c.run ev.env s with
      | some s' => (s', .body rest)
      | none => (c.cut ev.env s, .trap false S.onExit)
    | .exits => (ev.left c s, .trap false S.onExit)
    | .killed => (ev.left c s, .stopped)
  | (s, .trap ok []) =>
    match ev.fate with
    | .runs => (s, .ended ok)
    | .exits | .killed => (s, .stopped)
  | (s, .trap ok (c :: rest)) =>
    match ev.fate with
    | .runs =>
      match c.run ev.env s with
      | some s' => (s', .trap ok rest)
      | none => (c.cut ev.env s, .stopped)
    | .exits | .killed => (ev.left c s, .stopped)
  | (s, .ended ok) => (s, .ended ok)
  | (s, .stopped) => (s, .stopped)

def run (S : Script ε σ) (x : σ × Phase ε σ) (evs : List (Event ε)) : σ × Phase ε σ :=
  evs.foldl S.step x

/-- The script from its first command on. -/
def start (S : Script ε σ) (s : σ) : σ × Phase ε σ := (s, .body S.body)

/-! ## Kinds of commands -/

/-- A test without effect. -/
def Command.guard (p : ε → σ → Bool) : Command ε σ where
  run e s := if p e s then some s else none
  cut _ s := s

/-- An assignment. -/
def Command.assign (f : σ → σ) : Command ε σ where
  run _ s := some (f s)
  cut _ s := s

/-- A command whose whole effect is one system call, which has been made or not. -/
def Command.atomic (made : ε → Bool) (f : ε → σ → Option σ) : Command ε σ where
  run := f
  cut e s := if made e then (f e s).getD s else s

/-- A command inside an `if`. -/
def Command.when (p : ε → σ → Bool) (c : Command ε σ) : Command ε σ where
  run e s := if p e s then c.run e s else some s
  cut e s := if p e s then c.cut e s else s

/-! ## Conditions

`E` is what is asked of the environment. -/

/-- From `P` the command succeeds with `Q` and is cut short with `R`. -/
structure Command.Meets (E : ε → Prop) (c : Command ε σ) (P Q R : σ → Prop) : Prop where
  run : ∀ e s s', E e → P s → c.run e s = some s' → Q s'
  cut : ∀ e s, E e → P s → R (c.cut e s)

/-- From `P` the commands get through with `Q`, and every moment on the way has `R`. -/
def Meets (E : ε → Prop) (P Q R : σ → Prop) : List (Command ε σ) → Prop
  | [] => ∀ s, P s → Q s ∧ R s
  | c :: cs => (∀ s, P s → R s) ∧ ∃ M, c.Meets E P M R ∧ Meets E M Q R cs

section
variable {E : ε → Prop} {P P' Q M R : σ → Prop} {c : Command ε σ}
  {cs ds : List (Command ε σ)}

theorem Meets.here (h : Meets E P Q R cs) {s : σ} (hs : P s) : R s := by
  cases cs with
  | nil => exact (h s hs).2
  | cons c cs => exact h.1 s hs

theorem Meets.cons (hR : ∀ s, P s → R s) (hc : c.Meets E P M R) (hcs : Meets E M Q R cs) :
    Meets E P Q R (c :: cs) := ⟨hR, M, hc, hcs⟩

theorem Command.Meets.imp_pre (hP : ∀ s, P' s → P s) (hc : c.Meets E P Q R) :
    c.Meets E P' Q R :=
  ⟨fun e s s' he hs => hc.run e s s' he (hP s hs), fun e s he hs => hc.cut e s he (hP s hs)⟩

theorem Meets.imp_pre (hP : ∀ s, P' s → P s) (h : Meets E P Q R cs) : Meets E P' Q R cs := by
  cases cs with
  | nil => exact fun s hs => h s (hP s hs)
  | cons c cs =>
    obtain ⟨hR, M, hc, hcs⟩ := h
    exact ⟨fun s hs => hR s (hP s hs), M, hc.imp_pre hP, hcs⟩

theorem Meets.imp_post {Q' R' : σ → Prop} (hQ : ∀ s, Q s → Q' s) (hR : ∀ s, R s → R' s)
    (h : Meets E P Q R cs) : Meets E P Q' R' cs := by
  induction cs generalizing P with
  | nil => exact fun s hs => ⟨hQ s (h s hs).1, hR s (h s hs).2⟩
  | cons c cs ih =>
    obtain ⟨hP, M, hc, hcs⟩ := h
    exact ⟨fun s hs => hR s (hP s hs), M,
      ⟨hc.run, fun e s he hs => hR _ (hc.cut e s he hs)⟩, ih hcs⟩

theorem Meets.or (h : Meets E P Q R cs) (h' : Meets E P' Q R cs) :
    Meets E (fun s => P s ∨ P' s) Q R cs := by
  induction cs generalizing P P' with
  | nil => exact fun s hs => hs.elim (h s) (h' s)
  | cons c cs ih =>
    obtain ⟨hR, M, hc, hcs⟩ := h
    obtain ⟨hR', M', hc', hcs'⟩ := h'
    refine ⟨fun s hs => hs.elim (hR s) (hR' s), _, ⟨?_, ?_⟩, ih hcs hcs'⟩
    · rintro e s s' he (hs | hs) hrun
      · exact .inl (hc.run e s s' he hs hrun)
      · exact .inr (hc'.run e s s' he hs hrun)
    · rintro e s he (hs | hs)
      · exact hc.cut e s he hs
      · exact hc'.cut e s he hs

theorem Meets.append (hcs : Meets E P M R cs) (hds : Meets E M Q R ds) :
    Meets E P Q R (cs ++ ds) := by
  induction cs generalizing P with
  | nil => exact hds.imp_pre fun s hs => (hcs s hs).1
  | cons c cs ih =>
    obtain ⟨hP, N, hc, hrest⟩ := hcs
    exact ⟨hP, N, hc, ih hrest⟩

theorem meets_single (hR : ∀ s, P s → R s) (hQR : ∀ s, Q s → R s) (hc : c.Meets E P Q R) :
    Meets E P Q R [c] := .cons hR hc fun s hs => ⟨hs, hQR s hs⟩

theorem guard_meets {p : ε → σ → Bool} (hR : ∀ s, P s → R s)
    (hQ : ∀ e s, P s → p e s = true → Q s) : (Command.guard p).Meets E P Q R := by
  refine ⟨fun e s s' _ hs hrun => ?_, fun e s _ hs => hR s hs⟩
  simp only [Command.guard] at hrun
  split at hrun
  · cases hrun
    exact hQ e s hs ‹_›
  · cases hrun

theorem assign_meets {f : σ → σ} (hR : ∀ s, P s → R s) (hQ : ∀ s, P s → Q (f s)) :
    (Command.assign f : Command ε σ).Meets E P Q R := by
  refine ⟨fun e s s' _ hs hrun => ?_, fun e s _ hs => hR s hs⟩
  cases hrun
  exact hQ s hs

theorem atomic_meets {made : ε → Bool} {f : ε → σ → Option σ} (hR : ∀ s, P s → R s)
    (hQR : ∀ s, Q s → R s) (hQ : ∀ e s s', E e → P s → f e s = some s' → Q s') :
    (Command.atomic made f).Meets E P Q R := by
  refine ⟨hQ, fun e s he hs => ?_⟩
  simp only [Command.atomic]
  split
  · cases hf : f e s with
    | none => exact hR s hs
    | some s' => exact hQR s' (hQ e s s' he hs hf)
  · exact hR s hs

theorem when_meets {p : ε → σ → Bool} (hR : ∀ s, P s → R s)
    (hno : ∀ e s, E e → P s → p e s = false → Q s)
    (hc : c.Meets E (fun s => P s ∧ ∃ e, E e ∧ p e s = true) Q R) :
    (Command.when p c).Meets E P Q R := by
  constructor
  · intro e s s' he hs hrun
    simp only [Command.when] at hrun
    split at hrun
    · exact hc.run e s s' he ⟨hs, e, he, ‹_›⟩ hrun
    · rename_i hp
      cases hrun
      exact hno e s he hs (by simpa using hp)
  · intro e s he hs
    simp only [Command.when]
    split
    · exact hc.cut e s he ⟨hs, e, he, ‹_›⟩
    · exact hR s hs

/-- A loop over a list, with an invariant about the elements done. -/
theorem meets_forEach {α : Type} {I : List α → σ → Prop} {body : α → List (Command ε σ)}
    {xs : List α} (hR : ∀ s, I xs s → R s)
    (h : ∀ pre x post, xs = pre ++ x :: post → Meets E (I pre) (I (pre ++ [x])) R (body x)) :
    Meets E (I []) (I xs) R (xs.flatMap body) := by
  -- by induction on the part that is left
  have hfrom : ∀ post pre, xs = pre ++ post → Meets E (I pre) (I xs) R (post.flatMap body) := by
    intro post
    induction post with
    | nil =>
      intro pre hpre s hs
      rw [List.append_nil] at hpre
      subst hpre
      exact ⟨hs, hR s hs⟩
    | cons x post ih =>
      intro pre hpre
      rw [List.flatMap_cons]
      exact (h pre x post hpre).append (ih (pre ++ [x]) (by simp [hpre]))
  exact hfrom xs [] rfl

end

/-! ## The whole script -/

/-- Started with `P`, a script ends by itself with `N` and by its trap after an error with
`T`; at every moment of the body `R` holds, and `W` wherever it stands or is stopped. -/
structure Guarantees (S : Script ε σ) (E : ε → Prop) (P N T R W : σ → Prop) : Prop where
  body : ∃ Q, Meets E P Q R S.body ∧
    if S.disarms then ∀ s, Q s → N s ∧ W s else Meets E Q N W S.onExit
  trap : Meets E R T W S.onExit

/-- What is known in each phase. -/
def Known (N T R W : σ → Prop) (s : σ) : Phase ε σ → Prop
  | .body _ => R s ∧ W s
  | .trap _ _ => W s
  | .ended true => N s ∧ W s
  | .ended false => T s ∧ W s
  | .stopped => W s

section
variable {S : Script ε σ} {E : ε → Prop} {P N T R W Q : σ → Prop}

/-- The commands that are left meet the conditions. -/
def OnTrack (E : ε → Prop) (Q N T R W : σ → Prop) : σ × Phase ε σ → Prop
  | (s, .body rest) => ∃ P, P s ∧ Meets E P Q R rest
  | (s, .trap ok rest) => ∃ P, P s ∧ Meets E P (if ok then N else T) W rest
  | (s, .ended ok) => (if ok then N else T) s ∧ W s
  | (s, .stopped) => W s

/-- An exit or a kill, between two commands or inside one. -/
theorem Command.Meets.left {c : Command ε σ} (hc : c.Meets E P Q R) (hR : ∀ s, P s → R s)
    {ev : Event ε} (he : E ev.env) {s : σ} (hs : P s) : R (ev.left c s) := by
  unfold Event.left
  split
  · exact hc.cut _ _ he hs
  · exact hR s hs

theorem onTrack_body (htrap : Meets E R T W S.onExit) {s : σ} {c : Command ε σ}
    {rest : List (Command ε σ)} (h : OnTrack E Q N T R W (s, .body (c :: rest))) {ev : Event ε}
    (he : E ev.env) : OnTrack E Q N T R W (S.step (s, .body (c :: rest)) ev) := by
  obtain ⟨P, hs, hP, M, hc, hcs⟩ := h
  cases hf : ev.fate with
  | runs =>
    cases hrun : c.run ev.env s with
    | some s' =>
      simp only [step, hf, hrun]
      exact ⟨M, hc.run _ _ _ he hs hrun, hcs⟩
    | none =>
      simp only [step, hf, hrun]
      exact ⟨R, hc.cut _ _ he hs, htrap⟩
  | exits =>
    simp only [step, hf]
    exact ⟨R, hc.left hP he hs, htrap⟩
  | killed =>
    simp only [step, hf]
    exact htrap.here (hc.left hP he hs)

theorem onTrack_end (hend : if S.disarms then ∀ s, Q s → N s ∧ W s else Meets E Q N W S.onExit)
    (htrap : Meets E R T W S.onExit) {s : σ} (h : OnTrack E Q N T R W (s, .body []))
    (ev : Event ε) : OnTrack E Q N T R W (S.step (s, .body []) ev) := by
  obtain ⟨P, hs, hrest⟩ := h
  obtain ⟨hQ, hR⟩ := hrest s hs
  cases hf : ev.fate with
  | runs =>
    simp only [step, hf]
    split at hend
    · rename_i hd
      rw [if_pos hd]
      exact hend s hQ
    · rename_i hd
      rw [if_neg hd]
      exact ⟨Q, hQ, hend⟩
  | exits =>
    simp only [step, hf]
    exact ⟨R, hR, htrap⟩
  | killed =>
    simp only [step, hf]
    exact htrap.here hR

theorem onTrack_trap {s : σ} {ok : Bool} {rest : List (Command ε σ)}
    (h : OnTrack E Q N T R W (s, .trap ok rest)) {ev : Event ε} (he : E ev.env) :
    OnTrack E Q N T R W (S.step (s, .trap ok rest) ev) := by
  obtain ⟨P, hs, hrest⟩ := h
  cases rest with
  | nil =>
    obtain ⟨hQ, hW⟩ := hrest s hs
    cases hf : ev.fate with
    | runs =>
      simp only [step, hf]
      exact ⟨hQ, hW⟩
    | exits =>
      simp only [step, hf]
      exact hW
    | killed =>
      simp only [step, hf]
      exact hW
  | cons c rest =>
    obtain ⟨hP, M, hc, hcs⟩ := hrest
    cases hf : ev.fate with
    | runs =>
      cases hrun : c.run ev.env s with
      | some s' =>
        simp only [step, hf, hrun]
        exact ⟨M, hc.run _ _ _ he hs hrun, hcs⟩
      | none =>
        simp only [step, hf, hrun]
        exact hc.cut _ _ he hs
    | exits =>
      simp only [step, hf]
      exact hc.left hP he hs
    | killed =>
      simp only [step, hf]
      exact hc.left hP he hs

/-- Every run of a script keeps what the script guarantees. -/
theorem Guarantees.run (h : S.Guarantees E P N T R W) {s : σ} (hs : P s)
    {evs : List (Event ε)} (hevs : ∀ ev ∈ evs, E ev.env) :
    Known N T R W (S.run (S.start s) evs).1 (S.run (S.start s) evs).2 := by
  obtain ⟨Q, hbody, hend⟩ := h.body
  have htrack : ∀ (evs : List (Event ε)) (x : σ × Phase ε σ), (∀ ev ∈ evs, E ev.env) →
      OnTrack E Q N T R W x → OnTrack E Q N T R W (S.run x evs) := by
    intro evs
    induction evs with
    | nil => exact fun x _ hx => hx
    | cons ev evs ih =>
      intro x hevs hx
      have he := hevs ev (by simp)
      apply ih _ fun ev' h' => hevs ev' (by simp [h'])
      obtain ⟨s, phase⟩ := x
      cases phase with
      | body rest =>
        cases rest with
        | nil => exact onTrack_end hend h.trap hx ev
        | cons c rest => exact onTrack_body h.trap hx he
      | trap ok rest => exact onTrack_trap hx he
      | ended ok => exact hx
      | stopped => exact hx
  have hlast := htrack evs (S.start s) hevs ⟨P, hs, hbody⟩
  generalize S.run (S.start s) evs = x at hlast
  obtain ⟨t, phase⟩ := x
  cases phase with
  | body rest =>
    obtain ⟨P', ht, hrest⟩ := hlast
    exact ⟨hrest.here ht, h.trap.here (hrest.here ht)⟩
  | trap ok rest =>
    obtain ⟨P', ht, hrest⟩ := hlast
    exact hrest.here ht
  | ended ok =>
    cases ok with
    | true => exact hlast
    | false => exact hlast
  | stopped => exact hlast

end

end Script

end TabbySync.Library
