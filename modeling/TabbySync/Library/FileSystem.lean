import Mathlib.Logic.Function.Basic

/-! # Files with names

Names point to files and files have contents, as processes that share a directory see
them: a rename replaces what a name points to in one step, while a file that is open
is written through its handle whatever its name does meanwhile. Each file has at most
one name, and a new file is one that no name pointed to before; both are fields.

An operation on a path leaves every other path alone (`OnlyAt`). -/

namespace TabbySync.Library

structure FileSystem (Path : Type) where
  entry : Path → Option Nat
  content : Nat → List UInt8
  /-- No file in use has this number or a larger one. -/
  fresh : Nat
  below : ∀ p file, entry p = some file → file < fresh
  single : ∀ p q file, entry p = some file → entry q = some file → p = q

namespace FileSystem

variable {Path : Type} [DecidableEq Path]

/-- No files. -/
def empty : FileSystem Path where
  entry _ := none
  content _ := []
  fresh := 0
  below _ _ h := by cases h
  single _ _ _ h := by cases h

/-- The contents under a name, `none` if the name does not exist. -/
def read (fs : FileSystem Path) (p : Path) : Option (List UInt8) := (fs.entry p).map fs.content

/-- Point a name to a new empty file. The new file is number `fresh`. -/
def create (fs : FileSystem Path) (p : Path) : FileSystem Path where
  entry := Function.update fs.entry p (some fs.fresh)
  content := Function.update fs.content fs.fresh []
  fresh := fs.fresh + 1
  below q file h := by
    by_cases hq : q = p
    · subst hq
      simp only [Function.update_self, Option.some.injEq] at h
      omega
    · rw [Function.update_of_ne hq] at h
      exact Nat.lt_succ_of_lt (fs.below q file h)
  single q r file hq hr := by
    have old : ∀ s, s ≠ p → Function.update fs.entry p (some fs.fresh) s = some file →
        file < fs.fresh := fun s hs h => by
      rw [Function.update_of_ne hs] at h
      exact fs.below s file h
    by_cases hqp : q = p <;> by_cases hrp : r = p
    · rw [hqp, hrp]
    · subst hqp
      rw [Function.update_self, Option.some.injEq] at hq
      exact absurd (old r hrp hr) (by omega)
    · subst hrp
      rw [Function.update_self, Option.some.injEq] at hr
      exact absurd (old q hqp hq) (by omega)
    · rw [Function.update_of_ne hqp] at hq
      rw [Function.update_of_ne hrp] at hr
      exact fs.single q r file hq hr

/-- Replace the contents of a file, by its handle. -/
def setContent (fs : FileSystem Path) (file : Nat) (bytes : List UInt8) : FileSystem Path :=
  { fs with content := Function.update fs.content file bytes }

/-- The first write through a handle: it starts at the beginning of the file and leaves
what lies beyond. -/
def write (fs : FileSystem Path) (file : Nat) (bytes : List UInt8) : FileSystem Path :=
  fs.setContent file (bytes ++ (fs.content file).drop bytes.length)

/-- Open for writing with create and truncate; the handle is the second component. -/
def openTruncate (fs : FileSystem Path) (p : Path) : FileSystem Path × Nat :=
  match fs.entry p with
  | some file => (fs.setContent file [], file)
  | none => (fs.create p, fs.fresh)

def remove (fs : FileSystem Path) (p : Path) : FileSystem Path where
  entry := Function.update fs.entry p none
  content := fs.content
  fresh := fs.fresh
  below q file h := by
    by_cases hq : q = p
    · subst hq; simp at h
    · rw [Function.update_of_ne hq] at h
      exact fs.below q file h
  single q r file hq hr := by
    have hqp : q ≠ p := fun h => by subst h; simp at hq
    have hrp : r ≠ p := fun h => by subst h; simp at hr
    rw [Function.update_of_ne hqp] at hq
    rw [Function.update_of_ne hrp] at hr
    exact fs.single q r file hq hr

/-- Move a file to another name, replacing what was there; `none` if there is no such
file. -/
def rename (fs : FileSystem Path) (p q : Path) : Option (FileSystem Path) :=
  match hp : fs.entry p with
  | none => none
  | some file => some
      { entry := Function.update (Function.update fs.entry p none) q (some file)
        content := fs.content
        fresh := fs.fresh
        below := fun r f h => by
          by_cases hr : r = q
          · subst hr
            rw [Function.update_self, Option.some.injEq] at h
            exact h ▸ fs.below p file hp
          · rw [Function.update_of_ne hr] at h
            exact (fs.remove p).below r f h
        single := fun r s f hr hs => by
          -- the moved file has lost its old name
          have moved : ∀ x, x ≠ q →
              Function.update (Function.update fs.entry p none) q (some file) x = some f →
              f ≠ file := fun x hx h heq => by
            rw [Function.update_of_ne hx] at h
            by_cases hxp : x = p
            · subst hxp; simp at h
            · rw [Function.update_of_ne hxp, heq] at h
              exact hxp (fs.single x p file h hp)
          by_cases hrq : r = q <;> by_cases hsq : s = q
          · rw [hrq, hsq]
          · subst hrq
            rw [Function.update_self, Option.some.injEq] at hr
            exact absurd hr.symm (moved s hsq hs)
          · subst hsq
            rw [Function.update_self, Option.some.injEq] at hs
            exact absurd hs.symm (moved r hrq hr)
          · rw [Function.update_of_ne hrq] at hr
            rw [Function.update_of_ne hsq] at hs
            exact (fs.remove p).single r s f hr hs }

/-! ## What each operation does -/

variable {fs fs' : FileSystem Path} {p q : Path} {file : Nat}

/-- Only the given path may read differently. -/
def OnlyAt (p : Path) (fs fs' : FileSystem Path) : Prop :=
  ∀ q, q ≠ p → fs'.entry q = fs.entry q ∧ fs'.read q = fs.read q

omit [DecidableEq Path] in
theorem OnlyAt.refl (p : Path) : OnlyAt p fs fs := fun _ _ => ⟨rfl, rfl⟩

omit [DecidableEq Path] in
theorem read_eq_some (h : fs.entry p = some file) : fs.read p = some (fs.content file) := by
  rw [read, h]
  rfl

omit [DecidableEq Path] in
theorem read_eq_none : fs.read p = none ↔ fs.entry p = none := Option.map_eq_none_iff

@[simp] theorem entry_create : (fs.create p).entry p = some fs.fresh := by simp [create]

@[simp] theorem read_create : (fs.create p).read p = some [] := by simp [read, create]

theorem onlyAt_create (fs : FileSystem Path) (p : Path) : OnlyAt p fs (fs.create p) := by
  intro q hq
  have hentry : (fs.create p).entry q = fs.entry q := Function.update_of_ne hq _ _
  refine ⟨hentry, ?_⟩
  rw [read, hentry, read]
  cases h : fs.entry q with
  | none => rfl
  | some f =>
    have hne : f ≠ fs.fresh := Nat.ne_of_lt (fs.below q f h)
    exact congrArg some (Function.update_of_ne hne _ _)

omit [DecidableEq Path] in
@[simp] theorem entry_setContent (bytes : List UInt8) :
    (fs.setContent file bytes).entry p = fs.entry p := rfl

omit [DecidableEq Path] in
theorem read_setContent (h : fs.entry p = some file) (bytes : List UInt8) :
    (fs.setContent file bytes).read p = some bytes := by
  rw [read, entry_setContent, h]
  exact congrArg some (Function.update_self _ _ _)

omit [DecidableEq Path] in
theorem read_setContent_of_ne (h : fs.entry p ≠ some file) (bytes : List UInt8) :
    (fs.setContent file bytes).read p = fs.read p := by
  rw [read, entry_setContent, read]
  cases hf : fs.entry p with
  | none => rfl
  | some f =>
    have hne : f ≠ file := fun heq => h (heq ▸ hf)
    exact congrArg some (Function.update_of_ne hne _ _)

omit [DecidableEq Path] in
theorem onlyAt_setContent (h : fs.entry p = some file) (bytes : List UInt8) :
    OnlyAt p fs (fs.setContent file bytes) := fun q hq =>
  ⟨rfl, read_setContent_of_ne (fun hf => hq (fs.single q p file hf h)) bytes⟩

omit [DecidableEq Path] in
/-- The first write to an empty file. -/
theorem read_write (hentry : fs.entry p = some file) (hread : fs.read p = some [])
    (bytes : List UInt8) : (fs.write file bytes).read p = some bytes := by
  have hempty : fs.content file = [] := by
    rw [read_eq_some hentry] at hread
    exact Option.some.inj hread
  rw [write, read_setContent hentry, hempty, List.drop_nil, List.append_nil]

theorem openTruncate_spec (fs : FileSystem Path) (p : Path) :
    (fs.openTruncate p).1.entry p = some (fs.openTruncate p).2 ∧
      (fs.openTruncate p).1.read p = some [] ∧ OnlyAt p fs (fs.openTruncate p).1 := by
  unfold openTruncate
  split
  · rename_i h
    exact ⟨h, read_setContent h [], onlyAt_setContent h []⟩
  · exact ⟨entry_create, read_create, onlyAt_create fs p⟩

theorem onlyAt_remove (fs : FileSystem Path) (p : Path) : OnlyAt p fs (fs.remove p) := by
  intro q hq
  have hentry : (fs.remove p).entry q = fs.entry q := Function.update_of_ne hq _ _
  exact ⟨hentry, congrArg (Option.map fs.content) hentry⟩

/-- A rename carries the file over and frees the old name. -/
theorem rename_ok (h : fs.rename p q = some fs') (hpq : p ≠ q) :
    fs'.entry q = fs.entry p ∧ fs'.read q = fs.read p ∧ fs'.entry p = none ∧
      ∀ r, r ≠ p → r ≠ q → fs'.entry r = fs.entry r ∧ fs'.read r = fs.read r := by
  unfold rename at h
  split at h
  · cases h
  · rename_i file hfile
    cases h
    have hmoved : Function.update (Function.update fs.entry p none) q (some file) q =
        fs.entry p := (Function.update_self _ _ _).trans hfile.symm
    refine ⟨hmoved, congrArg (Option.map fs.content) hmoved, ?_, fun r hrp hrq => ?_⟩
    · exact (Function.update_of_ne hpq _ _).trans (Function.update_self _ _ _)
    · have hentry : Function.update (Function.update fs.entry p none) q (some file) r =
          fs.entry r := by rw [Function.update_of_ne hrq, Function.update_of_ne hrp]
      exact ⟨hentry, congrArg (Option.map fs.content) hentry⟩

/-! ## What a process knows of its own file -/

/-- Nothing; the handle and the bytes of an open file; the bytes of a closed one. -/
inductive Knowledge
  | nothing
  | opened (file : Nat) (bytes : List UInt8)
  | closed (bytes : List UInt8)

/-- The file under the name is as it is known. -/
def Shows (fs : FileSystem Path) (p : Path) : Knowledge → Prop
  | .nothing => True
  | .opened file bytes => fs.entry p = some file ∧ fs.read p = some bytes
  | .closed bytes => fs.read p = some bytes

omit [DecidableEq Path] in
/-- What happens to other files is no concern. -/
theorem Shows.frame {k : Knowledge} (h : fs.Shows p k) (hentry : fs'.entry p = fs.entry p)
    (hread : fs'.read p = fs.read p) : fs'.Shows p k := by
  cases k with
  | nothing => trivial
  | opened file bytes => exact ⟨hentry.trans h.1, hread.trans h.2⟩
  | closed bytes => exact hread.trans h

end FileSystem

end TabbySync.Library
