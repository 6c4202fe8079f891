import TabbySync.Keys.FileProvider

/-! # Do concurrent first runs agree on the key?

They do if nobody installs a key over another. A call that has gone past its install
step holds a key; the invariant says that all such keys are the one in the file, with
the moment between the truncation and the write of `init` as its only other state. -/

namespace TabbySync.Keys

open Library

variable {ι : Type} [DecidableEq ι] {env : Env} {fs fs' : Files ι} {i : ι} {p p' : Proc ι}

omit [DecidableEq ι] in
theorem temp_ne (i : ι) : Path.temp i ≠ Path.masterKey := nofun

/-- The key of a call past its install step. -/
def Proc.held : Proc ι → Option Key
  | .load _ (.chmod key) => some key
  | .init (.closeFile key) => some key
  | p => p.key

/-- The handle of an `init` that has opened the file and not yet written. -/
def Proc.writer : Proc ι → Option Nat
  | .init (.writeFile file _) => some file
  | _ => none

/-- What a call knows of its temporary file. -/
def Proc.temp : Proc ι → FileSystem.Knowledge
  | .load _ (.temp op file key) => .opened file (if op.written then key.val else [])
  | .load _ (.rename key) => .closed key.val
  | _ => .nothing

def Proc.IsCall (i : ι) : Proc ι → Prop
  | .load c _ => c = i
  | .init _ => True

/-- The process is call `i`, and its temporary file is as it knows it. -/
structure TempOk (fs : Files ι) (i : ι) (p : Proc ι) : Prop where
  call : p.IsCall i
  temp : fs.Shows (.temp i) p.temp

/-- What one step of call `i` can do: work on its own files, having read the key at
most; move its temporary file into place; open the key file; or write it. -/
inductive Effect (i : ι) (env : Env) (fs : Files ι) : Proc ι → Files ι → Proc ι → Prop
  | quiet {p p' : Proc ι} {fs' : Files ι} (only : FileSystem.OnlyAt (.temp i) fs fs')
      (held : ∀ key, p'.held = some key →
        p.held = some key ∨ fs.read .masterKey = some key.val)
      (before : p.writer = none) (after : p'.writer = none) : Effect i env fs p fs' p'
  | rename {key : Key} {fs' : Files ι} (ok : env.fails = none)
      (moved : fs.rename (.temp i) .masterKey = some fs') :
      Effect i env fs (.load i (.rename key)) fs' (.load i (.chmod key))
  | truncate {key : Key} (ok : env.fails = none) :
      Effect i env fs (.init (.openFile key)) (fs.openTruncate .masterKey).1
        (.init (.writeFile (fs.openTruncate .masterKey).2 key))
  | write {file : Nat} {key : Key} {bytes : Bytes} {p' : Proc ι}
      (held : ∀ key', p'.held = some key' → key'.val = bytes) (after : p'.writer = none) :
      Effect i env fs (.init (.writeFile file key)) (fs.write file bytes) p'

/-- A step on the call's own files that leaves it without a key. -/
theorem Effect.keyless (only : FileSystem.OnlyAt (.temp i) fs fs') (held : p'.held = none)
    (before : p.writer = none) (after : p'.writer = none) : Effect i env fs p fs' p' := by
  refine .quiet only (fun key hkey => ?_) before after
  rw [held] at hkey
  cases hkey

theorem load_effect {pc : LoadPc} (h : TempOk fs i (.load i pc)) :
    Effect i env fs (.load i pc) (loadStep i env fs pc).1 (.load i (loadStep i env fs pc).2) := by
  have abandoned : ∀ op err, Effect i env fs (.load i pc) (abandon i fs op err).1
      (.load i (abandon i fs op err).2) := fun op err =>
    .keyless (FileSystem.onlyAt_remove fs _) rfl rfl rfl
  cases pc with
  | read =>
    simp only [loadStep]
    split
    · exact .keyless (.refl _) rfl rfl rfl
    · split
      · exact .keyless (.refl _) rfl rfl rfl
      · rename_i raw hraw
        split
        · refine .quiet (.refl _) (fun key h => .inr ?_) rfl rfl
          cases h
          exact hraw
        · exact .keyless (.refl _) rfl rfl rfl
  | mkdir =>
    simp only [loadStep]
    split <;> exact .keyless (.refl _) rfl rfl rfl
  | generate =>
    simp only [loadStep]
    split <;> exact .keyless (.refl _) rfl rfl rfl
  | createTemp key =>
    simp only [loadStep]
    split
    · exact .keyless (.refl _) rfl rfl rfl
    · exact .keyless (FileSystem.onlyAt_create fs _) rfl rfl rfl
  | temp op file key =>
    simp only [loadStep]
    split
    · exact abandoned _ _
    · split
      case h_2 =>
        exact .keyless (FileSystem.onlyAt_setContent h.temp.1 _) rfl rfl rfl
      all_goals exact .keyless (.refl _) rfl rfl rfl
  | rename key =>
    simp only [loadStep]
    split
    · exact abandoned _ _
    · rename_i hok
      split
      · exact abandoned _ _
      · exact .rename hok ‹_›
  | chmod key =>
    simp only [loadStep]
    split
    · exact abandoned _ _
    · exact .quiet (FileSystem.onlyAt_remove fs _) (fun _ h => .inl h) rfl rfl
  | returned r => exact .quiet (.refl _) (fun _ h => .inl h) rfl rfl

theorem init_effect (pc : InitPc) :
    Effect i env fs (.init pc) (initStep env fs pc).1 (.init (initStep env fs pc).2) := by
  cases pc with
  | stat =>
    simp only [initStep]
    split <;> exact .keyless (.refl _) rfl rfl rfl
  | generate =>
    simp only [initStep]
    split <;> exact .keyless (.refl _) rfl rfl rfl
  | openFile key =>
    simp only [initStep]
    split
    · exact .keyless (.refl _) rfl rfl rfl
    · exact .truncate ‹_›
  | writeFile file key =>
    simp only [initStep]
    split
    · exact .write (fun _ h => by cases h) rfl
    · exact .write (fun _ h => by cases h; rfl) rfl
  | closeFile key =>
    simp only [initStep]
    split
    · exact .keyless (.refl _) rfl rfl rfl
    · exact .quiet (.refl _) (fun _ h => .inl h) rfl rfl
  | finished r => exact .quiet (.refl _) (fun _ h => .inl h) rfl rfl

theorem step_effect (h : TempOk fs i p) (env : Env) :
    Effect i env fs p (step env fs p).1 (step env fs p).2 := by
  cases p with
  | init pc => exact init_effect pc
  | load c pc =>
    obtain rfl : c = i := h.call
    exact load_effect h

/-! ## Temporary files -/

/-- A call's own step keeps what it knows of its temporary file. -/
theorem tempOk_step (h : TempOk fs i p) (env : Env) :
    TempOk (step env fs p).1 i (step env fs p).2 := by
  cases p with
  | init pc => exact ⟨trivial, trivial⟩
  | load c pc =>
    obtain ⟨rfl, htemp⟩ := h
    refine ⟨rfl, ?_⟩
    simp only [step]
    cases pc with
    | read =>
      simp only [loadStep]
      split
      · trivial
      · split
        · trivial
        · split <;> trivial
    | mkdir | generate =>
      simp only [loadStep]
      split <;> trivial
    | createTemp key =>
      simp only [loadStep]
      split
      · trivial
      · exact ⟨FileSystem.entry_create, FileSystem.read_create⟩
    | temp op file key =>
      simp only [loadStep]
      split
      · trivial
      · split
        · exact htemp
        · exact ⟨htemp.1, FileSystem.read_write htemp.1 htemp.2 _⟩
        · exact htemp
        · exact htemp.2
    | rename key =>
      simp only [loadStep]
      split
      · trivial
      · split <;> trivial
    | chmod key =>
      simp only [loadStep]
      split <;> trivial
    | returned r => trivial

/-- No step reaches the temporary file of another call. -/
theorem Effect.other_temp (h : Effect i env fs p fs' p')
    (hwriter : ∀ file, p.writer = some file → ∀ k, fs.entry (.temp k) ≠ some file) {j : ι}
    (hj : j ≠ i) : fs'.entry (.temp j) = fs.entry (.temp j) ∧
      fs'.read (.temp j) = fs.read (.temp j) := by
  have htemp : Path.temp j ≠ Path.temp i := fun h => hj (Path.temp.inj h)
  cases h with
  | quiet only => exact only _ htemp
  | rename ok moved =>
    exact (FileSystem.rename_ok moved (temp_ne i)).2.2.2 _ htemp (temp_ne j)
  | truncate ok => exact (FileSystem.openTruncate_spec fs _).2.2 _ (temp_ne j)
  | write => exact ⟨rfl, FileSystem.read_setContent_of_ne (hwriter _ rfl j) _⟩

/-! ## The key file -/

/-- A step that installs a key finds none there: the rename of `Load`, or the opening of
the file by `init`. -/
def InstallsFirst (s : Pool (Files ι) ι (Proc ι)) (ev : ι × Env) : Prop :=
  ev.2.fails = none → match s.procs ev.1 with
    | .load _ (.rename _) => s.shared.entry .masterKey = none
    | .init (.openFile _) => s.shared.entry .masterKey = none
    | _ => True

/-- How things stand with the key file. -/
inductive KeyFile (s : Pool (Files ι) ι (Proc ι)) : Prop
  | absent (missing : s.shared.entry .masterKey = none)
      (nobody : ∀ j, (s.procs j).held = none ∧ (s.procs j).writer = none)
  /-- One `init` has created the file and is about to write it. -/
  | opened (i : ι) (file : Nat) (key : Key) (writing : s.procs i = .init (.writeFile file key))
      (points : s.shared.entry .masterKey = some file)
      (blank : s.shared.read .masterKey = some [])
      (nobody : ∀ j, (s.procs j).held = none ∧ (j ≠ i → (s.procs j).writer = none))
  | settled (bytes : Bytes) (holds : s.shared.read .masterKey = some bytes)
      (agree : ∀ j key, (s.procs j).held = some key → key.val = bytes)
      (nobody : ∀ j, (s.procs j).writer = none)

structure Sound (s : Pool (Files ι) ι (Proc ι)) : Prop where
  temps : ∀ j, TempOk s.shared j (s.procs j)
  keyFile : KeyFile s

theorem KeyFile.writer_points {s : Pool (Files ι) ι (Proc ι)} (h : KeyFile s) (i : ι) (file : Nat)
    (hw : (s.procs i).writer = some file) : s.shared.entry .masterKey = some file := by
  cases h with
  | absent _ nobody => rw [(nobody i).2] at hw; cases hw
  | settled _ _ _ nobody => rw [nobody i] at hw; cases hw
  | opened i₀ file₀ key writing points _ nobody =>
    by_cases hi : i = i₀
    · subst hi
      rw [writing] at hw
      cases hw
      exact points
    · rw [(nobody i).2 hi] at hw; cases hw

section after

variable {s s' : Pool (Files ι) ι (Proc ι)}

/-- A call that only reads the key file, if that, changes nothing about it. -/
theorem KeyFile.after_quiet (h : KeyFile s) (hother : ∀ j, j ≠ i → s'.procs j = s.procs j)
    (only : FileSystem.OnlyAt (.temp i) s.shared s'.shared)
    (held : ∀ key, (s'.procs i).held = some key →
      (s.procs i).held = some key ∨ s.shared.read .masterKey = some key.val)
    (before : (s.procs i).writer = none) (after : (s'.procs i).writer = none) : KeyFile s' := by
  obtain ⟨hentry, hread⟩ := only _ (temp_ne i).symm
  have writers : ∀ j, (s'.procs j).writer = (s.procs j).writer := by
    intro j
    by_cases hj : j = i
    · rw [hj, before, after]
    · rw [hother j hj]
  -- a key held now was held before, or has just been read
  have helds : ∀ j key, (s'.procs j).held = some key →
      (s.procs j).held = some key ∨ s.shared.read .masterKey = some key.val := by
    intro j key hkey
    by_cases hj : j = i
    · subst hj
      exact held key hkey
    · rw [hother j hj] at hkey
      exact .inl hkey
  cases h with
  | absent missing nobody =>
    refine .absent (hentry.trans missing) fun j => ⟨?_, (writers j).trans (nobody j).2⟩
    rw [Option.eq_none_iff_forall_ne_some]
    intro key hkey
    obtain hold | hnew := helds j key hkey
    · rw [(nobody j).1] at hold; cases hold
    · rw [FileSystem.read_eq_none.mpr missing] at hnew; cases hnew
  | opened i₀ file key writing points blank nobody =>
    have hi₀ : i₀ ≠ i := by
      rintro rfl
      rw [writing] at before
      cases before
    refine .opened i₀ file key ((hother i₀ hi₀).trans writing) (hentry.trans points)
      (hread.trans blank) fun j => ⟨?_, fun hj => (writers j).trans ((nobody j).2 hj)⟩
    rw [Option.eq_none_iff_forall_ne_some]
    intro key' hkey
    obtain hold | hnew := helds j key' hkey
    · rw [(nobody j).1] at hold; cases hold
    · -- the blank file is no key
      have hlen := key'.property
      rw [← Option.some.inj (blank.symm.trans hnew)] at hlen
      cases hlen
  | settled bytes holds agree nobody =>
    refine .settled bytes (hread.trans holds) (fun j key hkey => ?_) fun j =>
      (writers j).trans (nobody j)
    obtain hold | hnew := helds j key hkey
    · exact agree j key hold
    · exact Option.some.inj (hnew.symm.trans holds)

omit [DecidableEq ι] in
/-- With no key there, nobody holds one and nobody is writing. -/
theorem KeyFile.of_missing (h : KeyFile s) (missing : s.shared.entry .masterKey = none) (j : ι) :
    (s.procs j).held = none ∧ (s.procs j).writer = none := by
  cases h with
  | absent _ nobody => exact nobody j
  | opened _ _ _ _ points => rw [missing] at points; cases points
  | settled _ holds =>
    rw [FileSystem.read_eq_none.mpr missing] at holds
    cases holds

/-- A call has put a key into the file, and nobody else holds one or is writing. -/
theorem KeyFile.settle {bytes : Bytes} (holds : s'.shared.read .masterKey = some bytes)
    (held : ∀ key, (s'.procs i).held = some key → key.val = bytes)
    (written : (s'.procs i).writer = none)
    (others : ∀ j, j ≠ i → (s'.procs j).held = none ∧ (s'.procs j).writer = none) :
    KeyFile s' := by
  refine .settled bytes holds (fun j key hkey => ?_) fun j => ?_
  · by_cases hj : j = i
    · subst hj
      exact held key hkey
    · rw [(others j hj).1] at hkey
      cases hkey
  · by_cases hj : j = i
    · subst hj
      exact written
    · exact (others j hj).2

theorem KeyFile.after (h : KeyFile s) (htemp : TempOk s.shared i (s.procs i))
    (hother : ∀ j, j ≠ i → s'.procs j = s.procs j)
    (heff : Effect i env s.shared (s.procs i) s'.shared (s'.procs i))
    (hfirst : InstallsFirst s (i, env)) : KeyFile s' := by
  generalize hp : s.procs i = p at heff
  generalize hp' : s'.procs i = p' at heff
  generalize hfs : s'.shared = fs' at heff
  cases heff with
  | quiet only held before after =>
    subst hp hp' hfs
    exact h.after_quiet hother only held before after
  | @rename key _ ok moved =>
    have missing : s.shared.entry .masterKey = none := by
      have := hfirst ok
      simpa only [hp] using this
    rw [hp] at htemp
    have hread := (FileSystem.rename_ok moved (temp_ne i)).2.1
    refine .settle (i := i) (hfs ▸ hread.trans htemp.temp) (fun key' hkey => ?_) ?_ fun j hj => ?_
    · rw [hp'] at hkey
      exact congrArg Subtype.val (Option.some.inj hkey).symm
    · rw [hp']; rfl
    · rw [hother j hj]
      exact h.of_missing missing j
  | @truncate key ok =>
    have missing : s.shared.entry .masterKey = none := by
      have := hfirst ok
      simpa only [hp] using this
    obtain ⟨hentry, hread, -⟩ := FileSystem.openTruncate_spec s.shared .masterKey
    refine .opened i _ key hp' (hfs ▸ hentry) (hfs ▸ hread) fun j => ?_
    by_cases hj : j = i
    · exact ⟨by rw [hj, hp']; rfl, fun h => absurd hj h⟩
    · rw [hother j hj]
      exact ⟨(h.of_missing missing j).1, fun _ => (h.of_missing missing j).2⟩
  | @write file key bytes _ held after =>
    have hw : (s.procs i).writer = some file := by rw [hp]; rfl
    have points := h.writer_points i file hw
    cases h with
    | absent _ nobody => rw [(nobody i).2] at hw; cases hw
    | settled _ _ _ nobody => rw [nobody i] at hw; cases hw
    | opened i₀ file₀ key₀ writing _ blank nobody =>
      have hi : i = i₀ := by
        by_contra hne
        rw [(nobody i).2 hne] at hw
        cases hw
      subst hi
      have hread : s'.shared.read .masterKey = some bytes := by
        rw [hfs]
        exact FileSystem.read_write points blank bytes
      refine .settle (i := i) hread (fun key' hkey => ?_) ?_ fun j hj => ?_
      · rw [hp'] at hkey
        exact held key' hkey
      · rw [hp']
        exact after
      · rw [hother j hj]
        exact ⟨(nobody j).1, (nobody j).2 hj⟩

end after

theorem sound_fire {s : Pool (Files ι) ι (Proc ι)} {ev : ι × Env} (hs : Sound s)
    (hfirst : InstallsFirst s ev) : Sound (Pool.fire step s ev) := by
  obtain ⟨i, env⟩ := ev
  have htemp := hs.temps i
  have hself : (Pool.fire step s (i, env)).procs i = (step env s.shared (s.procs i)).2 :=
    Pool.fire_procs_self s i env
  have hother : ∀ j, j ≠ i → (Pool.fire step s (i, env)).procs j = s.procs j := fun j hj =>
    Pool.fire_procs_of_ne hj
  have heff := step_effect htemp env
  refine ⟨fun j => ?_, ?_⟩
  · by_cases hj : j = i
    · subst hj
      rw [hself]
      exact tempOk_step htemp env
    · rw [hother j hj]
      have hwriter : ∀ file, (s.procs i).writer = some file →
          ∀ k, s.shared.entry (.temp k) ≠ some file := fun file hw k hk =>
        temp_ne k (s.shared.single _ _ file hk (hs.keyFile.writer_points i file hw))
      obtain ⟨hentry, hread⟩ := heff.other_temp hwriter hj
      exact ⟨(hs.temps j).call, (hs.temps j).temp.frame hentry hread⟩
  · exact hs.keyFile.after htemp hother (hself ▸ heff) hfirst

omit [DecidableEq ι] in
/-- A call that has not begun has no temporary file, no key and no handle. -/
theorem start_idle (fs : Files ι) (calls : ι → Call) (j : ι) :
    TempOk fs j ((start fs calls).procs j) ∧ ((start fs calls).procs j).held = none ∧
      ((start fs calls).procs j).writer = none := by
  simp only [start]
  cases calls j
  · exact ⟨⟨rfl, trivial⟩, rfl, rfl⟩
  · exact ⟨⟨trivial, trivial⟩, rfl, rfl⟩

omit [DecidableEq ι] in
theorem sound_start {fs : Files ι} (absent : fs.entry .masterKey = none) (calls : ι → Call) :
    Sound (start fs calls) :=
  ⟨fun j => (start_idle fs calls j).1, .absent absent fun j => (start_idle fs calls j).2⟩

omit [DecidableEq ι] in
theorem held_of_key {key : Key} (h : p.key = some key) : p.held = some key := by
  unfold Proc.held
  split
  · cases h
  · cases h
  · exact h

/-- From a directory without a key, in every run in which each step that installs a key
finds none there, all calls that succeed have the same key, and it is the one in the
file. -/
theorem calls_agree (fs : Files ι) (absent : fs.entry .masterKey = none) (calls : ι → Call)
    (events : List (ι × Env))
    (first : Pool.Along step InstallsFirst (start fs calls) events) (i j : ι) (key key' : Key)
    (hi : ((Pool.run step (start fs calls) events).procs i).key = some key)
    (hj : ((Pool.run step (start fs calls) events).procs j).key = some key') :
    key = key' ∧ (Pool.run step (start fs calls) events).shared.read .masterKey = some key.val := by
  have final := Pool.run_invariant_along (fun s ev => sound_fire) (sound_start absent calls) first
  have heldi := held_of_key hi
  have heldj := held_of_key hj
  cases final.keyFile with
  | absent _ nobody => rw [(nobody i).1] at heldi; cases heldi
  | opened _ _ _ _ _ _ nobody => rw [(nobody i).1] at heldi; cases heldi
  | settled bytes holds agree _ =>
    have hbytes := agree i key heldi
    exact ⟨Subtype.ext (hbytes.trans (agree j key' heldj).symm), hbytes ▸ holds⟩

instance (s : Pool (Files ι) ι (Proc ι)) (ev : ι × Env) : Decidable (InstallsFirst s ev) := by
  unfold InstallsFirst
  split <;> infer_instance

/-- So many steps of one call, whose random bytes are all the given one. -/
def steps (i : Fin 2) (byte : UInt8) (n : Nat) : List (Fin 2 × Env) :=
  List.replicate n (i, ⟨⟨List.replicate masterKeySize byte, by simp⟩, none, 0⟩)

/-- Two first runs of `Load`. -/
def twoLoads : Pool (Files (Fin 2)) (Fin 2) (Proc (Fin 2)) := start .empty fun _ => .load

theorem calls_agree_inTurn :
    ((Pool.run step twoLoads (steps 0 1 10 ++ steps 1 2 1)).procs 1).key =
        some ⟨List.replicate masterKeySize 1, by decide⟩ ∧
      (Pool.run step twoLoads (steps 0 1 10 ++ steps 1 2 1)).shared.read .masterKey =
        some (List.replicate masterKeySize 1) := by
  have hzero : ((Pool.run step twoLoads (steps 0 1 10 ++ steps 1 2 1)).procs 0).key =
      some ⟨List.replicate masterKeySize 1, by decide⟩ := by decide +kernel
  have hone : ((Pool.run step twoLoads (steps 0 1 10 ++ steps 1 2 1)).procs 1).key =
      some ⟨List.replicate masterKeySize 1, by decide⟩ := by decide +kernel
  exact ⟨hone, (calls_agree .empty rfl (fun _ => .load) (steps 0 1 10 ++ steps 1 2 1)
    (by decide +kernel) 0 1 _ _ hzero hone).2⟩

/-- Both find no key before either installs one: each returns its own, and the file
holds the second. -/
theorem overlapping_loads_disagree :
    ((Pool.run step twoLoads
        (steps 0 1 1 ++ steps 1 2 1 ++ steps 0 1 9 ++ steps 1 2 9)).procs 0).key =
      some ⟨List.replicate masterKeySize 1, by decide⟩ ∧
    ((Pool.run step twoLoads
        (steps 0 1 1 ++ steps 1 2 1 ++ steps 0 1 9 ++ steps 1 2 9)).procs 1).key =
      some ⟨List.replicate masterKeySize 2, by decide⟩ ∧
    (Pool.run step twoLoads
        (steps 0 1 1 ++ steps 1 2 1 ++ steps 0 1 9 ++ steps 1 2 9)).shared.read .masterKey =
      some (List.replicate masterKeySize 2) := by
  decide +kernel

end TabbySync.Keys
