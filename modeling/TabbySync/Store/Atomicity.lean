import TabbySync.Store.Transactions

/-! # All or nothing

What a call contributes to the committed table over a whole run: nothing, or one step
that is the commit of the one-step function. While a create has an id reserved, no
committed row has that id. -/

namespace TabbySync.Transactions
open TabbySync.Library TabbySync.Library.Rfc3339
open TabbySync.Sqlite hiding Session

/-- The call published its copy, or has returned what only a call that did can return. -/
def Call.accepted : Call → Bool
  | .create _ _ _ (.returned (.ok _)) => true
  | .update _ _ _ .reload | .update _ _ _ (.returned (.ok _)) => true
  | .update _ _ _ (.returned (.error e)) => !e.is .invalidPatch && !e.is .configChanged
  | _ => false

/-- The call's commit takes the table from `t` to `t'`. -/
def Call.Publishes (t t' : Configs) : Call → Prop
  | .create userID builder given (.returned (.ok row)) =>
    given = [row.id] ∧
      ∃ createdAt now', createConfigWithID t createdAt now' userID builder = .ok (row, t')
  | .update userID configID patch _ => ∃ now, updateConfigTx t now userID configID patch = .ok t'
  | _ => False

/-- A call of more than one statement. -/
def Call.isTx : Call → Bool
  | .single _ => false
  | _ => true

theorem isTx_step {c : Call} (h : c.isTx = true) (turn : Turn) (db : Database) :
    (step turn db c).2.isTx = true := by
  cases c with
  | create | update => rfl
  | single => cases h

theorem silent_of_inTx {c : Call} (h : c.inTx = true) : c.silent = true := by
  cases c with
  | create userID builder given pc =>
    cases pc with
    | returned r => cases h
    | _ => rfl
  | update userID configID patch pc =>
    cases pc with
    | reload | returned => cases h
    | _ => rfl
  | single => rfl

/-- A call that has published nothing publishes nothing in its next step, or commits. -/
theorem step_silent (turn : Turn) {db : Database} {c : Call} (htx : c.isTx = true)
    (hs : c.silent = true) (hholds : c.Holds db.committed) :
    ((step turn db c).1.committed = db.committed ∧ (step turn db c).2.silent = true) ∨
      ((step turn db c).2.accepted = true ∧
        (step turn db c).2.Publishes db.committed (step turn db c).1.committed) := by
  have hmove := step_moves turn db c
  generalize (step turn db c).1 = db' at hmove ⊢
  generalize (step turn db c).2 = c' at hmove ⊢
  cases hmove with
  | stays _ hs' => exact .inl ⟨rfl, hs' hs⟩
  | begins _ _ hc' => exact .inl ⟨rfl, silent_of_inTx hc'⟩
  | rollsBack _ _ hs' => exact .inl ⟨rfl, hs'⟩
  | creates hc =>
    subst hc
    exact .inr ⟨rfl, hholds⟩
  | updates hc =>
    subst hc
    exact .inr ⟨rfl, hholds⟩
  | writes hc _ _ =>
    subst hc
    cases htx

/-- A call that has published changes nothing more, and an update does not come to
reject its patch after all. -/
theorem step_accepted (turn : Turn) (db : Database) {c : Call} (h : c.accepted = true) :
    (step turn db c).1 = db ∧ (step turn db c).2.accepted = true ∧
      ∀ t t', c.Publishes t t' → (step turn db c).2.Publishes t t' := by
  cases c with
  | create userID builder given pc =>
    cases pc with
    | returned r =>
      cases r with
      | ok row =>
        simp only [step, createStep, List.append_nil]
        exact ⟨trivial, h, fun _ _ hp => hp⟩
      | error e => cases h
    | _ => cases h
  | update userID configID patch pc =>
    cases pc with
    | reload =>
      simp only [step, updateStep]
      split
      · exact ⟨rfl, rfl, fun _ _ hp => hp⟩
      · refine ⟨rfl, ?_, fun _ _ hp => hp⟩
        cases hget : getConfig db.committed userID configID with
        | ok cfg => rfl
        | error e =>
          simp [Call.accepted, getConfig_error hget .invalidPatch (by decide),
            getConfig_error hget .configChanged (by decide)]
    | returned r => exact ⟨rfl, h, fun _ _ hp => hp⟩
    | _ => cases h
  | single => cases h

/-! ## Whole runs -/

section
variable {ι : Type} [DecidableEq ι]

/-- No step of call `i` changes the committed table. -/
def Leaves (s : Pool Database ι Call) (es : List (ι × Turn)) (i : ι) : Prop :=
  Pool.Along step (fun s ev => ev.1 = i →
    (Pool.fire step s ev).shared.committed = s.shared.committed) s es

/-- One step of call `i` takes the committed table from `t` to `t'` with `R t t'`, and no
other step of it changes the table. -/
def ChangesOnce (s : Pool Database ι Call) (es : List (ι × Turn)) (i : ι)
    (R : Configs → Configs → Prop) : Prop :=
  ∃ pre turn post, es = pre ++ (i, turn) :: post ∧ Leaves s pre i ∧
    R (Pool.run step s pre).shared.committed
      (Pool.run step s (pre ++ [(i, turn)])).shared.committed ∧
    Leaves (Pool.run step s (pre ++ [(i, turn)])) post i

variable {s : Pool Database ι Call} {i : ι} {es : List (ι × Turn)}

theorem ChangesOnce.cons {R : Configs → Configs → Prop} {ev : ι × Turn}
    (hev : ev.1 = i → (Pool.fire step s ev).shared.committed = s.shared.committed)
    (h : ChangesOnce (Pool.fire step s ev) es i R) : ChangesOnce s (ev :: es) i R := by
  obtain ⟨pre, turn, post, rfl, hpre, hR, hpost⟩ := h
  exact ⟨ev :: pre, turn, post, rfl, ⟨hev, hpre⟩, hR, hpost⟩

theorem ChangesOnce.mono {R R' : Configs → Configs → Prop} (h : ChangesOnce s es i R)
    (hR : ∀ t t', R t t' → R' t t') : ChangesOnce s es i R' := by
  obtain ⟨pre, turn, post, hes, hpre, hstep, hpost⟩ := h
  exact ⟨pre, turn, post, hes, hpre, hR _ _ hstep, hpost⟩

theorem run_accepted (h : (s.procs i).accepted = true) (es : List (ι × Turn)) :
    Leaves s es i ∧ ((Pool.run step s es).procs i).accepted = true ∧
      ∀ t t', (s.procs i).Publishes t t' → ((Pool.run step s es).procs i).Publishes t t' := by
  induction es generalizing s with
  | nil => exact ⟨trivial, h, fun _ _ hp => hp⟩
  | cons ev es ih =>
    obtain ⟨k, turn⟩ := ev
    by_cases hk : k = i
    · subst hk
      obtain ⟨hdb, hacc, hpub⟩ := step_accepted turn s.shared h
      have hself : (Pool.fire step s (k, turn)).procs k = (step turn s.shared (s.procs k)).2 :=
        Pool.fire_procs_self s k turn
      rw [← hself] at hacc hpub
      obtain ⟨hrest, hend, hpub'⟩ := ih hacc
      refine ⟨⟨fun _ => ?_, hrest⟩, hend, fun t t' hp => hpub' t t' (hpub t t' hp)⟩
      exact congrArg Database.committed hdb
    · have hsame : (Pool.fire step s (k, turn)).procs i = s.procs i :=
        Pool.fire_procs_of_ne (Ne.symm hk)
      rw [← hsame] at h ⊢
      obtain ⟨hrest, hend, hpub⟩ := ih h
      exact ⟨⟨fun hki => absurd hki hk, hrest⟩, hend, hpub⟩

/-- A whole run of a call that starts silent: it contributes nothing and ends silent, or
it commits once and ends accepted. -/
theorem run_contribution (hiso : Isolated s) (htx : (s.procs i).isTx = true)
    (hs : (s.procs i).silent = true) (es : List (ι × Turn)) :
    (Leaves s es i ∧ ((Pool.run step s es).procs i).silent = true) ∨
      (((Pool.run step s es).procs i).accepted = true ∧
        ChangesOnce s es i fun t t' => ((Pool.run step s es).procs i).Publishes t t') := by
  induction es generalizing s with
  | nil => exact .inl ⟨trivial, hs⟩
  | cons ev es ih =>
    obtain ⟨k, turn⟩ := ev
    have hiso' := fire_isolated hiso (k, turn)
    by_cases hk : k = i
    · subst hk
      have hself : (Pool.fire step s (k, turn)).procs k = (step turn s.shared (s.procs k)).2 :=
        Pool.fire_procs_self s k turn
      have htx' := isTx_step htx turn s.shared
      rcases step_silent turn htx hs (hiso.holds k) with ⟨hsame, hs'⟩ | ⟨hacc, hpub⟩
      · rw [← hself] at htx' hs'
        rcases ih hiso' htx' hs' with ⟨hrest, hend⟩ | ⟨hend, hrest⟩
        · exact .inl ⟨⟨fun _ => hsame, hrest⟩, hend⟩
        · exact .inr ⟨hend, hrest.cons fun _ => hsame⟩
      · -- the commit: from here on the call changes nothing
        rw [← hself] at hacc hpub
        obtain ⟨hrest, hend, hpub'⟩ := run_accepted hacc es
        exact .inr ⟨hend, [], turn, es, rfl, trivial, hpub' _ _ hpub, hrest⟩
    · have hsame : (Pool.fire step s (k, turn)).procs i = s.procs i :=
        Pool.fire_procs_of_ne (Ne.symm hk)
      rw [← hsame] at htx hs
      rcases ih hiso' htx hs with ⟨hrest, hend⟩ | ⟨hend, hrest⟩
      · exact .inl ⟨⟨fun hki => absurd hki hk, hrest⟩, hend⟩
      · exact .inr ⟨hend, hrest.cons fun hki => absurd hki hk⟩

end

/-! ## What the callers and the readers see -/

/-- The id a create has reserved and not yet committed. -/
def Call.reserved : Call → Option Int64
  | .create _ _ _ (.lastInsertId _ id _) | .create _ _ _ (.build _ id _)
  | .create _ _ _ (.finalise _ id _ _) | .create _ _ _ (.rowsAffected id _ _)
  | .create _ _ _ (.readBack id _) => some id
  | .create _ _ _ (.commit row _) => some row.id
  | _ => none

/-- A reserved id is above all ids the committed table has given out. -/
theorem reserved_fresh {t : Configs} {c : Call} {id : Int64} (h : c.Holds t)
    (hid : c.reserved = some id) : t.last < id := by
  cases c with
  | create userID builder given pc =>
    cases pc with
    | lastInsertId createdAt n w =>
      cases hid
      exact (insert_eq h.2).1
    | build createdAt n w =>
      cases hid
      exact (insert_eq h.2).1
    | finalise createdAt n inp w =>
      cases hid
      exact (insert_eq h.2.1).1
    | rowsAffected n affected w =>
      cases hid
      obtain ⟨_, inp, createdAt, now', _, hlt, rfl, _⟩ := h
      exact hlt
    | readBack n w =>
      cases hid
      obtain ⟨_, inp, createdAt, now', _, hlt, rfl, _⟩ := h
      exact hlt
    | commit row w =>
      cases hid
      obtain ⟨_, createdAt, now', hcreate⟩ := h
      obtain ⟨_, inp, hlt, _, _, _, hscan, _⟩ := createConfigWithID_ok hcreate
      rw [scanConfig_id hscan]
      exact hlt
    | begin | reserve | returned => cases hid
  | update | single => cases hid

theorem builder_called_once {t : Configs} {userID : Int64}
    {builder : Option CreateConfigInputBuilder} {given : List Int64} {pc : CreatePc}
    (h : pc.Holds t userID builder given) : given.length ≤ 1 := by
  cases pc with
  | begin =>
    have hg : given = [] := h
    simp [hg]
  | reserve | lastInsertId | build => simp [h.1]
  | finalise | rowsAffected | readBack | commit => simp [h.1]
  | returned r =>
    cases r with
    | ok row =>
      have hg : given = [row.id] := h
      simp [hg]
    | error e => exact h

/-- A call that has not started. -/
def Call.Fresh : Call → Prop
  | .create _ _ given pc => given = [] ∧ pc = .begin
  | .update _ _ _ pc => pc = .validate
  | .single _ => True

/-- Calls that have not started, on a database without an open transaction. -/
structure Starts {ι : Type} (s : Pool Database ι Call) : Prop where
  free : s.shared.locked = false
  fresh : ∀ i, (s.procs i).Fresh

theorem Call.Fresh.holds {c : Call} (h : c.Fresh) (t : Configs) :
    c.inTx = false ∧ c.silent = true ∧ c.Holds t := by
  cases c with
  | create userID builder given pc =>
    obtain ⟨rfl, rfl⟩ := h
    exact ⟨rfl, rfl, rfl⟩
  | update userID configID patch pc =>
    obtain rfl : pc = .validate := h
    exact ⟨rfl, rfl, trivial⟩
  | single s => exact ⟨rfl, rfl, trivial⟩

theorem Starts.isolated {ι : Type} {s : Pool Database ι Call} (h : Starts s) : Isolated s where
  exclusive := .of_none fun i => ((h.fresh i).holds s.shared.committed).1
  holds := fun i => ((h.fresh i).holds s.shared.committed).2.2

section
variable {ι : Type} [DecidableEq ι]

theorem run_isolated {s : Pool Database ι Call} (h : Isolated s) (es : List (ι × Turn)) :
    Isolated (Pool.run step s es) :=
  Pool.run_invariant (I := Isolated) (fun _ ev h => fire_isolated h ev) h es

/-- What a create that stands at `pc` has contributed: once it has returned a row, that
row's one insert, with the values its builder gave for that id, and otherwise nothing. -/
def CreateContributes (s : Pool Database ι Call) (es : List (ι × Turn)) (i : ι) (userID : Int64)
    (builder : Option CreateConfigInputBuilder) (given : List Int64) : CreatePc → Prop
  | .returned (.ok row) =>
    given = [row.id] ∧ ChangesOnce s es i fun t t' =>
      ∃ inp createdAt now', Built builder row.id inp ∧ t.last < row.id ∧
        t'.rows = t.rows ++ [builtRow row.id userID inp createdAt now']
  | _ => Leaves s es i

/-- What an update contributes: nothing, as always when it rejects its patch, or the
patch of the one row it names, whose time moves on from the time the row has unless the
patch preserves it. -/
structure UpdateContributes (s : Pool Database ι Call) (es : List (ι × Turn)) (i : ι)
    (userID configID : Int64) (patch : UpdateConfigPatch) (pc : UpdatePc) : Prop where
  once : Leaves s es i ∨ ChangesOnce s es i fun t t' =>
    ∃ row now old, row ∈ t.rows ∧ row.id = configID ∧ row.userID = userID ∧
      parse row.modifiedAt = some old ∧
      (patch.preserveModifiedAt = false →
        ∃ new, old < new ∧ (patchedRow patch now old row).modifiedAt = format new) ∧
      t'.rows = t.rows.map fun r =>
        if owned configID userID r then patchedRow patch now old r else r
  rejected : ∀ e, pc = .returned (.error e) →
    e.is .invalidPatch = true ∨ e.is .configChanged = true → Leaves s es i

variable {s : Pool Database ι Call} {i : ι}

theorem create_contributes (h : Starts s) {userID : Int64}
    {builder : Option CreateConfigInputBuilder}
    (hi : s.procs i = .create userID builder [] .begin) (es : List (ι × Turn)) :
    ∃ given pc, (Pool.run step s es).procs i = .create userID builder given pc ∧
      given.length ≤ 1 ∧ CreateContributes s es i userID builder given pc := by
  obtain ⟨given, pc, hend⟩ : ∃ given pc,
      (Pool.run step s es).procs i = .create userID builder given pc := by
    refine Pool.run_procs_invariant (I := fun c => ∃ given pc, c = Call.create userID builder given pc)
      ?_ ⟨_, _, hi⟩ es
    rintro turn db _ ⟨given, pc, rfl⟩
    exact ⟨_, _, rfl⟩
  have hholds := (run_isolated h.isolated es).holds i
  rw [hend] at hholds
  refine ⟨given, pc, hend, builder_called_once hholds, ?_⟩
  have hcontr := run_contribution h.isolated (by rw [hi]; rfl)
    ((h.fresh i).holds s.shared.committed).2.1 es
  rw [hend] at hcontr
  rcases hcontr with ⟨hleaves, hsilent⟩ | ⟨hacc, honce⟩
  · cases pc with
    | returned r =>
      cases r with
      | ok row => cases hsilent
      | error e => exact hleaves
    | _ => exact hleaves
  · cases pc with
    | returned r =>
      cases r with
      | ok row =>
        refine ⟨hholds, honce.mono ?_⟩
        rintro t t' ⟨_, createdAt, now', hcreate⟩
        obtain ⟨build, inp, hlt, hb, hbuild, hval, hscan, rfl⟩ := createConfigWithID_ok hcreate
        have hid : row.id = t.last + 1 := scanConfig_id hscan
        rw [hid]
        exact ⟨inp, createdAt, now', ⟨build, hb, hbuild, hval⟩, hlt, AutoTable.rows_insert hlt⟩
      | error e => cases hacc
    | _ => cases hacc

theorem update_contributes (h : Starts s) {userID configID : Int64} {patch : UpdateConfigPatch}
    (hi : s.procs i = .update userID configID patch .validate) (es : List (ι × Turn)) :
    ∃ pc, (Pool.run step s es).procs i = .update userID configID patch pc ∧
      UpdateContributes s es i userID configID patch pc := by
  obtain ⟨pc, hend⟩ : ∃ pc,
      (Pool.run step s es).procs i = .update userID configID patch pc := by
    refine Pool.run_procs_invariant (I := fun c => ∃ pc, c = Call.update userID configID patch pc)
      ?_ ⟨_, hi⟩ es
    rintro turn db _ ⟨pc, rfl⟩
    exact ⟨_, rfl⟩
  have hcontr := run_contribution h.isolated (by rw [hi]; rfl)
    ((h.fresh i).holds s.shared.committed).2.1 es
  rw [hend] at hcontr
  refine ⟨pc, hend, ?_, ?_⟩
  · rcases hcontr with ⟨hleaves, _⟩ | ⟨_, honce⟩
    · exact .inl hleaves
    · refine .inr (honce.mono ?_)
      rintro t t' ⟨now, hupdate⟩
      obtain ⟨row, old, hmem, hid, hu, hold, _, _, rfl⟩ := updateConfigTx_ok hupdate
      have hlater : patch.preserveModifiedAt = false →
          ∃ new, old < new ∧ (patchedRow patch now old row).modifiedAt = format new := by
        intro hpreserve
        exact ⟨nextModifiedAt now old, lt_nextModifiedAt now old, by simp [patchedRow, hpreserve]⟩
      exact ⟨row, now, old, hmem, hid, hu, hold, hlater, rfl⟩
  · intro e hpc hreject
    subst hpc
    rcases hcontr with ⟨hleaves, _⟩ | ⟨hacc, _⟩
    · exact hleaves
    · have hno : e.is .invalidPatch = false ∧ e.is .configChanged = false := by
        simpa [Call.accepted] using hacc
      rcases hreject with hr | hr
      · rw [hno.1] at hr
        cases hr
      · rw [hno.2] at hr
        cases hr

/-- Every interleaving of creates, updates, other calls and readers, with any statement
failing: each create and each update contributes all of its change at one step or
nothing, and an id that is reserved but not committed is in no committed row. -/
theorem calls_all_or_nothing (h : Starts s) (es : List (ι × Turn)) :
    (∀ i userID builder, s.procs i = .create userID builder [] .begin →
      ∃ given pc, (Pool.run step s es).procs i = .create userID builder given pc ∧
        given.length ≤ 1 ∧ CreateContributes s es i userID builder given pc) ∧
    (∀ i userID configID patch, s.procs i = .update userID configID patch .validate →
      ∃ pc, (Pool.run step s es).procs i = .update userID configID patch pc ∧
        UpdateContributes s es i userID configID patch pc) ∧
    ∀ i id, ((Pool.run step s es).procs i).reserved = some id →
      ∀ r ∈ (Pool.run step s es).shared.committed.rows, r.id ≠ id := by
  refine ⟨fun i _ _ hi => create_contributes h hi es, fun i _ _ _ hi => update_contributes h hi es, ?_⟩
  intro i id hid r hr
  have hlt := reserved_fresh ((run_isolated h.isolated es).holds i) hid
  have hle := AutoTable.bounded _ r hr
  exact ne_of_lt (lt_of_le_of_lt hle hlt)

end

/-! ## A create, a rename and a reader -/

def stored : Configs :=
  AutoTable.insert (AutoTable.empty 0) ⟨1, 1, "a", [1], [2], none, format 0, format 0⟩

def rename : UpdateConfigPatch := { name := some "b" }

def threeCalls : Pool Database (Fin 3) Call where
  shared := ⟨stored, false⟩
  procs
    | 0 => .create 1 (some fun _ => .ok ⟨"c", [3], [4], ""⟩) [] .begin
    | 1 => .update 1 1 rename .validate
    | 2 => .single (.listConfigsByUser 1)

theorem threeCalls_starts : Starts threeCalls where
  free := rfl
  fresh := by
    intro i
    match i with
    | 0 => exact ⟨rfl, rfl⟩
    | 1 => exact rfl
    | 2 => trivial

/-- The update has to wait for the create's commit; the reader reads in between. -/
def overlapping : List (Fin 3 × Turn) :=
  Pool.schedule ([1, 0, 0, 0, 1, 0, 0, 2, 0, 0, 1, 0, 1, 1, 1, 1, 1].map fun i => (i, ⟨0, none⟩))

theorem calls_all_or_nothing_overlapping :
    ∃ given pc, (Pool.run step threeCalls overlapping).procs 0 =
        .create 1 (some fun _ => .ok ⟨"c", [3], [4], ""⟩) given pc ∧ given.length ≤ 1 ∧
      CreateContributes threeCalls overlapping 0 1 (some fun _ => .ok ⟨"c", [3], [4], ""⟩) given pc :=
  (calls_all_or_nothing threeCalls_starts overlapping).1 0 1 _ rfl

example : (Pool.run step threeCalls overlapping).shared.committed.rows.map (·.name) =
    ["b", "c"] := by decide +kernel

/-- A patch that supplies the name alone also changes `modified_at`. -/
theorem rename_moves_modified_at :
    stored.rows = [⟨1, 1, "a", [1], [2], none, format 0, format 0⟩] ∧
    (Pool.run step threeCalls ([1, 1, 1, 1, 1].map fun i => (i, ⟨0, none⟩))).shared.committed.rows =
      [⟨1, 1, "b", [1], [2], none, format 0, format 1000000⟩] ∧
    format 1000000 ≠ format 0 := by
  refine ⟨rfl, by decide +kernel, by decide +kernel⟩

end TabbySync.Transactions
