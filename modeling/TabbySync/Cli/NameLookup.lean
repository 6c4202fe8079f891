import TabbySync.Cli.Loadability

/-! # Finding a user by name

`rm` and `rotate` take a name or an id. `findUser` reads the word as an id first and then
looks for the first entry with that name up to case, as it stands in the file. The loader
keeps ids and trimmed names apart, and nothing else: a name may read as another user's id,
differ from another name in case only, or stand in the file with blanks around it. -/

namespace TabbySync.Cli

open Library.Text Auth

/-- The name of entry `i` as the commands take it from their arguments. -/
def ownName (users : List UserEntry) (i : Fin users.length) : String := trimSpace (users.get i).name

/-- The name of entry `i` leads to it: it is no other user's id, and it is the user's own id
or stands in the file without blanks and before any entry that has it up to case. -/
structure Selects (P : Platform) (users : List UserEntry) (i : Fin users.length) : Prop where
  id : ∀ j, parseInt (ownName users i) = some (users.get j).id → j = i
  name : parseInt (ownName users i) = some (users.get i).id ∨
    ownName users i = (users.get i).name ∧
      ∀ j < i, equalFold P.fold (users.get j).name (ownName users i) = false

/-- Folding keeps the length, so only a name without blanks is its trimmed self up to case. -/
theorem equalFold_trimSpace (fold : Char → Char) (s : String) :
    equalFold fold s (trimSpace s) = true ↔ trimSpace s = s := by
  constructor
  · intro h
    have hlen : (trimSpace s).toList.length = s.toList.length := by
      have hmap := congrArg List.length (of_decide_eq_true h)
      rw [List.length_map, List.length_map] at hmap
      exact hmap.symm
    have hsub : (trimSpace s).toList.Sublist s.toList := by
      rw [trimSpace, String.toList_ofList]
      exact (List.rdropWhile_prefix _ _).sublist.trans (List.dropWhile_sublist _)
    exact String.toList_inj.mp (hsub.eq_of_length hlen)
  · intro h
    rw [h]
    exact decide_eq_true rfl

section
variable {P : Platform} {users : List UserEntry}

/-- Ids are distinct in a list that loads, so an id leads to one entry. -/
theorem findFinIdx_id (hids : (users.map fun e => e.id).Nodup) (i : Fin users.length) :
    (users.findFinIdx? fun u => u.id = (users.get i).id) = some i := by
  rw [List.findFinIdx?_eq_some_iff]
  refine ⟨decide_eq_true rfl, fun j hj hsame => ?_⟩
  have hinj := List.inj_on_of_nodup_map hids (List.get_mem users j) (List.get_mem users i)
    (of_decide_eq_true hsame)
  exact absurd (hids.of_map.injective_get hinj) (Fin.ne_of_lt hj)

theorem findUser_of_id {target : String} {i : Fin users.length}
    (hids : (users.map fun e => e.id).Nodup) (h : parseInt target = some (users.get i).id) :
    findUser P users target = some i := by
  have hfind := findFinIdx_id hids i
  simp only [findUser, h, Option.bind_some, hfind]

theorem findUser_of_no_id {target : String}
    (h : ∀ j : Fin users.length, parseInt target ≠ some (users.get j).id) :
    findUser P users target = users.findFinIdx? fun u => equalFold P.fold u.name target := by
  have hnone : ((parseInt target).bind fun id => users.findFinIdx? fun u => u.id = id) = none := by
    cases hid : parseInt target with
    | none => rfl
    | some id =>
      rw [Option.bind_some, List.findFinIdx?_eq_none_iff]
      intro u hu hsame
      obtain ⟨j, rfl⟩ := List.get_of_mem hu
      exact h j (hid.trans (congrArg some (of_decide_eq_true hsame).symm))
  simp only [findUser, hnone]

theorem findUser_ownName_iff (hids : (users.map fun e => e.id).Nodup) (i : Fin users.length) :
    findUser P users (ownName users i) = some i ↔ Selects P users i := by
  by_cases hid : ∃ j : Fin users.length, parseInt (ownName users i) = some (users.get j).id
  · -- the name is read as an id
    obtain ⟨j, hj⟩ := hid
    rw [findUser_of_id hids hj]
    constructor
    · intro h
      obtain rfl := Option.some.inj h
      refine ⟨fun k hk => ?_, .inl hj⟩
      have hboth := (findUser_of_id (P := P) hids hj).symm.trans (findUser_of_id hids hk)
      exact (Option.some.inj hboth).symm
    · intro h
      rw [h.id j hj]
  · have hno : ∀ j : Fin users.length, parseInt (ownName users i) ≠ some (users.get j).id :=
      fun j hj => hid ⟨j, hj⟩
    rw [findUser_of_no_id hno, List.findFinIdx?_eq_some_iff]
    constructor
    · intro h
      refine ⟨fun j hj => absurd hj (hno j), .inr ⟨(equalFold_trimSpace P.fold _).mp h.1, ?_⟩⟩
      exact fun j hj => Bool.eq_false_iff.mpr (h.2 j hj)
    · intro h
      obtain ⟨hname, hfirst⟩ := h.name.resolve_left (hno i)
      refine ⟨(equalFold_trimSpace P.fold _).mpr hname, fun j hj => ?_⟩
      exact Bool.eq_false_iff.mp (hfirst j hj)

end

/-- In a list that loads, the name of an entry leads to it exactly if it `Selects` it; then
`rm` removes that entry and `rotate` gives that entry the new token. -/
theorem own_name_selects_iff (P : Platform) {users : List UserEntry} (h : Accepted users)
    (i : Fin users.length) :
    (findUser P users (ownName users i) = some i ↔ Selects P users i) ∧
      (Selects P users i →
        (∃ report, rmEdit P true none (ownName users i) users =
          .save [] (users.eraseIdx i) report) ∧
        ∀ random, ∃ report, rotateEdit P random (ownName users i) users =
          .save [] (users.set i (rotatedEntry P random (users.get i))) report) := by
  have hiff := findUser_ownName_iff (P := P) (accepted_iff.mp h).ids i
  refine ⟨hiff, fun hselects => ?_⟩
  have hfind := hiff.mpr hselects
  constructor
  · rw [rmEdit, hfind]
    exact ⟨_, rfl⟩
  · intro random
    rw [rotateEdit, hfind]
    exact ⟨_, rfl⟩

theorem own_name_selects_iff_bob :
    Accepted [sampleEntry 1 "alice" 'a', sampleEntry 2 "bob" 'b'] ∧
      (findUser asciiPlatform [sampleEntry 1 "alice" 'a', sampleEntry 2 "bob" 'b']
          (ownName [sampleEntry 1 "alice" 'a', sampleEntry 2 "bob" 'b'] ⟨1, Nat.lt_succ_self 1⟩) =
            some ⟨1, Nat.lt_succ_self 1⟩ ↔
        Selects asciiPlatform [sampleEntry 1 "alice" 'a', sampleEntry 2 "bob" 'b']
          ⟨1, Nat.lt_succ_self 1⟩) :=
  have accepted : Accepted [sampleEntry 1 "alice" 'a', sampleEntry 2 "bob" 'b'] :=
    accepted_iff.mpr (valid_samples [(1, "alice", 'a'), (2, "bob", 'b')] (by decide +kernel))
  ⟨accepted, (own_name_selects_iff asciiPlatform accepted ⟨1, Nat.lt_succ_self 1⟩).1⟩

/-- `rm 2` removes the user with id 2, not the one with the name "2". `rm alice` removes
"Alice", who stands before "alice". A user " bob " is not found. -/
theorem rm_hits_another_user :
    (Accepted [sampleEntry 1 "2" 'a', sampleEntry 2 "bob" 'b'] ∧
      (runUser asciiPlatform (invocation ["rm", "2"] 0)
        (.ofEntries [sampleEntry 1 "2" 'a', sampleEntry 2 "bob" 'b'])).saved =
          some [sampleEntry 1 "2" 'a']) ∧
    (Accepted [sampleEntry 1 "Alice" 'a', sampleEntry 2 "alice" 'b'] ∧
      (runUser asciiPlatform (invocation ["rm", "alice"] 0)
        (.ofEntries [sampleEntry 1 "Alice" 'a', sampleEntry 2 "alice" 'b'])).saved =
          some [sampleEntry 2 "alice" 'b']) ∧
    (Accepted [sampleEntry 1 " bob " 'a'] ∧
      findUser asciiPlatform [sampleEntry 1 " bob " 'a'] "bob" = none) := by
  refine ⟨⟨?_, by decide +kernel⟩, ⟨?_, by decide +kernel⟩, ?_, by decide +kernel⟩
  · exact accepted_iff.mpr (valid_samples [(1, "2", 'a'), (2, "bob", 'b')] (by decide +kernel))
  · exact accepted_iff.mpr
      (valid_samples [(1, "Alice", 'a'), (2, "alice", 'b')] (by decide +kernel))
  · exact accepted_iff.mpr (valid_samples [(1, " bob ", 'a')] (by decide +kernel))

end TabbySync.Cli
