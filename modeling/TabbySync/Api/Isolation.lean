import TabbySync.Api.Handlers

/-! # One user's requests and the others' rows

Two tables look alike to a user when they hold the same rows of that user and have
handed out the same ids. A step of a request made for the user keeps them alike, goes
the same way on both, and leaves the rows of everyone else as they were; so does the
whole request, which is then shown to end. -/

namespace TabbySync.Api

open Library Auth Crypto
open Sqlite hiding Session Result
open Encrypted hiding Result

/-- The tables hold the same rows of the user, under the same id counter. -/
structure Agree (userID : Int64) (t₁ t₂ : Configs) : Prop where
  rows : t₁.select (ownedBy userID) = t₂.select (ownedBy userID)
  last : t₁.last = t₂.last

/-- The rows of the other users. -/
def foreign (userID : Int64) (t : Configs) : List Row := t.select fun r => !ownedBy userID r

section tables

variable {userID configID : Int64} {t t' t₁ t₂ : Configs}

theorem ownedBy_of_owned {r : Row} (h : owned configID userID r = true) :
    ownedBy userID r = true := ownedBy_iff.mpr (owned_iff.mp h).2

theorem Agree.find (h : Agree userID t₁ t₂) :
    t₁.find (owned configID userID) = t₂.find (owned configID userID) := by
  rw [AutoTable.find_eq_find_select fun r => ownedBy_of_owned, h.rows,
    ← AutoTable.find_eq_find_select fun r => ownedBy_of_owned]

theorem Agree.select_owned (h : Agree userID t₁ t₂) :
    t₁.select (owned configID userID) = t₂.select (owned configID userID) := by
  rw [AutoTable.select_eq_filter_select fun r => ownedBy_of_owned, h.rows,
    ← AutoTable.select_eq_filter_select fun r => ownedBy_of_owned]

theorem Agree.insert (h : Agree userID t₁ t₂) {r : Row} (hlt : t₁.last < r.id) :
    Agree userID (t₁.insert r) (t₂.insert r) := by
  have hlt₂ : t₂.last < r.id := h.last ▸ hlt
  refine ⟨?_, ?_⟩
  · rw [AutoTable.select_insert hlt, AutoTable.select_insert hlt₂, h.rows]
  · rw [AutoTable.last_insert hlt, AutoTable.last_insert hlt₂]

theorem Agree.update (h : Agree userID t₁ t₂) {f : Row → Row} {hf : ∀ r, (f r).id = r.id}
    (howner : ∀ r, (f r).userID = r.userID) :
    Agree userID (t₁.update (owned configID userID) f hf)
      (t₂.update (owned configID userID) f hf) := by
  have hq : ∀ r, ownedBy userID (f r) = ownedBy userID r := fun r => by
    simp only [ownedBy, howner]
  exact ⟨by rw [AutoTable.select_update hq, AutoTable.select_update hq, h.rows], h.last⟩

theorem Agree.delete (h : Agree userID t₁ t₂) :
    Agree userID (t₁.delete (owned configID userID)) (t₂.delete (owned configID userID)) :=
  ⟨by rw [AutoTable.select_delete, AutoTable.select_delete, h.rows], h.last⟩

/-- A row of somebody else can go without the user noticing. -/
theorem agree_delete_foreign {v : Int64} (h : v ≠ userID) :
    Agree userID t (t.delete (owned configID v)) where
  rows := by
    refine (AutoTable.select_delete_of_disjoint fun r hr => ?_).symm
    simp [ownedBy, (owned_iff.mp hr).2, h]
  last := rfl

theorem foreign_insert {r : Row} (hlt : t.last < r.id) (hr : r.userID = userID) :
    foreign userID (t.insert r) = foreign userID t := by
  rw [foreign, AutoTable.select_insert hlt]
  simp [foreign, hr]

theorem foreign_update {f : Row → Row} (hf : ∀ r, (f r).id = r.id)
    (howner : ∀ r, (f r).userID = r.userID) :
    foreign userID (t.update (owned configID userID) f hf) = foreign userID t := by
  refine AutoTable.select_update_of_disjoint (fun r => ?_) fun r hr => ?_
  · simp only [ownedBy, howner]
  · simp [ownedBy_of_owned hr]

theorem foreign_delete : foreign userID (t.delete (owned configID userID)) = foreign userID t :=
  AutoTable.select_delete_of_disjoint fun r hr => by simp [ownedBy_of_owned hr]

end tables

/-! ## The store operations -/

/-- Two outcomes a caller cannot tell apart: the same error, or related results. -/
inductive Alike {α β : Type} (R : α → β → Prop) : Except GoError α → Except GoError β → Prop
  | error (e : GoError) : Alike R (.error e) (.error e)
  | ok {a : α} {b : β} (h : R a b) : Alike R (.ok a) (.ok b)

theorem Alike.cases {α β : Type} {R : α → β → Prop} {x : Except GoError α} {y : Except GoError β}
    (h : Alike R x y) : (∃ e, x = .error e ∧ y = .error e) ∨
      ∃ a b, x = .ok a ∧ y = .ok b ∧ R a b := by
  cases h with
  | error e => exact .inl ⟨e, rfl, rfl⟩
  | ok h => exact .inr ⟨_, _, rfl, rfl, h⟩

section operations

variable {P : Primitives} {masterKey : Bytes} {userID configID : Int64} {t t' t₁ t₂ : Configs}

theorem getConfig_agree (h : Agree userID t₁ t₂) :
    getConfig t₁ userID configID = getConfig t₂ userID configID := by
  rw [getConfig, getConfig, h.find]

theorem getConfigPlaintext_agree (h : Agree userID t₁ t₂) :
    getConfigPlaintext P masterKey t₁ userID configID =
      getConfigPlaintext P masterKey t₂ userID configID := by
  rw [getConfigPlaintext, getConfigPlaintext, getConfig_agree h]

theorem listConfigsByUserPlaintext_agree (h : Agree userID t₁ t₂) :
    listConfigsByUserPlaintext P masterKey t₁ userID =
      listConfigsByUserPlaintext P masterKey t₂ userID := by
  rw [listConfigsByUserPlaintext, listConfigsByUserPlaintext, listConfigsByUser,
    listConfigsByUser, h.rows]

theorem countConfigsByUser_agree (h : Agree userID t₁ t₂) :
    countConfigsByUser t₁ userID = countConfigsByUser t₂ userID := by
  rw [countConfigsByUser, countConfigsByUser, h.rows]

theorem createConfigWithID_agree (h : Agree userID t₁ t₂) (now now' : Int)
    (build : CreateConfigInputBuilder) :
    Alike (fun a b => a.1 = b.1 ∧ Agree userID a.2 b.2)
      (createConfigWithID t₁ now now' userID (some build))
      (createConfigWithID t₂ now now' userID (some build)) := by
  by_cases hlt : t₁.last < t₁.last + 1
  · rw [createConfigWithID_eq hlt, createConfigWithID_eq (h.last ▸ hlt), ← h.last]
    cases build (t₁.last + 1) with
    | error e => exact .error _
    | ok inp =>
      simp only
      cases validateCreateInput inp with
      | error e => exact .error _
      | ok _ =>
        simp only
        cases scanConfig (builtRow (t₁.last + 1) userID inp now now') with
        | error e => exact .error _
        | ok cfg => exact .ok ⟨rfl, h.insert hlt⟩
  · -- the counter is at its end in both
    have hlt₂ : ¬ t₂.last < t₂.last + 1 := h.last ▸ hlt
    simp only [createConfigWithID, Sqlite.insert, if_neg hlt, if_neg hlt₂]
    exact .error _

theorem createConfigPlaintext_agree (P : Primitives) (masterKey : Bytes)
    (h : Agree userID t₁ t₂) (env : Env) (inp : CreateConfigPlaintextInput) :
    Alike (fun a b => a.1 = b.1 ∧ Agree userID a.2 b.2)
      (createConfigPlaintext P masterKey env t₁ userID inp)
      (createConfigPlaintext P masterKey env t₂ userID inp) := by
  unfold createConfigPlaintext
  obtain ⟨e, h₁, h₂⟩ | ⟨⟨row, t₁'⟩, ⟨_, t₂'⟩, h₁, h₂, rfl, hagree⟩ :=
    (createConfigWithID_agree h env.now env.now'
      (buildCreate P masterKey userID inp env.nonce)).cases
  · rw [h₁, h₂]
    exact .error e
  · rw [h₁, h₂]
    exact .ok ⟨rfl, hagree⟩

theorem updateConfigTx_agree (h : Agree userID t₁ t₂) (now : Int) (patch : UpdateConfigPatch) :
    Alike (Agree userID) (updateConfigTx t₁ now userID configID patch)
      (updateConfigTx t₂ now userID configID patch) := by
  unfold updateConfigTx
  rw [h.find]
  cases validatePatch patch with
  | error e => exact .error e
  | ok _ =>
    simp only
    cases t₂.find (owned configID userID) with
    | none => exact .error _
    | some row =>
      simp only
      cases Rfc3339.parse row.modifiedAt with
      | none => exact .error _
      | some old =>
        simp only
        split
        · exact .error _
        · split
          · exact .ok h
          · refine .ok (h.update fun r => ?_)
            rw [applyClauses_setClauses]
            rfl

theorem deleteConfig_agree (h : Agree userID t₁ t₂) (configID : Int64) :
    Alike (Agree userID) (deleteConfig t₁ userID configID) (deleteConfig t₂ userID configID) := by
  unfold deleteConfig
  rw [h.select_owned]
  split
  · exact .error _
  · exact .ok h.delete

end operations

/-! ## Steps of a store call -/

/-- The call is made for the user. -/
def ActsFor (userID : Int64) : Session → Prop
  | .create v _ => v = userID
  | .get v _ => v = userID
  | .list v => v = userID
  | .update v _ _ _ => v = userID
  | .delete v _ => v = userID
  | .count v => v = userID
  | .done _ => True

section calls

variable {P : Primitives} {masterKey : Bytes} {userID configID : Int64} {t t₁ t₂ : Configs}

/-- A step goes the same way on tables that look alike, and they still do afterwards. -/
def SameStep (userID : Int64) (x y : Configs × Session) : Prop :=
  x.2 = y.2 ∧ ActsFor userID x.2 ∧ Agree userID x.1 y.1

theorem actsFor_updateFailed (patch : UpdateConfigPlaintextPatch) (idempotent : Bool)
    (e : GoError) : ActsFor userID (updateFailed userID configID patch idempotent e) := by
  unfold updateFailed
  split
  · exact rfl
  · trivial

theorem updateStep_same (h : Agree userID t₁ t₂) (env : Env) (patch : UpdateConfigPlaintextPatch)
    (pc : UpdatePc) :
    SameStep userID (updateStep P masterKey env t₁ userID configID patch pc)
      (updateStep P masterKey env t₂ userID configID patch pc) := by
  cases pc with
  | reading =>
    simp only [updateStep, getConfigPlaintext_agree h]
    split
    · exact ⟨rfl, trivial, h⟩
    · split
      · exact ⟨rfl, trivial, h⟩
      · exact ⟨rfl, rfl, h⟩
  | writing current =>
    simp only [updateStep]
    split
    · exact ⟨rfl, trivial, h⟩
    · rename_i inner _
      obtain ⟨e, h₁, h₂⟩ | ⟨t₁', t₂', h₁, h₂, h'⟩ := (updateConfigTx_agree h env.now inner).cases
      · rw [h₁, h₂]
        exact ⟨rfl, actsFor_updateFailed _ _ _, h⟩
      · rw [h₁, h₂]
        exact ⟨rfl, rfl, h'⟩
  | reloading idempotent =>
    simp only [updateStep, getConfig_agree h]
    split
    · exact ⟨rfl, actsFor_updateFailed _ _ _, h⟩
    · exact ⟨rfl, rfl, h⟩
  | returning => exact ⟨by simp only [updateStep, getConfigPlaintext_agree h], trivial, h⟩

theorem call_step_same (P : Primitives) (masterKey : Bytes) (h : Agree userID t₁ t₂) (env : Env)
    {call : Session} (hcall : ActsFor userID call) :
    SameStep userID (call.step P masterKey env t₁) (call.step P masterKey env t₂) := by
  cases call with
  | create v inp =>
    cases hcall
    simp only [Encrypted.Session.step]
    obtain ⟨e, h₁, h₂⟩ | ⟨⟨cfg, t₁'⟩, ⟨_, t₂'⟩, h₁, h₂, rfl, h'⟩ :=
      (createConfigPlaintext_agree P masterKey h env inp).cases
    · rw [h₁, h₂]
      exact ⟨rfl, trivial, h⟩
    · rw [h₁, h₂]
      exact ⟨rfl, trivial, h'⟩
  | get v configID =>
    cases hcall
    exact ⟨by simp only [Encrypted.Session.step, getConfigPlaintext_agree h], trivial, h⟩
  | list v =>
    cases hcall
    exact ⟨by simp only [Encrypted.Session.step, listConfigsByUserPlaintext_agree h], trivial, h⟩
  | update v configID patch pc =>
    cases hcall
    exact updateStep_same h env patch pc
  | delete v configID =>
    cases hcall
    simp only [Encrypted.Session.step]
    obtain ⟨e, h₁, h₂⟩ | ⟨t₁', t₂', h₁, h₂, h'⟩ := (deleteConfig_agree h configID).cases
    · rw [h₁, h₂]
      exact ⟨rfl, trivial, h⟩
    · rw [h₁, h₂]
      exact ⟨rfl, trivial, h'⟩
  | count v =>
    cases hcall
    exact ⟨by simp only [Encrypted.Session.step, countConfigsByUser_agree h], trivial, h⟩
  | done r => exact ⟨rfl, trivial, h⟩

/-- The step of a call leaves the rows of the other users alone. -/
theorem call_step_foreign (env : Env) {call : Session} (hcall : ActsFor userID call) :
    foreign userID (call.step P masterKey env t).1 = foreign userID t := by
  cases call with
  | create v inp =>
    cases hcall
    simp only [Encrypted.Session.step]
    split
    · rfl
    · rename_i hcreate
      obtain ⟨row, hrow, -⟩ := createConfigPlaintext_ok hcreate
      obtain ⟨_, _, hlt, -, -, -, -, rfl⟩ := createConfigWithID_ok hrow
      exact foreign_insert hlt rfl
  | update v configID patch pc =>
    cases hcall
    simp only [Encrypted.Session.step]
    obtain hleft | ⟨inner, htx⟩ := updateStep_table (P := P) env patch pc
    · rw [hleft]
    · obtain ⟨row, old, -, -, -, -, -, -, htable⟩ := updateConfigTx_ok htx
      rw [htable]
      exact foreign_update (patchedRow_id _ _ _) fun _ => rfl
  | delete v configID =>
    cases hcall
    simp only [Encrypted.Session.step]
    split
    · rfl
    · rename_i hdelete
      rw [deleteConfig_ok hdelete]
      exact foreign_delete
  | get | list | count | done => rfl

end calls

/-! ## Whole requests -/

/-- The request is made for the user. -/
def Handler.ActsFor (userID : Int64) : Handler → Prop
  | .calling v _ call => v = userID ∧ Api.ActsFor userID call
  | .responded _ => True

/-- A request that is alone on the table, one environment a step. -/
def serve (P : Primitives) (masterKey : Bytes) :
    List Env → Configs → Handler → Configs × Handler
  | [], t, h => (t, h)
  | env :: rest, t, h =>
    serve P masterKey rest (h.step P masterKey env t).1 (h.step P masterKey env t).2

section requests

variable {P : Primitives} {masterKey : Bytes} {userID configID : Int64} {t t₁ t₂ : Configs}

theorem Started.actsFor {h : Handler} (hs : Started userID h) : h.ActsFor userID := by
  cases hs with
  | replied => trivial
  | list | get | count | update | delete => exact ⟨rfl, rfl⟩

theorem actsFor_advance (op : Op) {call : Session} (h : Api.ActsFor userID call) :
    (advance userID op call).ActsFor userID := by
  cases call with
  | done r =>
    simp only [advance, resume]
    split
    case h_5 => split <;> trivial
    all_goals trivial
  | create | get | list | update | delete | count => exact ⟨rfl, h⟩

theorem handler_step_same (P : Primitives) (masterKey : Bytes) (h : Agree userID t₁ t₂)
    (env : Env) {req : Handler} (hreq : req.ActsFor userID) :
    (req.step P masterKey env t₁).2 = (req.step P masterKey env t₂).2 ∧
      (req.step P masterKey env t₁).2.ActsFor userID ∧
      Agree userID (req.step P masterKey env t₁).1 (req.step P masterKey env t₂).1 := by
  cases req with
  | responded r => exact ⟨rfl, trivial, h⟩
  | calling v op call =>
    obtain ⟨rfl, hcall⟩ := hreq
    obtain ⟨heq, hacts, hagree⟩ := call_step_same P masterKey h env hcall
    exact ⟨congrArg (advance v op) heq, actsFor_advance op hacts, hagree⟩

theorem handler_step_foreign (env : Env) {req : Handler} (hreq : req.ActsFor userID) :
    foreign userID (req.step P masterKey env t).1 = foreign userID t := by
  cases req with
  | responded r => rfl
  | calling v op call =>
    obtain ⟨rfl, hcall⟩ := hreq
    exact call_step_foreign env hcall

theorem serve_same (h : Agree userID t₁ t₂) (envs : List Env) {req : Handler}
    (hreq : req.ActsFor userID) :
    (serve P masterKey envs t₁ req).2 = (serve P masterKey envs t₂ req).2 ∧
      Agree userID (serve P masterKey envs t₁ req).1 (serve P masterKey envs t₂ req).1 := by
  induction envs generalizing t₁ t₂ req with
  | nil => exact ⟨rfl, h⟩
  | cons env rest ih =>
    obtain ⟨heq, hacts, hagree⟩ := handler_step_same P masterKey h env hreq
    simp only [serve, ← heq]
    exact ih hagree hacts

theorem serve_foreign (envs : List Env) {req : Handler} (hreq : req.ActsFor userID) :
    foreign userID (serve P masterKey envs t req).1 = foreign userID t := by
  induction envs generalizing t req with
  | nil => rfl
  | cons env rest ih =>
    have same : Agree userID t t := ⟨rfl, rfl⟩
    have hacts := (handler_step_same P masterKey same env hreq).2.1
    rw [serve, ih hacts]
    exact handler_step_foreign env hreq

/-! ## A request ends

Alone on the table an update never meets a changed row, so it does not go round its
loop: four database operations, and the answer is there. -/

/-- The request has its response after `n` steps, whatever the environment hands it. -/
def RespondsIn (P : Primitives) (masterKey : Bytes) : Nat → Configs → Handler → Prop
  | 0, _, h => ∃ r, h = .responded r
  | n + 1, t, h =>
    ∀ env, RespondsIn P masterKey n (h.step P masterKey env t).1 (h.step P masterKey env t).2

theorem respondsIn_responded (n : Nat) (r : Reply) :
    RespondsIn P masterKey n t (.responded r) := by
  induction n with
  | zero => exact ⟨r, rfl⟩
  | succ n ih => exact fun _ => ih

/-- Every store call but the count is a handler's last. -/
theorem respondsIn_done (op : Op) (hop : ∀ name, op ≠ .countConfigs name) (n : Nat)
    (r : Encrypted.Result) : RespondsIn P masterKey n t (advance userID op (.done r)) := by
  simp only [advance, resume]
  split
  case h_5 name _ => exact absurd rfl (hop name)
  all_goals exact respondsIn_responded n _

theorem RespondsIn.serve {n : Nat} {req : Handler} (h : RespondsIn P masterKey n t req)
    {envs : List Env} (hn : n ≤ envs.length) :
    ∃ r, (serve P masterKey envs t req).2 = .responded r := by
  induction envs generalizing n t req with
  | nil =>
    obtain rfl : n = 0 := Nat.le_zero.mp hn
    exact h
  | cons env rest ih =>
    cases n with
    | zero =>
      obtain ⟨r, rfl⟩ := h
      exact ih (n := 0) ⟨r, rfl⟩ (Nat.zero_le _)
    | succ n => exact ih (h env) (Nat.le_of_succ_le_succ hn)

/-- On the table it was read from, the compare-and-set of a repeated patch is not lost. -/
theorem idempotent_commits {current : ConfigWithPlaintext}
    (hread : getConfigPlaintext P masterKey t userID configID = .ok current)
    (patch : UpdateConfigPlaintextPatch) (now : Int) :
    ∃ t', updateConfigTx t now userID configID (idempotentPatch patch current) = .ok t' := by
  obtain ⟨row, pt, hrow, -, rfl⟩ := getConfigPlaintext_ok hread
  obtain ⟨r, hr, hid, hu, hscan⟩ := getConfig_ok.mp hrow
  obtain ⟨-, hmodified, -⟩ := scanConfig_ok.mp hscan
  rw [updateConfigTx_eq validatePatch_idempotent (find_owned.mpr ⟨hr, hid, hu⟩) hmodified]
  refine ⟨_, if_neg ?_⟩
  simp [idempotentPatch, toPlaintext]

theorem updateFailed_done {patch : UpdateConfigPlaintextPatch} {idempotent : Bool} {e : GoError}
    (h : (idempotent && e.is .configChanged) = false) :
    updateFailed userID configID patch idempotent e = .done (.config (.error e)) := by
  rw [updateFailed, h]
  rfl

theorem reloading_responds (patch : UpdateConfigPlaintextPatch) (idempotent : Bool) :
    RespondsIn P masterKey 2 t (.calling userID (.updateConfig configID)
      (.update userID configID patch (.reloading idempotent))) := by
  intro env
  simp only [Handler.step, Encrypted.Session.step, updateStep]
  cases hget : getConfig t userID configID with
  | error e =>
    simp only
    rw [updateFailed_done (by rw [getConfig_error hget .configChanged (by decide), Bool.and_false])]
    exact respondsIn_done (.updateConfig configID) (by simp) 1 _
  | ok row => exact fun _ => ⟨_, rfl⟩

theorem writing_responds {patch : UpdateConfigPlaintextPatch} {current : ConfigWithPlaintext}
    (hread : getConfigPlaintext P masterKey t userID configID = .ok current) :
    RespondsIn P masterKey 3 t (.calling userID (.updateConfig configID)
      (.update userID configID patch (.writing current))) := by
  intro env
  simp only [Handler.step, Encrypted.Session.step, updateStep]
  cases hinner : innerPatch P masterKey env.nonce userID configID patch current with
  | error e => exact respondsIn_done (.updateConfig configID) (by simp) 2 _
  | ok inner =>
    simp only
    cases htx : updateConfigTx t env.now userID configID inner with
    | ok t' => exact reloading_responds patch _
    | error e =>
      have hchanged : changed patch current = true := by
        by_contra hsame
        rw [innerPatch, if_neg hsame] at hinner
        obtain ⟨t', ht'⟩ := idempotent_commits hread patch env.now
        rw [← Except.ok.inj hinner, ht'] at htx
        cases htx
      simp only [hchanged]
      rw [updateFailed_done (by rfl)]
      exact respondsIn_done (.updateConfig configID) (by simp) 2 _

theorem updating_responds (patch : UpdateConfigPlaintextPatch) :
    RespondsIn P masterKey 4 t
      (.calling userID (.updateConfig configID) (.update userID configID patch .reading)) := by
  intro env
  simp only [Handler.step, Encrypted.Session.step, updateStep]
  split
  · exact respondsIn_done (.updateConfig configID) (by simp) 3 _
  · split
    · exact respondsIn_done (.updateConfig configID) (by simp) 3 _
    · exact writing_responds ‹_›

theorem creating_responds (inp : CreateConfigPlaintextInput) :
    RespondsIn P masterKey 1 t (.calling userID .createConfig (.create userID inp)) := by
  intro env
  simp only [Handler.step, Encrypted.Session.step]
  split <;> exact respondsIn_done .createConfig (by simp) 0 _

/-- A response stays. -/
theorem RespondsIn.mono {n m : Nat} {req : Handler} (h : RespondsIn P masterKey n t req)
    (hnm : n ≤ m) : RespondsIn P masterKey m t req := by
  induction m generalizing n t req with
  | zero =>
    obtain rfl : n = 0 := Nat.le_zero.mp hnm
    exact h
  | succ m ih =>
    cases n with
    | zero =>
      obtain ⟨r, rfl⟩ := h
      exact respondsIn_responded _ r
    | succ n => exact fun env => ih (h env) (Nat.le_of_succ_le_succ hnm)

theorem Started.responds {req : Handler} (hs : Started userID req) :
    RespondsIn P masterKey 4 t req := by
  cases hs with
  | replied r => exact respondsIn_responded 4 r
  | update id patch => exact updating_responds patch
  | list =>
    intro env
    exact respondsIn_done .listConfigs (by simp) 3 _
  | get id =>
    intro env
    simp only [Handler.step, Encrypted.Session.step]
    exact respondsIn_done (.getConfig id) (by simp) 3 _
  | delete id =>
    intro env
    simp only [Handler.step, Encrypted.Session.step]
    split <;> exact respondsIn_done (.deleteConfig id) (by simp) 3 _
  | count name nonempty =>
    intro env
    simp only [Handler.step, Encrypted.Session.step, advance, resume]
    split
    · exact respondsIn_responded 3 _
    · exact (creating_responds _).mono (by decide)

end requests

/-- On tables that hold the same rows of a user under the same id counter, a request of
that user gets the same answer, keeps them so, and leaves everybody else's rows as they
are. In particular a row of somebody else might as well not be there. -/
theorem requests_isolated (P : Primitives) (masterKey : Bytes) (J : Json) (u : User)
    (req : Request) (envs : List Env) (enough : 4 ≤ envs.length) (t₁ t₂ : Configs)
    (agree : Agree u.id t₁ t₂) :
    ∃ reply,
      (serve P masterKey envs t₁ (handle J (some u) req)).2 = .responded reply ∧
      (serve P masterKey envs t₂ (handle J (some u) req)).2 = .responded reply ∧
      Agree u.id (serve P masterKey envs t₁ (handle J (some u) req)).1
        (serve P masterKey envs t₂ (handle J (some u) req)).1 ∧
      foreign u.id (serve P masterKey envs t₁ (handle J (some u) req)).1 = foreign u.id t₁ ∧
      foreign u.id (serve P masterKey envs t₂ (handle J (some u) req)).1 = foreign u.id t₂ ∧
      ∀ v configID : Int64, v ≠ u.id →
        (serve P masterKey envs (t₁.delete (owned configID v)) (handle J (some u) req)).2 =
          .responded reply := by
  have started := handle_started J u req
  have acts := started.actsFor
  obtain ⟨reply, hreply⟩ := (started.responds (P := P) (t := t₁)).serve enough
  obtain ⟨heq, hagree⟩ := serve_same (P := P) agree envs acts
  refine ⟨reply, hreply, ?_, hagree, serve_foreign envs acts, serve_foreign envs acts, ?_⟩
  · rw [← heq, hreply]
  · intro v configID hv
    rw [← (serve_same (agree_delete_foreign hv) envs acts).1, hreply]

/-- A table with one row, of user 2. -/
def rowOfAnother : Configs := (AutoTable.empty 0).insert
  { id := 1, userID := 2, name := "laptop", contentCiphertext := [1], contentNonce := [2]
    lastUsedWithVersion := none, createdAt := "2024-01-01T00:00:00Z"
    modifiedAt := "2024-01-01T00:00:00Z" }

theorem requests_isolated_get :
    ∃ reply, reply = writeError 404 errNotFound ∧
      (serve transparent (List.replicate 32 7) [envAt 0, envAt 0, envAt 0, envAt 0]
        rowOfAnother (handle constantJson (some alice)
          (.getConfig "1"))).2 = .responded reply ∧
      (serve transparent (List.replicate 32 7) [envAt 0, envAt 0, envAt 0, envAt 0]
        (AutoTable.empty 1) (handle constantJson (some alice)
          (.getConfig "1"))).2 = .responded reply := by
  have agree : Agree 1 rowOfAnother (AutoTable.empty 1) := ⟨by decide +kernel, by decide +kernel⟩
  obtain ⟨reply, h₁, h₂, -⟩ := requests_isolated transparent (List.replicate 32 7) constantJson
    alice (.getConfig "1") [envAt 0, envAt 0, envAt 0, envAt 0]
    (by decide) rowOfAnother (AutoTable.empty 1) agree
  refine ⟨reply, ?_, h₁, h₂⟩
  have : Handler.responded reply = .responded (writeError 404 errNotFound) := h₂.symm
  exact Handler.responded.inj this

end TabbySync.Api
