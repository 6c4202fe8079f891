import TabbySync.Api.Quota
import TabbySync.Store.IdempotentUpdate

/-! # Names of configs

`POST` refuses an empty name. `PATCH` asks only whether any field is supplied, and the two
store layers below it take the empty string like any other, so a config keeps a name until
a `PATCH` that carries the empty one commits, and no longer. -/

namespace TabbySync.Api

open Library Auth Crypto
open Sqlite hiding Session Result
open Encrypted hiding Result

/-- Every stored config has a name. -/
def AllNamed (t : Configs) : Prop := ∀ r ∈ t.rows, r.name ≠ ""

/-- A request holds no empty name: not one it will store for a `POST`, and not as what a
`PATCH` has read. -/
def Handler.Named : Handler → Prop
  | .calling _ (.countConfigs name) _ => name ≠ ""
  | .calling _ _ (.create _ inp) => inp.name ≠ ""
  | .calling _ _ (.update _ _ _ (.writing current)) => current.name ≠ ""
  | _ => True

/-- The next step commits the write of a `PATCH` with the empty name. -/
def Handler.ClearsName (P : Primitives) (masterKey : Bytes) (env : Env) (t : Configs) :
    Handler → Prop
  | .calling _ _ (.update userID configID patch (.writing current)) =>
    patch.name = some "" ∧ ∃ idempotent,
      (updateStep P masterKey env t userID configID patch (.writing current)).2 =
        .update userID configID patch (.reloading idempotent)
  | _ => False

/-! ## One step -/

section steps

variable {P : Primitives} {masterKey : Bytes} {userID configID : Int64} {t t' : Configs}
variable {patch : UpdateConfigPlaintextPatch} {current : ConfigWithPlaintext} {env : Env}

theorem allNamed_create {inp : CreateConfigPlaintextInput} {cfg : ConfigWithPlaintext}
    (h : createConfigPlaintext P masterKey env t userID inp = .ok (cfg, t'))
    (hname : inp.name ≠ "") (ht : AllNamed t) : AllNamed t' := by
  obtain ⟨row, hrow, -⟩ := createConfigPlaintext_ok h
  obtain ⟨_, built, hlt, hbuild, hb, -, -, rfl⟩ := createConfigWithID_ok hrow
  cases hbuild
  have hbuilt : built.name = inp.name := by
    unfold buildCreate at hb
    split at hb
    · cases hb
    · cases hb
      rfl
  intro r hr
  rcases (AutoTable.mem_insert (r := builtRow _ userID built env.now env.now') hlt).mp hr with
    hold | rfl
  · exact ht r hold
  · rw [← hbuilt] at hname
    exact hname

theorem allNamed_delete (h : deleteConfig t userID configID = .ok t') (ht : AllNamed t) :
    AllNamed t' := by
  rw [deleteConfig_ok h]
  intro r hr
  exact ht r (AutoTable.mem_delete.mp hr).1

/-- A committed update leaves every config its name unless it writes the empty one. -/
theorem allNamed_update {now : Int} {inner : UpdateConfigPatch}
    (h : updateConfigTx t now userID configID inner = .ok t') (ht : AllNamed t) :
    AllNamed t' ↔ inner.name ≠ some "" := by
  obtain ⟨row, old, hrow, hid, hu, -, -, -, rfl⟩ := updateConfigTx_ok h
  constructor
  · intro hnamed hempty
    have hmem : patchedRow inner now old row ∈ (t.update (owned configID userID)
        (patchedRow inner now old) (patchedRow_id inner now old)).rows :=
      AutoTable.mem_update.mpr ⟨row, hrow, if_pos (owned_iff.mpr ⟨hid, hu⟩)⟩
    apply hnamed _ hmem
    show inner.name.getD row.name = ""
    rw [hempty]
    rfl
  · intro hsome r hr
    obtain ⟨a, ha, -, rfl | ⟨-, rfl⟩⟩ := AutoTable.mem_update_key hr
    · exact ht r ha
    · show inner.name.getD a.name ≠ ""
      cases hname : inner.name with
      | none => exact ht a ha
      | some name =>
        intro hempty
        exact hsome (hname.trans (congrArg some hempty))

/-- The write of a `PATCH` that read a named row. -/
theorem allNamed_write (ht : AllNamed t) (hcurrent : current.name ≠ "") :
    AllNamed (updateStep P masterKey env t userID configID patch (.writing current)).1 ↔
      ¬ (patch.name = some "" ∧ ∃ idempotent,
        (updateStep P masterKey env t userID configID patch (.writing current)).2 =
          .update userID configID patch (.reloading idempotent)) := by
  rcases updateStep_write env patch current with ⟨inner, t', hinner, htx, hstep⟩ | ⟨hleft, hno⟩
  · have hinnerName : inner.name = some "" ↔ patch.name = some "" := by
      rw [innerPatch_name hinner]
      split
      · rfl
      · rename_i hsame
        constructor
        · intro hnone
          cases hnone
        · intro hempty
          have hread := nameChanged_eq_false.mp (Bool.eq_false_iff.mpr hsame)
          rw [hempty] at hread
          exact absurd hread.symm hcurrent
    rw [hstep, allNamed_update htx ht, ne_eq, hinnerName]
    simp
  · rw [hleft]
    constructor
    · rintro - ⟨-, idempotent, hcommit⟩
      exact hno idempotent hcommit
    · intro _
      exact ht

/-- What an update reads of a named table has a name. -/
theorem named_read (ht : AllNamed t)
    (h : getConfigPlaintext P masterKey t userID configID = .ok current) : current.name ≠ "" := by
  obtain ⟨r, hr, hshow, -⟩ := IdempotentUpdate.getConfigPlaintext_row h
  rw [← hshow.name]
  exact ht r (find_owned.mp hr).1

/-- A step keeps the names unless it commits the empty one. -/
theorem InFlight.allNamed_step {h : Handler} (hf : InFlight userID h) (hn : h.Named)
    (ht : AllNamed t) :
    AllNamed (h.step P masterKey env t).1 ↔ ¬ h.ClearsName P masterKey env t := by
  cases hf with
  | replied | list | get | count => exact iff_of_true ht not_false
  | create inp =>
    refine iff_of_true ?_ not_false
    simp only [Handler.step, Encrypted.Session.step]
    split
    · exact ht
    · exact allNamed_create ‹_› hn ht
  | update id patch pc =>
    cases pc with
    | writing current => exact allNamed_write ht hn
    | reading | reloading | returning =>
      refine iff_of_true ?_ not_false
      simp only [Handler.step, Encrypted.Session.step]
      rw [updateStep_fst_of_not_writing (by simp)]
      exact ht
  | delete id =>
    refine iff_of_true ?_ not_false
    simp only [Handler.step, Encrypted.Session.step]
    split
    · exact ht
    · exact allNamed_delete ‹_› ht

theorem InFlight.named_step {h : Handler} (hf : InFlight userID h) (hn : h.Named)
    (ht : AllNamed t) : (h.step P masterKey env t).2.Named := by
  have hnext := hf.next P masterKey env t
  generalize (h.step P masterKey env t).2 = h' at hnext
  cases hnext with
  | replies r => trivial
  | counted => exact hn
  | @updates id patch pc pc' hstep =>
    have hupdate := updateStep_next P masterKey env t userID id patch pc
    rw [hstep] at hupdate
    cases hupdate with
    | reads hread => exact named_read ht hread
    | retries | commits | reloads => trivial

end steps

/-! ## Runs -/

section runs

variable {P : Primitives} {masterKey : Bytes} {ι : Type} [DecidableEq ι]

/-- The step commits the write of a `PATCH` with the empty name. -/
def ClearsName (P : Primitives) (masterKey : Bytes) (s : Pool Configs ι Handler) (ev : ι × Env) :
    Prop :=
  (s.procs ev.1).ClearsName P masterKey ev.2 s.shared

/-- No empty name, in the table or in a request. -/
structure NamesKept (s : Pool Configs ι Handler) : Prop where
  stored : AllNamed s.shared
  inFlight : ∀ i, ∃ userID, InFlight userID (s.procs i)
  held : ∀ i, (s.procs i).Named

theorem handle_named (J : Json) (user : Option User) (req : Request) :
    (handle J user req).Named := by
  cases user with
  | none =>
    obtain ⟨r, hr⟩ := handle_no_user J req
    rw [hr]
    trivial
  | some u =>
    have hstart := handle_started J u req
    generalize handle J (some u) req = h at hstart
    cases hstart with
    | count name nonempty => exact nonempty
    | replied | list | get | update | delete => trivial

omit [DecidableEq ι] in
theorem namesKept_requests (J : Json) (reqs : ι → Option User × Request) {t : Configs}
    (ht : AllNamed t) : NamesKept (requests J t reqs) :=
  ⟨ht, fun _ => handle_inFlight J _ _, fun _ => handle_named J _ _⟩

theorem NamesKept.fire_iff {s : Pool Configs ι Handler} (hs : NamesKept s) (ev : ι × Env) :
    AllNamed (Pool.fire (Handler.step P masterKey) s ev).shared ↔
      ¬ ClearsName P masterKey s ev := by
  obtain ⟨userID, hf⟩ := hs.inFlight ev.1
  exact hf.allNamed_step (hs.held ev.1) hs.stored

theorem NamesKept.fire {s : Pool Configs ι Handler} (hs : NamesKept s) {ev : ι × Env}
    (hev : ¬ ClearsName P masterKey s ev) :
    NamesKept (Pool.fire (Handler.step P masterKey) s ev) := by
  obtain ⟨userID, hf⟩ := hs.inFlight ev.1
  refine ⟨(hs.fire_iff ev).mpr hev, ?_, ?_⟩
  · exact Pool.forall_procs_fire (Q := fun _ p => ∃ userID, InFlight userID p)
      ⟨userID, hf.step ev.2⟩ fun i _ => hs.inFlight i
  · exact Pool.forall_procs_fire (Q := fun _ => Handler.Named)
      (hf.named_step (hs.held ev.1) hs.stored) fun i _ => hs.held i

/-- From any requests over a table of named configs: the configs stay named exactly as long
as no `PATCH` with the empty name commits. -/
theorem NamesKept.along_iff {s : Pool Configs ι Handler} (hs : NamesKept s)
    (events : List (ι × Env)) :
    (∀ n, AllNamed (Pool.moment (Handler.step P masterKey) s events n).shared) ↔
      Pool.Along (Handler.step P masterKey) (fun s ev => ¬ ClearsName P masterKey s ev) s
        events := by
  let named : Pool Configs ι Handler → Prop := fun s => AllNamed s.shared
  have hmoments : (∀ n, named (Pool.run (Handler.step P masterKey) s (events.take n))) ↔
      named s ∧ Pool.Along (Handler.step P masterKey)
        (fun s ev => named (Pool.fire (Handler.step P masterKey) s ev)) s events :=
    Pool.forall_take_iff s events
  refine hmoments.trans ((and_iff_right hs.stored).trans ?_)
  exact Pool.along_congr (I := NamesKept) (fun _ ev hs => hs.fire_iff ev)
    (fun _ _ hs hev => hs.fire hev) hs events

/-- From an empty database, whatever the requests and however their steps fall: every stored
config has a name at every moment, exactly if no `PATCH` with the empty name commits. -/
theorem names_nonempty_iff (P : Primitives) (masterKey : Bytes) (J : Json)
    (reqs : ι → Option User × Request) (events : List (ι × Env)) :
    (∀ n, AllNamed (Pool.moment (Handler.step P masterKey)
        (requests J (AutoTable.empty 0) reqs) events n).shared) ↔
      Pool.Along (Handler.step P masterKey) (fun s ev => ¬ ClearsName P masterKey s ev)
        (requests J (AutoTable.empty 0) reqs) events := by
  have hempty : AllNamed (AutoTable.empty 0) := by
    intro r hr
    cases hr
  exact (namesKept_requests J reqs hempty).along_iff events

end runs

/-- The body `{"name":"laptop"}`. -/
def postBody : Bytes := "\x7b\"name\":\"laptop\"\x7d".toUTF8.data.toList

/-- The body `{"name":""}`. -/
def patchBody : Bytes := "\x7b\"name\":\"\"\x7d".toUTF8.data.toList

/-- A decoder that knows these two bodies. -/
def twoBodies : Json where
  createConfigRequest body := if body = postBody then some (⟨"laptop"⟩, []) else none
  patchConfigRequest body := if body = patchBody then some (⟨some "", none, none⟩, []) else none

/-- A user creates a config and then patches its name away. -/
def createAndClear : Fin 2 → Option User × Request
  | 0 => (some alice, .createConfig (some postBody))
  | 1 => (some alice, .patchConfig "1" (some patchBody))

/-- The database and the requests after both have run, one after the other. -/
def cleared : Pool Configs (Fin 2) Handler :=
  Pool.run (Handler.step transparent (List.replicate 32 7))
    (requests twoBodies (AutoTable.empty 0) createAndClear)
    (Pool.schedule ([0, 0, 1, 1, 1, 1].map fun i => (i, envAt 0)))

/-- The `PATCH` is answered with 200, and the one config in the database has no name. -/
theorem patch_clears_name :
    cleared.procs 1 = .responded (writeJSON 200 (.config ⟨1, "", [], none,
        "1970-01-01T00:00:00Z", "1970-01-01T00:00:00.002Z"⟩)) ∧
      cleared.shared.rows.map Row.name = [""] ∧ ¬ AllNamed cleared.shared := by
  have hnames : cleared.shared.rows.map Row.name = [""] := by decide +kernel
  refine ⟨by decide +kernel, hnames, fun hnamed => ?_⟩
  obtain ⟨r, hr, hempty⟩ := List.mem_map.mp (hnames ▸ List.mem_singleton_self "")
  exact hnamed r hr hempty

/-! ## Requests without the empty name

If no `PATCH` body carries the empty name, none ever commits one. -/

/-- What the body of a `PATCH` supplies is not the empty name. -/
def Request.SparesNames (J : Json) : Request → Prop
  | .patchConfig _ body =>
    ∀ v, decodeJSON J.patchConfigRequest body = .ok v → v.name ≠ some ""
  | _ => True

/-- A `PATCH` in flight does not carry the empty name. -/
def Handler.SparesNames : Handler → Prop
  | .calling _ _ (.update _ _ patch _) => patch.name ≠ some ""
  | _ => True

section spared

variable {P : Primitives} {masterKey : Bytes}

theorem sparesNames_orRespond {x : Except Reply Handler}
    (h : ∀ a, x = .ok a → a.SparesNames) : (orRespond x).SparesNames := by
  cases x with
  | error r => trivial
  | ok a => exact h a rfl

theorem handle_sparesNames {J : Json} {req : Request} (h : req.SparesNames J)
    (user : Option User) : (handle J user req).SparesNames := by
  cases req with
  | getUser | listConfigs =>
    cases user <;> trivial
  | createConfig body =>
    refine sparesNames_orRespond fun a ha => ?_
    obtain ⟨u, -, ha⟩ := bind_eq_ok ha
    obtain ⟨v, -, ha⟩ := bind_eq_ok ha
    split at ha <;> cases ha
    trivial
  | getConfig raw | deleteConfig raw =>
    refine sparesNames_orRespond fun a ha => ?_
    obtain ⟨u, -, ha⟩ := bind_eq_ok ha
    obtain ⟨id, -, ha⟩ := bind_eq_ok ha
    cases ha
    trivial
  | patchConfig raw body =>
    refine sparesNames_orRespond fun a ha => ?_
    obtain ⟨u, -, ha⟩ := bind_eq_ok ha
    obtain ⟨id, -, ha⟩ := bind_eq_ok ha
    obtain ⟨v, hv, ha⟩ := bind_eq_ok ha
    split at ha
    · cases ha
    · split at ha <;> cases ha
      exact h v hv

theorem InFlight.sparesNames_step {userID : Int64} {h : Handler} (hf : InFlight userID h)
    (hs : h.SparesNames) (env : Env) (t : Configs) : (h.step P masterKey env t).2.SparesNames := by
  have hnext := hf.next P masterKey env t
  generalize (h.step P masterKey env t).2 = h' at hnext
  cases hnext with
  | replies | counted => trivial
  | updates => exact hs

theorem Handler.SparesNames.not_clearsName {h : Handler} (hs : h.SparesNames) (env : Env)
    (t : Configs) : ¬ h.ClearsName P masterKey env t := by
  intro hclears
  unfold Handler.ClearsName at hclears
  split at hclears
  · exact hs hclears.1
  · exact hclears

variable {ι : Type} [DecidableEq ι]

/-- Requests none of which carries the empty name leave every config its name. -/
theorem allNamed_of_requests (P : Primitives) (masterKey : Bytes) {J : Json}
    {reqs : ι → Option User × Request} {t : Configs} (ht : AllNamed t)
    (hreqs : ∀ i, (reqs i).2.SparesNames J) (events : List (ι × Env)) :
    AllNamed (Pool.run (Handler.step P masterKey) (requests J t reqs) events).shared := by
  have hstart : NamesKept (requests J t reqs) ∧ ∀ i, ((requests J t reqs).procs i).SparesNames :=
    ⟨namesKept_requests J reqs ht, fun i => handle_sparesNames (hreqs i) _⟩
  refine (Pool.run_invariant (I := fun s => NamesKept s ∧ ∀ i, (s.procs i).SparesNames)
    ?_ hstart events).1.stored
  rintro s ev ⟨hs, hspares⟩
  obtain ⟨userID, hf⟩ := hs.inFlight ev.1
  refine ⟨hs.fire ((hspares ev.1).not_clearsName ev.2 s.shared), ?_⟩
  exact Pool.forall_procs_fire (Q := fun _ => Handler.SparesNames)
    (hf.sparesNames_step (hspares ev.1) ev.2 s.shared) fun i _ => hspares i

end spared

end TabbySync.Api
