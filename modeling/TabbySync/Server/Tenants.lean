import Mathlib
import TabbySync.Server.Service
import TabbySync.Store.VersionToken

/-! # A server of one's own

To each user the service is a server that holds nothing but the user's rows and the user's
budget, and serves nothing but requests with the user's tokens. Only the ids of new rows
tell that there are others: the counter of the private server jumps by what they take. -/

namespace TabbySync.Server
open TabbySync.Library TabbySync.Auth TabbySync.Sqlite
open TabbySync.Api (Agree foreign)

/-! ## The private server -/

/-- What a private server goes through: an event of its own, or ids given to others. -/
inductive Move (ι : Type)
  | event (ev : ι × Event)
  | idsTaken (last : Int64)

def Move.shown {ι : Type} : Move ι → Option (ι × Event)
  | .event ev => some ev
  | .idsTaken _ => none

/-- The request authenticates the user. A health probe is served without a look at its
token. -/
def Service.isOf (S : Service) (userID : Int64) (r : Request) : Bool :=
  !isHealthProbe r && (admitted S.sha256 S.users r.authorization).any (·.id = userID)

/-- The events a user's server goes through as well: its requests' steps, and the sweeps. -/
def Service.concerns {ι : Type} (S : Service) (userID : Int64) (requests : ι → Request)
    (ev : ι × Event) : Bool :=
  match ev.2 with
  | .sweep _ => true
  | .serve _ _ => S.isOf userID (requests ev.1)

/-- What a state holds of a user. -/
def Shared.only (userID : Int64) (s : Shared) : Shared where
  limiter := { s.limiter with
    buckets := fun k => if k = userKey userID then s.limiter.buckets k else none }
  table := s.table.delete fun r => !ownedBy userID r

def arrivals {ι : Type} (s : Shared) (requests : ι → Request) : Pool Shared ι Proc :=
  ⟨s, fun i => .arriving (requests i)⟩

def Service.privately {ι : Type} [DecidableEq ι] (S : Service) (p : Pool Shared ι Proc) :
    Move ι → Pool Shared ι Proc
  | .event ev => Pool.fire S.step p ev
  | .idsTaken last => { p with shared := { p.shared with table := p.shared.table.raise last } }

/-! ## Budgets -/

theorem userKey_injective {a b : Int64} (h : userKey a = userKey b) : a = b := by
  have hshown : toString a.toInt = toString b.toInt := by
    simpa [userKey] using h
  exact Int64.toInt_inj.mp (Int.repr_injective hshown)

theorem userKey_ne_ip (userID : Int64) (ip : String) : "ip:" ++ ip ≠ userKey userID := by
  intro h
  have hlist := congrArg String.toList h
  simp [userKey] at hlist

/-- Two limiters treat a key alike. -/
structure SameFor (k : String) (l l' : Limiter) : Prop where
  rate : l.rate = l'.rate
  window : l.window = l'.window
  bucket : l.buckets k = l'.buckets k

section
variable {l l' : Limiter} {k key : String}

theorem allow_cases (l : Limiter) (now : Int) (key : String) :
    ∃ tokens, (l.allow now key).2 = l.store key ⟨tokens, now⟩ := by
  unfold Limiter.allow
  dsimp only
  split <;> exact ⟨_, rfl⟩

theorem SameFor.refilled (h : SameFor k l l') (now : Int) : l.refilled now k = l'.refilled now k := by
  unfold Limiter.refilled
  rw [h.rate, h.window, h.bucket]

theorem SameFor.allow (h : SameFor k l l') (now : Int) : (l.allow now k).1 = (l'.allow now k).1 ∧
    SameFor k (l.allow now k).2 (l'.allow now k).2 := by
  unfold Limiter.allow
  rw [h.refilled]
  dsimp only
  split <;> exact ⟨rfl, h.rate, h.window, by simp [Limiter.store]⟩

theorem SameFor.allow_other (h : SameFor k l l') (now : Int) (hne : key ≠ k) :
    SameFor k (l.allow now key).2 l' := by
  obtain ⟨b, hb⟩ := allow_cases l now key
  rw [hb]
  exact ⟨h.rate, h.window, (Function.update_of_ne hne.symm _ _).trans h.bucket⟩

theorem SameFor.sweep (h : SameFor k l l') (now : Int) : SameFor k (l.sweep now) (l'.sweep now) :=
  ⟨h.rate, h.window, by simp only [Limiter.sweep, h.bucket, h.window]⟩

theorem SameFor.tooManyRequests (h : SameFor k l l') (w : Writer) :
    tooManyRequests w l = tooManyRequests w l' := by
  unfold Server.tooManyRequests
  rw [h.window]

end

/-! ## Whose request it is -/

/-- The request is the user's. -/
def Proc.For (S : Service) (userID : Int64) : Proc → Prop
  | .arriving r => S.isOf userID r = true
  | .inside _ h => h.ActsFor userID
  | .answered _ => True

/-- The request is anybody else's, or nobody's. -/
def Proc.Elsewhere (S : Service) (userID : Int64) : Proc → Prop
  | .arriving r => S.isOf userID r = false
  | .inside _ h => ∃ v, v ≠ userID ∧ h.ActsFor v
  | .answered _ => True

section
variable {S : Service} {userID v : Int64} {r r' : Request} {w : Writer} {s s' : Shared} {p : Proc}

theorem settle_for {h : Api.Handler} (hh : h.ActsFor v) : (S.settle w h).For S v := by
  cases h with
  | responded reply => trivial
  | calling u op call => exact hh

theorem settle_elsewhere {h : Api.Handler} (hh : h.ActsFor v) (hv : v ≠ userID) :
    (S.settle w h).Elsewhere S userID := by
  cases h with
  | responded reply => trivial
  | calling u op call => exact ⟨v, hv, hh⟩

theorem handle_actsFor (S : Service) {u : User} (req : Api.Request) :
    (Api.handle S.json (some u) req).ActsFor u.id :=
  (Api.handle_started S.json u req).actsFor

theorem dispatch_for {u : User} (hu : r'.user = some u) : (S.dispatch r' w).For S u.id := by
  unfold Service.dispatch
  split
  · trivial
  · trivial
  · rw [hu]
    exact settle_for (handle_actsFor S _)

/-- Without the user, the mux does nothing for the user. -/
theorem dispatch_elsewhere (hu : ∀ u, r'.user = some u → u.id ≠ userID) :
    (S.dispatch r' w).Elsewhere S userID := by
  unfold Service.dispatch
  split
  · trivial
  · trivial
  · rename_i e _
    cases hr : r'.user with
    | none =>
      obtain ⟨reply, hreply⟩ := Api.handle_no_user S.json (e.request r'.body)
      rw [hreply]
      trivial
    | some u => exact settle_elsewhere (handle_actsFor S _) (hu u hr)

/-- A request of the user comes to the limiter with that user. -/
theorem Reaches.of_isOf (h : Reaches S r r') (hr : S.isOf userID r = true) :
    ∃ u, r'.user = some u ∧ u.id = userID := by
  simp only [Service.isOf, Bool.and_eq_true, Bool.not_eq_true'] at hr
  have huser := h.user
  rw [hr.1] at huser
  cases hu : admitted S.sha256 S.users r.authorization with
  | none =>
    rw [hu] at hr
    cases hr.2
  | some u =>
    rw [hu] at hr huser
    exact ⟨u, huser, by simpa using hr.2⟩

theorem Reaches.of_not_isOf (h : Reaches S r r') (hr : S.isOf userID r = false) {u : User}
    (hu : r'.user = some u) : u.id ≠ userID := by
  intro hid
  have huser := h.user
  rw [hu] at huser
  by_cases hp : isHealthProbe r = true
  · rw [if_pos hp] at huser
    cases huser
  · rw [if_neg hp] at huser
    simp [Service.isOf, hp, ← huser, hid] at hr

theorem extractKey_user {u : User} (hu : r'.user = some u) : extractKey S.net r' = userKey u.id := by
  rw [extractKey, hu]

theorem extractKey_elsewhere (hu : ∀ u, r'.user = some u → u.id ≠ userID) :
    extractKey S.net r' ≠ userKey userID := by
  unfold extractKey
  split
  · rename_i u hr
    exact fun h => hu u hr (userKey_injective h)
  · exact userKey_ne_ip userID _

/-! ## Steps -/

/-- Two states hold the same of the user. -/
structure Alike (userID : Int64) (s s' : Shared) : Prop where
  limiter : SameFor (userKey userID) s.limiter s'.limiter
  table : Agree userID s.table s'.table

/-- A step of the user's request goes the same way on states that hold the same of the
user, and they still do. -/
theorem step_for (turn : Turn) (env : Encrypted.Env) (hp : p.For S userID)
    (h : Alike userID s s') :
    (S.step (.serve turn env) s p).2 = (S.step (.serve turn env) s' p).2 ∧
      (S.step (.serve turn env) s p).2.For S userID ∧
      Alike userID (S.step (.serve turn env) s p).1 (S.step (.serve turn env) s' p).1 := by
  cases p with
  | answered w => exact ⟨rfl, trivial, h⟩
  | inside w req =>
    obtain ⟨hsame, hacts, hagree⟩ :=
      Api.handler_step_same S.primitives S.masterKey h.table env (show req.ActsFor userID from hp)
    exact ⟨congrArg (S.settle w) hsame, settle_for hacts, h.limiter, hagree⟩
  | arriving r =>
    simp only [Service.step]
    rcases S.entered turn r with ⟨w, henter⟩ | ⟨r', w, hreach, henter⟩
    · rw [henter, henter]
      exact ⟨rfl, trivial, h⟩
    · obtain ⟨u, hu, rfl⟩ := hreach.of_isOf hp
      obtain ⟨hallowed, hsame⟩ := h.limiter.allow turn.now
      rw [henter, henter, extractKey_user hu]
      dsimp only
      rw [hallowed]
      split
      · exact ⟨rfl, dispatch_for hu, hsame, h.table⟩
      · exact ⟨by rw [hsame.tooManyRequests w], trivial, hsame, h.table⟩

/-- Elsewhere rows come and go, and ids are taken. -/
theorem Alike.elsewhere (h : Alike userID s s') {l : Limiter} {t : Configs}
    (hl : SameFor (userKey userID) l s'.limiter)
    (hrows : t.select (ownedBy userID) = s.table.select (ownedBy userID))
    (hlast : s.table.last ≤ t.last) :
    Alike userID ⟨l, t⟩ { s' with table := s'.table.raise t.last } := by
  refine ⟨hl, hrows.trans h.table.rows, ?_⟩
  show t.last = max s'.table.last t.last
  rw [← h.table.last, max_eq_right hlast]

theorem handler_step_elsewhere (P : Crypto.Primitives) (masterKey : Bytes) (env : Encrypted.Env)
    (t : Configs) {req : Api.Handler} (hv : v ≠ userID) (hreq : req.ActsFor v) :
    ((req.step P masterKey env t).1).select (ownedBy userID) = t.select (ownedBy userID) ∧
      t.last ≤ (req.step P masterKey env t).1.last ∧ (req.step P masterKey env t).2.ActsFor v := by
  have hsub : ∀ r, ownedBy userID r = true → (!ownedBy v r) = true := by
    intro r hr
    rw [ownedBy_iff] at hr
    simp [ownedBy, hr, hv.symm]
  refine ⟨?_, ?_, (Api.handler_step_same P masterKey ⟨rfl, rfl⟩ env hreq).2.1⟩
  · have hforeign : foreign v (req.step P masterKey env t).1 = foreign v t :=
      Api.handler_step_foreign env hreq
    rw [AutoTable.select_eq_filter_select hsub, AutoTable.select_eq_filter_select (t := t) hsub]
    exact congrArg (List.filter _) hforeign
  · cases req with
    | responded reply => exact le_refl _
    | calling u op call => exact (VersionToken.commits_evolves (call.step_commits env)).last

/-- A step of anybody else's request leaves what is held of the user, but for the ids. -/
theorem step_elsewhere (turn : Turn) (env : Encrypted.Env) (hp : p.Elsewhere S userID)
    (h : Alike userID s s') :
    (S.step (.serve turn env) s p).2.Elsewhere S userID ∧
      ∃ last, Alike userID (S.step (.serve turn env) s p).1
        { s' with table := s'.table.raise last } := by
  cases p with
  | answered w => exact ⟨trivial, _, h.elsewhere h.limiter rfl (le_refl _)⟩
  | inside w req =>
    obtain ⟨v, hv, hreq⟩ := hp
    obtain ⟨hrows, hlast, hacts⟩ :=
      handler_step_elsewhere S.primitives S.masterKey env s.table hv hreq
    exact ⟨settle_elsewhere hacts hv, _, h.elsewhere h.limiter hrows hlast⟩
  | arriving r =>
    simp only [Service.step]
    rcases S.entered turn r with ⟨w, henter⟩ | ⟨r', w, hreach, henter⟩
    · rw [henter]
      exact ⟨trivial, _, h.elsewhere h.limiter rfl (le_refl _)⟩
    · have hother : ∀ u, r'.user = some u → u.id ≠ userID := fun u => hreach.of_not_isOf hp
      have hl := h.limiter.allow_other turn.now (extractKey_elsewhere (S := S) hother)
      rw [henter]
      refine ⟨?_, _, h.elsewhere hl rfl (le_refl _)⟩
      dsimp only
      split
      · exact dispatch_elsewhere hother
      · trivial

end

/-! ## Every run -/

section
variable {ι : Type} {S : Service} {userID : Int64} {requests : ι → Request}
  {full own : Pool Shared ι Proc}

/-- The private server follows the full one. -/
structure Tracks (S : Service) (userID : Int64) (requests : ι → Request)
    (full own : Pool Shared ι Proc) : Prop where
  alike : Alike userID full.shared own.shared
  onlyBucket : ∀ k, k ≠ userKey userID → own.shared.limiter.buckets k = none
  onlyRows : foreign userID own.shared.table = []
  mine : ∀ i, S.isOf userID (requests i) = true →
    full.procs i = own.procs i ∧ (full.procs i).For S userID
  others : ∀ i, S.isOf userID (requests i) = false → (full.procs i).Elsewhere S userID

theorem tracks_arrivals (S : Service) (userID : Int64) (s : Shared) (requests : ι → Request) :
    Tracks S userID requests (arrivals s requests) (arrivals (s.only userID) requests) where
  alike :=
    { limiter := ⟨rfl, rfl, (if_pos rfl).symm⟩
      table := ⟨(AutoTable.select_delete_of_disjoint fun r hr => by simpa using hr).symm, rfl⟩ }
  onlyBucket k hk := if_neg hk
  onlyRows := by
    show (s.table.delete _).select _ = []
    rw [AutoTable.select_delete]
    refine List.filter_eq_nil_iff.mpr fun r hr => ?_
    rw [(AutoTable.mem_select.mp hr).2]
    exact Bool.false_ne_true
  mine i hi := ⟨rfl, hi⟩
  others i hi := hi

/-- The private server holds the rows of the user. -/
theorem Tracks.rows (h : Tracks S userID requests full own) :
    full.shared.table.select (ownedBy userID) = own.shared.table.rows := by
  rw [h.alike.table.rows]
  refine List.filter_eq_self.mpr fun r hr => ?_
  have hnone := List.filter_eq_nil_iff.mp h.onlyRows r hr
  simpa using hnone

variable [DecidableEq ι]

theorem tracks_sweep (h : Tracks S userID requests full own) (i : ι) (now : Int) :
    Tracks S userID requests (Pool.fire S.step full (i, .sweep now))
      (Pool.fire S.step own (i, .sweep now)) := by
  have hfire : ∀ p : Pool Shared ι Proc, Pool.fire S.step p (i, .sweep now) =
      ⟨{ p.shared with limiter := p.shared.limiter.sweep now }, p.procs⟩ :=
    fun p => congrArg (Pool.mk _) (Function.update_eq_self i p.procs)
  rw [hfire, hfire]
  refine ⟨⟨h.alike.limiter.sweep now, h.alike.table⟩, fun k hk => ?_, h.onlyRows, h.mine, h.others⟩
  simp only [Limiter.sweep, h.onlyBucket k hk, Option.filter_none]

/-- A private server's own step leaves it private. -/
theorem step_private (turn : Turn) (env : Encrypted.Env) {s : Shared} {p : Proc}
    (hp : p.For S userID) (hbucket : ∀ k, k ≠ userKey userID → s.limiter.buckets k = none)
    (hrows : foreign userID s.table = []) :
    (∀ k, k ≠ userKey userID → (S.step (.serve turn env) s p).1.limiter.buckets k = none) ∧
      foreign userID (S.step (.serve turn env) s p).1.table = [] := by
  cases p with
  | answered w => exact ⟨hbucket, hrows⟩
  | inside w req =>
    refine ⟨hbucket, ?_⟩
    exact (Api.handler_step_foreign env (show req.ActsFor userID from hp)).trans hrows
  | arriving r =>
    simp only [Service.step]
    rcases S.entered turn r with ⟨w, henter⟩ | ⟨r', w, hreach, henter⟩
    · rw [henter]
      exact ⟨hbucket, hrows⟩
    · obtain ⟨u, hu, rfl⟩ := hreach.of_isOf hp
      obtain ⟨b, hb⟩ := allow_cases s.limiter turn.now (userKey u.id)
      rw [henter, extractKey_user hu]
      refine ⟨fun k hk => ?_, hrows⟩
      dsimp only
      rw [hb]
      exact (Function.update_of_ne hk _ _).trans (hbucket k hk)

theorem tracks_mine (h : Tracks S userID requests full own) {i : ι}
    (hi : S.isOf userID (requests i) = true) (turn : Turn) (env : Encrypted.Env) :
    Tracks S userID requests (Pool.fire S.step full (i, .serve turn env))
      (Pool.fire S.step own (i, .serve turn env)) := by
  obtain ⟨heq, hfor⟩ := h.mine i hi
  obtain ⟨hsame, hfor', halike⟩ := step_for turn env hfor h.alike
  have hown : (own.procs i).For S userID := heq ▸ hfor
  obtain ⟨hbucket, hrows⟩ := step_private turn env hown h.onlyBucket h.onlyRows
  rw [heq] at hsame
  refine ⟨?_, hbucket, hrows, fun j hj => ?_, fun j hj => ?_⟩
  · show Alike userID _ (S.step (.serve turn env) own.shared (own.procs i)).1
    rw [← heq]
    exact halike
  · by_cases hji : j = i
    · subst hji
      rw [Pool.fire_procs_self, Pool.fire_procs_self]
      rw [heq] at hfor' ⊢
      exact ⟨hsame, hfor'⟩
    · rw [Pool.fire_procs_of_ne hji, Pool.fire_procs_of_ne hji]
      exact h.mine j hj
  · have hji : j ≠ i := by
      rintro rfl
      rw [hi] at hj
      cases hj
    rw [Pool.fire_procs_of_ne hji]
    exact h.others j hj

theorem tracks_others (h : Tracks S userID requests full own) {i : ι}
    (hi : S.isOf userID (requests i) = false) (turn : Turn) (env : Encrypted.Env) :
    ∃ last, Tracks S userID requests (Pool.fire S.step full (i, .serve turn env))
      (S.privately own (.idsTaken last)) := by
  obtain ⟨helse, last, halike⟩ := step_elsewhere turn env (h.others i hi) h.alike
  refine ⟨last, halike, h.onlyBucket, h.onlyRows, fun j hj => ?_, fun j hj => ?_⟩
  · have hji : j ≠ i := by
      rintro rfl
      rw [hi] at hj
      cases hj
    rw [Pool.fire_procs_of_ne hji]
    exact h.mine j hj
  · by_cases hji : j = i
    · subst hji
      rw [Pool.fire_procs_self]
      exact helse
    · rw [Pool.fire_procs_of_ne hji]
      exact h.others j hj

theorem tracks_fire (h : Tracks S userID requests full own) (ev : ι × Event) :
    ∃ moves : List (Move ι),
      moves.filterMap Move.shown = (if S.concerns userID requests ev then [ev] else []) ∧
        Tracks S userID requests (Pool.fire S.step full ev) (moves.foldl S.privately own) := by
  obtain ⟨i, ev⟩ := ev
  cases ev with
  | sweep now => exact ⟨[.event (i, .sweep now)], rfl, tracks_sweep h i now⟩
  | serve turn env =>
    cases hi : S.isOf userID (requests i) with
    | true =>
      refine ⟨[.event (i, .serve turn env)], ?_, tracks_mine h hi turn env⟩
      simp [Service.concerns, hi, Move.shown]
    | false =>
      obtain ⟨last, htracks⟩ := tracks_others h hi turn env
      refine ⟨[.idsTaken last], ?_, htracks⟩
      simp [Service.concerns, hi, Move.shown]

/-- Whatever requests come in, in whatever interleaving: what a user's requests get is what
they get from a server that was started with nothing but the user's rows and bucket, and
that has gone through nothing but their own steps, the sweeps, and jumps of the id counter.
The rows and the bucket are the same as well. -/
theorem tenant_has_private_server (S : Service) (userID : Int64) (s : Shared)
    (requests : ι → Request) (events : List (ι × Event)) :
    ∃ moves : List (Move ι),
      moves.filterMap Move.shown = events.filter (S.concerns userID requests) ∧
      (∀ i, S.isOf userID (requests i) = true →
        (Pool.run S.step (arrivals s requests) events).procs i =
          (moves.foldl S.privately (arrivals (s.only userID) requests)).procs i) ∧
      (Pool.run S.step (arrivals s requests) events).shared.table.select (ownedBy userID) =
        (moves.foldl S.privately (arrivals (s.only userID) requests)).shared.table.rows ∧
      (Pool.run S.step (arrivals s requests) events).shared.limiter.buckets (userKey userID) =
        (moves.foldl S.privately
          (arrivals (s.only userID) requests)).shared.limiter.buckets (userKey userID) := by
  obtain ⟨parts, hshown, htracks⟩ := Pool.run_simulated
    (R := Tracks S userID requests) (fun _ _ ev _ _ h => tracks_fire h ev)
    (tracks_arrivals S userID s requests) rfl
  exact ⟨parts.flatten, Pool.filterMap_flatten hshown, fun i hi => (htracks.mine i hi).1, htracks.rows,
    htracks.alike.limiter.bucket⟩

end

end TabbySync.Server
