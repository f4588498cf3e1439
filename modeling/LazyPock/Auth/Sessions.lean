import LazyPock.Machine.Runs
import LazyPock.Schema.Collection
import Mathlib.Data.List.Nodup

/-!
# Refresh sessions

The `_sessions` table of `crates/auth/src/sessions.rs`, and any number of clients that refresh at the
same time (`AuthService::refresh`). A refresh is a sequence of statements, each of them atomic: the
collection check, the conditional claim of the presented token, and then either the insert of its
successor or, if nothing was claimed, a look at why and the revocation of the family when the token
had been used before. Between two statements of one client any statement of another may run, time may
pass, and an account's sessions may be revoked.

Rotation retires the old token and inserts the next one in two statements. So a token is claimed at
most once and a family has at most one live session in every run (`Sessions.families_stay_safe`), but
a revocation that falls between the two misses the session that is about to be inserted.

The table is read through its unique index, as a map from token hashes. What a session says about the
client (`user_agent`, `ip`) is left out. Tokens and families are drawn at random; here they are new.

## Main definitions

* `Sessions.Session`, `Sessions.Table` and its statements: `claim`, `insert`,
  `revokeFamily`, `revokeForUser`, `purgeExpired`.
* `Sessions.State`, `Sessions.Action`, `Sessions.step`.
* `Sessions.Settled`: no rotation is in flight where a revocation strikes.

## Main results

* `Sessions.families_stay_safe`, `Sessions.revoked_family_revives`.
-/

namespace LazyPock.Sessions

open List

/-! ### The table -/

/-- A row of `_sessions`. -/
structure Session where
  id : String
  /-- The collection id, empty for a superuser: `NULL` in the table, by `nullif`. -/
  collectionId : String
  /-- The account's record or superuser id. -/
  userId : String
  tokenHash : String
  /-- Rotations of one login share a family. -/
  familyId : String
  /-- When the refresh token stops being accepted. -/
  expiresAt : Int
  revokedAt : Option Int
deriving DecidableEq

/-- The account of a session. -/
def Session.account (session : Session) : String × String :=
  (session.collectionId, session.userId)

/-- A session that was neither rotated nor revoked. -/
def Session.Live (session : Session) : Prop := session.revokedAt = none

instance (session : Session) : Decidable session.Live :=
  inferInstanceAs (Decidable (session.revokedAt = none))

/-- `_sessions` by the hash of the token. -/
abbrev Table := String → Option Session

namespace Table

variable (table : Table)

/-- `update _sessions set revoked_at = now() where … and revoked_at is null` -/
def revokeWhere (p : Session → Bool) (now : Int) : Table := fun hash =>
  (table hash).map fun session =>
    if p session ∧ session.Live then { session with revokedAt := some now } else session

/-- Revoke every session in a family. -/
def revokeFamily (familyId : String) (now : Int) : Table :=
  table.revokeWhere (fun session => session.familyId = familyId) now

/-- Revoke every session for an account. -/
def revokeForUser (collectionId userId : String) (now : Int) : Table :=
  table.revokeWhere (fun session => session.account = (collectionId, userId)) now

/-- The session that a claim of a token would retire. -/
def claimable (hash : String) (now : Int) : Option Session :=
  (table hash).filter fun session => session.Live ∧ now < session.expiresAt

/-- Retire the session of a token. -/
def claim (hash : String) (now : Int) : Table := fun h =>
  if h = hash then
    (table h).map fun session => { session with revokedAt := some now }
  else table h

/-- Insert a session. -/
def insert (session : Session) : Table := fun hash =>
  if hash = session.tokenHash then some session else table hash

/-- Delete the sessions past their expiry. -/
def purgeExpired (now : Int) : Table := fun hash =>
  (table hash).filter fun session => ¬ session.expiresAt < now

end Table

/-- `REFRESH_TOKEN_TTL`, in microseconds. -/
def refreshTokenTtl : Int := 30 * 24 * 60 * 60 * 1000000

/-- The session that a login or a rotation inserts. -/
def newSession (id collectionId userId familyId tokenHash : String) (now : Int) : Session :=
  ⟨id, collectionId, userId, tokenHash, familyId, now + refreshTokenTtl, none⟩

/-- `superuser::COLLECTION` -/
def superusersCollection : String := "_superusers"

/-- Whether a session belongs to the collection of the endpoint. -/
def Session.matchesCollection (session : Session) (collections : List Collection)
    (expected : String) : Bool :=
  -- A superuser session belongs to the `_superusers` path and to no other.
  if session.collectionId = "" then expected = superusersCollection
  else collections.any fun collection =>
    collection.id = session.collectionId && collection.name = expected

/-! ### Clients -/

/-- Where a refresh stands, between two of its statements. -/
inductive Phase where
  | idle
  /-- The collection check comes next. -/
  | peeking (hash expected : String)
  /-- The claim comes next. -/
  | claiming (hash : String)
  /-- The session was claimed, its successor is not there yet. -/
  | claimed (session : Session)
  /-- Nothing was claimed. -/
  | unclaimed (hash : String)
  /-- A used token was presented, its family is about to be revoked. -/
  | replayed (session : Session)
deriving DecidableEq

/-- The database, the clients, and what has happened so far. -/
structure State (κ : Type) where
  now : Int
  sessions : Table
  phase : κ → Phase
  /-- The hashes of all tokens issued. -/
  issued : List String
  /-- The families with the account that logged in. -/
  logins : List (String × (String × String))
  /-- The hashes of the tokens claimed. -/
  claims : List String
  /-- The families of which a replay was answered, or whose account was revoked after the login. -/
  ended : List String

/-- One statement, or time passing. -/
inductive Action (κ : Type) where
  | wait (micros : Nat)
  | login (id collectionId userId familyId tokenHash : String)
  | start (client : κ) (hash : String) (expected : Option String)
  | peek (client : κ)
  | claim (client : κ)
  | insert (client : κ) (id tokenHash : String)
  | lookup (client : κ)
  | revokeFamily (client : κ)
  | revokeForUser (collectionId userId : String)
  | purgeExpired
  /-- A refresh ends with an error, or its client is gone. -/
  | abort (client : κ)

section Machine

variable {κ : Type} [DecidableEq κ]

def init (κ : Type) : State κ := ⟨0, fun _ => none, fun _ => .idle, [], [], [], []⟩

def State.setPhase (s : State κ) (client : κ) (phase : Phase) : State κ :=
  { s with phase := Function.update s.phase client phase }

variable (collections : List Collection)

/-- The state after a statement, where it can be run. -/
@[grind =]
def step (s : State κ) : Action κ → Option (State κ)
  | .wait micros => some { s with now := s.now + micros }
  | .login id collectionId userId familyId tokenHash =>
    if familyId ∈ s.logins.map Prod.fst ∨ tokenHash ∈ s.issued then none
    else some { s with
      sessions := s.sessions.insert (newSession id collectionId userId familyId tokenHash s.now)
      issued := tokenHash :: s.issued
      logins := (familyId, (collectionId, userId)) :: s.logins }
  | .start client hash expected =>
    match s.phase client with
    | .idle => some (s.setPhase client (match expected with
        | some expected => .peeking hash expected
        | none => .claiming hash))
    | _ => none
  | .peek client =>
    match s.phase client with
    | .peeking hash expected => some (s.setPhase client (match s.sessions hash with
        | some session =>
          if session.matchesCollection collections expected then .claiming hash else .idle
        | none => .idle))
    | _ => none
  | .claim client =>
    match s.phase client with
    | .claiming hash =>
      match s.sessions.claimable hash s.now with
      | some session => some { s.setPhase client (.claimed session) with
          sessions := s.sessions.claim hash s.now
          claims := hash :: s.claims }
      | none => some (s.setPhase client (.unclaimed hash))
    | _ => none
  | .insert client id tokenHash =>
    match s.phase client with
    | .claimed session =>
      if tokenHash ∈ s.issued then none
      else some { s.setPhase client .idle with
        sessions := s.sessions.insert (newSession id session.collectionId session.userId
          session.familyId tokenHash s.now)
        issued := tokenHash :: s.issued }
    | _ => none
  | .lookup client =>
    match s.phase client with
    | .unclaimed hash => some (s.setPhase client (match s.sessions hash with
        | some session => if session.Live then .idle else .replayed session
        | none => .idle))
    | _ => none
  | .revokeFamily client =>
    match s.phase client with
    | .replayed session => some { s.setPhase client .idle with
        sessions := s.sessions.revokeFamily session.familyId s.now
        ended := session.familyId :: s.ended }
    | _ => none
  | .revokeForUser collectionId userId => some { s with
      sessions := s.sessions.revokeForUser collectionId userId s.now
      ended := (s.logins.filter fun login =>
        login.2 = (collectionId, userId)).map Prod.fst ++ s.ended }
  | .purgeExpired => some { s with sessions := s.sessions.purgeExpired s.now }
  | .abort client => some (s.setPhase client .idle)

/-- One step of the machine. -/
def Step (s : State κ) (a : Action κ) (t : State κ) : Prop := step collections s a = some t

/-- No rotation stands between its two statements where a revocation strikes. -/
@[grind =]
def Settled (s : State κ) : Action κ → Prop
  | .revokeFamily client => ∀ x, s.phase client = .replayed x →
      ∀ k y, s.phase k = .claimed y → y.familyId ≠ x.familyId
  | .revokeForUser collectionId userId =>
      ∀ k y, s.phase k = .claimed y → y.account ≠ (collectionId, userId)
  | _ => True

end Machine

/-! ### What the statements do -/

/-- The sessions afterwards are some of those before, none of them revived. -/
def Shrinks (before after : Table) : Prop :=
  ∀ h y, after h = some y → ∃ x, before h = some x ∧ y.familyId = x.familyId ∧
    y.account = x.account ∧ (y.Live → x.Live)

section Tables

variable {table : Table} {h : String} {y : Session} {now : Int}

theorem Shrinks.refl (table : Table) : Shrinks table table :=
  fun _ y hy => ⟨y, hy, rfl, rfl, fun h => h⟩

theorem revokeWhere_eq_some {p : Session → Bool} (hy : table.revokeWhere p now h = some y) :
    ∃ x, table h = some x ∧ y.familyId = x.familyId ∧ y.account = x.account ∧
      (y.Live → x.Live) ∧ (p x = true → ¬ y.Live) := by
  simp only [Table.revokeWhere, Option.map_eq_some_iff] at hy
  obtain ⟨x, hx, rfl⟩ := hy
  by_cases hp : p x = true ∧ x.Live
  · rw [if_pos hp]
    exact ⟨x, hx, rfl, rfl, fun _ => hp.2, fun _ hlive => by cases hlive⟩
  · rw [if_neg hp]
    exact ⟨x, hx, rfl, rfl, fun hlive => hlive, fun hpx hlive => hp ⟨hpx, hlive⟩⟩

theorem shrinks_revokeWhere (p : Session → Bool) : Shrinks table (table.revokeWhere p now) := by
  intro h y hy
  obtain ⟨x, hx, hfamily, haccount, hlive, -⟩ := revokeWhere_eq_some hy
  exact ⟨x, hx, hfamily, haccount, hlive⟩

theorem claim_eq_some {hash : String} (hy : table.claim hash now h = some y) :
    ∃ x, table h = some x ∧ y.familyId = x.familyId ∧ y.account = x.account ∧
      (y.Live → x.Live ∧ h ≠ hash) := by
  by_cases hh : h = hash
  · simp only [Table.claim, hh, ↓reduceIte, Option.map_eq_some_iff] at hy
    obtain ⟨x, hx, rfl⟩ := hy
    exact ⟨x, hh ▸ hx, rfl, rfl, fun hlive => by cases hlive⟩
  · simp only [Table.claim, hh, ↓reduceIte] at hy
    exact ⟨y, hy, rfl, rfl, fun hlive => ⟨hlive, hh⟩⟩

theorem shrinks_purgeExpired : Shrinks table (table.purgeExpired now) := by
  intro h y hy
  exact ⟨y, (Option.filter_eq_some_iff.mp hy).1, rfl, rfl, fun hlive => hlive⟩

theorem insert_eq_some {session : Session} :
    table.insert session h = some y ↔
      (h = session.tokenHash ∧ y = session) ∨ (h ≠ session.tokenHash ∧ table h = some y) := by
  by_cases hh : h = session.tokenHash
  · simp [Table.insert, hh, eq_comm]
  · simp [Table.insert, hh]

end Tables

/-! ### The invariant -/

section Invariant

variable {κ : Type} {s t : State κ}

/-- What holds of every reachable state. -/
structure Inv (s : State κ) : Prop where
  issued : ∀ h x, s.sessions h = some x → h ∈ s.issued
  claims : ∀ h ∈ s.claims, h ∈ s.issued
  once : s.claims.Nodup
  spent : ∀ h ∈ s.claims, ∀ x, s.sessions h = some x → ¬ x.Live
  families : (s.logins.map Prod.fst).Nodup
  account : ∀ h x, s.sessions h = some x → (x.familyId, x.account) ∈ s.logins
  claimed : ∀ k x, s.phase k = .claimed x → (x.familyId, x.account) ∈ s.logins
  replayed : ∀ k x, s.phase k = .replayed x → (x.familyId, x.account) ∈ s.logins
  ended : ∀ f ∈ s.ended, f ∈ s.logins.map Prod.fst
  /-- A family has one live session, -/
  oneLive : ∀ h h' x y, s.sessions h = some x → s.sessions h' = some y → x.Live → y.Live →
    x.familyId = y.familyId → h = h'
  /-- or one rotation in flight, -/
  oneFlight : ∀ k k' x y, s.phase k = .claimed x → s.phase k' = .claimed y →
    x.familyId = y.familyId → k = k'
  /-- but not both. -/
  notBoth : ∀ h k x y, s.sessions h = some x → x.Live → s.phase k = .claimed y →
    x.familyId ≠ y.familyId

theorem inv_init : Inv (init κ) where
  issued := by simp [init]
  claims := by simp [init]
  once := nodup_nil
  spent := by simp [init]
  families := nodup_nil
  account := by simp [init]
  claimed := by simp [init]
  replayed := by simp [init]
  ended := by simp [init]
  oneLive := by simp [init]
  oneFlight := by simp [init]
  notBoth := by simp [init]

/-- Two logins of one family are the same. -/
theorem Inv.account_unique (hinv : Inv s) {f : String} {a b : String × String}
    (ha : (f, a) ∈ s.logins) (hb : (f, b) ∈ s.logins) : a = b := by
  have hpair := inj_on_of_nodup_map hinv.families ha hb rfl
  exact (Prod.mk.inj hpair).2

/-- What one statement can do to the table and the clients. -/
inductive Effect (s : State κ) (a : Action κ) (t : State κ) : Prop
  /-- Sessions are revoked or deleted, or nothing happens to them. -/
  | shrink (hsessions : Shrinks s.sessions t.sessions) (hissued : t.issued = s.issued)
      (hlogins : t.logins = s.logins) (hclaims : t.claims = s.claims)
      (hclaimed : ∀ k x, t.phase k = .claimed x → s.phase k = .claimed x)
      (hreplayed : ∀ k x, t.phase k = .replayed x →
        s.phase k = .replayed x ∨ ∃ h, s.sessions h = some x)
      (hended : ∀ f ∈ t.ended, f ∈ s.ended ∨ (f ∈ s.logins.map Prod.fst ∧
        (∀ h y, t.sessions h = some y → y.familyId = f → ¬ y.Live) ∧
        (Settled s a → ∀ k x, s.phase k = .claimed x → x.familyId ≠ f)))
  | login (session : Session) (hlive : session.Live)
      (hfamily : session.familyId ∉ s.logins.map Prod.fst) (hhash : session.tokenHash ∉ s.issued)
      (ht : t = { s with
        sessions := s.sessions.insert session
        issued := session.tokenHash :: s.issued
        logins := (session.familyId, session.account) :: s.logins })
  | claim (client : κ) (hash : String) (session : Session)
      (hsession : s.sessions hash = some session) (hlive : session.Live)
      (hsessions : t.sessions = s.sessions.claim hash s.now) (hissued : t.issued = s.issued)
      (hlogins : t.logins = s.logins) (hclaims : t.claims = hash :: s.claims)
      (hended : t.ended = s.ended)
      (hphase : ∀ k, (t.phase k = .claimed session ∧ k = client) ∨
        (t.phase k = s.phase k ∧ k ≠ client))
  | insert (client : κ) (old session : Session) (hclient : s.phase client = .claimed old)
      (hlive : session.Live) (hfamily : session.familyId = old.familyId)
      (haccount : session.account = old.account) (hhash : session.tokenHash ∉ s.issued)
      (hsessions : t.sessions = s.sessions.insert session)
      (hissued : t.issued = session.tokenHash :: s.issued)
      (hlogins : t.logins = s.logins) (hclaims : t.claims = s.claims) (hended : t.ended = s.ended)
      (hphase : ∀ k, (t.phase k = .idle ∧ k = client) ∨ (t.phase k = s.phase k ∧ k ≠ client))

variable [DecidableEq κ]

theorem setPhase_phase (s : State κ) (client : κ) (phase : Phase) (k : κ) :
    (s.setPhase client phase).phase k = if k = client then phase else s.phase k := by
  by_cases hk : k = client
  · subst hk
    simp [State.setPhase]
  · simp [State.setPhase, hk]

variable {client : κ}

/-- A client that goes on without touching the table. -/
theorem effect_setPhase {a : Action κ} {phase : Phase}
    (hclaimed : ∀ x, phase ≠ .claimed x)
    (hreplayed : ∀ x, phase = .replayed x → ∃ h, s.sessions h = some x) :
    Effect s a (s.setPhase client phase) := by
  refine .shrink (Shrinks.refl _) rfl rfl rfl ?_ ?_ (fun f hf => .inl hf)
  · intro k x hk
    rw [setPhase_phase] at hk
    split at hk
    · exact absurd hk (hclaimed x)
    · exact hk
  · intro k x hk
    rw [setPhase_phase] at hk
    split at hk
    · exact .inr (hreplayed x hk)
    · exact .inl hk

variable {collections : List Collection}

theorem effect_claim (h : Step collections s (.claim client) t) :
    Effect s (.claim client) t := by
  simp only [Step, step] at h
  split at h
  · rename_i hash hclient
    cases hclaimable : s.sessions.claimable hash s.now with
    | none =>
      rw [hclaimable] at h
      simp only [Option.some.injEq] at h
      subst h
      exact effect_setPhase (fun x hx => by cases hx) (fun x hx => by cases hx)
    | some session =>
      rw [hclaimable] at h
      simp only [Option.some.injEq] at h
      subst h
      obtain ⟨hsession, hlive⟩ := Option.filter_eq_some_iff.mp hclaimable
      refine .claim client hash session hsession (of_decide_eq_true hlive).1 rfl rfl rfl rfl rfl ?_
      intro k
      have hphase := setPhase_phase s client (.claimed session) k
      by_cases hk : k = client
      · rw [if_pos hk] at hphase
        exact .inl ⟨hphase, hk⟩
      · rw [if_neg hk] at hphase
        exact .inr ⟨hphase, hk⟩
  · cases h

theorem effect_insert {id tokenHash : String}
    (h : Step collections s (.insert client id tokenHash) t) :
    Effect s (.insert client id tokenHash) t := by
  simp only [Step, step] at h
  split at h
  · rename_i old hclient
    split at h
    · cases h
    · rename_i hhash
      rw [Option.some.injEq] at h
      subst h
      refine .insert client old (newSession id old.collectionId old.userId old.familyId tokenHash
        s.now) hclient rfl rfl rfl hhash rfl rfl rfl rfl rfl ?_
      intro k
      have hphase := setPhase_phase s client .idle k
      by_cases hk : k = client
      · rw [if_pos hk] at hphase
        exact .inl ⟨hphase, hk⟩
      · rw [if_neg hk] at hphase
        exact .inr ⟨hphase, hk⟩
  · cases h

theorem effect_lookup (h : Step collections s (.lookup client) t) :
    Effect s (.lookup client) t := by
  simp only [Step, step] at h
  split at h
  · rename_i hash hclient
    rw [Option.some.injEq] at h
    subst h
    cases hsession : s.sessions hash with
    | none => exact effect_setPhase (fun x hx => by cases hx) (fun x hx => by cases hx)
    | some session =>
      refine effect_setPhase (fun x hx => ?_) (fun x hx => ⟨hash, ?_⟩)
      · simp only at hx
        split at hx <;> cases hx
      · simp only at hx
        split at hx
        · cases hx
        · rw [Phase.replayed.injEq] at hx
          exact hx ▸ hsession
  · cases h

theorem effect_revokeFamily (hinv : Inv s)
    (h : Step collections s (.revokeFamily client) t) : Effect s (.revokeFamily client) t := by
  simp only [Step, step] at h
  split at h
  · rename_i session hclient
    rw [Option.some.injEq] at h
    subst h
    have hphase := setPhase_phase s client .idle
    refine .shrink (shrinks_revokeWhere _) rfl rfl rfl ?_ ?_ ?_
    · intro k x hk
      have hk' := (hphase k).symm.trans hk
      split at hk'
      · cases hk'
      · exact hk'
    · intro k x hk
      have hk' := (hphase k).symm.trans hk
      split at hk'
      · cases hk'
      · exact .inl hk'
    · intro f hf
      rcases mem_cons.mp hf with rfl | hf
      · refine .inr ⟨mem_map_of_mem (hinv.replayed client session hclient), ?_, ?_⟩
        · intro h y hy hfamily
          obtain ⟨x, hx, hxfamily, -, -, hdead⟩ := revokeWhere_eq_some hy
          exact hdead (decide_eq_true (hxfamily ▸ hfamily))
        · exact fun hsettled k x hk => hsettled session hclient k x hk
      · exact .inl hf
  · cases h

theorem effect_revokeForUser (hinv : Inv s) {collectionId userId : String}
    (h : Step collections s (.revokeForUser collectionId userId) t) :
    Effect s (.revokeForUser collectionId userId) t := by
  simp only [Step, step, Option.some.injEq] at h
  subst h
  refine .shrink (shrinks_revokeWhere _) rfl rfl rfl (fun _ _ h => h) (fun _ _ h => .inl h) ?_
  intro f hf
  rcases mem_append.mp hf with hf | hf
  · obtain ⟨⟨f, account⟩, hlogin, rfl⟩ := mem_map.mp hf
    obtain ⟨hlogin, haccount⟩ := mem_filter.mp hlogin
    replace haccount : account = (collectionId, userId) := of_decide_eq_true haccount
    subst haccount
    refine .inr ⟨mem_map_of_mem hlogin, ?_, ?_⟩
    · rintro h y hy rfl
      obtain ⟨x, hx, hfamily, -, -, hdead⟩ := revokeWhere_eq_some hy
      have hx' := hinv.account h x hx
      rw [← hfamily] at hx'
      exact hdead (decide_eq_true (hinv.account_unique hx' hlogin))
    · rintro hsettled k x hk rfl
      exact hsettled k x hk (hinv.account_unique (hinv.claimed k x hk) hlogin)
  · exact .inl hf

/-- **Every statement has one of these effects.** -/
theorem effect_of_step (hinv : Inv s) {a : Action κ} (h : Step collections s a t) :
    Effect s a t := by
  cases a with
  | wait micros =>
    simp only [Step, step, Option.some.injEq] at h
    subst h
    exact .shrink (Shrinks.refl _) rfl rfl rfl (fun _ _ h => h) (fun _ _ h => .inl h)
      (fun f hf => .inl hf)
  | login id collectionId userId familyId tokenHash =>
    simp only [Step, step] at h
    split at h
    · cases h
    · rename_i hfresh
      obtain ⟨hfamily, hhash⟩ := not_or.mp hfresh
      rw [Option.some.injEq] at h
      exact .login (newSession id collectionId userId familyId tokenHash s.now) rfl hfamily hhash
        h.symm
  | start client hash expected =>
    simp only [Step, step] at h
    split at h
    · rw [Option.some.injEq] at h
      subst h
      cases expected <;>
        exact effect_setPhase (fun x hx => by cases hx) (fun x hx => by cases hx)
    · cases h
  | peek client =>
    simp only [Step, step] at h
    split at h
    · rw [Option.some.injEq] at h
      subst h
      split
      · split <;> exact effect_setPhase (fun x hx => by cases hx) (fun x hx => by cases hx)
      · exact effect_setPhase (fun x hx => by cases hx) (fun x hx => by cases hx)
    · cases h
  | claim client => exact effect_claim h
  | insert client id tokenHash => exact effect_insert h
  | lookup client => exact effect_lookup h
  | revokeFamily client => exact effect_revokeFamily hinv h
  | revokeForUser collectionId userId => exact effect_revokeForUser hinv h
  | purgeExpired =>
    simp only [Step, step, Option.some.injEq] at h
    subst h
    exact .shrink shrinks_purgeExpired rfl rfl rfl (fun _ _ h => h) (fun _ _ h => .inl h)
      (fun f hf => .inl hf)
  | abort client =>
    simp only [Step, step, Option.some.injEq] at h
    subst h
    exact effect_setPhase (fun x hx => by cases hx) (fun x hx => by cases hx)

/-! ### Preservation -/

omit [DecidableEq κ] in
theorem inv_of_shrink (hinv : Inv s) (hsessions : Shrinks s.sessions t.sessions)
    (hissued : t.issued = s.issued) (hlogins : t.logins = s.logins) (hclaims : t.claims = s.claims)
    (hclaimed : ∀ k x, t.phase k = .claimed x → s.phase k = .claimed x)
    (hreplayed : ∀ k x, t.phase k = .replayed x →
      s.phase k = .replayed x ∨ ∃ h, s.sessions h = some x)
    (hended : ∀ f ∈ t.ended, f ∈ s.logins.map Prod.fst) : Inv t where
  issued := by
    intro h y hy
    obtain ⟨x, hx, -⟩ := hsessions h y hy
    exact hissued ▸ hinv.issued h x hx
  claims := by
    rw [hclaims, hissued]
    exact hinv.claims
  once := hclaims ▸ hinv.once
  spent := by
    intro h hh y hy hlive
    obtain ⟨x, hx, -, -, hx'⟩ := hsessions h y hy
    exact hinv.spent h (hclaims ▸ hh) x hx (hx' hlive)
  families := hlogins ▸ hinv.families
  account := by
    intro h y hy
    obtain ⟨x, hx, hfamily, haccount, -⟩ := hsessions h y hy
    rw [hlogins, hfamily, haccount]
    exact hinv.account h x hx
  claimed := by
    intro k x hk
    rw [hlogins]
    exact hinv.claimed k x (hclaimed k x hk)
  replayed := by
    intro k x hk
    rw [hlogins]
    rcases hreplayed k x hk with hk | ⟨h, hx⟩
    · exact hinv.replayed k x hk
    · exact hinv.account h x hx
  ended := by
    rw [hlogins]
    exact hended
  oneLive := by
    intro h h' y y' hy hy' hlive hlive' hfamily
    obtain ⟨x, hx, hxfamily, -, hxlive⟩ := hsessions h y hy
    obtain ⟨x', hx', hxfamily', -, hxlive'⟩ := hsessions h' y' hy'
    exact hinv.oneLive h h' x x' hx hx' (hxlive hlive) (hxlive' hlive')
      (hxfamily.symm.trans (hfamily.trans hxfamily'))
  oneFlight := fun k k' x y hk hk' =>
    hinv.oneFlight k k' x y (hclaimed k x hk) (hclaimed k' y hk')
  notBoth := by
    intro h k y z hy hlive hk
    obtain ⟨x, hx, hxfamily, -, hxlive⟩ := hsessions h y hy
    rw [hxfamily]
    exact hinv.notBoth h k x z hx (hxlive hlive) (hclaimed k z hk)

omit [DecidableEq κ] in
theorem inv_of_login (hinv : Inv s) {session : Session}
    (hfamily : session.familyId ∉ s.logins.map Prod.fst) (hhash : session.tokenHash ∉ s.issued) :
    Inv { s with
      sessions := s.sessions.insert session
      issued := session.tokenHash :: s.issued
      logins := (session.familyId, session.account) :: s.logins } where
  issued := by
    intro h x hx
    rcases insert_eq_some.mp hx with ⟨rfl, -⟩ | ⟨-, hx⟩
    · exact mem_cons_self
    · exact mem_cons_of_mem _ (hinv.issued h x hx)
  claims := fun h hh => mem_cons_of_mem _ (hinv.claims h hh)
  once := hinv.once
  spent := by
    intro h hh x hx
    rcases insert_eq_some.mp hx with ⟨rfl, -⟩ | ⟨-, hx⟩
    · exact absurd (hinv.claims _ hh) hhash
    · exact hinv.spent h hh x hx
  families := by
    rw [map_cons, nodup_cons]
    exact ⟨hfamily, hinv.families⟩
  account := by
    intro h x hx
    rcases insert_eq_some.mp hx with ⟨-, rfl⟩ | ⟨-, hx⟩
    · exact mem_cons_self
    · exact mem_cons_of_mem _ (hinv.account h x hx)
  claimed := fun k x hk => mem_cons_of_mem _ (hinv.claimed k x hk)
  replayed := fun k x hk => mem_cons_of_mem _ (hinv.replayed k x hk)
  ended := fun f hf => mem_cons_of_mem _ (hinv.ended f hf)
  oneLive := by
    have hnew : ∀ h x, s.sessions h = some x → x.familyId ≠ session.familyId := fun h x hx heq =>
      hfamily (heq ▸ mem_map_of_mem (hinv.account h x hx))
    intro h h' x y hx hy hlive hlive' heq
    rcases insert_eq_some.mp hx with ⟨rfl, rfl⟩ | ⟨-, hold⟩
    · rcases insert_eq_some.mp hy with ⟨rfl, -⟩ | ⟨-, hold'⟩
      · rfl
      · exact absurd heq.symm (hnew h' y hold')
    · rcases insert_eq_some.mp hy with ⟨rfl, rfl⟩ | ⟨-, hold'⟩
      · exact absurd heq (hnew h x hold)
      · exact hinv.oneLive h h' x y hold hold' hlive hlive' heq
  oneFlight := hinv.oneFlight
  notBoth := by
    intro h k x y hx hlive hk heq
    rcases insert_eq_some.mp hx with ⟨-, rfl⟩ | ⟨-, hx⟩
    · exact hfamily (heq ▸ mem_map_of_mem (hinv.claimed k y hk))
    · exact hinv.notBoth h k x y hx hlive hk heq

omit [DecidableEq κ] in
theorem inv_of_claim (hinv : Inv s) {hash : String} {session : Session}
    (hsession : s.sessions hash = some session) (hlive : session.Live)
    (hsessions : t.sessions = s.sessions.claim hash s.now) (hissued : t.issued = s.issued)
    (hlogins : t.logins = s.logins) (hclaims : t.claims = hash :: s.claims)
    (hended : t.ended = s.ended)
    (hphase : ∀ k, (t.phase k = .claimed session ∧ k = client) ∨
      (t.phase k = s.phase k ∧ k ≠ client)) : Inv t where
  issued := by
    intro h y hy
    obtain ⟨x, hx, -⟩ := claim_eq_some (hsessions ▸ hy)
    exact hissued ▸ hinv.issued h x hx
  claims := by
    rw [hclaims, hissued]
    exact forall_mem_cons.mpr ⟨hinv.issued hash session hsession, hinv.claims⟩
  once := by
    rw [hclaims, nodup_cons]
    exact ⟨fun hmem => hinv.spent hash hmem session hsession hlive, hinv.once⟩
  spent := by
    intro h hh y hy hylive
    obtain ⟨x, hx, -, -, hx'⟩ := claim_eq_some (hsessions ▸ hy)
    obtain ⟨hxlive, hne⟩ := hx' hylive
    rw [hclaims] at hh
    exact hinv.spent h ((mem_cons.mp hh).resolve_left hne) x hx hxlive
  families := hlogins ▸ hinv.families
  account := by
    intro h y hy
    obtain ⟨x, hx, hfamily, haccount, -⟩ := claim_eq_some (hsessions ▸ hy)
    rw [hlogins, hfamily, haccount]
    exact hinv.account h x hx
  claimed := by
    intro k x hk
    rw [hlogins]
    rcases hphase k with ⟨hk', -⟩ | ⟨hk', -⟩
    · rw [hk', Phase.claimed.injEq] at hk
      exact hk ▸ hinv.account hash session hsession
    · exact hinv.claimed k x (hk' ▸ hk)
  replayed := by
    intro k x hk
    rw [hlogins]
    rcases hphase k with ⟨hk', -⟩ | ⟨hk', -⟩
    · rw [hk'] at hk
      cases hk
    · exact hinv.replayed k x (hk' ▸ hk)
  ended := by
    rw [hended, hlogins]
    exact hinv.ended
  oneLive := by
    intro h h' y y' hy hy' hylive hylive' heq
    obtain ⟨x, hx, hfamily, -, hxlive⟩ := claim_eq_some (hsessions ▸ hy)
    obtain ⟨x', hx', hfamily', -, hxlive'⟩ := claim_eq_some (hsessions ▸ hy')
    exact hinv.oneLive h h' x x' hx hx' (hxlive hylive).1 (hxlive' hylive').1
      (hfamily.symm.trans (heq.trans hfamily'))
  oneFlight := by
    intro k k' x y hk hk' heq
    rcases hphase k with ⟨hphasek, rfl⟩ | ⟨hphasek, -⟩
    · rcases hphase k' with ⟨-, rfl⟩ | ⟨hphasek', -⟩
      · rfl
      · rw [hphasek, Phase.claimed.injEq] at hk
        exact absurd (hk ▸ heq) (hinv.notBoth hash k' session y hsession hlive (hphasek' ▸ hk'))
    · rcases hphase k' with ⟨hphasek', -⟩ | ⟨hphasek', -⟩
      · rw [hphasek', Phase.claimed.injEq] at hk'
        exact absurd (hk' ▸ heq.symm)
          (hinv.notBoth hash k session x hsession hlive (hphasek ▸ hk))
      · exact hinv.oneFlight k k' x y (hphasek ▸ hk) (hphasek' ▸ hk') heq
  notBoth := by
    intro h k y z hy hylive hk heq
    obtain ⟨x, hx, hfamily, -, hx'⟩ := claim_eq_some (hsessions ▸ hy)
    obtain ⟨hxlive, hne⟩ := hx' hylive
    rcases hphase k with ⟨hk', -⟩ | ⟨hk', -⟩
    · -- The claimed session was the family's live one.
      rw [hk', Phase.claimed.injEq] at hk
      exact hne (hinv.oneLive h hash x session hx hsession hxlive hlive
        (hfamily.symm.trans (hk ▸ heq)))
    · exact hinv.notBoth h k x z hx hxlive (hk' ▸ hk) (hfamily ▸ heq)

omit [DecidableEq κ] in
theorem inv_of_insert (hinv : Inv s) {old session : Session}
    (hclient : s.phase client = .claimed old) (hfamily : session.familyId = old.familyId)
    (haccount : session.account = old.account) (hhash : session.tokenHash ∉ s.issued)
    (hsessions : t.sessions = s.sessions.insert session)
    (hissued : t.issued = session.tokenHash :: s.issued)
    (hlogins : t.logins = s.logins) (hclaims : t.claims = s.claims) (hended : t.ended = s.ended)
    (hphase : ∀ k, (t.phase k = .idle ∧ k = client) ∨ (t.phase k = s.phase k ∧ k ≠ client)) :
    Inv t := by
  have hkept : ∀ k phase, t.phase k = phase → phase ≠ .idle → s.phase k = phase ∧ k ≠ client := by
    intro k phase hk hne
    rcases hphase k with ⟨hidle, -⟩ | ⟨hsame, hclient⟩
    · exact absurd (hk.symm.trans hidle) hne
    · exact ⟨hsame.symm.trans hk, hclient⟩
  -- The family has no live session while its rotation is in flight.
  have hfresh : ∀ h x, s.sessions h = some x → x.Live → x.familyId ≠ session.familyId := by
    intro h x hx hxlive
    rw [hfamily]
    exact hinv.notBoth h client x old hx hxlive hclient
  exact {
    issued := by
      intro h x hx
      rw [hissued]
      rcases insert_eq_some.mp (hsessions ▸ hx) with ⟨rfl, -⟩ | ⟨-, hx⟩
      · exact mem_cons_self
      · exact mem_cons_of_mem _ (hinv.issued h x hx)
    claims := by
      rw [hclaims, hissued]
      exact fun h hh => mem_cons_of_mem _ (hinv.claims h hh)
    once := hclaims ▸ hinv.once
    spent := by
      intro h hh x hx
      rw [hclaims] at hh
      rcases insert_eq_some.mp (hsessions ▸ hx) with ⟨rfl, -⟩ | ⟨-, hx⟩
      · exact absurd (hinv.claims _ hh) hhash
      · exact hinv.spent h hh x hx
    families := hlogins ▸ hinv.families
    account := by
      intro h x hx
      rw [hlogins]
      rcases insert_eq_some.mp (hsessions ▸ hx) with ⟨-, rfl⟩ | ⟨-, hx⟩
      · rw [hfamily, haccount]
        exact hinv.claimed client old hclient
      · exact hinv.account h x hx
    claimed := by
      intro k x hk
      rw [hlogins]
      exact hinv.claimed k x (hkept k _ hk (by simp)).1
    replayed := by
      intro k x hk
      rw [hlogins]
      exact hinv.replayed k x (hkept k _ hk (by simp)).1
    ended := by
      rw [hended, hlogins]
      exact hinv.ended
    oneLive := by
      intro h h' x y hx hy hxlive hylive heq
      rcases insert_eq_some.mp (hsessions ▸ hx) with ⟨rfl, rfl⟩ | ⟨-, hx⟩
      · rcases insert_eq_some.mp (hsessions ▸ hy) with ⟨rfl, -⟩ | ⟨-, hy⟩
        · rfl
        · exact absurd heq.symm (hfresh h' y hy hylive)
      · rcases insert_eq_some.mp (hsessions ▸ hy) with ⟨rfl, rfl⟩ | ⟨-, hy⟩
        · exact absurd heq (hfresh h x hx hxlive)
        · exact hinv.oneLive h h' x y hx hy hxlive hylive heq
    oneFlight := fun k k' x y hk hk' => hinv.oneFlight k k' x y (hkept k _ hk (by simp)).1
      (hkept k' _ hk' (by simp)).1
    notBoth := by
      intro h k x y hx hxlive hk heq
      obtain ⟨hk, hne⟩ := hkept k _ hk (by simp)
      rcases insert_eq_some.mp (hsessions ▸ hx) with ⟨-, rfl⟩ | ⟨-, hx⟩
      · exact hne (hinv.oneFlight k client y old hk hclient (heq.symm.trans hfamily))
      · exact hinv.notBoth h k x y hx hxlive hk heq }

theorem inv_step (hinv : Inv s) {a : Action κ} (h : Step collections s a t) : Inv t := by
  rcases effect_of_step hinv h with
    ⟨hsessions, hissued, hlogins, hclaims, hclaimed, hreplayed, hended⟩ |
    ⟨session, -, hfamily, hhash, rfl⟩ |
    ⟨client, hash, session, hsession, hlive, hsessions, hissued, hlogins, hclaims, hended, hphase⟩ |
    ⟨client, old, session, hclient, -, hfamily, haccount, hhash, hsessions, hissued, hlogins,
      hclaims, hended, hphase⟩
  · exact inv_of_shrink hinv hsessions hissued hlogins hclaims hclaimed hreplayed
      fun f hf => (hended f hf).elim (hinv.ended f) And.left
  · exact inv_of_login hinv hfamily hhash
  · exact inv_of_claim hinv hsession hlive hsessions hissued hlogins hclaims hended hphase
  · exact inv_of_insert hinv hclient hfamily haccount hhash hsessions hissued hlogins hclaims
      hended hphase

/-! ### Families that have ended -/

/-- Every token was claimed at most once. -/
def ClaimedOnce (s : State κ) : Prop := s.claims.Nodup

/-- A family has at most one live session. -/
def OneLive (s : State κ) : Prop :=
  ∀ h h' x y, s.sessions h = some x → s.sessions h' = some y → x.Live → y.Live →
    x.familyId = y.familyId → h = h'

/-- No session of a family is live after one of its tokens was replayed, or after the account of
its login was revoked. -/
def EndedStayDead (s : State κ) : Prop :=
  ∀ h x, s.sessions h = some x → x.familyId ∈ s.ended → ¬ x.Live

/-- The families that have ended are at rest: they have no rotation in flight either. -/
structure AtRest (s : State κ) : Prop where
  inv : Inv s
  dead : EndedStayDead s
  calm : ∀ k x, s.phase k = .claimed x → x.familyId ∉ s.ended

omit [DecidableEq κ] in
theorem atRest_init : AtRest (init κ) where
  inv := inv_init
  dead := by simp [EndedStayDead, init]
  calm := by simp [init]

theorem atRest_step (hrest : AtRest s) {a : Action κ} (hsettled : Settled s a)
    (h : Step collections s a t) : AtRest t := by
  suffices hboth : EndedStayDead t ∧ ∀ k x, t.phase k = .claimed x → x.familyId ∉ t.ended from
    ⟨inv_step hrest.inv h, hboth.1, hboth.2⟩
  rcases effect_of_step hrest.inv h with
    ⟨hsessions, -, -, -, hclaimed, -, hended⟩ |
    ⟨session, -, hfamily, -, rfl⟩ |
    ⟨client, hash, session, hsession, hlive, hsessions, -, -, -, hended, hphase⟩ |
    ⟨client, old, session, hclient, -, hfamily, -, -, hsessions, -, -, -, hended, hphase⟩
  · refine ⟨fun h y hy hf hylive => ?_, fun k x hk hf => ?_⟩
    · rcases hended _ hf with hf | ⟨-, hdead, -⟩
      · obtain ⟨x, hx, hxfamily, -, hxlive⟩ := hsessions h y hy
        exact hrest.dead h x hx (hxfamily ▸ hf) (hxlive hylive)
      · exact hdead h y hy rfl hylive
    · rcases hended _ hf with hf | ⟨-, -, hcalm⟩
      · exact hrest.calm k x (hclaimed k x hk) hf
      · exact hcalm hsettled k x (hclaimed k x hk) rfl
  · refine ⟨fun h y hy hf => ?_, hrest.calm⟩
    rcases insert_eq_some.mp hy with ⟨-, rfl⟩ | ⟨-, hold⟩
    · exact absurd (hrest.inv.ended _ hf) hfamily
    · exact hrest.dead h y hold hf
  · refine ⟨fun h y hy hf hylive => ?_, fun k x hk hf => ?_⟩
    · obtain ⟨x, hx, hxfamily, -, hxlive⟩ := claim_eq_some (hsessions ▸ hy)
      exact hrest.dead h x hx (hxfamily ▸ hended ▸ hf) (hxlive hylive).1
    · rcases hphase k with ⟨hk', -⟩ | ⟨hk', -⟩
      · -- A family that has ended has nothing to claim.
        rw [hk', Phase.claimed.injEq] at hk
        exact hrest.dead hash session hsession (hk ▸ hended ▸ hf) hlive
      · exact hrest.calm k x (hk' ▸ hk) (hended ▸ hf)
  · refine ⟨fun h y hy hf => ?_, fun k x hk hf => ?_⟩
    · rcases insert_eq_some.mp (hsessions ▸ hy) with ⟨-, rfl⟩ | ⟨-, hold⟩
      · exact absurd (hfamily ▸ hended ▸ hf) (hrest.calm client old hclient)
      · exact hrest.dead h y hold (hended ▸ hf)
    · rcases hphase k with ⟨hidle, -⟩ | ⟨hk', -⟩
      · rw [hidle] at hk
        cases hk
      · exact hrest.calm k x (hk' ▸ hk) (hended ▸ hf)

open Machine in
/-- **Families under every interleaving.** In every run a token is claimed at most once and a family
has at most one live session. In every run whose revocations strike while no rotation of the family
or account is in flight, what they end stays dead. -/
theorem families_stay_safe {actions : List (Action κ)} {s : State κ}
    (hrun : Run (Step collections) (init κ) actions s) :
    ClaimedOnce s ∧ OneLive s ∧
      (Run (When Settled (Step collections)) (init κ) actions s → EndedStayDead s) := by
  have hinv : Inv s := hrun.invariant (fun _ _ _ hs h => inv_step hs h) inv_init
  refine ⟨hinv.once, hinv.oneLive, fun hsettled => ?_⟩
  have hrest : AtRest s :=
    hsettled.invariant (fun _ _ _ hs (h : When Settled _ _ _ _) => atRest_step hs h.1 h.2)
      atRest_init
  exact hrest.dead

end Invariant

/-! ### Two runs -/

section Runs

open Machine

/-- A login, a rotation, and a second use of the first token. -/
def reuseRun : List (Action Unit) :=
  [.login "s1" "users" "u1" "f1" "t1", .start () "t1" none, .claim (), .insert () "s2" "t2",
    .start () "t1" none, .claim (), .lookup ()]

/-- The answer to the second use ends the family. -/
theorem reuse_ends_family :
    ∃ s, Run (Step []) (init Unit) (reuseRun ++ [.revokeFamily ()]) s ∧ "f1" ∈ s.ended ∧
      (s.sessions "t2").isSome = true ∧ EndedStayDead s := by
  have hexec : (exec (step []) (init Unit) reuseRun).map
      (fun s => (s.phase (), (s.sessions "t2").isSome)) =
      some (.replayed ⟨"s1", "users", "u1", "t1", "f1", refreshTokenTtl, some 0⟩, true) := by
    decide
  obtain ⟨s, hs, hobserved⟩ := Option.map_eq_some_iff.mp hexec
  obtain ⟨hphase, hsession⟩ := Prod.mk.inj hobserved
  have hrun : Run (Step []) (init Unit) reuseRun s := run_of_exec hs
  have hlast : Step [] s (.revokeFamily ()) { s.setPhase () .idle with
      sessions := s.sessions.revokeFamily "f1" s.now
      ended := "f1" :: s.ended } := by
    rw [Step, step, hphase]
  have hsettled : Settled s (.revokeFamily ()) := by
    intro x _ k y hk
    rw [hphase] at hk
    cases hk
  refine ⟨_, hrun.append (.cons hlast (.nil _)), mem_cons_self, ?_, ?_⟩
  · simpa [Table.revokeFamily, Table.revokeWhere] using hsession
  · have hbefore : Run (When Settled (Step [])) (init Unit) reuseRun s :=
      hrun.when (by simp [reuseRun, Settled])
    exact (families_stay_safe (hrun.append (.cons hlast (.nil _)))).2.2
      (hbefore.append (.cons ⟨hsettled, hlast⟩ (.nil _)))

/-- A login, and a rotation that is overtaken by a revocation of the account's sessions. -/
def overtakenRun : List (Action Unit) :=
  [.login "s1" "users" "u1" "f1" "t1", .start () "t1" none, .claim (),
    .revokeForUser "users" "u1", .insert () "s2" "t2"]

/-- **A revoked account keeps a session.** The successor is inserted behind the revocation. -/
theorem revoked_family_revives :
    ¬ ∀ (actions : List (Action Unit)) (s : State Unit),
      Run (Step []) (init Unit) actions s → ClaimedOnce s ∧ OneLive s ∧ EndedStayDead s := by
  intro h
  have hexec : (exec (step []) (init Unit) overtakenRun).map
      (fun s => (s.sessions "t2", s.ended)) =
      some (some ⟨"s2", "users", "u1", "t2", "f1", refreshTokenTtl, none⟩, ["f1"]) := by
    decide
  obtain ⟨s, hs, hobserved⟩ := Option.map_eq_some_iff.mp hexec
  obtain ⟨hsession, hended⟩ := Prod.mk.inj hobserved
  have hdead := (h overtakenRun s (run_of_exec hs)).2.2 "t2" _ hsession
  exact hdead (by rw [hended]; exact mem_cons_self) rfl

end Runs

end LazyPock.Sessions
