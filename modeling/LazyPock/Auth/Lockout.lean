import LazyPock.Auth.Emails
import Mathlib.Data.List.Perm.Basic

/-!
# The account lockout

Signing in with a password (`auth_with_password` of `crates/api/src/auth.rs`) behind the lockout of
`crates/api/src/rate_limit.rs`. An attempt asks whether its account is locked, then the password is
checked, and then the failure is counted or the count is cleared. The first and the last are critical
sections of their own, and the check between them waits for the database, so any number of attempts
can be anywhere in between.

An account is counted under a key, the spelling of the collection and the identity in lower case. The
check finds it by other means: the collection by name or id, and the identity by `lower` of the
database.

So an account may have many keys, and attempts that were let through are not counted until they fail.
`guesses_bounded` says that the limit holds in every run in which neither happens.

A critical section reads the clock once. The superusers are accounts too, of a collection of their own.

## Main definitions

* `Lockout.Buckets`, with `isLocked`, `recordFailure` and `clear`.
* `Lockout.accountKey`, `Lockout.Request.check`.
* `Lockout.State`, `Lockout.Action`, `Lockout.step`.
* `Lockout.Guesses`: the wrong passwords that were checked against one account.
* `Lockout.Identified`, `Lockout.Reserved`.

## Main results

* `Lockout.guesses_bounded`, `Lockout.guesses_exceed`.
-/

namespace LazyPock.Lockout

open Machine Text

/-! ### Counts of failures -/

/-- `ACCOUNT_LOCKOUT_WINDOW`, in microseconds. -/
def accountLockoutWindow : Int := 15 * 60 * 1000000

/-- `SWEEP_AT` -/
def sweepAt : ℕ := 10000

structure Count where
  used : ℕ
  started : Int
deriving DecidableEq

/-- The window of a count is not over. -/
def Count.Live (count : Count) (now : Int) : Prop := now - count.started < accountLockoutWindow

instance (count : Count) (now : Int) : Decidable (count.Live now) :=
  inferInstanceAs (Decidable (_ < _))

/-- The counts by account. -/
structure Buckets where
  counts : List (String × Count)
  sorted : Assoc.Sorted counts
  /-- When the map was last swept. -/
  swept : Int

namespace Buckets

variable (buckets : Buckets) (limit : ℕ) (key : String) (now : Int)

def find : Option Count := Assoc.lookup key buckets.counts

/-- Drop keys whose window has passed, once there are enough to be worth walking. -/
def sweep : Buckets :=
  if buckets.counts.length < sweepAt ∨ now - buckets.swept < accountLockoutWindow then buckets
  else ⟨buckets.counts.filter fun entry => entry.2.Live now, buckets.sorted.filter _, now⟩

def insert (count : Count) : Buckets :=
  ⟨Assoc.insert key count buckets.counts, buckets.sorted.insert key count, buckets.swept⟩

/-- The buckets after a critical section swept them. Zero disables the lockout. -/
def visited : Buckets := if limit = 0 then buckets else buckets.sweep now

/-- Whether a key has exhausted its failures, and how long until it recovers. -/
def isLocked : Except Int Unit :=
  if limit = 0 then .ok ()
  else match (buckets.sweep now).find key with
    | some count =>
      if limit ≤ count.used ∧ count.Live now then
        .error (accountLockoutWindow - (now - count.started))
      else .ok ()
    | none => .ok ()

/-- Count one failed attempt. -/
@[grind =]
def recordFailure : Buckets :=
  if limit = 0 then buckets
  else match (buckets.sweep now).find key with
    | some count =>
      if count.Live now then (buckets.sweep now).insert key ⟨count.used + 1, count.started⟩
      else (buckets.sweep now).insert key ⟨1, now⟩
    | none => (buckets.sweep now).insert key ⟨1, now⟩

/-- Forget the failures of a key. -/
def clear : Buckets :=
  if limit = 0 then buckets
  else ⟨buckets.counts.filter fun entry => entry.1 ≠ key, buckets.sorted.filter _, buckets.swept⟩

/-- The count of a key whose window is not over. -/
def current : Option Count := (buckets.find key).filter fun count => count.Live now

end Buckets

/-! ### The credential check -/

/-- A row of an auth table or of `_superusers`, as the check reads it. -/
structure Account where
  id : String
  email : Option String
  passwordHash : Option String
deriving DecidableEq

/-- What the check uses of other programs. -/
structure Env where
  /-- `lower` of the database. -/
  lower : String → String
  /-- `password::verify` -/
  verify : String → String → Bool
  /-- What a password is verified against where there is no account. -/
  dummyHash : String

/-- The accounts of each table. -/
abbrev Tables := String → List Account

/-- What is submitted to sign in. -/
structure Request where
  collection : String
  identity : String
  password : String
deriving DecidableEq

/-- `account_key` -/
def accountKey (collection identity : String) : String :=
  collection ++ ":" ++ String.ofList ((trim identity).toList.map Sql.asciiLower)

def Request.key (request : Request) : String := accountKey request.collection request.identity

/-- An account by its table and its id. -/
abbrev AccountRef := String × String

section Model

variable (env : Env) (schema : Schema)

/-- The table that a path signs in to. -/
def credentialTable (collection : String) : Result String :=
  if collection = Sessions.superusersCollection then .ok collection
  else do
    let resolved ← schema.resolve collection
    failIf (¬ resolved.collection.collectionType.isAuth)
      (.notFound ("no auth collection named " ++ debug collection))
    .ok resolved.collection.name

/-- `select … where lower("email") = lower($1)`, of at most one row. -/
def lookup (tables : Tables) (table identity : String) : Result (Option Account) :=
  match (tables table).filter fun account =>
      account.email.any fun email => env.lower email = env.lower (trim identity) with
  | [] => .ok none
  | [account] => .ok (some account)
  | _ => .error (.internal "database error: query returned an unexpected number of rows")

/-- Whether the password is the account's. -/
def verified (found : Option Account) (password : String) : Bool :=
  env.verify password ((found.bind Account.passwordHash).getD env.dummyHash)

/-- The end of `authenticate_superuser` and `authenticate_record`: the password is verified, and a
session is issued. -/
def authenticate (found : Option Account) (password : String) (issue : Result Unit) :
    Result Account :=
  match found.filter fun _ => verified env found password with
  | none => .error (.unauthorized "invalid email or password")
  | some account => issue.map fun _ => account

/-- What came of an attempt that was let through. -/
structure Verdict where
  /-- The account whose password was checked. -/
  account : Option AccountRef
  outcome : Result Account
deriving DecidableEq

/-- The password was wrong. Only a `401` counts: an internal error is not a wrong password. -/
def Verdict.refused (verdict : Verdict) : Bool :=
  match verdict.outcome with
  | .ok _ => false
  | .error e => e.status = 401

/-- The credential check. The client and the query may fail, and so may the issue of a session. -/
def Request.check (request : Request) (tables : Tables) (query issue : Result Unit) :
    Result Verdict := do
  let table ← credentialTable schema request.collection
  query
  let found ← lookup env tables table request.identity
  .ok ⟨found.map fun account => (table, account.id),
    authenticate env found request.password issue⟩

/-- `record_credential_outcome` -/
@[grind =]
def recordCredentialOutcome (limit : ℕ) (buckets : Buckets) (key : String) (now : Int) :
    Result Account → Buckets
  | .ok _ => buckets.clear limit key
  | .error e => if e.status = 401 then buckets.recordFailure limit key now else buckets

/-! ### Runs -/

/-- An attempt that was let through, and what came of it. -/
structure Flight where
  request : Request
  verdict : Option Verdict
deriving DecidableEq

/-- The wrong passwords that were checked against an account. -/
structure Guesses where
  /-- When the failures began that are counted together. -/
  window : Option Int
  /-- The wrong passwords since then, with those whose failure was still to be counted. -/
  tried : ℕ
deriving DecidableEq

/-- The beginning of the window, until it is over. -/
def Guesses.current (guesses : Guesses) (now : Int) : Option Int :=
  guesses.window.filter fun started => now - started < accountLockoutWindow

/-- A password was checked. -/
def Guesses.check (guesses : Guesses) (wrong : Bool) (now : Int) : Guesses :=
  if wrong ∧ (guesses.current now).isSome then { guesses with tried := guesses.tried + 1 }
  else guesses

/-- A failure was counted: the first of a window begins it. -/
def Guesses.fail (guesses : Guesses) (underway : ℕ) (now : Int) : Guesses :=
  if (guesses.current now).isSome then guesses else ⟨some now, underway⟩

/-- A correct password was presented. -/
def Guesses.clear : Guesses := ⟨none, 0⟩

/-- One node: its clock, the accounts, the counts and the attempts it is busy with. -/
structure State where
  now : Int
  tables : Tables
  buckets : Buckets
  flights : List Flight
  /-- What was tried against the account that is watched. -/
  guesses : Guesses

inductive Action where
  | tick (d : ℕ)
  /-- Accounts are created, changed and deleted. -/
  | accounts (tables : Tables)
  /-- An attempt asks whether its account is locked. -/
  | ask (request : Request)
  /-- The password of an attempt is checked. -/
  | check (flight : Flight) (query issue : Result Unit)
  /-- The outcome of an attempt is recorded. -/
  | record (flight : Flight)

variable (limit : ℕ) (watched : AccountRef)

/-- A wrong password that was checked against the account. -/
def Verdict.wrongFor (verdict : Verdict) : Bool :=
  verdict.account = some watched && verdict.refused

/-- The wrong passwords whose failure is still to be counted. -/
def State.underway (s : State) : ℕ :=
  s.flights.countP fun flight => flight.verdict.any (·.wrongFor watched)

@[grind =]
def Guesses.record (guesses : Guesses) (verdict : Verdict) (underway : ℕ) (now : Int) : Guesses :=
  if verdict.account = some watched then
    match verdict.outcome with
    | .ok _ => .clear
    | .error e => if e.status = 401 then guesses.fail underway now else guesses
  else guesses

/-- The state after a password was checked. -/
def State.checked (s : State) (flight : Flight) (verdict : Verdict) : State :=
  { s with
    flights := ⟨flight.request, some verdict⟩ :: s.flights.erase flight
    guesses := s.guesses.check (verdict.wrongFor watched) s.now }

/-- The state after an outcome was recorded. -/
def State.recorded (s : State) (flight : Flight) (verdict : Verdict) : State :=
  { s with
    buckets := recordCredentialOutcome limit s.buckets flight.request.key s.now verdict.outcome
    flights := s.flights.erase flight
    guesses := s.guesses.record watched verdict (s.underway watched) s.now }

@[grind =]
def step (s : State) : Action → Option State
  | .tick d => some { s with now := s.now + d }
  | .accounts tables => some { s with tables := tables }
  | .ask request => some { s with
      buckets := s.buckets.visited limit s.now
      flights := match s.buckets.isLocked limit request.key s.now with
        | .ok () => ⟨request, none⟩ :: s.flights
        | .error _ => s.flights }
  | .check flight query issue =>
    if flight ∈ s.flights ∧ flight.verdict = none then
      match flight.request.check env schema s.tables query issue with
      | .error _ => some { s with flights := s.flights.erase flight }
      | .ok verdict => some (s.checked watched flight verdict)
    else none
  | .record flight =>
    if flight ∈ s.flights then flight.verdict.map fun verdict =>
      s.recorded limit watched flight verdict
    else none

/-- The steps of a node with a limit. -/
def Steps (s : State) (a : Action) (t : State) : Prop := step env schema limit watched s a = some t

/-! ### When the limit holds -/

/-- The failures that are counted under a key. -/
def State.used (s : State) (key : String) : ℕ :=
  ((s.buckets.current key s.now).map Count.used).getD 0

/-- The attempts under a key that were let through and have no outcome recorded. -/
def State.inFlight (s : State) (key : String) : ℕ :=
  s.flights.countP fun flight => flight.request.key = key

/-- The key stands for the account: a password is checked against the account exactly by the attempts
under the key. -/
def Identified (key : String) (s : State) : Action → Prop
  | .check flight query issue =>
    ∀ verdict ∈ (flight.request.check env schema s.tables query issue).toOption,
      (verdict.account = some watched ↔ flight.request.key = key)
  | _ => True

instance (key : String) (s : State) (a : Action) :
    Decidable (Identified env schema watched key s a) :=
  match a with
  | .check flight query issue => inferInstanceAs (Decidable (∀ verdict ∈
      (flight.request.check env schema s.tables query issue).toOption,
        (verdict.account = some watched ↔ flight.request.key = key)))
  | .tick _ | .accounts _ | .ask _ | .record _ => .isTrue trivial

/-- No attempt under the key is let through beside so many that they may exhaust the limit. -/
def Reserved (key : String) (s : State) : Action → Prop
  | .ask request => request.key = key → s.buckets.isLocked limit request.key s.now = .ok () →
      s.used key + s.inFlight key < limit
  | _ => True

instance (key : String) (s : State) (a : Action) : Decidable (Reserved limit key s a) :=
  match a with
  | .ask request => inferInstanceAs (Decidable (request.key = key →
      s.buckets.isLocked limit request.key s.now = .ok () → s.used key + s.inFlight key < limit))
  | .tick _ | .accounts _ | .check _ _ _ | .record _ => .isTrue trivial

/-- Nothing was counted, and nobody is signing in. -/
structure State.Initial (s : State) : Prop where
  uncounted : s.buckets.counts = []
  quiet : s.flights = []
  untried : s.guesses = .clear

/-- The attempts that were checked against the account are those under the key. -/
def Told (key : String) (s : State) : Prop :=
  ∀ flight ∈ s.flights, ∀ verdict, flight.verdict = some verdict →
    (verdict.account = some watched ↔ flight.request.key = key)

/-- What is between an attempt that is let through and its count. -/
structure Inv (key : String) (s : State) : Prop where
  budget : s.used key + s.inFlight key ≤ limit
  told : Told watched key s
  bounded : s.guesses.tried ≤ limit
  covered : (s.guesses.current s.now).isSome = true →
    s.guesses.tried ≤ s.used key + s.underway watched
  /-- The window of the count is the window of the account. -/
  window : s.guesses.current s.now = (s.buckets.current key s.now).map Count.started

end Model

/-! ### What the critical sections do to a count -/

section Buckets

variable {buckets : Buckets} {limit : ℕ} {key other : String} {now : Int}

namespace Buckets

theorem find_insert_self (count : Count) : (buckets.insert key count).find key = some count :=
  Assoc.lookup_insert_self key count buckets.counts

theorem find_insert_of_ne (h : other ≠ key) (count : Count) :
    (buckets.insert key count).find other = buckets.find other :=
  Assoc.lookup_insert_of_ne h count buckets.counts

/-- A sweep drops no count whose window is not over. -/
@[simp] theorem current_sweep : (buckets.sweep now).current key now = buckets.current key now := by
  unfold sweep
  split_ifs
  · rfl
  · simp only [current, find, buckets.sorted.lookup_filter, Option.filter_filter, Bool.and_self]

@[simp] theorem current_visited :
    (buckets.visited limit now).current key now = buckets.current key now := by
  unfold visited
  split_ifs
  · rfl
  · exact current_sweep

theorem current_insert_of_ne (h : other ≠ key) (count : Count) :
    (buckets.insert key count).current other now = buckets.current other now := by
  rw [current, find_insert_of_ne h, current]

theorem current_insert_self {count : Count} (h : count.Live now) :
    (buckets.insert key count).current key now = some count := by
  rw [current, find_insert_self, Option.filter_some, if_pos (by simpa using h)]

/-- A failure is counted once, under its key. -/
theorem current_recordFailure_of_ne (h : other ≠ key) :
    (buckets.recordFailure limit key now).current other now = buckets.current other now := by
  unfold recordFailure
  split_ifs
  · rfl
  · split
    · split_ifs
      · rw [current_insert_of_ne h, current_sweep]
      · rw [current_insert_of_ne h, current_sweep]
    · rw [current_insert_of_ne h, current_sweep]

theorem live_now (now : Int) (used : ℕ) : Count.Live ⟨used, now⟩ now := by
  show now - now < accountLockoutWindow
  rw [sub_self]
  decide

theorem current_recordFailure_of_some {count : Count} (hlimit : limit ≠ 0)
    (h : buckets.current key now = some count) :
    (buckets.recordFailure limit key now).current key now =
      some ⟨count.used + 1, count.started⟩ := by
  rw [← current_sweep] at h
  obtain ⟨hfind, hlive⟩ := Option.filter_eq_some_iff.mp h
  have hlive : count.Live now := by simpa using hlive
  simp only [recordFailure, if_neg hlimit, hfind, if_pos hlive]
  exact current_insert_self hlive

theorem current_recordFailure_of_none (hlimit : limit ≠ 0) (h : buckets.current key now = none) :
    (buckets.recordFailure limit key now).current key now = some ⟨1, now⟩ := by
  rw [← current_sweep] at h
  simp only [recordFailure, if_neg hlimit]
  cases hfind : (buckets.sweep now).find key with
  | none => exact current_insert_self (live_now now 1)
  | some count =>
    have hdead : ¬ count.Live now := by
      simpa [current, hfind, Option.filter_some] using h
    simp only [if_neg hdead]
    exact current_insert_self (live_now now 1)

theorem current_clear_of_ne (h : other ≠ key) :
    (buckets.clear limit key).current other now = buckets.current other now := by
  unfold clear
  split_ifs
  · rfl
  · simp [current, find, buckets.sorted.lookup_filter, h]

theorem current_clear_self (hlimit : limit ≠ 0) :
    (buckets.clear limit key).current key now = none := by
  simp [clear, hlimit, current, find, buckets.sorted.lookup_filter]

/-- A count lasts until its window is over. -/
theorem current_tick (d : ℕ) : buckets.current key (now + d) =
    (buckets.current key now).filter fun count => count.Live (now + d) := by
  rw [current, current, Option.filter_filter]
  congr 1
  funext count
  have hlive : count.Live (now + d) → count.Live now := by
    unfold Count.Live
    omega
  by_cases h : count.Live (now + d)
  · simp [h, hlive h]
  · simp [h]

theorem current_tick_cases (buckets : Buckets) (key : String) (now : Int) (d : ℕ) :
    buckets.current key (now + d) = buckets.current key now ∨
      buckets.current key (now + d) = none := by
  rw [current_tick]
  cases buckets.current key now with
  | none => exact .inr rfl
  | some count =>
    by_cases hlive : count.Live (now + d)
    · exact .inl (by simp [Option.filter_some, hlive])
    · exact .inr (by simp [Option.filter_some, hlive])

end Buckets

/-- The outcome of an attempt changes no count but its own. -/
theorem current_recordCredentialOutcome_of_ne (h : other ≠ key) (outcome : Result Account) :
    (recordCredentialOutcome limit buckets key now outcome).current other now =
      buckets.current other now := by
  cases outcome with
  | ok account => exact Buckets.current_clear_of_ne h
  | error e =>
    simp only [recordCredentialOutcome]
    split_ifs
    · exact Buckets.current_recordFailure_of_ne h
    · rfl

end Buckets

/-! ### Attempts in flight -/

section Flights

variable {flights : List Flight} {flight : Flight}

theorem countP_erase (h : flight ∈ flights) (p : Flight → Bool) :
    (flights.erase flight).countP p + (if p flight = true then 1 else 0) = flights.countP p := by
  rw [(List.perm_cons_erase h).countP_eq p, List.countP_cons]

/-- A verdict does not change the attempts under a key. -/
theorem countP_check (h : flight ∈ flights) (next : Flight) (p : Flight → Bool) :
    (next :: flights.erase flight).countP p + (if p flight = true then 1 else 0) =
      flights.countP p + (if p next = true then 1 else 0) := by
  rw [List.countP_cons, ← countP_erase h p]
  omega

end Flights

/-! ### One step -/

section Runs

variable {env : Env} {schema : Schema} {limit : ℕ} {watched : AccountRef} {key : String}
  {s t : State}

theorem Inv.of_initial (h : s.Initial) : Inv limit watched key s := by
  obtain ⟨hcounts, hflights, hguesses⟩ := h
  have hcurrent : s.buckets.current key s.now = none := by
    simp [Buckets.current, Buckets.find, hcounts]
  refine ⟨?_, ?_, ?_, ?_, ?_⟩
  · simp [State.used, State.inFlight, hcurrent, hflights]
  · simp [Told, hflights]
  · simp [hguesses, Guesses.clear]
  · simp [hguesses, Guesses.clear]
  · simp [hguesses, Guesses.clear, Guesses.current, hcurrent]

/-- What is under way is in flight. -/
theorem Told.underway_le (h : Told watched key s) : s.underway watched ≤ s.inFlight key := by
  refine List.countP_mono_left fun flight hflight hwrong => ?_
  obtain ⟨verdict, hverdict, hwrong⟩ := (Option.any_eq_true _ _).mp hwrong
  have haccount : verdict.account = some watched := by
    simp only [Verdict.wrongFor, Bool.and_eq_true, decide_eq_true_eq] at hwrong
    exact hwrong.1
  simpa using (h flight hflight verdict hverdict).mp haccount

theorem Inv.tick (h : Inv limit watched key s) (d : ℕ) :
    Inv limit watched key { s with now := s.now + d } := by
  have hguesses : s.guesses.current (s.now + d) = (s.guesses.current s.now).filter fun started =>
      s.now + d - started < accountLockoutWindow := by
    simp only [Guesses.current, Option.filter_filter]
    congr 1
    funext started
    by_cases hlive : s.now + d - started < accountLockoutWindow
    · have hbefore : s.now - started < accountLockoutWindow := by omega
      simp [hlive, hbefore]
    · simp [hlive]
  have hwindow : s.guesses.current (s.now + d) =
      (s.buckets.current key (s.now + d)).map Count.started := by
    rw [hguesses, h.window, Buckets.current_tick]
    cases s.buckets.current key s.now with
    | none => rfl
    | some count =>
      by_cases hlive : s.now + d - count.started < accountLockoutWindow
      · simp [Option.filter_some, Count.Live, hlive]
      · simp [Option.filter_some, Count.Live, hlive]
  -- The count is still there, or its window is over and with it the account's.
  rcases s.buckets.current_tick_cases key s.now d with hsame | hover
  · have hused : State.used { s with now := s.now + d } key = s.used key := by
      simp only [State.used, hsame]
    refine ⟨?_, h.told, h.bounded, fun hlive => ?_, hwindow⟩
    · rw [hused]
      exact h.budget
    · rw [hused]
      refine h.covered ?_
      rw [h.window, ← hsame, ← hwindow]
      exact hlive
  · have hused : State.used { s with now := s.now + d } key = 0 := by
      simp only [State.used, hover, Option.map_none, Option.getD_none]
    refine ⟨?_, h.told, h.bounded, fun hlive => ?_, hwindow⟩
    · rw [hused]
      exact (Nat.add_le_add_right (Nat.zero_le _) _).trans h.budget
    · rw [hwindow, hover] at hlive
      cases hlive

/-- An attempt asks, and may be let through. -/
theorem Inv.ask {request : Request} (h : Inv limit watched key s)
    (hreserved : Reserved limit key s (.ask request)) {flights : List Flight}
    (hflights : flights = s.flights ∨ flights = ⟨request, none⟩ :: s.flights ∧
      s.buckets.isLocked limit request.key s.now = .ok ()) :
    Inv limit watched key
      { s with buckets := s.buckets.visited limit s.now, flights := flights } := by
  have hused : State.used { s with buckets := s.buckets.visited limit s.now, flights := flights }
      key = s.used key := by
    simp only [State.used, Buckets.current_visited]
  have hwindow : s.guesses.current s.now =
      ((s.buckets.visited limit s.now).current key s.now).map Count.started := by
    rw [Buckets.current_visited]
    exact h.window
  rcases hflights with rfl | ⟨rfl, hpassed⟩
  · exact ⟨hused ▸ h.budget, h.told, h.bounded, hused ▸ h.covered, hwindow⟩
  · refine ⟨?_, ?_, h.bounded, fun hlive => ?_, hwindow⟩
    · rw [hused]
      have hbudget := h.budget
      simp only [State.inFlight, List.countP_cons] at hbudget hreserved ⊢
      by_cases hkey : request.key = key
      · have hroom := hreserved hkey hpassed
        simp only [State.inFlight] at hroom
        simp only [hkey, decide_true, ↓reduceIte]
        omega
      · simp only [hkey, decide_false, Bool.false_eq_true, ↓reduceIte]
        exact hbudget
    · intro flight hflight verdict hverdict
      rcases List.mem_cons.mp hflight with rfl | hflight
      · cases hverdict
      · exact h.told flight hflight verdict hverdict
    · rw [hused]
      exact h.covered hlive

variable {flight : Flight}

/-- An attempt that was not checked leaves. -/
theorem Inv.leave (h : Inv limit watched key s) (hflight : flight ∈ s.flights)
    (hunchecked : flight.verdict = none) :
    Inv limit watched key { s with flights := s.flights.erase flight } := by
  refine ⟨?_, ?_, h.bounded, ?_, h.window⟩
  · have hcount := countP_erase hflight fun flight => flight.request.key = key
    exact (Nat.add_le_add_left (by simp only [State.inFlight]; omega) _).trans h.budget
  · exact fun other hother => h.told other (List.mem_of_mem_erase hother)
  · have hcount := countP_erase hflight fun flight => flight.verdict.any (·.wrongFor watched)
    simp only [hunchecked, Option.any_none, Bool.false_eq_true, ↓reduceIte, add_zero] at hcount
    intro hlive
    simp only [State.underway, hcount]
    exact h.covered hlive

theorem inFlight_checked (watched : AccountRef) (key : String)
    (hflight : flight ∈ s.flights) (verdict : Verdict) :
    (s.checked watched flight verdict).inFlight key = s.inFlight key :=
  Nat.add_right_cancel (countP_check hflight _ fun flight => flight.request.key = key)

theorem underway_checked (watched : AccountRef) (hflight : flight ∈ s.flights)
    (hunchecked : flight.verdict = none) (verdict : Verdict) :
    (s.checked watched flight verdict).underway watched =
      s.underway watched + if verdict.wrongFor watched = true then 1 else 0 := by
  have hcount := countP_check hflight ⟨flight.request, some verdict⟩
    fun flight => flight.verdict.any (·.wrongFor watched)
  simp only [hunchecked, Option.any_none, Option.any_some, Bool.false_eq_true, ↓reduceIte,
    add_zero] at hcount
  exact hcount

theorem Told.checked {verdict : Verdict} (h : Told watched key s)
    (hidentified : verdict.account = some watched ↔ flight.request.key = key) :
    Told watched key (s.checked watched flight verdict) := by
  intro other hother v hv
  rcases List.mem_cons.mp hother with rfl | hother
  · obtain rfl := Option.some.inj hv
    exact hidentified
  · exact h other (List.mem_of_mem_erase hother) v hv

/-- A password is checked: if it is wrong, one more failure is under way. -/
theorem Inv.check {verdict : Verdict} (h : Inv limit watched key s)
    (hflight : flight ∈ s.flights) (hunchecked : flight.verdict = none)
    (hidentified : verdict.account = some watched ↔ flight.request.key = key) :
    Inv limit watched key (s.checked watched flight verdict) := by
  have htold := h.told.checked hidentified
  have hinFlight := inFlight_checked watched key hflight verdict
  have hunderway := underway_checked watched hflight hunchecked verdict
  have hcurrent : (s.checked watched flight verdict).guesses.current s.now =
      s.guesses.current s.now := by
    simp only [State.checked, Guesses.check]
    split_ifs <;> rfl
  have hcovered : (s.guesses.current s.now).isSome = true →
      (s.checked watched flight verdict).guesses.tried ≤
        s.used key + (s.checked watched flight verdict).underway watched := by
    intro hlive
    have hbefore := h.covered hlive
    rw [hunderway]
    simp only [State.checked, Guesses.check, hlive, and_true]
    split_ifs
    · show s.guesses.tried + 1 ≤ _
      omega
    · exact hbefore
  refine ⟨?_, htold, ?_, fun hlive => hcovered (hcurrent ▸ hlive), hcurrent.trans h.window⟩
  · rw [hinFlight]
    exact h.budget
  · by_cases hlive : (s.guesses.current s.now).isSome = true
    · have hbudget := h.budget
      have hle := htold.underway_le
      have htried := hcovered hlive
      omega
    · have hsame : (s.checked watched flight verdict).guesses = s.guesses :=
        if_neg fun hboth => hlive hboth.2
      rw [hsame]
      exact h.bounded

/-! ### The outcome of an attempt -/

section Record

variable {flight : Flight} {verdict : Verdict}

theorem inFlight_recorded (limit : ℕ) (watched : AccountRef) (key : String)
    (hflight : flight ∈ s.flights) (verdict : Verdict) :
    (s.recorded limit watched flight verdict).inFlight key +
      (if flight.request.key = key then 1 else 0) = s.inFlight key := by
  have hcount := countP_erase hflight fun flight => flight.request.key = key
  simp only [decide_eq_true_eq] at hcount
  exact hcount

theorem underway_recorded (limit : ℕ) (watched : AccountRef) (hflight : flight ∈ s.flights)
    (hverdict : flight.verdict = some verdict) :
    (s.recorded limit watched flight verdict).underway watched +
      (if verdict.wrongFor watched = true then 1 else 0) = s.underway watched := by
  have hcount := countP_erase hflight fun flight => flight.verdict.any (·.wrongFor watched)
  simp only [hverdict, Option.any_some] at hcount
  exact hcount

theorem Told.recorded (h : Told watched key s) :
    Told watched key (s.recorded limit watched flight verdict) :=
  fun other hother => h other (List.mem_of_mem_erase hother)

/-- An attempt under another key. -/
theorem Inv.record_of_ne (h : Inv limit watched key s) (hflight : flight ∈ s.flights)
    (hverdict : flight.verdict = some verdict) (hkey : flight.request.key ≠ key) :
    Inv limit watched key (s.recorded limit watched flight verdict) := by
  have haccount : ¬ verdict.account = some watched := fun haccount =>
    hkey ((h.told flight hflight verdict hverdict).mp haccount)
  have hcurrent : (s.recorded limit watched flight verdict).buckets.current key s.now =
      s.buckets.current key s.now := current_recordCredentialOutcome_of_ne hkey.symm _
  have hused : (s.recorded limit watched flight verdict).used key = s.used key := by
    simp only [State.used, State.recorded] at hcurrent ⊢
    rw [hcurrent]
  have hguesses : (s.recorded limit watched flight verdict).guesses = s.guesses :=
    if_neg haccount
  have hinFlight := inFlight_recorded limit watched key hflight verdict
  have hunderway := underway_recorded limit watched hflight hverdict
  have hwrong : ¬ verdict.wrongFor watched = true := by
    simp [Verdict.wrongFor, haccount]
  rw [if_neg hkey, add_zero] at hinFlight
  rw [if_neg hwrong, add_zero] at hunderway
  refine ⟨?_, h.told.recorded, ?_, fun hlive => ?_, ?_⟩
  · rw [hused, hinFlight]
    exact h.budget
  · rw [hguesses]
    exact h.bounded
  · rw [hguesses] at hlive ⊢
    rw [hused, hunderway]
    exact h.covered hlive
  · rw [hguesses]
    exact h.window.trans (congrArg _ hcurrent.symm)

/-- A correct password clears the count. -/
theorem Inv.record_ok {account : Account} (h : Inv limit watched key s) (hflight : flight ∈ s.flights)
    (hverdict : flight.verdict = some verdict) (hkey : flight.request.key = key)
    (houtcome : verdict.outcome = .ok account) :
    Inv limit watched key (s.recorded limit watched flight verdict) := by
  have haccount : verdict.account = some watched :=
    (h.told flight hflight verdict hverdict).mpr hkey
  have hinFlight := inFlight_recorded limit watched key hflight verdict
  rw [if_pos hkey] at hinFlight
  have hbudget := h.budget
  have hlimit : limit ≠ 0 := by omega
  have hcurrent : (s.recorded limit watched flight verdict).buckets.current key s.now = none := by
    simp only [State.recorded, houtcome, recordCredentialOutcome, hkey]
    exact Buckets.current_clear_self hlimit
  have hused : (s.recorded limit watched flight verdict).used key = 0 := by
    show ((Buckets.current _ key s.now).map Count.used).getD 0 = 0
    rw [hcurrent, Option.map_none, Option.getD_none]
  have hguesses : (s.recorded limit watched flight verdict).guesses = .clear := by
    simp only [State.recorded, Guesses.record, if_pos haccount, houtcome]
  refine ⟨?_, h.told.recorded, ?_, fun hlive => ?_, ?_⟩
  · omega
  · rw [hguesses]
    exact Nat.zero_le _
  · rw [hguesses] at hlive
    cases hlive
  · rw [hguesses]
    show none = Option.map Count.started (Buckets.current _ key s.now)
    rw [hcurrent, Option.map_none]

/-- A wrong password is counted, and begins a window if there is none. -/
theorem Inv.record_refused {e : Error} (h : Inv limit watched key s) (hflight : flight ∈ s.flights)
    (hverdict : flight.verdict = some verdict) (hkey : flight.request.key = key)
    (houtcome : verdict.outcome = .error e) (hstatus : e.status = 401) :
    Inv limit watched key (s.recorded limit watched flight verdict) := by
  have haccount : verdict.account = some watched :=
    (h.told flight hflight verdict hverdict).mpr hkey
  have hwrong : verdict.wrongFor watched = true := by
    simp [Verdict.wrongFor, haccount, Verdict.refused, houtcome, hstatus]
  have hinFlight := inFlight_recorded limit watched key hflight verdict
  have hunderway := underway_recorded limit watched hflight hverdict
  rw [if_pos hkey] at hinFlight
  rw [if_pos hwrong] at hunderway
  have hbudget := h.budget
  have hlimit : limit ≠ 0 := by omega
  have hbuckets : (s.recorded limit watched flight verdict).buckets =
      s.buckets.recordFailure limit key s.now := by
    simp only [State.recorded, houtcome, recordCredentialOutcome, if_pos hstatus, hkey]
  have hguesses : (s.recorded limit watched flight verdict).guesses =
      s.guesses.fail (s.underway watched) s.now := by
    simp only [State.recorded, Guesses.record, if_pos haccount, houtcome, if_pos hstatus]
  cases hcount : s.buckets.current key s.now with
  | some count =>
    have hcurrent := Buckets.current_recordFailure_of_some hlimit hcount
    rw [← hbuckets] at hcurrent
    have hbefore : s.used key = count.used := by
      rw [State.used, hcount, Option.map_some, Option.getD_some]
    have hused : (s.recorded limit watched flight verdict).used key = count.used + 1 := by
      show ((Buckets.current _ key s.now).map Count.used).getD 0 = _
      rw [hcurrent, Option.map_some, Option.getD_some]
    have hlive : (s.guesses.current s.now).isSome = true := by
      rw [h.window, hcount]
      rfl
    have hsame : (s.recorded limit watched flight verdict).guesses = s.guesses :=
      hguesses.trans (if_pos hlive)
    refine ⟨?_, h.told.recorded, ?_, fun _ => ?_, ?_⟩
    · omega
    · rw [hsame]
      exact h.bounded
    · have hcovered := h.covered hlive
      rw [hsame]
      omega
    · rw [hsame]
      show s.guesses.current s.now = Option.map Count.started (Buckets.current _ key s.now)
      rw [hcurrent, h.window, hcount, Option.map_some, Option.map_some]
  | none =>
    have hcurrent := Buckets.current_recordFailure_of_none hlimit hcount
    rw [← hbuckets] at hcurrent
    have hbefore : s.used key = 0 := by
      rw [State.used, hcount, Option.map_none, Option.getD_none]
    have hused : (s.recorded limit watched flight verdict).used key = 1 := by
      show ((Buckets.current _ key s.now).map Count.used).getD 0 = _
      rw [hcurrent, Option.map_some, Option.getD_some]
    have hopened : (s.recorded limit watched flight verdict).guesses =
        ⟨some s.now, s.underway watched⟩ := by
      refine hguesses.trans (if_neg ?_)
      rw [h.window, hcount]
      exact Bool.false_ne_true
    have hunder := h.told.underway_le
    refine ⟨?_, h.told.recorded, ?_, fun _ => ?_, ?_⟩
    · omega
    · rw [hopened]
      show s.underway watched ≤ limit
      omega
    · rw [hopened]
      show s.underway watched ≤ _
      omega
    · rw [hopened]
      show Guesses.current ⟨some s.now, _⟩ s.now =
        Option.map Count.started (Buckets.current _ key s.now)
      rw [hcurrent, Option.map_some]
      exact (Option.filter_some ..).trans (if_pos (by simp [accountLockoutWindow]))

/-- An error that is no wrong password is not counted. -/
theorem Inv.record_error {e : Error} (h : Inv limit watched key s) (hflight : flight ∈ s.flights)
    (hverdict : flight.verdict = some verdict) (houtcome : verdict.outcome = .error e)
    (hstatus : e.status ≠ 401) :
    Inv limit watched key (s.recorded limit watched flight verdict) := by
  have hwrong : ¬ verdict.wrongFor watched = true := by
    simp [Verdict.wrongFor, Verdict.refused, houtcome, hstatus]
  have hinFlight := inFlight_recorded limit watched key hflight verdict
  have hunderway := underway_recorded limit watched hflight hverdict
  rw [if_neg hwrong, add_zero] at hunderway
  have hbuckets : (s.recorded limit watched flight verdict).buckets = s.buckets := by
    simp only [State.recorded, houtcome, recordCredentialOutcome, if_neg hstatus]
  have hguesses : (s.recorded limit watched flight verdict).guesses = s.guesses := by
    simp only [State.recorded, Guesses.record, houtcome, if_neg hstatus, ite_self]
  have hused : (s.recorded limit watched flight verdict).used key = s.used key := by
    rw [State.used, hbuckets]
    rfl
  refine ⟨?_, h.told.recorded, ?_, fun hlive => ?_, ?_⟩
  · have hbudget := h.budget
    omega
  · rw [hguesses]
    exact h.bounded
  · rw [hguesses] at hlive ⊢
    rw [hused, hunderway]
    exact h.covered hlive
  · rw [hguesses, hbuckets]
    exact h.window

end Record

/-- One step that meets both conditions. -/
theorem Inv.step {a : Action} (h : Inv limit watched key s)
    (hidentified : Identified env schema watched key s a) (hreserved : Reserved limit key s a)
    (hstep : Steps env schema limit watched s a t) : Inv limit watched key t := by
  cases a with
  | tick d =>
    obtain rfl := Option.some.inj hstep
    exact h.tick d
  | accounts tables =>
    obtain rfl := Option.some.inj hstep
    exact ⟨h.budget, h.told, h.bounded, h.covered, h.window⟩
  | ask request =>
    obtain rfl := Option.some.inj hstep
    refine h.ask hreserved ?_
    cases hlocked : s.buckets.isLocked limit request.key s.now with
    | ok u => exact .inr ⟨rfl, rfl⟩
    | error retryAfter => exact .inl rfl
  | check flight query issue =>
    simp only [Steps, Lockout.step] at hstep
    split at hstep
    · rename_i hflight
      cases hcheck : flight.request.check env schema s.tables query issue with
      | error e =>
        rw [hcheck] at hstep
        obtain rfl := Option.some.inj hstep
        exact h.leave hflight.1 hflight.2
      | ok verdict =>
        rw [hcheck] at hstep
        obtain rfl := Option.some.inj hstep
        exact h.check hflight.1 hflight.2 (hidentified verdict (by rw [hcheck]; rfl))
    · cases hstep
  | record flight =>
    simp only [Steps, Lockout.step] at hstep
    split at hstep
    · rename_i hflight
      obtain ⟨verdict, hverdict, rfl⟩ := Option.map_eq_some_iff.mp hstep
      by_cases hkey : flight.request.key = key
      · cases houtcome : verdict.outcome with
        | ok account => exact h.record_ok hflight hverdict hkey houtcome
        | error e =>
          by_cases hstatus : e.status = 401
          · exact h.record_refused hflight hverdict hkey houtcome hstatus
          · exact h.record_error hflight hverdict houtcome hstatus
      · exact h.record_of_ne hflight hverdict hkey
    · cases hstep

/-- **The lockout bounds guessing** in every run in which the account has one key and no attempt is let
through beside so many that they may exhaust the limit: no more wrong passwords than the limit allows
are checked against the account within a window. -/
theorem guesses_bounded {as : List Action} (hinitial : s.Initial)
    (hrun : Run (When (fun s a => Identified env schema watched key s a ∧ Reserved limit key s a)
      (Steps env schema limit watched)) s as t) : t.guesses.tried ≤ limit := by
  have h : Inv limit watched key t :=
    hrun.invariant (fun _ _ _ h hstep => h.step hstep.1.1 hstep.1.2 hstep.2) (.of_initial hinitial)
  exact h.bounded

end Runs

/-! ### Two keys, and two attempts at once -/

section Examples

/-- A hash is the password itself. -/
def plain : Env where
  lower s := String.ofList (s.toList.map Sql.asciiLower)
  verify password hash := password = hash
  dummyHash := ""

/-- One account, before anybody signs in. -/
def quiet : State where
  now := 0
  tables table := if table = "users" then
    [⟨"ada456789012345", some "ada@example.com", some "correct horse"⟩] else []
  buckets := ⟨[], List.Pairwise.nil, 0⟩
  flights := []
  guesses := .clear

def ada : AccountRef := ("users", "ada456789012345")

theorem quiet_initial : quiet.Initial := ⟨rfl, rfl, rfl⟩

/-- A password is submitted with a spelling of the collection. -/
def guess (collection password : String) : Request := ⟨collection, "Ada@example.com", password⟩

def asked (request : Request) : Flight := ⟨request, none⟩

def refused (request : Request) : Flight :=
  ⟨request, some ⟨some ada, .error (.unauthorized "invalid email or password")⟩⟩

/-- The second guess spells the collection by its id. -/
def twoKeys : List Action :=
  [.ask (guess "users" "1234"), .check (asked (guess "users" "1234")) (.ok ()) (.ok ()),
    .record (refused (guess "users" "1234")), .ask (guess Emails.users.id "5678"),
    .check (asked (guess Emails.users.id "5678")) (.ok ()) (.ok ())]

/-- The second guess asks before the first is counted. -/
def atOnce : List Action :=
  [.ask (guess "users" "1234"), .ask (guess "users" "5678"),
    .check (asked (guess "users" "1234")) (.ok ()) (.ok ()),
    .check (asked (guess "users" "5678")) (.ok ()) (.ok ()),
    .record (refused (guess "users" "1234"))]

/-- **Two wrong passwords where one is allowed**, by two keys of one account, and by two attempts under
one key. -/
theorem guesses_exceed :
    (¬ ∀ (env : Env) (schema : Schema) (limit : ℕ) (watched : AccountRef) (s t : State)
      (as : List Action), 0 < limit → s.Initial → Run (Steps env schema limit watched) s as t →
        t.guesses.tried ≤ limit) ∧
    ¬ ∀ (env : Env) (schema : Schema) (limit : ℕ) (watched : AccountRef) (key : String)
      (s t : State) (as : List Action), 0 < limit → s.Initial →
      Run (When (Identified env schema watched key) (Steps env schema limit watched)) s as t →
        t.guesses.tried ≤ limit := by
  constructor
  · intro hall
    have hexec : (exec (step plain Emails.usersOnly 1 ada) quiet twoKeys).map (·.guesses.tried) =
        some 2 := by decide
    obtain ⟨t, ht, htried⟩ := Option.map_eq_some_iff.mp hexec
    have hle := hall plain Emails.usersOnly 1 ada quiet t twoKeys Nat.one_pos quiet_initial
      (run_of_exec ht)
    omega
  · intro hall
    have hexec : (exec (fun s a => if Identified plain Emails.usersOnly ada "users:ada@example.com" s a
        then step plain Emails.usersOnly 1 ada s a else none) quiet atOnce).map (·.guesses.tried) =
        some 2 := by decide
    obtain ⟨t, ht, htried⟩ := Option.map_eq_some_iff.mp hexec
    have hle := hall plain Emails.usersOnly 1 ada "users:ada@example.com" quiet t atOnce
      Nat.one_pos quiet_initial (run_of_exec_when ht)
    omega

/-- A wrong password, an attempt that is refused, and, after the window, the right one. -/
def oneKey : List Action :=
  [.ask (guess "users" "1234"), .check (asked (guess "users" "1234")) (.ok ()) (.ok ()),
    .record (refused (guess "users" "1234")), .ask (guess "users" "5678"), .tick 900000000,
    .ask (guess "users" "correct horse")]

/-- One wrong password, and one attempt that is let through again. -/
theorem one_key_bounded : ∃ t,
    Run (Steps plain Emails.usersOnly 1 ada) quiet oneKey t ∧ t.flights.length = 1 ∧
      t.guesses.tried = 1 ∧ t.guesses.tried ≤ 1 := by
  have hexec : (exec (fun s a => if Identified plain Emails.usersOnly ada "users:ada@example.com" s a ∧
      Reserved 1 "users:ada@example.com" s a then step plain Emails.usersOnly 1 ada s a else none)
      quiet oneKey).map (fun t => (t.flights.length, t.guesses.tried)) = some (1, 1) := by
    decide
  obtain ⟨t, ht, hlook⟩ := Option.map_eq_some_iff.mp hexec
  obtain ⟨hflights, htried⟩ := Prod.mk.inj hlook
  have hrun := run_of_exec_when ht
  exact ⟨t, hrun.of_when, hflights, htried, guesses_bounded quiet_initial hrun⟩

end Examples

end LazyPock.Lockout
