import LazyPock.Core.Assoc
import LazyPock.Machine.Windows

/-!
# Rate limits

`Limiter` and `Lockout` of `crates/api/src/rate_limit.rs`: counters of a fixed window under keys, in a map that
is swept of the counters whose window is over once it is large. The limiter counts every call; the lockout
counts failures, and is asked before an attempt.

Every call reads the clock once, and the calls are made one after the other. A counter of the lockout is an
`u32` that is not compared before it is increased.

## Main definitions

* `RateLimit.Buckets`, with `RateLimit.Buckets.sweep`.
* `RateLimit.Limiter.check`.
* `RateLimit.Lockout.isLocked`, `RateLimit.Lockout.recordFailure`,
  `RateLimit.Lockout.clear`.
* `RateLimit.Limiter.Sound`: what a limiter promises of a list of calls.

## Main results

* `RateLimit.Limiter.follows`, `RateLimit.Lockout.follows`: both are counters under keys.
* `RateLimit.limits_sound`.
-/

namespace LazyPock.RateLimit

open Machine.Windows

/-! ### Counters under keys -/

/-- `SWEEP_AT` -/
def sweepAt : ℕ := 10000

structure Buckets where
  counts : List (String × Count)
  sorted : Assoc.Sorted counts
  /-- When the map was last swept. -/
  swept : ℕ

namespace Buckets

variable (buckets : Buckets) (window now : ℕ) (key : String)

/-- No counters. -/
def new (now : ℕ) : Buckets := ⟨[], List.Pairwise.nil, now⟩

def find (key : String) : Option Count := Assoc.lookup key buckets.counts

def insert (count : Count) : Buckets :=
  ⟨Assoc.insert key count buckets.counts, buckets.sorted.insert key count, buckets.swept⟩

def remove : Buckets :=
  ⟨buckets.counts.filter fun entry => entry.1 ≠ key, buckets.sorted.filter _, buckets.swept⟩

/-- Drop keys whose window has passed, once there are enough to be worth walking. -/
def sweep : Buckets :=
  if buckets.counts.length < sweepAt ∨ now - buckets.swept < window then buckets
  else ⟨buckets.counts.filter fun entry => entry.2.Open window now, buckets.sorted.filter _, now⟩

/-- The counters as a call finds them, in a map that is swept or in one that is not. -/
def visited (sweeping : Bool) : Buckets := if sweeping then buckets.sweep window now else buckets

/-- `entry(key).or_insert`, and a new window where the one it started in is over. -/
def entry : Count :=
  let count := (buckets.find key).getD ⟨0, now⟩
  if window ≤ now - count.started then ⟨0, now⟩ else count

end Buckets

/-! ### The limiter -/

/-- A fixed-window counter per key. Zero disables it. -/
structure Limiter where
  limit : ℕ
  window : ℕ

/-- Count a request against a key, or refuse it with the time until the window resets. -/
def Limiter.check (limiter : Limiter) (sweeping : Bool) (buckets : Buckets) (key : String) (now : ℕ) :
    Except ℕ Unit × Buckets :=
  if limiter.limit = 0 then (.ok (), buckets)
  else
    let state := buckets.visited limiter.window now sweeping
    let count := state.entry limiter.window now key
    if limiter.limit ≤ count.used then
      (.error (limiter.window - (now - count.started)), state.insert key count)
    else (.ok (), state.insert key { count with used := count.used + 1 })

/-- A call of the limiter. -/
abbrev Request := Call String Unit

def Limiter.step (limiter : Limiter) (sweeping : Bool) (buckets : Buckets) (request : Request) :
    Except ℕ Unit × Buckets :=
  limiter.check sweeping buckets request.key request.now

/-! ### The lockout -/

/-- A fixed-window count of failed credential attempts, by account. Zero disables it. -/
structure Lockout where
  limit : ℕ
  window : ℕ

namespace Lockout

variable (lockout : Lockout) (sweeping : Bool) (buckets : Buckets) (key : String) (now : ℕ)

/-- Whether a key has exhausted its failures, and how long until it recovers. -/
def isLocked : Except ℕ Unit × Buckets :=
  if lockout.limit = 0 then (.ok (), buckets)
  else
    let state := buckets.visited lockout.window now sweeping
    match state.find key with
    | some count =>
      if lockout.limit ≤ count.used ∧ now - count.started < lockout.window then
        (.error (lockout.window - (now - count.started)), state)
      else (.ok (), state)
    | none => (.ok (), state)

/-- Count one failed attempt. -/
def recordFailure : Buckets :=
  if lockout.limit = 0 then buckets
  else
    let state := buckets.visited lockout.window now sweeping
    let count := state.entry lockout.window now key
    state.insert key { count with used := (count.used + 1) % 2 ^ 32 }

/-- Forget the failures of a key, after a successful sign-in. -/
def clear : Buckets := if lockout.limit = 0 then buckets else buckets.remove key

end Lockout

/-- What an attempt asks of the lockout. -/
inductive Operation where
  | isLocked
  | recordFailure
  | clear

/-- A call of the lockout. -/
abbrev Attempt := Call String Operation

@[grind =]
def Lockout.step (lockout : Lockout) (sweeping : Bool) (buckets : Buckets) (attempt : Attempt) :
    Except ℕ Unit × Buckets :=
  match attempt.op with
  | .isLocked => lockout.isLocked sweeping buckets attempt.key attempt.now
  | .recordFailure => (.ok (), lockout.recordFailure sweeping buckets attempt.key attempt.now)
  | .clear => (.ok (), lockout.clear buckets attempt.key)

/-- What an attempt does to the counter of its key. -/
@[grind =]
def Lockout.act (lockout : Lockout) (op : Operation) (now : ℕ) (entry : Option Count) :
    Except ℕ Unit × Option Count :=
  match op with
  | .isLocked =>
    match entry with
    | some count =>
      if lockout.limit ≤ count.used ∧ count.Open lockout.window now then
        (.error (lockout.window - (now - count.started)), some count)
      else (.ok (), some count)
    | none => (.ok (), none)
  | .recordFailure =>
    let count := opened lockout.window now entry
    (.ok (), some { count with used := (count.used + 1) % 2 ^ 32 })
  | .clear => (.ok (), none)

/-! ### What is promised -/

/-- When the calls under a key were admitted. -/
def admittedUnder (key : String) (logged : List (Request × Except ℕ Unit)) : List ℕ :=
  admitted (logged.filter fun p => p.1.key = key)

/-- What a limiter promises of a list of calls, from a time on. -/
structure Limiter.Sound (limiter : Limiter) (start : ℕ) (requests : List Request) : Prop where
  /-- Between the start of a window and its end no more calls are admitted under its key than the limit. -/
  window : ∀ {before after : List Request} {key : String} {count : Count}, requests = before ++ after →
    (final (limiter.step true) (.new start) before).find key = some count →
      (admittedUnder key (log (limiter.step true) (.new start) requests)).countP
        (fun time => Within count.started limiter.window time) ≤ limiter.limit
  /-- Nor are there more than twice as many in any half-open interval of that length. -/
  interval : ∀ (key : String) (from' : ℕ),
    (admittedUnder key (log (limiter.step true) (.new start) requests)).countP
      (fun time => Within from' limiter.window time) ≤ 2 * limiter.limit
  /-- A refused call changes no counter, but for those it drops because their window is over. -/
  unchanged : ∀ {before after : List Request} {request : Request} {retryAfter : ℕ},
    requests = before ++ request :: after →
    (limiter.step true (final (limiter.step true) (.new start) before) request).1 = .error retryAfter →
      ∀ key, Kept (fun count now => count.Open limiter.window now) request.now
        ((limiter.step true (final (limiter.step true) (.new start) before) request).2.find key)
        ((final (limiter.step true) (.new start) before).find key)
  /-- A refusal names a time that is positive. -/
  positive : ∀ {before after : List Request} {request : Request} {retryAfter : ℕ},
    requests = before ++ request :: after →
    (limiter.step true (final (limiter.step true) (.new start) before) request).1 = .error retryAfter →
      0 < retryAfter
  /-- The first call under the key behind that time is admitted. -/
  retry : ∀ {before between after : List Request} {request next : Request} {retryAfter : ℕ},
    requests = before ++ request :: (between ++ next :: after) →
    (limiter.step true (final (limiter.step true) (.new start) before) request).1 = .error retryAfter →
    next.key = request.key → request.now + retryAfter ≤ next.now →
    (∀ other ∈ between, other.key = request.key → other.now < request.now + retryAfter) →
      (limiter.step true (final (limiter.step true) (.new start) (before ++ request :: between)) next).1 =
        .ok ()
  /-- The limiter answers as it does without being swept. -/
  unswept : log (limiter.step true) (.new start) requests = log (limiter.step false) (.new start) requests

/-! ### Both are counters under keys -/

section Counters

variable {buckets : Buckets} {window now : ℕ} {key : String}

namespace Buckets

theorem find_insert (count : Count) :
    (buckets.insert key count).find = Function.update buckets.find key (some count) := by
  funext other
  by_cases hkey : other = key
  · rw [hkey, Function.update_self]
    exact Assoc.lookup_insert_self key count buckets.counts
  · rw [Function.update_of_ne hkey]
    exact Assoc.lookup_insert_of_ne hkey count buckets.counts

theorem find_remove : (buckets.remove key).find = Function.update buckets.find key none := by
  funext other
  have hlookup := buckets.sorted.lookup_filter (fun entry => entry.1 ≠ key) other
  by_cases hkey : other = key
  · rw [hkey, Function.update_self]
    rw [hkey] at hlookup
    refine hlookup.trans ?_
    cases Assoc.lookup key buckets.counts <;> simp
  · rw [Function.update_of_ne hkey]
    refine hlookup.trans ?_
    cases hfind : Assoc.lookup other buckets.counts with
    | none => rw [find, hfind]; rfl
    | some count => rw [find, hfind, Option.filter_some_pos (by simpa using hkey)]

/-- What is dropped has expired. -/
theorem kept_visited (sweeping : Bool) :
    Kept (fun count now => count.Open window now) now ((buckets.visited window now sweeping).find key)
      (buckets.find key) := by
  rw [visited, sweep]
  split_ifs
  · exact Kept.refl _
  · have hlookup := buckets.sorted.lookup_filter (fun entry => entry.2.Open window now) key
    rw [find, hlookup]
    exact Kept.filter _ fun count hopen => decide_eq_true hopen
  · exact Kept.refl _

theorem entry_eq : buckets.entry window now key = opened window now (buckets.find key) := by
  rw [entry, opened]
  cases buckets.find key with
  | none => simp
  | some count =>
    rw [Option.getD_some]
    by_cases hopen : count.Open window now
    · rw [Option.filter_some_pos (by simpa using hopen), Option.getD_some,
        if_neg (Nat.not_le.mpr hopen)]
    · rw [Option.filter_some_neg (by simpa using hopen), Option.getD_none,
        if_pos (Nat.not_lt.mp hopen)]

end Buckets

/-- **The limiter is a counter under each key.** -/
theorem Limiter.follows (limiter : Limiter) (hlimit : 0 < limiter.limit) (sweeping : Bool) :
    Follows (fun count now => count.Open limiter.window now) (Machine.Windows.check limiter.limit limiter.window)
      Buckets.find (limiter.step sweeping) := by
  intro buckets request
  refine ⟨(buckets.visited limiter.window request.now sweeping).find, fun key => Buckets.kept_visited sweeping,
    ?_⟩
  rw [step, Limiter.check, if_neg (Nat.pos_iff_ne_zero.mp hlimit), direct, Machine.Windows.check]
  simp only [Buckets.entry_eq]
  split_ifs
  · exact ⟨rfl, Buckets.find_insert _⟩
  · exact ⟨rfl, Buckets.find_insert _⟩

/-- **The lockout is a counter under each key.** -/
theorem Lockout.follows (lockout : Lockout) (hlimit : lockout.limit ≠ 0) (sweeping : Bool) :
    Follows (fun count now => count.Open lockout.window now) lockout.act Buckets.find
      (lockout.step sweeping) := by
  intro buckets attempt
  obtain ⟨now, key, op⟩ := attempt
  cases op with
  | isLocked =>
    refine ⟨(buckets.visited lockout.window now sweeping).find, fun key => Buckets.kept_visited sweeping, ?_⟩
    have hkeep : Function.update (buckets.visited lockout.window now sweeping).find key
        ((buckets.visited lockout.window now sweeping).find key) =
          (buckets.visited lockout.window now sweeping).find := Function.update_eq_self _ _
    simp only [step, isLocked, if_neg hlimit, direct]
    cases hfind : (buckets.visited lockout.window now sweeping).find key with
    | none => exact ⟨rfl, (hfind ▸ hkeep).symm⟩
    | some count =>
      rw [hfind] at hkeep
      by_cases hlocked : lockout.limit ≤ count.used ∧ count.Open lockout.window now
      · have helapsed : lockout.limit ≤ count.used ∧ now - count.started < lockout.window := hlocked
        simp only [act, if_pos hlocked, if_pos helapsed]
        exact ⟨trivial, hkeep.symm⟩
      · have helapsed : ¬ (lockout.limit ≤ count.used ∧ now - count.started < lockout.window) := hlocked
        simp only [act, if_neg hlocked, if_neg helapsed]
        exact ⟨trivial, hkeep.symm⟩
  | recordFailure =>
    refine ⟨(buckets.visited lockout.window now sweeping).find, fun key => Buckets.kept_visited sweeping,
      rfl, ?_⟩
    rw [step, recordFailure, if_neg hlimit, Buckets.find_insert, Buckets.entry_eq]
    rfl
  | clear =>
    refine ⟨buckets.find, fun key => Kept.refl _, rfl, ?_⟩
    rw [step, clear, if_neg hlimit, Buckets.find_remove]
    rfl

/-- An attempt takes a counter whose window is over for none. -/
theorem Lockout.act_blind (lockout : Lockout) :
    Blind (fun count now => count.Open lockout.window now) lockout.act := by
  intro op now entry full hkept
  rcases hkept.eq_or_expired with rfl | ⟨rfl, hfull⟩
  · exact ⟨rfl, Kept.refl _⟩
  · cases op with
    | isLocked =>
      cases full with
      | none => exact ⟨rfl, Kept.refl _⟩
      | some count =>
        have hclosed : ¬ (lockout.limit ≤ count.used ∧ count.Open lockout.window now) :=
          fun h => hfull count rfl h.2
        simp only [act, if_neg hclosed]
        exact ⟨trivial, hkept⟩
    | recordFailure =>
      have hopened : opened lockout.window now full = opened lockout.window now none := by
        cases full with
        | none => rfl
        | some count => rw [opened, Option.filter_some_neg (by simpa using hfull count rfl)]; rfl
      rw [act, act, hopened]
      exact ⟨rfl, Kept.refl _⟩
    | clear => exact ⟨rfl, Kept.refl _⟩

end Counters

/-! ### Lists of calls -/

section Runs

variable {limiter : Limiter} {start : ℕ} {requests before after : List Request}

/-- No counters at all. -/
def noCounters : String → Option Count := fun _ => none

theorem open_mono {window : ℕ} :
    ∀ (count : Count) (s t : ℕ), s ≤ t → count.Open window t → count.Open window s :=
  fun _ _ _ hle h => h.mono hle

theorem kept_new (window start : ℕ) (key : String) :
    Kept (fun count now => Count.Open window count now) start ((Buckets.new start).find key)
      (noCounters key) := Kept.refl _

/-- A limiter answers as the counters themselves. -/
theorem log_limiter (hlimit : 0 < limiter.limit) (sweeping : Bool) (horder : InOrder start requests) :
    log (limiter.step sweeping) (.new start) requests =
      log (direct (Machine.Windows.check limiter.limit limiter.window)) noCounters requests :=
  ((limiter.follows hlimit sweeping).log_eq (check_blind hlimit) open_mono
    (kept_new limiter.window start) horder).1

/-- The counters that a call finds. -/
theorem kept_before {request : Request} (hlimit : 0 < limiter.limit)
    (horder : InOrder start (before ++ request :: after)) (key : String) :
    Kept (fun count now => count.Open limiter.window now) request.now
      ((final (limiter.step true) (.new start) before).find key)
      (final (direct (Machine.Windows.check limiter.limit limiter.window)) noCounters before key) := by
  obtain ⟨-, -, hcross⟩ := List.pairwise_append.mp horder.2
  refine ((limiter.follows hlimit true).log_eq (check_blind hlimit) open_mono
    (kept_new limiter.window start) horder.append_left).2
    request.now (horder.1 request (by simp)) (fun call hcall => ?_) key
  exact hcross call hcall request List.mem_cons_self

/-- The counter of a key that a call finds. -/
def counter (limiter : Limiter) (before : List Request) (key : String) : Option Count :=
  final (alone (Machine.Windows.check limiter.limit limiter.window)) none
    (before.filter fun call => call.key = key)

theorem final_direct (limiter : Limiter) (before : List Request) (key : String) :
    final (direct (Machine.Windows.check limiter.limit limiter.window)) noCounters before key =
      counter limiter before key := final_key key

/-- **The answer of a call** is that of the counter of its key. -/
theorem answer_eq {request : Request} (hlimit : 0 < limiter.limit)
    (horder : InOrder start (before ++ request :: after)) :
    (limiter.step true (final (limiter.step true) (.new start) before) request).1 =
      (Machine.Windows.check limiter.limit limiter.window request.op request.now
        (counter limiter before request.key)).1 := by
  rw [← final_direct]
  exact ((limiter.follows hlimit true).call (check_blind hlimit) request
    fun key => kept_before hlimit horder key).1

/-- A counter began before the call that finds it. -/
theorem started_le {request : Request} (hlimit : 0 < limiter.limit)
    (horder : InOrder start (before ++ request :: after)) {count : Count}
    (hcount : counter limiter before request.key = some count) : count.started ≤ request.now := by
  have hfilter := horder.filter fun call => call.key = request.key
  rw [List.filter_append] at hfilter
  have hnone : ∀ count : Count, none = some count → count.started ≤ start := by simp
  obtain ⟨later, hlater, hstarted⟩ := exists_started_le hlimit limiter.window hnone hfilter
  refine Nat.le_trans (hstarted count hcount) (hlater.1 request ?_)
  simp

/-- A lockout answers alike, swept or not. -/
theorem log_lockout (lockout : Lockout) {attempts : List Attempt} (horder : InOrder start attempts) :
    log (lockout.step true) (.new start) attempts = log (lockout.step false) (.new start) attempts := by
  by_cases hlimit : lockout.limit = 0
  · have hstep : lockout.step true = lockout.step false := by
      funext buckets attempt
      obtain ⟨now, key, op⟩ := attempt
      cases op <;> simp only [Lockout.step, Lockout.isLocked, Lockout.recordFailure, if_pos hlimit]
    rw [hstep]
  · have hswept := (lockout.follows hlimit true).log_eq lockout.act_blind open_mono
      (kept_new lockout.window start) horder
    have hunswept := (lockout.follows hlimit false).log_eq lockout.act_blind open_mono
      (kept_new lockout.window start) horder
    exact hswept.1.trans hunswept.1.symm

/-- What is admitted under a key. -/
theorem admittedUnder_eq (hlimit : 0 < limiter.limit) (horder : InOrder start requests) (key : String) :
    admittedUnder key (log (limiter.step true) (.new start) requests) =
      admitted (log (alone (Machine.Windows.check limiter.limit limiter.window)) none
        (requests.filter fun call => call.key = key)) := by
  rw [admittedUnder, log_limiter hlimit true horder, log_key]
  rfl

/-- **A limiter keeps its promises.** -/
theorem Limiter.sound (limiter : Limiter) (hlimit : 0 < limiter.limit) (horder : InOrder start requests) :
    limiter.Sound start requests where
  window := by
    rintro before after key count rfl hcount
    have hbelow := (limiter.follows hlimit true).below (check_blind hlimit) open_mono
      (kept_new limiter.window start) horder.append_left hcount
    rw [admittedUnder_eq hlimit horder, List.filter_append]
    have hfilter := horder.filter fun call => call.key = key
    rw [List.filter_append] at hfilter
    exact countP_window_le hlimit hfilter ((final_direct limiter before key).symm.trans hbelow)
  interval key from' := by
    rw [admittedUnder_eq hlimit horder]
    exact countP_admitted_le hlimit from' (horder.filter _)
  unchanged := by
    rintro before after request retryAfter rfl hrefused key
    obtain ⟨swept, hswept, hanswer, hfind⟩ :=
      limiter.follows hlimit true (final (limiter.step true) (.new start) before) request
    rw [hfind]
    by_cases hkey : key = request.key
    · rw [hkey, direct_self, alone, (check_eq_error hlimit (hanswer.symm.trans hrefused)).1]
      exact hswept request.key
    · rw [direct_of_ne hkey]
      exact hswept key
  positive := by
    rintro before after request retryAfter rfl hrefused
    rw [answer_eq hlimit horder] at hrefused
    obtain ⟨-, count, -, hopen, -, rfl⟩ := check_eq_error hlimit hrefused
    exact Nat.sub_pos_of_lt hopen
  retry := by
    rintro before between after request next retryAfter rfl hrefused hkey hnow hbefore
    have horder_next : InOrder start ((before ++ request :: between) ++ next :: after) := by simpa using horder
    rw [answer_eq hlimit horder] at hrefused
    rw [answer_eq hlimit horder_next, hkey]
    have hcounter : counter limiter (before ++ request :: between) request.key =
        final (alone (Machine.Windows.check limiter.limit limiter.window)) (counter limiter before request.key)
          (between.filter fun call => call.key = request.key) := by
      have hsplit : (before ++ request :: between).filter (fun call => call.key = request.key) =
          before.filter (fun call => call.key = request.key) ++
            (request :: between.filter fun call => call.key = request.key) := by
        rw [List.filter_append, List.filter_cons_of_pos (by simp)]
      rw [counter, hsplit, final_append]
      have hstep : final (alone (Machine.Windows.check limiter.limit limiter.window))
          (counter limiter before request.key)
            (request :: between.filter fun call => call.key = request.key) =
          final (alone (Machine.Windows.check limiter.limit limiter.window))
            (Machine.Windows.check limiter.limit limiter.window request.op request.now
              (counter limiter before request.key)).2
            (between.filter fun call => call.key = request.key) := rfl
      rw [(check_eq_error hlimit hrefused).1] at hstep
      exact hstep
    rw [hcounter]
    refine check_of_refused hlimit hrefused (fun count hcount => started_le hlimit horder hcount) ?_ hnow
    intro other hother
    obtain ⟨hmem, heq⟩ := List.mem_filter.mp hother
    exact hbefore other hmem (of_decide_eq_true heq)
  unswept := (log_limiter hlimit true horder).trans (log_limiter hlimit false horder).symm

/-- **The limits hold, and sweeping is invisible**, for every limit, window and list of calls: what a limiter
promises, and that it and a lockout answer as they do without being swept. -/
theorem limits_sound (limiter : Limiter) (hlimit : 0 < limiter.limit) (lockout : Lockout) (start : ℕ)
    (requests : List Request) (attempts : List Attempt) (hrequests : InOrder start requests)
    (hattempts : InOrder start attempts) :
    limiter.Sound start requests ∧
      log (lockout.step true) (.new start) attempts = log (lockout.step false) (.new start) attempts :=
  ⟨limiter.sound hlimit hrequests, log_lockout lockout hattempts⟩

/-- One call in ten instants, and three calls under two keys. -/
theorem limits_sound_once :
    (Limiter.mk 1 10).Sound 0 [⟨3, "a", ()⟩, ⟨5, "b", ()⟩, ⟨7, "a", ()⟩] ∧
      log ((Lockout.mk 1 10).step true) (.new 0) [⟨4, "a", .recordFailure⟩, ⟨5, "a", .isLocked⟩] =
        log ((Lockout.mk 1 10).step false) (.new 0) [⟨4, "a", .recordFailure⟩, ⟨5, "a", .isLocked⟩] :=
  limits_sound ⟨1, 10⟩ (by decide) ⟨1, 10⟩ 0 _ _ (by simp [InOrder]) (by simp [InOrder])

end Runs

end LazyPock.RateLimit
