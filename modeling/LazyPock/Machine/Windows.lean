import Mathlib.Data.List.Basic
import Mathlib.Logic.Function.Basic

/-!
# Entries that expire, and counters of a window

Entries under keys, each with an operation that reads and writes one entry at a time of the clock. An entry
that has expired is as good as none, so it may be dropped before any operation. The counter of a fixed window
is such an entry: it admits so many calls, and begins anew with the first call behind its window.

## Main definitions

* `Machine.Windows.Kept`: an entry, or none in place of one that has expired.
* `Machine.Windows.Follows`: a store that may drop what has expired.
* `Machine.Windows.check`: a call against the counter of a window.

## Main results

* `Machine.Windows.Follows.trace_eq`: dropping is invisible.
* `Machine.Windows.trace_key`: the calls under one key.
* `Machine.Windows.countP_admitted_le`: what is admitted in an interval of the length of a window.
* `Machine.Windows.countP_window_le`: what is admitted in a window.
-/

namespace Machine.Windows

open List

/-! ### Entries under keys -/

section Entries

variable {K E O A : Type}

/-- A call: when it is made, under which key, and what it does. -/
structure Call (K O : Type) where
  now : ℕ
  key : K
  op : O

/-- An entry, or none in place of one that has expired. -/
def Kept (live : E → ℕ → Prop) (now : ℕ) (entry full : Option E) : Prop :=
  (∀ e, entry = some e → full = some e) ∧ ∀ e, full = some e → live e now → entry = some e

/-- An operation on one entry takes what has expired for none. -/
def Blind (live : E → ℕ → Prop) (act : O → ℕ → Option E → A × Option E) : Prop :=
  ∀ op now entry full, Kept live now entry full →
    (act op now entry).1 = (act op now full).1 ∧ Kept live now (act op now entry).2 (act op now full).2

/-- A list of calls, each with its answer. -/
def log {σ : Type} (step : σ → Call K O → A × σ) : σ → List (Call K O) → List (Call K O × A)
  | _, [] => []
  | s, call :: calls => (call, (step s call).1) :: log step (step s call).2 calls

/-- The state behind a list of calls. -/
def final {σ : Type} (step : σ → Call K O → A × σ) (s : σ) (calls : List (Call K O)) : σ :=
  calls.foldl (fun s call => (step s call).2) s

/-- The calls under one key, on its entry. -/
def alone (act : O → ℕ → Option E → A × Option E) (entry : Option E) (call : Call K O) : A × Option E :=
  act call.op call.now entry

variable [DecidableEq K]

/-- The entries as a function, of which nothing is dropped. -/
def direct (act : O → ℕ → Option E → A × Option E) (entries : K → Option E) (call : Call K O) :
    A × (K → Option E) :=
  ((act call.op call.now (entries call.key)).1,
    Function.update entries call.key (act call.op call.now (entries call.key)).2)

/-- A store that may drop what has expired before it carries out an operation. -/
def Follows {σ : Type} (live : E → ℕ → Prop) (act : O → ℕ → Option E → A × Option E) (find : σ → K → Option E)
    (step : σ → Call K O → A × σ) : Prop :=
  ∀ s call, ∃ swept : K → Option E, (∀ key, Kept live call.now (swept key) (find s key)) ∧
    (step s call).1 = (direct act swept call).1 ∧ find (step s call).2 = (direct act swept call).2

/-- The calls are made one after the other, from a time on. -/
def InOrder (since : ℕ) (calls : List (Call K O)) : Prop :=
  (∀ call ∈ calls, since ≤ call.now) ∧ calls.Pairwise fun a b => a.now ≤ b.now

end Entries

section Dropping

variable {K E O A σ : Type} {live : E → ℕ → Prop} {act : O → ℕ → Option E → A × Option E} {now : ℕ}
  {step : σ → Call K O → A × σ}

theorem Kept.refl (entry : Option E) : Kept live now entry entry := ⟨fun _ h => h, fun _ h _ => h⟩

theorem Kept.trans {a b c : Option E} (h : Kept live now a b) (h' : Kept live now b c) : Kept live now a c :=
  ⟨fun e he => h'.1 e (h.1 e he), fun e he hlive => h.2 e (h'.2 e he hlive) hlive⟩

theorem Kept.mono {later : ℕ} {a b : Option E} (h : Kept live now a b) (hle : now ≤ later)
    (hexpires : ∀ e s t, s ≤ t → live e t → live e s) : Kept live later a b :=
  ⟨h.1, fun e he hlive => h.2 e he (hexpires e now later hle hlive)⟩

/-- An entry that is kept, or one that has expired. -/
theorem Kept.eq_or_expired {entry full : Option E} (h : Kept live now entry full) :
    entry = full ∨ entry = none ∧ ∀ e, full = some e → ¬ live e now := by
  cases entry with
  | some e => exact .inl (h.1 e rfl).symm
  | none =>
    refine .inr ⟨rfl, fun e he hlive => ?_⟩
    cases h.2 e he hlive

/-- What has expired may be dropped. -/
theorem Kept.filter {p : E → Bool} (entry : Option E) (h : ∀ e, live e now → p e = true) :
    Kept live now (entry.filter p) entry := by
  refine ⟨fun e he => (Option.filter_eq_some_iff.mp he).1, fun e he hlive => ?_⟩
  exact Option.filter_eq_some_iff.mpr ⟨he, h e hlive⟩

theorem log_append (s : σ) (calls rest : List (Call K O)) :
    log step s (calls ++ rest) = log step s calls ++ log step (final step s calls) rest := by
  induction calls generalizing s with
  | nil => rfl
  | cons call calls ih =>
    rw [cons_append, log, ih]
    rfl

theorem final_append (s : σ) (calls rest : List (Call K O)) :
    final step s (calls ++ rest) = final step (final step s calls) rest := foldl_append

theorem InOrder.tail {since : ℕ} {call : Call K O} {calls : List (Call K O)}
    (h : InOrder since (call :: calls)) : InOrder call.now calls :=
  ⟨fun _ hmem => rel_of_pairwise_cons h.2 hmem, h.2.of_cons⟩

theorem InOrder.exists_later {since : ℕ} {calls : List (Call K O)} (h : InOrder since calls) :
    ∃ later, since ≤ later ∧ ∀ call ∈ calls, call.now ≤ later := by
  induction calls generalizing since with
  | nil => exact ⟨since, Nat.le_refl _, by simp⟩
  | cons call calls ih =>
    obtain ⟨later, hle, hlater⟩ := ih h.tail
    exact ⟨later, Nat.le_trans (h.1 call mem_cons_self) hle, forall_mem_cons.mpr ⟨hle, hlater⟩⟩

theorem InOrder.append_left {since : ℕ} {calls rest : List (Call K O)} (h : InOrder since (calls ++ rest)) :
    InOrder since calls :=
  ⟨fun call hcall => h.1 call (mem_append_left _ hcall), (pairwise_append.mp h.2).1⟩

theorem InOrder.filter {since : ℕ} {calls : List (Call K O)} (h : InOrder since calls) (p : Call K O → Bool) :
    InOrder since (calls.filter p) :=
  ⟨fun call hcall => h.1 call (mem_of_mem_filter hcall), h.2.filter p⟩

variable [DecidableEq K] {find : σ → K → Option E} {s : σ} {entries : K → Option E} {since : ℕ}
  {calls : List (Call K O)}

theorem direct_self (call : Call K O) :
    (direct act entries call).2 call.key = (alone act (entries call.key) call).2 :=
  Function.update_self _ _ _

theorem direct_of_ne {call : Call K O} {key : K} (h : key ≠ call.key) :
    (direct act entries call).2 key = entries key :=
  Function.update_of_ne h _ _

/-- One call on a store that drops entries, and on the entries themselves. -/
theorem Follows.call (h : Follows live act find step) (hblind : Blind live act) (call : Call K O)
    (hkept : ∀ key, Kept live call.now (find s key) (entries key)) :
    (step s call).1 = (direct act entries call).1 ∧
      ∀ key, Kept live call.now (find (step s call).2 key) ((direct act entries call).2 key) := by
  obtain ⟨swept, hswept, hanswer, hfind⟩ := h s call
  have hboth : ∀ key, Kept live call.now (swept key) (entries key) :=
    fun key => (hswept key).trans (hkept key)
  obtain ⟨hsame, hafter⟩ := hblind call.op call.now _ _ (hboth call.key)
  refine ⟨hanswer.trans hsame, fun key => ?_⟩
  rw [hfind]
  by_cases hkey : key = call.key
  · rw [hkey, direct_self, direct_self]
    exact hafter
  · rw [direct_of_ne hkey, direct_of_ne hkey]
    exact hboth key

/-- **Dropping is invisible**: a store that drops what has expired answers as the entries themselves do. -/
theorem Follows.log_eq (h : Follows live act find step) (hblind : Blind live act)
    (hexpires : ∀ e s t, s ≤ t → live e t → live e s)
    (hkept : ∀ key, Kept live since (find s key) (entries key)) (horder : InOrder since calls) :
    log step s calls = log (direct act) entries calls ∧
      ∀ later, since ≤ later → (∀ call ∈ calls, call.now ≤ later) → ∀ key,
        Kept live later (find (final step s calls) key) (final (direct act) entries calls key) := by
  induction calls generalizing s entries since with
  | nil => exact ⟨rfl, fun later hle _ key => (hkept key).mono hle hexpires⟩
  | cons call calls ih =>
    have hnow := horder.1 call mem_cons_self
    obtain ⟨hanswer, hafter⟩ := h.call hblind call fun key => (hkept key).mono hnow hexpires
    obtain ⟨hlog, hfinal⟩ := ih hafter horder.tail
    refine ⟨by rw [log, log, hanswer, hlog], fun later _ hlater => ?_⟩
    obtain ⟨hcall, hcalls⟩ := forall_mem_cons.mp hlater
    exact hfinal later hcall hcalls

/-- What is in the store is an entry. -/
theorem Follows.below (h : Follows live act find step) (hblind : Blind live act)
    (hexpires : ∀ e s t, s ≤ t → live e t → live e s)
    (hkept : ∀ key, Kept live since (find s key) (entries key)) (horder : InOrder since calls) {key : K} {e : E}
    (he : find (final step s calls) key = some e) : final (direct act) entries calls key = some e := by
  obtain ⟨later, hle, hlater⟩ := horder.exists_later
  exact ((h.log_eq hblind hexpires hkept horder).2 later hle hlater key).1 e he

/-- **The calls under one key** are answered as if there were no others. -/
theorem log_key (key : K) :
    (log (direct act) entries calls).filter (fun logged => logged.1.key = key) =
      log (alone act) (entries key) (calls.filter fun call => call.key = key) := by
  induction calls generalizing entries with
  | nil => rfl
  | cons call calls ih =>
    by_cases hkey : call.key = key
    · rw [log, filter_cons_of_pos (by simpa using hkey), filter_cons_of_pos (by simpa using hkey), log,
        ih, ← hkey, direct_self]
      rfl
    · rw [log, filter_cons_of_neg (by simpa using hkey), filter_cons_of_neg (by simpa using hkey), ih,
        direct_of_ne (Ne.symm hkey)]

/-- The entry behind the calls under its key. -/
theorem final_key (key : K) :
    final (direct act) entries calls key =
      final (alone act) (entries key) (calls.filter fun call => call.key = key) := by
  induction calls generalizing entries with
  | nil => rfl
  | cons call calls ih =>
    have hstep : final (direct act) entries (call :: calls) =
        final (direct act) (direct act entries call).2 calls := rfl
    rw [hstep, ih]
    by_cases hkey : call.key = key
    · rw [filter_cons_of_pos (by simpa using hkey), ← hkey, direct_self]
      rfl
    · rw [filter_cons_of_neg (by simpa using hkey), direct_of_ne (Ne.symm hkey)]

end Dropping

/-! ### Counters of a window -/

/-- How many calls were admitted since a window was begun. -/
structure Count where
  used : ℕ
  started : ℕ
deriving DecidableEq

/-- The window of a count is not over. -/
def Count.Open (window : ℕ) (count : Count) (now : ℕ) : Prop := now - count.started < window

instance (window : ℕ) (count : Count) (now : ℕ) : Decidable (count.Open window now) :=
  inferInstanceAs (Decidable (_ < _))

/-- The count that a call finds: a new window begins where there is none, or none that is not over. -/
def opened (window now : ℕ) (entry : Option Count) : Count :=
  (entry.filter fun count => count.Open window now).getD ⟨0, now⟩

/-- A call against the counter of a window: counted, or refused with the time that is left of the window. -/
def check {O : Type} (limit window : ℕ) (_ : O) (now : ℕ) (entry : Option Count) :
    Except ℕ Unit × Option Count :=
  if limit ≤ (opened window now entry).used then
    (.error (window - (now - (opened window now entry).started)), some (opened window now entry))
  else (.ok (), some ⟨(opened window now entry).used + 1, (opened window now entry).started⟩)

/-- Whether a call was admitted. -/
def admits : Except ℕ Unit → Bool
  | .ok _ => true
  | .error _ => false

/-- When calls were admitted. -/
def admitted {K O : Type} (logged : List (Call K O × Except ℕ Unit)) : List ℕ :=
  (logged.filter fun p => admits p.2).map fun p => p.1.now

/-- A time in the interval of the length of a window. -/
def Within (start window time : ℕ) : Prop := start ≤ time ∧ time < start + window

instance (start window time : ℕ) : Decidable (Within start window time) :=
  inferInstanceAs (Decidable (_ ∧ _))

/-- How many calls the counter may still admit in an interval of the length of its window. -/
def budget (limit window start : ℕ) : Option Count → ℕ
  | none => 2 * limit
  | some count =>
    if start + window ≤ count.started then 0
    else if start ≤ count.started then limit - count.used
    else if start < count.started + window then limit + (limit - count.used)
    else 2 * limit

section Counters

variable {K O : Type} {limit window now start : ℕ} {entry : Option Count} {count : Count} {op : O}

theorem check_of_closed (hlimit : 0 < limit) (h : ∀ count, entry = some count → ¬ count.Open window now) :
    check limit window op now entry = (.ok (), some ⟨1, now⟩) := by
  have hopened : opened window now entry = ⟨0, now⟩ := by
    cases entry with
    | none => rfl
    | some count => rw [opened, Option.filter_some_neg (by simpa using h count rfl), Option.getD_none]
  rw [check, hopened, if_neg (Nat.not_le.mpr hlimit)]

theorem check_of_open (h : count.Open window now) :
    check limit window op now (some count) =
      if limit ≤ count.used then (.error (window - (now - count.started)), some count)
      else (.ok (), some ⟨count.used + 1, count.started⟩) := by
  have hopened : opened window now (some count) = count := by
    rw [opened, Option.filter_some_pos (by simpa using h), Option.getD_some]
  rw [check, hopened]

/-- What a call leaves: a new window, one call more, or what there was. -/
theorem check_cases (hlimit : 0 < limit) (window now : ℕ) (op : O) (entry : Option Count) :
    (check limit window op now entry = (.ok (), some ⟨1, now⟩) ∧
        ∀ count, entry = some count → ¬ count.Open window now) ∨
      (∃ count, entry = some count ∧ count.Open window now ∧ count.used < limit ∧
        check limit window op now entry = (.ok (), some ⟨count.used + 1, count.started⟩)) ∨
      ∃ count, entry = some count ∧ count.Open window now ∧ limit ≤ count.used ∧
        check limit window op now entry = (.error (window - (now - count.started)), some count) := by
  by_cases hopen : ∃ count, entry = some count ∧ count.Open window now
  · obtain ⟨count, rfl, hopen⟩ := hopen
    rw [check_of_open hopen]
    by_cases hused : limit ≤ count.used
    · exact .inr (.inr ⟨count, rfl, hopen, hused, if_pos hused⟩)
    · exact .inr (.inl ⟨count, rfl, hopen, Nat.not_le.mp hused, if_neg hused⟩)
  · have hclosed : ∀ count, entry = some count → ¬ count.Open window now :=
      fun count heq h => hopen ⟨count, heq, h⟩
    exact .inl ⟨check_of_closed hlimit hclosed, hclosed⟩

/-- A call takes from the budget of an interval what it is admitted in it. -/
theorem budget_check (hlimit : 0 < limit) (window start : ℕ) (op : O)
    (hstarted : ∀ count, entry = some count → count.started ≤ now) :
    (if admits (check limit window op now entry).1 = true ∧ Within start window now then 1 else 0) +
      budget limit window start (check limit window op now entry).2 ≤ budget limit window start entry := by
  rcases check_cases hlimit window now op entry with ⟨heq, hclosed⟩ | ⟨count, rfl, hopen, hused, heq⟩ |
    ⟨count, rfl, hopen, hused, heq⟩
  · rw [heq]
    cases entry with
    | none =>
      simp only [budget, Within, admits]
      split_ifs <;> omega
    | some count =>
      have hle := hstarted count rfl
      have hnot := hclosed count rfl
      simp only [budget, Within, admits, Count.Open] at hnot ⊢
      split_ifs <;> omega
  · rw [heq]
    have hle := hstarted count rfl
    simp only [budget, Within, admits, Count.Open] at hopen ⊢
    split_ifs <;> omega
  · rw [heq]
    simp [admits]

/-- A window begins no later than its last call. -/
theorem started_le_of_check (hlimit : 0 < limit) (hstarted : ∀ count, entry = some count → count.started ≤ now)
    (h : (check limit window op now entry).2 = some count) : count.started ≤ now := by
  rcases check_cases hlimit window now op entry with ⟨heq, -⟩ | ⟨other, rfl, -, -, heq⟩ | ⟨other, rfl, -, -, heq⟩
  · rw [heq] at h
    obtain rfl := Option.some.inj h
    exact Nat.le_refl now
  · rw [heq] at h
    rw [← Option.some.inj h]
    exact hstarted other rfl
  · rw [heq] at h
    exact hstarted count h

variable {calls : List (Call K O)} {since : ℕ}

theorem admitted_cons (call : Call K O) (answer : Except ℕ Unit) (logged : List (Call K O × Except ℕ Unit)) :
    admitted ((call, answer) :: logged) = (if admits answer then [call.now] else []) ++ admitted logged := by
  cases answer <;> simp [admitted, admits]

theorem admitted_append (logged rest : List (Call K O × Except ℕ Unit)) :
    admitted (logged ++ rest) = admitted logged ++ admitted rest := by
  simp [admitted]

/-- What is admitted in an interval is taken from its budget. -/
theorem countP_add_budget_le (hlimit : 0 < limit) (window start : ℕ)
    (hstarted : ∀ count, entry = some count → count.started ≤ since) (horder : InOrder since calls) :
    (admitted (log (alone (check limit window)) entry calls)).countP (fun time => Within start window time) +
      budget limit window start (final (alone (check limit window)) entry calls) ≤
        budget limit window start entry := by
  induction calls generalizing entry since with
  | nil => simp [log, admitted, final]
  | cons call calls ih =>
    have hnow : ∀ count, entry = some count → count.started ≤ call.now := fun count heq =>
      Nat.le_trans (hstarted count heq) (horder.1 call mem_cons_self)
    have hstep := budget_check hlimit window start call.op hnow
    have hstarted_next : ∀ count, (check limit window call.op call.now entry).2 = some count →
        count.started ≤ call.now := fun count heq => started_le_of_check hlimit hnow heq
    have hrest := ih hstarted_next horder.tail
    have hfinal : final (alone (check limit window)) entry (call :: calls) =
        final (alone (check limit window)) (check limit window call.op call.now entry).2 calls := rfl
    have halone : alone (check limit window) entry call = check limit window call.op call.now entry := rfl
    rw [hfinal, log, halone, admitted_cons, countP_append]
    have hhead : ((if admits (check limit window call.op call.now entry).1 = true then [call.now]
        else []).countP fun time => decide (Within start window time)) =
        if admits (check limit window call.op call.now entry).1 = true ∧ Within start window call.now then 1
        else 0 := by
      by_cases hadmits : admits (check limit window call.op call.now entry).1 = true
      · simp [hadmits, countP_singleton]
      · simp [hadmits]
    rw [hhead]
    omega

/-- **What is admitted in an interval** of the length of a window: twice the limit, for an interval meets two
windows. -/
theorem countP_admitted_le (hlimit : 0 < limit) (start : ℕ) (horder : InOrder since calls) :
    (admitted (log (alone (check limit window)) none calls)).countP (fun time => Within start window time) ≤
      2 * limit := by
  have hnone : ∀ count : Count, none = some count → count.started ≤ since := by simp
  exact Nat.le_trans (Nat.le_add_right _ _) (countP_add_budget_le hlimit window start hnone horder)

/-- What the counter has admitted: its count since the window was begun, and nothing that is not before the
end of the window. -/
structure Tally (limit window : ℕ) (times : List ℕ) (entry : Option Count) : Prop where
  fresh : entry = none → times = []
  used : ∀ count, entry = some count → count.used ≤ limit ∧
    times.countP (fun time => count.started ≤ time) ≤ count.used ∧
    ∀ time ∈ times, time < count.started + window

theorem Tally.check {times : List ℕ} (h : Tally limit window times entry) (hlimit : 0 < limit)
    (hwindow : 0 < window) (hstarted : ∀ count, entry = some count → count.started ≤ now) (op : O) :
    Tally limit window (times ++ if admits (check limit window op now entry).1 = true then [now] else [])
      (check limit window op now entry).2 := by
  rcases check_cases hlimit window now op entry with ⟨heq, hclosed⟩ | ⟨count, rfl, hopen, hused, heq⟩ |
    ⟨count, rfl, hopen, hused, heq⟩
  · rw [heq]
    refine ⟨fun hnone => absurd hnone (by simp), fun count hcount => ?_⟩
    obtain rfl := Option.some.inj hcount
    have hbefore : ∀ time ∈ times, time < now := by
      cases entry with
      | none => simp [h.fresh rfl]
      | some count =>
        intro time htime
        have hlast := (h.used count rfl).2.2 time htime
        have hnot := hclosed count rfl
        have hle := hstarted count rfl
        rw [Count.Open] at hnot
        omega
    have hnone : times.countP (fun time => decide (now ≤ time)) = 0 :=
      countP_eq_zero.mpr fun time htime => by simpa using hbefore time htime
    refine ⟨hlimit, ?_, ?_⟩
    · simp [admits, hnone]
    · simp only [admits, if_true, mem_append, mem_singleton]
      rintro time (htime | rfl)
      · exact Nat.lt_add_right window (hbefore time htime)
      · exact Nat.lt_add_of_pos_right hwindow
  · rw [heq]
    obtain ⟨-, hcount, hlast⟩ := h.used count rfl
    have hle := hstarted count rfl
    refine ⟨fun hnone => absurd hnone (by simp), fun other hother => ?_⟩
    obtain rfl := Option.some.inj hother
    refine ⟨hused, ?_, ?_⟩
    · simpa [admits, hle] using hcount
    · simp only [admits, if_true, mem_append, mem_singleton]
      rw [Count.Open] at hopen
      rintro time (htime | rfl)
      · exact hlast time htime
      · omega
  · rw [heq]
    simpa [admits] using h

/-- Calls that are made in order find windows that have begun. -/
theorem exists_started_le {rest : List (Call K O)} (hlimit : 0 < limit) (window : ℕ)
    (hstarted : ∀ count, entry = some count → count.started ≤ since) (horder : InOrder since (calls ++ rest)) :
    ∃ later, InOrder later rest ∧
      ∀ count, final (alone (check limit window)) entry calls = some count → count.started ≤ later := by
  induction calls generalizing entry since with
  | nil => exact ⟨since, horder, hstarted⟩
  | cons call calls ih =>
    have hnow : ∀ count, entry = some count → count.started ≤ call.now := fun count heq =>
      Nat.le_trans (hstarted count heq) (horder.1 call mem_cons_self)
    exact ih (fun count heq => started_le_of_check hlimit hnow heq) horder.tail

/-- What the counter has admitted behind a list of calls. -/
theorem Tally.log {times : List ℕ} (h : Tally limit window times entry) (hlimit : 0 < limit)
    (hwindow : 0 < window) (hstarted : ∀ count, entry = some count → count.started ≤ since)
    (horder : InOrder since calls) :
    Tally limit window (times ++ admitted (log (alone (Windows.check limit window)) entry calls))
      (final (alone (Windows.check limit window)) entry calls) := by
  induction calls generalizing entry times since with
  | nil => simpa [Windows.log, admitted, final] using h
  | cons call calls ih =>
    have hnow : ∀ count, entry = some count → count.started ≤ call.now := fun count heq =>
      Nat.le_trans (hstarted count heq) (horder.1 call mem_cons_self)
    have hrest := ih (h.check hlimit hwindow hnow call.op)
      (fun count heq => started_le_of_check hlimit hnow heq) horder.tail
    have halone : alone (Windows.check limit window) entry call =
        Windows.check limit window call.op call.now entry := rfl
    rw [Windows.log, halone, admitted_cons, ← append_assoc]
    exact hrest

/-- **What is admitted in a window**: no more than the limit, from its beginning to its end. -/
theorem countP_window_le {rest : List (Call K O)} (hlimit : 0 < limit) (horder : InOrder since (calls ++ rest))
    (hcount : final (alone (check limit window)) none calls = some count) :
    (admitted (log (alone (check limit window)) none (calls ++ rest))).countP
      (fun time => Within count.started window time) ≤ limit := by
  have hnone : ∀ count : Count, none = some count → count.started ≤ since := by simp
  rcases Nat.eq_zero_or_pos window with rfl | hwindow
  · have hempty : ∀ time, ¬ Within count.started 0 time := by
      intro time hwithin
      rw [Within] at hwithin
      omega
    rw [countP_eq_zero.mpr fun time _ => by simpa using hempty time]
    exact Nat.zero_le _
  · have hfresh : Tally limit window [] none := ⟨fun _ => rfl, by simp⟩
    have htally := hfresh.log hlimit hwindow hnone horder.append_left
    obtain ⟨hused, hbefore, -⟩ := htally.used count hcount
    obtain ⟨later, horder_rest, hlater⟩ := exists_started_le hlimit window hnone horder
    have hrest := countP_add_budget_le hlimit window count.started hlater horder_rest
    rw [hcount, budget, if_neg (by omega), if_pos (Nat.le_refl _)] at hrest
    have hpart : (admitted (log (alone (check limit window)) none calls)).countP
        (fun time => Within count.started window time) ≤ count.used := by
      refine Nat.le_trans (countP_mono_left fun time _ hwithin => ?_) hbefore
      exact decide_eq_true (of_decide_eq_true hwithin).1
    rw [log_append, admitted_append, countP_append, hcount]
    omega

/-- A counter that refuses goes on to, until its window is over. -/
theorem final_of_refused (hused : limit ≤ count.used) (hopen : ∀ call ∈ calls, count.Open window call.now) :
    final (alone (check limit window)) (some count) calls = some count := by
  induction calls with
  | nil => rfl
  | cons call calls ih =>
    obtain ⟨hcall, hcalls⟩ := forall_mem_cons.mp hopen
    have hstep : final (alone (check limit window)) (some count) (call :: calls) =
        final (alone (check limit window)) (check limit window call.op call.now (some count)).2 calls := rfl
    rw [hstep, check_of_open hcall, if_pos hused]
    exact ih hcalls

/-- A refusal leaves the counter as it was. -/
theorem check_eq_error {retryAfter : ℕ} (hlimit : 0 < limit)
    (h : (check limit window op now entry).1 = .error retryAfter) :
    (check limit window op now entry).2 = entry ∧ ∃ count, entry = some count ∧ count.Open window now ∧
      limit ≤ count.used ∧ retryAfter = window - (now - count.started) := by
  rcases check_cases hlimit window now op entry with ⟨heq, -⟩ | ⟨count, rfl, -, -, heq⟩ |
    ⟨count, rfl, hopen, hused, heq⟩
  · rw [heq] at h
    cases h
  · rw [heq] at h
    cases h
  · rw [heq] at h
    exact ⟨by rw [heq], count, rfl, hopen, hused, (Except.error.inj h).symm⟩

/-- **A refusal** names a time that is positive, and the first call behind that time is admitted. -/
theorem check_of_refused {retryAfter later : ℕ} {op' : O} (hlimit : 0 < limit)
    (h : (check limit window op now entry).1 = .error retryAfter)
    (hstarted : ∀ count, entry = some count → count.started ≤ now)
    (hbefore : ∀ call ∈ calls, call.now < now + retryAfter) (hlater : now + retryAfter ≤ later) :
    (check limit window op' later (final (alone (check limit window)) entry calls)).1 = .ok () := by
  obtain ⟨-, count, rfl, hopen, hused, rfl⟩ := check_eq_error hlimit h
  have hle := hstarted count rfl
  rw [Count.Open] at hopen
  have hstill : ∀ call ∈ calls, count.Open window call.now := by
    intro call hcall
    have hnow := hbefore call hcall
    rw [Count.Open]
    omega
  rw [final_of_refused hused hstill, check_of_closed hlimit]
  intro other hother
  obtain rfl := Option.some.inj hother
  rw [Count.Open]
  omega

/-- A call takes a count whose window is over for none. -/
theorem check_blind (hlimit : 0 < limit) :
    Blind (fun count now => count.Open window now) (check (O := O) limit window) := by
  intro op now entry full hkept
  rcases hkept.eq_or_expired with rfl | ⟨rfl, hfull⟩
  · exact ⟨rfl, Kept.refl _⟩
  · rw [check_of_closed hlimit hfull, check_of_closed hlimit (by simp)]
    exact ⟨rfl, Kept.refl _⟩

/-- A window that is over stays so. -/
theorem Count.Open.mono {later : ℕ} (h : count.Open window later) (hle : now ≤ later) : count.Open window now := by
  rw [Count.Open] at h ⊢
  omega

end Counters

end Machine.Windows
