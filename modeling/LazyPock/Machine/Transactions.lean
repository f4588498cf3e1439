import Mathlib.Data.List.Basic
import Mathlib.Logic.Relation

/-!
# Transactions and sagas

Two ways for a program over a stored state to fail. The work of a transaction either ends in a new
state or leaves the old one: a failure carries no state. A saga is a sequence of transactions, and what
it has committed stays when a later step fails.

## Main definitions

* `Machine.Tx`: work that ends in a new state or fails.
* `Machine.Saga`: a program that keeps what it committed before it failed.
* `Machine.Saga.commit`: a transaction as one step of a saga.
* `Machine.Saga.Quiet`, `Machine.Saga.Keeps`: a program that only reads, or leaves a part alone.
* `Machine.Saga.Fails`, `Machine.Saga.Spares`: that a run fails, and what a failure leaves alone.
* `Machine.Tx.Ensures`: pre- and postconditions.
* `Machine.Saga.Preserves`: a program that stays in an invariant.
* `Machine.Tx.Steps`, `Machine.Saga.Steps`: work that is a sequence of steps of a relation.

## Main results

* `Machine.Tx.bind_eq_ok`, `Machine.Saga.bind_eq_ok`, `Machine.Saga.bind_eq_error`: the runs
  of a sequence of two steps.
* `Machine.Tx.Ensures.bind`, `Machine.Tx.Steps.bind`, `Machine.Saga.Steps.bind` and the rules for
  loops.
-/

namespace Machine

variable {σ ε α β : Type}

/-- Work inside a transaction. -/
def Tx (σ ε α : Type) : Type := σ → Except ε (α × σ)

/-- A program whose committed steps stay. -/
def Saga (σ ε α : Type) : Type := σ → Except ε α × σ

/-! ### Transactions -/

namespace Tx

instance : Monad (Tx σ ε) where
  pure a := fun s => .ok (a, s)
  bind m f := fun s => match m s with
    | .ok (a, t) => f a t
    | .error e => .error e

/-- A computation that does not look at the state. -/
def lift (r : Except ε α) : Tx σ ε α := fun s => r.map fun a => (a, s)

/-- Work that is given by its result in each state. -/
def of (f : σ → Except ε (α × σ)) : Tx σ ε α := f

/-- Read the state. -/
def get : Tx σ ε σ := fun s => .ok (s, s)

/-- Change the state. -/
def modify (f : σ → σ) : Tx σ ε Unit := fun s => .ok ((), f s)

/-- Run a statement that may be refused. -/
def run (statement : σ → Option σ) (e : ε) : Tx σ ε Unit := fun s =>
  match statement s with
  | some t => .ok ((), t)
  | none => .error e

/-- Work that is done under a condition. -/
def onlyIf (c : Bool) (m : Tx σ ε Unit) : Tx σ ε Unit := if c then m else pure ()

/-- Work on a value that may be absent. -/
def onSome (o : Option α) (f : α → Tx σ ε Unit) : Tx σ ε Unit :=
  match o with
  | some a => f a
  | none => pure ()

@[simp] theorem pure_apply (a : α) (s : σ) : (pure a : Tx σ ε α) s = .ok (a, s) := rfl

@[simp] theorem of_apply (f : σ → Except ε (α × σ)) (s : σ) : of f s = f s := rfl

@[simp] theorem get_apply (s : σ) : (get : Tx σ ε σ) s = .ok (s, s) := rfl

@[simp] theorem modify_apply (f : σ → σ) (s : σ) :
    (modify f : Tx σ ε Unit) s = .ok ((), f s) := rfl

theorem bind_eq_ok {m : Tx σ ε α} {f : α → Tx σ ε β} {s u : σ} {b : β} :
    (m >>= f) s = .ok (b, u) ↔ ∃ a t, m s = .ok (a, t) ∧ f a t = .ok (b, u) := by
  change (match m s with | .ok (a, t) => f a t | .error e => .error e) = .ok (b, u) ↔ _
  cases h : m s with
  | error e => simp
  | ok r =>
    obtain ⟨a, t⟩ := r
    simp

@[simp] theorem lift_eq_ok {r : Except ε α} {s t : σ} {a : α} :
    (lift r : Tx σ ε α) s = .ok (a, t) ↔ r = .ok a ∧ s = t := by
  cases r <;> simp [lift, Except.map]

@[simp] theorem run_eq_ok {statement : σ → Option σ} {e : ε} {s t : σ} {u : Unit} :
    (run statement e : Tx σ ε Unit) s = .ok (u, t) ↔ statement s = some t := by
  unfold run
  cases statement s <;> simp

theorem lift_bind_eq_ok {r : Except ε α} {f : α → Tx σ ε β} {s u : σ} {b : β} :
    (lift r >>= f : Tx σ ε β) s = .ok (b, u) ↔ ∃ a, r = .ok a ∧ f a s = .ok (b, u) := by
  rw [bind_eq_ok]
  constructor
  · rintro ⟨a, t, h, hf⟩
    obtain ⟨hr, rfl⟩ := lift_eq_ok.mp h
    exact ⟨a, hr, hf⟩
  · rintro ⟨a, hr, hf⟩
    exact ⟨a, s, lift_eq_ok.mpr ⟨hr, rfl⟩, hf⟩

theorem run_bind_eq_ok {statement : σ → Option σ} {e : ε} {f : Unit → Tx σ ε β} {s u : σ} {b : β} :
    (run statement e >>= f : Tx σ ε β) s = .ok (b, u) ↔
      ∃ t, statement s = some t ∧ f () t = .ok (b, u) := by
  simp only [bind_eq_ok, run_eq_ok]
  exact ⟨fun ⟨_, t, h⟩ => ⟨t, h⟩, fun ⟨t, h⟩ => ⟨(), t, h⟩⟩

theorem get_bind (f : σ → Tx σ ε β) (s : σ) : (get >>= f : Tx σ ε β) s = f s s := rfl

theorem modify_bind (g : σ → σ) (f : Unit → Tx σ ε β) (s : σ) :
    (modify g >>= f : Tx σ ε β) s = f () (g s) := rfl

/-- Whatever `P` holds before, `Q` holds of the result where the work succeeds. -/
def Ensures (P : σ → Prop) (m : Tx σ ε α) (Q : α → σ → Prop) : Prop :=
  ∀ s a t, P s → m s = .ok (a, t) → Q a t

theorem Ensures.bind {P : σ → Prop} {m : Tx σ ε α} {f : α → Tx σ ε β} {Q : α → σ → Prop}
    {R : β → σ → Prop} (hm : Ensures P m Q) (hf : ∀ a, Ensures (Q a) (f a) R) :
    Ensures P (m >>= f) R := by
  intro s b u hs h
  obtain ⟨a, t, hmt, hfu⟩ := bind_eq_ok.mp h
  exact hf a t b u (hm s a t hs hmt) hfu

theorem Ensures.trivial {P : σ → Prop} {m : Tx σ ε α} : Ensures P m fun _ _ => True :=
  fun _ _ _ _ _ => True.intro

/-- What every round of a loop keeps. -/
theorem Ensures.forM {I : σ → Prop} {f : α → Tx σ ε PUnit} {l : List α}
    (hf : ∀ a ∈ l, Ensures I (f a) fun _ => I) : Ensures I (l.forM f) fun _ => I := by
  induction l with
  | nil =>
    intro s a t hs h
    obtain rfl : s = t := by simpa using h
    exact hs
  | cons x l ih =>
    obtain ⟨hx, hl⟩ := List.forall_mem_cons.mp hf
    exact hx.bind fun _ => ih hl

/-- From a state of `J`, the work is a sequence of steps of `R` that stays in `J`. -/
def Steps (J : σ → Prop) (R : σ → σ → Prop) (m : Tx σ ε α) : Prop :=
  ∀ s a t, J s → m s = .ok (a, t) → Relation.ReflTransGen R s t ∧ J t

namespace Steps

variable {J : σ → Prop} {R : σ → σ → Prop}

theorem pure (a : α) : Steps J R (pure a : Tx σ ε α) := by
  intro s b t hs h
  obtain ⟨-, rfl⟩ : a = b ∧ s = t := by simpa using h
  exact ⟨.refl, hs⟩

theorem bind {m : Tx σ ε α} {f : α → Tx σ ε β} (hm : Steps J R m) (hf : ∀ a, Steps J R (f a)) :
    Steps J R (m >>= f) := by
  intro s b u hs h
  obtain ⟨a, t, hmt, hfu⟩ := bind_eq_ok.mp h
  obtain ⟨hst, ht⟩ := hm s a t hs hmt
  obtain ⟨htu, hu⟩ := hf a t b u ht hfu
  exact ⟨hst.trans htu, hu⟩

theorem lift (r : Except ε α) : Steps J R (lift r : Tx σ ε α) := by
  intro s a t hs h
  obtain ⟨-, rfl⟩ := lift_eq_ok.mp h
  exact ⟨.refl, hs⟩

/-- What follows may rely on a computation that does not look at the state. -/
theorem lift_bind {r : Except ε α} {f : α → Tx σ ε β} (hf : ∀ a, r = .ok a → Steps J R (f a)) :
    Steps J R (Tx.lift r >>= f) := by
  intro s b u hs h
  obtain ⟨a, ha, hfu⟩ := lift_bind_eq_ok.mp h
  exact hf a ha s b u hs hfu

theorem get : Steps J R (get : Tx σ ε σ) := by
  intro s a t hs h
  obtain ⟨-, rfl⟩ : s = a ∧ s = t := by simpa using h
  exact ⟨.refl, hs⟩

theorem forM {f : α → Tx σ ε PUnit} {l : List α} (hf : ∀ a ∈ l, Steps J R (f a)) :
    Steps J R (l.forM f) := by
  induction l with
  | nil => exact .pure _
  | cons x l ih =>
    obtain ⟨hx, hl⟩ := List.forall_mem_cons.mp hf
    exact hx.bind fun _ => ih hl

theorem onlyIf {c : Bool} {m : Tx σ ε Unit} (hm : c = true → Steps J R m) :
    Steps J R (onlyIf c m) := by
  cases c with
  | true => exact hm rfl
  | false => exact .pure _

theorem onSome {o : Option α} {f : α → Tx σ ε Unit} (hf : ∀ a, o = some a → Steps J R (f a)) :
    Steps J R (onSome o f) := by
  cases o with
  | some a => exact hf a rfl
  | none => exact .pure _

/-- A statement that is one step. -/
theorem run (hJ : ∀ s t, J s → R s t → J t) {statement : σ → Option σ} {e : ε}
    (h : ∀ s t, J s → statement s = some t → R s t) :
    Steps J R (run statement e : Tx σ ε Unit) := by
  intro s a t hs hrun
  have hstep := h s t hs (run_eq_ok.mp hrun)
  exact ⟨.single hstep, hJ s t hs hstep⟩

/-- A change that is one step. -/
theorem modify (hJ : ∀ s t, J s → R s t → J t) {f : σ → σ} (h : ∀ s, J s → R s (f s)) :
    Steps J R (modify f : Tx σ ε Unit) := by
  intro s a t hs hmodify
  obtain rfl : f s = t := by simpa using hmodify
  exact ⟨.single (h s hs), hJ s _ hs (h s hs)⟩

end Steps

end Tx

/-! ### Sagas -/

namespace Saga

instance : Monad (Saga σ ε) where
  pure a := fun s => (.ok a, s)
  bind m f := fun s => match m s with
    | (.ok a, t) => f a t
    | (.error e, t) => (.error e, t)

/-- A computation that does not look at the state. -/
def lift (r : Except ε α) : Saga σ ε α := fun s => (r, s)

/-- Read the state, outside any transaction. -/
def read (f : σ → Except ε α) : Saga σ ε α := fun s => (f s, s)

/-- Run a transaction: it is committed where it succeeds, and rolled back where it fails. -/
def commit (m : Tx σ ε α) : Saga σ ε α := fun s =>
  match m s with
  | .ok (a, t) => (.ok a, t)
  | .error e => (.error e, s)

/-- A part that runs under a condition. -/
def onlyIf (c : Bool) (m : Saga σ ε Unit) : Saga σ ε Unit := if c then m else pure ()

/-- A part for a value that may be absent. -/
def onSome (o : Option α) (f : α → Saga σ ε Unit) : Saga σ ε Unit :=
  match o with
  | some a => f a
  | none => pure ()

@[simp] theorem pure_apply (a : α) (s : σ) : (pure a : Saga σ ε α) s = (.ok a, s) := rfl

@[simp] theorem lift_apply (r : Except ε α) (s : σ) : (lift r : Saga σ ε α) s = (r, s) := rfl

@[simp] theorem read_apply (f : σ → Except ε α) (s : σ) : (read f : Saga σ ε α) s = (f s, s) :=
  rfl

variable {m : Saga σ ε α} {s : σ}

/-- A run by its result; the state it leaves need not be evaluated. -/
theorem apply_of_fst {a : α} (h : (m s).1 = .ok a) :
    m s = (.ok a, (m s).2) := by
  rw [← h]

variable {f : α → Saga σ ε β}

theorem bind_eq_ok {u : σ} {b : β} :
    (m >>= f) s = (.ok b, u) ↔ ∃ a t, m s = (.ok a, t) ∧ f a t = (.ok b, u) := by
  change (match m s with | (.ok a, t) => f a t | (.error e, t) => (.error e, t)) = (.ok b, u) ↔ _
  obtain ⟨r, t⟩ := m s
  cases r <;> simp

theorem bind_eq_error {u : σ} {e : ε} :
    (m >>= f) s = (.error e, u) ↔
      m s = (.error e, u) ∨ ∃ a t, m s = (.ok a, t) ∧ f a t = (.error e, u) := by
  change (match m s with | (.ok a, t) => f a t | (.error e, t) => (.error e, t)) = (.error e, u) ↔ _
  obtain ⟨r, t⟩ := m s
  cases r <;> simp

theorem bind_of_ok {t : σ} {a : α} (h : m s = (.ok a, t))
    (f : α → Saga σ ε β) : (m >>= f) s = f a t := by
  change (match m s with | (.ok a, t) => f a t | (.error e, t) => (.error e, t)) = f a t
  rw [h]

theorem bind_of_error {t : σ} {e : ε} (h : m s = (.error e, t))
    (f : α → Saga σ ε β) : (m >>= f) s = (.error e, t) :=
  bind_eq_error.mpr (.inl h)

theorem lift_bind_eq_ok {r : Except ε α} {u : σ} {b : β} :
    (lift r >>= f : Saga σ ε β) s = (.ok b, u) ↔ ∃ a, r = .ok a ∧ f a s = (.ok b, u) := by
  rw [bind_eq_ok]
  simp only [lift_apply, Prod.mk.injEq]
  constructor
  · rintro ⟨a, t, ⟨hr, rfl⟩, h⟩
    exact ⟨a, hr, h⟩
  · rintro ⟨a, hr, h⟩
    exact ⟨a, s, ⟨hr, rfl⟩, h⟩

theorem commit_eq_ok {m : Tx σ ε α} {t : σ} {a : α} :
    commit m s = (.ok a, t) ↔ m s = .ok (a, t) := by
  unfold commit
  cases h : m s with
  | error e => simp
  | ok r =>
    obtain ⟨b, u⟩ := r
    simp

/-- A transaction that fails leaves the state. -/
theorem commit_eq_error {m : Tx σ ε α} {t : σ} {e : ε} :
    commit m s = (.error e, t) ↔ m s = .error e ∧ t = s := by
  unfold commit
  cases h : m s with
  | error e' => simp [eq_comm]
  | ok r =>
    obtain ⟨b, u⟩ := r
    simp

/-- A program that only reads. -/
def Quiet (m : Saga σ ε α) : Prop := ∀ s, (m s).2 = s

theorem Quiet.lift (r : Except ε α) : Quiet (lift r : Saga σ ε α) := fun _ => rfl

theorem Quiet.read (f : σ → Except ε α) : Quiet (read f) := fun _ => rfl

theorem Quiet.bind (hm : Quiet m) (hf : ∀ a, Quiet (f a)) :
    Quiet (m >>= f) := by
  intro s
  cases hr : m s with
  | mk r t =>
    obtain rfl : t = s := by simpa only [hr] using hm s
    cases r with
    | ok a => rw [bind_of_ok hr]; exact hf a t
    | error e => rw [bind_of_error hr]

/-- A program that leaves a part of the state alone. -/
def Keeps {τ : Type} (part : σ → τ) (m : Saga σ ε α) : Prop := ∀ s, part (m s).2 = part s

theorem Quiet.keeps {τ : Type} (hm : Quiet m) (part : σ → τ) : Keeps part m :=
  fun s => congrArg part (hm s)

theorem Keeps.of_eq {τ : Type} {part : σ → τ} (hm : Keeps part m) {t : σ}
    {r : Except ε α} (h : m s = (r, t)) : part t = part s := by
  rw [← hm s, h]

/-- What a sequence does to a part that its end leaves alone. -/
theorem Keeps.snd_bind {τ : Type} {part : σ → τ}
    (hf : ∀ a, Keeps part (f a)) (s : σ) : part ((m >>= f) s).2 = part (m s).2 := by
  cases hr : m s with
  | mk r t =>
    cases r with
    | ok a => rw [bind_of_ok hr, hf a t]
    | error e => rw [bind_of_error hr]

theorem Quiet.snd_bind (hf : ∀ a, Quiet (f a)) (s : σ) :
    ((m >>= f) s).2 = (m s).2 :=
  Keeps.snd_bind (fun a => (hf a).keeps id) s

theorem Keeps.bind {τ : Type} {part : σ → τ}
    (hm : Keeps part m) (hf : ∀ a, Keeps part (f a)) : Keeps part (m >>= f) := by
  intro s
  rw [Keeps.snd_bind hf, hm s]

theorem Keeps.onSome {τ : Type} {part : σ → τ} {o : Option α} {f : α → Saga σ ε Unit}
    (hf : ∀ a, Keeps part (f a)) : Keeps part (onSome o f) := by
  cases o with
  | none => exact fun _ => rfl
  | some a => exact hf a

/-- What follows a program that only reads starts from the same state. -/
theorem Quiet.bind_apply (hm : Quiet m) (f : α → Saga σ ε β) (s : σ) :
    (m >>= f) s = match (m s).1 with
      | .ok a => f a s
      | .error e => (.error e, s) := by
  cases hr : m s with
  | mk r t =>
    obtain rfl : t = s := by simpa only [hr] using hm s
    cases r with
    | ok a => rw [bind_of_ok hr]
    | error e => rw [bind_of_error hr]

theorem Quiet.bind_eq_ok (hm : Quiet m) {b : β} :
    ((m >>= f) s).1 = .ok b ↔ ∃ a, (m s).1 = .ok a ∧ (f a s).1 = .ok b := by
  rw [hm.bind_apply]
  cases (m s).1 <;> simp

/-- What holds of the state a sequence leaves, when it holds of the one it starts in. -/
theorem Quiet.bind_snd (hm : Quiet m) {Q : σ → Prop}
    (hs : Q s) (hf : ∀ a, (m s).1 = .ok a → Q (f a s).2) : Q ((m >>= f) s).2 := by
  rw [hm.bind_apply]
  cases hr : (m s).1 with
  | ok a => exact hf a hr
  | error e => exact hs

/-- A run that ends in an error. -/
def Fails (m : Saga σ ε α) (s : σ) : Prop := ∃ e, (m s).1 = .error e

theorem fails_lift {r : Except ε α} : Fails (lift r) s ↔ ∃ e, r = .error e := .rfl

theorem fails_bind :
    Fails (m >>= f) s ↔ Fails m s ∨ ∃ a t, m s = (.ok a, t) ∧ Fails (f a) t := by
  unfold Fails
  cases hr : m s with
  | mk r t =>
    cases r with
    | ok a =>
      rw [bind_of_ok hr]
      simp
    | error e =>
      rw [bind_of_error hr]
      simp

/-- The state a sequence leaves, where its first step does not fail and where it does. -/
theorem bind_snd_of_not_fails (h : ¬ Fails m s) :
    ∃ a, (m s).1 = .ok a ∧ (m >>= f) s = f a (m s).2 := by
  cases hr : m s with
  | mk r t =>
    cases r with
    | ok a => exact ⟨a, rfl, bind_of_ok hr f⟩
    | error e => exact absurd ⟨e, by rw [hr]⟩ h

theorem bind_snd_of_fails (h : Fails m s) :
    ((m >>= f) s).2 = (m s).2 ∧ Fails (m >>= f) s := by
  obtain ⟨e, he⟩ := h
  have hr : m s = (.error e, (m s).2) := Prod.ext he rfl
  rw [Fails, bind_of_error hr]
  exact ⟨rfl, e, rfl⟩

/-- A sequence whose second step fails for a reason that the first does not touch. -/
theorem fails_bind_iff {P : Prop}
    (h : ∀ a t, m s = (.ok a, t) → (Fails (f a) t ↔ P)) :
    Fails (m >>= f) s ↔ Fails m s ∨ P := by
  rw [fails_bind]
  refine ⟨Or.imp_right fun ⟨a, t, hm, hf⟩ => (h a t hm).mp hf, ?_⟩
  rintro (hm | hP)
  · exact .inl hm
  · cases hr : m s with
    | mk r t =>
      cases r with
      | ok a => exact .inr ⟨a, t, rfl, (h a t hr).mpr hP⟩
      | error e => exact .inl ⟨e, by rw [hr]⟩

/-- A loop whose rounds leave the state where they fail ends as a shorter loop does. -/
theorem forM_eq_error {f : α → Saga σ ε PUnit} {l : List α}
    (hf : ∀ a s e t, f a s = (.error e, t) → t = s) {t : σ} {e : ε}
    (h : l.forM f s = (.error e, t)) : ∃ n < l.length, (l.take n).forM f s = (.ok ⟨⟩, t) := by
  induction l generalizing s with
  | nil => cases congrArg Prod.fst h
  | cons a l ih =>
    rcases bind_eq_error.mp h with hfirst | ⟨_, u, hfirst, hrest⟩
    · exact ⟨0, Nat.zero_lt_succ _, Prod.ext rfl (hf a s e t hfirst).symm⟩
    · obtain ⟨n, hn, htake⟩ := ih hrest
      exact ⟨n + 1, Nat.succ_lt_succ hn, bind_eq_ok.mpr ⟨_, u, hfirst, htake⟩⟩

theorem fails_commit {m : Tx σ ε α} : Fails (commit m) s ↔ ∃ e, m s = .error e := by
  unfold Fails commit
  cases m s <;> simp

theorem not_fails_of_eq_ok {a : α} (h : (m s).1 = .ok a) : ¬ Fails m s := by
  rintro ⟨e, he⟩
  rw [h] at he
  cases he

@[simp] theorem not_fails_pure {a : α} : ¬ Fails (pure a : Saga σ ε α) s := by
  rintro ⟨e, h⟩
  cases h

/-- What an error leaves is related to what was there before. -/
def Spares (R : σ → σ → Prop) (m : Saga σ ε α) (s : σ) : Prop :=
  ∀ e t, m s = (.error e, t) → R s t

/-- A program that only reads spares what there is, and so does the whole when the rest does. -/
theorem Quiet.spares_bind {R : σ → σ → Prop} (hrefl : ∀ s, R s s) (hm : Quiet m) :
    Spares R (m >>= f) s ↔ ∀ a, (m s).1 = .ok a → Spares R (f a) s := by
  unfold Spares
  simp only [hm.bind_apply f s]
  cases hr : (m s).1 with
  | ok a => simp
  | error e =>
    simp only [reduceCtorEq, false_implies, implies_true, iff_true]
    rintro e' t h
    rw [Prod.mk.injEq] at h
    exact h.2 ▸ hrefl s

/-- A program that stays in `J`, also where it fails. -/
def Preserves (J : σ → Prop) (m : Saga σ ε α) : Prop := ∀ s, J s → J (m s).2

namespace Preserves

variable {J : σ → Prop}

theorem of_quiet {m : Saga σ ε α} (hm : Quiet m) : Preserves J m := by
  intro s hs
  rwa [hm s]

theorem pure (a : α) : Preserves J (pure a : Saga σ ε α) := of_quiet fun _ => rfl

theorem lift (r : Except ε α) : Preserves J (lift r : Saga σ ε α) := of_quiet (.lift r)

theorem read (f : σ → Except ε α) : Preserves J (read f) := of_quiet (.read f)

theorem bind {m : Saga σ ε α} {f : α → Saga σ ε β} (hm : Preserves J m)
    (hf : ∀ a, Preserves J (f a)) : Preserves J (m >>= f) := by
  intro s hs
  have ht := hm s hs
  cases hr : m s with
  | mk r t =>
    rw [hr] at ht
    cases r with
    | error e => rwa [bind_of_error hr]
    | ok a =>
      rw [bind_of_ok hr]
      exact hf a t ht

theorem lift_bind {r : Except ε α} {f : α → Saga σ ε β} (hf : ∀ a, r = .ok a → Preserves J (f a)) :
    Preserves J (Saga.lift r >>= f) := by
  cases r with
  | error e => exact fun s hs => hs
  | ok a => exact hf a rfl

theorem forM {f : α → Saga σ ε PUnit} {l : List α} (hf : ∀ a ∈ l, Preserves J (f a)) :
    Preserves J (l.forM f) := by
  induction l with
  | nil => exact .pure _
  | cons x l ih =>
    obtain ⟨hx, hl⟩ := List.forall_mem_cons.mp hf
    exact hx.bind fun _ => ih hl

/-- A transaction preserves what its work preserves where it succeeds. -/
theorem commit {m : Tx σ ε α} (hm : ∀ s a t, J s → m s = .ok (a, t) → J t) :
    Preserves J (commit m) := by
  intro s hs
  unfold Saga.commit
  cases hr : m s with
  | error e => exact hs
  | ok result => exact hm s result.1 result.2 hs hr

end Preserves

/-- From a state of `J`, whatever the program does, also where it fails, is a sequence of steps of `R`
that stays in `J`. -/
def Steps (J : σ → Prop) (R : σ → σ → Prop) (m : Saga σ ε α) : Prop :=
  ∀ s, J s → Relation.ReflTransGen R s (m s).2 ∧ J (m s).2

namespace Steps

variable {J : σ → Prop} {R : σ → σ → Prop}

theorem of_quiet {m : Saga σ ε α} (hm : Quiet m) : Steps J R m := by
  intro s hs
  rw [hm s]
  exact ⟨.refl, hs⟩

theorem pure (a : α) : Steps J R (pure a : Saga σ ε α) := of_quiet fun _ => rfl

theorem lift (r : Except ε α) : Steps J R (lift r : Saga σ ε α) := of_quiet (.lift r)

theorem read (f : σ → Except ε α) : Steps J R (read f) := of_quiet (.read f)

theorem bind {m : Saga σ ε α} {f : α → Saga σ ε β} (hm : Steps J R m)
    (hf : ∀ a, Steps J R (f a)) : Steps J R (m >>= f) := by
  intro s hs
  obtain ⟨hst, ht⟩ := hm s hs
  cases hr : m s with
  | mk r t =>
    rw [hr] at hst ht
    cases r with
    | error e =>
      rw [bind_of_error hr]
      exact ⟨hst, ht⟩
    | ok a =>
      rw [bind_of_ok hr]
      obtain ⟨htu, hu⟩ := hf a t ht
      exact ⟨hst.trans htu, hu⟩

/-- What follows may rely on what was read. -/
theorem read_bind {f : σ → Except ε α} {g : α → Saga σ ε β}
    (h : ∀ s a, J s → f s = .ok a → Relation.ReflTransGen R s (g a s).2 ∧ J (g a s).2) :
    Steps J R (Saga.read f >>= g) := by
  intro s hs
  rw [(Quiet.read f).bind_apply]
  cases hf : f s with
  | error e =>
    rw [read_apply, hf]
    exact ⟨.refl, hs⟩
  | ok a =>
    rw [read_apply, hf]
    exact h s a hs hf

theorem onlyIf {c : Bool} {m : Saga σ ε Unit} (hm : c = true → Steps J R m) :
    Steps J R (Saga.onlyIf c m) := by
  cases c with
  | true => exact hm rfl
  | false => exact .pure _

theorem commit {m : Tx σ ε α} (hm : Tx.Steps J R m) : Steps J R (Saga.commit m) := by
  intro s hs
  unfold Saga.commit
  cases h : m s with
  | error e => exact ⟨.refl, hs⟩
  | ok r =>
    obtain ⟨a, t⟩ := r
    exact hm s a t hs h

end Steps

end Saga

end Machine
