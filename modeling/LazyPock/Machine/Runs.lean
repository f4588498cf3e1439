import Mathlib.Data.List.Basic

/-!
# Runs of a transition relation

A labelled transition relation says which states an action can lead to; a run is a finite sequence of
its steps. A step may be restricted by a condition on the state before it and the action, and an
invariant need only survive the steps a run really takes.

## Main definitions

* `Machine.Run`: the runs of a relation.
* `Machine.When`: a relation whose steps meet a condition.
* `Machine.exec`: the run of a machine whose steps are computed.

## Main results

* `Machine.Run.invariant`: what every step keeps.
* `Machine.Run.forall_steps_iff`: what every step keeps exactly under a condition.
* `Machine.Run.when`, `Machine.Run.of_when`, `Machine.Run.append`.
* `Machine.run_of_exec`, `Machine.run_of_exec_when`.
-/

namespace Machine

variable {σ α : Type*} {R : σ → α → σ → Prop}

/-- A finite run with the actions it takes. -/
inductive Run (R : σ → α → σ → Prop) : σ → List α → σ → Prop
  | nil (s : σ) : Run R s [] s
  | cons {s t u : σ} {a : α} {as : List α} (hstep : R s a t) (hrun : Run R t as u) :
      Run R s (a :: as) u

/-- The steps that are taken under a condition. -/
def When (P : σ → α → Prop) (R : σ → α → σ → Prop) : σ → α → σ → Prop :=
  fun s a t => P s a ∧ R s a t

namespace Run

/-- What every step keeps holds at the end of a run. -/
theorem invariant {I : σ → Prop} (hstep : ∀ s a t, I s → R s a t → I t) {s t : σ} {as : List α}
    (hrun : Run R s as t) (hs : I s) : I t := by
  induction hrun with
  | nil s => exact hs
  | cons h _ ih => exact ih (hstep _ _ _ hs h)

/-- A run of actions that meet a condition in every state. -/
theorem when {P : σ → α → Prop} {s t : σ} {as : List α} (hrun : Run R s as t)
    (hP : ∀ a ∈ as, ∀ s, P s a) : Run (When P R) s as t := by
  induction hrun with
  | nil s => exact .nil s
  | cons hstep _ ih =>
    obtain ⟨ha, has⟩ := List.forall_mem_cons.mp hP
    exact .cons ⟨ha _, hstep⟩ (ih has)

/-- The condition forgotten. -/
theorem of_when {P : σ → α → Prop} {s t : σ} {as : List α} (hrun : Run (When P R) s as t) :
    Run R s as t := by
  induction hrun with
  | nil s => exact .nil s
  | cons hstep _ ih => exact .cons hstep.2 ih

theorem append {s t u : σ} {as bs : List α} (hst : Run R s as t) (htu : Run R t bs u) :
    Run R s (as ++ bs) u := by
  induction hst with
  | nil s => exact htu
  | cons hstep _ ih => exact .cons hstep (ih htu)

/-- **An invariant that one step keeps exactly under a condition**, together with a property of the step,
is kept along a run exactly where every step of it meets the condition. -/
theorem forall_steps_iff {I : σ → Prop} {P : σ → α → Prop} {Q : σ → α → σ → Prop}
    (hdet : ∀ s a t t', R s a t → R s a t' → t = t')
    (hstep : ∀ s a t, I s → R s a t → ((I t ∧ Q s a t) ↔ P s a)) {s t : σ} {as : List α}
    (hs : I s) (hrun : Run R s as t) :
    (∀ bs a cs u v, as = bs ++ a :: cs → Run R s bs u → R u a v → I v ∧ Q u a v) ↔
      Run (When P R) s as t := by
  induction hrun with
  | nil s =>
    refine iff_of_true (fun bs a cs u v h => ?_) (.nil s)
    simp at h
  | @cons s t' u a as hfirst hrest ih =>
    constructor
    · intro h
      have hhead := h [] a as s t' rfl (.nil s) hfirst
      refine .cons ⟨(hstep s a t' hs hfirst).mp hhead, hfirst⟩ ((ih hhead.1).mp ?_)
      exact fun bs b cs v w hsplit hbs hb =>
        h (a :: bs) b cs v w (by rw [hsplit, List.cons_append]) (.cons hfirst hbs) hb
    · intro hwhen bs b cs v w hsplit hbs hb
      obtain ⟨hP, hwhenRest⟩ : P s a ∧ Run (When P R) t' as u := by
        cases hwhen with
        | cons hstep' hrest' =>
          obtain rfl := hdet s a _ _ hstep'.2 hfirst
          exact ⟨hstep'.1, hrest'⟩
      have hhead := (hstep s a t' hs hfirst).mpr hP
      cases hbs with
      | nil =>
        obtain ⟨rfl, rfl⟩ := List.cons.inj hsplit
        obtain rfl := hdet _ _ _ _ hb hfirst
        exact hhead
      | cons hfirst' hbs' =>
        rw [List.cons_append] at hsplit
        obtain ⟨rfl, rfl⟩ := List.cons.inj hsplit
        obtain rfl := hdet _ _ _ _ hfirst' hfirst
        exact (ih hhead.1).mpr hwhenRest _ b cs v w rfl hbs' hb

end Run

/-- The state after a list of actions, where each of them can be taken. -/
def exec (step : σ → α → Option σ) : σ → List α → Option σ
  | s, [] => some s
  | s, a :: as => (step s a).bind fun t => exec step t as

variable {step : σ → α → Option σ}

theorem exec_cons {s t : σ} {a : α} (h : step s a = some t) (as : List α) :
    exec step s (a :: as) = exec step t as := by
  rw [exec, h, Option.bind_some]

theorem exec_append (s : σ) (as bs : List α) :
    exec step s (as ++ bs) = (exec step s as).bind fun t => exec step t bs := by
  induction as generalizing s with
  | nil => rfl
  | cons a as ih =>
    rw [List.cons_append, exec, exec, Option.bind_assoc]
    exact congrArg _ (funext fun t => ih t)

theorem run_of_exec {s t : σ} {as : List α}
    (h : exec step s as = some t) : Run (fun s a t => step s a = some t) s as t := by
  induction as generalizing s with
  | nil =>
    rw [exec, Option.some.injEq] at h
    exact h ▸ .nil s
  | cons a as ih =>
    obtain ⟨u, hu, h⟩ := Option.bind_eq_some_iff.mp h
    exact .cons hu (ih h)

/-- A run whose steps are computed, each after its condition was checked. -/
theorem run_of_exec_when {P : σ → α → Prop} [∀ s a, Decidable (P s a)]
    {s t : σ} {as : List α} (h : exec (fun s a => if P s a then step s a else none) s as = some t) :
    Run (When P fun s a t => step s a = some t) s as t := by
  have hrun := run_of_exec h
  clear h
  induction hrun with
  | nil s => exact .nil s
  | cons hstep _ ih =>
    split at hstep
    · rename_i hP
      exact .cons ⟨hP, hstep⟩ ih
    · cases hstep

end Machine
