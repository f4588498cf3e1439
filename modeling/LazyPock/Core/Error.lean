import LazyPock.Core.Text

/-!
# Application errors

The error model of `crates/core/src/error.rs`: one constructor per kind, each with its message.
A fallible function of the server returns `Result α`.
-/

namespace LazyPock

/-- An application-level error. -/
inductive Error where
  /-- Invalid or unsupported configuration. -/
  | config (message : String)
  /-- A recognised feature or setting that is not implemented or enabled. -/
  | unsupported (message : String)
  /-- The caller supplied a malformed value. -/
  | invalid (message : String)
  /-- The requested resource does not exist. -/
  | notFound (message : String)
  /-- The request conflicts with existing state. -/
  | conflict (message : String)
  /-- Authentication is required or the credentials are wrong. -/
  | unauthorized (message : String)
  /-- Authenticated but not permitted. -/
  | forbidden (message : String)
  /-- Unexpected internal failure. -/
  | internal (message : String)
deriving DecidableEq, Repr

namespace Error

/-- HTTP status code for this error. -/
@[grind =]
def status : Error → ℕ
  | config _ | internal _ => 500
  | unsupported _ => 501
  | invalid _ => 400
  | notFound _ => 404
  | conflict _ => 409
  | unauthorized _ => 401
  | forbidden _ => 403

/-- Stable machine-readable code. -/
@[grind =]
def code : Error → String
  | config _ => "config_error"
  | unsupported _ => "unsupported"
  | invalid _ => "invalid_request"
  | notFound _ => "not_found"
  | conflict _ => "conflict"
  | unauthorized _ => "unauthorized"
  | forbidden _ => "forbidden"
  | internal _ => "internal_error"

@[grind =]
def message : Error → String
  | config m | unsupported m | invalid m | notFound m | conflict m | unauthorized m | forbidden m
  | internal m => m

/-- `{}` on an error. -/
def display (e : Error) : String := e.code ++ ": " ++ e.message

end Error

/-- `Result<T, Error>`. -/
abbrev Result (α : Type) := Except Error α

/-- Whether a result is a success. -/
@[grind =]
def isOk {α : Type} : Result α → Bool
  | .ok _ => true
  | .error _ => false

variable {α : Type}

@[simp] theorem isOk_ok (a : α) : isOk (.ok a : Result α) = true := rfl

@[simp] theorem isOk_error (e : Error) : isOk (.error e : Result α) = false := rfl

theorem isOk_iff {r : Result α} : isOk r = true ↔ ∃ a, r = .ok a := by
  cases r <;> simp

theorem isOk_eq_false {r : Result α} : isOk r = false ↔ ∃ e, r = .error e := by
  cases r <;> simp

section Bind

variable {α β : Type}

/-- A sequence of two fallible steps succeeds when both do. -/
theorem bind_eq_ok {ε : Type} {x : Except ε α} {f : α → Except ε β} {b : β} :
    (x >>= f) = .ok b ↔ ∃ a, x = .ok a ∧ f a = .ok b := by
  cases x <;> simp [bind, Except.bind]

/-- An error that is told otherwise. -/
theorem mapError_eq_ok {ε ε' : Type} {x : Except ε α} {f : ε → ε'} {a : α} :
    x.mapError f = .ok a ↔ x = .ok a := by
  cases x <;> simp [Except.mapError]

theorem isOk_bind {x : Result α} {f : α → Result β} :
    isOk (x >>= f) = true ↔ ∃ a, x = .ok a ∧ isOk (f a) = true := by
  cases x <;> simp [bind, Except.bind]

/-- What a list of steps gives was given by one of them. -/
theorem exists_of_mapM {ε : Type} {f : α → Except ε β} {items : List α} {results : List β}
    (h : items.mapM f = .ok results) {b : β} (hb : b ∈ results) : ∃ a ∈ items, f a = .ok b := by
  induction items generalizing results with
  | nil =>
    obtain rfl := Except.ok.inj h
    cases hb
  | cons a items ih =>
    rw [List.mapM_cons] at h
    obtain ⟨first, hfirst, h⟩ := bind_eq_ok.mp h
    obtain ⟨rest, hrest, h⟩ := bind_eq_ok.mp h
    obtain rfl := Except.ok.inj h
    rcases List.mem_cons.mp hb with rfl | hb
    · exact ⟨a, List.mem_cons_self, hfirst⟩
    · obtain ⟨other, hother, hstep⟩ := ih hrest hb
      exact ⟨other, List.mem_cons_of_mem _ hother, hstep⟩

/-- A list of steps goes through where each step does. -/
theorem exists_mapM {f : α → Result β} {items : List α}
    (h : ∀ item ∈ items, ∃ b, f item = .ok b) : ∃ results, items.mapM f = .ok results := by
  induction items with
  | nil => exact ⟨[], rfl⟩
  | cons item rest ih =>
    rw [List.forall_mem_cons] at h
    obtain ⟨b, hb⟩ := h.1
    obtain ⟨results, hresults⟩ := ih h.2
    exact ⟨b :: results, by rw [List.mapM_cons, hb]; simp [bind, Except.bind, hresults]; rfl⟩

/-- What a list of steps gives is what one of them gives. -/
theorem mem_of_mapM_iff {ε : Type} {f : α → Except ε β} {items : List α} {results : List β}
    (h : items.mapM f = .ok results) {b : β} : b ∈ results ↔ ∃ a ∈ items, f a = .ok b := by
  refine ⟨exists_of_mapM h, ?_⟩
  rintro ⟨a, ha, hstep⟩
  induction items generalizing results with
  | nil => cases ha
  | cons first items ih =>
    rw [List.mapM_cons] at h
    obtain ⟨b', hfirst, h⟩ := bind_eq_ok.mp h
    obtain ⟨rest, hrest, h⟩ := bind_eq_ok.mp h
    obtain rfl := Except.ok.inj h
    rcases List.mem_cons.mp ha with rfl | ha
    · exact List.mem_cons.mpr (.inl (Except.ok.inj (hstep.symm.trans hfirst)))
    · exact List.mem_cons_of_mem _ (ih hrest ha)

theorem map_eq_ok {x : Result α} {f : α → β} {b : β} :
    (f <$> x) = .ok b ↔ ∃ a, x = .ok a ∧ f a = b := by
  cases x <;> simp [Functor.map, Except.map]

theorem map_eq_error {r : Result α} {f : α → β} {e : Error} :
    r.map f = .error e ↔ r = .error e := by
  cases r <;> simp [Except.map]

end Bind

/-- What a fallible fold leaves: its state before and its state after are related as those of one step
are, and what a step establishes for its item still holds where the later steps keep it. -/
theorem foldlM_spec {β : Type} {f : β → α → Result β} {R : β → β → Prop} {Q : α → β → Prop}
    (hrefl : ∀ b, R b b) (htrans : ∀ a b c, R a b → R b c → R a c)
    (hstep : ∀ b a b', f b a = .ok b' → R b b' ∧ Q a b')
    (hkeep : ∀ a b b', Q a b → R b b' → Q a b') {l : List α} {b b' : β}
    (h : l.foldlM f b = .ok b') : R b b' ∧ ∀ a ∈ l, Q a b' := by
  induction l generalizing b with
  | nil =>
    obtain rfl := Except.ok.inj h
    exact ⟨hrefl b, by simp⟩
  | cons a l ih =>
    rw [List.foldlM_cons] at h
    obtain ⟨middle, hfirst, hrest⟩ := bind_eq_ok.mp h
    obtain ⟨hR, hQ⟩ := hstep b a middle hfirst
    obtain ⟨hlast, hall⟩ := ih hrest
    refine ⟨htrans b middle b' hR hlast, fun other hother => ?_⟩
    rcases List.mem_cons.mp hother with rfl | hother
    · exact hkeep other middle b' hQ hlast
    · exact hall other hother

section Rel

variable {α β γ δ : Type}

/-- Two runs side by side: both fail, or both succeed with related results. -/
@[grind =]
def Result.Rel (R : α → β → Prop) : Result α → Result β → Prop
  | .ok a, .ok b => R a b
  | .error _, .error _ => True
  | _, _ => False

theorem Result.Rel.bind {R : α → β → Prop} {S : γ → δ → Prop} {x : Result α} {y : Result β}
    {f : α → Result γ} {g : β → Result δ} (hxy : Result.Rel R x y)
    (hfg : ∀ a b, R a b → Result.Rel S (f a) (g b)) : Result.Rel S (x >>= f) (y >>= g) := by
  cases x <;> cases y <;> simp_all [Result.Rel, Bind.bind, Except.bind]

/-- A further step of the left run that cannot fail. -/
theorem Result.Rel.bind_ok {R : α → β → Prop} {S : γ → β → Prop} {x : Result α} {y : Result β}
    {f : α → γ} (hxy : Result.Rel R x y) (hf : ∀ a b, R a b → S (f a) b) :
    Result.Rel S (x >>= fun a => .ok (f a)) y := by
  cases x <;> cases y <;> simp_all [Result.Rel, Bind.bind, Except.bind]

/-- A run beside itself. -/
theorem Result.Rel.refl (x : Result α) : Result.Rel (fun a b => a = b) x x := by
  cases x <;> simp [Result.Rel]

theorem Result.Rel.isOk_eq {R : α → β → Prop} {x : Result α} {y : Result β}
    (hxy : Result.Rel R x y) : isOk x = isOk y := by
  cases x <;> cases y <;> simp_all [Result.Rel]

end Rel

/-- An early return: the error `e` when `p` holds. -/
def failIf (p : Prop) [Decidable p] (e : Error) : Result Unit := if p then .error e else .ok ()

@[simp] theorem failIf_eq_ok {p : Prop} [Decidable p] {e : Error} {u : Unit} :
    failIf p e = .ok u ↔ ¬ p := by
  by_cases h : p <;> simp [failIf, h]

theorem failIf_congr {p q : Prop} [Decidable p] [Decidable q] (h : p ↔ q) (e : Error) :
    failIf p e = failIf q e := by
  by_cases hp : p
  · simp [failIf, hp, h.mp hp]
  · simp [failIf, hp, mt h.mpr hp]

/-- `Option::ok_or_else`. -/
@[grind =]
def okOr {α : Type} (e : Error) : Option α → Result α
  | some a => .ok a
  | none => .error e

@[simp] theorem okOr_some (e : Error) (a : α) : okOr e (some a) = .ok a := rfl

@[simp] theorem okOr_none (e : Error) : okOr e (none : Option α) = .error e := rfl

@[simp] theorem okOr_eq_ok {e : Error} {o : Option α} {a : α} :
    okOr e o = .ok a ↔ o = some a := by
  cases o <;> simp [okOr]

end LazyPock
