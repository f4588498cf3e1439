import Mathlib.Logic.Function.Basic
import LazyPock.Machine.Runs

/-!
# Sessions of one server

Several clients run programs against one server, each in a session of its own. A program asks for one
statement at a time and goes on from its answer, so between two statements of one program any number of
statements of the others may run; clients crash, and sessions end, at any point. A program is verified
on its own: against what it may *rely* on from the others, and for what the others rely on from it.

## Main definitions

* `Machine.Task`: a program, with `Machine.Task.statement`, `Machine.Task.attempt`,
  `Machine.Task.onError`.
* `Machine.Agreement`, `Machine.Agreement.Valid`: an invariant, what each session relies on, and the
  programs that meet both.
* `Machine.Host`, `Machine.Host.Exec`, `Machine.Host.Survives`: servers whose sessions may end.
* `Machine.Thread`, `Machine.Thread.ended`, `Machine.Thread.asked`, `Machine.World`,
  `Machine.Occurrence`, `Machine.World.Step`: the sessions together.
* `Machine.World.next`: the steps in which the server answers normally, computed.

## Main results

* `Machine.Agreement.Valid.bind`, `Machine.Agreement.Valid.ask`, `Machine.Agreement.Valid.attempt`,
  `Machine.Agreement.Valid.onError`, `Machine.Agreement.Valid.request`: the rules for programs.
* `Machine.Agreement.Sound.run`: programs that are valid on their own are sound together, in every run.
* `Machine.World.step_of_next`, `Machine.World.run_of_exec_next`.
-/

namespace Machine

/-! ### Programs -/

/-- A program of a session: it has ended, or it asks for a statement and goes on from the answer. -/
inductive Task (Stmt : Type) (Reply : Stmt → Type) (ε α : Type) where
  | done (outcome : Except ε α)
  | ask (s : Stmt) (next : Except ε (Reply s) → Task Stmt Reply ε α)

namespace Task

variable {Stmt : Type} {Reply : Stmt → Type} {ε α β : Type}

/-- One program after another; a failure ends both. -/
def bind : Task Stmt Reply ε α → (α → Task Stmt Reply ε β) → Task Stmt Reply ε β
  | done (.ok a), f => f a
  | done (.error e), _ => done (.error e)
  | ask s next, f => ask s fun r => (next r).bind f

instance : Monad (Task Stmt Reply ε) where
  pure a := done (.ok a)
  bind := bind

/-- One statement. -/
def statement (s : Stmt) : Task Stmt Reply ε (Reply s) := ask s done

/-- A value that is there, or a failure. -/
def lift (outcome : Except ε α) : Task Stmt Reply ε α := done outcome

/-- The outcome of a program as a value: a failure of it is not one of what follows. -/
def attempt : Task Stmt Reply ε α → Task Stmt Reply ε (Except ε α)
  | done outcome => done (.ok outcome)
  | ask s next => ask s fun r => (next r).attempt

/-- A program that cleans up when it fails, whatever becomes of that. -/
def onError (t : Task Stmt Reply ε α) (cleanup : Task Stmt Reply ε β) : Task Stmt Reply ε α :=
  t.attempt.bind fun outcome =>
    match outcome with
    | .ok a => done (.ok a)
    | .error e => cleanup.attempt.bind fun _ => done (.error e)

end Task

/-! ### Agreements -/

variable {ι σ Stmt : Type} {Reply : Stmt → Type} {ε α β : Type}

/-- What the sessions of a server keep together, and what each relies on while others run. -/
structure Agreement (ι σ Stmt : Type) where
  /-- What holds between any two statements. -/
  Inv : σ → Prop
  /-- What may become of a state, for a session, while it does nothing. -/
  Rely : ι → σ → σ → Prop
  /-- What holds where a session asks for a statement. -/
  Check : ι → Stmt → σ → Prop
  refl : ∀ i a, Rely i a a
  trans : ∀ {i a b c}, Rely i a b → Rely i b c → Rely i a c

namespace Agreement

variable (G : Agreement ι σ Stmt)
  (exec : ι → (s : Stmt) → σ → Except ε (Reply s) → σ → Prop)

/-- A program that keeps an agreement from a state on, and ends as `post` says. -/
def Valid (i : ι) (post : Except ε α → σ → Prop) : Task Stmt Reply ε α → σ → Prop
  | .done outcome, a => ∀ b, G.Rely i a b → G.Inv b → post outcome b
  | .ask s next, a => ∀ b, G.Rely i a b → G.Inv b → G.Check i s b ∧ ∀ r c, exec i s b r c →
      G.Inv c ∧ (∀ j, j ≠ i → G.Rely j b c) ∧ Valid i post (next r) c

variable {G exec} {i : ι} {post : Except ε α → σ → Prop} {a b : σ}

namespace Valid

variable {t : Task Stmt Reply ε α}

/-- A program stays valid while the others run. -/
theorem later (h : G.Valid exec i post t a) (hrely : G.Rely i a b) :
    G.Valid exec i post t b := by
  cases t with
  | done outcome => exact fun c hc => h c (G.trans hrely hc)
  | ask s next => exact fun c hc => h c (G.trans hrely hc)

/-- A program is valid where it is valid whatever the others do first. -/
theorem of_later
    (h : ∀ b, G.Rely i a b → G.Inv b → G.Valid exec i post t b) : G.Valid exec i post t a := by
  cases t with
  | done outcome => exact fun b hrely hinv => h b hrely hinv b (G.refl i b) hinv
  | ask s next => exact fun b hrely hinv => h b hrely hinv b (G.refl i b) hinv

/-- What holds from the end of a program on may be weakened. -/
theorem imp {post' : Except ε α → σ → Prop}
    (h : G.Valid exec i post t a)
    (himp : ∀ o b, G.Inv b → (∀ c, G.Rely i b c → G.Inv c → post o c) → post' o b) :
    G.Valid exec i post' t a := by
  induction t generalizing a with
  | done outcome => exact fun b hrely hinv => himp _ b hinv fun c hc => h c (G.trans hrely hc)
  | ask s next ih =>
    intro b hrely hinv
    obtain ⟨hcheck, hexec⟩ := h b hrely hinv
    refine ⟨hcheck, fun r c hc => ?_⟩
    obtain ⟨hinv', hothers, hnext⟩ := hexec r c hc
    exact ⟨hinv', hothers, ih r hnext⟩

/-- **One program after another**: the second is valid wherever the first may end. -/
theorem bind {f : α → Task Stmt Reply ε β}
    {post : Except ε β → σ → Prop}
    (h : G.Valid exec i (fun o b => match o with
      | .ok x => G.Valid exec i post (f x) b
      | .error e => post (.error e) b) t a) : G.Valid exec i post (t >>= f) a := by
  induction t generalizing a with
  | done outcome =>
    cases outcome with
    | ok x => exact of_later h
    | error e => exact h
  | ask s next ih =>
    intro b hrely hinv
    obtain ⟨hcheck, hexec⟩ := h b hrely hinv
    refine ⟨hcheck, fun r c hc => ?_⟩
    obtain ⟨hinv', hothers, hnext⟩ := hexec r c hc
    exact ⟨hinv', hothers, ih r hnext⟩

/-- **One statement**: what holds wherever the others may have left the state. -/
theorem ask {s : Stmt} {post : Except ε (Reply s) → σ → Prop}
    (h : ∀ b, G.Rely i a b → G.Inv b → G.Check i s b ∧ ∀ r c, exec i s b r c →
      G.Inv c ∧ (∀ j, j ≠ i → G.Rely j b c) ∧ ∀ d, G.Rely i c d → G.Inv d → post r d) :
    G.Valid exec i post (Task.statement s) a := h

theorem lift {outcome : Except ε α} (h : ∀ b, G.Rely i a b → G.Inv b → post outcome b) :
    G.Valid exec i post (Task.lift outcome) a := h

theorem pure {x : α} (h : ∀ b, G.Rely i a b → G.Inv b → post (.ok x) b) :
    G.Valid exec i post (pure x : Task Stmt Reply ε α) a := h

/-- The outcome of a program as a value. -/
theorem attempt {post : Except ε (Except ε α) → σ → Prop}
    (h : G.Valid exec i (fun o => post (.ok o)) t a) : G.Valid exec i post t.attempt a := by
  induction t generalizing a with
  | done outcome => exact h
  | ask s next ih =>
    intro b hrely hinv
    obtain ⟨hcheck, hexec⟩ := h b hrely hinv
    refine ⟨hcheck, fun r c hc => ?_⟩
    obtain ⟨hinv', hothers, hnext⟩ := hexec r c hc
    exact ⟨hinv', hothers, ih r hnext⟩

/-- A program that cleans up when it fails: the clean-up is valid wherever that may happen. -/
theorem onError {cleanup : Task Stmt Reply ε β}
    (h : G.Valid exec i (fun o b => match o with
      | .ok x => post (.ok x) b
      | .error e => G.Valid exec i (fun _ => post (.error e)) cleanup b) t a) :
    G.Valid exec i post (t.onError cleanup) a := by
  refine bind (attempt (h.imp fun o b hinv hpost => ?_))
  cases o with
  | ok x => exact hpost
  | error e =>
    have hcleanup : G.Valid exec i (fun _ => post (.error e)) cleanup b := hpost b (G.refl i b) hinv
    exact bind (attempt (hcleanup.imp fun _ _ _ hlater => hlater))

end Valid

end Agreement

/-! ### Servers whose sessions may end -/

/-- A server: what it makes of a statement, and of a session that ends. -/
structure Host (ι σ Stmt : Type) (Reply : Stmt → Type) (ε : Type) where
  /-- A session that is still there. -/
  alive : σ → ι → Bool
  /-- A statement that waits for another session. -/
  Waits : ι → Stmt → σ → Prop
  perform : ι → (s : Stmt) → σ → Except ε (Reply s) × σ
  /-- A statement that may be refused, -/
  Refusable : Stmt → Prop
  /-- and what is left of it then. -/
  refuse : ι → Stmt → σ → σ
  die : σ → ι → σ
  /-- How a client reports a statement that was not answered. -/
  failure : Stmt → (text : String) → ε

namespace Host

variable (H : Host ι σ Stmt Reply ε)

/-- How a statement may go: the server answers it or refuses it, or the session ends before it is run or
before its answer arrives, or had ended. -/
inductive Exec (i : ι) (s : Stmt) (a : σ) : Except ε (Reply s) → σ → Prop
  | answered (halive : H.alive a i = true) (hwaits : ¬ H.Waits i s a) :
      Exec i s a (H.perform i s a).1 (H.perform i s a).2
  | refused (halive : H.alive a i = true) (hs : H.Refusable s) (text : String) :
      Exec i s a (.error (H.failure s text)) (H.refuse i s a)
  | lost (halive : H.alive a i = true) (text : String) :
      Exec i s a (.error (H.failure s text)) (H.die a i)
  | lostAfter (halive : H.alive a i = true) (hwaits : ¬ H.Waits i s a) (text : String) :
      Exec i s a (.error (H.failure s text)) (H.die (H.perform i s a).2 i)
  | dead (hdead : H.alive a i = false) (text : String) : Exec i s a (.error (H.failure s text)) a

/-- A session ends by itself. -/
def Ends (a b : σ) : Prop := ∃ i, b = H.die a i

/-- A server that answers every statement that need not wait. -/
def answer [∀ i s a, Decidable (H.Waits i s a)] (i : ι) (s : Stmt) (a : σ) :
    Option (Except ε (Reply s) × σ) :=
  if H.alive a i = true ∧ ¬ H.Waits i s a then some (H.perform i s a) else none

variable {H}

theorem exec_of_answer [∀ i s a, Decidable (H.Waits i s a)] (i : ι) (s : Stmt) (a : σ)
    (r : Except ε (Reply s)) (b : σ) (h : H.answer i s a = some (r, b)) : H.Exec i s a r b := by
  unfold answer at h
  split_ifs at h with hruns
  have hexec := Exec.answered hruns.1 hruns.2
  rwa [Option.some.inj h] at hexec

variable (H) in
/-- A session that ends leaves the others what they rely on. -/
structure Survives (G : Agreement ι σ Stmt) : Prop where
  dies : ∀ a i, H.alive (H.die a i) i = false
  inv : ∀ a i, G.Inv a → G.Inv (H.die a i)
  rely : ∀ a i j, G.Rely j a (H.die a i)

end Host

/-- **One statement of a server**: what holds of its answer and of its refusal holds of it, since a
session that is not there any more leaves no trace. -/
theorem Agreement.Valid.request {G : Agreement ι σ Stmt} {H : Host ι σ Stmt Reply ε}
    (hsurvives : H.Survives G) {i : ι} {a : σ} {s : Stmt} {P : σ → Prop}
    {post : Except ε (Reply s) → σ → Prop}
    (hcheck : ∀ b, G.Rely i a b → G.Inv b → G.Check i s b)
    (hpre : ∀ b, G.Rely i a b → G.Inv b → H.alive b i = true → P b)
    (hperform : ∀ b, G.Inv b → H.alive b i = true → P b → ¬ H.Waits i s b →
      G.Inv (H.perform i s b).2 ∧ (∀ j, j ≠ i → G.Rely j b (H.perform i s b).2) ∧
        post (H.perform i s b).1 (H.perform i s b).2)
    (hrefuse : ∀ b text, G.Inv b → H.alive b i = true → P b → H.Refusable s →
      G.Inv (H.refuse i s b) ∧ (∀ j, j ≠ i → G.Rely j b (H.refuse i s b)) ∧
        post (.error (H.failure s text)) (H.refuse i s b))
    (hdead : ∀ b text, H.alive b i = false → post (.error (H.failure s text)) b)
    (hlater : ∀ r b c, post r b → G.Rely i b c → G.Inv c → post r c) :
    G.Valid H.Exec i post (Task.statement s) a := by
  refine Valid.ask fun b hrely hinv => ⟨hcheck b hrely hinv, fun r c hexec => ?_⟩
  cases hexec with
  | answered halive hwaits =>
    obtain ⟨hinv', hothers, hpost⟩ := hperform b hinv halive (hpre b hrely hinv halive) hwaits
    exact ⟨hinv', hothers, fun d hd hinvd => hlater _ _ _ hpost hd hinvd⟩
  | refused halive hs text =>
    obtain ⟨hinv', hothers, hpost⟩ := hrefuse b text hinv halive (hpre b hrely hinv halive) hs
    exact ⟨hinv', hothers, fun d hd hinvd => hlater _ _ _ hpost hd hinvd⟩
  | lost halive text =>
    exact ⟨hsurvives.inv b i hinv, fun j _ => hsurvives.rely b i j,
      fun d hd hinvd => hlater _ _ _ (hdead _ text (hsurvives.dies b i)) hd hinvd⟩
  | lostAfter halive hwaits text =>
    obtain ⟨hinv', hothers, -⟩ := hperform b hinv halive (hpre b hrely hinv halive) hwaits
    exact ⟨hsurvives.inv _ i hinv', fun j hj => G.trans (hothers j hj) (hsurvives.rely _ i j),
      fun d hd hinvd => hlater _ _ _ (hdead _ text (hsurvives.dies _ i)) hd hinvd⟩
  | dead hdead' text =>
    exact ⟨hinv, fun j _ => G.refl j b, fun d hd hinvd => hlater _ _ _ (hdead b text hdead') hd hinvd⟩

/-! ### The sessions together -/

/-- What a session is doing: nothing yet, a program (which may have ended), or nothing any more. -/
inductive Thread (Op Stmt : Type) (Reply : Stmt → Type) (ε α : Type) where
  | idle
  | running (p : Op) (t : Task Stmt Reply ε α)
  | crashed

/-- The program that has ended, and its outcome. -/
def Thread.ended {Op : Type} : Thread Op Stmt Reply ε α → Option (Op × Except ε α)
  | .running p (.done outcome) => some (p, outcome)
  | _ => none

theorem Thread.ended_eq_some {Op : Type} {thread : Thread Op Stmt Reply ε α} {p : Op}
    {outcome : Except ε α} :
    thread.ended = some (p, outcome) ↔ thread = .running p (.done outcome) := by
  constructor
  · intro h
    unfold ended at h
    split at h
    · obtain ⟨rfl, rfl⟩ := Prod.mk.inj (Option.some.inj h)
      rfl
    · cases h
  · rintro rfl
    rfl

/-- The statement that a program asks for. -/
def Thread.asked {Op : Type} : Thread Op Stmt Reply ε α → Option (Op × Stmt)
  | .running p (.ask s _) => some (p, s)
  | _ => none

theorem Thread.asked_eq_some {Op : Type} {thread : Thread Op Stmt Reply ε α} {p : Op} {s : Stmt} :
    thread.asked = some (p, s) ↔ ∃ next, thread = .running p (.ask s next) := by
  constructor
  · intro h
    unfold asked at h
    split at h
    · next _ _ next =>
      obtain ⟨rfl, rfl⟩ := Prod.mk.inj (Option.some.inj h)
      exact ⟨next, rfl⟩
    · cases h
  · rintro ⟨next, rfl⟩
    rfl

/-- A server and its sessions. -/
structure World (ι σ Op Stmt : Type) (Reply : Stmt → Type) (ε α : Type) where
  state : σ
  threads : ι → Thread Op Stmt Reply ε α

/-- What may happen next. -/
inductive Occurrence (ι Op : Type) where
  /-- A client begins a program. -/
  | begins (i : ι) (p : Op)
  /-- The statement a program asks for is run. -/
  | asks (i : ι)
  /-- A client crashes. -/
  | crashes (i : ι)
  /-- Something that is no statement of a program. -/
  | other
deriving DecidableEq

namespace World

variable {Op : Type} [DecidableEq ι]

/-- What a session does next replaced. -/
def setThread (w : World ι σ Op Stmt Reply ε α) (i : ι) (thread : Thread Op Stmt Reply ε α) :
    World ι σ Op Stmt Reply ε α :=
  { w with threads := Function.update w.threads i thread }

/-- The steps of the sessions, under any answers of the server. -/
inductive Step (code : Op → Task Stmt Reply ε α)
    (exec : ι → (s : Stmt) → σ → Except ε (Reply s) → σ → Prop) (other : σ → σ → Prop) :
    World ι σ Op Stmt Reply ε α → Occurrence ι Op → World ι σ Op Stmt Reply ε α → Prop
  | first {w : World ι σ Op Stmt Reply ε α} {i : ι} (p : Op) (hidle : w.threads i = .idle) :
      Step code exec other w (.begins i p) (w.setThread i (.running p (code p)))
  | again {w : World ι σ Op Stmt Reply ε α} {i : ι} {last : Op} {outcome : Except ε α} (p : Op)
      (hdone : w.threads i = .running last (.done outcome)) :
      Step code exec other w (.begins i p) (w.setThread i (.running p (code p)))
  | asks {w : World ι σ Op Stmt Reply ε α} {i : ι} {p : Op} {s : Stmt}
      {next : Except ε (Reply s) → Task Stmt Reply ε α} {r : Except ε (Reply s)} {b : σ}
      (hasks : w.threads i = .running p (.ask s next)) (hexec : exec i s w.state r b) :
      Step code exec other w (.asks i) ({ w with state := b }.setThread i (.running p (next r)))
  | crashes {w : World ι σ Op Stmt Reply ε α} (i : ι) :
      Step code exec other w (.crashes i) (w.setThread i .crashed)
  | other {w : World ι σ Op Stmt Reply ε α} {b : σ} (hother : other w.state b) :
      Step code exec other w .other { w with state := b }

/-- The step in which the server answers as `perform` says, where it answers at all. -/
def next (code : Op → Task Stmt Reply ε α)
    (perform : ι → (s : Stmt) → σ → Option (Except ε (Reply s) × σ))
    (w : World ι σ Op Stmt Reply ε α) : Occurrence ι Op → Option (World ι σ Op Stmt Reply ε α)
  | .begins i p =>
    match w.threads i with
    | .idle | .running _ (.done _) => some (w.setThread i (.running p (code p)))
    | _ => none
  | .asks i =>
    match w.threads i with
    | .running p (.ask s next) =>
      (perform i s w.state).map fun answer =>
        { w with state := answer.2 }.setThread i (.running p (next answer.1))
    | _ => none
  | .crashes i => some (w.setThread i .crashed)
  | .other => none

variable {code : Op → Task Stmt Reply ε α}
  {exec : ι → (s : Stmt) → σ → Except ε (Reply s) → σ → Prop} {other : σ → σ → Prop}
  {w w' : World ι σ Op Stmt Reply ε α}

theorem step_of_next {perform : ι → (s : Stmt) → σ → Option (Except ε (Reply s) × σ)}
    (hperform : ∀ i s a r b, perform i s a = some (r, b) → exec i s a r b)
    {e : Occurrence ι Op} (h : w.next code perform e = some w') : Step code exec other w e w' := by
  cases e with
  | begins i p =>
    simp only [next] at h
    split at h
    · next hidle =>
      obtain rfl := Option.some.inj h
      exact .first p hidle
    · next hdone =>
      obtain rfl := Option.some.inj h
      exact .again p hdone
    · cases h
  | asks i =>
    simp only [next] at h
    split at h
    · next p s next hasks =>
      obtain ⟨⟨r, b⟩, hanswer, rfl⟩ := Option.map_eq_some_iff.mp h
      exact .asks hasks (hperform i s w.state r b hanswer)
    · cases h
  | crashes i =>
    obtain rfl := Option.some.inj h
    exact .crashes i
  | other => cases h

/-- A run in which the server answers normally. -/
theorem run_of_exec_next {perform : ι → (s : Stmt) → σ → Option (Except ε (Reply s) × σ)}
    (hperform : ∀ i s a r b, perform i s a = some (r, b) → exec i s a r b)
    {es : List (Occurrence ι Op)} (h : Machine.exec (World.next code perform) w es = some w') :
    Run (Step code exec other) w es w' := by
  induction es generalizing w with
  | nil =>
    obtain rfl := Option.some.inj h
    exact .nil w
  | cons e es ih =>
    obtain ⟨u, hu, h⟩ := Option.bind_eq_some_iff.mp h
    exact .cons (step_of_next hperform hu) (ih h)

end World

namespace Agreement

variable {Op : Type} (G : Agreement ι σ Stmt)
  (exec : ι → (s : Stmt) → σ → Except ε (Reply s) → σ → Prop)
  (Ready : ι → σ → Prop) (post : Op → ι → Except ε α → σ → Prop)

/-- What holds of a session that does nothing, or a program. -/
def Holds (i : ι) : Thread Op Stmt Reply ε α → σ → Prop
  | .idle, a => Ready i a
  | .running p t, a => G.Valid exec i (post p i) t a
  | .crashed, _ => True

/-- The sessions keep the agreement from here on. -/
structure Sound (w : World ι σ Op Stmt Reply ε α) : Prop where
  inv : G.Inv w.state
  holds : ∀ i, G.Holds exec Ready post i (w.threads i) w.state

/-- What makes programs sound together: each is valid on its own, wherever a session may begin it. -/
structure Meets (code : Op → Task Stmt Reply ε α) (other : σ → σ → Prop) : Prop where
  valid : ∀ p i a, G.Inv a → Ready i a → G.Valid exec i (post p i) (code p) a
  ready : ∀ p i o a, G.Inv a → post p i o a → Ready i a
  keeps : ∀ i a b, Ready i a → G.Rely i a b → G.Inv b → Ready i b
  other : ∀ a b, other a b → G.Inv a → G.Inv b ∧ ∀ i, G.Rely i a b

variable {G exec Ready post} {code : Op → Task Stmt Reply ε α} {other : σ → σ → Prop}
  {w w' : World ι σ Op Stmt Reply ε α}

namespace Sound

/-- What a program that has ended says about the state, as long as its session begins no other. -/
theorem post_of_done (h : Sound G exec Ready post w) {i : ι} {p : Op} {o : Except ε α}
    (hdone : w.threads i = .running p (.done o)) : post p i o w.state := by
  have hvalid := h.holds i
  rw [hdone] at hvalid
  exact hvalid w.state (G.refl i _) h.inv

/-- What holds where a program asks for a statement. -/
theorem check_of_asked (h : Sound G exec Ready post w) {i : ι} {p : Op} {s : Stmt}
    (hasked : (w.threads i).asked = some (p, s)) : G.Check i s w.state := by
  obtain ⟨next, hasks⟩ := Thread.asked_eq_some.mp hasked
  have hvalid := h.holds i
  rw [hasks] at hvalid
  exact (hvalid w.state (G.refl i _) h.inv).1

theorem ready_of_free (h : Sound G exec Ready post w) (hmeets : Meets G exec Ready post code other)
    {i : ι} (hfree : w.threads i = .idle ∨ ∃ p o, w.threads i = .running p (.done o)) :
    Ready i w.state := by
  rcases hfree with hidle | ⟨p, o, hdone⟩
  · have hready := h.holds i
    rwa [hidle] at hready
  · exact hmeets.ready p i o _ h.inv (h.post_of_done hdone)

/-- What is sound stays so in a state every session relies on. -/
theorem later {i : ι} {thread : Thread Op Stmt Reply ε α} {a b : σ}
    (hmeets : Meets G exec Ready post code other) (h : G.Holds exec Ready post i thread a)
    (hrely : G.Rely i a b) (hinv : G.Inv b) : G.Holds exec Ready post i thread b := by
  cases thread with
  | idle => exact hmeets.keeps i a b h hrely hinv
  | running p t => exact Valid.later h hrely
  | crashed => trivial

variable [DecidableEq ι]

/-- One session goes on, in a state that may have changed, and the others find theirs. -/
theorem setThread {i : ι} {thread : Thread Op Stmt Reply ε α} {b : σ} (hinv : G.Inv b)
    (hthread : G.Holds exec Ready post i thread b)
    (hothers : ∀ j, j ≠ i → G.Holds exec Ready post j (w.threads j) b) :
    Sound G exec Ready post ({ w with state := b }.setThread i thread) where
  inv := hinv
  holds j := by
    by_cases hj : j = i
    · subst hj
      simpa only [World.setThread, Function.update_self] using hthread
    · simpa only [World.setThread, Function.update_of_ne hj] using hothers j hj

/-- **Each step keeps the sessions sound.** -/
theorem step (hmeets : Meets G exec Ready post code other) (h : Sound G exec Ready post w)
    {e : Occurrence ι Op} (hstep : World.Step code exec other w e w') :
    Sound G exec Ready post w' := by
  cases hstep with
  | first p hidle =>
    exact setThread h.inv (hmeets.valid p _ _ h.inv (h.ready_of_free hmeets (.inl hidle)))
      fun j _ => h.holds j
  | again p hdone =>
    exact setThread h.inv (hmeets.valid p _ _ h.inv (h.ready_of_free hmeets (.inr ⟨_, _, hdone⟩)))
      fun j _ => h.holds j
  | @asks i p s next r b hasks hexec =>
    have hvalid := h.holds i
    rw [hasks] at hvalid
    obtain ⟨hinv, hothers, hnext⟩ := (hvalid w.state (G.refl i _) h.inv).2 r b hexec
    exact setThread hinv hnext fun j hj => later hmeets (h.holds j) (hothers j hj) hinv
  | crashes i => exact setThread h.inv trivial fun j _ => h.holds j
  | other hother =>
    obtain ⟨hinv, hrely⟩ := hmeets.other _ _ hother h.inv
    exact ⟨hinv, fun j => later hmeets (h.holds j) (hrely j) hinv⟩

/-- **A run keeps the sessions sound**: every session may take what it relies on for granted. -/
theorem run (hmeets : Meets G exec Ready post code other) (h : Sound G exec Ready post w)
    {es : List (Occurrence ι Op)} (hrun : Run (World.Step code exec other) w es w') :
    Sound G exec Ready post w' :=
  hrun.invariant (fun _ _ _ hsound hstep => step hmeets hsound hstep) h

end Sound

-- A program is told valid by the rules; unfolding the predicate would run the program.
attribute [irreducible] Valid

end Agreement

end Machine
