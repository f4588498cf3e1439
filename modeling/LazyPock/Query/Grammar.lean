import LazyPock.Machine.Parsing
import LazyPock.Query.Filter

/-!
# The grammar of filters

The parser of `crates/db/src/query/filter.rs` as it runs, over a token vector with a position and a
depth counter, and the grammar it reads: a disjunction of conjunctions of comparisons, a comparison
being a leading side, an operator and a side, or a filter in parentheses.

`Filter.parseOr` is the same parser over the tokens that are left; `Parser.parseOr_agrees` connects
the two, and says that the depth counter is what it was before when a call succeeds.

## Main definitions

* `Filter.Parser`: the state of the parser; its position stays within the tokens.
* `Filter.Parser.parseOr`, `Filter.parseTokens`: the parser, and the parser with
  the check that nothing is left.
* `Filter.Derives`: the derivations of the grammar, each with its tree.

## Main results

* `Filter.Parser.parseOr_agrees`: the parser refines `Filter.parseOr`.
* `Filter.parseOr_exact`: `Filter.parseOr` reads the disjunctions of the grammar.
* `Filter.parseTokens_exact`: the parser accepts what has a derivation, with its tree.
-/

namespace LazyPock.Filter

open Text
open Machine (Exact LeftChain tailTokens leftTree)

/-! ### The parser as it runs -/

/-- The state of the parser: what `peek` looks at is at `position`. -/
structure Parser where
  tokens : List Token
  position : Nat
  depth : Nat
  /-- Reading stops at the last token. -/
  bounded : position ≤ tokens.length

namespace Parser

/-- A parser before its first token. -/
def start (tokens : List Token) : Parser :=
  { tokens, position := 0, depth := 0, bounded := Nat.zero_le _ }

def peek (p : Parser) : Option Token := p.tokens[p.position]?

def bump (p : Parser) : Option Token × Parser :=
  if h : p.position < p.tokens.length then
    (some p.tokens[p.position], { p with position := p.position + 1, bounded := h })
  else (none, p)

def enter (p : Parser) : Result Parser :=
  let p := { p with depth := p.depth + 1 }
  if maxDepth < p.depth then
    .error (.invalid ("filter is too complex: more than " ++ toString maxDepth ++
      " levels of nesting"))
  else .ok p

def leave (p : Parser) : Parser := { p with depth := p.depth - 1 }

/-- Read one comparison side that is not the leading one. -/
@[grind =]
def parseSide (p : Parser) : Result (Side × Parser) :=
  match p.bump with
  | (some (.path path), p) => .ok (.path path, p)
  | (some (.text value), p) => .ok (.value (.text value), p)
  | (some (.number value), p) => .ok (.value (.number value), p)
  | (some (.bool value), p) => .ok (.value (.bool value), p)
  | (some .null, p) => .ok (.value .null, p)
  | (some .now, p) => .ok (.value .now, p)
  | (some (.auth reference), p) => .ok (.value (.auth reference), p)
  | (some other, _) =>
    .error (.invalid ("expected a value after the operator, found " ++ other.display ++
      " in the filter"))
  | (none, _) => .error (.invalid "filter ended where a value was expected")

/-- Read the operator and the right side for a left side already read. -/
@[grind =]
def parseCompareFrom (left : Side) (description : Option String) (p : Parser) :
    Result (Expr × Parser) :=
  match p.bump with
  | (some (.op op), p) => do
    let (right, p) ← p.parseSide
    .ok (.compare left op right, p)
  | _ =>
    match left, description with
    | .path path, _ =>
      .error (.invalid ("field `" ++ join "." path ++
        "` must be followed by a comparison operator (= != > >= < <= ~ !~ ?= ?!=)"))
    | _, some description =>
      .error (.invalid
        (description ++ " must be followed by a comparison operator (= != > >= < <= ~ !~)"))
    | _, none => .error (.invalid "expected a comparison operator")

/-- A comparison, or an expression in parentheses read by `parseOr`. -/
@[grind =]
def parseComparison (parseOr : Parser → Result (Expr × Parser)) (p : Parser) :
    Result (Expr × Parser) :=
  match p.bump with
  | (some .lparen, p) => do
    let (inner, p) ← parseOr p
    match p.bump with
    | (some .rparen, p) => .ok (inner, p)
    | (some other, _) =>
      .error (.invalid ("expected `)` but found " ++ other.display ++ " in the filter"))
    | (none, _) => .error (.invalid "unbalanced `(` in the filter")
  | (some (.path path), p) => p.parseCompareFrom (.path path) none
  | (some (.auth reference), p) =>
    p.parseCompareFrom (.value (.auth reference)) (some "the request reference")
  | (some .now, p) => p.parseCompareFrom (.value .now) (some "`@now`")
  | (some other, _) =>
    .error (.invalid ("expected a field or `(`, found " ++ other.display ++ " in the filter"))
  | (none, _) => .error (.invalid "filter ended where a field or `(` was expected")

/-- `while matches!(self.peek(), Some(separator))`, for at most `fuel` turns. -/
def parseWhile (separator : Token) (build : Expr → Expr → Expr)
    (item : Parser → Result (Expr × Parser)) :
    (fuel : Nat) → Expr → Parser → Result (Expr × Parser)
  | 0, left, p => .ok (left, p)
  | fuel + 1, left, p =>
    if p.peek = some separator then do
      let (right, p) ← item p.bump.2
      parseWhile separator build item fuel (build left right) p
    else .ok (left, p)

def parseAnd (parseOr : Parser → Result (Expr × Parser)) (p : Parser) :
    Result (Expr × Parser) := do
  let (left, p) ← p.parseComparison parseOr
  parseWhile .and .and (parseComparison parseOr) (p.tokens.length - p.position) left p

/-- Parse a disjunction. Every call inside another one has entered one level more, so that the
depth counter refuses a call before the fuel `maxDepth + 1` of the first one runs out. -/
@[grind =]
def parseOr : (fuel : Nat) → Parser → Result (Expr × Parser)
  | 0, _ => .error (.invalid ("filter is too complex: more than " ++ toString maxDepth ++
      " levels of nesting"))
  | fuel + 1, p => do
    let p ← p.enter
    let (left, p) ← p.parseAnd (parseOr fuel)
    let (left, p) ←
      parseWhile .or .or (parseAnd (parseOr fuel)) (p.tokens.length - p.position) left p
    .ok (left, p.leave)

end Parser

/-- `Parser::parse_or`, and the check that it read to the end of the input. -/
def parseTokens (tokens : List Token) : Result Expr := do
  let (expr, p) ← (Parser.start tokens).parseOr (maxDepth + 1)
  match p.peek with
  | some token =>
    .error (.invalid ("unexpected " ++ token.display ++ " after the end of the filter"))
  | none => .ok expr

/-! ### The grammar -/

/-- The token of a leading side. -/
inductive LeadingSide : Token → Side → Prop
  | path (segments : List String) : LeadingSide (.path segments) (.path segments)
  | auth (reference : AuthRef) : LeadingSide (.auth reference) (.value (.auth reference))
  | now : LeadingSide .now (.value .now)

/-- The token of a side behind the operator. -/
inductive AnySide : Token → Side → Prop
  | path (segments : List String) : AnySide (.path segments) (.path segments)
  | text (value : String) : AnySide (.text value) (.value (.text value))
  | number (value : F64) : AnySide (.number value) (.value (.number value))
  | bool (value : Bool) : AnySide (.bool value) (.value (.bool value))
  | null : AnySide .null (.value .null)
  | now : AnySide .now (.value .now)
  | auth (reference : AuthRef) : AnySide (.auth reference) (.value (.auth reference))

/-- The phrases of the grammar. -/
inductive Phrase where
  | or
  | and
  | cmp
deriving DecidableEq

/-- **The derivations of the grammar**, with at most `depth` parentheses inside each other, and
their trees:

* `or := and ('||' and)*`
* `and := cmp ('&&' cmp)*`
* `cmp := '(' or ')' | lhs op side` -/
inductive Derives : (depth : Nat) → Phrase → List Token → Expr → Prop
  | or {depth : Nat} {first : List Token × Expr} {items : List (List Token × Expr)}
      (h : ∀ item ∈ first :: items, Derives depth .and item.1 item.2) :
      Derives depth .or (first.1 ++ tailTokens .or items) (leftTree .or first.2 items)
  | and {depth : Nat} {first : List Token × Expr} {items : List (List Token × Expr)}
      (h : ∀ item ∈ first :: items, Derives depth .cmp item.1 item.2) :
      Derives depth .and (first.1 ++ tailTokens .and items) (leftTree .and first.2 items)
  | parens {depth : Nat} {tokens : List Token} {expr : Expr} (h : Derives depth .or tokens expr) :
      Derives (depth + 1) .cmp (.lparen :: (tokens ++ [.rparen])) expr
  | compare {depth : Nat} {lhs side : Token} {left right : Side} (op : CompareOp)
      (hleft : LeadingSide lhs left) (hright : AnySide side right) :
      Derives depth .cmp [lhs, .op op, side] (.compare left op right)

variable {tokens : List Token} {expr : Expr}

theorem derives_or_iff {depth : Nat} :
    Derives depth .or tokens expr ↔ LeftChain .or .or (Derives depth .and) tokens expr := by
  constructor
  · intro h
    cases h with
    | or h => exact ⟨_, _, h, rfl, rfl⟩
  · rintro ⟨first, items, h, rfl, rfl⟩
    exact .or h

theorem derives_and_iff {depth : Nat} :
    Derives depth .and tokens expr ↔ LeftChain .and .and (Derives depth .cmp) tokens expr := by
  constructor
  · intro h
    cases h with
    | and h => exact ⟨_, _, h, rfl, rfl⟩
  · rintro ⟨first, items, h, rfl, rfl⟩
    exact .and h

/-! ### `Filter.parseOr` reads the grammar -/

theorem parseSide_sound {rest : List Token} {side : Side}
    (h : parseSide tokens = .ok (side, rest)) : ∃ t, tokens = t :: rest ∧ AnySide t side := by
  unfold parseSide at h
  split at h <;> cases h
  · exact ⟨_, rfl, .path _⟩
  · exact ⟨_, rfl, .text _⟩
  · exact ⟨_, rfl, .number _⟩
  · exact ⟨_, rfl, .bool _⟩
  · exact ⟨_, rfl, .null⟩
  · exact ⟨_, rfl, .now⟩
  · exact ⟨_, rfl, .auth _⟩

theorem parseSide_complete {t : Token} {side : Side} (h : AnySide t side) (rest : List Token) :
    parseSide (t :: rest) = .ok (side, rest) := by
  cases h <;> rfl

theorem parseCompareFrom_sound {left : Side} {description : String} {rest : List Token} (h : parseCompareFrom left description tokens = .ok (expr, rest)) :
    ∃ op t right, tokens = .op op :: t :: rest ∧ AnySide t right ∧
      expr = .compare left op right := by
  unfold parseCompareFrom at h
  split at h
  · obtain ⟨⟨right, behind⟩, hside, h⟩ := bind_eq_ok.mp h
    cases h
    obtain ⟨t, rfl, hright⟩ := parseSide_sound hside
    exact ⟨_, t, right, rfl, hright, rfl⟩
  · cases h

theorem parseCompareFrom_complete {t : Token} {right : Side} (h : AnySide t right) (left : Side)
    (description : String) (op : CompareOp) (rest : List Token) :
    parseCompareFrom left description (.op op :: t :: rest) =
      .ok (.compare left op right, rest) := by
  rw [parseCompareFrom, parseSide_complete h]
  rfl

/-- The expression in parentheses, with one level of nesting less. -/
theorem parseComparison_exact {depth : Nat} {inner : List Token → Result (Expr × List Token)}
    {stop : List Token → Prop} (hparens : ∀ rest, stop (.rparen :: rest))
    (hinner : ∀ smaller, depth = smaller + 1 → Exact stop inner (Derives smaller .or))
    (hnone : depth = 0 → ∀ tokens, ∃ e, inner tokens = .error e) :
    Exact (fun _ => True) (parseComparison inner) (Derives depth .cmp) where
  sound {tokens rest expr} h := by
    unfold parseComparison at h
    split at h
    · obtain ⟨⟨read, behind⟩, hread, h⟩ := bind_eq_ok.mp h
      dsimp only at h
      split at h <;> cases h
      cases depth with
      | zero =>
        obtain ⟨e, he⟩ := hnone rfl _
        rw [he] at hread
        cases hread
      | succ smaller =>
        obtain ⟨phrase, rfl, hphrase⟩ := (hinner smaller rfl).sound hread
        exact ⟨.lparen :: (phrase ++ [.rparen]), by simp, .parens hphrase⟩
    · obtain ⟨op, t, right, rfl, hright, rfl⟩ := parseCompareFrom_sound h
      exact ⟨[_, _, t], rfl, .compare op (.path _) hright⟩
    · obtain ⟨op, t, right, rfl, hright, rfl⟩ := parseCompareFrom_sound h
      exact ⟨[_, _, t], rfl, .compare op (.auth _) hright⟩
    · obtain ⟨op, t, right, rfl, hright, rfl⟩ := parseCompareFrom_sound h
      exact ⟨[_, _, t], rfl, .compare op .now hright⟩
    · cases h
    · cases h
  complete {phrase rest expr} h _ := by
    cases h with
    | @parens smaller tokens _ h =>
      have hread := (hinner smaller rfl).complete h (hparens rest)
      simp only [List.cons_append, List.append_assoc, List.nil_append, parseComparison]
      rw [hread]
      rfl
    | @compare _ lhs side left right op hleft hright =>
      cases hleft with
      | path segments => exact parseCompareFrom_complete hright _ "" op rest
      | auth reference =>
        exact parseCompareFrom_complete hright _ "the request reference" op rest
      | now => exact parseCompareFrom_complete hright _ "`@now`" op rest

theorem parseChain_eq_chain (separator : Token) (build : Expr → Expr → Expr)
    (item : List Token → Result (Expr × List Token)) (fuel : Nat) (left : Expr)
    (tokens : List Token) :
    parseChain separator build item fuel left tokens =
      Machine.chain separator build item fuel left tokens := by
  induction fuel generalizing left tokens with
  | zero => rfl
  | succ fuel ih =>
    cases tokens with
    | nil => rfl
    | cons t ts =>
      simp only [parseChain, Machine.chain, ih]

/-- A conjunction ends before anything but `&&`. -/
def EndsAnd (rest : List Token) : Prop := rest.head? ≠ some .and

/-- A disjunction ends before anything but `&&` and `||`. -/
def EndsOr (rest : List Token) : Prop := rest.head? ≠ some .and ∧ rest.head? ≠ some .or

theorem parseAnd_exact {depth : Nat} {comparison : List Token → Result (Expr × List Token)}
    (h : Exact (fun _ => True) comparison (Derives depth .cmp)) :
    Exact EndsAnd (parseAnd comparison) (Derives depth .and) := by
  have hchain : Exact EndsAnd (Machine.chained .and .and comparison)
      (LeftChain .and .and (Derives depth .cmp)) :=
    Exact.chain h (fun _ => trivial) (fun _ _ => trivial) (fun rest hend => hend rfl)
  have heq : parseAnd comparison = Machine.chained .and .and comparison := by
    funext tokens
    simp only [parseAnd, Machine.chained, parseChain_eq_chain]
  rw [heq]
  exact hchain.congr fun _ _ => derives_and_iff.symm

theorem parseOr_succ_exact {levels depth : Nat}
    (h : Exact (fun _ => True) (parseComparison (parseOr levels)) (Derives depth .cmp)) :
    Exact EndsOr (parseOr (levels + 1)) (Derives depth .or) := by
  have hchain : Exact EndsOr
      (Machine.chained .or .or (parseAnd (parseComparison (parseOr levels))))
      (LeftChain .or .or (Derives depth .and)) := by
    refine Exact.chain (parseAnd_exact h) (fun _ => ?_) (fun _ hend => hend.1)
      (fun rest hend => hend.2 rfl)
    simp [EndsAnd]
  have heq : parseOr (levels + 1) =
      Machine.chained .or .or (parseAnd (parseComparison (parseOr levels))) := by
    funext tokens
    simp only [parseOr, Machine.chained, parseChain_eq_chain]
  rw [heq]
  exact hchain.congr fun _ _ => derives_or_iff.symm

theorem endsOr_rparen (rest : List Token) : EndsOr (.rparen :: rest) := by
  simp [EndsOr]

/-- **`Filter.parseOr` reads the disjunctions of the grammar**: with `depth + 1` levels left, those
of at most `depth` parentheses inside each other. -/
theorem parseOr_exact (depth : Nat) : Exact EndsOr (parseOr (depth + 1)) (Derives depth .or) := by
  induction depth with
  | zero =>
    -- no level is left for an expression in parentheses
    refine parseOr_succ_exact (parseComparison_exact endsOr_rparen ?_ ?_)
    · rintro smaller hsmaller
      omega
    · exact fun _ tokens => ⟨_, rfl⟩
  | succ depth ih =>
    refine parseOr_succ_exact (parseComparison_exact endsOr_rparen ?_ ?_)
    · rintro smaller hsmaller
      obtain rfl : depth = smaller := by omega
      exact ih
    · omega

/-! ### The parser refines `Filter.parseOr` -/

namespace Parser

variable {α β : Type}

/-- The tokens left. -/
def rest (p : Parser) : List Token := p.tokens.drop p.position

/-- A later state of the same run, at the same depth. -/
structure Follows (p q : Parser) : Prop where
  tokens : q.tokens = p.tokens
  depth : q.depth = p.depth

theorem Follows.refl (p : Parser) : Follows p p := ⟨rfl, rfl⟩

variable {p : Parser}

theorem Follows.trans {q r : Parser} (h : Follows p q) (h' : Follows q r) : Follows p r :=
  ⟨h'.tokens.trans h.tokens, h'.depth.trans h.depth⟩

/-- **A run of the parser agrees with a parser of the tokens left**: they give the same error, or
the same answer with the same tokens left, and then the depth is what it was. -/
inductive Agrees (p : Parser) : Result (α × Parser) → Result (α × List Token) → Prop
  | ok {a : α} {q : Parser} (h : Follows p q) : Agrees p (.ok (a, q)) (.ok (a, q.rest))
  | error (e : Error) : Agrees p (.error e) (.error e)

theorem Agrees.bind {r : Result (α × Parser)} {s : Result (α × List Token)}
    {f : α × Parser → Result (β × Parser)} {g : α × List Token → Result (β × List Token)}
    (h : Agrees p r s) (hrest : ∀ a q, Follows p q → Agrees q (f (a, q)) (g (a, q.rest))) :
    Agrees p (r >>= f) (s >>= g) := by
  cases h with
  | @ok a q hq =>
    have hthen := hrest a q hq
    change Agrees p (f (a, q)) (g (a, q.rest))
    generalize f (a, q) = x at hthen ⊢
    generalize g (a, q.rest) = y at hthen ⊢
    cases hthen with
    | ok hq' => exact .ok (hq.trans hq')
    | error e => exact .error e
  | error e => exact .error e

theorem Agrees.after {q : Parser} {r : Result (α × Parser)} {s : Result (α × List Token)}
    (h : Agrees q r s) (hq : Follows p q) : Agrees p r s := by
  cases h with
  | ok hr => exact .ok (hq.trans hr)
  | error e => exact .error e

/-- A run inside the level that `enter` counted, and `leave` behind it. -/
theorem Agrees.leave {q : Parser} {r : Result (α × Parser)} {s : Result (α × List Token)}
    (htokens : q.tokens = p.tokens) (hdepth : q.depth = p.depth + 1) (h : Agrees q r s) :
    Agrees p (r >>= fun (a, q) => .ok (a, q.leave)) s := by
  cases h with
  | @ok a q' hq =>
    have hfollows : Follows p q'.leave :=
      ⟨hq.tokens.trans htokens, by simp [Parser.leave, hq.depth, hdepth]⟩
    exact Agrees.ok hfollows
  | error e => exact .error e

theorem bump_of_rest_nil (h : p.rest = []) : p.bump = (none, p) := by
  have hlen : p.tokens.length ≤ p.position := List.drop_eq_nil_iff.mp h
  simp [bump, hlen]

theorem bump_of_rest_cons {t : Token} {ts : List Token} (h : p.rest = t :: ts) :
    ∃ q, p.bump = (some t, q) ∧ q.rest = ts ∧ Follows p q := by
  have hlt : p.position < p.tokens.length := by
    by_contra hge
    rw [rest, List.drop_eq_nil_of_le (by omega)] at h
    cases h
  rw [rest, List.drop_eq_getElem_cons hlt] at h
  obtain ⟨rfl, rfl⟩ := List.cons.inj h
  exact ⟨{ p with position := p.position + 1, bounded := hlt }, by simp [bump, hlt], rfl, rfl, rfl⟩

theorem peek_eq_head? (p : Parser) : p.peek = p.rest.head? := by
  simp [peek, rest]

theorem length_rest (p : Parser) : p.rest.length = p.tokens.length - p.position := by
  simp [rest]

theorem parseSide_agrees (p : Parser) : Agrees p p.parseSide (Filter.parseSide p.rest) := by
  cases hrest : p.rest with
  | nil =>
    rw [parseSide, bump_of_rest_nil hrest]
    exact .error _
  | cons t ts =>
    obtain ⟨q, hbump, rfl, hq⟩ := bump_of_rest_cons hrest
    rw [parseSide, hbump]
    cases t <;> first | exact .ok hq | exact .error _

/-- The description of a left side that is no path is the one `Filter.parseCompareFrom` is given. -/
theorem parseCompareFrom_agrees (p : Parser) {left : Side} {description : Option String}
    {text : String} (hdescription : ∀ value, left = .value value → description = some text) :
    Agrees p (p.parseCompareFrom left description) (Filter.parseCompareFrom left text p.rest) := by
  have hfail : ∀ q : Option Token × Parser, (∀ op, q.1 ≠ some (.op op)) → p.bump = q →
      Agrees p (p.parseCompareFrom left description) (.error (operatorExpected left text)) := by
    rintro ⟨t, q⟩ hop hbump
    unfold parseCompareFrom
    rw [hbump]
    split
    · rename_i hread
      exact absurd (congrArg Prod.fst hread) (hop _)
    · cases left with
      | path path => exact .error _
      | value value =>
        obtain rfl := hdescription value rfl
        exact .error _
  cases hrest : p.rest with
  | nil => exact hfail _ (by simp) (bump_of_rest_nil hrest)
  | cons t ts =>
    obtain ⟨q, hbump, rfl, hq⟩ := bump_of_rest_cons hrest
    cases t with
    | op op =>
      unfold parseCompareFrom
      rw [hbump]
      have hside := Agrees.bind (parseSide_agrees q)
        (f := fun r => .ok (Expr.compare left op r.1, r.2))
        (g := fun r => .ok (Expr.compare left op r.1, r.2)) fun right q' _ => .ok (Follows.refl q')
      exact hside.after hq
    | _ => exact hfail _ (by simp) hbump

/-- The expression in parentheses agrees when what reads it does. -/
theorem parseComparison_agrees {parseOr : Parser → Result (Expr × Parser)}
    {inner : List Token → Result (Expr × List Token)} (p : Parser)
    (hinner : ∀ q, Follows p q → Agrees q (parseOr q) (inner q.rest)) :
    Agrees p (p.parseComparison parseOr) (Filter.parseComparison inner p.rest) := by
  cases hrest : p.rest with
  | nil =>
    rw [parseComparison, bump_of_rest_nil hrest]
    exact .error _
  | cons t ts =>
    obtain ⟨q, hbump, rfl, hq⟩ := bump_of_rest_cons hrest
    rw [parseComparison, hbump]
    cases t with
    | lparen =>
      refine (Agrees.bind (hinner q hq) fun expr q' hq' => ?_).after hq
      cases hrest' : q'.rest with
      | nil =>
        dsimp only
        rw [bump_of_rest_nil hrest']
        exact .error _
      | cons t' ts' =>
        obtain ⟨q'', hbump', rfl, hq''⟩ := bump_of_rest_cons hrest'
        dsimp only
        rw [hbump']
        cases t' <;> first | exact .ok hq'' | exact .error _
    | path path => exact (parseCompareFrom_agrees q (by simp)).after hq
    | auth reference => exact (parseCompareFrom_agrees q (by simp)).after hq
    | now => exact (parseCompareFrom_agrees q (by simp)).after hq
    | _ => exact .error _

/-- The loop takes a turn for each separator, on a fuel of the tokens left. -/
theorem parseWhile_agrees {separator : Token} {build : Expr → Expr → Expr}
    {item : Parser → Result (Expr × Parser)} {readItem : List Token → Result (Expr × List Token)} (hitem : ∀ q, Follows p q → Agrees q (item q) (readItem q.rest)) (fuel : Nat)
    (left : Expr) :
    Agrees p (parseWhile separator build item fuel left p)
      (parseChain separator build readItem fuel left p.rest) := by
  induction fuel generalizing left p with
  | zero => exact .ok (Follows.refl p)
  | succ fuel ih =>
    rw [parseWhile, peek_eq_head?]
    cases hrest : p.rest with
    | nil =>
      have hdone := Agrees.ok (a := left) (Follows.refl p)
      rwa [hrest] at hdone
    | cons t ts =>
      by_cases hsep : t = separator
      · obtain ⟨q, hbump, rfl, hq⟩ := bump_of_rest_cons hrest
        simp only [List.head?_cons, hsep, if_true, hbump, parseChain]
        refine (Agrees.bind (hitem q hq) fun right q' hq' => ?_).after hq
        exact ih (fun r hr => hitem r ((hq.trans hq').trans hr)) (build left right)
      · have hdone := Agrees.ok (a := left) (Follows.refl p)
        rw [hrest] at hdone
        simpa [hsep, parseChain] using hdone

theorem parseAnd_agrees {parseOr : Parser → Result (Expr × Parser)}
    {inner : List Token → Result (Expr × List Token)} (p : Parser)
    (hinner : ∀ q, Follows p q → Agrees q (parseOr q) (inner q.rest)) :
    Agrees p (p.parseAnd parseOr) (Filter.parseAnd (Filter.parseComparison inner) p.rest) := by
  refine Agrees.bind (parseComparison_agrees p hinner) fun left q hq => ?_
  dsimp only
  rw [← length_rest]
  refine parseWhile_agrees (fun r hr => parseComparison_agrees r fun r' hr' => ?_) _ left
  exact hinner r' ((hq.trans hr).trans hr')

/-- **The parser refines `Filter.parseOr`** on the levels that the depth counter leaves, and its
fuel does not run out. A call that succeeds leaves the depth counter as it was. -/
theorem parseOr_agrees {levels fuel : Nat} (hdepth : p.depth + levels = maxDepth)
    (hfuel : levels < fuel) : Agrees p (p.parseOr fuel) (Filter.parseOr levels p.rest) := by
  induction levels generalizing fuel p with
  | zero =>
    obtain ⟨fuel, rfl⟩ : ∃ f, fuel = f + 1 := ⟨fuel - 1, by omega⟩
    have henter : p.enter = .error (.invalid ("filter is too complex: more than " ++
        toString maxDepth ++ " levels of nesting")) := by
      simp only [enter]
      rw [if_pos (by omega)]
    rw [parseOr, henter]
    exact .error _
  | succ levels ih =>
    obtain ⟨fuel, rfl⟩ : ∃ f, fuel = f + 1 := ⟨fuel - 1, by omega⟩
    have henter : p.enter = .ok { p with depth := p.depth + 1 } := by
      simp only [enter]
      rw [if_neg (by omega)]
    have hinner : ∀ q, Follows { p with depth := p.depth + 1 } q →
        Agrees q (q.parseOr fuel) (Filter.parseOr levels q.rest) := by
      intro q hq
      have := hq.depth
      exact ih (by simp_all; omega) (by omega)
    have hrun : Agrees { p with depth := p.depth + 1 }
        (parseAnd (parseOr fuel) { p with depth := p.depth + 1 } >>= fun (left, q) =>
          parseWhile .or .or (parseAnd (parseOr fuel)) (q.tokens.length - q.position) left q)
        (Filter.parseOr (levels + 1) p.rest) := by
      refine Agrees.bind (parseAnd_agrees _ hinner) fun left q hq => ?_
      dsimp only
      rw [← length_rest]
      refine parseWhile_agrees (fun r hr => parseAnd_agrees r fun r' hr' => ?_) _ left
      exact hinner r' ((hq.trans hr).trans hr')
    have hleave := Agrees.leave (p := p) (q := { p with depth := p.depth + 1 }) rfl rfl hrun
    rw [bind_assoc] at hleave
    rw [parseOr, henter]
    exact hleave

end Parser

/-! ### Exactness -/

theorem parseOr_start_agrees (tokens : List Token) :
    Parser.Agrees (Parser.start tokens) ((Parser.start tokens).parseOr (maxDepth + 1))
      (parseOr maxDepth tokens) :=
  Parser.parseOr_agrees rfl (Nat.lt_succ_self _)

theorem parseTokens_eq_ok_iff :
    parseTokens tokens = .ok expr ↔ parseOr maxDepth tokens = .ok (expr, []) := by
  have hagrees := parseOr_start_agrees tokens
  unfold parseTokens
  generalize (Parser.start tokens).parseOr (maxDepth + 1) = r at hagrees
  generalize parseOr maxDepth tokens = s at hagrees
  cases hagrees with
  | error e => simp [bind, Except.bind]
  | @ok read q hq =>
    simp only [bind, Except.bind, Parser.peek_eq_head?]
    cases q.rest with
    | nil => simp
    | cons t ts => simp

theorem derives_of_parseTokens :
    parseTokens tokens = .ok expr ↔ Derives (maxDepth - 1) .or tokens expr := by
  rw [parseTokens_eq_ok_iff]
  exact (parseOr_exact (maxDepth - 1)).whole_iff (by simp [EndsOr])

/-- **The parser accepts what has a derivation in the grammar**, with the tree of the derivation,
and a parser that accepts has read every token and is back at depth zero. -/
theorem parseTokens_exact (tokens : List Token) :
    (∀ expr, parseTokens tokens = .ok expr ↔ Derives (maxDepth - 1) .or tokens expr) ∧
      ∀ expr, parseTokens tokens = .ok expr →
        ∃ p, (Parser.start tokens).parseOr (maxDepth + 1) = .ok (expr, p) ∧
          p.position = tokens.length ∧ p.depth = 0 := by
  refine ⟨fun expr => derives_of_parseTokens, fun expr h => ?_⟩
  have hagrees := parseOr_start_agrees tokens
  rw [parseTokens_eq_ok_iff.mp h] at hagrees
  generalize hrun : (Parser.start tokens).parseOr (maxDepth + 1) = r at hagrees
  generalize hanswer : (Except.ok (expr, []) : Result (Expr × List Token)) = s at hagrees
  cases hagrees with
  | error e => cases hanswer
  | @ok read q hq =>
    obtain ⟨rfl, hrest⟩ := Prod.mk.inj (Except.ok.inj hanswer)
    refine ⟨q, rfl, ?_, hq.depth⟩
    have hlen : q.tokens.length ≤ q.position := List.drop_eq_nil_iff.mp hrest.symm
    have hbound := q.bounded
    rw [hq.tokens] at hlen hbound
    exact Nat.le_antisymm hbound hlen

/-- `parseOptional` runs the parser on the tokens of its input. -/
theorem parseOptional_eq_ok_some_iff {input : String} :
    parseOptional input = .ok (some expr) ↔ trim input ≠ "" ∧
      ∃ tokens, tokenize (input.toList.length + 1) 0 input.toList = .ok tokens ∧
        tokens.length ≤ maxTokens ∧ parseTokens tokens = .ok expr := by
  unfold parseOptional
  split
  · simp_all
  · rename_i htrim
    simp only [bind_eq_ok, failIf_eq_ok, not_lt, parseTokens_eq_ok_iff]
    constructor
    · rintro ⟨tokens, htokens, ⟨⟩, hlength, ⟨read, rest⟩, hread, h⟩
      cases rest with
      | nil =>
        cases h
        exact ⟨htrim, tokens, htokens, hlength, hread⟩
      | cons t ts => cases h
    · rintro ⟨-, tokens, htokens, hlength, hread⟩
      exact ⟨tokens, htokens, (), hlength, (expr, []), hread, rfl⟩

end LazyPock.Filter
