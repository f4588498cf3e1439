import LazyPock.Query.Projection
import LazyPock.Query.References

/-!
# What a document expands

The document of a record once more, as the tree of its expanded relations: the same builder, with what
stands under `expand` kept apart from the record's own keys. The text of a tree is the document the
code writes.

A relation is expanded at the end of a path when the tree has it there. Every path of an `expand`
value is expanded, unless the value also asks for `*`: then each relation of the record is expanded
and nothing below it, whatever the other entries say.

## Main definitions

* `DocumentTree`: a document and the documents under its `expand`.
* `objectTree`, `recordTree`: the builder.
* `DocumentTree.follow`: the document that stands at the end of a path.
* `Honoured`: the expansions that an `expand` value asks for.

## Main results

* `objectExpression_eq_text`: the text of a tree is the document.
* `Builds.child`: what is expanded below a record.
* `expand_honoured_iff`.
-/

namespace LazyPock

open Text Sql Assoc

/-! ### Trees of documents -/

mutual

/-- A document: its row, the texts of its own keys, and what it expands. -/
inductive DocumentTree where
  | node (row : Ref) (pairs : List String) (expanded : Expansions)

/-- The documents under `expand`, in their order. -/
inductive Expansions where
  | nil
  | cons (name : String) (relation : RelationTarget FilterContext) (row : Ident)
      (document : DocumentTree) (rest : Expansions)

end

mutual

/-- The document of a tree. -/
def DocumentTree.text : DocumentTree → String
  | .node row pairs expanded => documentOf (pairs ++ expandKey (expanded.texts row))

/-- The pairs of the expanded relations. -/
def Expansions.texts (parent : Ref) : Expansions → List String
  | .nil => []
  | .cons name relation row document rest =>
    (stringConstant name ++ ", " ++ expandExpression relation parent row document.text) ::
      rest.texts parent

end

/-- The document that is expanded under a name. -/
@[grind =]
def Expansions.child : Expansions → String → Option DocumentTree
  | .nil, _ => none
  | .cons name _ _ document rest, key => if key = name then some document else rest.child key

@[grind =]
def DocumentTree.child : DocumentTree → String → Option DocumentTree
  | .node _ _ expanded, key => expanded.child key

/-- The document at the end of a path. -/
def DocumentTree.follow : DocumentTree → List String → Option DocumentTree :=
  Paths.follow DocumentTree.child

/-! ### The builder -/

/-- Build the tree of one level; `child` builds the one below. -/
abbrev TreeBuilder :=
  FilterContext → Ref → FieldSelection → ExpandSpec → Nat → Result (DocumentTree × Nat)

/-- The expanded relations, the alias counter threaded through. -/
def expandTrees (child : TreeBuilder) (context : FilterContext) (selection : FieldSelection)
    (expand : ExpandSpec) : List String → Nat → Result (Expansions × Nat)
  | [], counter => .ok (.nil, counter)
  | name :: names, counter => do
    let relation ← okOr (.invalid (debug name ++ " is not a relation field of collection " ++
      debug context.table)) (lookup name context.relations)
    let row := expandAlias (counter + 1)
    let (document, counter) ←
      child relation.context (.bare row) (selection.child name) (expand.child name) (counter + 1)
    let (rest, counter) ← expandTrees child context selection expand names counter
    .ok (.cons name relation row document rest, counter)

/-- The tree of a document, with `levels` levels left to build. -/
def objectTree : (levels : Nat) → TreeBuilder
  | 0, _, _, _, _, _ =>
    .error (.invalid ("`expand` is deeper than the supported " ++ toString maxExpandDepth ++
      " levels"))
  | levels + 1, context, row, selection, expand, counter => do
    let columns ← (selection.effectiveColumns context).mapM (columnPair context row)
    let (expanded, counter) ← expandTrees (objectTree levels) context selection expand
      (expand.relationsToExpand context) counter
    .ok (.node row (columns ++ collectionPairs context selection) expanded, counter)

/-- The tree of a record's document. -/
def recordTree (context : FilterContext) (root : Ref) (selection : FieldSelection)
    (expand : ExpandSpec) : Result DocumentTree := do
  let (tree, _) ← objectTree (maxExpandDepth + 1) context root selection expand 0
  .ok tree

theorem expandPairs_eq_texts {child : DocumentBuilder} {childTree : TreeBuilder}
    (hchild : ∀ context row selection expand counter, child context row selection expand counter =
      (childTree context row selection expand counter).map fun p => (p.1.text, p.2))
    (context : FilterContext) (parent : Ref) (selection : FieldSelection) (expand : ExpandSpec)
    (names : List String) (counter : Nat) :
    expandPairs child context parent selection expand names counter =
      (expandTrees childTree context selection expand names counter).map
        fun p => (p.1.texts parent, p.2) := by
  induction names generalizing counter with
  | nil => rfl
  | cons name names ih =>
    rw [expandPairs, expandTrees]
    cases okOr (.invalid (debug name ++ " is not a relation field of collection " ++
      debug context.table)) (lookup name context.relations) with
    | error e => rfl
    | ok relation =>
      have hbelow := hchild relation.context (.bare (expandAlias (counter + 1)))
        (selection.child name) (expand.child name) (counter + 1)
      unfold FieldSelection.child ExpandSpec.child at hbelow
      simp only [Bind.bind, Except.bind]
      rw [hbelow]
      unfold FieldSelection.child ExpandSpec.child
      cases childTree relation.context (.bare (expandAlias (counter + 1)))
          ((lookup name selection.nested).getD .all)
          (if expand.all then .none else (lookup name expand.nested).getD .none)
          (counter + 1) with
      | error e => rfl
      | ok below =>
        obtain ⟨document, next⟩ := below
        simp only [Except.map]
        rw [ih next]
        cases expandTrees childTree context selection expand names next with
        | error e => rfl
        | ok rest => rfl

/-- **The text of a tree is the document the code writes.** -/
theorem objectExpression_eq_text (levels : Nat) (context : FilterContext) (row : Ref)
    (selection : FieldSelection) (expand : ExpandSpec) (counter : Nat) :
    objectExpression levels context row selection expand counter =
      (objectTree levels context row selection expand counter).map fun p => (p.1.text, p.2) := by
  induction levels generalizing context row selection expand counter with
  | zero => rfl
  | succ levels ih =>
    rw [objectExpression, objectTree]
    cases (selection.effectiveColumns context).mapM (columnPair context row) with
    | error e => rfl
    | ok columns =>
      simp only [Bind.bind, Except.bind]
      rw [expandPairs_eq_texts ih]
      cases expandTrees (objectTree levels) context selection expand
          (expand.relationsToExpand context) counter with
      | error e => rfl
      | ok expanded => rfl

theorem recordDocument_eq_text (context : FilterContext) (root : Ref) (selection : FieldSelection)
    (expand : ExpandSpec) :
    recordDocument context root selection expand =
      (recordTree context root selection expand).map DocumentTree.text := by
  unfold recordDocument recordTree
  rw [objectExpression_eq_text]
  cases objectTree (maxExpandDepth + 1) context root selection expand 0 <;> rfl

/-! ### What is expanded -/

/-- A tree that is built for an expansion of the context. -/
def Builds (context : FilterContext) (expand : ExpandSpec) (tree : DocumentTree) : Prop :=
  ∃ levels row selection counter next,
    objectTree levels context row selection expand counter = .ok (tree, next)

section Builds

variable {context : FilterContext} {expand : ExpandSpec}

theorem child_of_expandTrees {levels : Nat} {selection : FieldSelection} {names : List String}
    {counter next : Nat} {expanded : Expansions}
    (h : expandTrees (objectTree levels) context selection expand names counter = .ok (expanded, next))
    (name : String) :
    (name ∈ names → ∃ relation below, lookup name context.relations = some relation ∧
      expanded.child name = some below ∧ Builds relation.context (expand.child name) below) ∧
    (name ∉ names → expanded.child name = none) := by
  induction names generalizing counter next expanded with
  | nil =>
    obtain ⟨rfl, -⟩ := Prod.mk.inj (Except.ok.inj h)
    exact ⟨fun hmem => absurd hmem List.not_mem_nil, fun _ => rfl⟩
  | cons first names ih =>
    obtain ⟨relation, hrelation, h⟩ := bind_eq_ok.mp h
    obtain ⟨⟨document, counter'⟩, hdocument, h⟩ := bind_eq_ok.mp h
    obtain ⟨⟨rest, counter''⟩, hrest, h⟩ := bind_eq_ok.mp h
    obtain ⟨rfl, rfl⟩ := Prod.mk.inj (Except.ok.inj h)
    obtain ⟨hin, hout⟩ := ih hrest
    by_cases hfirst : first = name
    · subst hfirst
      refine ⟨fun _ => ⟨relation, document, okOr_eq_ok.mp hrelation, ?_, _, _, _, _, _,
        hdocument⟩, fun hmem => absurd List.mem_cons_self hmem⟩
      rw [Expansions.child, if_pos rfl]
    · have hchild : (Expansions.cons first relation (expandAlias (counter + 1)) document rest).child
          name = rest.child name := by rw [Expansions.child, if_neg (Ne.symm hfirst)]
      rw [hchild, List.mem_cons, or_iff_right (Ne.symm hfirst)]
      exact ⟨hin, hout⟩

/-- **What is expanded below a record.** -/
theorem Builds.child {tree : DocumentTree} (h : Builds context expand tree) (name : String) :
    (name ∈ expand.relationsToExpand context → ∃ relation below,
      lookup name context.relations = some relation ∧ tree.child name = some below ∧
        Builds relation.context (expand.child name) below) ∧
    (name ∉ expand.relationsToExpand context → tree.child name = none) := by
  obtain ⟨levels, row, selection, counter, next, h⟩ := h
  cases levels with
  | zero => cases h
  | succ levels =>
    obtain ⟨columns, -, h⟩ := bind_eq_ok.mp h
    obtain ⟨⟨expanded, counter'⟩, hexpanded, h⟩ := bind_eq_ok.mp h
    obtain ⟨rfl, -⟩ := Prod.mk.inj (Except.ok.inj h)
    exact child_of_expandTrees hexpanded name

/-- Nothing is expanded below an empty expansion. -/
theorem Builds.child_none {tree : DocumentTree} (h : Builds context .none tree) (name : String) :
    tree.child name = none :=
  (h.child name).2 List.not_mem_nil

/-- **Without `*`, every path of an expansion is expanded.** -/
theorem Builds.follow {tree : DocumentTree} (h : Builds context expand tree)
    (hall : ∀ path below, expand.follow path = some below → below.all = false)
    {path : List String} (hpath : (expand.follow path).isSome = true) :
    (tree.follow path).isSome = true := by
  obtain ⟨last, hlast⟩ := Option.isSome_iff_exists.mp hpath
  let Matches (expand : ExpandSpec) (tree : DocumentTree) : Prop :=
    (∃ context, Builds context expand tree) ∧
      ∀ path below, expand.follow path = some below → below.all = false
  have hstep : ∀ expand tree name next, Matches expand tree →
      lookup name expand.nested = some next →
      ∃ below, tree.child name = some below ∧ Matches next below := by
    rintro expand tree name next ⟨⟨context, hbuilds⟩, hall⟩ hnext
    have htop : expand.all = false := hall [] expand rfl
    have hmem : name ∈ expand.relationsToExpand context := by
      rw [ExpandSpec.relationsToExpand, if_neg (by simp [htop])]
      exact List.mem_map_of_mem (mem_of_lookup hnext)
    obtain ⟨relation, below, -, hbelow, hbuilt⟩ := (hbuilds.child name).1 hmem
    rw [ExpandSpec.child, if_neg (by simp [htop]), hnext] at hbuilt
    refine ⟨below, hbelow, ⟨relation.context, hbuilt⟩, fun path last hlast => ?_⟩
    exact hall (name :: path) last (Paths.follow_cons_eq_some.mpr ⟨next, hnext, hlast⟩)
  obtain ⟨below, hbelow, -⟩ := Paths.follow_of_step hstep ⟨⟨context, h⟩, hall⟩ hlast
  exact Option.isSome_iff_exists.mpr ⟨below, hbelow⟩

/-- With `*`, each relation of the record is expanded, and nothing below it. -/
theorem Builds.follow_all {tree : DocumentTree} (h : Builds context expand tree)
    (hall : expand.all = true) (name : String) :
    ((lookup name context.relations).isSome = true → (tree.follow [name]).isSome = true) ∧
      ∀ second rest, tree.follow (name :: second :: rest) = none := by
  have hexpand : expand.relationsToExpand context =
      (context.relations.map Prod.fst).insertionSort (· ≤ ·) := if_pos hall
  refine ⟨fun hlookup => ?_, fun second rest => ?_⟩
  · obtain ⟨relation, hrelation⟩ := Option.isSome_iff_exists.mp hlookup
    have hmem : name ∈ expand.relationsToExpand context := by
      rw [hexpand, List.mem_insertionSort]
      exact List.mem_map_of_mem (mem_of_lookup hrelation)
    obtain ⟨_, below, -, hbelow, -⟩ := (h.child name).1 hmem
    rw [DocumentTree.follow, Paths.follow_cons, hbelow]
    rfl
  · rw [DocumentTree.follow, Paths.follow_cons]
    by_cases hmem : name ∈ expand.relationsToExpand context
    · obtain ⟨_, below, -, hbelow, hbuilt⟩ := (h.child name).1 hmem
      rw [ExpandSpec.child, if_pos hall] at hbuilt
      rw [hbelow, Option.bind_some, Paths.follow_cons, hbuilt.child_none, Option.bind_none]
    · rw [(h.child name).2 hmem, Option.bind_none]

end Builds

/-- **An `expand` value is honoured** by a document: the path of every entry is expanded in it, and
with `*` every relation of the record. -/
structure Honoured (context : FilterContext) (input : Option String) (tree : DocumentTree) : Prop where
  path : ∀ raw ∈ ExpandSpec.requested input, raw ≠ "*" →
    (tree.follow (splitOn '.' raw)).isSome = true
  all : "*" ∈ ExpandSpec.requested input → ∀ name,
    (lookup name context.relations).isSome = true → (tree.follow [name]).isSome = true

theorem exists_tree {context : FilterContext} {root : Ref} {selection : FieldSelection}
    {expand : ExpandSpec} {document : String}
    (h : recordDocument context root selection expand = .ok document) :
    ∃ tree, recordTree context root selection expand = .ok tree ∧ tree.text = document ∧
      Builds context expand tree := by
  rw [recordDocument_eq_text] at h
  obtain ⟨tree, htree, htext⟩ := map_eq_ok.mp h
  obtain ⟨⟨built, next⟩, hbuilt, heq⟩ := bind_eq_ok.mp htree
  obtain rfl := Except.ok.inj heq
  exact ⟨built, htree, htext, _, _, _, _, _, hbuilt⟩

/-- An `expand` value is honoured if it does not ask for `*` and also for a longer path. -/
theorem honoured_of_parse {context : FilterContext} {input : Option String} {expand : ExpandSpec}
    {root : Ref} {selection : FieldSelection} {document : String}
    (hparse : ExpandSpec.parse input context = .ok expand)
    (hdocument : recordDocument context root selection expand = .ok document)
    (hnot : ¬ ("*" ∈ ExpandSpec.requested input ∧ ∃ raw ∈ ExpandSpec.requested input,
      2 ≤ (splitOn '.' raw).length)) :
    ∃ tree, recordTree context root selection expand = .ok tree ∧ tree.text = document ∧
      Honoured context input tree := by
  obtain ⟨tree, htree, htext, hbuilds⟩ := exists_tree hdocument
  have hread := ExpandSpec.readFrom_of_parse hparse
  have hall (hstar : "*" ∈ ExpandSpec.requested input) (name : String)
      (hname : (lookup name context.relations).isSome = true) :
      (tree.follow [name]).isSome = true :=
    (hbuilds.follow_all (hread.all_iff.mpr hstar) name).1 hname
  refine ⟨tree, htree, htext, fun raw hraw hne => ?_, hall⟩
  by_cases hstar : "*" ∈ ExpandSpec.requested input
  · -- beside `*` the path is one relation of the record
    obtain ⟨name, hsplit⟩ : ∃ name, splitOn '.' raw = [name] := by
      have hshort := fun hlength => hnot ⟨hstar, raw, hraw, hlength⟩
      match hpieces : splitOn '.' raw with
      | [] => exact absurd hpieces (splitOn_ne_nil '.' raw)
      | [name] => exact ⟨name, rfl⟩
      | _ :: _ :: _ => exact absurd (by rw [hpieces]; simp) hshort
    obtain ⟨hreach, -⟩ := hread.path raw hraw hne
    rw [hsplit] at hreach ⊢
    refine hall hstar name ?_
    rw [FilterContext.follow, Paths.follow_cons] at hreach
    cases hlookup : lookup name context.relations with
    | none =>
      rw [hlookup] at hreach
      cases hreach
    | some relation => rfl
  · refine hbuilds.follow (fun path below hbelow => ?_)
      ((hread.isSome_iff _ (splitOn_ne_nil '.' raw)).mpr ⟨raw, hraw, hne, List.prefix_rfl⟩)
    by_cases hpath : path = []
    · subst hpath
      obtain rfl := Option.some.inj hbelow
      exact Bool.eq_false_iff.mpr fun htop => hstar (hread.all_iff.mp htop)
    · exact hread.all_below path hpath below hbelow

/-- **When an `expand` value is honoured**: unless it asks for `*` and also for a path of two or more
relations. -/
theorem expand_honoured_iff {context : FilterContext} {input : Option String} {expand : ExpandSpec}
    {root : Ref} {selection : FieldSelection} {document : String}
    (hparse : ExpandSpec.parse input context = .ok expand)
    (hdocument : recordDocument context root selection expand = .ok document) :
    (∃ tree, recordTree context root selection expand = .ok tree ∧ tree.text = document ∧
      Honoured context input tree) ↔
      ¬ ("*" ∈ ExpandSpec.requested input ∧ ∃ raw ∈ ExpandSpec.requested input,
        2 ≤ (splitOn '.' raw).length) := by
  obtain ⟨tree, htree, -, hbuilds⟩ := exists_tree hdocument
  have hread := ExpandSpec.readFrom_of_parse hparse
  constructor
  · rintro ⟨other, hother, -, hhonoured⟩ ⟨hstar, raw, hraw, hlength⟩
    obtain rfl := Except.ok.inj (htree.symm.trans hother)
    have hne : raw ≠ "*" := by
      rintro rfl
      revert hlength
      decide
    have hpath := hhonoured.path raw hraw hne
    obtain ⟨first, second, rest, hsplit⟩ : ∃ first second rest,
        splitOn '.' raw = first :: second :: rest := by
      match splitOn '.' raw, hlength with
      | first :: second :: rest, _ => exact ⟨first, second, rest, rfl⟩
    rw [hsplit, (hbuilds.follow_all (hread.all_iff.mpr hstar) first).2] at hpath
    cases hpath
  · exact honoured_of_parse hparse hdocument

section PostAuthors

/-- Posts by authors of companies. -/
def postAuthors : FilterContext :=
  let companies : FilterContext := ⟨"companies", "", [("name", "text")], []⟩
  let people : FilterContext :=
    ⟨"people", "", [("company", "text")], [("company", ⟨"company", false, "companies", companies⟩)]⟩
  ⟨"posts", "", [("author", "text")], [("author", ⟨"author", false, "people", people⟩)]⟩

theorem expand_honoured_iff_nested :
    ∃ expand document, ExpandSpec.parse (some "author.company") postAuthors = .ok expand ∧
      recordDocument postAuthors (.bare rootAlias) .all expand = .ok document ∧
      ((∃ tree, recordTree postAuthors (.bare rootAlias) .all expand = .ok tree ∧ tree.text = document ∧
        Honoured postAuthors (some "author.company") tree) ↔
        ¬ ("*" ∈ ExpandSpec.requested (some "author.company") ∧
          ∃ raw ∈ ExpandSpec.requested (some "author.company"), 2 ≤ (splitOn '.' raw).length)) := by
  obtain ⟨expand, hparse, hdocument⟩ := exists_ok_of_any
    (x := ExpandSpec.parse (some "author.company") postAuthors)
    (P := fun expand => isOk (recordDocument postAuthors (.bare rootAlias) .all expand) = true)
    (by decide)
  obtain ⟨document, hdocument⟩ := isOk_iff.mp hdocument
  exact ⟨expand, document, hparse, hdocument, expand_honoured_iff hparse hdocument⟩

/-- **An expansion that another entry removes**: `author.company` is not expanded beside `*`. -/
theorem expand_all_drops_nested :
    ¬ ∀ (context : FilterContext) (input : Option String) (expand : ExpandSpec) (root : Ref)
      (selection : FieldSelection) (document : String),
      ExpandSpec.parse input context = .ok expand →
      recordDocument context root selection expand = .ok document →
      ∃ tree, recordTree context root selection expand = .ok tree ∧ tree.text = document ∧
        Honoured context input tree := by
  intro hall
  obtain ⟨expand, hparse, hdocument⟩ := exists_ok_of_any
    (x := ExpandSpec.parse (some "*,author.company") postAuthors)
    (P := fun expand => (recordTree postAuthors (.bare rootAlias) .all expand).toOption.any (fun tree =>
      decide ((tree.follow ["author", "company"]).isSome = false)) = true) (by decide)
  obtain ⟨tree, htree, hdropped⟩ := exists_ok_of_any hdocument
  have hbuilt : recordDocument postAuthors (.bare rootAlias) .all expand = .ok tree.text := by
    rw [recordDocument_eq_text, htree]
    rfl
  obtain ⟨other, hother, -, hhonoured⟩ := hall postAuthors _ expand _ _ _ hparse hbuilt
  obtain rfl := Except.ok.inj (htree.symm.trans hother)
  have hpath := hhonoured.path "author.company" (by decide) (by decide)
  rw [show splitOn '.' "author.company" = ["author", "company"] by decide] at hpath
  rw [hdropped] at hpath
  cases hpath

end PostAuthors

end LazyPock
