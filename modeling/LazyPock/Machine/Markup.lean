import Mathlib.Data.List.Basic

/-!
# Markup that is read by searching

Texts in which some characters are written as entities, and documents of tags and such texts. A reader that
only searches for tags, and replaces one entity after the other, finds in a document what its elements
hold.

## Main definitions

* `Machine.Markup.breakAt`: the text before and behind the first occurrence of a pattern.
* `Machine.Markup.replaceAll`: every occurrence of a pattern replaced, from the left.
* `Machine.Markup.Coding`: characters that are written as themselves or as an entity.
* `Machine.Markup.Item`: a tag, a text, or an element that holds only a text.

## Main results

* `Machine.Markup.replaceAll_flatMap`: one entity replaced in a coded text.
* `Machine.Markup.breakAt_item`, `Machine.Markup.breakAt_leaf`: what a search for a tag passes over, and
  where it stops.
* `Machine.Markup.breakAt_items`: what it finds in a document.
-/

namespace Machine.Markup

open List

local instance (priority := high) decidableForallMem {α : Type} (p : α → Prop) [DecidablePred p] (l : List α) :
    Decidable (∀ x ∈ l, p x) := List.decidableBAll p l

/-! ### Searching and replacing -/

/-- The text before and behind the first occurrence of a pattern. -/
@[grind =]
def breakAt (pattern : List Char) : List Char → Option (List Char × List Char)
  | [] => if pattern = [] then some ([], []) else none
  | c :: cs =>
    if pattern.isPrefixOf (c :: cs) then some ([], (c :: cs).drop pattern.length)
    else (breakAt pattern cs).map fun p => (c :: p.1, p.2)

/-- Every occurrence of a pattern that is not empty replaced, behind `skip` characters that are left out. -/
@[grind =]
def replaceFrom (pattern replacement : List Char) : (skip : ℕ) → List Char → List Char
  | _, [] => []
  | skip + 1, _ :: cs => replaceFrom pattern replacement skip cs
  | 0, c :: cs =>
    if pattern.isPrefixOf (c :: cs) then
      replacement ++ replaceFrom pattern replacement (pattern.length - 1) cs
    else c :: replaceFrom pattern replacement 0 cs

/-- `str::replace`, from the left. -/
def replaceAll (pattern replacement cs : List Char) : List Char :=
  replaceFrom pattern replacement 0 cs

section Search

variable {mark : Char} {rest : List Char} {pattern replacement : List Char}

theorem replaceFrom_eq_drop (skip : ℕ) (cs : List Char) :
    replaceFrom pattern replacement skip cs = replaceAll pattern replacement (cs.drop skip) := by
  induction cs generalizing skip with
  | nil => cases skip <;> rfl
  | cons c cs ih =>
    cases skip with
    | zero => rfl
    | succ skip => exact ih skip

/-- A pattern that stands here is replaced. -/
theorem replaceAll_pattern (hpattern : pattern ≠ []) :
    replaceAll pattern replacement (pattern ++ rest) =
      replacement ++ replaceAll pattern replacement rest := by
  obtain ⟨c, tail, rfl⟩ := exists_cons_of_ne_nil hpattern
  have hprefix : (c :: tail).isPrefixOf (c :: (tail ++ rest)) = true := by
    rw [ isPrefixOf_iff_prefix]
    exact ⟨rest, rfl⟩
  rw [cons_append, replaceAll, replaceFrom, if_pos hprefix, replaceFrom_eq_drop, length_cons,
    Nat.add_sub_cancel, drop_left]

/-- A character at which the pattern does not stand is kept. -/
theorem replaceAll_cons {c : Char} (h : ¬ pattern <+: c :: rest) :
    replaceAll pattern replacement (c :: rest) = c :: replaceAll pattern replacement rest := by
  rw [replaceAll, replaceFrom, if_neg (by rwa [ isPrefixOf_iff_prefix])]
  rfl

/-- A text without the mark that the pattern begins with is kept. -/
theorem replaceAll_append {front : List Char} (h : mark ∉ front) :
    replaceAll (mark :: pattern) replacement (front ++ rest) =
      front ++ replaceAll (mark :: pattern) replacement rest := by
  induction front with
  | nil => rfl
  | cons c front ih =>
    obtain ⟨hc, hfront⟩ := not_or.mp (mem_cons.not.mp h)
    rw [cons_append, replaceAll_cons fun hprefix => hc (cons_prefix_cons.mp hprefix).1,
      ih hfront, cons_append]

/-- A search goes on behind a character at which the pattern does not stand. -/
theorem breakAt_cons {c : Char} (h : ¬ pattern <+: c :: rest) :
    breakAt pattern (c :: rest) = (breakAt pattern rest).map fun p => (c :: p.1, p.2) := by
  rw [breakAt, if_neg (by rwa [ isPrefixOf_iff_prefix])]

/-- A search passes over a text without the mark that the pattern begins with. -/
theorem breakAt_append {front : List Char} (h : mark ∉ front) :
    breakAt (mark :: pattern) (front ++ rest) =
      (breakAt (mark :: pattern) rest).map fun p => (front ++ p.1, p.2) := by
  induction front with
  | nil =>
    rw [nil_append]
    cases breakAt (mark :: pattern) rest <;> rfl
  | cons c front ih =>
    obtain ⟨hc, hfront⟩ := not_or.mp (mem_cons.not.mp h)
    rw [cons_append, breakAt_cons fun hprefix => hc (cons_prefix_cons.mp hprefix).1,
      ih hfront, Option.map_map]
    rfl

/-- A search stops at the pattern. -/
theorem breakAt_pattern (hpattern : pattern ≠ []) : breakAt pattern (pattern ++ rest) = some ([], rest) := by
  obtain ⟨c, tail, rfl⟩ := exists_cons_of_ne_nil hpattern
  have hprefix : (c :: tail).isPrefixOf (c :: (tail ++ rest)) = true := by
    rw [ isPrefixOf_iff_prefix]
    exact ⟨rest, rfl⟩
  rw [cons_append, breakAt, if_pos hprefix, length_cons, drop_succ_cons, drop_left]

/-- Two names up to the same stop: what begins with one of them begins with no other. -/
theorem eq_of_stopped {stop : Char} {a b : List Char} (ha : stop ∉ a) (hb : stop ∉ b)
    (h : a ++ [stop] <+: b ++ stop :: rest) : a = b := by
  induction a generalizing b with
  | nil =>
    cases b with
    | nil => rfl
    | cons d b => exact absurd (cons_prefix_cons.mp h).1 fun heq => hb (heq ▸ mem_cons_self)
  | cons c a ih =>
    obtain ⟨hc, ha⟩ := not_or.mp (mem_cons.not.mp ha)
    cases b with
    | nil => exact absurd (cons_prefix_cons.mp h).1 fun heq => hc heq.symm
    | cons d b =>
      obtain ⟨rfl, htail⟩ := cons_prefix_cons.mp h
      rw [ih ha (not_or.mp (mem_cons.not.mp hb)).2 htail]

end Search

/-! ### Entities -/

/-- The entity of a name. -/
def entity (name : List Char) : List Char := '&' :: (name ++ [';'])

/-- A name of an entity. -/
def IsName (name : List Char) : Prop := '&' ∉ name ∧ ';' ∉ name

instance (name : List Char) : Decidable (IsName name) :=
  inferInstanceAs (Decidable ('&' ∉ name ∧ ';' ∉ name))

/-- Characters are written as a character other than `&`, or as an entity. -/
def Coding (code : Char → List Char) : Prop :=
  ∀ c, (∃ d, code c = [d] ∧ d ≠ '&') ∨ ∃ name, code c = entity name ∧ IsName name

/-- **One entity replaced** in a coded text: the characters that are written so. -/
theorem replaceAll_flatMap {code : Char → List Char} (hcode : Coding code) {name : List Char}
    (hname : IsName name) (replacement cs : List Char) :
    replaceAll (entity name) replacement (cs.flatMap code) =
      cs.flatMap fun c => if code c = entity name then replacement else code c := by
  induction cs with
  | nil => rfl
  | cons c cs ih =>
    rw [flatMap_cons, flatMap_cons, ← ih]
    rcases hcode c with ⟨d, hd, hmark⟩ | ⟨other, hother, hotherName⟩
    · have hne : code c ≠ entity name := by
        rw [hd, entity]
        exact fun heq => hmark (List.cons.inj heq).1
      rw [if_neg hne, hd]
      exact replaceAll_append (by simpa using hmark.symm)
    · rw [hother]
      by_cases heq : other = name
      · subst heq
        rw [if_pos rfl, replaceAll_pattern (by simp [entity])]
      · have hne : entity other ≠ entity name := fun h => heq (by simpa [entity] using h)
        have hprefix : ¬ entity name <+: '&' :: (other ++ [';'] ++ cs.flatMap code) := by
          intro h
          rw [entity, cons_prefix_cons, append_assoc] at h
          exact heq (eq_of_stopped hname.2 hotherName.2 h.2).symm
        have hfree : '&' ∉ other ++ [';'] := by simpa using hotherName.1
        have hstep : replaceAll (entity name) replacement (entity other ++ cs.flatMap code) =
            '&' :: replaceAll (entity name) replacement (other ++ [';'] ++ cs.flatMap code) :=
          replaceAll_cons hprefix
        rw [if_neg hne, hstep, entity, replaceAll_append hfree]
        rfl

/-! ### Documents -/

/-- A piece of a document. -/
inductive Item where
  /-- A tag, with what stands in it. -/
  | tag (content : List Char)
  | text (content : List Char)
  /-- An element that holds only a text. -/
  | leaf (name content : List Char)

def openTag (name : List Char) : List Char := '<' :: (name ++ ['>'])

def closeTag (name : List Char) : List Char := '<' :: '/' :: (name ++ ['>'])

variable (escape : Char → List Char)

/-- A piece as it is written. -/
@[grind =]
def Item.render : Item → List Char
  | .tag content => openTag content
  | .text content => content.flatMap escape
  | .leaf name content => openTag name ++ content.flatMap escape ++ closeTag name

/-- What stands between brackets has none. -/
def IsTag (content : List Char) : Prop := '<' ∉ content ∧ '>' ∉ content

instance (content : List Char) : Decidable (IsTag content) :=
  inferInstanceAs (Decidable ('<' ∉ content ∧ '>' ∉ content))

/-- Tags are tags, and none of them is one of the names alone. -/
@[grind =]
def Item.Clean (names : List (List Char)) : Item → Prop
  | .tag content => IsTag content ∧ content ∉ names
  | .text _ => True
  | .leaf name _ => IsTag name

/-- The texts of the elements with a name. -/
@[grind =]
def leafTexts (name : List Char) (items : List Item) : List (List Char) :=
  items.filterMap fun item => match item with
    | .leaf other content => if other = name then some content else none
    | _ => none

section Documents

variable {escape} {names : List (List Char)} {name content rest : List Char} {item : Item}
  (hescape : ∀ c, '<' ∉ escape c)

include hescape in
theorem notMem_escaped (content : List Char) : '<' ∉ content.flatMap escape := by
  rw [mem_flatMap]
  rintro ⟨c, -, hc⟩
  exact hescape c hc

/-- A search passes over another tag. -/
theorem breakAt_tag (hname : IsTag name) (hcontent : IsTag content) (hne : content ≠ name) :
    breakAt (openTag name) (openTag content ++ rest) =
      (breakAt (openTag name) rest).map fun p => (openTag content ++ p.1, p.2) := by
  have hprefix : ¬ openTag name <+: '<' :: (content ++ ['>'] ++ rest) := by
    intro h
    rw [openTag, cons_prefix_cons, append_assoc] at h
    exact hne (eq_of_stopped hname.2 hcontent.2 h.2).symm
  have hfree : '<' ∉ content ++ ['>'] := by simpa using hcontent.1
  have hstep : breakAt (openTag name) (openTag content ++ rest) =
      (breakAt (openTag name) (content ++ ['>'] ++ rest)).map fun p => ('<' :: p.1, p.2) :=
    breakAt_cons hprefix
  rw [hstep, openTag, breakAt_append hfree, Option.map_map]
  rfl

include hescape in
theorem breakAt_escaped (content : List Char) :
    breakAt (openTag name) (content.flatMap escape ++ rest) =
      (breakAt (openTag name) rest).map fun p => (content.flatMap escape ++ p.1, p.2) :=
  breakAt_append (notMem_escaped hescape content)

include hescape in
/-- **A search passes over a piece** that is not the element looked for. -/
theorem breakAt_item (hname : IsTag name) (hmem : name ∈ names) (hitem : item.Clean names)
    (hslash : '/' ∉ name) (hother : ∀ content, item ≠ .leaf name content) :
    breakAt (openTag name) (item.render escape ++ rest) =
      (breakAt (openTag name) rest).map fun p => (item.render escape ++ p.1, p.2) := by
  cases item with
  | tag content => exact breakAt_tag hname hitem.1 fun heq => hitem.2 (heq ▸ hmem)
  | text content => exact breakAt_escaped hescape content
  | leaf other content =>
    have hne : other ≠ name := fun heq => hother content (heq ▸ rfl)
    have hclosing : IsTag ('/' :: other) := ⟨by simpa using hitem.1, by simpa using hitem.2⟩
    have hneClosing : '/' :: other ≠ name := fun heq => hslash (heq ▸ mem_cons_self)
    have hclose : closeTag other = openTag ('/' :: other) := rfl
    rw [Item.render, hclose, append_assoc, append_assoc, breakAt_tag hname hitem hne,
      breakAt_escaped hescape, breakAt_tag hname hclosing hneClosing, Option.map_map, Option.map_map]
    refine congrArg (fun f => Option.map f _) (funext fun p => ?_)
    simp

/-- A search stops behind the tag of an element. -/
theorem breakAt_leaf : breakAt (openTag name) ((Item.leaf name content).render escape ++ rest) =
    some ([], content.flatMap escape ++ (closeTag name ++ rest)) := by
  rw [Item.render, append_assoc, append_assoc]
  exact breakAt_pattern (by simp [openTag])

include hescape in
/-- The text of an element ends at its closing tag. -/
theorem breakAt_close : breakAt (closeTag name) (content.flatMap escape ++ (closeTag name ++ rest)) =
    some (content.flatMap escape, rest) := by
  have hpattern : closeTag name ≠ [] := by simp [closeTag]
  rw [closeTag, breakAt_append (notMem_escaped hescape content), ← closeTag, breakAt_pattern hpattern]
  simp

/-- The texts of a document that begins with one more piece. -/
theorem leafTexts_cons_leaf (items : List Item) :
    leafTexts name (.leaf name content :: items) = content :: leafTexts name items := by
  simp [leafTexts]

theorem leafTexts_cons_other (items : List Item) (hother : ∀ content, item ≠ .leaf name content) :
    leafTexts name (item :: items) = leafTexts name items := by
  cases item with
  | tag content => rfl
  | text content => rfl
  | leaf other content =>
    have hne : other ≠ name := fun heq => hother content (heq ▸ rfl)
    simp [leafTexts, hne]

theorem leafTexts_append (front items : List Item) :
    leafTexts name (front ++ items) = leafTexts name front ++ leafTexts name items :=
  filterMap_append

/-- The texts of elements of one name. -/
theorem leafTexts_leaves (other : List Char) (texts : List (List Char)) :
    leafTexts name (texts.map (Item.leaf other)) = if other = name then texts else [] := by
  by_cases heq : other = name <;> simp [leafTexts, filterMap_map, heq]

include hescape in
/-- **What a search for an element finds** in a document: nothing, or the first one, with the rest of the
document behind it. -/
theorem breakAt_items (hname : IsTag name) (hmem : name ∈ names) (hslash : '/' ∉ name) (items : List Item)
    (hclean : ∀ item ∈ items, item.Clean names) :
    (leafTexts name items = [] ∧ breakAt (openTag name) (items.flatMap (Item.render escape)) = none) ∨
      ∃ front content later, (∀ item ∈ later, item.Clean names) ∧
        leafTexts name items = content :: leafTexts name later ∧
        breakAt (openTag name) (items.flatMap (Item.render escape)) =
          some (front, content.flatMap escape ++ (closeTag name ++ later.flatMap (Item.render escape))) := by
  induction items with
  | nil => exact .inl ⟨rfl, rfl⟩
  | cons item items ih =>
    obtain ⟨hitem, hitems⟩ := forall_mem_cons.mp hclean
    rw [flatMap_cons]
    by_cases hleaf : ∃ content, item = .leaf name content
    · obtain ⟨content, rfl⟩ := hleaf
      exact .inr ⟨[], content, items, hitems, leafTexts_cons_leaf items, breakAt_leaf⟩
    · have hother : ∀ content, item ≠ .leaf name content := fun content heq => hleaf ⟨content, heq⟩
      rw [leafTexts_cons_other items hother, breakAt_item hescape hname hmem hitem hslash hother]
      rcases ih hitems with ⟨htexts, hnone⟩ | ⟨front, content, later, hlater, htexts, hsome⟩
      · exact .inl ⟨htexts, by rw [hnone]; rfl⟩
      · exact .inr ⟨item.render escape ++ front, content, later, hlater, htexts, by rw [hsome]; rfl⟩

end Documents

end Machine.Markup
