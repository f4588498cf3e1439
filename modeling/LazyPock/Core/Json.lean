import LazyPock.Core.Assoc
import LazyPock.Core.Float

/-!
# JSON values

`serde_json::Value` as the server reads and writes it. An object is the list of its entries in key
order, looked up and extended as in `Assoc`.

## Main definitions

* `Json`, `JsonNumber`.
* `Json.get`, `Json.asStr`, `Json.asBool`, `Json.asU64`,
  `Json.asI64`, `Json.asF64`: the accessors of `Value`.
* `Json.ordered`: the objects in a value are maps.
* `Json.render`: `Value::to_string`.

## Main results

* `Json.induction`: a statement about every value, by the values it is made of.
-/

namespace LazyPock

/-- A JSON number: an integer of 64 bits, or a finite double. -/
inductive JsonNumber where
  | posInt (n : Nat)
  /-- `-(n + 1)`. -/
  | negInt (n : Nat)
  | float (x : F64)
deriving DecidableEq, Repr

/-- A JSON value. -/
inductive Json where
  | null
  | bool (b : Bool)
  | number (n : JsonNumber)
  | string (s : String)
  | array (items : List Json)
  | object (entries : List (String × Json))
deriving Repr

namespace Json

mutual

def decEq : (a b : Json) → Decidable (a = b)
  | null, null => isTrue rfl
  | bool a, bool b => decidable_of_iff (a = b) (by simp)
  | number a, number b => decidable_of_iff (a = b) (by simp)
  | string a, string b => decidable_of_iff (a = b) (by simp)
  | array a, array b =>
    match decEqList a b with
    | isTrue h => isTrue (by rw [h])
    | isFalse h => isFalse (by simpa using h)
  | object a, object b =>
    match decEqEntries a b with
    | isTrue h => isTrue (by rw [h])
    | isFalse h => isFalse (by simpa using h)
  | null, bool _ | null, number _ | null, string _ | null, array _ | null, object _
  | bool _, null | bool _, number _ | bool _, string _ | bool _, array _ | bool _, object _
  | number _, null | number _, bool _ | number _, string _ | number _, array _ | number _, object _
  | string _, null | string _, bool _ | string _, number _ | string _, array _ | string _, object _
  | array _, null | array _, bool _ | array _, number _ | array _, string _ | array _, object _
  | object _, null | object _, bool _ | object _, number _ | object _, string _ | object _, array _ =>
    isFalse (by simp)

def decEqList : (a b : List Json) → Decidable (a = b)
  | [], [] => isTrue rfl
  | [], _ :: _ | _ :: _, [] => isFalse (by simp)
  | x :: xs, y :: ys =>
    match decEq x y, decEqList xs ys with
    | isTrue hx, isTrue hxs => isTrue (by rw [hx, hxs])
    | isFalse hx, _ => isFalse fun h => hx (List.cons.inj h).1
    | _, isFalse hxs => isFalse fun h => hxs (List.cons.inj h).2

def decEqEntries : (a b : List (String × Json)) → Decidable (a = b)
  | [], [] => isTrue rfl
  | [], _ :: _ | _ :: _, [] => isFalse (by simp)
  | (k, x) :: xs, (l, y) :: ys =>
    match decEq x y, decEqEntries xs ys with
    | isTrue hx, isTrue hxs => decidable_of_iff (k = l) (by simp [hx, hxs])
    | isFalse hx, _ => isFalse fun h => hx (Prod.mk.inj (List.cons.inj h).1).2
    | _, isFalse hxs => isFalse fun h => hxs (List.cons.inj h).2

end

instance : DecidableEq Json := decEq

/-- A statement about every value, by the values it is made of. -/
@[elab_as_elim]
theorem induction {motive : Json → Prop} (null : motive null) (bool : ∀ b, motive (bool b))
    (number : ∀ n, motive (number n)) (string : ∀ s, motive (string s))
    (array : ∀ items, (∀ v ∈ items, motive v) → motive (array items))
    (object : ∀ entries, (∀ e ∈ entries, motive e.2) → motive (object entries)) (v : Json) :
    motive v :=
  @Json.rec motive (fun items => ∀ v ∈ items, motive v) (fun entries => ∀ e ∈ entries, motive e.2)
    (fun e => motive e.2) null bool number string array object
    (fun _ h => absurd h List.not_mem_nil)
    (fun _ _ hv hitems => List.forall_mem_cons.mpr ⟨hv, hitems⟩)
    (fun _ h => absurd h List.not_mem_nil)
    (fun _ _ he hentries => List.forall_mem_cons.mpr ⟨he, hentries⟩) (fun _ _ hv => hv) v

/-! ### Well-formed values -/

mutual

/-- The entries of every object in it stand in key order, each key once. -/
def ordered : Json → Bool
  | array items => orderedItems items
  | object entries => decide (Assoc.Sorted entries) && orderedEntries entries
  | _ => true

def orderedItems : List Json → Bool
  | [] => true
  | v :: rest => ordered v && orderedItems rest

def orderedEntries : List (String × Json) → Bool
  | [] => true
  | (_, v) :: rest => ordered v && orderedEntries rest

end

theorem ordered_array {items : List Json} :
    (array items).ordered = true ↔ ∀ v ∈ items, v.ordered = true := by
  rw [ordered]
  induction items with
  | nil => simp [orderedItems]
  | cons v rest ih => simp [orderedItems, ih]

theorem ordered_object {entries : List (String × Json)} :
    (object entries).ordered = true ↔
      Assoc.Sorted entries ∧ ∀ e ∈ entries, e.2.ordered = true := by
  have hentries : orderedEntries entries = true ↔ ∀ e ∈ entries, e.2.ordered = true := by
    induction entries with
    | nil => simp [orderedEntries]
    | cons e rest ih => rw [orderedEntries, Bool.and_eq_true, ih, List.forall_mem_cons]
  rw [ordered, Bool.and_eq_true, decide_eq_true_eq, hentries]

/-! ### Accessors -/

/-- `Value::get`: the entry of an object, nothing for any other value. -/
def get (key : String) : Json → Option Json
  | object entries => Assoc.lookup key entries
  | _ => none

def isNull : Json → Bool
  | null => true
  | _ => false

def isObject : Json → Bool
  | object _ => true
  | _ => false

def isBoolean : Json → Bool
  | bool _ => true
  | _ => false

def asBool : Json → Option Bool
  | bool b => some b
  | _ => none

def asStr : Json → Option String
  | string s => some s
  | _ => none

def asArray : Json → Option (List Json)
  | array items => some items
  | _ => none

def asObject : Json → Option (List (String × Json))
  | object entries => some entries
  | _ => none

/-- `Value::as_u64`: only an integer that is not negative. -/
def asU64 : Json → Option Nat
  | number (.posInt n) => some n
  | _ => none

/-- `Value::as_i64`: only an integer in range. -/
def asI64 : Json → Option Int
  | number (.posInt n) => if n < 2 ^ 63 then some n else none
  | number (.negInt n) => some (-(n + 1))
  | _ => none

/-- `Value::as_f64`: any number, converted. -/
def asF64 : Json → Option F64
  | number (.posInt n) => some (F64.ofRatio false n 1)
  | number (.negInt n) => some (F64.ofRatio true (n + 1) 1)
  | number (.float x) => some x
  | _ => none

/-- `get(key)` with `null` read as absent. -/
def getNonNull (key : String) (value : Json) : Option Json :=
  (value.get key).filter fun v => !v.isNull

@[simp] theorem get_object (key : String) (entries : List (String × Json)) :
    (object entries).get key = Assoc.lookup key entries := rfl

/-! ### Text -/

def escapeChar (c : Char) : List Char :=
  if c = '"' then ['\\', '"']
  else if c = '\\' then ['\\', '\\']
  else if c = '\n' then ['\\', 'n']
  else if c = '\r' then ['\\', 'r']
  else if c = '\t' then ['\\', 't']
  else if c.toNat = 8 then ['\\', 'b']
  else if c.toNat = 12 then ['\\', 'f']
  else if c.toNat < 32 then
    let hex := Nat.toDigits 16 c.toNat
    "\\u".toList ++ List.replicate (4 - hex.length) '0' ++ hex
  else [c]

def renderString (s : String) : String := "\"" ++ String.ofList (s.toList.flatMap escapeChar) ++ "\""

/-- A finite double in JSON text: a point or an exponent always marks it as one. -/
def renderFloat (x : F64) : String :=
  let sign := if x.isNegative then "-" else ""
  match x with
  | .finite _ 0 _ => sign ++ "0.0"
  | .finite _ m e =>
    let (d, p) := F64.shortest m e
    let digits := Nat.toDigits 10 d
    -- The position of the decimal point counted from the first digit.
    let point : Int := digits.length + p
    if 0 ≤ p ∧ point ≤ 16 then
      sign ++ String.ofList (digits ++ List.replicate p.toNat '0') ++ ".0"
    else if 0 < point ∧ point ≤ 16 then
      sign ++ String.ofList (digits.take point.toNat) ++ "." ++ String.ofList (digits.drop point.toNat)
    else if -5 < point ∧ point ≤ 0 then
      sign ++ "0." ++ String.ofList (List.replicate (-point).toNat '0' ++ digits)
    else
      let tail := if digits.length = 1 then "" else "." ++ String.ofList (digits.drop 1)
      sign ++ String.ofList (digits.take 1) ++ tail ++ "e" ++ toString (point - 1)
  | _ => "null"

def renderNumber : JsonNumber → String
  | .posInt n => toString n
  | .negInt n => "-" ++ toString (n + 1)
  | .float x => renderFloat x

mutual

/-- `Value::to_string`: compact JSON text. -/
def render : Json → String
  | null => "null"
  | bool b => if b then "true" else "false"
  | number n => renderNumber n
  | string s => renderString s
  | array items => "[" ++ Text.join "," (renderList items) ++ "]"
  | object entries => "\x7b" ++ Text.join "," (renderEntries entries) ++ "\x7d"

def renderList : List Json → List String
  | [] => []
  | v :: rest => render v :: renderList rest

def renderEntries : List (String × Json) → List String
  | [] => []
  | (k, v) :: rest => (renderString k ++ ":" ++ render v) :: renderEntries rest

end

end Json

end LazyPock
