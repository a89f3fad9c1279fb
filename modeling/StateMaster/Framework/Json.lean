import Mathlib

/-!
# Self-describing documents

`Json` is the document type of `serde_json::Value`: null, booleans, numbers, strings, arrays and
string-keyed maps. The same six shapes are what a self-describing binary format carries once
structs are written as named maps, so one type serves both. `Json.depth` is how deep the arrays and
maps of a document are nested, which a reader that recurses into them has to bound.
-/

namespace Framework

/-- A number as a document stores it: a non-negative integer, a negative one (by magnitude), or
the bit pattern of a double. -/
inductive Number where
  | posInt (n : ℕ)
  | negInt (n : ℕ)
  | float (bits : ℕ)
deriving DecidableEq, Repr

/-- A self-describing document. -/
inductive Json where
  | null
  | bool (b : Bool)
  | number (n : Number)
  | string (s : String)
  | array (items : List Json)
  | object (members : List (String × Json))
deriving Repr

namespace Json

-- `deriving DecidableEq` does not reach through the nested lists.
mutual

/-- Equality of documents is decidable. -/
def decEq : (a b : Json) → Decidable (a = b)
  | .null, .null => isTrue rfl
  | .bool a, .bool b => decidable_of_iff (a = b) (by simp)
  | .number a, .number b => decidable_of_iff (a = b) (by simp)
  | .string a, .string b => decidable_of_iff (a = b) (by simp)
  | .array a, .array b =>
    match decEqItems a b with
    | isTrue h => isTrue (by rw [h])
    | isFalse h => isFalse (by simpa using h)
  | .object a, .object b =>
    match decEqMembers a b with
    | isTrue h => isTrue (by rw [h])
    | isFalse h => isFalse (by simpa using h)
  | .null, .bool _ | .null, .number _ | .null, .string _ | .null, .array _ | .null, .object _
  | .bool _, .null | .bool _, .number _ | .bool _, .string _ | .bool _, .array _
  | .bool _, .object _ | .number _, .null | .number _, .bool _ | .number _, .string _
  | .number _, .array _ | .number _, .object _ | .string _, .null | .string _, .bool _
  | .string _, .number _ | .string _, .array _ | .string _, .object _ | .array _, .null
  | .array _, .bool _ | .array _, .number _ | .array _, .string _ | .array _, .object _
  | .object _, .null | .object _, .bool _ | .object _, .number _ | .object _, .string _
  | .object _, .array _ => isFalse nofun

/-- Equality of the items of an array is decidable. -/
def decEqItems : (a b : List Json) → Decidable (a = b)
  | [], [] => isTrue rfl
  | x :: a, y :: b =>
    match decEq x y, decEqItems a b with
    | isTrue h, isTrue h' => isTrue (by rw [h, h'])
    | isFalse h, _ => isFalse fun e => h (List.cons.inj e).1
    | _, isFalse h => isFalse fun e => h (List.cons.inj e).2
  | [], _ :: _ | _ :: _, [] => isFalse nofun

/-- Equality of the members of a map is decidable. -/
def decEqMembers : (a b : List (String × Json)) → Decidable (a = b)
  | [], [] => isTrue rfl
  | (k, x) :: a, (k', y) :: b =>
    match (inferInstance : Decidable (k = k')), decEq x y, decEqMembers a b with
    | isTrue h, isTrue h', isTrue h'' => isTrue (by rw [h, h', h''])
    | isFalse h, _, _ => isFalse fun e => h (Prod.mk.inj (List.cons.inj e).1).1
    | _, isFalse h, _ => isFalse fun e => h (Prod.mk.inj (List.cons.inj e).1).2
    | _, _, isFalse h => isFalse fun e => h (List.cons.inj e).2
  | [], _ :: _ | _ :: _, [] => isFalse nofun

end

instance : DecidableEq Json := decEq

/-! ### Nesting -/

mutual

/-- The number of arrays and maps around the innermost value; an empty one counts. -/
def depth : Json → ℕ
  | .array items => depthItems items + 1
  | .object members => depthMembers members + 1
  | .null | .bool _ | .number _ | .string _ => 0

/-- The deepest item of an array. -/
def depthItems : List Json → ℕ
  | [] => 0
  | d :: rest => max (depth d) (depthItems rest)

/-- The deepest member of a map. -/
def depthMembers : List (String × Json) → ℕ
  | [] => 0
  | (_, d) :: rest => max (depth d) (depthMembers rest)

end

attribute [simp] depth depthItems depthMembers

theorem depthItems_le_iff {items : List Json} {n : ℕ} :
    depthItems items ≤ n ↔ ∀ d ∈ items, depth d ≤ n := by
  induction items with
  | nil => simp
  | cons d rest ih => simp [ih]

end Json

end Framework
