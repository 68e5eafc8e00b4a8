import Mathlib.Algebra.GroupWithZero.Nat
import Mathlib.Data.Rat.Defs

/-! What `yaml.safe_load` gives, and what the built-in functions of Python make of it. -/

namespace Quinn.Loading

/-- A `float`; a finite one is that nearest to `q`. -/
inductive Number
  | finite (q : Rat)
  | inf (negative : Bool)
  | nan
  deriving DecidableEq

inductive Scalar
  | null
  | bool (b : Bool)
  | int (n : Int)
  | float (x : Number)
  | str (s : String)
  | bytes (b : List UInt8)
  | date (iso : String)
  | datetime (iso : String)
  deriving DecidableEq

/-- The parser makes no two keys of a mapping alike. -/
inductive Yaml
  | scalar (s : Scalar)
  | list (items : List Yaml)
  | map (entries : List (Scalar × Yaml))

/-- What is known of a character by the tables of Unicode. -/
structure Unicode where
  isDecimal : Char → Bool
  isSpace : Char → Bool
  isIdStart : Char → Bool
  isIdContinue : Char → Bool

namespace Unicode

variable (u : Unicode) (c : Char)

def digit : Bool := if c.val < 128 then c.isDigit else u.isDecimal c

def space : Bool := if c.val < 128 then c.val ∈ [9, 10, 11, 12, 13, 28, 29, 30, 31, 32] else u.isSpace c

def idStart : Bool := if c.val < 128 then c.isAlpha || c = '_' else u.isIdStart c

def idContinue : Bool := if c.val < 128 then c.isAlphanum || c = '_' else u.isIdContinue c

def isIdentifier (s : String) : Bool :=
  match s.toList with
  | [] => false
  | c :: cs => u.idStart c && cs.all u.idContinue

end Unicode

section grammar

variable (digit : Char → Bool)

def moreDigits : List Char → List Char
  | '_' :: c :: cs => if digit c then moreDigits cs else '_' :: c :: cs
  | c :: cs => if digit c then moreDigits cs else c :: cs
  | [] => []

/-- What is left after `digit (["_"] digit)*`, if it starts so. -/
def digitPart : List Char → Option (List Char)
  | c :: cs => if digit c then some (moreDigits digit cs) else none
  | [] => none

def numberPart (cs : List Char) : Option (List Char) :=
  match digitPart digit cs with
  | some ('.' :: rest) => some ((digitPart digit rest).getD rest)
  | some rest => some rest
  | none =>
    match cs with
    | '.' :: rest => digitPart digit rest
    | _ => none

def dropSign : List Char → List Char
  | '+' :: cs => cs
  | '-' :: cs => cs
  | cs => cs

def isFloatNumber (cs : List Char) : Bool :=
  match numberPart digit cs with
  | none => false
  | some [] => true
  | some (c :: rest) => (c = 'e' || c = 'E') && digitPart digit (dropSign rest) = some []

def strip (space : Char → Bool) (cs : List Char) : List Char :=
  ((cs.dropWhile space).reverse.dropWhile space).reverse

def isFloatText (space : Char → Bool) (cs : List Char) : Bool :=
  let cs := dropSign (strip space cs)
  isFloatNumber digit cs || cs.map Char.toLower ∈ ["inf".toList, "infinity".toList, "nan".toList]

end grammar

/-- `sys.get_int_max_str_digits()` -/
def maxStrDigits : Nat := 4300

/-- An integer from here on rounds to no `float`. -/
def floatBound : Nat := 2 ^ 1024 - 2 ^ 970

namespace Scalar

def truthy : Scalar → Bool
  | .null => false
  | .bool b => b
  | .int n => n ≠ 0
  | .float x => x ≠ .finite 0
  | .str s => s ≠ ""
  | .bytes b => !b.isEmpty
  | .date _ => true
  | .datetime _ => true

def typeName : Scalar → String
  | .null => "NoneType"
  | .bool _ => "bool"
  | .int _ => "int"
  | .float _ => "float"
  | .str _ => "str"
  | .bytes _ => "bytes"
  | .date _ => "date"
  | .datetime _ => "datetime"

/-- `str` and `repr` refuse an integer of too many digits. -/
def printable : Scalar → Bool
  | .int n => n.natAbs < 10 ^ maxStrDigits
  | _ => true

end Scalar

namespace Yaml

abbrev null : Yaml := .scalar .null

abbrev text (s : String) : Yaml := .scalar (.str s)

def isNull : Yaml → Bool
  | .scalar .null => true
  | _ => false

def isMap : Yaml → Bool
  | .map _ => true
  | _ => false

def isList : Yaml → Bool
  | .list _ => true
  | _ => false

def text? : Yaml → Option String
  | .scalar (.str s) => some s
  | _ => none

def truthy : Yaml → Bool
  | .scalar s => s.truthy
  | .list items => !items.isEmpty
  | .map entries => !entries.isEmpty

def typeName : Yaml → String
  | .scalar s => s.typeName
  | .list _ => "list"
  | .map _ => "dict"

def entries : Yaml → List (Scalar × Yaml)
  | .map entries => entries
  | _ => []

def items : Yaml → List Yaml
  | .list items => items
  | _ => []

def lookup (key : String) : List (Scalar × Yaml) → Option Yaml
  | [] => none
  | (k, v) :: es => if k = .str key then some v else lookup key es

def getD (v : Yaml) (key : String) (default : Yaml) : Yaml := (lookup key v.entries).getD default

def get (v : Yaml) (key : String) : Yaml := v.getD key null

def orEmpty (v : Yaml) : Yaml := if v.truthy then v else .map []

/-- What a loop over the value runs through. -/
def items? : Yaml → Option (List Yaml)
  | .scalar (.str s) => some (s.toList.map fun c => text (String.singleton c))
  | .scalar (.bytes b) => some (b.map fun x => .scalar (.int x.toNat))
  | .scalar _ => none
  | .list items => some items
  | .map entries => some (entries.map fun e => .scalar e.1)

mutual

/-- `str` and `repr` do not fail. -/
def printable : Yaml → Bool
  | .scalar s => s.printable
  | .list items => printableItems items
  | .map entries => printableEntries entries

def printableItems : List Yaml → Bool
  | [] => true
  | v :: vs => v.printable && printableItems vs

def printableEntries : List (Scalar × Yaml) → Bool
  | [] => true
  | (k, v) :: es => k.printable && v.printable && printableEntries es

end

/-- `P` of a tree follows from `P` of what is in it. -/
structure Inductive (P : Yaml → Prop) : Prop where
  scalar : ∀ s, P (.scalar s)
  list : ∀ items, (∀ v ∈ items, P v) → P (.list items)
  map : ∀ entries, (∀ e ∈ entries, P e.2) → P (.map entries)

mutual

theorem Inductive.all {P : Yaml → Prop} (h : Inductive P) : ∀ v, P v
  | .scalar s => h.scalar s
  | .list items => h.list items (h.items items)
  | .map entries => h.map entries (h.entries entries)

theorem Inductive.items {P : Yaml → Prop} (h : Inductive P) : ∀ items : List Yaml, ∀ v ∈ items, P v
  | [] => fun _ hv => absurd hv List.not_mem_nil
  | v :: vs => List.forall_mem_cons.2 ⟨h.all v, h.items vs⟩

theorem Inductive.entries {P : Yaml → Prop} (h : Inductive P) :
    ∀ entries : List (Scalar × Yaml), ∀ e ∈ entries, P e.2
  | [] => fun _ he => absurd he List.not_mem_nil
  | (_, v) :: es => List.forall_mem_cons.2 ⟨h.all v, h.entries es⟩

end

@[induction_eliminator]
theorem induct {P : Yaml → Prop} (scalar : ∀ s, P (.scalar s))
    (list : ∀ items, (∀ v ∈ items, P v) → P (.list items))
    (map : ∀ entries, (∀ e ∈ entries, P e.2) → P (.map entries)) (v : Yaml) : P v :=
  (Inductive.mk scalar list map).all v

theorem get_of_isNull {v : Yaml} (h : v.isNull = true) (key : String) (default : Yaml) :
    v.getD key default = default := by
  cases v with
  | scalar s => rfl
  | list items => cases h
  | map entries => cases h

end Yaml

end Quinn.Loading
