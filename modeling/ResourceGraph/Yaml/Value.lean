import ResourceGraph.Number.Text

/-!
# YAML values

The values that a document writes. Keys may be any values, and a value may carry an application tag.
Two values are the same when they are of one kind and equal in content: an integer is never the same
as a floating point number, and mappings are compared without regard to order. Application tags are
the same when they agree after a second exclamation mark, if they have one.
-/

set_option autoImplicit false

namespace ResourceGraph.Yaml

/-- A value of a YAML document. -/
inductive Value where
  | null
  | bool (b : Bool)
  | int (i : Int)
  | float (x : Number)
  | string (s : String)
  | sequence (items : List Value)
  | mapping (entries : List (Value × Value))
  /-- A value under an application tag, given by its octets after the exclamation mark. -/
  | tagged (tag : List Nat) (value : Value)

namespace Value

/-- The octets of an application tag after a second exclamation mark, or all of them if there is no
such mark or nothing follows it. -/
def bareTag : List Nat → List Nat
  | 0x21 :: o :: rest => o :: rest
  | tag => tag

mutual

/-- Whether two values are the same. -/
def same : Value → Value → Bool
  | null, null => true
  | bool a, bool b => a == b
  | int a, int b => a == b
  | float a, float b => a.sameValue b
  | string a, string b => a == b
  | sequence as, sequence bs => sameItems as bs
  | mapping as, mapping bs => as.length == bs.length && allFound as bs
  | tagged s a, tagged t b => bareTag s == bareTag t && same a b
  | _, _ => false

/-- Whether two lists of values are the same one by one. -/
def sameItems : List Value → List Value → Bool
  | [], [] => true
  | a :: as, b :: bs => same a b && sameItems as bs
  | _, _ => false

/-- Whether each of some entries has its like among others. -/
def allFound : List (Value × Value) → List (Value × Value) → Bool
  | [], _ => true
  | (k, v) :: rest, bs => bs.any (fun e => same k e.1 && same v e.2) && allFound rest bs

end

/-- The text of a scalar as a key; collections have none. -/
def keyText? : Value → Option String
  | null => some "null"
  | bool b => some (if b then "true" else "false")
  | int i => some (String.ofList (Number.intText i))
  | float x => some (String.ofList (x.text .yaml))
  | string s => some s
  | sequence _ => none
  | mapping _ => none
  | tagged _ v => keyText? v

end Value

end ResourceGraph.Yaml
