/-!
# TOML values

Values of a settings file. Of numbers with a fraction and of dates only that they are such is kept:
no setting is one.
-/

namespace CodeGraph

inductive Toml where
  | string (value : String)
  | integer (value : Int)
  | boolean (value : Bool)
  | float
  | date
  | array (items : List Toml)
  | table (entries : List (String × Toml))
  deriving Repr, Inhabited

namespace Toml

/-- How deep values may be nested in each other, and how many parts a key may have. -/
def deepest : Nat := 79

def field? (key : String) : Toml → Option Toml
  | table entries => entries.lookup key
  | _ => none

def string? : Toml → Option String
  | string value => some value
  | _ => none

def boolean? : Toml → Option Bool
  | boolean value => some value
  | _ => none

/-- A whole number that is not negative. -/
def count? : Toml → Option Nat
  | integer (.ofNat value) => some value
  | _ => none

def array? : Toml → Option (List Toml)
  | array items => some items
  | _ => none

def strings? (value : Toml) : Option (List String) := do
  (← value.array?).mapM string?

end Toml

end CodeGraph
