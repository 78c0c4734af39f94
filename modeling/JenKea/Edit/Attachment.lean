import JenKea.Import.ToKea

/-!
# The keys of a class

The readers of `jen/services/kea_classes.py`: which class is built in, and the classes that a container
evaluates as additional ones. A class is attached under a key of the old or of the new spelling.
-/

namespace JenKea.Edit

open Json Import

/-- `is_builtin`: a class that Kea defines itself. -/
def isBuiltin (name : String) : Bool :=
  ["ALL", "KNOWN", "UNKNOWN", "DROP", "BOOTP"].contains name ||
    ["VENDOR_CLASS_", "HA_", "AFTER_", "SPAWN_"].any fun p => p.toList.isPrefixOf name.toList

/-- `NEW_ADDITIONAL`. -/
def newAdditional : String := "evaluate-additional-classes"

/-- `OLD_ADDITIONAL`. -/
def oldAdditional : String := "require-client-classes"

/-- `NEW_ONLY`. -/
def newOnly : String := "only-in-additional-list"

/-- `OLD_ONLY`. -/
def oldOnly : String := "only-if-required"

/-- The texts of the first key that holds a list. -/
def firstList (keys : List String) (container : Fields) : List String :=
  (keys.findSome? fun key =>
    match lookup key container with
    | some (.arr xs) => some (strings xs)
    | _ => none).getD []

/-- `additional_classes`. -/
def additionalClasses (container : Fields) : List String :=
  firstList [newAdditional, oldAdditional] container

/-- What an edit of a class reports. -/
inductive ClassCode where
  | ok
  | notfound
  | referenced
  | builtin
  deriving DecidableEq

end JenKea.Edit
