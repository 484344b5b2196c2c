import ScriptBuild.Text.Basic

/-! Dictionaries with texts as keys, in insertion order. -/

namespace ScriptBuild

abbrev Dictionary (α : Type) := List (Text × α)

namespace Dictionary

variable {α : Type}

def find? (d : Dictionary α) (key : Text) : Option α := List.lookup key d

/-- Sets the value of a key, which keeps its place if it has one. -/
def insert (d : Dictionary α) (key : Text) (value : α) : Dictionary α :=
  match d with
  | [] => [(key, value)]
  | (k, v) :: rest => if k == key then (key, value) :: rest else (k, v) :: insert rest key value

def erase (d : Dictionary α) (key : Text) : Dictionary α := d.filter fun (k, _) => k != key

def ofList (pairs : List (Text × α)) : Dictionary α :=
  pairs.foldl (fun d (key, value) => d.insert key value) []

def keys (d : Dictionary α) : List Text := d.map (·.1)

def sorted (d : Dictionary α) : Dictionary α := d.mergeSort fun a b => Text.ble a.1 b.1

end Dictionary

end ScriptBuild
