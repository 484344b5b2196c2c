import ScriptBuild.Text.Quoted

/-! What can be wrong with a YAML document. -/

namespace ScriptBuild.Yaml

inductive Mismatch where
  /-- A node with a tag and a value is not of the type that is wanted. -/
  | type (line : Nat) (tag value wanted : Text)
  | duplicateKey (line : Nat) (key : Text) (first : Nat)
  | duplicateField (line : Nat) (field owner : Text)

/-- A value as it stands in a message: quoted and cut, unless the tag is that of a collection. -/
def shownValue (tag value : Text) : Text :=
  if tag == "!!seq" || tag == "!!map" then value
  else if value.length > 10 then " `" ++ value.take 7 ++ "...`"
  else " `" ++ value ++ "`"

def Mismatch.message : Mismatch → Text
  | .type line tag value wanted =>
    "line " ++ Text.ofNat line ++ ": cannot unmarshal " ++ tag ++ shownValue tag value ++ " into " ++ wanted
  | .duplicateKey line key first =>
    "line " ++ Text.ofNat line ++ ": mapping key " ++ key.quote ++ " already defined at line " ++ Text.ofNat first
  | .duplicateField line field owner =>
    "line " ++ Text.ofNat line ++ ": field " ++ field ++ " already set in type " ++ owner

inductive Error where
  /-- A problem with the text; line 0 is not shown. -/
  | text (line : Nat) (problem : Text)
  | unknownAnchor (name : Text)
  | recursiveAnchor (name : Text)
  | undecodable (tag value wanted : Text)
  | invalidBinary
  | noMergeMap
  | invalidKey (key : Text)
  | excessiveAliasing
  | mismatches (ms : List Mismatch)

def Error.message : Error → Text
  | .text line problem =>
    "yaml: " ++ (if line == 0 then ([] : Text) else "line " ++ Text.ofNat line ++ ": ") ++ problem
  | .unknownAnchor name => "yaml: unknown anchor '" ++ name ++ "' referenced"
  | .recursiveAnchor name => "yaml: anchor '" ++ name ++ "' value contains itself"
  | .undecodable tag value wanted => "yaml: cannot decode " ++ tag ++ " `" ++ value ++ "` as a " ++ wanted
  | .invalidBinary => "yaml: !!binary value contains invalid base64 data"
  | .noMergeMap => "yaml: map merge requires map or sequence of maps as the value"
  | .invalidKey key => "yaml: invalid map key: " ++ key
  | .excessiveAliasing => "yaml: document contains excessive aliasing"
  | .mismatches ms => "yaml: unmarshal errors:\n  " ++ Text.join "\n  " (ms.map Mismatch.message)

end ScriptBuild.Yaml
