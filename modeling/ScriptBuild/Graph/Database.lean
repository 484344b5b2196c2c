import ScriptBuild.Url

/-! The graph database that graphs can be kept in, as far as its address decides. -/

namespace ScriptBuild

structure DatabaseError where
  message : Text

namespace Database

def serverSchemes : List Text := ["bolt", "bolt+s", "bolt+ssc", "bolt+unix"]

/-- The schemes of addresses through which a server is chosen; their query says how. -/
def clusterSchemes : List Text := ["neo4j", "neo4j+s", "neo4j+ssc"]

def refusal (reason : Text) : DatabaseError := ⟨"neo4j driver: " ++ reason⟩

/-- What is wrong with the query of an address; every key has one value. -/
def queryFault? (pairs : List (Text × Text)) : Option DatabaseError :=
  pairs.findSome? fun (key, value) =>
    if (pairs.filter fun p => p.1 == key).length > 1 then some (refusal ("Duplicated routing context key '" ++ key ++ "'"))
    else if (Text.trim value).isEmpty then some (refusal ("Empty routing context value for key '" ++ key ++ "'"))
    else if key == "address" then some (refusal ("Illegal key '" ++ key ++ "' for routing context"))
    else none

/-- Opens the database at an address. There is none within reach. -/
def connect (uri : Text) : DatabaseError :=
  let unreachable : DatabaseError := ⟨"neo4j connectivity: cannot reach " ++ uri⟩
  if uri.isEmpty then ⟨"--store needs graph.uri in the config"⟩
  else
    match Url.parse uri with
    | .error e => refusal e.message
    | .ok url =>
      if serverSchemes.contains url.scheme then
        if url.scheme == "bolt+unix" && !url.host.isEmpty then
          refusal ("Host part should be empty for URL scheme " ++ url.scheme)
        else if !url.query.isEmpty then
          refusal ("Routing context is not supported for URL scheme " ++ url.scheme)
        else unreachable
      else if clusterSchemes.contains url.scheme then (queryFault? (Url.queryPairs url.query)).getD unreachable
      else refusal ("URI scheme " ++ url.scheme ++ " is not supported")

end Database

end ScriptBuild
