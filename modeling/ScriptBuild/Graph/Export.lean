import ScriptBuild.Graph.Basic
import ScriptBuild.Json.Basic

/-! Graphs as text: a directed graph for a layout program, a diagram, a summary of the measures, and JSON. -/

namespace ScriptBuild

open Text

/-- A text in which all but ASCII letters, digits and underscores is replaced by underscores. -/
def plainId (s : Text) : Text :=
  s.runes.map fun r =>
    match r.bytes with
    | [b] => if r.valid && (isAlpha b || isDigit b || b == '_') then b else '_'
    | _ => '_'

namespace GraphNode

def shape (n : GraphNode) : Text :=
  match n.kind with
  | .library => "box3d"
  | .markup => "component"
  | .resource => "note"
  | _ => if n.isEmitted then "box" else "plaintext"

def color (n : GraphNode) : Text :=
  match n.kind with
  | .source => "#238636"
  | .markup => "#1f6feb"
  | .library => "#8957e5"
  | .resource => "#d29922"
  | _ => "#30363d"

/-- The name in the brackets that stand for the shape of the node in a diagram. -/
def bracketed (n : GraphNode) : Text :=
  match n.kind with
  | .library => "[[\"" ++ n.name ++ "\"]]"
  | .markup => "([\"" ++ n.name ++ "\"])"
  | .resource => "\x7b\"" ++ n.name ++ "\"\x7d"
  | _ => "[\"" ++ n.name ++ "\"]"

end GraphNode

namespace GraphEdge

def style (e : GraphEdge) : Text :=
  match e.kind with
  | .dependsOn => "bold"
  | .contains => "dashed"
  | _ => "solid"

def color (e : GraphEdge) : Text :=
  match e.kind with
  | .imports => "#3fb950"
  | .dependsOn => "#f85149"
  | _ => "#8b949e"

end GraphEdge

namespace UnitGraph

/-- The packages of the units, in the order in which they first occur, each with its units. -/
def groups (g : UnitGraph) : List (Text × List GraphNode) :=
  let packages := g.units.foldl
    (fun (ps : List Text) n => if ps.contains n.package then ps else ps ++ [n.package]) []
  packages.map fun p => (p, g.units.filter fun n => n.package == p)

def dotNode (n : GraphNode) : Text :=
  "    \"" ++ n.id ++ "\" [label=\"" ++ n.name ++ "\" shape=" ++ n.shape ++ " style=filled fillcolor=\"" ++
    n.color ++ "\"];\n"

def dotGroup (group : Text × List GraphNode) : Text :=
  "  subgraph cluster_" ++ plainId group.1 ++ " \x7b\n" ++
  "    label=\"" ++ group.1 ++ "\";\n" ++
  "    style=dashed;\n" ++
  "    color=\"#58a6ff\";\n" ++
  group.2.flatMap dotNode ++
  "  \x7d\n\n"

def dotEdge (e : GraphEdge) : Text :=
  "  \"" ++ e.source ++ "\" -> \"" ++ e.target ++ "\" [style=" ++ e.style ++ " color=\"" ++ e.color ++ "\"" ++
    onlyIf (!e.label.isEmpty) (" label=\"" ++ e.label ++ "\"") ++ "];\n"

def dot (g : UnitGraph) : Text :=
  "digraph units \x7b\n" ++
  "  rankdir=LR;\n" ++
  "  node [fontname=\"Helvetica\"];\n" ++
  "  edge [fontname=\"Helvetica\" fontsize=10];\n\n" ++
  g.groups.flatMap dotGroup ++
  (g.edges.filter fun e => e.kind != .contains).flatMap dotEdge ++
  "\x7d\n"

def diagramNode (n : GraphNode) : Text := "    " ++ plainId n.id ++ n.bracketed ++ "\n"

def diagramGroup (group : Text × List GraphNode) : Text :=
  "  subgraph " ++ plainId ("pkg:" ++ group.1) ++ "[\"" ++ group.1 ++ "\"]\n" ++
  group.2.flatMap diagramNode ++
  "  end\n"

def diagramEdge (e : GraphEdge) : Text :=
  "  " ++ plainId e.source ++ " -->" ++ onlyIf (!e.label.isEmpty) ("|" ++ e.label ++ "|") ++ " " ++
    plainId e.target ++ "\n"

def diagram (g : UnitGraph) : Text :=
  "graph LR\n" ++ g.groups.flatMap diagramGroup ++ g.imports.flatMap diagramEdge

def cycleLine (cycle : List Text × Nat) : Text :=
  "  " ++ ofNat (cycle.2 + 1) ++ ": " ++ join " -> " cycle.1 ++ "\n"

def packageLine (package : Text × Nat) : Text :=
  "  " ++ package.1 ++ ": " ++ ofNat package.2 ++ " outgoing\n"

def summary (g : UnitGraph) (s : GraphStats) : Text :=
  "Unit Graph Statistics\n" ++
  "=====================\n\n" ++
  "Root:        " ++ g.root ++ "\n" ++
  "Nodes:       " ++ ofNat s.nodeCount ++ " total\n" ++
  "  Packages:  " ++ ofNat s.packageCount ++ "\n" ++
  "  Units:     " ++ ofNat s.unitCount ++ " (" ++ ofNat s.emittedCount ++ " emitted)\n" ++
  "  Libraries: " ++ ofNat s.libraryCount ++ "\n" ++
  "  Resources: " ++ ofNat s.resourceCount ++ "\n" ++
  "Edges:       " ++ ofNat s.edgeCount ++ " total\n" ++
  "Max Fan-Out: " ++ ofNat s.maxFanOut ++ " (" ++ s.hotspot ++ ")\n" ++
  "Max Fan-In:  " ++ ofNat s.maxFanIn ++ "\n" ++
  "Components:  " ++ ofNat s.components ++ "\n" ++
  onlyIf (!s.cycles.isEmpty)
    ("\nImport Cycles: " ++ ofNat s.cycles.length ++ "\n" ++ s.cycles.zipIdx.flatMap cycleLine) ++
  onlyIf (!s.packageFanOut.isEmpty)
    ("\nPackage Dependencies:\n" ++ s.packageFanOut.sorted.flatMap packageLine)

def nodeJson (n : GraphNode) : Json :=
  .object (([("id", .string n.id), ("name", .string n.name), ("kind", .string n.kind.label),
      ("package", .string n.package)] : List (Text × Json)) ++
    Json.memberIf (!n.path.isEmpty) "path" (.string n.path) ++
    Json.memberIf n.isEmitted "emitted" (.bool true) ++
    Json.memberIf (!n.metadata.isEmpty) "metadata" (.texts n.metadata.sorted))

def edgeJson (e : GraphEdge) : Json :=
  .object (([("from", .string e.source), ("to", .string e.target), ("kind", .string e.kind.label)] :
    List (Text × Json)) ++ Json.memberIf (!e.label.isEmpty) "label" (.string e.label))

def statsJson (s : GraphStats) (fanOut : Json) : Json :=
  .object (([("total_nodes", .nat s.nodeCount), ("total_edges", .nat s.edgeCount),
      ("package_count", .nat s.packageCount), ("unit_count", .nat s.unitCount),
      ("library_count", .nat s.libraryCount), ("resource_count", .nat s.resourceCount),
      ("emitted_count", .nat s.emittedCount), ("max_fan_out", .nat s.maxFanOut),
      ("max_fan_in", .nat s.maxFanIn), ("hotspot_node", .string s.hotspot),
      ("connected_components", .nat s.components)] : List (Text × Json)) ++
    Json.memberIf (!s.cycles.isEmpty) "cycles" (.array (s.cycles.map .strings)) ++
    Json.memberIf true "package_fan_out" fanOut)

def toJson (g : UnitGraph) (s : GraphStats) : Json :=
  .object [("root", .string g.root), ("nodes", .array (g.nodes.map nodeJson)), ("edges", .array (g.edges.map edgeJson)),
    ("stats", statsJson s (.object (s.packageFanOut.sorted.map fun (p, n) => (p, .nat n))))]

/-- A graph without measures, where lists without items are absent. -/
def toBareJson (g : UnitGraph) : Json :=
  .object [("root", .string g.root), ("nodes", if g.nodes.isEmpty then .null else .array (g.nodes.map nodeJson)),
    ("edges", if g.edges.isEmpty then .null else .array (g.edges.map edgeJson)),
    ("stats", statsJson {} .null)]

def texts (g : UnitGraph) (s : GraphStats) (json : Json) : List (Text × Text) :=
  [("dot", g.dot), ("mermaid", g.diagram), ("text", g.summary s), ("json", json.pretty 0)]

end UnitGraph

end ScriptBuild
