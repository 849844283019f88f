import Flowchart.Source.Statement
import Flowchart.Theme

/-! Styles given to edges by their ends hold for later edges, styles given to numbered edges hold
for the edges that are there, and styles of nodes are kept apart until the end. -/
namespace Flowchart.Source

structure Defaults where
  fill : Color
  border : Color
  text : Color
  edge : Color

def Defaults.ofTheme (t : Theme) : Defaults := ⟨t.nodeFill, t.nodeBorder, t.textColor, t.edgeColor⟩

/-- The subgraph that new nodes belong to, and those around it, the innermost first. The outermost
one is around none. -/
structure Enclosing where
  current : Option String := none
  outer : List (Option String) := []

def Enclosing.enter (e : Enclosing) (name : String) : Enclosing := ⟨some name, e.current :: e.outer⟩

/-- Outside the current subgraph; an end too many leaves all of them. -/
def Enclosing.leave (e : Enclosing) : Enclosing :=
  match e.outer with
  | [] => ⟨none, []⟩
  | name :: rest => ⟨name, rest⟩

structure State where
  graph : Graph := {}
  enclosing : Enclosing := {}
  /-- The properties that style statements gave to nodes. -/
  nodeStyles : Table String Properties := .empty
  /-- The properties that style statements gave to edges by their ends. -/
  edgeStyles : Table (String × String) Properties := .empty
  /-- The properties of classes. -/
  classStyles : Table String Properties := .empty
  /-- The classes of nodes, in order of first assignment. -/
  classes : Table String (List String) := .empty

namespace State

def assignClass (s : State) (id className : String) : State :=
  { s with
    classes := s.classes.update id [] fun names =>
      if names.contains className then names else names ++ [className] }

def ensureNode (d : Defaults) (enclosing : Enclosing) (g : Graph) (r : NodeRef) : Graph :=
  if g.nodes.contains r.id then g
  else
    let grown := g.ensureNode r.id r.label r.shape enclosing.current
    { grown with
      nodes := grown.nodes.modify r.id fun n =>
        { n with fill := d.fill, border := d.border, textColor := d.text } }

/-- A reference to a node: the first one makes the node, and every one gives its classes. -/
def touch (d : Defaults) (s : State) (r : NodeRef) : State :=
  r.classes.foldl (fun s className => s.assignClass r.id className)
    { s with graph := ensureNode d s.enclosing s.graph r }

def addEdge (d : Defaults) (s : State) (source target : String) (label : Option String)
    (k : Connector) : State :=
  let edge := { Edge.new source target label k.style k.arrowhead with color := d.edge }
  let edge := match s.edgeStyles.find? (source, target) with
    | some ps => styleEdgeAll edge ps
    | none => edge
  { s with graph := { s.graph with edges := s.graph.edges ++ [edge] } }

def addLink (d : Defaults) (s : State) (sources : List NodeRef) (link : Link) : State :=
  sources.foldl (fun s source =>
    link.group.foldl (fun s target =>
      s.addEdge d source.id target.id link.label link.connector) s) s

def addLinks (d : Defaults) (s : State) (sources : List NodeRef) : List Link → State
  | [] => s
  | link :: rest => addLinks d (s.addLink d sources link) link.group rest

/-- All nodes of a chain from left to right, then its edges. -/
def addChain (d : Defaults) (s : State) (chain : Chain) : State :=
  let refs := chain.first ++ chain.links.flatMap (·.group)
  (refs.foldl (touch d) s).addLinks d chain.first chain.links

def styleNode (d : Defaults) (ps : Properties) (s : State) (id : String) : State :=
  let s := s.touch d ⟨id, none, none, []⟩
  { s with nodeStyles := s.nodeStyles.update id .empty (·.insertAll ps) }

/-- The edges under properties: all of them, or those of the numbers given, once for each time that
a number is given. -/
def styleTargets (edges : List Edge) (ps : Properties) : EdgeTargets → List Edge
  | .all => edges.map (styleEdgeAll · ps)
  | .numbers indices =>
    indices.foldl (fun edges i => edges.modify i (styleEdgeAll · ps)) edges

def apply (d : Defaults) (s : State) : Statement → State
  | .header direction => { s with graph := { s.graph with direction := direction } }
  | .beginSubgraph name => { s with enclosing := s.enclosing.enter name }
  | .endSubgraph => { s with enclosing := s.enclosing.leave }
  | .defineClasses names ps =>
    { s with classStyles := names.foldl (fun t name => t.insert name ps) s.classStyles }
  | .assignClasses ids classes =>
    ids.foldl (fun s id => classes.foldl (fun s name => s.assignClass id name) s) s
  | .styleNodes ids ps => ids.foldl (styleNode d ps) s
  | .styleEdges source target ps =>
    { s with edgeStyles := s.edgeStyles.update (source, target) .empty (·.insertAll ps) }
  | .styleLinks targets ps =>
    { s with graph := { s.graph with edges := styleTargets s.graph.edges ps targets } }
  | .chain chain => s.addChain d chain
  | .node reference => s.touch d reference
  | .nothing => s

/-- The graph with the styles of nodes: first what style statements gave, then what classes gave, in
order of assignment. -/
def finish (s : State) : Graph :=
  let nodes := s.nodeStyles.entries.foldl (fun nodes (id, ps) =>
    nodes.modify id (styleNodeAll · ps)) s.graph.nodes
  let nodes := s.classes.entries.foldl (fun nodes (id, names) =>
    names.foldl (fun nodes name =>
      match s.classStyles.find? name with
      | some ps => nodes.modify id (styleNodeAll · ps)
      | none => nodes) nodes) nodes
  { s.graph with nodes := nodes }

end State
end Flowchart.Source
