/-!
# The composition graph

Keys of schemas, with an edge from each schema to those it is composed of. The newest
edge comes first in both directions, and taking edges away keeps the order of the
others. `closure` lists what can be reached along a direction, nearest first, and
without the key it starts from.
-/

set_option autoImplicit false

namespace SchemaCatalog

/-- Keys that were mentioned, in that order, and edges from parents to children, the
newest first. -/
structure CompositionGraph where
  nodes : List String
  edges : List (String × String)
deriving DecidableEq, Repr, Inhabited

namespace CompositionGraph

def empty : CompositionGraph := ⟨[], []⟩

def nodeCount (g : CompositionGraph) : Nat := g.nodes.length

def edgeCount (g : CompositionGraph) : Nat := g.edges.length

/-- Whether a key was mentioned as a parent or a child. -/
def contains (g : CompositionGraph) (key : String) : Bool := g.nodes.contains key

/-- The graph with a key among its nodes. -/
def mention (g : CompositionGraph) (key : String) : CompositionGraph :=
  if key ∈ g.nodes then g else { g with nodes := g.nodes ++ [key] }

/-- The graph with one more edge. -/
def link (g : CompositionGraph) (parent child : String) : CompositionGraph :=
  let g := g.mention child
  { g with edges := (parent, child) :: g.edges }

/-- The graph without the edges from a parent. -/
def unlink (g : CompositionGraph) (parent : String) : CompositionGraph :=
  { g with edges := g.edges.filter fun e => e.1 != parent }

/-- The edges from a parent replaced by edges to children, each once. -/
def setChildren (g : CompositionGraph) (parent : String) (children : List String) :
    CompositionGraph :=
  children.eraseDups.foldl (fun g child => g.link parent child) ((g.mention parent).unlink parent)

/-- The children of a key, the one linked last first. -/
def children (g : CompositionGraph) (key : String) : List String :=
  (g.edges.filter fun e => e.1 == key).map Prod.snd

/-- The parents of a key, the one linked last first. -/
def parents (g : CompositionGraph) (key : String) : List String :=
  (g.edges.filter fun e => e.2 == key).map Prod.fst

/-! ## Closures -/

/-- What comes next after a layer and was not reached before, each once. -/
def newcomers (next : String → List String) (reached layer : List String) : List String :=
  ((layer.flatMap next).filter fun k => !reached.contains k).eraseDups

/-- The layers behind a layer, one after the other; there are at most as many as nodes. -/
def layersFrom (next : String → List String) : Nat → List String → List String → List String
  | 0, _, _ => []
  | bound + 1, reached, layer =>
      match newcomers next reached layer with
      | [] => []
      | new => new ++ layersFrom next bound (reached ++ new) new

/-- Everything that can be reached from a key, nearest first, without the key itself. -/
def closure (g : CompositionGraph) (next : String → List String) (key : String) : List String :=
  layersFrom next g.nodes.length [key] [key]

/-- The schemas that are composed of a key, directly or not. -/
def ancestors (g : CompositionGraph) (key : String) : List String := g.closure g.parents key

/-- The schemas that a key is composed of, directly or not. -/
def descendants (g : CompositionGraph) (key : String) : List String := g.closure g.children key

/-- Whether a key can be reached from itself along one or more edges. -/
def onCycle (g : CompositionGraph) (key : String) : Bool :=
  (key :: g.descendants key).any fun k => (g.children k).contains key

theorem mem_children_iff (g : CompositionGraph) (parent child : String) :
    child ∈ g.children parent ↔ (parent, child) ∈ g.edges := by
  simp [children]

theorem mem_parents_iff (g : CompositionGraph) (parent child : String) :
    parent ∈ g.parents child ↔ (parent, child) ∈ g.edges := by
  simp [parents]

/-- A key is among the parents of another exactly when that one is among its children. -/
theorem mem_parents_iff_mem_children (g : CompositionGraph) (parent child : String) :
    parent ∈ g.parents child ↔ child ∈ g.children parent := by
  rw [mem_parents_iff, mem_children_iff]

end CompositionGraph

end SchemaCatalog
