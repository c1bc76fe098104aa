import SchemaCatalog.Form.Basic
import SchemaCatalog.Keyed
import SchemaCatalog.Text.Basic

/-!
# Path trees

Dotted paths with shared beginnings are folded into a tree, in which every beginning of
a path is one node. The tree turns into a form whose components are bound to these
beginnings, so that a beginning that several paths share is met only once.
-/

set_option autoImplicit false

namespace SchemaCatalog

/-- The nodes below a place, in the order of their segments. -/
inductive PathTree where
  | node (below : List (String × PathTree))
deriving Repr, Inhabited

namespace PathTree

def empty : PathTree := .node []

/-- The nodes directly below a place. -/
def entries : PathTree → List (String × PathTree)
  | node below => below

/-- The tree with the nodes of a path in it. -/
def insert (t : PathTree) : List String → PathTree
  | [] => t
  | segment :: rest =>
      let old := (Keyed.get? t.entries segment).getD empty
      node (Keyed.insert t.entries segment (insert old rest))

/-- The tree of all beginnings of some paths. -/
def ofPaths (paths : List String) : PathTree :=
  paths.foldl (fun t path => t.insert (Text.segments path)) empty

/-- A path with one more segment; the empty path has none before it. -/
def extendKey (path segment : String) : String :=
  if path.isEmpty then segment else path ++ "." ++ segment

mutual

/-- The components for the nodes below a path. -/
def components (path : String) : PathTree → List FormComponent
  | node below => componentsOf path below

/-- The components for some nodes below a path. -/
def componentsOf (path : String) : List (String × PathTree) → List FormComponent
  | [] => []
  | (segment, t) :: rest =>
      let key := extendKey path segment
      .bound key (components key t) :: componentsOf path rest

end

/-- The form that is bound to every beginning of some paths. -/
def formOf (paths : List String) : FormComponent :=
  .layoutOnly (components "" (ofPaths paths))

end PathTree

end SchemaCatalog
