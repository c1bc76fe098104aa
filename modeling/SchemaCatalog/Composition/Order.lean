import SchemaCatalog.Composition.Graph
import SchemaCatalog.Error
import SchemaCatalog.Schema.Basic

/-!
# The order of saving

Definitions are saved in an order in which every schema comes after those of them that
it is composed of. The order is the reverse of the order in which a depth-first search
along the parents finishes, with the definitions tried in their order. If the
definitions form a cycle there is no such order, and the keys that lie on a cycle are
reported.
-/

set_option autoImplicit false

namespace SchemaCatalog.SaveOrder

/-- A search in progress: the keys that were discovered, and the finished ones, the last
one first. -/
structure Search where
  discovered : List String
  finished : List String
deriving Repr

/-- The search continued at a key and everything behind it. The first argument bounds
the keys on the way. -/
def visit (next : String → List String) : Nat → Search → String → Search
  | 0, s, _ => s
  | bound + 1, s, key =>
      if key ∈ s.discovered then s
      else
        let s := (next key).foldl (visit next bound) { s with discovered := key :: s.discovered }
        { s with finished := key :: s.finished }

/-- The keys of definitions that are composed of a key, in the order of the definitions. -/
def parentsAmong (definitions : List Schema) (key : String) : List String :=
  (definitions.filter fun d => d.children.contains key).map Schema.key

/-- The keys of definitions, the last to finish first. -/
def finishOrder (definitions : List Schema) : List String :=
  let search := (definitions.map Schema.key).foldl
    (visit (parentsAmong definitions) definitions.length) ⟨[], []⟩
  search.finished

/-- Whether each schema comes after those among `keys` that it is composed of; `before`
holds the keys that came already. -/
def childrenFirst (keys before : List String) : List Schema → Bool
  | [] => true
  | d :: rest =>
      d.children.all (fun child => !keys.contains child || before.contains child)
        && childrenFirst keys (d.key :: before) rest

/-- The composition of definitions among themselves. -/
def graphOf (definitions : List Schema) : CompositionGraph :=
  let keys := definitions.map Schema.key
  definitions.foldl (fun g d => g.setChildren d.key (d.children.filter keys.contains)) .empty

/-- The keys of definitions that lie on a cycle, in increasing order. -/
def cyclicKeys (definitions : List Schema) : List String :=
  let graph := graphOf definitions
  Schema.sortedKeys ((definitions.map Schema.key).filter graph.onCycle)

/-- The first key that occurs a second time; `seen` holds those that came before. -/
def repeatedKey? (seen : List String) : List Schema → Option String
  | [] => none
  | d :: rest => if d.key ∈ seen then some d.key else repeatedKey? (d.key :: seen) rest

/-- The definitions in an order in which they can be saved. -/
def arrange (definitions : List Schema) : Except CatalogError (List Schema) :=
  match repeatedKey? [] definitions with
  | some key => .error (.repeatedDefinition key)
  | none =>
      let ordered := (finishOrder definitions).filterMap fun key =>
        definitions.find? fun d => d.key == key
      if childrenFirst (definitions.map Schema.key) [] ordered then .ok ordered
      else .error (.cyclicDefinitions (cyclicKeys definitions))

end SchemaCatalog.SaveOrder
