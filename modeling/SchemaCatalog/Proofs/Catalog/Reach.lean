import SchemaCatalog.Proofs.Catalog.Mirroring

/-!
# What results depend on

A result that starts at some key depends on the schemas that the key leads to, and on no others:
where two stores agree on these, nothing that starts there tells the stores apart
(`Catalog.results_within_reach`). The stores may hold cycles, and references to schemas that are
not stored. In particular a save under a key that a root does not lead to changes no result of
that root.
-/

set_option autoImplicit false
-- catalogs in closed statements are evaluated, down to the pattern of their keys
set_option maxRecDepth 1000

namespace SchemaCatalog

open Relation

namespace Store

/-- Under every key that a key leads to, two stores have the same schema or none. -/
def AgreesFrom (s t : Store) (root : String) : Prop :=
  ∀ key, ReflTransGen s.Composes root key → s.get? key = t.get? key

variable {s t : Store} {root : String}

theorem AgreesFrom.get?_eq (h : s.AgreesFrom t root) : s.get? root = t.get? root := h root .refl

/-- Agreement goes on to what a key is composed of. -/
theorem AgreesFrom.of_composes (h : s.AgreesFrom t root) {child : String}
    (hchild : s.Composes root child) : s.AgreesFrom t child :=
  fun key hway => h key (hway.head hchild)

theorem agreesFrom_put {schema : Schema} (h : ¬ ReflTransGen s.Composes root schema.key) :
    s.AgreesFrom (s.put schema) root := by
  intro key hway
  have hne : key ≠ schema.key := by
    rintro rfl
    exact h hway
  rw [get?_put_of_ne s schema hne]

end Store

namespace Catalog

theorem AlikeFrom.mono {R R' : (α : Type) → Except CatalogError α → Except CatalogError α → Prop}
    {keys keys' : String → Prop} {c c' : Catalog} (h : AlikeFrom R keys c c')
    (hR : ∀ α a b, R α a b → R' α a b) (hkeys : ∀ key, keys' key → keys key) :
    AlikeFrom R' keys' c c' where
  forms := fun root form suppress hroot => hR _ _ _ (h.forms root form suppress (hkeys _ hroot))
  linkers := fun root linker hroot hrecord =>
    hR _ _ _ (h.linkers root linker (hkeys _ hroot) (hkeys _ hrecord))
  requirements := fun root r hroot => hR _ _ _ (h.requirements root r (hkeys _ hroot))
  requirement_sets := fun root userType set hroot =>
    hR _ _ _ (h.requirement_sets root userType set (hkeys _ hroot))
  related := fun root hroot => hR _ _ _ (h.related root (hkeys _ hroot))
  entities := fun root payload hroot => hR _ _ _ (h.entities root payload (hkeys _ hroot))
  merges := fun root schema base changes hroot hschema =>
    hR _ _ _ (h.merges root schema base changes (hkeys _ hroot) hschema)
  updates := fun e changes hkey => hR _ _ _ (h.updates e changes (hkeys _ hkey))

section Agreement

variable {c c' : Catalog}

theorem mirrors_of_agreesFrom (hanswers : c.outages = .none) (hanswers' : c'.outages = .none) :
    Mirrors (fun _ => False) (c.store.AgreesFrom c'.store) c.lookup c'.lookup where
  same := by
    intro key hkey
    rw [lookup_eq_ok hanswers, lookup_eq_ok hanswers', hkey.get?_eq]
    exact .refl _
  closed := by
    intro key schema hkey hschema child hchild
    exact hkey.of_composes ⟨schema, (lookup_eq_ok_some_iff.1 hschema).2, hchild⟩

theorem alikeFrom_of_agreesFrom (hanswers : c.outages = .none) (hanswers' : c'.outages = .none)
    (hindexed : c.store.Indexed) (hindexed' : c'.store.Indexed) :
    AlikeFrom (fun _ => Eq) (c.store.AgreesFrom c'.store) c c' :=
  ((mirrors_of_agreesFrom hanswers hanswers').alikeFrom hanswers hindexed hindexed').mono
    (fun _ _ _ h => h.eq_of_never) fun _ h => h

end Agreement

/-- Over the stores that any calls build, all results from a key are the same if the stores agree
on what it leads to. A save under a key that it does not lead to changes none of them. -/
theorem results_within_reach (rule₁ rule₂ : KeyRule) (calls₁ calls₂ : List Call) :
    let c₁ := (empty rule₁ .none).run calls₁
    let c₂ := (empty rule₂ .none).run calls₂
    AlikeFrom (fun _ => Eq) (c₁.store.AgreesFrom c₂.store) c₁ c₂ ∧
      ∀ schema saved c',
        c₁.save schema = .ok (saved, c') ∨ c₁.storeSave schema = .ok (saved, c') →
        AlikeFrom (fun _ => Eq) (fun root => ¬ ReflTransGen c₁.store.Composes root schema.key)
          c₁ c' := by
  intro c₁ c₂
  obtain ⟨-, hanswers₁, hindexed₁⟩ := indexed_run rule₁ .none calls₁
  obtain ⟨-, hanswers₂, hindexed₂⟩ := indexed_run rule₂ .none calls₂
  refine ⟨alikeFrom_of_agreesFrom hanswers₁ hanswers₂ hindexed₁ hindexed₂, ?_⟩
  intro schema saved c' hsave
  -- the rules only decide whether there is a save, not what it does
  have hstore : c₁.storeSave schema = .ok (saved, c') :=
    hsave.elim (fun hchecked => (save_eq_ok_iff.1 hchecked).2.2.2) id
  obtain ⟨-, -, -, rfl⟩ := storeSave_eq_ok_iff.1 hstore
  let c' : Catalog := { c₁ with store := c₁.store.put schema }
  have hanswers' : c'.outages = .none := hanswers₁
  have hindexed' : c'.store.Indexed := hindexed₁.put schema
  exact (alikeFrom_of_agreesFrom hanswers₁ hanswers' hindexed₁ hindexed').mono
    (fun _ _ _ h => h) fun _ => Store.agreesFrom_put

/-- A person has friends and a home that is not stored. Neither an order that has a buyer nor
the schema of shops is within reach of a person. -/
theorem results_within_reach_of_cycle :
    let person : Schema := ⟨none, "Person", "", none,
      [⟨"friends", .listOfReference "Person", []⟩, ⟨"home", .reference "Nowhere", []⟩], [], 0⟩
    let shop : Schema := ⟨none, "Shop", "", none, [⟨"name", .scalar .string, []⟩], [], 0⟩
    let order : Schema := ⟨none, "Order", "", none, [⟨"shop", .reference "Shop", []⟩], [], 0⟩
    let c := (empty .default .none).run [.storeSave person]
    let d := (empty .default .none).run [.storeSave person, .save shop]
    let d' := d.after (.save order)
    c.store.AgreesFrom d.store "Person" ∧ ¬ ReflTransGen d.store.Composes "Person" "Order" ∧
      d'.store.keys = ["Order", "Person", "Shop"] ∧ d.related "Person" = c.related "Person" ∧
      d'.related "Person" = d.related "Person" := by
  intro person shop order c d d'
  let stored : Schema := { person with id := some 1, version := 1 }
  have hc : c.store.get? "Person" = some stored ∧ c.store.get? "Nowhere" = none := by
    subst c stored person
    constructor
    · rfl
    · rfl
  have hd : d.store.get? "Person" = some stored ∧ d.store.get? "Nowhere" = none := by
    subst d stored person shop
    constructor
    · with_unfolding_all rfl
    · with_unfolding_all rfl
  have hreach : ∀ s : Store, s.get? "Person" = some stored ∧ s.get? "Nowhere" = none →
      ∀ key, ReflTransGen s.Composes "Person" key → key = "Person" ∨ key = "Nowhere" := by
    rintro s ⟨hperson, hnowhere⟩ key hway
    induction hway with
    | refl => exact Or.inl rfl
    | tail _ hstep ih =>
        obtain ⟨schema, hschema, hchild⟩ := hstep
        rcases ih with rfl | rfl
        · cases hperson.symm.trans hschema
          have hchildren : stored.children = ["Nowhere", "Person"] := by decide +kernel
          rw [hchildren, List.mem_cons, List.mem_singleton] at hchild
          exact hchild.symm
        · cases hnowhere.symm.trans hschema
  have hagrees : c.store.AgreesFrom d.store "Person" := by
    intro key hway
    rcases hreach c.store hc key hway with rfl | rfl
    · rw [hc.1, hd.1]
    · rw [hc.2, hd.2]
  have hfar : ¬ ReflTransGen d.store.Composes "Person" "Order" := by
    intro hway
    rcases hreach d.store hd _ hway with h | h
    · exact absurd h (by decide)
    · exact absurd h (by decide)
  have hsave : ∃ saved, d.save order = .ok (saved, d') := by
    refine ⟨{ order with id := some 3, version := 1 }, ?_⟩
    subst d' d person shop order
    with_unfolding_all rfl
  obtain ⟨saved, hsave⟩ := hsave
  obtain ⟨hstates, -⟩ := results_within_reach .default .default [.storeSave person]
    [.storeSave person, .save shop]
  obtain ⟨-, hsaves⟩ := results_within_reach .default .default [.storeSave person, .save shop] []
  refine ⟨hagrees, hfar, ?_, (hstates.related "Person" hagrees).symm,
    ((hsaves order saved d' (Or.inl hsave)).related "Person" hfar).symm⟩
  subst d' d person shop order
  with_unfolding_all rfl

end Catalog

end SchemaCatalog
