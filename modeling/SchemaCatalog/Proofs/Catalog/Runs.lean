import SchemaCatalog.Catalog.Definitions
import SchemaCatalog.Proofs.Catalog.Saving

/-!
# Runs of a catalog

A run is a list of calls, each of which may fail. What every successful save keeps is
kept by every run (`run_preserves`, `run_preserves_of_storeSave`); a load keeps it also
when it stops midway.
-/

set_option autoImplicit false

namespace SchemaCatalog

/-- A call that may change a catalog. -/
inductive Call where
  | save (schema : Schema)
  /-- A save in the store itself, past the rules of saving. -/
  | storeSave (schema : Schema)
  | load (definitions : List Schema)
  /-- A load of the definitions below a directory of a disk. -/
  | loadFrom (disk : Disk Id) (path : String)

/-- Whether a call keeps to the rules of saving. -/
def Call.checked : Call → Bool
  | .storeSave _ => false
  | .save _ | .load _ | .loadFrom _ _ => true

namespace Catalog

/-- The catalog behind the result of a save; a failed one leaves it as it was. -/
def kept (c : Catalog) : Except CatalogError (Schema × Catalog) → Catalog
  | .ok (_, c') => c'
  | .error _ => c

/-- The catalog after a call. -/
def after (c : Catalog) : Call → Catalog
  | .save schema => c.kept (c.save schema)
  | .storeSave schema => c.kept (c.storeSave schema)
  | .load definitions => (c.load definitions).2
  | .loadFrom disk path => (c.loadFrom disk path).run.2

/-- The catalog after some calls, one after the other. -/
def run (c : Catalog) (calls : List Call) : Catalog := calls.foldl after c

/-- A load from a disk reads definitions and then loads them, or changes nothing. -/
theorem run_loadFrom (c : Catalog) (disk : Disk Id) (path : String) :
    (c.loadFrom disk path).run = match (Definitions.read disk path).run with
      | .error e => (.error e, c)
      | .ok definitions => c.load definitions := by
  simp only [loadFrom, Id.run_bind]
  cases (Definitions.read disk path).run with
  | error e => rfl
  | ok definitions => rfl

/-! ## What a run keeps -/

section Preserved

variable {P : Catalog → Prop}

theorem kept_preserves {c : Catalog} {result : Except CatalogError (Schema × Catalog)} (h : P c)
    (hok : ∀ saved c', result = .ok (saved, c') → P c') : P (c.kept result) := by
  cases hresult : result with
  | error e => exact h
  | ok found => exact hok found.1 found.2 hresult

theorem saveAll_preserves
    (hsave : ∀ c schema saved c', P c → c.save schema = .ok (saved, c') → P c')
    (definitions : List Schema) (c : Catalog) (h : P c) : P (c.saveAll definitions).2 := by
  induction definitions generalizing c with
  | nil => exact h
  | cons d rest ih =>
      rw [saveAll]
      cases hd : c.refresh d >>= c.save with
      -- the load stops here and keeps what it saved before
      | error e => exact h
      | ok result =>
          obtain ⟨schema, -, hok⟩ := bind_eq_ok_iff.1 hd
          exact ih result.2 (hsave c schema result.1 result.2 h hok)

theorem load_preserves
    (hsave : ∀ c schema saved c', P c → c.save schema = .ok (saved, c') → P c')
    (definitions : List Schema) (c : Catalog) (h : P c) : P (c.load definitions).2 := by
  rw [load]
  split
  · exact h
  · rename_i ordered _
    exact saveAll_preserves hsave ordered c h

theorem loadFrom_preserves
    (hsave : ∀ c schema saved c', P c → c.save schema = .ok (saved, c') → P c')
    (disk : Disk Id) (path : String) (c : Catalog) (h : P c) :
    P (c.loadFrom disk path).run.2 := by
  rw [run_loadFrom]
  cases (Definitions.read disk path).run with
  | error e => exact h
  | ok definitions => exact load_preserves hsave definitions c h

/-- What every save by the rules keeps is kept by every call by the rules. -/
theorem after_preserves
    (hsave : ∀ c schema saved c', P c → c.save schema = .ok (saved, c') → P c')
    {call : Call} (hcall : call.checked = true) (c : Catalog) (h : P c) : P (c.after call) := by
  cases call with
  | save schema => exact kept_preserves h fun saved c' => hsave c schema saved c' h
  | storeSave schema => cases hcall
  | load definitions => exact load_preserves hsave definitions c h
  | loadFrom disk path => exact loadFrom_preserves hsave disk path c h

theorem run_preserves
    (hsave : ∀ c schema saved c', P c → c.save schema = .ok (saved, c') → P c')
    {calls : List Call} (hcalls : ∀ call ∈ calls, call.checked = true) (c : Catalog) (h : P c) :
    P (c.run calls) := by
  induction calls generalizing c with
  | nil => exact h
  | cons call rest ih =>
      obtain ⟨hcall, hrest⟩ := List.forall_mem_cons.1 hcalls
      exact ih hrest (c.after call) (after_preserves hsave hcall c h)

/-- What every save in the store keeps is kept by every run, also past the rules. -/
theorem run_preserves_of_storeSave
    (hstore : ∀ c schema saved c', P c → c.storeSave schema = .ok (saved, c') → P c')
    (calls : List Call) (c : Catalog) (h : P c) : P (c.run calls) := by
  have hsave : ∀ c schema saved c', P c → c.save schema = .ok (saved, c') → P c' :=
    fun c schema saved c' h hok => hstore c schema saved c' h (save_eq_ok_iff.1 hok).2.2.2
  induction calls generalizing c with
  | nil => exact h
  | cons call rest ih =>
      refine ih (c.after call) ?_
      cases call with
      | storeSave schema => exact kept_preserves h fun saved c' => hstore c schema saved c' h
      | save schema => exact after_preserves hsave rfl c h
      | load definitions => exact after_preserves hsave rfl c h
      | loadFrom disk path => exact after_preserves hsave rfl c h

end Preserved

end Catalog

end SchemaCatalog
