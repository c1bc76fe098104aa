import Mathlib.Algebra.GroupWithZero.Nat
import SchemaCatalog.Proofs.Catalog.Loading

/-!
# Counters of a store

A store counts the saves of a key in the version of its schema, and the identifiers that it
gives out in the last of them. A save raises each of these counters by one at most
(`Store.CountedBy.put`), so after any calls none of them is beyond the number of schemas that
the calls save at most (`Catalog.counters_bounded`). Fewer than `2 ^ 64` saves therefore leave
every counter within a machine word. Identifiers that schemas bring along are kept and never
counted on.
-/

set_option autoImplicit false

namespace SchemaCatalog

namespace Store

/-- The last identifier that was given out and all stored versions are at most a number. -/
structure CountedBy (s : Store) (n : Nat) : Prop where
  lastId_le : s.lastId ≤ n
  version_le : ∀ key, s.version key ≤ n

theorem countedBy_empty : empty.CountedBy 0 := ⟨Nat.le_refl 0, fun _ => Nat.le_refl 0⟩

section Put

variable {s : Store} {schema : Schema} {m n : Nat}

theorem CountedBy.mono (h : s.CountedBy m) (hle : m ≤ n) : s.CountedBy n :=
  ⟨Nat.le_trans h.lastId_le hle, fun key => Nat.le_trans (h.version_le key) hle⟩

theorem lastId_put_le (s : Store) (schema : Schema) : (s.put schema).lastId ≤ s.lastId + 1 := by
  rw [put]
  split
  · exact Nat.le_refl (s.lastId + 1)
  · exact Nat.le_succ s.lastId

theorem version_put (s : Store) (schema : Schema) (key : String) :
    (s.put schema).version key =
      if key = schema.key then schema.version + 1 else s.version key := by
  rw [version, get?_put]
  split
  · rfl
  · rfl

/-- The step: a save over the stored version raises no counter by more than one. -/
theorem CountedBy.put (h : s.CountedBy n) (hversion : schema.version = s.version schema.key) :
    (s.put schema).CountedBy (n + 1) where
  lastId_le := Nat.le_trans (lastId_put_le s schema) (Nat.succ_le_succ h.lastId_le)
  version_le := by
    intro key
    rw [version_put]
    split
    · -- the saved key counts on from the version that is stored
      rw [hversion]
      exact Nat.succ_le_succ (h.version_le schema.key)
    · exact Nat.le_succ_of_le (h.version_le key)

end Put

end Store

/-- How many schemas a call saves at most. -/
def Call.saves : Call → Nat
  | .save _ | .storeSave _ => 1
  | .load definitions => definitions.length
  | .loadFrom disk path => match (Definitions.read disk path).run with
      | .error _ => 0
      | .ok definitions => definitions.length

namespace Catalog

variable {c c' : Catalog} {n : Nat}

theorem countedBy_storeSave {schema saved : Schema} (h : c.store.CountedBy n)
    (hok : c.storeSave schema = .ok (saved, c')) : c'.store.CountedBy (n + 1) := by
  obtain ⟨-, hversion, -, rfl⟩ := storeSave_eq_ok_iff.1 hok
  exact h.put hversion

theorem countedBy_save {schema saved : Schema} (h : c.store.CountedBy n)
    (hok : c.save schema = .ok (saved, c')) : c'.store.CountedBy (n + 1) :=
  countedBy_storeSave h (save_eq_ok_iff.1 hok).2.2.2

/-- A load that stops midway has saved fewer schemas than there are definitions. -/
theorem countedBy_saveAll {definitions : List Schema} (h : c.store.CountedBy n) :
    (c.saveAll definitions).2.store.CountedBy (n + definitions.length) := by
  induction definitions generalizing c n with
  | nil => exact h
  | cons d rest ih =>
      rw [saveAll, List.length_cons]
      cases hd : c.refresh d >>= c.save with
      | error e =>
          -- what would be saved behind is counted all the same
          exact h.mono (Nat.le_add_right n _)
      | ok result =>
          obtain ⟨schema, -, hok⟩ := bind_eq_ok_iff.1 hd
          have hrest := ih (countedBy_save h hok)
          rwa [Nat.add_right_comm] at hrest

theorem countedBy_load {definitions : List Schema} (h : c.store.CountedBy n) :
    (c.load definitions).2.store.CountedBy (n + definitions.length) := by
  rw [load]
  cases harrange : SaveOrder.arrange definitions with
  | error e => exact h.mono (Nat.le_add_right n _)
  | ok ordered =>
      obtain ⟨hperm, -⟩ := SaveOrder.arranged harrange
      rw [← hperm.length_eq]
      exact countedBy_saveAll h

theorem countedBy_after {call : Call} (h : c.store.CountedBy n) :
    (c.after call).store.CountedBy (n + call.saves) := by
  have hsame : c.store.CountedBy (n + 1) := h.mono (Nat.le_succ n)
  cases call with
  | save schema =>
      exact kept_preserves (P := fun c => c.store.CountedBy (n + 1)) hsame
        fun saved c' => countedBy_save h
  | storeSave schema =>
      exact kept_preserves (P := fun c => c.store.CountedBy (n + 1)) hsame
        fun saved c' => countedBy_storeSave h
  | load definitions => exact countedBy_load h
  | loadFrom disk path =>
      rw [after, run_loadFrom, Call.saves]
      cases (Definitions.read disk path).run with
      | error e => exact h
      | ok definitions => exact countedBy_load h

theorem countedBy_run {calls : List Call} (h : c.store.CountedBy n) :
    (c.run calls).store.CountedBy (n + (calls.map Call.saves).sum) := by
  induction calls generalizing c n with
  | nil => exact h
  | cons call rest ih =>
      rw [List.map_cons, List.sum_cons, ← Nat.add_assoc]
      exact ih (countedBy_after h)

/-- No version and no identifier given out is beyond the number of saves. -/
theorem counters_bounded (rule : KeyRule) (outages : Outages) (calls : List Call) :
    let store := ((empty rule outages).run calls).store
    let saves := (calls.map Call.saves).sum
    store.lastId ≤ saves ∧ ∀ key schema, store.get? key = some schema → schema.version ≤ saves := by
  intro store saves
  have hrun : store.CountedBy (0 + saves) := countedBy_run Store.countedBy_empty
  rw [Nat.zero_add] at hrun
  refine ⟨hrun.lastId_le, fun key schema hschema => ?_⟩
  have hversion := hrun.version_le key
  rw [Store.version, hschema] at hversion
  exact hversion

end Catalog

end SchemaCatalog
