import Mathlib.Logic.Function.Basic
import SchemaCatalog.Proofs.Catalog.Programs

/-!
# Clients that share a store

Any number of clients read schemas and make calls, each depending on the answers it got
before. The store takes their requests in any order, one at a time, and a history notes
what it found, what it saved and what it refused. Of the clients only this remains: every
event was noted over the catalog that the events before it lead to (`Chronicle`,
`chronicle_run`).

The saves of a key are made over the versions 0, 1, 2, … in this order
(`Chronicle.savedOver_eq_range`). So no update is lost (`no_lost_update`): of all saves that
carry what one read found at most one succeeds, and none is made over a version that was
replaced.
-/

set_option autoImplicit false

namespace SchemaCatalog

/-- What a client reads and calls, after each answer. -/
inductive Client where
  | stop
  | read (key : String) (next : Except CatalogError (Option Schema) → Client)
  | call (made : Call) (next : Except CatalogError (List Schema) → Client)

/-- The requests of a client. -/
def Client.program (rule : KeyRule) : Client → Program Unit
  | .stop => .done ()
  | .read key next => .get key fun found => (next found).program rule
  | .call made next => (made.program rule).run >>= fun answer => (next answer).program rule

/-! ## Histories -/

/-- What is noted of a request. -/
inductive Event where
  | read (key : String) (found : Option Schema)
  | saved (submitted : Schema)
  | refused (submitted : Schema)

/-- The version that an event saves a key over. -/
def Event.savedOver? (key : String) : Event → Option Nat
  | .saved submitted => if submitted.key = key then some submitted.version else none
  | .read _ _ => none
  | .refused _ => none

/-- The versions that the successful saves of a key were made over, oldest first. -/
def savedOver (history : List Event) (key : String) : List Nat :=
  history.filterMap (Event.savedOver? key)

theorem savedOver_append (h h' : List Event) (key : String) :
    savedOver (h ++ h') key = savedOver h key ++ savedOver h' key := List.filterMap_append

/-- An event that a catalog can note, and the catalog after it. -/
inductive Noted (c : Catalog) : Event → Catalog → Prop where
  | read (key : String) : Noted c (.read key (c.store.get? key)) c
  | saved (submitted : Schema) (hversion : submitted.version = c.store.version submitted.key) :
      Noted c (.saved submitted) { c with store := c.store.put submitted }
  | refused (submitted : Schema) (hrefused : c.outages.save submitted.key = true ∨
      submitted.version ≠ c.store.version submitted.key) : Noted c (.refused submitted) c

/-- Of all events only a save changes the catalog, and only over the version it carries. -/
theorem Noted.unchanged_or_saved {c c' : Catalog} {e : Event} (h : Noted c e c') :
    c' = c ∨ ∃ submitted, e = .saved submitted ∧
      submitted.version = c.store.version submitted.key ∧
      c'.store = c.store.put submitted := by
  cases h with
  | read key => exact Or.inl rfl
  | saved submitted hversion => exact Or.inr ⟨submitted, rfl, hversion, rfl⟩
  | refused submitted hrefused => exact Or.inl rfl

/-- A history from a catalog without schemas on, and the catalog it leads to. -/
inductive Chronicle (rule : KeyRule) (outages : Outages) : List Event → Catalog → Prop where
  | start : Chronicle rule outages [] (.empty rule outages)
  | note {h : List Event} {e : Event} {c c' : Catalog} (before : Chronicle rule outages h c)
      (noted : Noted c e c') : Chronicle rule outages (h ++ [e]) c'

namespace Chronicle

variable {rule : KeyRule} {outages : Outages} {h : List Event} {c : Catalog}

/-- Every event was noted over the catalog that the events before it lead to. -/
theorem split (hchron : Chronicle rule outages h c) {before after : List Event} {e : Event}
    (hsplit : h = before ++ e :: after) :
    ∃ c₀ c₁, Chronicle rule outages before c₀ ∧ Noted c₀ e c₁ := by
  induction hchron generalizing after with
  | start => simp at hsplit
  | @note h last c₀ c₁ hbefore hnoted ih =>
      -- either the event is the last one, or it is one of those before
      rcases List.eq_nil_or_concat after with rfl | ⟨front, other, rfl⟩
      · obtain ⟨rfl, hlast⟩ := List.append_inj' hsplit rfl
        cases hlast
        exact ⟨c₀, c₁, hbefore, hnoted⟩
      · have hfront : h ++ [last] = (before ++ e :: front) ++ [other] := by
          simpa using hsplit
        exact ih (List.append_inj' hfront rfl).1

/-- What every save keeps holds of every catalog that a history leads to. -/
theorem preserves {P : Catalog → Prop} (hstart : P (.empty rule outages))
    (hput : ∀ (c : Catalog) (submitted : Schema), P c →
      P { c with store := c.store.put submitted })
    (hchron : Chronicle rule outages h c) : P c := by
  induction hchron with
  | start => exact hstart
  | note _ hnoted ih =>
      cases hnoted with
      | read key => exact ih
      | saved submitted hversion => exact hput _ submitted ih
      | refused submitted hrefused => exact ih

theorem outages_eq (hchron : Chronicle rule outages h c) : c.outages = outages :=
  preserves (P := fun c => c.outages = outages) rfl (fun _ _ hold => hold) hchron

theorem keyRule_eq (hchron : Chronicle rule outages h c) : c.keyRule = rule :=
  preserves (P := fun c => c.keyRule = rule) rfl (fun _ _ hold => hold) hchron

/-- A stored schema stands under its own key and has been saved. -/
theorem stored (hchron : Chronicle rule outages h c) :
    ∀ key schema, c.store.get? key = some schema → schema.key = key ∧ 0 < schema.version := by
  refine preserves (P := fun c => ∀ key schema, c.store.get? key = some schema →
    schema.key = key ∧ 0 < schema.version) ?_ ?_ hchron
  · intro key schema hget
    cases hget
  · intro c submitted hold
    exact Store.forall_get?_put ⟨rfl, Nat.succ_pos submitted.version⟩ hold

/-- The saves of a key are made over the versions from zero on, without gaps, up to the
version stored. -/
theorem savedOver_eq_range (hchron : Chronicle rule outages h c) (key : String) :
    savedOver h key = List.range (c.store.version key) := by
  induction hchron with
  | start => rfl
  | note _ hnoted ih =>
      rw [savedOver_append, ih]
      cases hnoted with
      | read key => exact List.append_nil _
      | saved submitted hversion =>
          by_cases hkey : key = submitted.key
          · -- the version carried is the one stored, and the next number in the range
            subst hkey
            simp [savedOver, Event.savedOver?, Store.version, Store.get?_put_self, Store.stamp,
              List.range_succ, hversion]
          · simp [savedOver, Event.savedOver?, Store.version, Store.get?_put_of_ne _ _ hkey,
              Ne.symm hkey]
      | refused submitted hrefused => exact List.append_nil _

/-- The version stored under a key is the number of its successful saves. -/
theorem version_eq_length (hchron : Chronicle rule outages h c) (key : String) :
    c.store.version key = (savedOver h key).length := by
  rw [hchron.savedOver_eq_range, List.length_range]

/-- A key is absent until it is saved. -/
theorem get?_eq_none_iff (hchron : Chronicle rule outages h c) (key : String) :
    c.store.get? key = none ↔ savedOver h key = [] := by
  rw [hchron.savedOver_eq_range, List.range_eq_nil, Store.version]
  cases hget : c.store.get? key with
  | none => simp
  | some schema =>
      have hpos : 0 < schema.version := (hchron.stored key schema hget).2
      simpa using Nat.ne_of_gt hpos

/-- No version of a key is saved over twice. -/
theorem count_savedOver_le_one (hchron : Chronicle rule outages h c) {after : List Event}
    (hafter : after.Sublist h) (key : String) (version : Nat) :
    (savedOver after key).count version ≤ 1 := by
  have hnodup : (savedOver h key).Nodup := by
    rw [hchron.savedOver_eq_range]
    exact List.nodup_range
  exact List.nodup_iff_count_le_one.1 (hnodup.sublist (hafter.filterMap _)) version

end Chronicle

/-! ## Clients at work -/

namespace Program

variable {α : Type}

/-- A program after its next request, with the catalog then and what is noted of it. -/
def advance : Program α → Catalog → Program α × Catalog × List Event
  | .done result, c => (.done result, c, [])
  | .get key next, c =>
      match c.lookup key with
      | .error e => (next (.error e), c, [])
      | .ok found => (next (.ok found), c, [.read key found])
  | .ancestors key next, c => (next (c.ancestors key), c, [])
  | .submit schema next, c =>
      match c.storeSave schema with
      | .error e => (next (.error e), c, [.refused schema])
      | .ok (saved, c') => (next (.ok saved), c', [.saved schema])

/-- A request changes nothing and nothing is noted of it, or an event is noted. -/
theorem advance_cases (p : Program α) (c : Catalog) :
    (p.advance c).2 = (c, []) ∨ ∃ e c', (p.advance c).2 = (c', [e]) ∧ Noted c e c' := by
  cases p with
  | done result => exact Or.inl rfl
  | get key next =>
      rw [advance, Catalog.lookup]
      cases c.outages.get key with
      | true => exact Or.inl rfl
      | false => exact Or.inr ⟨_, _, rfl, .read key⟩
  | ancestors key next => exact Or.inl rfl
  | submit schema next =>
      rw [advance]
      cases hsaved : c.storeSave schema with
      | error e =>
          refine Or.inr ⟨_, _, rfl, .refused schema ?_⟩
          -- a store that answers saves over the version it holds
          by_contra hnot
          obtain ⟨hup, hversion⟩ := not_or.1 hnot
          have hok := Catalog.storeSave_eq_ok_iff.2
            ⟨eq_false_of_ne_true hup, not_not.1 hversion, rfl, rfl⟩
          rw [hsaved] at hok
          cases hok
      | ok result =>
          obtain ⟨-, hversion, -, hc⟩ := Catalog.storeSave_eq_ok_iff.1 hsaved
          exact Or.inr ⟨_, _, rfl, hc ▸ .saved schema hversion⟩

end Program

/-- Clients at work on one catalog, and what was noted so far, oldest first. -/
structure Session (ι : Type) where
  catalog : Catalog
  clients : ι → Program Unit
  history : List Event

namespace Session

variable {ι : Type}

/-- No client has asked for anything yet. -/
def start (rule : KeyRule) (outages : Outages) (clients : ι → Client) : Session ι :=
  ⟨.empty rule outages, fun i => (clients i).program rule, []⟩

variable [DecidableEq ι]

/-- The next request of one client is answered. -/
def step (s : Session ι) (i : ι) : Session ι :=
  let (rest, catalog, events) := (s.clients i).advance s.catalog
  ⟨catalog, Function.update s.clients i rest, s.history ++ events⟩

/-- The clients are answered in some order, each as often as it occurs. -/
def run (s : Session ι) (schedule : List ι) : Session ι := schedule.foldl step s

/-- An answer leaves the catalog and the history as they are, or adds an event. -/
theorem step_cases (s : Session ι) (i : ι) :
    (s.step i).catalog = s.catalog ∧ (s.step i).history = s.history ∨
      ∃ e, (s.step i).history = s.history ++ [e] ∧ Noted s.catalog e (s.step i).catalog := by
  have hcatalog : (s.step i).catalog = ((s.clients i).advance s.catalog).2.1 := rfl
  have hhistory : (s.step i).history = s.history ++ ((s.clients i).advance s.catalog).2.2 := rfl
  rcases (s.clients i).advance_cases s.catalog with hsame | ⟨e, c', hnext, hnoted⟩
  · rw [hsame] at hcatalog hhistory
    exact Or.inl ⟨hcatalog, hhistory.trans (List.append_nil s.history)⟩
  · rw [hnext] at hcatalog hhistory
    exact Or.inr ⟨e, hhistory, hcatalog ▸ hnoted⟩

/-- The step: an answer continues a chronicle. -/
theorem chronicle_step {rule : KeyRule} {outages : Outages} {s : Session ι}
    (h : Chronicle rule outages s.history s.catalog) (i : ι) :
    Chronicle rule outages (s.step i).history (s.step i).catalog := by
  rcases s.step_cases i with ⟨hcatalog, hhistory⟩ | ⟨e, hhistory, hnoted⟩
  · rw [hcatalog, hhistory]
    exact h
  · rw [hhistory]
    exact h.note hnoted

/-- Whatever the clients do, what is noted of it is a chronicle of their catalog. -/
theorem chronicle_run {rule : KeyRule} {outages : Outages} {s : Session ι}
    (h : Chronicle rule outages s.history s.catalog) (schedule : List ι) :
    Chronicle rule outages (s.run schedule).history (s.run schedule).catalog := by
  induction schedule generalizing s with
  | nil => exact h
  | cons i rest ih => exact ih (chronicle_step h i)

/-- No update is lost, whatever the clients and in whatever order they are answered. A call that
is not interrupted stays what it is. The version of a key counts its saves, and only a save over
that version changes the store. Of all saves that carry what one read of a key found at most one
succeeds; before a save the versions of its key were those below the one it carries; and a
refused save carried another version, or the store failed. -/
theorem no_lost_update (rule : KeyRule) (outages : Outages) (clients : ι → Client)
    (schedule : List ι) :
    let s := (start rule outages clients).run schedule
    (∀ call, (call.program rule).run.alone s.catalog =
      (s.catalog.answer call, s.catalog.after call)) ∧
    (∀ key, s.catalog.store.version key = (savedOver s.history key).length ∧
      (s.catalog.store.get? key = none ↔ savedOver s.history key = [])) ∧
    (∀ i, (s.step i).catalog = s.catalog ∨
      ∃ submitted, submitted.version = s.catalog.store.version submitted.key ∧
        (s.step i).catalog.store = s.catalog.store.put submitted ∧
        (s.step i).history = s.history ++ [.saved submitted]) ∧
    (∀ before key found after, s.history = before ++ .read key found :: after →
      (∀ schema, found = some schema → schema.key = key) ∧
      (found.map Schema.version).getD 0 = (savedOver before key).length ∧
      (savedOver after key).count ((found.map Schema.version).getD 0) ≤ 1) ∧
    (∀ before submitted after, s.history = before ++ .saved submitted :: after →
      savedOver before submitted.key = List.range submitted.version) ∧
    ∀ before submitted after, s.history = before ++ .refused submitted :: after →
      outages.save submitted.key = true ∨
        submitted.version ≠ (savedOver before submitted.key).length := by
  intro s
  have hchron : Chronicle rule outages s.history s.catalog := chronicle_run .start schedule
  refine ⟨fun call => ?_, fun key => ⟨hchron.version_eq_length key, hchron.get?_eq_none_iff key⟩,
    fun i => ?_, ?_, ?_, ?_⟩
  · rw [← hchron.keyRule_eq]
    exact call.alone_program s.catalog
  · rcases s.step_cases i with ⟨hcatalog, -⟩ | ⟨e, hhistory, hnoted⟩
    · exact Or.inl hcatalog
    · -- reads and refusals leave the catalog as it is
      exact hnoted.unchanged_or_saved.imp_right fun ⟨submitted, heq, hversion, hput⟩ =>
        ⟨submitted, hversion, hput, heq ▸ hhistory⟩
  · intro before key found after hhistory
    -- the saves after a read are among all saves of the key, which carry distinct versions
    have hafter : after.Sublist s.history := by
      rw [hhistory]
      exact (List.sublist_cons_self _ after).trans (List.sublist_append_right before _)
    obtain ⟨c₀, c₁, hbefore, hnoted⟩ := hchron.split hhistory
    cases hnoted with
    | read =>
        exact ⟨fun schema hget => (hbefore.stored key schema hget).1,
          hbefore.version_eq_length key, hchron.count_savedOver_le_one hafter key _⟩
  · intro before submitted after hhistory
    obtain ⟨c₀, c₁, hbefore, hnoted⟩ := hchron.split hhistory
    cases hnoted with
    | saved _ hversion => rw [hbefore.savedOver_eq_range, hversion]
  · intro before submitted after hhistory
    obtain ⟨c₀, c₁, hbefore, hnoted⟩ := hchron.split hhistory
    cases hnoted with
    | refused _ hrefused =>
        rw [hbefore.outages_eq, hbefore.version_eq_length] at hrefused
        exact hrefused

/-- Two clients find no address and both save one; the second of them is refused. -/
example :
    let client : Client := .read "Address" fun _ =>
      .call (.save ⟨none, "Address", "", none, [], [], 0⟩) fun _ => .stop
    let s := (start .default .none fun _ : Bool => client).run [true, false, false, true]
    savedOver s.history "Address" = [0] ∧ s.history.length = 4 := by
  decide +kernel

end Session

end SchemaCatalog
