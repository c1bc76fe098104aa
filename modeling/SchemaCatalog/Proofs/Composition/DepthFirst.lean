import SchemaCatalog.Composition.Order
import SchemaCatalog.Proofs.Composition.Reachability

/-!
# Depth-first search

`Explores next s keys t` says that a depth-first search in state `s` goes through some keys
and ends in state `t`; it follows the recursion of `visit` without its bound, and a bound of
the number of keys is never used up (`explores_foldl_visit`).

A search finishes exactly the keys that it discovers, each once (`Explores.grown`,
`Explores.nodup`). Along a relation without cycles every key finishes after all keys that
follow it, so that it stands in front of them (`Explores.inFront`).
-/

set_option autoImplicit false

namespace SchemaCatalog.SaveOrder

open Relation
open CompositionGraph (Next)

variable {next : String → List String}

/-- A depth-first search that goes through the keys of a list. -/
inductive Explores (next : String → List String) : Search → List String → Search → Prop
  | done (s : Search) : Explores next s [] s
  | skip {s t : Search} {key : String} {rest : List String} (hold : key ∈ s.discovered)
      (hrest : Explores next s rest t) : Explores next s (key :: rest) t
  | enter {s t u : Search} {key : String} {rest : List String} (hnew : key ∉ s.discovered)
      (hbehind : Explores next { s with discovered := key :: s.discovered } (next key) t)
      (hrest : Explores next { t with finished := key :: t.finished } rest u) :
      Explores next s (key :: rest) u

/-! ## What a search discovers -/

/-- The newly discovered keys are the newly finished ones. -/
theorem Explores.grown {s t : Search} {keys : List String} (h : Explores next s keys t) :
    ∃ new, t.finished = new ++ s.finished ∧ t.discovered.Perm (new ++ s.discovered) := by
  induction h with
  | done s => exact ⟨[], rfl, List.Perm.refl _⟩
  | skip _ _ ih => exact ih
  | @enter s t u key rest _ _ _ ihbehind ihrest =>
      obtain ⟨behind, hbehind, hbehindPerm⟩ := ihbehind
      obtain ⟨after, hafter, hafterPerm⟩ := ihrest
      refine ⟨after ++ key :: behind, ?_, ?_⟩
      · simp only at hafter hbehind
        rw [hafter, hbehind]
        simp
      · -- `key` was discovered before what is behind it and finished after it
        have hkey : (behind ++ key :: s.discovered).Perm (key :: behind ++ s.discovered) :=
          List.perm_middle
        have hall : u.discovered.Perm (after ++ (key :: behind ++ s.discovered)) :=
          hafterPerm.trans ((hbehindPerm.trans hkey).append_left after)
        simpa using hall

theorem Explores.discovered_subset {s t : Search} {keys : List String}
    (h : Explores next s keys t) : s.discovered ⊆ t.discovered := by
  obtain ⟨new, -, hperm⟩ := h.grown
  intro key hkey
  exact hperm.mem_iff.2 (List.mem_append_right new hkey)

theorem Explores.finished_subset {s t : Search} {keys : List String}
    (h : Explores next s keys t) : s.finished ⊆ t.finished := by
  obtain ⟨new, hfinished, -⟩ := h.grown
  rw [hfinished]
  exact List.subset_append_right new s.finished

/-- No key is discovered twice. -/
theorem Explores.nodup {s t : Search} {keys : List String} (h : Explores next s keys t)
    (hs : s.discovered.Nodup) : t.discovered.Nodup := by
  induction h with
  | done s => exact hs
  | skip _ _ ih => exact ih hs
  | enter hnew _ _ ihbehind ihrest => exact ihrest (ihbehind (List.nodup_cons.2 ⟨hnew, hs⟩))

/-- The keys that a search goes through are discovered. -/
theorem Explores.keys_subset {s t : Search} {keys : List String} (h : Explores next s keys t) :
    keys ⊆ t.discovered := by
  induction h with
  | done s => exact List.nil_subset _
  | skip hold hrest ih => exact List.cons_subset.2 ⟨hrest.discovered_subset hold, ih⟩
  | @enter s t u key rest _ hbehind hrest _ ihrest =>
      have hkey : key ∈ t.discovered := hbehind.discovered_subset List.mem_cons_self
      exact List.cons_subset.2 ⟨hrest.discovered_subset hkey, ihrest⟩

/-- A search stays among keys that no step leads out of. -/
theorem Explores.within {space : List String} (hspace : ∀ key, next key ⊆ space)
    {s t : Search} {keys : List String} (h : Explores next s keys t) (hkeys : keys ⊆ space)
    (hs : s.discovered ⊆ space) : t.discovered ⊆ space := by
  induction h with
  | done s => exact hs
  | skip _ _ ih => exact ih (List.cons_subset.1 hkeys).2 hs
  | @enter s t u key rest _ _ _ ihbehind ihrest =>
      obtain ⟨hkey, hrest⟩ := List.cons_subset.1 hkeys
      exact ihrest hrest (ihbehind (hspace key) (List.cons_subset.2 ⟨hkey, hs⟩))

/-! ## One course of the search -/

/-- A search can take one course only. -/
theorem Explores.unique {s t u : Search} {keys : List String} (h : Explores next s keys t)
    (h' : Explores next s keys u) : t = u := by
  induction h generalizing u with
  | done s =>
      cases h'
      rfl
  | skip hold _ ih =>
      cases h' with
      | skip _ hrest => exact ih hrest
      | enter hnew _ _ => exact absurd hold hnew
  | enter hnew _ _ ihbehind ihrest =>
      cases h' with
      | skip hold _ => exact absurd hold hnew
      | enter _ hbehind hrest =>
          obtain rfl := ihbehind hbehind
          exact ihrest hrest

/-- A search passes over keys that are known. -/
theorem explores_known {s : Search} {keys : List String} (h : keys ⊆ s.discovered) :
    Explores next s keys s := by
  induction keys with
  | nil => exact .done s
  | cons key rest ih =>
      obtain ⟨hkey, hrest⟩ := List.cons_subset.1 h
      exact .skip hkey (ih hrest)

/-- New keys each of which is followed by known ones only are finished as they come. -/
theorem explores_in_order {s : Search} {keys : List String} (hnodup : keys.Nodup)
    (hnew : ∀ key ∈ keys, key ∉ s.discovered)
    (hknown : ∀ front key back, keys = front ++ key :: back →
      ∀ behind ∈ next key, behind ∈ front ∨ behind ∈ s.discovered) :
    Explores next s keys ⟨keys.reverse ++ s.discovered, keys.reverse ++ s.finished⟩ := by
  induction keys generalizing s with
  | nil => exact .done s
  | cons key rest ih =>
      obtain ⟨hkey, hrest⟩ := List.nodup_cons.1 hnodup
      have hbehind : next key ⊆ key :: s.discovered := by
        intro behind hin
        have hold := hknown [] key rest rfl behind hin
        exact List.mem_cons_of_mem key (hold.resolve_left List.not_mem_nil)
      have hafter := ih (s := ⟨key :: s.discovered, key :: s.finished⟩) hrest
        (by
          intro k hk hin
          rcases List.mem_cons.1 hin with rfl | hin
          · exact hkey hk
          · exact hnew k (List.mem_cons_of_mem key hk) hin)
        (by
          intro front k back heq behind hin
          have hold := hknown (key :: front) k back (by rw [heq]; rfl) behind hin
          simp only [List.mem_cons] at hold ⊢
          tauto)
      have hcourse : Explores next s (key :: rest)
          ⟨rest.reverse ++ key :: s.discovered, rest.reverse ++ key :: s.finished⟩ :=
        .enter (hnew key List.mem_cons_self) (explores_known hbehind) hafter
      simpa using hcourse

/-! ## The bound of the search -/

/-- A search bounded by the number of keys explores all of them: the keys on the way are
distinct, and where the bound is used up the way already holds every key. -/
theorem explores_foldl_visit {space : List String} (hspace : ∀ key, next key ⊆ space)
    (bound : Nat) {s : Search} {way keys : List String} (hnodup : way.Nodup)
    (hway : way ⊆ s.discovered) (hwithin : way ⊆ space) (hkeys : keys ⊆ space)
    (hbound : space.length ≤ bound + way.length) :
    Explores next s keys (keys.foldl (visit next bound) s) := by
  induction bound generalizing s way keys with
  | zero =>
      have hperm : way.Perm space := (hnodup.subperm hwithin).perm_of_length_le (by omega)
      induction keys with
      | nil => exact .done s
      | cons key rest ih =>
          obtain ⟨hkey, hrest⟩ := List.cons_subset.1 hkeys
          exact .skip (hway (hperm.mem_iff.2 hkey)) (ih hrest)
  | succ bound ihbound =>
      induction keys generalizing s with
      | nil => exact .done s
      | cons key rest ih =>
          obtain ⟨hkey, hrest⟩ := List.cons_subset.1 hkeys
          rw [List.foldl_cons]
          by_cases hold : key ∈ s.discovered
          · have hsame : visit next (bound + 1) s key = s := by
              rw [visit, if_pos hold]
            rw [hsame]
            exact .skip hold (ih hway hrest)
          · -- `key` joins the way, which makes up for the smaller bound
            have hlonger : (key :: way).Nodup :=
              List.nodup_cons.2 ⟨fun hin => hold (hway hin), hnodup⟩
            have hbehind := ihbound (s := { s with discovered := key :: s.discovered }) hlonger
              (List.cons_subset.2 ⟨List.mem_cons_self, fun k hk => List.mem_cons_of_mem key (hway hk)⟩)
              (List.cons_subset.2 ⟨hkey, hwithin⟩) (hspace key)
              (by rw [List.length_cons]; omega)
            have hopen : way ⊆ (visit next (bound + 1) s key).discovered := by
              rw [visit, if_neg hold]
              exact fun k hk => hbehind.discovered_subset (List.mem_cons_of_mem key (hway hk))
            have hafter := ih hopen hrest
            rw [visit, if_neg hold] at hafter ⊢
            exact .enter hold hbehind hafter

/-! ## The order of finishing -/

/-- Every key of a list stands in front of all keys that follow it in a relation. -/
def InFront (next : String → List String) : List String → Prop
  | [] => True
  | key :: rest => next key ⊆ rest ∧ InFront next rest

/-- What follows a key of such a list stands behind the key. -/
theorem InFront.subset_back {front back : List String} {key : String}
    (h : InFront next (front ++ key :: back)) : next key ⊆ back := by
  induction front with
  | nil => exact h.1
  | cons _ _ ih => exact ih h.2

/-- A discovered key that is not finished yet lies on the way to the keys that come next.
Without cycles the search never meets such a key again, so what follows a key is finished
before the key itself. -/
theorem Explores.inFront (hacyclic : Acyclic (Next next)) {s t : Search} {keys : List String}
    (h : Explores next s keys t) (way : List String)
    (hopen : ∀ key ∈ s.discovered, key ∈ s.finished ∨ key ∈ way)
    (hway : ∀ a ∈ way, ∀ key ∈ keys, TransGen (Next next) a key) (hs : InFront next s.finished) :
    InFront next t.finished ∧ (∀ key ∈ t.discovered, key ∈ t.finished ∨ key ∈ way) ∧
      keys ⊆ t.finished := by
  induction h generalizing way with
  | done s => exact ⟨hs, hopen, List.nil_subset _⟩
  | @skip s t key rest hold hrest ih =>
      have hfinished : key ∈ s.finished := by
        rcases hopen key hold with hin | hin
        · exact hin
        · exact absurd (hway key hin key List.mem_cons_self) (hacyclic key)
      obtain ⟨hfront, htopen, hsub⟩ :=
        ih way hopen (fun a ha k hk => hway a ha k (List.mem_cons_of_mem key hk)) hs
      exact ⟨hfront, htopen, List.cons_subset.2 ⟨hrest.finished_subset hfinished, hsub⟩⟩
  | @enter s t u key rest hnew hbehind hrest ihbehind ihrest =>
      -- below `key` the way is longer by `key`
      have hopenBelow : ∀ k ∈ key :: s.discovered, k ∈ s.finished ∨ k ∈ key :: way := by
        intro k hk
        rcases List.mem_cons.1 hk with rfl | hk
        · exact Or.inr List.mem_cons_self
        · exact (hopen k hk).imp_right (List.mem_cons_of_mem key)
      have hwayBelow : ∀ a ∈ key :: way, ∀ k ∈ next key, TransGen (Next next) a k := by
        intro a ha k hk
        rcases List.mem_cons.1 ha with rfl | ha
        · exact .single hk
        · exact .tail (hway a ha key List.mem_cons_self) hk
      obtain ⟨hfront, htopen, hsub⟩ := ihbehind (key :: way) hopenBelow hwayBelow hs
      have hopenAfter : ∀ k ∈ t.discovered, k ∈ key :: t.finished ∨ k ∈ way := by
        intro k hk
        rcases htopen k hk with hin | hin
        · exact Or.inl (List.mem_cons_of_mem key hin)
        · rcases List.mem_cons.1 hin with rfl | hin
          · exact Or.inl List.mem_cons_self
          · exact Or.inr hin
      obtain ⟨hufront, huopen, husub⟩ := ihrest way hopenAfter
        (fun a ha k hk => hway a ha k (List.mem_cons_of_mem key hk)) ⟨hsub, hfront⟩
      exact ⟨hufront, huopen,
        List.cons_subset.2 ⟨hrest.finished_subset List.mem_cons_self, husub⟩⟩

/-! ## The search with a stack -/

/-- No key is discovered twice, and only discovered keys are finished. -/
structure Search.Tidy (s : Search) : Prop where
  nodup : s.discovered.Nodup
  finished_discovered : s.finished ⊆ s.discovered

theorem Search.Tidy.discover {s : Search} (h : s.Tidy) {key : String} (hnew : key ∉ s.discovered) :
    ({ s with discovered := key :: s.discovered } : Search).Tidy where
  nodup := List.nodup_cons.2 ⟨hnew, h.nodup⟩
  finished_discovered := fun _ hk => List.mem_cons_of_mem key (h.finished_discovered hk)

theorem Search.Tidy.finish {s : Search} (h : s.Tidy) {key : String} (hold : key ∈ s.discovered) :
    ({ s with finished := key :: s.finished } : Search).Tidy where
  nodup := h.nodup
  finished_discovered := List.cons_subset.2 ⟨hold, h.finished_discovered⟩

/-- A search finishes what it discovers, and nothing that was discovered before. -/
theorem Explores.mem_finished_iff {s t : Search} {keys : List String} (h : Explores next s keys t)
    (hs : s.Tidy) (key : String) :
    key ∈ t.finished ↔ key ∈ s.finished ∨ key ∈ t.discovered ∧ key ∉ s.discovered := by
  obtain ⟨new, hfinished, hperm⟩ := h.grown
  have hnodup : (new ++ s.discovered).Nodup := hperm.nodup_iff.1 (h.nodup hs.nodup)
  have hnew : ∀ k ∈ new, k ∉ s.discovered :=
    fun k hk hin => (List.nodup_append.1 hnodup).2.2 k hk k hin rfl
  rw [hfinished, hperm.mem_iff, List.mem_append, List.mem_append]
  constructor
  · rintro (hin | hin)
    · exact Or.inr ⟨Or.inl hin, hnew key hin⟩
    · exact Or.inl hin
  · rintro (hin | ⟨hin | hin, hnot⟩)
    · exact Or.inr hin
    · exact Or.inl hin
    · exact absurd hin hnot

theorem Explores.tidy {s t : Search} {keys : List String} (h : Explores next s keys t)
    (hs : s.Tidy) : t.Tidy where
  nodup := h.nodup hs.nodup
  finished_discovered := by
    intro key hkey
    rcases (h.mem_finished_iff hs key).1 hkey with hin | ⟨hin, -⟩
    · exact h.discovered_subset (hs.finished_discovered hin)
    · exact hin

/-- One turn of a search with a stack. A new key on top is discovered, and what follows it
and is new itself is put above it, the first on top; a key that was discovered before is
taken off, and it is finished then unless it is so already. -/
def turn (next : String → List String) : Search × List String → Search × List String
  | (s, []) => (s, [])
  | (s, key :: stack) =>
      if key ∈ s.discovered then
        if key ∈ s.finished then (s, stack)
        else ({ s with finished := key :: s.finished }, stack)
      else
        let s := { s with discovered := key :: s.discovered }
        (s, (next key).filter (fun k => !s.discovered.contains k) ++ key :: stack)

/-- Some turns lead from one state and stack to another. -/
abbrev Turns (next : String → List String) : Search × List String → Search × List String → Prop :=
  ReflTransGen fun before after => after = turn next before

/-- A search with a stack takes the same course. The keys lie on the stack without those
that were known when they were put there; a key that was discovered since then is finished
when it comes to the top. -/
theorem Explores.turns {s t : Search} {keys : List String} (h : Explores next s keys t)
    (known stack : List String) (hs : s.Tidy) (hknown : known ⊆ s.discovered)
    (hsince : ∀ key ∈ s.discovered, key ∈ known ∨ key ∈ s.finished) :
    Turns next (s, keys.filter (fun k => !known.contains k) ++ stack) (t, stack) := by
  induction h generalizing known stack with
  | done s => exact .refl
  | @skip s t key rest hold hrest ih =>
      have hafter := ih known stack hs hknown hsince
      by_cases hin : key ∈ known
      · rw [List.filter_cons_of_neg (by simpa using hin)]
        exact hafter
      · have hfinished : key ∈ s.finished := (hsince key hold).resolve_left hin
        rw [List.filter_cons_of_pos (by simpa using hin)]
        exact .head (by simp [turn, hold, hfinished]) hafter
  | @enter s t u key rest hnew hbehind hrest ihbehind ihrest =>
      have hbelow : (⟨key :: s.discovered, s.finished⟩ : Search).Tidy := hs.discover hnew
      have htidy : t.Tidy := hbehind.tidy hbelow
      have hkey : key ∈ t.discovered := hbehind.discovered_subset List.mem_cons_self
      -- `key` waits below what follows it and is not finished before it comes up again
      have hopen : key ∉ t.finished := by
        rw [hbehind.mem_finished_iff hbelow]
        rintro (hin | ⟨-, hin⟩)
        · exact hnew (hs.finished_discovered hin)
        · exact hin List.mem_cons_self
      have hafter := ihrest known stack (htidy.finish hkey)
        (fun k hk => hbehind.discovered_subset (List.mem_cons_of_mem key (hknown hk)))
        (by
          intro k hk
          by_cases hin : k ∈ key :: s.discovered
          · rcases List.mem_cons.1 hin with rfl | hin
            · exact Or.inr List.mem_cons_self
            · exact (hsince k hin).imp_right fun hfinished =>
                List.mem_cons_of_mem key (hbehind.finished_subset hfinished)
          · have hfinished := (hbehind.mem_finished_iff hbelow k).2 (Or.inr ⟨hk, hin⟩)
            exact Or.inr (List.mem_cons_of_mem key hfinished))
      have hfirst := ihbehind (key :: s.discovered)
        (key :: (rest.filter (fun k => !known.contains k) ++ stack)) hbelow
        (List.Subset.refl _) (fun k hk => Or.inl hk)
      have hin : key ∉ known := fun hin => hnew (hknown hin)
      rw [List.filter_cons_of_pos (by simpa using hin)]
      refine .head (by simp [turn, hnew]) (hfirst.trans (.head ?_ hafter))
      simp [turn, hkey, hopen]

end SchemaCatalog.SaveOrder
