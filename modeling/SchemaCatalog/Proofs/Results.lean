/-!
# Results of failing operations

An operation made of two succeeds exactly when both do, one after the other, and one on the
members of a list when it succeeds on each of them (`mapM_eq_ok_iff`). Whether an operation
succeeds, and whether it does so with a given result, can be decided even where errors cannot
be compared. A check of the picked members of a list fails as the first of them that fails
(`forM_filter_eq_error_iff`).
-/

set_option autoImplicit false

namespace SchemaCatalog

universe u

variable {ε α β : Type u}

theorem bind_eq_ok_iff {first : Except ε α} {next : α → Except ε β} {b : β} :
    first >>= next = .ok b ↔ ∃ a, first = .ok a ∧ next a = .ok b := by
  cases first with
  | error e =>
      constructor
      · intro h
        cases h
      · rintro ⟨a, h, -⟩
        cases h
  | ok a =>
      constructor
      · intro h
        exact ⟨a, rfl, h⟩
      · rintro ⟨a', h, hnext⟩
        cases h
        exact hnext

theorem map_eq_ok_iff {first : Except ε α} {f : α → β} {b : β} :
    f <$> first = .ok b ↔ ∃ a, first = .ok a ∧ f a = b := by
  cases first with
  | error e =>
      constructor
      · intro h
        cases h
      · rintro ⟨a, h, -⟩
        cases h
  | ok a =>
      constructor
      · intro h
        cases h
        exact ⟨a, rfl, rfl⟩
      · rintro ⟨a', h, rfl⟩
        cases h
        rfl

theorem map_injective {f : α → β} (hf : f.Injective) {first second : Except ε α}
    (h : f <$> first = f <$> second) : first = second := by
  cases first with
  | error e =>
      cases second with
      | error e' =>
          cases h
          rfl
      | ok a' => cases h
  | ok a =>
      cases second with
      | error e' => cases h
      | ok a' => rw [hf (Except.ok.inj h)]

/-- An operation on every member of a list succeeds exactly when each succeeds, with the
results in the order of the members. -/
theorem mapM_eq_ok_iff {f : α → Except ε β} {as : List α} {bs : List β} :
    as.mapM f = .ok bs ↔
      ∃ pairs : List (α × β), as = pairs.map Prod.fst ∧ bs = pairs.map Prod.snd ∧
        ∀ q ∈ pairs, f q.1 = .ok q.2 := by
  induction as generalizing bs with
  | nil =>
      constructor
      · intro h
        cases h
        exact ⟨[], rfl, rfl, List.forall_mem_nil _⟩
      · rintro ⟨pairs, hfst, rfl, -⟩
        rw [List.map_eq_nil_iff.1 hfst.symm]
        rfl
  | cons a rest ih =>
      rw [List.mapM_cons]
      constructor
      · intro h
        obtain ⟨b, hb, h⟩ := bind_eq_ok_iff.1 h
        obtain ⟨others, hothers, h⟩ := bind_eq_ok_iff.1 h
        cases h
        obtain ⟨pairs, rfl, rfl, hpairs⟩ := ih.1 hothers
        exact ⟨(a, b) :: pairs, rfl, rfl, List.forall_mem_cons.2 ⟨hb, hpairs⟩⟩
      · rintro ⟨pairs, hfst, rfl, hpairs⟩
        cases pairs with
        | nil => cases hfst
        | cons q pairs =>
            obtain ⟨rfl, hrest⟩ := List.cons.inj hfst
            obtain ⟨hb, hothers⟩ := List.forall_mem_cons.1 hpairs
            exact bind_eq_ok_iff.2 ⟨q.2, hb, bind_eq_ok_iff.2
              ⟨pairs.map Prod.snd, ih.2 ⟨pairs, hrest, rfl, hothers⟩, rfl⟩⟩

/-- Each result comes from one of the members. -/
theorem exists_of_mapM_eq_ok {f : α → Except ε β} {as : List α} {bs : List β}
    (h : as.mapM f = .ok bs) : ∀ b ∈ bs, ∃ a ∈ as, f a = .ok b := by
  obtain ⟨pairs, rfl, rfl, hpairs⟩ := mapM_eq_ok_iff.1 h
  intro b hb
  obtain ⟨q, hq, rfl⟩ := List.mem_map.1 hb
  exact ⟨q.1, List.mem_map.2 ⟨q, hq, rfl⟩, hpairs q hq⟩

theorem exists_mapM_eq_ok {f : α → Except ε β} {as : List α} (h : ∀ a ∈ as, ∃ b, f a = .ok b) :
    ∃ bs, as.mapM f = .ok bs := by
  induction as with
  | nil => exact ⟨[], rfl⟩
  | cons a rest ih =>
      obtain ⟨⟨b, hb⟩, hrest⟩ := List.forall_mem_cons.1 h
      obtain ⟨bs, hbs⟩ := ih hrest
      rw [List.mapM_cons]
      exact ⟨b :: bs, bind_eq_ok_iff.2 ⟨b, hb, bind_eq_ok_iff.2 ⟨bs, hbs, rfl⟩⟩⟩

/-- An operation on every member of a list fails with the error of one of them. -/
theorem exists_of_mapM_eq_error {f : α → Except ε β} {as : List α} {e : ε}
    (h : as.mapM f = .error e) : ∃ a ∈ as, f a = .error e := by
  induction as with
  | nil => cases h
  | cons a rest ih =>
      rw [List.mapM_cons] at h
      cases ha : f a with
      | error failed =>
          rw [ha] at h
          cases h
          exact ⟨a, List.mem_cons_self, ha⟩
      | ok b =>
          cases hrest : rest.mapM f with
          | error failed =>
              rw [ha, hrest] at h
              cases h
              obtain ⟨other, hother, hfailed⟩ := ih hrest
              exact ⟨other, List.mem_cons_of_mem a hother, hfailed⟩
          | ok bs =>
              rw [ha, hrest] at h
              cases h

/-- An operation that keeps what it accepts fails at the first member that it rejects. -/
theorem mapM_eq_find? {f : α → Except ε α} (rejected : α → Bool) (error : α → ε) {as : List α}
    (h : ∀ a ∈ as, f a = if rejected a then .error (error a) else .ok a) :
    as.mapM f = (as.find? rejected).elim (.ok as) fun a => .error (error a) := by
  induction as with
  | nil => rfl
  | cons a rest ih =>
      obtain ⟨ha, hrest⟩ := List.forall_mem_cons.1 h
      rw [List.mapM_cons, ha, ih hrest, List.find?_cons]
      cases rejected a with
      | true => rfl
      | false =>
          cases rest.find? rejected with
          | some other => rfl
          | none => rfl

/-- An operation on every member of a list comes to the last one after all the others. -/
theorem mapM_concat (f : α → Except ε β) (as : List α) (a : α) :
    (as ++ [a]).mapM f = as.mapM f >>= fun bs => (fun b => bs ++ [b]) <$> f a := by
  have hlast : [a].mapM f = (fun b => [b]) <$> f a := by
    rw [List.mapM_cons]
    cases f a with
    | error e => rfl
    | ok b => rfl
  rw [List.mapM_append, hlast]
  cases as.mapM f with
  | error e => rfl
  | ok bs =>
      cases f a with
      | error e => rfl
      | ok b => rfl

theorem mapM_congr {f g : α → Except ε β} {as : List α} (h : ∀ a ∈ as, f a = g a) :
    as.mapM f = as.mapM g := by
  induction as with
  | nil => rfl
  | cons a rest ih =>
      obtain ⟨ha, hrest⟩ := List.forall_mem_cons.1 h
      rw [List.mapM_cons, List.mapM_cons, ha, ih hrest]

instance decidableEqOk [DecidableEq α] (found : Except ε α) (a : α) : Decidable (found = .ok a) :=
  match found with
  | .error _ => isFalse fun h => by cases h
  | .ok b => decidable_of_iff (b = a) ⟨congrArg Except.ok, Except.ok.inj⟩

instance decidableExistsOk (found : Except ε α) : Decidable (∃ a, found = .ok a) :=
  match found with
  | .error _ => isFalse fun ⟨_, h⟩ => by cases h
  | .ok a => isTrue ⟨a, rfl⟩

/-! ## Checks of some members -/

section Checks

variable {ε α : Type} {check : α → Except ε Unit} {picked : α → Bool} {as : List α}

/-- The picked members of a list pass a check when each of them does. -/
theorem forM_filter_eq_ok_iff :
    (as.filter picked).forM check = .ok () ↔ ∀ a ∈ as, picked a = true → check a = .ok () := by
  induction as with
  | nil => exact iff_of_true rfl (List.forall_mem_nil _)
  | cons a rest ih =>
      rw [List.forall_mem_cons, ← ih]
      cases ha : picked a with
      | false =>
          rw [List.filter_cons_of_neg (by rw [ha]; exact Bool.false_ne_true)]
          exact ⟨fun h => ⟨nofun, h⟩, fun h => h.2⟩
      | true =>
          rw [List.filter_cons_of_pos ha, List.forM, bind_eq_ok_iff]
          constructor
          · rintro ⟨u, hcheck, hrest⟩
            exact ⟨fun _ => hcheck, hrest⟩
          · rintro ⟨hcheck, hrest⟩
            exact ⟨(), hcheck rfl, hrest⟩

/-- Otherwise the error is that of the first picked member that fails. -/
theorem forM_filter_eq_error_iff {e : ε} :
    (as.filter picked).forM check = .error e ↔
      ∃ before a behind, as = before ++ a :: behind ∧ picked a = true ∧ check a = .error e ∧
        ∀ b ∈ before, picked b = true → check b = .ok () := by
  induction as with
  | nil =>
      refine iff_of_false nofun ?_
      rintro ⟨before, a, behind, heq, -⟩
      cases List.append_ne_nil_of_right_ne_nil before (List.cons_ne_nil a behind) heq.symm
  | cons first rest ih =>
      have hfails : ((first :: rest).filter picked).forM check = .error e ↔
          (picked first = true ∧ check first = .error e) ∨
            ((picked first = true → check first = .ok ()) ∧
              (rest.filter picked).forM check = .error e) := by
        cases hpicked : picked first with
        | false =>
            rw [List.filter_cons_of_neg (by rw [hpicked]; exact Bool.false_ne_true)]
            simp
        | true =>
            rw [List.filter_cons_of_pos hpicked, List.forM]
            cases hcheck : check first with
            | error e' => simp [bind, Except.bind]
            | ok u => simp [bind, Except.bind]
      rw [hfails, ih]
      constructor
      · rintro (⟨hpicked, hcheck⟩ | ⟨hfirst, before, a, behind, rfl, hpicked, hcheck, hbefore⟩)
        · exact ⟨[], first, rest, rfl, hpicked, hcheck, List.forall_mem_nil _⟩
        · exact ⟨first :: before, a, behind, rfl, hpicked, hcheck,
            List.forall_mem_cons.2 ⟨hfirst, hbefore⟩⟩
      · rintro ⟨before, a, behind, heq, hpicked, hcheck, hbefore⟩
        cases before with
        | nil =>
            cases heq
            exact Or.inl ⟨hpicked, hcheck⟩
        | cons b before =>
            cases heq
            obtain ⟨hfirst, hbefore⟩ := List.forall_mem_cons.1 hbefore
            exact Or.inr ⟨hfirst, before, a, behind, rfl, hpicked, hcheck, hbefore⟩

end Checks

end SchemaCatalog
