import SchemaCatalog.Proofs.Form.Scope
import SchemaCatalog.Proofs.Linker.Tree

/-!
# The keys of a tree

The form that is made of some paths has one component for each of their beginnings
(`exists_enumeration`, `exists_node_of_below`), and nothing else of the paths shows in it
(`Ordered.ext`). The key of a component is its beginning written with dots, except that
empty segments before all others do not show in it (`foldl_extendKey`): the empty key is
extended as if nothing stood before. So the keys are the written beginnings, each once,
where no path starts with a dot, and only there.
-/

set_option autoImplicit false

namespace SchemaCatalog

open FormComponent (Below inputKeys)

namespace PathTree

/-! ## Trees that hold the same paths -/

theorem eq_of_entries_eq {t t' : PathTree} (h : t.entries = t'.entries) : t = t' := by
  cases t with
  | node below =>
      cases t' with
      | node below' => exact congrArg node h

theorem has_cons_of_get? {nodes : List (String × PathTree)} {segment : String} {t : PathTree}
    (h : Keyed.get? nodes segment = some t) (q : List String) :
    Has nodes (segment :: q) ↔ Has t.entries q := by
  rw [Has, h]
  constructor
  · rintro ⟨_, heq, hq⟩
    cases heq
    exact hq
  · exact fun hq => ⟨t, rfl, hq⟩

/-- Nodes in order are determined by the paths that they hold. -/
theorem Ordered.ext {a b : List (String × PathTree)} (ha : Ordered a) (hb : Ordered b)
    (h : ∀ p, Has a p ↔ Has b p) : a = b := by
  -- by induction on the first nodes, which are told apart by what is found under each segment
  induction ha generalizing b with
  | mk hsorted _ ih =>
      refine hsorted.ext hb.sorted fun segment => ?_
      have hfirst := h [segment]
      rw [Has, Has] at hfirst
      cases hget : Keyed.get? b segment with
      | none =>
          rw [hget] at hfirst
          refine Option.eq_none_iff_forall_ne_some.2 fun t hsome => ?_
          obtain ⟨_, hnone, -⟩ := hfirst.1 ⟨t, hsome, trivial⟩
          cases hnone
      | some t' =>
          obtain ⟨t, hsome, -⟩ := hfirst.2 ⟨t', hget, trivial⟩
          -- what the two nodes hold are the paths that go on behind their segment
          have hsame : t.entries = t'.entries := by
            refine ih (segment, t) (Keyed.mem_of_get?_eq_some hsome)
              (hb.entries_of_mem (Keyed.mem_of_get?_eq_some hget)) fun q => ?_
            rw [← has_cons_of_get? hsome, ← has_cons_of_get? hget]
            exact h (segment :: q)
          rw [hsome, eq_of_entries_eq hsame]

/-- The form of some paths depends neither on their order nor on how often one stands there. -/
theorem formOf_congr {paths paths' : List String} (h : ∀ path, path ∈ paths ↔ path ∈ paths') :
    formOf paths' = formOf paths := by
  have hentries : (ofPaths paths').entries = (ofPaths paths).entries := by
    refine (ordered_ofPaths paths').ext (ordered_ofPaths paths) fun p => ?_
    rw [has_ofPaths_iff, has_ofPaths_iff]
    simp only [h]
  rw [formOf, formOf, eq_of_entries_eq hentries]

/-! ## The components of the nodes -/

theorem componentsOf_eq_map (key : String) (nodes : List (String × PathTree)) :
    componentsOf key nodes = nodes.map fun node =>
      .bound (extendKey key node.1) (componentsOf (extendKey key node.1) node.2.entries) := by
  induction nodes with
  | nil => rw [componentsOf, List.map_nil]
  | cons node rest ih =>
      obtain ⟨segment, t⟩ := node
      rw [componentsOf_cons, ih, List.map_cons]

/-- A component among those of some nodes, at any depth, is that of the node to which some
path leads. -/
theorem exists_node_of_below {nodes : List (String × PathTree)} {key : String}
    {d : FormComponent} (hnodes : Ordered nodes) (hd : Below (componentsOf key nodes) d) :
    ∃ p below, p ≠ [] ∧ Ordered below ∧ (∀ q, Has nodes (p ++ q) ↔ Has below q) ∧
      d = .bound (p.foldl extendKey key) (componentsOf (p.foldl extendKey key) below) := by
  generalize hcomponents : componentsOf key nodes = components at hd
  -- by induction on the way down to the component, which adds a segment before the others
  induction hd generalizing nodes key with
  | here hmem =>
      subst hcomponents
      rw [componentsOf_eq_map] at hmem
      obtain ⟨⟨segment, t⟩, hnode, rfl⟩ := List.mem_map.1 hmem
      have hget := Keyed.get?_eq_some_of_mem hnodes.sorted.nodup_keys hnode
      exact ⟨[segment], t.entries, List.cons_ne_nil _ _, hnodes.entries_of_mem hnode,
        has_cons_of_get? hget, rfl⟩
  | under hmem _ ih =>
      subst hcomponents
      rw [componentsOf_eq_map] at hmem
      obtain ⟨⟨segment, t⟩, hnode, rfl⟩ := List.mem_map.1 hmem
      have hget := Keyed.get?_eq_some_of_mem hnodes.sorted.nodup_keys hnode
      obtain ⟨p, below, -, hbelow, hhas, rfl⟩ := ih (hnodes.entries_of_mem hnode) rfl
      exact ⟨segment :: p, below, List.cons_ne_nil _ _, hbelow,
        fun q => (has_cons_of_get? hget (p ++ q)).trans (hhas q), rfl⟩

/-- The paths that some nodes hold can be listed without repetition so that the keys of the
components are those of the paths, one after the other. -/
theorem exists_enumeration {nodes : List (String × PathTree)} (hnodes : Ordered nodes) :
    ∃ places : List (List String), places.Nodup ∧
      (∀ p, p ∈ places ↔ p ≠ [] ∧ Has nodes p) ∧
      ∀ key, inputKeys (componentsOf key nodes) = places.map (List.foldl extendKey key) := by
  induction nodes using nodesInduction with
  | nil =>
      refine ⟨[], List.nodup_nil, fun p => iff_of_false List.not_mem_nil ?_, fun key => ?_⟩
      · rintro ⟨hne, hp⟩
        exact hne (has_nil_iff.1 hp)
      · rw [componentsOf, inputKeys, List.map_nil]
  | cons segment t rest ihbelow ihrest =>
      obtain ⟨below, hnodupBelow, hbelow, hkeysBelow⟩ :=
        ihbelow (hnodes.entries_of_mem List.mem_cons_self)
      obtain ⟨behind, hnodupBehind, hbehind, hkeysBehind⟩ := ihrest hnodes.rest
      -- the paths through the node are its segment and what goes on below it
      have hthrough : ∀ p, p ∈ [segment] :: below.map (List.cons segment) ↔
          ∃ q, p = segment :: q ∧ Has t.entries q := by
        intro p
        rw [List.mem_cons, List.mem_map]
        constructor
        · rintro (rfl | ⟨q, hq, rfl⟩)
          · exact ⟨[], rfl, trivial⟩
          · exact ⟨q, rfl, ((hbelow q).1 hq).2⟩
        · rintro ⟨q, rfl, hq⟩
          by_cases hnil : q = []
          · exact Or.inl (congrArg _ hnil)
          · exact Or.inr ⟨q, (hbelow q).2 ⟨hnil, hq⟩, rfl⟩
      refine ⟨([segment] :: below.map (List.cons segment)) ++ behind, ?_, ?_, ?_⟩
      · refine List.nodup_append'.2 ⟨List.nodup_cons.2 ⟨?_, ?_⟩, hnodupBehind, ?_⟩
        · intro hmem
          obtain ⟨q, hq, heq⟩ := List.mem_map.1 hmem
          exact ((hbelow q).1 hq).1 (List.cons.inj heq).2
        · exact hnodupBelow.map (List.cons_injective)
        · intro p hp hp'
          obtain ⟨q, rfl, -⟩ := (hthrough p).1 hp
          exact hnodes.not_has_rest q ((hbehind _).1 hp').2
      · intro p
        rw [List.mem_append, hthrough, hbehind, has_cons_iff hnodes.sorted, and_or_left]
        refine or_congr_left (iff_and_self.2 ?_)
        rintro ⟨q, rfl, -⟩
        exact List.cons_ne_nil _ _
      · intro key
        rw [componentsOf_cons, FormComponent.inputKeys_cons_eq_append,
          FormComponent.inputKeys_bound rfl rfl, hkeysBehind, List.map_append, List.map_cons,
          List.map_map]
        exact congrArg (fun keys => _ :: keys ++ _) (hkeysBelow _)

/-! ## Keys -/

/-- The key of the component to which some segments lead: the segments behind the empty ones
that stand before all others, written with dots. -/
def writtenKey (path : List String) : String := Text.dotted (path.dropWhile String.isEmpty)

/-- A key that is not empty is extended by every segment. -/
theorem foldl_extendKey_dotted {before : List String} (h : Text.dotted before ≠ "")
    (path : List String) :
    path.foldl extendKey (Text.dotted before) = Text.dotted (before ++ path) := by
  induction path generalizing before with
  | nil => rw [List.foldl_nil, List.append_nil]
  | cons segment rest ih =>
      have hlonger : Text.dotted (before ++ [segment]) ≠ "" := by
        intro hempty
        rcases (Text.dotted_eq_empty_iff _).1 hempty with hnil | hblank
        · exact List.append_ne_nil_of_right_ne_nil _ (List.cons_ne_nil _ _) hnil
        · cases before with
          | nil => exact h rfl
          | cons first others =>
              exact List.append_ne_nil_of_right_ne_nil _ (List.cons_ne_nil _ _)
                (List.cons.inj hblank).2
      rw [List.foldl_cons, extendKey_dotted h, ih hlonger, List.append_assoc,
        List.singleton_append]

theorem foldl_extendKey (path : List String) : path.foldl extendKey "" = writtenKey path := by
  induction path with
  | nil => rfl
  | cons segment rest ih =>
      have hfirst : extendKey "" segment = segment := rfl
      rw [List.foldl_cons, hfirst, writtenKey]
      by_cases hempty : segment = ""
      · -- the key is still empty, so the rest is written as if it stood alone
        subst hempty
        rw [ih, List.dropWhile_cons_of_pos rfl, writtenKey]
      · rw [List.dropWhile_cons_of_neg (fun h => hempty (String.isEmpty_iff.1 h))]
        rw [← Text.dotted_singleton segment] at hempty
        conv_lhs => rw [← Text.dotted_singleton segment]
        rw [foldl_extendKey_dotted hempty, List.singleton_append]

/-- A text starts with a dot when its first segment is empty and not the only one. -/
theorem head?_eq_dot_iff (s : String) :
    s.toList.head? = some '.' ↔ ∃ segment rest, Text.segments s = "" :: segment :: rest := by
  rw [Text.segments]
  cases s.toList with
  | nil =>
      refine iff_of_false (fun h => by cases h) ?_
      rintro ⟨segment, rest, h⟩
      cases h
  | cons c cs =>
      obtain ⟨part, parts, hparts⟩ := List.exists_cons_of_ne_nil (List.splitOn_ne_nil '.' cs)
      rw [List.head?_cons, Option.some.injEq, List.splitOn_cons_eq_if_modifyHead, hparts]
      by_cases hc : c = '.'
      · rw [if_pos (beq_iff_eq.2 hc)]
        exact iff_of_true hc ⟨_, _, rfl⟩
      · rw [if_neg (fun heq => hc (beq_iff_eq.1 heq))]
        refine iff_of_false hc ?_
        rintro ⟨segment, rest, h⟩
        have hfirst : String.ofList (c :: part) = "" := (List.cons.inj h).1
        have hlist := congrArg String.toList hfirst
        rw [String.toList_ofList] at hlist
        cases hlist

/-- No key starts with a dot. -/
theorem head?_writtenKey_ne {path : List String} (hplain : ∀ part ∈ path, Text.Plain part) :
    (writtenKey path).toList.head? ≠ some '.' := by
  intro hdot
  obtain ⟨segment, rest, hsegments⟩ := (head?_eq_dot_iff _).1 hdot
  rw [writtenKey] at hsegments
  have hne : path.dropWhile String.isEmpty ≠ [] := by
    intro hnil
    rw [hnil] at hsegments
    cases hsegments
  rw [Text.segments_dotted hne
    (fun part hpart => hplain part ((List.dropWhile_sublist _).mem hpart))] at hsegments
  have hfirst := List.head?_dropWhile_not String.isEmpty path
  rw [hsegments] at hfirst
  cases hfirst

/-! ## Beginnings -/

/-- A beginning of some paths: segments, at least one, with which one of the paths begins. -/
def Beginning (paths : List String) (p : List String) : Prop :=
  p ≠ [] ∧ ∃ path ∈ paths, p <+: Text.segments path

variable {paths : List String}

theorem beginning_iff_has (p : List String) :
    Beginning paths p ↔ p ≠ [] ∧ Has (ofPaths paths).entries p := by
  rw [has_ofPaths_iff, Beginning]
  exact and_congr_right fun hne => (or_iff_right hne).symm

namespace Beginning

variable {p : List String}

theorem plain (h : Beginning paths p) : ∀ part ∈ p, Text.Plain part := by
  obtain ⟨-, path, -, hbegins⟩ := h
  exact fun part hpart => Text.plain_of_mem_segments (hbegins.subset hpart)

/-- Where no path starts with a dot, no empty segment stands before another one. -/
theorem not_empty_cons (hdots : ∀ path ∈ paths, path.toList.head? ≠ some '.')
    {segment : String} {rest : List String} : ¬ Beginning paths ("" :: segment :: rest) := by
  rintro ⟨-, path, hpath, behind, hsegments⟩
  exact hdots path hpath ((head?_eq_dot_iff path).2 ⟨segment, rest ++ behind, hsegments.symm⟩)

/-- Where no path starts with a dot, a beginning is found in its key as it is. -/
theorem writtenKey_eq (h : Beginning paths p)
    (hdots : ∀ path ∈ paths, path.toList.head? ≠ some '.') : writtenKey p = Text.dotted p := by
  obtain ⟨first, rest, rfl⟩ := List.exists_cons_of_ne_nil h.1
  by_cases hempty : first = ""
  · subst hempty
    cases rest with
    | nil => rfl
    | cons second rest => exact absurd h (not_empty_cons hdots)
  · rw [writtenKey, List.dropWhile_cons_of_neg (fun h => hempty (String.isEmpty_iff.1 h))]

/-- A path that starts with a dot has a beginning that starts with a dot. -/
theorem of_head?_eq_dot {path : String} (hpath : path ∈ paths)
    (hdot : path.toList.head? = some '.') :
    ∃ p, Beginning paths p ∧ (Text.dotted p).toList.head? = some '.' := by
  obtain ⟨segment, rest, hsegments⟩ := (head?_eq_dot_iff path).1 hdot
  have hbeginning : Beginning paths ["", segment] := by
    refine ⟨List.cons_ne_nil _ _, path, hpath, ?_⟩
    rw [hsegments]
    exact ⟨rest, rfl⟩
  refine ⟨_, hbeginning, (head?_eq_dot_iff _).2 ⟨segment, [], ?_⟩⟩
  exact Text.segments_dotted (List.cons_ne_nil _ _) hbeginning.plain

end Beginning

/-! ## Forms of paths -/

/-- Siblings whose keys are those of some plain segments, which increase from one to the next. -/
def Branches (extend : String → String) (components : List FormComponent) : Prop :=
  ∃ segments : List String, segments.Pairwise (· < ·) ∧ (∀ s ∈ segments, Text.Plain s) ∧
    components.map FormComponent.key = segments.map fun s => some (extend s)

theorem branches_componentsOf (key : String) {nodes : List (String × PathTree)}
    (hnodes : Ordered nodes) (hplain : ∀ segment, Has nodes [segment] → Text.Plain segment) :
    Branches (extendKey key) (componentsOf key nodes) := by
  refine ⟨Keyed.keys nodes, List.pairwise_map.2 hnodes.sorted, ?_, ?_⟩
  · intro segment hsegment
    obtain ⟨node, hnode, rfl⟩ := List.mem_map.1 hsegment
    exact hplain _ ⟨_, Keyed.get?_eq_some_of_mem hnodes.sorted.nodup_keys hnode, trivial⟩
  · rw [componentsOf_eq_map, Keyed.keys, List.map_map, List.map_map]
    rfl

/-- Components stand for the beginnings of some paths: each takes input, and their keys are the
written beginnings, each once. A key is that of the component above with a dot and one segment,
and siblings stand in the order of these segments. -/
structure Mirrors (paths : List String) (components : List FormComponent) : Prop where
  inputs : ∀ d, Below components d → d.input = true
  distinct : (inputKeys components).Nodup
  keys : ∀ key, key ∈ inputKeys components ↔ ∃ p, Beginning paths p ∧ Text.dotted p = key
  top : Branches id components
  below : ∀ d, Below components d →
    ∃ key, d.key = some key ∧ Branches (fun segment => key ++ "." ++ segment) d.components

/-- Components stand for the beginnings of some paths, but empty segments before all others do
not show in the keys. -/
structure Follows (paths : List String) (components : List FormComponent) : Prop where
  inputs : ∀ d, Below components d → d.input = true
  keys : ∃ places : List (List String), places.Nodup ∧
    (∀ p, p ∈ places ↔ Beginning paths p) ∧ inputKeys components = places.map writtenKey
  top : Branches id components
  below : ∀ d, Below components d →
    ∃ key, d.key = some key ∧ Branches (extendKey key) d.components

theorem formOf_components (paths : List String) :
    (formOf paths).components = componentsOf "" (ofPaths paths).entries :=
  components_eq "" (ofPaths paths)

/-- The component of a beginning: its key, and the components of the beginnings that are one
segment longer. -/
theorem exists_beginning_of_below {d : FormComponent} (hd : Below (formOf paths).components d) :
    ∃ p below, Beginning paths p ∧ (∀ q, Beginning paths (p ++ q) ↔ Has below q) ∧
      d = .bound (writtenKey p) (componentsOf (writtenKey p) below) ∧
      Branches (extendKey (writtenKey p)) (componentsOf (writtenKey p) below) := by
  rw [formOf_components] at hd
  obtain ⟨p, below, hne, hordered, hhas, rfl⟩ := exists_node_of_below (ordered_ofPaths paths) hd
  have hbeginning : ∀ q, Beginning paths (p ++ q) ↔ Has below q := by
    intro q
    rw [beginning_iff_has, hhas q]
    exact and_iff_right (List.append_ne_nil_of_left_ne_nil hne q)
  have hself := (hbeginning []).2 trivial
  rw [List.append_nil] at hself
  rw [foldl_extendKey]
  refine ⟨p, below, hself, hbeginning, rfl, branches_componentsOf _ hordered ?_⟩
  exact fun segment hsegment =>
    ((hbeginning [segment]).2 hsegment).plain segment
      (List.mem_append_right p (List.mem_singleton_self _))

theorem follows_formOf (paths : List String) : Follows paths (formOf paths).components where
  inputs := by
    intro d hd
    obtain ⟨p, below, -, -, rfl, -⟩ := exists_beginning_of_below hd
    rfl
  keys := by
    obtain ⟨places, hnodup, hplaces, hkeys⟩ := exists_enumeration (ordered_ofPaths paths)
    refine ⟨places, hnodup, fun p => (hplaces p).trans (beginning_iff_has p).symm, ?_⟩
    rw [formOf_components, hkeys ""]
    exact List.map_congr_left fun p _ => foldl_extendKey p
  top := by
    rw [formOf_components]
    refine branches_componentsOf "" (ordered_ofPaths paths) fun segment hsegment => ?_
    exact ((beginning_iff_has [segment]).2 ⟨List.cons_ne_nil _ _, hsegment⟩).plain segment
      (List.mem_singleton_self _)
  below := by
    intro d hd
    obtain ⟨p, below, -, -, rfl, hbranches⟩ := exists_beginning_of_below hd
    exact ⟨_, rfl, hbranches⟩

theorem mirrors_formOf (hdots : ∀ path ∈ paths, path.toList.head? ≠ some '.') :
    Mirrors paths (formOf paths).components := by
  obtain ⟨inputs, ⟨places, hnodup, hplaces, hkeys⟩, top, -⟩ := follows_formOf paths
  have hwritten : inputKeys (formOf paths).components = places.map Text.dotted := by
    rw [hkeys]
    exact List.map_congr_left fun p hp => ((hplaces p).1 hp).writtenKey_eq hdots
  refine ⟨inputs, ?_, ?_, top, ?_⟩
  · rw [hwritten]
    refine hnodup.map_on fun p hp q hq heq => ?_
    have hp := (hplaces p).1 hp
    have hq := (hplaces q).1 hq
    exact Text.dotted_inj hp.1 hq.1 hp.plain hq.plain heq
  · intro key
    rw [hwritten, List.mem_map]
    simp only [hplaces]
  · intro d hd
    obtain ⟨p, below, hp, hbelow, rfl, hbranches⟩ := exists_beginning_of_below hd
    refine ⟨writtenKey p, rfl, ?_⟩
    by_cases hempty : writtenKey p = ""
    · -- an empty key is that of one empty segment, and nothing stands behind that
      have hp' : p = [""] := by
        rw [hp.writtenKey_eq hdots] at hempty
        exact ((Text.dotted_eq_empty_iff p).1 hempty).resolve_left hp.1
      subst hp'
      have hnil : below = [] := by
        by_contra hsome
        obtain ⟨segment, rest, hhas⟩ := exists_has_cons_iff.1 hsome
        exact Beginning.not_empty_cons hdots ((hbelow (segment :: rest)).2 hhas)
      subst hnil
      exact ⟨[], List.Pairwise.nil, fun _ h => absurd h List.not_mem_nil, rfl⟩
    · have hextend : extendKey (writtenKey p) = fun segment => writtenKey p ++ "." ++ segment := by
        funext segment
        rw [extendKey, if_neg (fun h => hempty (String.isEmpty_iff.1 h))]
      rwa [hextend] at hbranches

theorem not_mirrors_formOf {path : String} (hpath : path ∈ paths)
    (hdot : path.toList.head? = some '.') : ¬ Mirrors paths (formOf paths).components := by
  intro h
  obtain ⟨p, hp, hstarts⟩ := Beginning.of_head?_eq_dot hpath hdot
  obtain ⟨places, -, hplaces, hkeys⟩ := (follows_formOf paths).keys
  -- the beginning with the dot would have to be a key, and no key starts with one
  have hkey := (h.keys (Text.dotted p)).2 ⟨p, hp, rfl⟩
  rw [hkeys] at hkey
  obtain ⟨q, hq, heq⟩ := List.mem_map.1 hkey
  rw [← heq] at hstarts
  exact head?_writtenKey_ne ((hplaces q).1 hq).plain hstarts

/-- A form of paths is determined by which paths there are. Its components stand for the
beginnings of the paths up to the empty segments before all others, and stand for them exactly
if no path starts with a dot. -/
theorem formOf_exact (paths : List String) :
    (∀ paths', (∀ path, path ∈ paths ↔ path ∈ paths') → formOf paths' = formOf paths) ∧
      Follows paths (formOf paths).components ∧
      (Mirrors paths (formOf paths).components ↔
        ∀ path ∈ paths, path.toList.head? ≠ some '.') := by
  refine ⟨fun paths' h => formOf_congr h, follows_formOf paths, ?_, mirrors_formOf⟩
  exact fun h path hpath hdot => not_mirrors_formOf hpath hdot h

/-- Neither order nor repetition shows, and no key is lost where no path starts with a dot. -/
theorem formOf_exact_repeated :
    formOf ["b", "a.c", "b"] = formOf ["a.c", "b"] ∧
      Mirrors ["a.c", "b"] (formOf ["a.c", "b"]).components := by
  have hsame : ∀ path, path ∈ ["a.c", "b"] ↔ path ∈ ["b", "a.c", "b"] := by
    intro path
    simp only [List.mem_cons, List.not_mem_nil, or_false]
    tauto
  exact ⟨(formOf_exact ["a.c", "b"]).1 _ hsame, (formOf_exact ["a.c", "b"]).2.2.2 (by decide)⟩

/-- Below an empty segment the dot between the segments is lost. -/
theorem formOf_dot : ¬ Mirrors [".a"] (formOf [".a"]).components := by
  intro h
  have hkey := (h.keys ".a").2 ⟨["", "a"], ⟨by decide, ".a", by decide, by decide⟩, by decide⟩
  exact absurd hkey (by decide)

end PathTree

end SchemaCatalog
