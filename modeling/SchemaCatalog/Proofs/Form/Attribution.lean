import Mathlib.Data.List.Sort
import Mathlib.Order.WellFoundedSet
import SchemaCatalog.Proofs.Form.Visits

/-!
# Components and the defects that are told of them

A component that takes input is reached when every such component above it is reached and has no
defect, and a reached component has the first defect that applies, judged by the keys of the
components that are reached before it. Which components are reached depends on the defects, and
the defects on what is reached (`Attributed`). The two are still determined, since each depends
only on what comes earlier in document order (`Attributed.unique`), and a check tells these defects
in this order (`validate_attributed`).
-/

set_option autoImplicit false

namespace SchemaCatalog

namespace FormComponent

/-! ## Reached components and their defects -/

/-- The usable key of the component at a place. -/
def keyAt? (root : FormComponent) (place : Place) : Option String :=
  (root.at? place).bind fun c => usableKey? c.key

/-- A component is reached, and comes earlier than a place, under a key. -/
def EarlierKey (root : FormComponent) (reached : List Place) (place : Place) (key : String) : Prop :=
  ∃ earlier ∈ reached, earlier < place ∧ root.keyAt? earlier = some key

/-- Which components below a root are reached and which defects are raised at them, both in
document order. -/
structure Attributed (s : Store) (schema : Schema) (root : FormComponent)
    (raised : List (Place × FormDefect)) (reached : List Place) : Prop where
  reached_ordered : reached.Pairwise (· < ·)
  raised_ordered : (raised.map Prod.fst).Pairwise (· < ·)
  reached_iff : ∀ place, place ∈ reached ↔ root.InputAt place ∧
    ∀ above, root.InputAt above → Above above place → above ∈ reached ∧ ∀ d, (above, d) ∉ raised
  within : ∀ q ∈ raised, q.1 ∈ reached
  first : ∀ place ∈ reached, ∃ c scope, root.at? place = some c ∧
    ScopeAt s schema root place scope ∧
    ∀ d, (place, d) ∈ raised ↔ FirstDefect s scope c (EarlierKey root reached place) d

/-! ## They are determined -/

section Unique

variable {s : Store} {schema scope scope' : Schema} {root c : FormComponent} {place : Place}

theorem Opens.unique {inner inner' : Schema} (h : Opens s schema c inner)
    (h' : Opens s schema c inner') : inner = inner' := by
  cases hinput : c.input with
  | false => rw [(opens_layout_iff hinput).1 h, (opens_layout_iff hinput).1 h']
  | true =>
      rw [Opens, if_pos hinput] at h
      obtain ⟨key, kind, target, hkey, hkind, htarget, hstored⟩ := h
      exact ((opens_reference_iff hinput hkey hkind htarget hstored).1 h').symm

theorem ScopeAt.unique (h : ScopeAt s schema root place scope)
    (h' : ScopeAt s schema root place scope') : scope = scope' := by
  induction h with
  | top =>
      cases h' with
      | top => rfl
      | under _ _ hscope => cases hscope
  | under hat hopens hscope ih =>
      cases h' with
      | top => cases hscope
      | under hat' hopens' hscope' =>
          cases hat.symm.trans hat'
          cases hopens.unique hopens'
          exact ih hscope'

/-- Defects in document order are known from their places. -/
theorem eq_of_places_ordered {raised raised' : List (Place × FormDefect)}
    (h : (raised.map Prod.fst).Pairwise (· < ·)) (h' : (raised'.map Prod.fst).Pairwise (· < ·))
    (hmem : ∀ q, q ∈ raised ↔ q ∈ raised') : raised = raised' := by
  have : Std.Irrefl fun q q' : Place × FormDefect => q.1 < q'.1 := ⟨fun q => List.lt_irrefl q.1⟩
  have : Std.Antisymm fun q q' : Place × FormDefect => q.1 < q'.1 :=
    ⟨fun _ _ hlt hgt => absurd hgt (List.lt_asymm hlt)⟩
  exact (List.pairwise_map.1 h).eq_of_mem_iff (List.pairwise_map.1 h') hmem

variable {raised raised' : List (Place × FormDefect)} {reached reached' : List Place}

/-- Two accounts of the same form say the same of a place. -/
def SameAt (raised raised' : List (Place × FormDefect)) (reached reached' : List Place)
    (place : Place) : Prop :=
  (place ∈ reached ↔ place ∈ reached') ∧ ∀ d, (place, d) ∈ raised ↔ (place, d) ∈ raised'

/-- What is said of a place follows from what is said of the places before it. -/
theorem Attributed.sameAt (h : Attributed s schema root raised reached)
    (h' : Attributed s schema root raised' reached')
    (ih : ∀ earlier, earlier < place → SameAt raised raised' reached reached' earlier) :
    SameAt raised raised' reached reached' place := by
  have hreached : place ∈ reached ↔ place ∈ reached' := by
    rw [h.reached_iff, h'.reached_iff]
    refine and_congr_right fun _ => forall_congr' fun above => imp_congr_right fun _ => ?_
    refine imp_congr_right fun habove => ?_
    obtain ⟨hmem, hraised⟩ := ih above habove.lt
    rw [hmem]
    exact and_congr_right fun _ => forall_congr' fun d => not_congr (hraised d)
  refine ⟨hreached, fun d => ?_⟩
  by_cases hmem : place ∈ reached
  · obtain ⟨c, scope, hat, hscope, hfirst⟩ := h.first place hmem
    obtain ⟨c', scope', hat', hscope', hfirst'⟩ := h'.first place (hreached.1 hmem)
    cases hat.symm.trans hat'
    cases hscope.unique hscope'
    rw [hfirst, hfirst']
    -- the keys before the place are the same, as the same components are reached there
    refine firstDefect_congr fun key _ => exists_congr fun earlier => ?_
    constructor
    · rintro ⟨hearlier, hlt, hkey⟩
      exact ⟨(ih earlier hlt).1.1 hearlier, hlt, hkey⟩
    · rintro ⟨hearlier, hlt, hkey⟩
      exact ⟨(ih earlier hlt).1.2 hearlier, hlt, hkey⟩
  · exact iff_of_false (fun hd => hmem (h.within _ hd))
      fun hd => hmem (hreached.2 (h'.within _ hd))

/-- There is one account at most of which components are reached and what is raised at them. -/
theorem Attributed.unique (h : Attributed s schema root raised reached)
    (h' : Attributed s schema root raised' reached') : raised = raised' ∧ reached = reached' := by
  -- places that neither account mentions are the same in both, and there are finitely many others
  have hother : ∀ place, place ∉ reached ++ reached' →
      SameAt raised raised' reached reached' place := by
    intro place hplace
    have hnot : place ∉ reached := fun hmem => hplace (List.mem_append_left _ hmem)
    have hnot' : place ∉ reached' := fun hmem => hplace (List.mem_append_right _ hmem)
    exact ⟨iff_of_false hnot hnot', fun d => iff_of_false (fun hd => hnot (h.within _ hd))
      fun hd => hnot' (h'.within _ hd)⟩
  have hwf : {place | place ∈ reached ++ reached'}.WellFoundedOn (· < ·) :=
    (List.finite_toSet _).wellFoundedOn
  have hsame : ∀ place, SameAt raised raised' reached reached' place := by
    intro place
    by_cases hplace : place ∈ reached ++ reached'
    · refine hwf.induction (x := place) hplace fun place _ ih => h.sameAt h' fun earlier hlt => ?_
      by_cases hearlier : earlier ∈ reached ++ reached'
      · exact ih earlier hearlier hlt
      · exact hother earlier hearlier
    · exact hother place hplace
  exact ⟨eq_of_places_ordered h.raised_ordered h'.raised_ordered fun q => (hsame q.1).2 q.2,
    h.reached_ordered.eq_of_mem_iff h'.reached_ordered fun place => (hsame place).1⟩

end Unique

/-! ## A tour accounts for its defects -/

/-- The defect of a visit with the place where it is raised. -/
def Visit.raised? (v : Visit) : Option (Place × FormDefect) := v.defect?.map (v.place, ·)

theorem Above.trans {above place below : Place} (h : Above above place) (h' : Above place below) :
    Above above below := by
  refine ⟨h.1.trans h'.1, ?_⟩
  rintro rfl
  exact absurd h'.lt (List.lt_asymm h.lt)

section Tour

variable {s : Store} {schema : Schema} {root : FormComponent} {visits : List Visit}
  {seen' : List String}

theorem mem_raised_iff {place : Place} {d : FormDefect} :
    (place, d) ∈ visits.filterMap Visit.raised? ↔
      ∃ v ∈ visits, v.place = place ∧ v.defect? = some d := by
  rw [List.mem_filterMap]
  refine exists_congr fun v => and_congr_right fun _ => ?_
  rw [Visit.raised?, Option.map_eq_some_iff]
  constructor
  · rintro ⟨d', hdefect, heq⟩
    cases heq
    exact ⟨rfl, hdefect⟩
  · rintro ⟨rfl, hdefect⟩
    exact ⟨d, hdefect, rfl⟩

theorem filterMap_raised?_snd :
    (visits.filterMap Visit.raised?).map Prod.snd = visits.filterMap Visit.defect? := by
  rw [List.map_filterMap]
  refine List.filterMap_congr fun v _ => ?_
  rw [Visit.raised?, Option.map_map]
  exact Option.map_id_apply

/-- No visit lies beneath another one that has a defect. -/
theorem not_above_of_precedes (h : visits.Pairwise Visit.Precedes) :
    ∀ v ∈ visits, ∀ w ∈ visits, v.defect? ≠ none → ¬ Above v.place w.place := by
  -- of two visits one comes before the other, and the later one does not lie above the earlier
  have hlater : visits.Pairwise fun v w => w.defect? ≠ none → ¬ Above w.place v.place :=
    h.imp fun hvw _ habove => absurd habove.lt (List.lt_asymm hvw.1)
  have hself : ∀ v ∈ visits, v.defect? ≠ none → ¬ Above v.place v.place :=
    fun v _ _ habove => habove.2 rfl
  intro v hv w hw
  exact (h.imp And.right).forall_of_forall_of_flip hself hlater hv hw

theorem places_ordered (h : visits.Pairwise Visit.Precedes) :
    (visits.map Visit.place).Pairwise (· < ·) :=
  List.pairwise_map.2 (h.imp fun hvw => hvw.1)

theorem raised_ordered (h : visits.Pairwise Visit.Precedes) :
    ((visits.filterMap Visit.raised?).map Prod.fst).Pairwise (· < ·) := by
  rw [List.pairwise_map, List.pairwise_filterMap]
  refine h.imp fun hvw q hq q' hq' => ?_
  obtain ⟨_, -, rfl⟩ := Option.map_eq_some_iff.1 hq
  obtain ⟨_, -, rfl⟩ := Option.map_eq_some_iff.1 hq'
  exact hvw.1

theorem Visit.Made.keyAt? {v : Visit} (h : v.Made s schema root) :
    root.keyAt? v.place = v.key? := by
  rw [FormComponent.keyAt?, h.component]
  rfl

/-- A tour goes to the components that are reached. -/
theorem Tours.mem_places_iff (h : Tours s schema root.components 0 [] visits seen')
    (place : Place) : place ∈ visits.map Visit.place ↔ root.InputAt place ∧
      ∀ above, root.InputAt above → Above above place →
        above ∈ visits.map Visit.place ∧ ∀ d, (above, d) ∉ visits.filterMap Visit.raised? := by
  have hmade := h.made root rfl
  have hclear := not_above_of_precedes h.precedes
  have hinput : ∀ v ∈ visits, root.InputAt v.place := by
    intro v hv
    obtain ⟨j, place, hplace, -⟩ := h.startFrom v hv
    exact (hmade v hv).inputAt (by rw [hplace]; exact List.cons_ne_nil j place)
  have hcomplete : ∀ place, root.InputAt place →
      (∀ v ∈ visits, v.defect? ≠ none → ¬ Above v.place place) →
      place ∈ visits.map Visit.place := by
    rintro (_ | ⟨j, place⟩) hplace hfree
    · exact absurd rfl hplace.1
    · obtain ⟨v, hv, hv'⟩ := h.complete root rfl j place (Nat.zero_le j) hplace hfree
      exact List.mem_map.2 ⟨v, hv, hv'⟩
  constructor
  · intro hplace
    obtain ⟨v, hv, rfl⟩ := List.mem_map.1 hplace
    refine ⟨hinput v hv, fun above habove hlies => ⟨?_, ?_⟩⟩
    · -- a defect above what lies above the visit would lie above the visit as well
      refine hcomplete above habove fun w hw hdefect hbetween => ?_
      exact hclear w hw v hv hdefect (hbetween.trans hlies)
    · intro d hd
      obtain ⟨w, hw, rfl, hdefect⟩ := mem_raised_iff.1 hd
      refine hclear w hw v hv ?_ hlies
      rw [hdefect]
      exact Option.some_ne_none d
  · rintro ⟨hplace, hreached⟩
    refine hcomplete place hplace fun v hv hdefect hlies => ?_
    obtain ⟨d, hd⟩ := Option.ne_none_iff_exists'.1 hdefect
    exact (hreached v.place (hinput v hv) hlies).2 d (mem_raised_iff.2 ⟨v, hv, rfl, hd⟩)

/-- What is raised at the place of a visit is the first defect there. -/
theorem Tours.raised_iff (h : Tours s schema root.components 0 [] visits seen') {v : Visit}
    (hv : v ∈ visits) (d : FormDefect) :
    (v.place, d) ∈ visits.filterMap Visit.raised? ↔
      FirstDefect s v.scope v.component (EarlierKey root (visits.map Visit.place) v.place) d := by
  have hmade := h.made root rfl
  have hnodup : (visits.map Visit.place).Nodup :=
    (places_ordered h.precedes).nodup
  have hown : (v.place, d) ∈ visits.filterMap Visit.raised? ↔ v.defect? = some d := by
    rw [mem_raised_iff]
    constructor
    · rintro ⟨w, hw, hplace, hdefect⟩
      rwa [← List.inj_on_of_nodup_map hnodup hw hv hplace]
    · exact fun hdefect => ⟨v, hv, rfl, hdefect⟩
  rw [hown, (hmade v hv).defect d]
  refine firstDefect_congr fun key _ => ?_
  -- the keys met at the visit are those of the visits before it
  rw [h.meets.mem_met_iff h.precedes v hv key, or_iff_right List.not_mem_nil]
  constructor
  · rintro ⟨w, hw, hlt, hkey⟩
    exact ⟨w.place, List.mem_map_of_mem hw, hlt, (hmade w hw).keyAt?.trans hkey⟩
  · rintro ⟨earlier, hearlier, hlt, hkey⟩
    obtain ⟨w, hw, rfl⟩ := List.mem_map.1 hearlier
    exact ⟨w, hw, hlt, (hmade w hw).keyAt?.symm.trans hkey⟩

/-- The visits of a tour, and the defects found at them, account for the form. -/
theorem Tours.attributed (h : Tours s schema root.components 0 [] visits seen') :
    Attributed s schema root (visits.filterMap Visit.raised?) (visits.map Visit.place) where
  reached_ordered := places_ordered h.precedes
  raised_ordered := raised_ordered h.precedes
  reached_iff := h.mem_places_iff
  within := by
    rintro ⟨place, d⟩ hd
    obtain ⟨v, hv, hplace, -⟩ := mem_raised_iff.1 hd
    exact List.mem_map.2 ⟨v, hv, hplace⟩
  first := by
    intro place hplace
    obtain ⟨v, hv, rfl⟩ := List.mem_map.1 hplace
    have hmade := h.made root rfl v hv
    exact ⟨v.component, v.scope, hmade.component, hmade.scope, h.raised_iff hv⟩

/-- A key is told to be repeated once less often than it is reached. -/
theorem Tours.count_duplicateKey (h : Tours s schema root.components 0 [] visits seen')
    (key : String) : (visits.filterMap Visit.defect?).count (.duplicateKey key) =
      ((visits.map Visit.place).countP fun place => root.keyAt? place = some key) - 1 := by
  have hmade := h.made root rfl
  rw [h.meets.count_of_notMem List.not_mem_nil, List.countP_map]
  · congr 1
    refine List.countP_congr fun v hv => ?_
    rw [Function.comp_apply, (hmade v hv).keyAt?]
  · intro v hv
    exact ((hmade v hv).defect _).trans firstDefect_duplicateKey_iff

end Tour

/-! ## What a check tells -/

/-- A defect is told under the usable key of its component, if it has one. -/
theorem Attributed.control_eq {s : Store} {schema : Schema} {root : FormComponent}
    {raised : List (Place × FormDefect)} {reached : List Place}
    (h : Attributed s schema root raised reached) :
    ∀ q ∈ raised, q.2.control = root.keyAt? q.1 := by
  intro q hq
  obtain ⟨c, scope, hat, -, hfirst⟩ := h.first q.1 (h.within q hq)
  rw [keyAt?, hat]
  exact ((hfirst q.2).1 hq).control

/-- A check tells in document order the first defect of each component that is reached and has
one, under the key of the component, and nothing else; so a key is told to be repeated once less
often than it is reached. -/
theorem validate_attributed (rule : KeyRule) (s : Store) {key : String} {schema : Schema}
    (hkey : Text.isBlank key = false) (hstored : s.get? key = some schema)
    (root : FormComponent) :
    let look := (Catalog.mk rule s .none).lookup
    ∃ raised reached, Attributed s schema root raised reached ∧
      (∀ raised' reached', Attributed s schema root raised' reached' →
        raised' = raised ∧ reached' = reached) ∧
      root.validate look false key = .ok (raised.map Prod.snd) ∧
      (∀ q ∈ raised, q.2.control = root.keyAt? q.1) ∧
      ∀ repeated, (raised.map Prod.snd).count (.duplicateKey repeated) =
        (reached.countP fun place => root.keyAt? place = some repeated) - 1 := by
  intro look
  obtain ⟨visits, seen', htour, hfound⟩ := exists_tours (s := s) root.components schema 0 []
  have hattributed := htour.attributed
  refine ⟨_, _, hattributed, fun _ _ h => h.unique hattributed, ?_, hattributed.control_eq, ?_⟩
  · rw [filterMap_raised?_snd]
    exact validate_of_checkAll hkey hstored hfound
  · rw [filterMap_raised?_snd]
    exact htour.count_duplicateKey

/-- The component for the home is reached twice and told to be repeated once; a third one stands
beneath a scalar and is not reached. -/
theorem validate_attributed_repeated :
    let address : Schema := ⟨none, "Address", "", none, [⟨"city", .scalar .string, []⟩], [], 0⟩
    let person : Schema :=
      ⟨none, "Person", "", none, [⟨"name", .scalar .string, []⟩, ⟨"home", .reference "Address", []⟩], [], 0⟩
    let s := (Store.empty.put address).put person
    let root : FormComponent := .layoutOnly [.bound "home" [.bound "home.city" []],
      .bound "name" [.bound "home" []], .layoutOnly [.bound "home" [.bound "x" []], { input := true }]]
    ∃ raised reached, Attributed s ((Store.empty.put address).stamp person) root raised reached ∧
      raised.map Prod.snd = [.notAParent "name", .duplicateKey "home", .missingKey] ∧
      (reached.countP fun place => root.keyAt? place = some "home") = 2 := by
  intro address person s root
  have hstored : s.get? "Person" = some ((Store.empty.put address).stamp person) :=
    Keyed.get?_insert_self _ _ _
  obtain ⟨raised, reached, hattributed, -, hvalidate, -, hcount⟩ :=
    validate_attributed .default s (by decide +kernel) hstored root
  have hraised : raised.map Prod.snd = [.notAParent "name", .duplicateKey "home", .missingKey] := by
    have hfound : root.validate (Catalog.mk .default s .none).lookup false "Person" =
        .ok [.notAParent "name", .duplicateKey "home", .missingKey] := by decide +kernel
    exact Except.ok.inj (hvalidate.symm.trans hfound)
  have honce := hcount "home"
  rw [hraised] at honce
  refine ⟨raised, reached, hattributed, hraised, ?_⟩
  have hcounted : [FormDefect.notAParent "name", .duplicateKey "home", .missingKey].count
      (.duplicateKey "home") = 1 := by decide +kernel
  omega

end FormComponent

end SchemaCatalog
