import Mathlib.Tactic
import CallResolution.Proofs.Scope.AppendOnly

/-!
# Children of one name

A scope may contain a namespace and a class of one name.  It never contains two namespaces or
two classes of one name: a namespace is only made where no child is found, and the type of a
second class is taken.  If both are there the class is the newer one, because in front of a
class no namespace is made.

So a child is found by its name unless it is a namespace with a class in its place
(`Built.child?_eq_some_iff`).  Children with an empty name are never found, and there may be
any number of them.
-/

namespace CallResolution

/-- The name that a containment gives to its target, unless it is empty. -/
def Edge.givenName? (edge : Edge) : Option String :=
  match edge.label with
  | .contains name => if name ≠ "" then some name else none
  | _ => none

namespace ScopeGraph

/-- The children of a scope that have a name, newest first. -/
def namesakes (graph : ScopeGraph) (parent : ScopeId) (name : String) : List ScopeId :=
  graph.edges.filterMap fun edge =>
    if edge.source = parent ∧ edge.label = .contains name then some edge.target else none

section Children

variable {graph : ScopeGraph} {parent child : ScopeId} {name : String}

theorem mem_namesakes_iff :
    child ∈ graph.namesakes parent name ↔ ⟨parent, child, .contains name⟩ ∈ graph.edges := by
  simp only [namesakes, List.mem_filterMap, Option.ite_none_right_eq_some, Option.some.injEq]
  constructor
  · rintro ⟨⟨source, target, label⟩, hedge, ⟨rfl, rfl⟩, rfl⟩
    exact hedge
  · intro hedge
    exact ⟨_, hedge, ⟨rfl, rfl⟩, rfl⟩

theorem child?_eq_head? (graph : ScopeGraph) (parent : ScopeId) (hname : name ≠ "") :
    graph.child? parent name = (graph.namesakes parent name).head? := by
  rw [namesakes, List.head?_filterMap, child?]
  congr 1
  funext edge
  cases hlabel : edge.label with
  | contains label =>
      have hsame : label ≠ "" ∧ label = name ↔ label = name :=
        and_iff_right_of_imp fun heq => heq ▸ hname
      simp [hsame]
  | inherits => simp
  | pullsIn label => simp

theorem child?_no_name (graph : ScopeGraph) (parent : ScopeId) : graph.child? parent "" = none := by
  rw [child?, List.findSome?_eq_none_iff]
  intro edge _
  cases edge.label with
  | contains label => simp
  | inherits => rfl
  | pullsIn label => rfl

theorem name_ne_of_child? (hchild : graph.child? parent name = some child) : name ≠ "" := by
  rintro rfl
  rw [child?_no_name] at hchild
  cases hchild

theorem mem_namesakes_of_child? (hchild : graph.child? parent name = some child) :
    child ∈ graph.namesakes parent name := by
  rw [child?_eq_head? graph parent (name_ne_of_child? hchild)] at hchild
  exact List.mem_of_mem_head? hchild

end Children

/-! ## One change -/

section Change

variable {graph grown : ScopeGraph} {links : List Edge} {parent : ScopeId} {name : String}

/-- Edges of inheritance and pull-ins make no children. -/
theorem namesakes_of_links (hedges : grown.edges = links ++ graph.edges)
    (hlinks : ∀ edge ∈ links, edge.isContainment = false) (parent : ScopeId) (name : String) :
    grown.namesakes parent name = graph.namesakes parent name := by
  have hnothing : links.filterMap (fun edge =>
      if edge.source = parent ∧ edge.label = .contains name then some edge.target else none) =
        [] := by
    rw [List.filterMap_eq_nil_iff]
    intro edge hedge
    refine if_neg fun hchild => ?_
    have hcontainment := hlinks edge hedge
    rw [Edge.isContainment, hchild.2] at hcontainment
    cases hcontainment
  rw [namesakes, hedges, List.filterMap_append, hnothing, List.nil_append, namesakes]

/-- A new child is the newest of its name. -/
theorem namesakes_withChild (graph : ScopeGraph) (place : ScopeId) (label : String)
    (kind : ScopeKind) (parent : ScopeId) (name : String) :
    (graph.withChild place label kind).namesakes parent name =
      if place = parent ∧ label = name then ⟨graph.size⟩ :: graph.namesakes parent name
      else graph.namesakes parent name := by
  rw [namesakes, edges_withChild, List.filterMap_cons]
  by_cases hhere : place = parent ∧ label = name
  · rw [if_pos (by simpa using hhere), if_pos hhere, namesakes]
  · rw [if_neg (by simpa using hhere), if_neg hhere, namesakes]

/-- A new class is a new child with edges to its bases. -/
theorem namesakes_withClass (graph : ScopeGraph) (place : ScopeId) (label : String)
    (bases : List Fingerprint) (bodies : List ScopeId) (parent : ScopeId) (name : String) :
    (graph.withClass place label bases bodies).namesakes parent name =
      if place = parent ∧ label = name then ⟨graph.size⟩ :: graph.namesakes parent name
      else graph.namesakes parent name := by
  rw [← namesakes_withChild graph place label .space]
  refine namesakes_of_links (edges_withClass ..) ?_ parent name
  intro edge hedge
  obtain ⟨_, _, rfl⟩ := List.mem_map.mp (List.mem_reverse.mp hedge)
  rfl

/-- The children of a name are a class, if there is one, before a namespace, if there is one.
The type of the class is the one that the name stands for. -/
def ClassThenSpace (graph : ScopeGraph) (parent : ScopeId) (name : String) : Prop :=
  ∃ body space : Option ScopeId,
    graph.namesakes parent name = body.toList ++ space.toList ∧
      (∀ scope ∈ body, graph.kind? scope = some (.classBody (graph.typeIn parent name))) ∧
      ∀ scope ∈ space, graph.kind? scope = some .space

theorem Grounded.holds_namesake (hgrounded : graph.Grounded) {child : ScopeId}
    (hchild : child ∈ graph.namesakes parent name) :
    graph.holds parent = true ∧ graph.holds child = true :=
  hgrounded.edge_held _ (mem_namesakes_iff.mp hchild)

/-- A namespace is made where nothing has the name. -/
theorem classThenSpace_withChild (hname : name ≠ "")
    (hnew : graph.child? parent name = none) :
    (graph.withChild parent name .space).ClassThenSpace parent name := by
  rw [child?_eq_head? graph parent hname, List.head?_eq_none_iff] at hnew
  refine ⟨none, some ⟨graph.size⟩, ?_, by simp, ?_⟩
  · rw [namesakes_withChild, if_pos ⟨rfl, rfl⟩, hnew]
    rfl
  · intro scope hscope
    obtain rfl := Option.some.inj hscope
    exact kind?_append_new rfl

variable (hgrounded : graph.Grounded)
include hgrounded

theorem Grounded.typeIn_eq (hkept : ScopesKept graph grown) (hparent : graph.holds parent = true)
    (name : String) : grown.typeIn parent name = graph.typeIn parent name := by
  have hsources := fun edge hedge => (hgrounded.edge_held edge hedge).1
  rw [typeIn, hkept.qualify_eq hsources hparent, typeIn]

/-- Old children keep their kinds, and their parent the type that the name stands for. -/
theorem ClassThenSpace.of_same (hordered : graph.ClassThenSpace parent name)
    (hkept : ScopesKept graph grown)
    (hsame : grown.namesakes parent name = graph.namesakes parent name) :
    grown.ClassThenSpace parent name := by
  obtain ⟨body, space, hchildren, hbody, hspace⟩ := hordered
  refine ⟨body, space, hsame.trans hchildren, ?_, ?_⟩
  · intro scope hscope
    have hchild : scope ∈ graph.namesakes parent name := by
      rw [hchildren]
      exact List.mem_append_left _ (Option.mem_toList.mpr hscope)
    obtain ⟨hparent, hheld⟩ := hgrounded.holds_namesake hchild
    rw [hkept.kind_eq scope hheld, hbody scope hscope, hgrounded.typeIn_eq hkept hparent]
  · intro scope hscope
    have hchild : scope ∈ graph.namesakes parent name := by
      rw [hchildren]
      exact List.mem_append_right _ (Option.mem_toList.mpr hscope)
    obtain ⟨_, hheld⟩ := hgrounded.holds_namesake hchild
    rw [hkept.kind_eq scope hheld, hspace scope hscope]

/-- A class comes before the namespace of its name, and no class was there: its type would be
taken. -/
theorem ClassThenSpace.withClass (hordered : graph.ClassThenSpace parent name)
    (hhierarchy : graph.Hierarchy) (hparent : graph.holds parent = true)
    (bases : List Fingerprint) (bodies : List ScopeId)
    (hkept : ScopesKept graph (graph.withClass parent name bases bodies))
    (hfresh : graph.registered? (graph.typeIn parent name) = none) :
    (graph.withClass parent name bases bodies).ClassThenSpace parent name := by
  obtain ⟨body, space, hchildren, hbody, hspace⟩ := hordered
  have hnoClass : body = none := by
    rw [Option.eq_none_iff_forall_ne_some]
    intro scope hscope
    have htaken := hhierarchy.class_body scope _ (hbody scope hscope)
    rw [body?, hfresh] at htaken
    cases htaken
  subst hnoClass
  refine ⟨some ⟨graph.size⟩, space, ?_, ?_, ?_⟩
  · rw [namesakes_withClass, if_pos ⟨rfl, rfl⟩, hchildren]
    rfl
  · intro scope hscope
    obtain rfl := Option.some.inj hscope
    rw [kind?_append_new (scopes_withClass ..), hgrounded.typeIn_eq hkept hparent]
  · intro scope hscope
    exact kind?_append_of_eq_some (scopes_withClass ..) (hspace scope hscope)

theorem ClassThenSpace.extend {accepts : Signature → Prop} (hname : name ≠ "")
    (hhierarchy : graph.Hierarchy) (hextension : Extension accepts graph grown)
    (hordered : graph.ClassThenSpace parent name) : grown.ClassThenSpace parent name := by
  have hkept := hextension.scopesKept
  cases hextension with
  | space place label _ hnew =>
      by_cases hhere : place = parent ∧ label = name
      · obtain ⟨rfl, rfl⟩ := hhere
        exact classThenSpace_withChild hname hnew
      · refine hordered.of_same hgrounded hkept ?_
        rw [namesakes_withChild, if_neg hhere]
  | block place =>
      refine hordered.of_same hgrounded hkept ?_
      rw [namesakes_withChild, if_neg fun hhere => hname hhere.2.symm]
  | pull scope label source =>
      refine hordered.of_same hgrounded hkept ?_
      have hedges : (graph.addEdge ⟨scope, source, .pullsIn label⟩).edges =
          [⟨scope, source, .pullsIn label⟩] ++ graph.edges := rfl
      exact namesakes_of_links hedges (by simp [Edge.isContainment]) parent name
  | plainType => exact hordered.of_same hgrounded hkept rfl
  | classType place label bases bodies hplace _ hfresh =>
      by_cases hhere : place = parent ∧ label = name
      · obtain ⟨rfl, rfl⟩ := hhere
        exact hordered.withClass hgrounded hhierarchy hplace bases bodies hkept hfresh
      · refine hordered.of_same hgrounded hkept ?_
        rw [namesakes_withClass, if_neg hhere]
  | signature signature space =>
      refine hordered.of_same hgrounded hkept ?_
      rw [namesakes, edges_withSignature, namesakes]

end Change

theorem classThenSpace_of_no_edges {graph : ScopeGraph} (hedges : graph.edges = [])
    (parent : ScopeId) (name : String) : graph.ClassThenSpace parent name := by
  refine ⟨none, none, ?_, by simp, by simp⟩
  rw [namesakes, hedges]
  rfl

/-- In every history a name stands for at most one class and at most one namespace. -/
theorem Built.classThenSpace {graph : ScopeGraph} (hbuilt : graph.Built) (parent : ScopeId)
    {name : String} (hname : name ≠ "") : graph.ClassThenSpace parent name := by
  -- A class makes sure of its type, so the induction carries the classes along.
  suffices hboth : graph.Hierarchy ∧ graph.ClassThenSpace parent name from hboth.2
  refine hbuilt.induct (motive := fun graph => graph.Hierarchy ∧ graph.ClassThenSpace parent name)
    ⟨Built.hierarchy ⟨[], Or.inl rfl⟩, classThenSpace_of_no_edges rfl parent name⟩
    ⟨Built.hierarchy ⟨[], Or.inr rfl⟩, classThenSpace_of_no_edges rfl parent name⟩ ?_
  rintro graph grown hgrounded hextension ⟨hhierarchy, hordered⟩
  exact ⟨hhierarchy.extend hgrounded hextension,
    hordered.extend hgrounded hname hhierarchy hextension⟩

/-! ## Where a scope is contained -/

/-- The name of a scope is read off the edges that contain it. -/
theorem ownName?_eq_findSome? (graph : ScopeGraph) (scope : ScopeId) :
    graph.ownName? scope = (graph.containers scope).findSome? Edge.givenName? := by
  unfold ownName? containers
  induction graph.edges with
  | nil => rfl
  | cons edge rest ih =>
      obtain ⟨source, target, label⟩ := edge
      rw [List.findSome?_cons, List.filter_cons, ih]
      cases label with
      | contains name =>
          by_cases htarget : target = scope
          · simp [Edge.isContainment, Edge.givenName?, htarget, List.findSome?_cons]
          · simp [Edge.isContainment, htarget]
      | inherits => simp [Edge.isContainment]
      | pullsIn name => simp [Edge.isContainment]

section Place

variable {graph : ScopeGraph} (hforest : graph.Forest) (hgrounded : graph.Grounded)
include hforest hgrounded

/-- A scope has one place: it is a child of its outer scope, under its own name. -/
theorem Forest.mem_namesakes_iff_placed {outer scope : ScopeId} {name : String}
    (hname : name ≠ "") :
    scope ∈ graph.namesakes outer name ↔
      graph.outer? scope = some outer ∧ graph.ownName? scope = some name := by
  rw [outer?_eq_head?, ownName?_eq_findSome?]
  constructor
  · intro hchild
    have hedge : ⟨outer, scope, .contains name⟩ ∈ graph.containers scope := by
      refine List.mem_filter.mpr ⟨mem_namesakes_iff.mp hchild, ?_⟩
      simp [Edge.isContainment]
    rw [(hforest.containers_of_mem hgrounded hedge).1]
    simp [Edge.givenName?, hname]
  · rintro ⟨houter, hown⟩
    obtain ⟨edge, hhead, rfl⟩ := Option.map_eq_some_iff.mp houter
    have hedge : edge ∈ graph.containers scope := List.mem_of_mem_head? hhead
    rw [(hforest.containers_of_mem hgrounded hedge).1, List.findSome?_singleton] at hown
    obtain ⟨hmem, hcontained⟩ := List.mem_filter.mp hedge
    obtain ⟨source, target, label⟩ := edge
    obtain rfl : target = scope := by simpa using (Bool.and_eq_true_iff.mp hcontained).2
    cases label with
    | contains own =>
        simp only [Edge.givenName?, Option.ite_none_right_eq_some, Option.some.injEq] at hown
        exact mem_namesakes_iff.mpr (hown.2 ▸ hmem)
    | inherits => cases hown
    | pullsIn own => cases hown

/-- A child that is found lies in its parent and has the name. -/
theorem Forest.placed_of_child? {parent child : ScopeId} {name : String}
    (hchild : graph.child? parent name = some child) :
    graph.outer? child = some parent ∧ graph.ownName? child = some name :=
  (hforest.mem_namesakes_iff_placed hgrounded (name_ne_of_child? hchild)).mp
    (mem_namesakes_of_child? hchild)

end Place

theorem ownName?_ne_empty {graph : ScopeGraph} {scope : ScopeId} {name : String}
    (hname : graph.ownName? scope = some name) : name ≠ "" := by
  rw [ownName?_eq_findSome?] at hname
  obtain ⟨edge, _, hgiven⟩ := List.exists_of_findSome?_eq_some hname
  unfold Edge.givenName? at hgiven
  cases hlabel : edge.label with
  | contains own =>
      simp only [hlabel, Option.ite_none_right_eq_some, Option.some.injEq] at hgiven
      exact hgiven.2 ▸ hgiven.1
  | inherits => simp [hlabel] at hgiven
  | pullsIn own => simp [hlabel] at hgiven

/-! ## Classes in the place of namespaces -/

/-- The scope has a name, and a class is contained where the scope is, under this name.  The
class may be the scope itself. -/
def ClassInPlace (graph : ScopeGraph) (scope : ScopeId) : Prop :=
  (graph.ownName? scope).isSome = true ∧
    ∃ body, graph.outer? body = graph.outer? scope ∧ graph.ownName? body = graph.ownName? scope ∧
      ∃ type, graph.kind? body = some (.classBody type)

instance (kind : Option ScopeKind) : Decidable (∃ type, kind = some (.classBody type)) :=
  match kind with
  | some (.classBody type) => .isTrue ⟨type, rfl⟩
  | some .space => .isFalse (by simp)
  | some .block => .isFalse (by simp)
  | none => .isFalse (by simp)

/-- Only scopes of the graph can be classes. -/
theorem classInPlace_iff_exists_index (graph : ScopeGraph) (scope : ScopeId) :
    graph.ClassInPlace scope ↔ (graph.ownName? scope).isSome = true ∧
      ∃ index, index < graph.size ∧ graph.outer? ⟨index⟩ = graph.outer? scope ∧
        graph.ownName? ⟨index⟩ = graph.ownName? scope ∧
          ∃ type, graph.kind? ⟨index⟩ = some (.classBody type) := by
  refine and_congr_right fun _ => ⟨?_, ?_⟩
  · rintro ⟨body, houter, hname, type, hkind⟩
    have hheld := (graph.holds_iff body).mp (holds_of_kind? hkind)
    exact ⟨body.index, hheld, houter, hname, type, hkind⟩
  · rintro ⟨index, _, hclass⟩
    exact ⟨⟨index⟩, hclass⟩

instance (graph : ScopeGraph) (scope : ScopeId) : Decidable (graph.ClassInPlace scope) :=
  decidable_of_iff' _ (graph.classInPlace_iff_exists_index scope)

theorem Forest.classInPlace_iff {graph : ScopeGraph} (hforest : graph.Forest)
    (hgrounded : graph.Grounded) {parent child : ScopeId} {name : String}
    (houter : graph.outer? child = some parent) (hown : graph.ownName? child = some name) :
    graph.ClassInPlace child ↔
      ∃ body ∈ graph.namesakes parent name, ∃ type, graph.kind? body = some (.classBody type) := by
  have hplaced : ∀ body, body ∈ graph.namesakes parent name ↔
      graph.outer? body = some parent ∧ graph.ownName? body = some name := fun _ =>
    hforest.mem_namesakes_iff_placed hgrounded (ownName?_ne_empty hown)
  simp only [ClassInPlace, houter, hown, hplaced, Option.isSome_some, true_and, and_assoc]

section Found

variable {graph : ScopeGraph} (hbuilt : graph.Built) {parent child : ScopeId} {name : String}
include hbuilt

/-- A child is found by its name unless it is a namespace with a class in its place. -/
theorem Built.child?_eq_some_iff :
    graph.child? parent name = some child ↔
      graph.outer? child = some parent ∧ graph.ownName? child = some name ∧
        (graph.kind? child = some .space → ¬ graph.ClassInPlace child) := by
  have hforest := hbuilt.forest
  have hgrounded := hbuilt.grounded
  constructor
  · intro hchild
    have hname := name_ne_of_child? hchild
    obtain ⟨houter, hown⟩ := hforest.placed_of_child? hgrounded hchild
    refine ⟨houter, hown, fun hkind hclass => ?_⟩
    obtain ⟨body, hbody, type, htype⟩ := (hforest.classInPlace_iff hgrounded houter hown).mp hclass
    obtain ⟨first, second, hchildren, _, hsecond⟩ := hbuilt.classThenSpace parent hname
    rw [hchildren, List.mem_append, Option.mem_toList, Option.mem_toList] at hbody
    rcases hbody with hbody | hbody
    · rw [child?_eq_head? graph parent hname, hchildren, Option.mem_def.mp hbody] at hchild
      obtain rfl := Option.some.inj hchild
      rw [hkind] at htype
      cases htype
    · rw [hsecond body hbody] at htype
      cases htype
  · rintro ⟨houter, hown, hspace⟩
    have hname := ownName?_ne_empty hown
    have hchild := (hforest.mem_namesakes_iff_placed hgrounded hname).mpr ⟨houter, hown⟩
    obtain ⟨first, second, hchildren, hfirst, hsecond⟩ := hbuilt.classThenSpace parent hname
    rw [child?_eq_head? graph parent hname, hchildren]
    rw [hchildren, List.mem_append, Option.mem_toList, Option.mem_toList] at hchild
    rcases hchild with hchild | hchild
    · rw [Option.mem_def.mp hchild]
      rfl
    · have hnoClass : first = none := by
        rw [Option.eq_none_iff_forall_ne_some]
        intro body hbody
        refine hspace (hsecond child hchild)
          ((hforest.classInPlace_iff hgrounded houter hown).mpr ⟨body, ?_, _, hfirst body hbody⟩)
        rw [hchildren]
        exact List.mem_append_left _ (Option.mem_toList.mpr hbody)
      rw [hnoClass, Option.mem_def.mp hchild]
      rfl

/-- What is found by a name is a namespace unless a class is in its place. -/
theorem Built.kind?_eq_space_iff (hchild : graph.child? parent name = some child) :
    graph.kind? child = some .space ↔ ¬ graph.ClassInPlace child := by
  obtain ⟨houter, hown, hspace⟩ := hbuilt.child?_eq_some_iff.mp hchild
  refine ⟨hspace, fun hnoClass => ?_⟩
  obtain ⟨first, second, hchildren, hfirst, hsecond⟩ :=
    hbuilt.classThenSpace parent (name_ne_of_child? hchild)
  have hmem := mem_namesakes_of_child? hchild
  rw [hchildren, List.mem_append, Option.mem_toList, Option.mem_toList] at hmem
  rcases hmem with hmem | hmem
  · refine absurd ⟨?_, child, rfl, rfl, _, hfirst child hmem⟩ hnoClass
    rw [hown]
    rfl
  · exact hsecond child hmem

end Found

end ScopeGraph
end CallResolution
