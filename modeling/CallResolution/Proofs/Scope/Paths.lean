import Mathlib.Tactic
import CallResolution.Proofs.Scope.Namesakes
import CallResolution.Proofs.Scope.Outwards

/-!
# Paths of names

Entering a path follows it from the root and makes the namespaces that are missing.  The scope
at its end has the path as its own.  Entering the path again, or following it, leads back to
this scope as long as no class comes to stand in the place of a scope on the way.

A class that takes the place of a namespace is what the path leads to from then on.  If the
class was there first, no namespace is made.  Names are not empty here: a child without a name
is never found, so entering an empty name makes a new namespace every time.
-/

namespace CallResolution
namespace ScopeGraph

/-! ## New namespaces -/

section New

variable {graph : ScopeGraph} {place parent child : ScopeId} {label name : String}

theorem child?_withChild_new (hname : name ≠ "") (kind : ScopeKind) :
    (graph.withChild parent name kind).child? parent name = some ⟨graph.size⟩ := by
  rw [child?_eq_head? _ parent hname, namesakes_withChild, if_pos ⟨rfl, rfl⟩, List.head?_cons]

/-- A child that is made where none is found takes no place. -/
theorem child?_withChild_old (hnew : graph.child? place label = none) (kind : ScopeKind)
    (hchild : graph.child? parent name = some child) :
    (graph.withChild place label kind).child? parent name = some child := by
  have hname := name_ne_of_child? hchild
  have helsewhere : ¬ (place = parent ∧ label = name) := by
    rintro ⟨rfl, rfl⟩
    rw [hchild] at hnew
    cases hnew
  rw [child?_eq_head? _ parent hname, namesakes_withChild, if_neg helsewhere,
    ← child?_eq_head? graph parent hname, hchild]

/-- A scope that was just made has no children. -/
theorem Grounded.child?_withChild_eq_none (hgrounded : graph.Grounded)
    (hplace : graph.holds place = true) (kind : ScopeKind) (name : String) :
    (graph.withChild place label kind).child? ⟨graph.size⟩ name = none := by
  rw [Option.eq_none_iff_forall_ne_some]
  intro child hchild
  have hmem := mem_namesakes_of_child? hchild
  have helsewhere : ¬ (place = ⟨graph.size⟩ ∧ label = name) := by
    rintro ⟨rfl, _⟩
    exact Nat.lt_irrefl _ ((graph.holds_iff _).mp hplace)
  rw [namesakes_withChild, if_neg helsewhere] at hmem
  exact Nat.lt_irrefl _ ((graph.holds_iff _).mp (hgrounded.holds_namesake hmem).1)

end New

theorem follow?_cons_eq_some_iff {graph : ScopeGraph} {start last : ScopeId} {name : String}
    {rest : List String} :
    graph.follow? start (name :: rest) = some last ↔
      ∃ child, graph.child? start name = some child ∧ graph.follow? child rest = some last :=
  Option.bind_eq_some_iff

end ScopeGraph

namespace Registration

open ScopeGraph

variable {graph grown : ScopeGraph} {start last : ScopeId} {path : List String}

theorem perform_childOrNew_of_found {parent child : ScopeId} {name : String}
    (hchild : graph.child? parent name = some child) :
    (childOrNew parent name).perform graph = (.ok child, graph) := by
  rw [perform_childOrNew, hchild]

theorem perform_childOrNew_of_missing {parent : ScopeId} {name : String}
    (hmissing : graph.child? parent name = none) :
    (childOrNew parent name).perform graph =
      (.ok ⟨graph.size⟩, graph.withChild parent name .space) := by
  rw [perform_childOrNew, hmissing]

/-- The scope that entering a path answers is the one that the path leads to afterwards. -/
theorem follow?_of_perform_path (hnames : ∀ name ∈ path, name ≠ "")
    (hperform : (path.foldlM childOrNew start).perform graph = (.ok last, grown)) :
    grown.follow? start path = some last := by
  -- The first step leads on in the last graph because later steps take no child's place.
  suffices hboth : grown.follow? start path = some last ∧ ∀ parent name child,
      graph.child? parent name = some child → grown.child? parent name = some child from hboth.1
  induction path generalizing graph start with
  | nil =>
      cases hperform
      exact ⟨rfl, fun _ _ _ hchild => hchild⟩
  | cons name rest ih =>
      have hname : name ≠ "" := hnames name List.mem_cons_self
      have hmore := fun other hother => hnames other (List.mem_cons_of_mem _ hother)
      rw [List.foldlM_cons] at hperform
      cases hfound : graph.child? start name with
      | some child =>
          rw [perform_bind_of_ok (perform_childOrNew_of_found hfound)] at hperform
          obtain ⟨hfollow, hkeeps⟩ := ih hmore hperform
          exact ⟨follow?_cons_eq_some_iff.mpr ⟨child, hkeeps _ _ _ hfound, hfollow⟩, hkeeps⟩
      | none =>
          rw [perform_bind_of_ok (perform_childOrNew_of_missing hfound)] at hperform
          obtain ⟨hfollow, hkeeps⟩ := ih hmore hperform
          refine ⟨follow?_cons_eq_some_iff.mpr ⟨_, ?_, hfollow⟩, ?_⟩
          · exact hkeeps _ _ _ (child?_withChild_new hname .space)
          · intro parent label child hchild
            exact hkeeps _ _ _ (child?_withChild_old hfound .space hchild)

/-- Entering a path that leads somewhere changes nothing. -/
theorem perform_path_of_follow? (hfollow : graph.follow? start path = some last) :
    (path.foldlM childOrNew start).perform graph = (.ok last, graph) := by
  induction path generalizing start with
  | nil =>
      obtain rfl := Option.some.inj hfollow
      rfl
  | cons name rest ih =>
      obtain ⟨child, hchild, hrest⟩ := follow?_cons_eq_some_iff.mp hfollow
      rw [List.foldlM_cons, perform_bind_of_ok (perform_childOrNew_of_found hchild)]
      exact ih hrest

/-- Entering a path answers an old scope only if the path leads there. -/
theorem follow?_of_perform_path_held (hgrounded : graph.Grounded)
    (hstart : graph.holds start = true) (hlast : graph.holds last = true)
    (hperform : (path.foldlM childOrNew start).perform graph = (.ok last, grown)) :
    graph.follow? start path = some last := by
  induction path generalizing graph start with
  | nil =>
      cases hperform
      rfl
  | cons name rest ih =>
      rw [List.foldlM_cons] at hperform
      cases hfound : graph.child? start name with
      | some child =>
          rw [perform_bind_of_ok (perform_childOrNew_of_found hfound)] at hperform
          exact follow?_cons_eq_some_iff.mpr
            ⟨child, hfound, ih hgrounded (hgrounded.holds_child hfound) hlast hperform⟩
      | none =>
          -- From a scope that was just made nothing old is reached.
          rw [perform_bind_of_ok (perform_childOrNew_of_missing hfound)] at hperform
          have hextension : Extension (fun _ => True) graph (graph.withChild start name .space) :=
            .space start name hstart hfound
          have hfollow := ih (hgrounded.extend hextension) (by simp [holds, size])
            (hextension.holds_of_holds hlast) hperform
          cases rest with
          | nil =>
              obtain rfl := Option.some.inj hfollow
              exact absurd ((graph.holds_iff _).mp hlast) (Nat.lt_irrefl _)
          | cons next others =>
              obtain ⟨child, hchild, _⟩ := follow?_cons_eq_some_iff.mp hfollow
              rw [hgrounded.child?_withChild_eq_none hstart] at hchild
              cases hchild

/-- Entering a path answers an old scope if and only if the path leads there. -/
theorem perform_enterPath_eq_ok_iff (hgrounded : graph.Grounded)
    (hlast : graph.holds last = true) :
    ((enterPath path).perform graph).1 = .ok last ↔ graph.atPath? path = some last := by
  have hroot : graph.holds ScopeId.root = true := (graph.holds_iff _).mpr hgrounded.size_pos
  constructor
  · intro hanswer
    exact follow?_of_perform_path_held hgrounded hroot hlast (Prod.ext hanswer rfl)
  · intro hpath
    exact congrArg Prod.fst (perform_path_of_follow? hpath)

/-- Entering a namespace answers an old scope if and only if the name leads there. -/
theorem perform_enterSpace_eq_ok_iff {parent child : ScopeId} {name : String}
    (hparent : graph.holds parent = true) (hchild : graph.holds child = true) :
    ((enterSpace parent name).perform graph).1 = .ok child ↔
      graph.child? parent name = some child := by
  rw [perform_enterSpace, if_pos hparent, perform_childOrNew]
  cases graph.child? parent name with
  | some found => simp
  | none =>
      refine iff_of_false (fun hanswer => ?_) (by simp)
      obtain rfl := Except.ok.inj hanswer
      exact Nat.lt_irrefl _ ((graph.holds_iff _).mp hchild)

end Registration

namespace ScopeGraph

/-! ## The scopes on a path -/

theorem mem_enclosing_self (graph : ScopeGraph) (scope : ScopeId) :
    scope ∈ graph.enclosing scope := by
  unfold enclosing
  cases scope.index with
  | zero => exact List.mem_singleton_self scope
  | succ steps =>
      rw [climb]
      cases graph.outer? scope with
      | none => exact List.mem_singleton_self scope
      | some outer => exact List.mem_cons_self

section Path

variable {graph : ScopeGraph} (hbuilt : graph.Built)
include hbuilt

theorem Built.enclosing_of_child? {parent child : ScopeId} {name : String}
    (hchild : graph.child? parent name = some child) :
    graph.enclosing child = child :: graph.enclosing parent :=
  hbuilt.forest.enclosing_of_outer hbuilt.grounded
    (hbuilt.forest.placed_of_child? hbuilt.grounded hchild).1

theorem Built.outer?_root : graph.outer? ScopeId.root = none := by
  rw [outer?_eq_head?, hbuilt.forest.root_outermost]
  rfl

theorem Built.ownName?_root : graph.ownName? ScopeId.root = none := by
  rw [ownName?_eq_findSome?, hbuilt.forest.root_outermost]
  rfl

theorem Built.pathNames_root : graph.pathNames ScopeId.root = [] := by
  rw [pathNames, enclosing_of_outermost hbuilt.outer?_root, List.filterMap_cons,
    hbuilt.ownName?_root]
  rfl

variable {start scope : ScopeId} {path : List String}

theorem Built.pathNames_of_follow? (hfollow : graph.follow? start path = some scope) :
    graph.pathNames scope = graph.pathNames start ++ path := by
  induction path generalizing start with
  | nil =>
      obtain rfl := Option.some.inj hfollow
      rw [List.append_nil]
  | cons name rest ih =>
      obtain ⟨child, hchild, hrest⟩ := follow?_cons_eq_some_iff.mp hfollow
      have hown := (hbuilt.forest.placed_of_child? hbuilt.grounded hchild).2
      have hfirst : graph.pathNames child = graph.pathNames start ++ [name] := by
        rw [pathNames, hbuilt.enclosing_of_child? hchild, List.filterMap_cons, hown,
          List.reverse_cons, pathNames]
      rw [ih hrest, hfirst, List.append_assoc, List.singleton_append]

/-- The scopes around the start are around the end, and each of the others is found by its
name. -/
theorem Built.mem_enclosing_of_follow? (hfollow : graph.follow? start path = some scope) :
    (∀ inner ∈ graph.enclosing start, inner ∈ graph.enclosing scope) ∧
      ∀ inner ∈ graph.enclosing scope, inner ∈ graph.enclosing start ∨
        ∃ outer name, graph.child? outer name = some inner := by
  induction path generalizing start with
  | nil =>
      obtain rfl := Option.some.inj hfollow
      exact ⟨fun _ hinner => hinner, fun _ hinner => Or.inl hinner⟩
  | cons name rest ih =>
      obtain ⟨child, hchild, hrest⟩ := follow?_cons_eq_some_iff.mp hfollow
      obtain ⟨haround, hfound⟩ := ih hrest
      rw [hbuilt.enclosing_of_child? hchild] at haround hfound
      refine ⟨fun inner hinner => haround inner (List.mem_cons_of_mem _ hinner), ?_⟩
      intro inner hinner
      rcases hfound inner hinner with hmem | hchildOf
      · rcases List.mem_cons.mp hmem with rfl | hmem
        · exact Or.inr ⟨start, name, hchild⟩
        · exact Or.inl hmem
      · exact Or.inr hchildOf

/-- On a path from the root every scope but the root is found by its name. -/
theorem Built.child?_of_atPath? (hpath : graph.atPath? path = some scope) {inner : ScopeId}
    (hinner : inner ∈ graph.enclosing scope) (hroot : inner ≠ ScopeId.root) :
    ∃ outer name, graph.child? outer name = some inner := by
  rcases (hbuilt.mem_enclosing_of_follow? hpath).2 inner hinner with hmem | hfound
  · rw [root, enclosing_of_outermost hbuilt.outer?_root] at hmem
    exact absurd (List.mem_singleton.mp hmem) hroot
  · exact hfound

theorem Built.ne_root_of_atPath? (hpath : graph.atPath? path = some scope) (hnonempty : path ≠ []) :
    scope ≠ ScopeId.root := by
  rintro rfl
  have hnames := hbuilt.pathNames_of_follow? hpath
  rw [root, hbuilt.pathNames_root, List.nil_append] at hnames
  exact hnonempty hnames.symm

end Path

/-! ## What is found later -/

/-- The later graph has classes in the place of these scopes only where the first one has. -/
def PlacesKept (graph later : ScopeGraph) (scopes : List ScopeId) : Prop :=
  ∀ scope ∈ scopes, later.ClassInPlace scope → graph.ClassInPlace scope

instance (graph later : ScopeGraph) (scopes : List ScopeId) :
    Decidable (PlacesKept graph later scopes) :=
  inferInstanceAs (Decidable (∀ scope ∈ scopes, _))

section Later

variable {graph later : ScopeGraph} (hbuilt : graph.Built) (hlater : later.Built)
  (hkept : ScopesKept graph later)
include hbuilt hlater hkept

/-- A child is found later unless a class has come to stand in its place. -/
theorem Built.child?_later_iff {parent child : ScopeId} {name : String}
    (hchild : graph.child? parent name = some child) :
    later.child? parent name = some child ↔
      (later.ClassInPlace child → graph.ClassInPlace child) := by
  have hheld := hbuilt.grounded.holds_child hchild
  obtain ⟨houter, hown, _⟩ := hbuilt.child?_eq_some_iff.mp hchild
  rw [hlater.child?_eq_some_iff, hkept.outer?_eq hheld, hkept.ownName?_eq hheld,
    hkept.kind_eq child hheld, hbuilt.kind?_eq_space_iff hchild, not_imp_not]
  simp [houter, hown]

variable {start scope : ScopeId} {path : List String}

theorem Built.follow?_later (hfollow : graph.follow? start path = some scope)
    (hplaces : PlacesKept graph later (graph.enclosing scope)) :
    later.follow? start path = some scope := by
  induction path generalizing start with
  | nil => exact hfollow
  | cons name rest ih =>
      obtain ⟨child, hchild, hrest⟩ := follow?_cons_eq_some_iff.mp hfollow
      have hinner : child ∈ graph.enclosing scope :=
        (hbuilt.mem_enclosing_of_follow? hrest).1 child (graph.mem_enclosing_self child)
      have hsame := (hbuilt.child?_later_iff hlater hkept hchild).mpr (hplaces child hinner)
      exact follow?_cons_eq_some_iff.mpr ⟨child, hsame, ih hrest⟩

/-- A path leads to the same scope later unless a class has come to stand on the way. -/
theorem Built.atPath?_later_iff (hpath : graph.atPath? path = some scope)
    (hheld : graph.holds scope = true) :
    later.atPath? path = some scope ↔ PlacesKept graph later (graph.enclosing scope) := by
  refine ⟨fun hagain inner hinner hclass => ?_, hbuilt.follow?_later hlater hkept hpath⟩
  have hroot : inner ≠ ScopeId.root := by
    rintro rfl
    rw [ClassInPlace, hlater.ownName?_root] at hclass
    cases hclass.1
  have hsources := fun edge hedge => (hbuilt.grounded.edge_held edge hedge).1
  have henclosing : later.enclosing scope = graph.enclosing scope :=
    hkept.climb_eq hsources hheld scope.index
  obtain ⟨outer, name, hchild⟩ := hbuilt.child?_of_atPath? hpath hinner hroot
  obtain ⟨laterOuter, laterName, hlaterChild⟩ :=
    hlater.child?_of_atPath? hagain (henclosing ▸ hinner) hroot
  -- The scope keeps its place, so it is the same parent and the same name both times.
  obtain ⟨houter, hown⟩ := hbuilt.forest.placed_of_child? hbuilt.grounded hchild
  obtain ⟨hlaterOuter, hlaterOwn⟩ := hlater.forest.placed_of_child? hlater.grounded hlaterChild
  have hinnerHeld := hbuilt.grounded.holds_child hchild
  rw [hkept.outer?_eq hinnerHeld, houter] at hlaterOuter
  rw [hkept.ownName?_eq hinnerHeld, hown] at hlaterOwn
  obtain rfl := Option.some.inj hlaterOuter
  obtain rfl := Option.some.inj hlaterOwn
  exact (hbuilt.child?_later_iff hlater hkept hchild).mp hlaterChild hclass

end Later

/-! ## Entering -/

section Enter

variable {graph grown : ScopeGraph} (hbuilt : graph.Built)
include hbuilt

/-- A step that some command takes leaves a built graph. -/
theorem Built.of_perform {step : Registration ScopeId} (command : Command)
    (hcommand : command.registration = Receipt.scope <$> step)
    {answer : Except RegistrationError ScopeId} (hperform : step.perform graph = (answer, grown)) :
    grown.Built := by
  have hrun : Command.runAll [command] graph = grown := by
    show (command.registration.perform graph).2 = grown
    rw [hcommand, Registration.perform_map, hperform]
  exact hrun ▸ hbuilt.runAll [command]

/-- Entering a path never fails and answers the scope that the path leads to. -/
theorem Built.exists_enterPath {path : List String} (hnames : ∀ name ∈ path, name ≠ "") :
    ∃ scope grown, (Registration.enterPath path).perform graph = (.ok scope, grown) ∧
      grown.Built ∧ grown.holds scope = true ∧ grown.atPath? path = some scope := by
  have hroot : graph.holds ScopeId.root = true :=
    (graph.holds_iff _).mpr hbuilt.grounded.size_pos
  obtain ⟨scope, grown, hperform, hheld, _⟩ :=
    @Registration.extensions_enterPath (fun _ => True) graph hbuilt.grounded _ hroot path
  exact ⟨scope, grown, hperform, hbuilt.of_perform (.enterPath path) rfl hperform, hheld,
    Registration.follow?_of_perform_path hnames hperform⟩

/-- Entering a namespace of a scope never fails and answers the child of the name. -/
theorem Built.exists_enterSpace {parent : ScopeId} (hparent : graph.holds parent = true)
    {name : String} (hname : name ≠ "") :
    ∃ child grown, (Registration.enterSpace parent name).perform graph = (.ok child, grown) ∧
      grown.Built ∧ grown.holds parent = true ∧ grown.child? parent name = some child := by
  -- To enter a namespace is to enter a path of one name.
  obtain ⟨child, grown, hperform, _, hextensions⟩ :=
    @Registration.extensions_childOrNew (fun _ => True) graph hbuilt.grounded _ hparent name
  have hpath : ([name].foldlM Registration.childOrNew parent).perform graph =
      (.ok child, grown) := by
    rw [List.foldlM_cons, Registration.perform_bind_of_ok hperform]
    rfl
  have henter : (Registration.enterSpace parent name).perform graph = (.ok child, grown) := by
    rw [Registration.perform_enterSpace, if_pos hparent, hperform]
  obtain ⟨found, hfound, hlast⟩ := follow?_cons_eq_some_iff.mp
    (Registration.follow?_of_perform_path (by simpa using hname) hpath)
  obtain rfl := Option.some.inj hlast
  exact ⟨found, grown, henter, hbuilt.of_perform (.enterSpace parent name) rfl henter,
    hextensions.outlasts.scopes.holds_of_holds hparent, hfound⟩

end Enter

/-- What a path of names leads to.  Entering it answers a scope that has this path.  The scope
is a namespace unless a class is in its place, and the path leads back to it, whatever commands
follow, as long as no class comes to stand in the place of a scope on the way.  The same holds
of a namespace that is entered by its parent and its name, for its own place. -/
theorem paths_lead_back_while_places_kept {graph : ScopeGraph} (hbuilt : graph.Built) :
    (∀ path, path ≠ [] → (∀ name ∈ path, name ≠ "") →
      ∃ scope grown, (Registration.enterPath path).perform graph = (.ok scope, grown) ∧
        grown.pathNames scope = path ∧ grown.atPath? path = some scope ∧
        (grown.kind? scope = some .space ↔ ¬ grown.ClassInPlace scope) ∧
        ∀ commands later, later = Command.runAll commands grown →
          (later.atPath? path = some scope ↔
            PlacesKept grown later (grown.enclosing scope)) ∧
          (((Registration.enterPath path).perform later).1 = .ok scope ↔
            PlacesKept grown later (grown.enclosing scope))) ∧
    ∀ parent name, graph.holds parent = true → name ≠ "" →
      ∃ child grown, (Registration.enterSpace parent name).perform graph = (.ok child, grown) ∧
        grown.outer? child = some parent ∧ grown.ownName? child = some name ∧
        (grown.kind? child = some .space ↔ ¬ grown.ClassInPlace child) ∧
        ∀ commands later, later = Command.runAll commands grown →
          (((Registration.enterSpace parent name).perform later).1 = .ok child ↔
            PlacesKept grown later [child]) := by
  refine ⟨fun path hnonempty hnames => ?_, fun parent name hparent hname => ?_⟩
  · obtain ⟨scope, grown, hperform, hgrown, hheld, hpath⟩ := hbuilt.exists_enterPath hnames
    have hnamesOf : grown.pathNames scope = path := by
      rw [hgrown.pathNames_of_follow? hpath, root, hgrown.pathNames_root, List.nil_append]
    obtain ⟨outer, name, hchild⟩ := hgrown.child?_of_atPath? hpath (grown.mem_enclosing_self scope)
      (hgrown.ne_root_of_atPath? hpath hnonempty)
    refine ⟨scope, grown, hperform, hnamesOf, hpath, hgrown.kind?_eq_space_iff hchild, ?_⟩
    rintro commands later rfl
    have hkept := (hgrown.outlasts commands).scopes
    have hlater := hgrown.runAll commands
    have hiff := hgrown.atPath?_later_iff hlater hkept hpath hheld
    rw [Registration.perform_enterPath_eq_ok_iff hlater.grounded (hkept.holds_of_holds hheld)]
    exact ⟨hiff, hiff⟩
  · obtain ⟨child, grown, hperform, hgrown, hheld, hchild⟩ :=
      hbuilt.exists_enterSpace hparent hname
    obtain ⟨houter, hown⟩ := hgrown.forest.placed_of_child? hgrown.grounded hchild
    refine ⟨child, grown, hperform, houter, hown, hgrown.kind?_eq_space_iff hchild, ?_⟩
    rintro commands later rfl
    have hkept := (hgrown.outlasts commands).scopes
    have hlater := hgrown.runAll commands
    have hchildHeld := hgrown.grounded.holds_child hchild
    rw [Registration.perform_enterSpace_eq_ok_iff (hkept.holds_of_holds hheld)
        (hkept.holds_of_holds hchildHeld), hgrown.child?_later_iff hlater hkept hchild]
    simp [PlacesKept]

/-- A namespace `geo` in which `draw` is a type without a scope. -/
def typedGeometry : ScopeGraph :=
  Command.runAll [.enterPath ["geo"], .newType ⟨1⟩ "draw"] empty

/-- Classes of the names `draw` and `geo` elsewhere, a refused class `geo::draw`, a block, a
pull-in and another namespace. -/
def elsewhereInGeometry : List Command :=
  [.newClass ScopeId.root "draw" [], .newClass ⟨1⟩ "draw" [], .newBlock ⟨2⟩,
    .newClass ⟨4⟩ "geo" [], .pullIn ScopeId.root "area" ⟨2⟩, .enterPath ["geo", "text"]]

/-- What happens elsewhere leaves the path alone.  A class `geo` in the root does not, but the
namespace `draw` is still found in its parent. -/
theorem typedGeometry_leads_back :
    ∃ grown, (Registration.enterPath ["geo", "draw"]).perform typedGeometry = (.ok ⟨2⟩, grown) ∧
      grown.kind? ⟨2⟩ = some .space ∧
      (Command.runAll elsewhereInGeometry grown).atPath? ["geo", "draw"] = some ⟨2⟩ ∧
      (Command.runAll [.newClass ScopeId.root "geo" []] grown).atPath? ["geo", "draw"] ≠
        some ⟨2⟩ ∧
      ((Registration.enterSpace ⟨1⟩ "draw").perform
        (Command.runAll [.newClass ScopeId.root "geo" []] grown)).1 = .ok ⟨2⟩ := by
  have hbuilt : typedGeometry.Built := ⟨_, Or.inl rfl⟩
  obtain ⟨hpaths, hspaces⟩ := paths_lead_back_while_places_kept hbuilt
  obtain ⟨scope, grown, hperform, _, _, hkind, hback⟩ :=
    hpaths ["geo", "draw"] (by decide) (by decide)
  obtain ⟨child, spaced, hspace, _, _, _, hagain⟩ :=
    hspaces ⟨1⟩ "draw" (by decide +kernel) (by decide)
  have hgrown : (Registration.enterPath ["geo", "draw"]).perform typedGeometry =
      (.ok ⟨2⟩, typedGeometry.withChild ⟨1⟩ "draw" .space) := by decide +kernel
  have hspaced : (Registration.enterSpace ⟨1⟩ "draw").perform typedGeometry =
      (.ok ⟨2⟩, typedGeometry.withChild ⟨1⟩ "draw" .space) := by decide +kernel
  rw [hgrown] at hperform
  rw [hspaced] at hspace
  cases hperform
  cases hspace
  refine ⟨_, hgrown, hkind.mpr (by decide +kernel), ?_, fun hsame => ?_, ?_⟩
  · exact (hback elsewhereInGeometry _ rfl).1.mpr (by decide +kernel)
  · have hplaces := (hback [.newClass ScopeId.root "geo" []] _ rfl).1.mp hsame
    exact absurd hplaces (by decide +kernel)
  · exact (hagain [.newClass ScopeId.root "geo" []] _ rfl).mpr (by decide +kernel)

/-- The path `geo` leads to a namespace, and after a class `geo` is registered to the scope of
the class; so does entering it.  If the class comes first, the path is entered without fail and
leads to no namespace. -/
theorem geometry_replaced_by_class :
    ((Registration.enterPath ["geo"]).perform empty).1 = .ok ⟨1⟩ ∧
      (Command.runAll [.enterPath ["geo"], .newClass ScopeId.root "geo" []] empty).atPath? ["geo"] =
        some ⟨2⟩ ∧
      ((Registration.enterPath ["geo"]).perform
        (Command.runAll [.enterPath ["geo"], .newClass ScopeId.root "geo" []] empty)).1 = .ok ⟨2⟩ ∧
      ((Registration.enterSpace ScopeId.root "geo").perform
        (Command.runAll [.enterPath ["geo"], .newClass ScopeId.root "geo" []] empty)).1 = .ok ⟨2⟩ ∧
      ((Registration.enterPath ["geo"]).perform
        (Command.runAll [.newClass ScopeId.root "geo" []] empty)).1 = .ok ⟨1⟩ ∧
      (Command.runAll [.newClass ScopeId.root "geo" [], .enterPath ["geo"]] empty).kind? ⟨1⟩ =
        some (.classBody (.ofName "geo")) := by
  decide +kernel

end ScopeGraph
end CallResolution
