import Mathlib.Logic.Relation
import Mathlib.Tactic
import CallResolution.Proofs.Scope.Derivation
import CallResolution.Proofs.Scope.Indexing

/-!
# Building only adds

What a graph built by commands says about its scopes, types and signatures stays true
whatever commands follow.  `Outlasts` says what one change keeps; any number of changes
keep it, and all other questions are answered from it.

Edges are found newest first, so it matters that a new edge of containment leads to a new
scope and a new edge of inheritance leaves one.  Children are NOT kept: a class may come to
stand in the place of a namespace of the same name.
-/

namespace CallResolution
namespace ScopeGraph

/-- What is known of the scopes, the declarations and the types of a graph still holds. -/
structure Outlasts (graph grown : ScopeGraph) : Prop where
  scopes : ScopesKept graph grown
  declared : ∀ scope name, graph.declaredAs scope name <+: grown.declaredAs scope name
  types : ∀ type record, graph.registered? type = some record →
    grown.registered? type = some record

theorem Outlasts.refl (graph : ScopeGraph) : Outlasts graph graph where
  scopes := .refl graph
  declared _ _ := List.prefix_rfl
  types _ _ hrecord := hrecord

theorem Outlasts.trans {graph middle grown : ScopeGraph} (hfirst : Outlasts graph middle)
    (hsecond : Outlasts middle grown) : Outlasts graph grown where
  scopes := hfirst.scopes.trans hsecond.scopes
  declared scope name := (hfirst.declared scope name).trans (hsecond.declared scope name)
  types type record hrecord := hsecond.types type record (hfirst.types type record hrecord)

/-! ## One change and many -/

section Change

variable {accepts : Signature → Prop} {graph grown : ScopeGraph}

theorem Extension.scopesKept (hextension : Extension accepts graph grown) :
    ScopesKept graph grown := by
  cases hextension with
  | space parent name =>
      exact scopesKept_of_child [⟨parent, ⟨graph.size⟩, .contains name⟩] rfl rfl (by simp)
  | block parent =>
      exact scopesKept_of_child [⟨parent, ⟨graph.size⟩, .contains ""⟩] rfl rfl (by simp)
  | pull scope name source =>
      exact ⟨fun _ _ => rfl, [⟨scope, source, .pullsIn name⟩], rfl, by simp⟩
  | plainType => exact ⟨fun _ _ => rfl, [], rfl, by simp⟩
  | classType scope name bases bodies =>
      -- The type of the class, which comes last, is not looked at here.
      have hkept := scopesKept_withClassScope graph scope name bodies
      exact ⟨hkept.kind_eq, hkept.edges⟩
  | signature signature space =>
      refine ⟨fun scope _ => kind?_withSignature graph signature space scope, [], ?_, by simp⟩
      exact edges_withSignature graph signature space

theorem Extension.declaredAs_prefix (hextension : Extension accepts graph grown)
    (scope : ScopeId) (name : String) :
    graph.declaredAs scope name <+: grown.declaredAs scope name := by
  cases hextension with
  | space parent spaceName =>
      have hscopes : (graph.withChild parent spaceName .space).scopes =
          graph.scopes ++ [Scope.ofKind .space] := rfl
      rw [declaredAs_of_append hscopes]
  | block parent =>
      have hscopes : (graph.withChild parent "" .block).scopes =
          graph.scopes ++ [Scope.ofKind .block] := rfl
      rw [declaredAs_of_append hscopes]
  | classType => rw [declaredAs_of_append (scopes_withClass ..)]
  | pull | plainType => exact List.prefix_rfl
  | signature signature space _ horigin =>
      rw [declaredAs_withSignature _ _ _ _ _ horigin]
      exact List.prefix_append _ _

theorem Extension.outlasts (hextension : Extension accepts graph grown) :
    Outlasts graph grown where
  scopes := hextension.scopesKept
  declared := hextension.declaredAs_prefix
  types _ _ := hextension.registered?_eq_some

theorem Extensions.outlasts (hextensions : Extensions accepts graph grown) :
    Outlasts graph grown := by
  induction hextensions with
  | refl => exact .refl graph
  | tail _ hextension ih => exact ih.trans hextension.outlasts

end Change

theorem Built.outlasts {graph : ScopeGraph} (hbuilt : graph.Built) (commands : List Command) :
    Outlasts graph (Command.runAll commands graph) :=
  (@Command.extensions_runAll (fun _ => True) (fun _ _ => trivial) commands
    (fun _ _ _ _ => trivial) graph hbuilt.grounded).outlasts

/-! ## Bases and derivation -/

section Bases

variable {graph grown : ScopeGraph} (houtlasts : Outlasts graph grown)
include houtlasts

theorem Outlasts.body?_eq_some {type : Fingerprint} {body : ScopeId}
    (hbody : graph.body? type = some body) : grown.body? type = some body := by
  obtain ⟨record, hrecord, hbody⟩ := Option.bind_eq_some_iff.mp hbody
  rw [body?, houtlasts.types type record hrecord]
  exact hbody

/-- The bases of a class were registered before it, so their scopes are known already. -/
theorem Outlasts.directBases_eq (hhierarchy : graph.Hierarchy) {scope : ScopeId}
    (hheld : graph.holds scope = true) : grown.directBases scope = graph.directBases scope := by
  unfold directBases
  rw [houtlasts.scopes.kind_eq scope hheld]
  cases hkind : graph.kind? scope with
  | none => rfl
  | some kind =>
      cases kind with
      | space | block => rfl
      | classBody type =>
          obtain ⟨record, hrecord, hbody⟩ :=
            Option.bind_eq_some_iff.mp (hhierarchy.class_body scope type hkind)
          simp only [hrecord, houtlasts.types type record hrecord]
          apply List.filterMap_congr
          intro base hbase
          obtain ⟨older, hfound, _⟩ :=
            hhierarchy.bases_older type record scope hrecord hbody base hbase
          rw [hfound, houtlasts.body?_eq_some hfound]

theorem Outlasts.hasBase_iff {derived base : Fingerprint} {record : TypeRecord}
    (hrecord : graph.registered? derived = some record) :
    grown.HasBase derived base ↔ graph.HasBase derived base := by
  simp only [HasBase, hrecord, houtlasts.types derived record hrecord]

/-- A chain of bases that starts at an old type never leaves the old types. -/
theorem Outlasts.bases_iff (hhierarchy : graph.Hierarchy) (hinheritance : graph.Inheritance)
    {derived base : Fingerprint} {record : TypeRecord}
    (hrecord : graph.registered? derived = some record) :
    Relation.TransGen grown.HasBase derived base ↔
      Relation.TransGen graph.HasBase derived base := by
  constructor
  · intro hbases
    induction hbases with
    | single hbase => exact .single ((houtlasts.hasBase_iff hrecord).mp hbase)
    | tail _ hbase ih =>
        obtain ⟨_, _, _, hmiddle, _⟩ := older_of_bases hhierarchy hinheritance ih
        obtain ⟨found, hfound, _⟩ := Option.bind_eq_some_iff.mp hmiddle
        exact ih.tail ((houtlasts.hasBase_iff hfound).mp hbase)
  · apply Relation.TransGen.mono
    rintro first second ⟨found, hfound, hmem⟩
    exact ⟨found, houtlasts.types first found hfound, hmem⟩

end Bases

/-- What a graph built by commands says of its scopes, its types and its signatures is
still said after any further commands, whether they succeed or not.  Declarations are only
added behind those that were there. -/
theorem commands_only_add {graph grown : ScopeGraph} (hbuilt : graph.Built)
    {commands : List Command} (hgrown : Command.runAll commands graph = grown) :
    (∀ scope, graph.holds scope = true →
      grown.holds scope = true ∧
        grown.kind? scope = graph.kind? scope ∧
        grown.outer? scope = graph.outer? scope ∧
        grown.ownName? scope = graph.ownName? scope ∧
        grown.pathNames scope = graph.pathNames scope ∧
        grown.innermostSpace scope = graph.innermostSpace scope ∧
        grown.directBases scope = graph.directBases scope) ∧
    (∀ scope name, graph.declaredAs scope name <+: grown.declaredAs scope name) ∧
    (∀ type record, graph.registered? type = some record →
      grown.registered? type = some record) ∧
    (∀ derived base, (graph.registered? derived).isSome = true →
      grown.derives derived base = graph.derives derived base) ∧
    ∀ fingerprint signature, graph.signature? fingerprint = some signature →
      grown.signature? fingerprint = some signature := by
  subst hgrown
  have houtlasts := hbuilt.outlasts commands
  have hlater := hbuilt.runAll commands
  have hsources : ∀ edge ∈ graph.edges, graph.holds edge.source = true :=
    fun edge hedge => (hbuilt.grounded.edge_held edge hedge).1
  refine ⟨?_, houtlasts.declared, houtlasts.types, ?_, ?_⟩
  · intro scope hheld
    have hkept := houtlasts.scopes
    exact ⟨hkept.holds_of_holds hheld, hkept.kind_eq scope hheld, hkept.outer?_eq hheld,
      hkept.ownName?_eq hheld, hkept.pathNames_eq hsources hheld,
      hkept.innermostSpace_eq hsources hheld, houtlasts.directBases_eq hbuilt.hierarchy hheld⟩
  · intro derived base hregistered
    obtain ⟨record, hrecord⟩ := Option.isSome_iff_exists.mp hregistered
    rw [Bool.eq_iff_iff, derives_iff_bases hlater, derives_iff_bases hbuilt]
    exact houtlasts.bases_iff hbuilt.hierarchy hbuilt.inheritance hrecord
  · intro fingerprint signature hanswer
    rw [hbuilt.storedOnce.signature?_eq_some_iff hbuilt.indexed] at hanswer
    obtain ⟨hstored, hfingerprint⟩ := hanswer
    rw [hlater.storedOnce.signature?_eq_some_iff hlater.indexed]
    have hdeclared : signature ∈ graph.declaredAs signature.origin signature.name :=
      hbuilt.storedOnce.mem_declaredAs_iff_mem_stored.mpr ⟨hstored, rfl, rfl⟩
    have hkept := (houtlasts.declared signature.origin signature.name).subset hdeclared
    exact ⟨mem_stored_of_declaredAs hkept, hfingerprint⟩

/-- A namespace with a class, a class derived from it, and a function. -/
def drawing : ScopeGraph :=
  Command.runAll
    [.enterPath ["draw"], .newClass ⟨1⟩ "Shape" [], .newClass ⟨1⟩ "Disc" [.ofName "draw::Shape"],
      .newFunction ⟨1⟩ "area" []]
    withScalars

/-- A class takes the place of the namespace, a class in it would have the name of an old one
and is refused, another derives from an old one, and a second function has the old name. -/
def moreDrawing : List Command :=
  [.newClass ScopeId.root "draw" [], .newClass ⟨4⟩ "Disc" [],
    .newClass ⟨4⟩ "Ring" [.ofName "draw::Disc"], .newFunction ⟨1⟩ "area" [.ellipsis]]

/-- The namespace is no longer found by its name; what is known of it is unchanged. -/
theorem drawing_outlasts_namesake :
    drawing.child? ScopeId.root "draw" = some ⟨1⟩ ∧
      (Command.runAll moreDrawing drawing).child? ScopeId.root "draw" = some ⟨4⟩ ∧
      (Command.runAll moreDrawing drawing).pathNames ⟨3⟩ = ["draw", "Disc"] ∧
      (Command.runAll moreDrawing drawing).innermostSpace ⟨3⟩ = ⟨1⟩ ∧
      (Command.runAll moreDrawing drawing).directBases ⟨3⟩ = [⟨2⟩] ∧
      (Command.runAll moreDrawing drawing).derives (.ofName "draw::Disc")
        (.ofName "draw::Shape") = true ∧
      (Command.runAll moreDrawing drawing).derives (.ofName "draw::Disc")
        (.ofName "draw::Ring") = false := by
  have hbuilt : drawing.Built := ⟨_, Or.inr rfl⟩
  obtain ⟨hscopes, _, _, hderives, _⟩ := @commands_only_add drawing _ hbuilt moreDrawing rfl
  obtain ⟨_, _, _, _, hpath, hspace, hbases⟩ := hscopes ⟨3⟩ (by decide +kernel)
  have hdisc : (drawing.registered? (.ofName "draw::Disc")).isSome = true := by decide +kernel
  refine ⟨by decide +kernel, by decide +kernel, hpath.trans (by decide +kernel),
    hspace.trans (by decide +kernel), hbases.trans (by decide +kernel), ?_, ?_⟩
  · exact (hderives _ _ hdisc).trans (by decide +kernel)
  · exact (hderives _ _ hdisc).trans (by decide +kernel)

end ScopeGraph
end CallResolution
