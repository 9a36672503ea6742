import Mathlib.Tactic
import CallResolution.Proofs.Scope.Growth

/-!
# A refused command changes nothing

A command that fails on a graph built by commands leaves the graph as it was: scopes, edges,
types, declarations, copies and index.  For a class and for a declaration this is not
obvious, because part of the work is done before the last check.  Nothing that the earlier
checks let through is refused there.

Declaring a list of signatures is the exception.  It stops at the first one that is refused
and keeps those before it.
-/

namespace CallResolution
namespace Registration

open ScopeGraph

variable {α β : Type}

/-- If the step fails on the graph, it leaves the graph as it was. -/
def Atomic (step : Registration α) (graph : ScopeGraph) : Prop :=
  ∀ error left, step.perform graph = (.error error, left) → left = graph

theorem perform_map_eq_error_iff {step : Registration α} {rename : α → β}
    {graph left : ScopeGraph} {error : RegistrationError} :
    (rename <$> step).perform graph = (.error error, left) ↔
      step.perform graph = (.error error, left) := by
  rw [perform_map]
  cases step.perform graph with
  | mk answer grown =>
      cases answer with
      | ok a => simp [Except.map]
      | error found => simp [Except.map]

theorem Atomic.map {step : Registration α} {graph : ScopeGraph} (hatomic : step.Atomic graph)
    (rename : α → β) : (rename <$> step).Atomic graph := by
  intro error left herror
  exact hatomic error left (perform_map_eq_error_iff.mp herror)

theorem atomic_of_ok {step : Registration α} {graph grown : ScopeGraph} {a : α}
    (hok : step.perform graph = (.ok a, grown)) : step.Atomic graph := by
  intro error left herror
  rw [hok] at herror
  cases herror

theorem atomic_of_error {step : Registration α} {graph : ScopeGraph} {error : RegistrationError}
    (herror : step.perform graph = (.error error, graph)) : step.Atomic graph := by
  intro found left hfound
  rw [herror] at hfound
  exact (Prod.mk.inj hfound).2.symm

/-! ## One step -/

section Steps

variable {graph : ScopeGraph}

theorem atomic_enterSpace (hgrounded : graph.Grounded) (parent : ScopeId) (name : String) :
    (enterSpace parent name).Atomic graph := by
  have hperform := perform_enterSpace parent name graph
  by_cases hparent : graph.holds parent = true
  · obtain ⟨child, grown, hchild, _⟩ :=
      @extensions_childOrNew (fun _ => True) graph hgrounded parent hparent name
    rw [if_pos hparent, hchild] at hperform
    exact atomic_of_ok hperform
  · rw [if_neg hparent] at hperform
    exact atomic_of_error hperform

theorem atomic_newBlock (parent : ScopeId) : (newBlock parent).Atomic graph := by
  have hperform := perform_newBlock parent graph
  split at hperform
  · exact atomic_of_ok hperform
  · exact atomic_of_error hperform

theorem atomic_pullIn (scope : ScopeId) (name : String) (source : ScopeId) :
    (pullIn scope name source).Atomic graph := by
  have hperform := perform_pullIn scope name source graph
  split at hperform
  · exact atomic_of_error hperform
  · split at hperform
    · exact atomic_of_error hperform
    · exact atomic_of_ok hperform

theorem atomic_newType (scope : ScopeId) (name : String) : (newType scope name).Atomic graph := by
  have hperform := perform_newType scope name graph
  split at hperform
  · exact atomic_of_error hperform
  · split at hperform
    · exact atomic_of_error hperform
    · exact atomic_of_ok hperform

/-- Once the scope of a class is made, its type is inserted without fail. -/
theorem atomic_newClass (hgrounded : graph.Grounded) (scope : ScopeId) (name : String)
    (bases : List Fingerprint) : (newClass scope name bases).Atomic graph := by
  have hperform := perform_newClass scope name bases graph
  cases hscope : graph.holds scope with
  | false =>
      rw [hscope, if_pos rfl] at hperform
      exact atomic_of_error hperform
  | true =>
      rw [hscope, if_neg (by simp)] at hperform
      cases hbodies : bases.mapM graph.classScope with
      | error error =>
          rw [hbodies] at hperform
          exact atomic_of_error hperform
      | ok bodies =>
          rw [hbodies] at hperform
          cases hknown : graph.registered? (graph.typeIn scope name) with
          | some record =>
              simp only [hknown, Option.isSome_some, if_true] at hperform
              exact atomic_of_error hperform
          | none =>
              simp only [hknown, Option.isSome_none, Bool.false_eq_true, if_false] at hperform
              rw [perform_insertType_classScope
                (fun edge hedge => (hgrounded.edge_held edge hedge).1) hscope hknown] at hperform
              exact atomic_of_ok hperform

/-- This needs that edges come from scopes of the graph.  Here the scope 1 is contained in
a scope 2 that does not exist yet; the class becomes this scope, the name of its type
changes with it, and the type is refused too late. -/
example :
    let graph : ScopeGraph :=
      { scopes := [Scope.ofKind .space, Scope.ofKind .space]
        edges := [⟨⟨2⟩, ⟨1⟩, .contains "X"⟩]
        types := [TypeRecord.ofScalar "A::X::A" (Fingerprint.ofName "A::X::A")]
        index := [] }
    (newClass ⟨1⟩ "A" []).perform graph =
      (.error (.duplicateType "A::X::A"), graph.withClassScope ⟨1⟩ "A" []) := by
  decide +kernel

theorem atomic_declareAsIs (declaration : Declaration) : (declareAsIs declaration).Atomic graph := by
  have hperform := perform_declareAsIs declaration graph
  cases hrefusal : declaration.refusal graph with
  | some error =>
      rw [hrefusal] at hperform
      exact atomic_of_error hperform
  | none =>
      rw [hrefusal] at hperform
      exact atomic_of_ok hperform

theorem atomic_declare (declaration : Declaration) : (declare declaration).Atomic graph := by
  have hperform := perform_declare declaration graph
  cases hcheck : declaration.signature.check with
  | error defect =>
      rw [hcheck] at hperform
      exact atomic_of_error hperform
  | ok accepted =>
      rw [hcheck] at hperform
      intro error left herror
      exact atomic_declareAsIs declaration error left (hperform.symm.trans herror)

theorem atomic_declareInClass (type : Fingerprint) (declaration : ScopeId → Declaration) :
    (requireClass type >>= fun scope => declare (declaration scope)).Atomic graph := by
  intro error left herror
  rw [perform_bind, perform_requireClass] at herror
  cases hscope : graph.classScope type with
  | error unknown =>
      rw [hscope] at herror
      exact (Prod.mk.inj herror).2.symm
  | ok scope =>
      rw [hscope] at herror
      exact atomic_declare (declaration scope) error left herror

end Steps

/-! ## A list of declarations -/

/-- The declarations are accepted one after the other, each by the graph that those before
it leave, with these fingerprints. -/
inductive Accepted : ScopeGraph → List Declaration → List Fingerprint → ScopeGraph → Prop
  | nil (graph : ScopeGraph) : Accepted graph [] [] graph
  | cons {graph middle grown : ScopeGraph} {declaration : Declaration}
      {rest : List Declaration} {fingerprint : Fingerprint} {fingerprints : List Fingerprint}
      (hfirst : (declare declaration).perform graph = (.ok fingerprint, middle))
      (hrest : Accepted middle rest fingerprints grown) :
      Accepted graph (declaration :: rest) (fingerprint :: fingerprints) grown

theorem perform_declareAll_cons (declaration : Declaration) (rest : List Declaration)
    (graph : ScopeGraph) :
    (declareAll (declaration :: rest)).perform graph =
      match (declare declaration).perform graph with
      | (.error error, left) => (.error error, left)
      | (.ok fingerprint, middle) =>
          (((declareAll rest).perform middle).1.map (fingerprint :: ·),
            ((declareAll rest).perform middle).2) := by
  rw [declareAll, List.mapM_cons, perform_bind]
  cases (declare declaration).perform graph with
  | mk answer middle =>
      cases answer with
      | error error => rfl
      | ok fingerprint =>
          simp only [perform_bind, declareAll]
          cases (rest.mapM declare).perform middle with
          | mk answers grown =>
              cases answers with
              | error error => rfl
              | ok fingerprints => rfl

theorem Accepted.perform_declareAll {front : List Declaration} {fingerprints : List Fingerprint}
    {graph grown : ScopeGraph} (haccepted : Accepted graph front fingerprints grown)
    {declaration : Declaration} {error : RegistrationError}
    (hrefused : (declare declaration).perform grown = (.error error, grown))
    (back : List Declaration) :
    (declareAll (front ++ declaration :: back)).perform graph = (.error error, grown) := by
  induction haccepted with
  | nil graph =>
      rw [List.nil_append, perform_declareAll_cons, hrefused]
  | cons hfirst _ ih =>
      rw [List.cons_append, perform_declareAll_cons, hfirst]
      simp only [ih hrefused]
      rfl

theorem exists_refused_of_declareAll {declarations : List Declaration}
    {graph grown : ScopeGraph} {error : RegistrationError}
    (hperform : (declareAll declarations).perform graph = (.error error, grown)) :
    ∃ front declaration back fingerprints, declarations = front ++ declaration :: back ∧
      Accepted graph front fingerprints grown ∧
        (declare declaration).perform grown = (.error error, grown) := by
  induction declarations generalizing graph with
  | nil => cases hperform
  | cons declaration rest ih =>
      rw [perform_declareAll_cons] at hperform
      cases hfirst : (declare declaration).perform graph with
      | mk answer middle =>
          rw [hfirst] at hperform
          cases answer with
          | error found =>
              -- The first one is refused, and a refused declaration leaves its graph alone.
              obtain ⟨herror, hgrown⟩ := Prod.mk.inj hperform
              obtain rfl := atomic_declare declaration found middle hfirst
              obtain rfl := Except.error.inj herror
              subst hgrown
              exact ⟨[], declaration, rest, [], rfl, .nil _, hfirst⟩
          | ok fingerprint =>
              obtain ⟨herror, hgrown⟩ := Prod.mk.inj hperform
              have hrest : (declareAll rest).perform middle = (.error error, grown) := by
                cases hmore : (declareAll rest).perform middle with
                | mk answers left =>
                    rw [hmore] at herror hgrown
                    cases answers with
                    | ok fingerprints => cases herror
                    | error found =>
                        cases herror
                        cases hgrown
                        rfl
              obtain ⟨front, refused, back, fingerprints, rfl, haccepted, hrefused⟩ := ih hrest
              exact ⟨declaration :: front, refused, back, fingerprint :: fingerprints, rfl,
                .cons hfirst haccepted, hrefused⟩

end Registration

namespace Command

open ScopeGraph

/-- One command that is not a list of declarations. -/
theorem atomic_registration {graph : ScopeGraph} (hgrounded : graph.Grounded) {command : Command}
    (hsingle : ∀ declarations, command ≠ .declareAll declarations) :
    command.registration.Atomic graph := by
  cases command <;> simp only [registration]
  case enterPath path =>
      have hroot : graph.holds ScopeId.root = true := (graph.holds_iff _).mpr hgrounded.size_pos
      obtain ⟨last, grown, hperform, _⟩ :=
        @Registration.extensions_enterPath (fun _ => True) graph hgrounded ScopeId.root hroot path
      exact (Registration.atomic_of_ok hperform).map _
  case enterSpace parent name => exact (Registration.atomic_enterSpace hgrounded parent name).map _
  case newBlock parent => exact (Registration.atomic_newBlock parent).map _
  case pullIn scope name source => exact (Registration.atomic_pullIn scope name source).map _
  case newType scope name => exact (Registration.atomic_newType scope name).map _
  case newClass scope name bases =>
      exact (Registration.atomic_newClass hgrounded scope name bases).map _
  case declare declaration => exact (Registration.atomic_declare declaration).map _
  case declareAsIs declaration => exact (Registration.atomic_declareAsIs declaration).map _
  case declareAll declarations => exact (hsingle declarations rfl).elim
  case newFunction => exact (Registration.atomic_declare _).map _
  case newMethod type _ _ _ => exact (Registration.atomic_declareInClass type _).map _
  case newOperator => exact (Registration.atomic_declare _).map _
  case newMemberOperator type _ _ _ => exact (Registration.atomic_declareInClass type _).map _

/-- On a graph that commands have built, a command that fails leaves the graph as it was.
Declaring a list fails exactly if one of the declarations is refused after those before it
were accepted, and leaves the graph that accepting those leads to. -/
theorem refused_command_changes_nothing {graph : ScopeGraph} (hbuilt : graph.Built) :
    (∀ command error, (∀ declarations, command ≠ .declareAll declarations) →
      (run command graph).1 = .error error → (run command graph).2 = graph) ∧
    ∀ declarations error grown,
      run (.declareAll declarations) graph = (.error error, grown) ↔
        ∃ front declaration back fingerprints, declarations = front ++ declaration :: back ∧
          Registration.Accepted graph front fingerprints grown ∧
            run (.declare declaration) grown = (.error error, grown) := by
  refine ⟨fun command error hsingle herror =>
    atomic_registration hbuilt.grounded hsingle error _ (Prod.ext herror rfl), ?_⟩
  intro declarations error grown
  simp only [run, registration, Registration.perform_map_eq_error_iff]
  constructor
  · exact Registration.exists_refused_of_declareAll
  · rintro ⟨front, declaration, back, fingerprints, rfl, haccepted, hrefused⟩
    exact haccepted.perform_declareAll hrefused back

/-- A class and a function, and a second class that was refused. -/
def classAndFunction : ScopeGraph :=
  runAll [.newClass ScopeId.root "A" [], .newFunction ScopeId.root "f" [],
    .newClass ScopeId.root "B" [.ofName "A", .ofName "C"]] withScalars

/-- A function of this name in the root namespace, without parameters. -/
def functionNamed (name : String) : Declaration where
  signature := ⟨name, ScopeId.root, .function, [], none⟩
  associated := none

/-- A class of a name that is taken leaves no scope behind.  Of three functions the second
is there already; the first is kept and the third is never looked at. -/
theorem classAndFunction_kept :
    classAndFunction.Built ∧
      (run (.newClass ScopeId.root "A" []) classAndFunction).1 = .error (.duplicateType "A") ∧
      (run (.newClass ScopeId.root "A" []) classAndFunction).2 = classAndFunction ∧
      run (.declareAll [functionNamed "g", functionNamed "f", functionNamed "h"])
          classAndFunction =
        (.error (.duplicateSignature "f()"),
          (run (.declare (functionNamed "g")) classAndFunction).2) := by
  have hbuilt : classAndFunction.Built := ⟨_, Or.inr rfl⟩
  obtain ⟨hsingle, hlist⟩ := refused_command_changes_nothing hbuilt
  have htaken : (run (.newClass ScopeId.root "A" []) classAndFunction).1 =
      .error (.duplicateType "A") := by
    decide +kernel
  refine ⟨hbuilt, htaken, hsingle _ _ (by simp) htaken, (hlist _ _ _).mpr ?_⟩
  refine ⟨[functionNamed "g"], functionNamed "f", [functionNamed "h"],
    [(functionNamed "g").signature.fingerprint], rfl, ?_, by decide +kernel⟩
  exact .cons (by decide +kernel) (.nil _)

end Command

end CallResolution
