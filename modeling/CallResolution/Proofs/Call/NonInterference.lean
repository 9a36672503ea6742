import Mathlib.Tactic
import CallResolution.Proofs.Call.OrderIndependence
import CallResolution.Proofs.Scope.Confinement
import CallResolution.Proofs.Scope.Refusal

/-!
# Declarations that a call cannot see

A declaration that a graph takes changes no look-up of another name, and no look-up of its
own name that asks only scopes from which it cannot be reached.  A named call reads nothing
else of the declarations, so it resolves to the same result, be it an error.

Reach is taken in the graph before the declaration and does not depend on hiding: a base
that a class hides is within its reach.
-/

namespace CallResolution

/-! ## Commands that declare -/

namespace Registration

variable {α β : Type}

theorem perform_map_eq_ok_iff {step : Registration α} {rename : α → β}
    {graph grown : ScopeGraph} {b : β} :
    (rename <$> step).perform graph = (.ok b, grown) ↔
      ∃ a, step.perform graph = (.ok a, grown) ∧ rename a = b := by
  rw [perform_map]
  cases step.perform graph with
  | mk answer left =>
      cases answer with
      | ok a => simp [Except.map, and_comm]
      | error found => simp [Except.map]

/-- The graph takes the declaration, with this fingerprint, and becomes the second one. -/
def Takes (graph : ScopeGraph) (declaration : Declaration) (fingerprint : Fingerprint)
    (grown : ScopeGraph) : Prop :=
  declaration.refusal graph = none ∧ declaration.signature.fingerprint = fingerprint ∧
    grown = graph.withSignature declaration.signature declaration.elsewhere

variable {graph grown : ScopeGraph} {fingerprint : Fingerprint}

theorem takes_of_declareAsIs {declaration : Declaration}
    (hperform : (declareAsIs declaration).perform graph = (.ok fingerprint, grown)) :
    Takes graph declaration fingerprint grown := by
  rw [perform_declareAsIs] at hperform
  cases hrefusal : declaration.refusal graph with
  | some error => simp [hrefusal] at hperform
  | none =>
      simp only [hrefusal, Prod.mk.injEq, Except.ok.injEq] at hperform
      exact ⟨hrefusal, hperform.1, hperform.2.symm⟩

theorem takes_of_declare {declaration : Declaration}
    (hperform : (declare declaration).perform graph = (.ok fingerprint, grown)) :
    Takes graph declaration fingerprint grown := by
  rw [perform_declare] at hperform
  cases hcheck : declaration.signature.check with
  | error defect => simp [hcheck] at hperform
  | ok accepted =>
      rw [hcheck] at hperform
      exact takes_of_declareAsIs hperform

theorem takes_of_declareInClass {type : Fingerprint} {declaration : ScopeId → Declaration}
    (hperform : (requireClass type >>= fun scope => declare (declaration scope)).perform graph =
      (.ok fingerprint, grown)) :
    ∃ scope, Takes graph (declaration scope) fingerprint grown := by
  rw [perform_bind, perform_requireClass] at hperform
  cases hscope : graph.classScope type with
  | error unknown => simp [hscope] at hperform
  | ok scope =>
      rw [hscope] at hperform
      exact ⟨scope, takes_of_declare hperform⟩

end Registration

/-- A command that answers with one fingerprint has declared one signature. -/
theorem Command.exists_takes_of_run {command : Command} {graph grown : ScopeGraph}
    {fingerprint : Fingerprint} (hrun : command.run graph = (.ok (.declared fingerprint), grown)) :
    ∃ declaration, Registration.Takes graph declaration fingerprint grown := by
  unfold run at hrun
  cases command <;> simp only [registration] at hrun <;>
    obtain ⟨answer, hperform, hreceipt⟩ := Registration.perform_map_eq_ok_iff.mp hrun <;>
    cases hreceipt
  case declare declaration => exact ⟨declaration, Registration.takes_of_declare hperform⟩
  case declareAsIs declaration => exact ⟨declaration, Registration.takes_of_declareAsIs hperform⟩
  case newFunction => exact ⟨_, Registration.takes_of_declare hperform⟩
  case newOperator => exact ⟨_, Registration.takes_of_declare hperform⟩
  case newMethod =>
      obtain ⟨scope, htakes⟩ := Registration.takes_of_declareInClass hperform
      exact ⟨_, htakes⟩
  case newMemberOperator =>
      obtain ⟨scope, htakes⟩ := Registration.takes_of_declareInClass hperform
      exact ⟨_, htakes⟩

/-- The signature with this fingerprint is the one that was declared. -/
theorem ScopeGraph.Built.eq_withSignature_of_run {graph grown : ScopeGraph} (hbuilt : graph.Built)
    {command : Command} {fingerprint : Fingerprint} {signature : Signature}
    (hrun : command.run graph = (.ok (.declared fingerprint), grown))
    (hsignature : grown.signature? fingerprint = some signature) :
    graph.holds signature.origin = true ∧ ∃ space, grown = graph.withSignature signature space := by
  have hgrown : grown.Built := by
    have hafter : (Command.run command graph).2.Built := hbuilt.runAll [command]
    rwa [hrun] at hafter
  obtain ⟨declaration, hrefusal, hfingerprint, hadded⟩ := Command.exists_takes_of_run hrun
  obtain ⟨horigin, _⟩ := (declaration.refusal_eq_none_iff graph).mp hrefusal
  have hstored : declaration.signature ∈ grown.stored := by
    rw [hadded, (graph.stored_withSignature _ _ horigin).mem_iff]
    simp
  have hfound := (hgrown.storedOnce.signature?_eq_some_iff hgrown.indexed).mpr
    ⟨hstored, hfingerprint⟩
  obtain rfl : declaration.signature = signature := Option.some.inj (hfound.symm.trans hsignature)
  exact ⟨horigin, declaration.elsewhere, hadded⟩

/-! ## Calls -/

namespace Program

variable {first second : ScopeGraph} (hframe : first.SameFrame second)
include hframe

theorem checkCall_congr (table : ConversionTable) (call : CallSite) :
    checkCall ⟨first, table⟩ call = checkCall ⟨second, table⟩ call := by
  unfold checkCall
  simp only [hframe.holds_eq]

theorem matched_congr (table : ConversionTable) {call : CallSite}
    (hcollected : collected ⟨first, table⟩ call = collected ⟨second, table⟩ call) :
    matched ⟨first, table⟩ call = matched ⟨second, table⟩ call := by
  have hmatch : ∀ proposal : Proposal, proposal.matchArguments call.args table first =
      proposal.matchArguments call.args table second := by
    intro proposal
    rw [Proposal.matchArguments, Proposal.matchArguments,
      bindArguments_congr hframe.derives_eq table]
  unfold matched
  rw [hcollected]
  simp only [hmatch]

/-- Graphs of one frame with the same candidates resolve a call to the same result. -/
theorem resolve_congr (table : ConversionTable) {call : CallSite}
    (hcollected : collected ⟨first, table⟩ call = collected ⟨second, table⟩ call) :
    resolve ⟨first, table⟩ call = resolve ⟨second, table⟩ call := by
  rw [resolve, resolve, checkCall_congr hframe, matched_congr hframe table hcollected]

end Program

/-- A declaration of another name, or out of reach of every scope that a look-up asks, leaves
the look-up as it was, to the order of what it finds, and with it every named call that
starts where the look-up starts. -/
theorem unreached_declaration_changes_nothing {graph grown : ScopeGraph} (hbuilt : graph.Built)
    {command : Command} {fingerprint : Fingerprint} {signature : Signature}
    (hadded : command.run graph = (.ok (.declared fingerprint), grown))
    (hsignature : grown.signature? fingerprint = some signature) (name : String) (start : ScopeId)
    (hapart : signature.name ≠ name ∨
      ∀ scope, graph.Asks name start scope → ¬ graph.Reaches name scope signature.origin) :
    grown.lookup name start = graph.lookup name start ∧
      ∀ table call, call.callee = .named name → call.scope = start →
        Program.resolve ⟨grown, table⟩ call = Program.resolve ⟨graph, table⟩ call := by
  obtain ⟨horigin, space, rfl⟩ := hbuilt.eq_withSignature_of_run hadded hsignature
  have hframe : graph.SameFrame (graph.withSignature signature space) :=
    ScopeGraph.sameFrame_withSignature space
  have hagree : ∀ scope, graph.Asks name start scope →
      graph.AgreeWithin (graph.withSignature signature space) name scope := by
    intro scope hasks
    refine ScopeGraph.agreeWithin_withSignature space horigin ?_
    exact hapart.imp_right fun hunreached => hunreached scope hasks
  have hlookup := hframe.lookup_eq hbuilt hagree
  refine ⟨hlookup.symm, ?_⟩
  intro table call hcallee hscope
  refine (Program.resolve_congr hframe table ?_).symm
  rw [Program.collected, Program.collected, hcallee, hscope]
  simp only [ScopeGraph.collect, hlookup]

/-- A namespace that pulls `f` in from a library, with a block inside it. -/
def pulledLibrary : ScopeGraph :=
  Command.runAll
    [.enterSpace ScopeId.root "Inner", .newBlock ⟨1⟩, .enterSpace ScopeId.root "Library",
      .pullIn ⟨1⟩ "f" ⟨3⟩, .newFunction ⟨3⟩ "f" []] ScopeGraph.empty

/-- A function of one parameter in the root namespace, around all other scopes. -/
def outerFunction : Signature :=
  ⟨"f", ScopeId.root, .function, [⟨.ofName "int", .byValue, false, false⟩], none⟩

/-- A call of `f` from the block with one argument. -/
def callFromBlock : CallSite :=
  ⟨0, .named "f", ⟨2⟩, [⟨.ofName "int", .rvalue⟩], ⟨1, 1⟩⟩

/-- The block and the namespace around it are asked, and from there pull-ins lead to the
library only. -/
theorem pulledLibrary_not_reaches_root {scope : ScopeId}
    (hasks : pulledLibrary.Asks "f" ⟨2⟩ scope) :
    ¬ pulledLibrary.Reaches "f" scope ScopeId.root := by
  have hscope : scope ≠ ScopeId.root := by
    cases hasks with
    | here => decide
    | outwards _ houter hcomes =>
        obtain rfl := Option.some.inj (houter.symm.trans
          (show pulledLibrary.outer? ⟨2⟩ = some ⟨1⟩ by decide +kernel))
        cases hcomes with
        | here => decide
        | outwards hpasses => exact absurd (by decide +kernel) hpasses
  have hpulls : ∀ edge ∈ pulledLibrary.edges, edge.label = .pullsIn "f" → edge.target = ⟨3⟩ := by
    decide +kernel
  have hclasses : ∀ index < pulledLibrary.size, pulledLibrary.directBases ⟨index⟩ = [] := by
    decide +kernel
  have hfeeds : ∀ upper, ¬ pulledLibrary.Feeds "f" upper ScopeId.root := by
    rintro upper (hpulled | hbase)
    · have htarget : ScopeId.root = ⟨3⟩ :=
        hpulls _ (ScopeGraph.mem_pulledFrom_iff.mp hpulled) rfl
      exact absurd htarget (by decide)
    · have hheld := (pulledLibrary.holds_iff upper).mp (ScopeGraph.holds_of_directBases hbase)
      rw [hclasses upper.index hheld] at hbase
      cases hbase
  intro hreach
  cases hreach with
  | refl => exact hscope rfl
  | tail _ hlast => exact hfeeds _ hlast

/-- The new function around the namespace would fit the call, but is not seen: the look-up
still stops at the namespace, with the function of the library. -/
theorem pulledLibrary_hides_outer :
    ∃ grown, pulledLibrary.Built ∧
      Command.run (.declare ⟨outerFunction, none⟩) pulledLibrary =
        (.ok (.declared outerFunction.fingerprint), grown) ∧
      grown.signature? outerFunction.fingerprint = some outerFunction ∧
      (∀ scope, pulledLibrary.Asks "f" ⟨2⟩ scope →
        ¬ pulledLibrary.Reaches "f" scope outerFunction.origin) ∧
      (pulledLibrary.lookup "f" ⟨2⟩).map (fun found => (found.1, found.2.map (·.origin))) =
        some (⟨1⟩, [⟨3⟩]) ∧
      grown.lookup "f" ⟨2⟩ = pulledLibrary.lookup "f" ⟨2⟩ ∧
      ∀ table, Program.resolve ⟨grown, table⟩ callFromBlock =
        Program.resolve ⟨pulledLibrary, table⟩ callFromBlock := by
  have hbuilt : pulledLibrary.Built := ⟨_, Or.inl rfl⟩
  have hanswer : (Command.run (.declare ⟨outerFunction, none⟩) pulledLibrary).1 =
      .ok (.declared outerFunction.fingerprint) := by
    decide +kernel
  have hsignature : (Command.run (.declare ⟨outerFunction, none⟩) pulledLibrary).2.signature?
      outerFunction.fingerprint = some outerFunction := by
    decide +kernel
  have hunreached : ∀ scope, pulledLibrary.Asks "f" ⟨2⟩ scope →
      ¬ pulledLibrary.Reaches "f" scope outerFunction.origin :=
    fun scope hasks => pulledLibrary_not_reaches_root hasks
  generalize hrun : Command.run (.declare ⟨outerFunction, none⟩) pulledLibrary = outcome
    at hanswer hsignature
  obtain ⟨answer, grown⟩ := outcome
  obtain rfl : answer = .ok (.declared outerFunction.fingerprint) := hanswer
  obtain ⟨hlookup, hresolve⟩ := unreached_declaration_changes_nothing hbuilt hrun hsignature
    "f" ⟨2⟩ (Or.inr hunreached)
  exact ⟨grown, hbuilt, rfl, hsignature, hunreached, by decide +kernel, hlookup,
    fun table => hresolve table callFromBlock rfl rfl⟩

end CallResolution
