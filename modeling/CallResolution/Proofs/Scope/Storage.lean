import Mathlib.Data.List.Flatten
import Mathlib.Data.List.Nodup
import Mathlib.Data.List.Perm.Basic
import Mathlib.Tactic
import CallResolution.Proofs.KeyedSet
import CallResolution.Proofs.Scope.Growth

/-!
# Stored signatures

In a graph built by commands a signature is stored in its own scope, the index knows
exactly the fingerprints of the stored signatures, no fingerprint is stored twice, and
what a scope offers to argument-dependent look-up only are copies of stored signatures.

The fingerprint is a hash.  That different signatures have different fingerprints is NOT
claimed of signatures in general: it holds of the stored ones, because a signature whose
fingerprint is taken is refused.
-/

namespace CallResolution
namespace ScopeGraph

/-- The signatures that are declared in some scope. -/
def stored (graph : ScopeGraph) : List Signature :=
  graph.scopes.flatMap (·.declared)

/-- The signatures that are a copy in some scope. -/
def copies (graph : ScopeGraph) : List Signature :=
  graph.scopes.flatMap (·.associated)

/-! ## Storing one signature -/

section Modify

variable {α β : Type} {list : List α} {change : α → α} {items : α → List β}

theorem flatMap_modify_of_eq (hchange : ∀ a, items (change a) = items a) (place : Nat) :
    (list.modify place change).flatMap items = list.flatMap items := by
  induction list generalizing place with
  | nil => simp
  | cons a rest ih =>
      cases place with
      | zero => simp [hchange]
      | succ place => simp [ih]

theorem flatMap_modify_perm {b : β} (hchange : ∀ a, items (change a) = items a ++ [b])
    {place : Nat} (hplace : place < list.length) :
    ((list.modify place change).flatMap items).Perm (b :: list.flatMap items) := by
  induction list generalizing place with
  | nil => simp at hplace
  | cons a rest ih =>
      cases place with
      | zero =>
          simp only [List.modify_zero_cons, List.flatMap_cons, hchange, List.append_assoc]
          exact List.perm_middle
      | succ place =>
          have hrest := ih (Nat.lt_of_succ_lt_succ hplace)
          simp only [List.modify_succ_cons, List.flatMap_cons]
          exact (hrest.append_left (items a)).trans List.perm_middle

end Modify

section Store

variable (graph : ScopeGraph) (signature : Signature)

theorem stored_associate (space : Option ScopeId) :
    (graph.associate signature space).stored = graph.stored := by
  cases space with
  | none => rfl
  | some space =>
      apply flatMap_modify_of_eq
      intro contents
      rfl

theorem copies_associate {space : Option ScopeId}
    (hspace : ∀ other ∈ space, graph.holds other = true) :
    (graph.associate signature space).copies.Perm
      ((space.map fun _ => signature).toList ++ graph.copies) := by
  cases space with
  | none => exact .refl _
  | some space =>
      have hheld : space.index < graph.size := (graph.holds_iff space).mp (hspace space rfl)
      exact flatMap_modify_perm (fun _ => rfl) hheld

theorem size_associate (space : Option ScopeId) :
    (graph.associate signature space).size = graph.size := by
  cases space with
  | none => rfl
  | some space => exact size_modifyScope ..

theorem stored_withSignature (space : Option ScopeId)
    (horigin : graph.holds signature.origin = true) :
    (graph.withSignature signature space).stored.Perm (signature :: graph.stored) := by
  have hheld : signature.origin.index < (graph.associate signature space).size := by
    rw [size_associate]
    exact (graph.holds_iff _).mp horigin
  rw [← stored_associate graph signature space]
  exact flatMap_modify_perm (fun _ => rfl) hheld

theorem copies_withSignature {space : Option ScopeId}
    (hspace : ∀ other ∈ space, graph.holds other = true) :
    (graph.withSignature signature space).copies.Perm
      ((space.map fun _ => signature).toList ++ graph.copies) := by
  have hdeclared : (graph.withSignature signature space).copies =
      (graph.associate signature space).copies := by
    apply flatMap_modify_of_eq
    intro contents
    rfl
  rw [hdeclared]
  exact copies_associate graph signature hspace

theorem contents?_associate (space : Option ScopeId) (scope : ScopeId) :
    (graph.associate signature space).contents? scope =
      (graph.contents? scope).map fun contents =>
        { contents with
          associated :=
            contents.associated ++ if space = some scope then [signature] else [] } := by
  cases space with
  | none => simp [associate]
  | some space =>
      rw [associate, contents?_modifyScope]
      by_cases hsame : scope = space
      · simp [hsame]
      · simp [hsame, Ne.symm hsame]

/-- Storing a signature adds it at the end of one list of declarations and of at most one
list of copies. -/
theorem contents?_withSignature (space : Option ScopeId) (scope : ScopeId) :
    (graph.withSignature signature space).contents? scope =
      (graph.contents? scope).map fun contents =>
        { contents with
          declared := contents.declared ++ if scope = signature.origin then [signature] else []
          associated :=
            contents.associated ++ if space = some scope then [signature] else [] } := by
  change ((graph.associate signature space).declareIn signature).contents? scope = _
  rw [declareIn, contents?_modifyScope, contents?_associate]
  by_cases hsame : scope = signature.origin
  · simp [hsame, Function.comp_def]
  · simp [hsame]

end Store

/-- The contents of a scope are as they were, unless the scope is the new one. -/
theorem contents?_of_append {graph grown : ScopeGraph} {kind : ScopeKind}
    (hscopes : grown.scopes = graph.scopes ++ [Scope.ofKind kind]) (scope : ScopeId) :
    grown.contents? scope = graph.contents? scope ∨
      graph.contents? scope = none ∧ grown.contents? scope = some (Scope.ofKind kind) := by
  rw [contents?, contents?, hscopes]
  rcases Nat.lt_trichotomy scope.index graph.scopes.length with hold | hnew | hbeyond
  · exact Or.inl (List.getElem?_append_left hold)
  · refine Or.inr ⟨List.getElem?_eq_none hnew.ge, ?_⟩
    rw [hnew, List.getElem?_concat_length]
  · left
    rw [List.getElem?_eq_none hbeyond.le, List.getElem?_eq_none]
    rw [List.length_append, List.length_singleton]
    omega

/-! ## The invariant -/

/-- Every signature is stored once, in its own scope and in the index. -/
structure StoredOnce (accepts : Signature → Prop) (graph : ScopeGraph) : Prop where
  accepted : ∀ signature ∈ graph.stored, accepts signature
  at_origin : ∀ scope contents, graph.contents? scope = some contents →
    ∀ signature ∈ contents.declared, signature.origin = scope
  indexed : (graph.index.map (·.fingerprint)).Perm (graph.stored.map (·.fingerprint))
  nodup : (graph.stored.map (·.fingerprint)).Nodup
  copied : graph.copies ⊆ graph.stored

/-- The index knows the fingerprints of the stored signatures. -/
theorem StoredOnce.isIndexed_iff {accepts : Signature → Prop} {graph : ScopeGraph}
    (hstored : StoredOnce accepts graph) (fingerprint : Fingerprint) :
    graph.isIndexed fingerprint = true ↔ fingerprint ∈ graph.stored.map (·.fingerprint) := by
  rw [← hstored.indexed.mem_iff]
  simp [isIndexed]

theorem StoredOnce.of_new_scope {accepts : Signature → Prop} {graph grown : ScopeGraph}
    {kind : ScopeKind} (hstored : StoredOnce accepts graph)
    (hscopes : grown.scopes = graph.scopes ++ [Scope.ofKind kind])
    (hindex : grown.index = graph.index) : StoredOnce accepts grown := by
  have hsame : grown.stored = graph.stored := by simp [stored, hscopes, Scope.ofKind]
  have hcopies : grown.copies = graph.copies := by simp [copies, hscopes, Scope.ofKind]
  refine ⟨hsame ▸ hstored.accepted, ?_, ?_, hsame ▸ hstored.nodup, ?_⟩
  · intro scope contents hcontents signature hsignature
    rcases contents?_of_append hscopes scope with hold | ⟨_, hnew⟩
    · exact hstored.at_origin scope contents (hold ▸ hcontents) signature hsignature
    · rw [hnew] at hcontents
      rw [← Option.some.inj hcontents] at hsignature
      cases hsignature
  · rw [hindex, hsame]
    exact hstored.indexed
  · rw [hcopies, hsame]
    exact hstored.copied

theorem StoredOnce.of_signature {accepts : Signature → Prop} {graph : ScopeGraph}
    (hstored : StoredOnce accepts graph) {signature : Signature} {space : Option ScopeId}
    (haccepts : accepts signature) (horigin : graph.holds signature.origin = true)
    (hfresh : graph.isIndexed signature.fingerprint = false)
    (hspace : ∀ other ∈ space, graph.holds other = true) :
    StoredOnce accepts (graph.withSignature signature space) := by
  have hperm := graph.stored_withSignature signature space horigin
  have hcopies := graph.copies_withSignature signature hspace
  have hfresh : signature.fingerprint ∉ graph.stored.map (·.fingerprint) := by
    rw [← hstored.isIndexed_iff, hfresh]
    exact Bool.false_ne_true
  refine ⟨?_, ?_, ?_, ?_, ?_⟩
  · intro other hother
    rcases List.mem_cons.mp (hperm.mem_iff.mp hother) with rfl | hother
    · exact haccepts
    · exact hstored.accepted other hother
  · intro scope contents hcontents other hother
    rw [contents?_withSignature] at hcontents
    obtain ⟨before, hbefore, rfl⟩ := Option.map_eq_some_iff.mp hcontents
    rcases List.mem_append.mp hother with hother | hother
    · exact hstored.at_origin scope before hbefore other hother
    · split at hother
      · rename_i hscope
        rw [List.mem_singleton.mp hother, hscope]
      · cases hother
  · rw [index_withSignature, List.map_append, List.map_singleton]
    refine .trans ?_ (hperm.map _).symm
    exact List.perm_append_singleton _ _ |>.trans (hstored.indexed.cons _)
  · rw [(hperm.map _).nodup_iff, List.map_cons, List.nodup_cons]
    exact ⟨hfresh, hstored.nodup⟩
  · intro other hother
    rw [hcopies.mem_iff, List.mem_append] at hother
    rw [hperm.mem_iff, List.mem_cons]
    rcases hother with hother | hother
    · cases space with
      | none => simp at hother
      | some space => exact Or.inl (by simpa using hother)
    · exact Or.inr (hstored.copied hother)

theorem StoredOnce.extend {accepts : Signature → Prop} {graph grown : ScopeGraph}
    (hstored : StoredOnce accepts graph) (hextension : Extension accepts graph grown) :
    StoredOnce accepts grown := by
  cases hextension with
  | space | block => exact hstored.of_new_scope rfl rfl
  | classType => exact hstored.of_new_scope (scopes_withClass ..) (index_withClass ..)
  | pull | plainType =>
      exact ⟨hstored.accepted, hstored.at_origin, hstored.indexed, hstored.nodup, hstored.copied⟩
  | signature signature space haccepts horigin _ hfresh hspace =>
      exact hstored.of_signature haccepts horigin hfresh fun other hother =>
        (hspace other hother).2

theorem storedOnce_of_no_signatures {accepts : Signature → Prop} {graph : ScopeGraph}
    (hscopes : graph.scopes = empty.scopes) (hindex : graph.index = []) :
    StoredOnce accepts graph := by
  have hstored : graph.stored = [] := by simp [stored, hscopes, empty, Scope.ofKind]
  have hcopies : graph.copies = [] := by simp [copies, hscopes, empty, Scope.ofKind]
  refine ⟨by simp [hstored], ?_, by simp [hindex, hstored], by simp [hstored], by simp [hcopies]⟩
  intro scope contents hcontents signature hsignature
  have hmem : contents ∈ graph.scopes := List.mem_of_getElem? hcontents
  rw [hscopes, empty, List.mem_singleton] at hmem
  simp [hmem, Scope.ofKind] at hsignature

theorem Built.storedOnce {graph : ScopeGraph} (hbuilt : graph.Built) :
    StoredOnce (fun _ => True) graph :=
  hbuilt.induct (storedOnce_of_no_signatures rfl rfl) (storedOnce_of_no_signatures rfl rfl)
    fun _ _ _ hextension hstored => hstored.extend hextension

theorem BuiltChecked.storedOnce {graph : ScopeGraph} (hbuilt : graph.BuiltChecked) :
    StoredOnce (fun signature => signature.check = .ok ()) graph :=
  hbuilt.induct (storedOnce_of_no_signatures rfl rfl) (storedOnce_of_no_signatures rfl rfl)
    fun _ _ _ hextension hstored => hstored.extend hextension

/-! ## Declarations of one name -/

section Named

variable {graph : ScopeGraph} {scope : ScopeId} {name : String} {signature : Signature}

theorem mem_declaredAs_iff :
    signature ∈ graph.declaredAs scope name ↔
      ∃ contents, graph.contents? scope = some contents ∧ signature ∈ contents.declared ∧
        signature.name = name := by
  unfold declaredAs
  cases graph.contents? scope with
  | none => simp
  | some contents => simp

theorem mem_associations_iff :
    signature ∈ graph.associations scope name ↔
      ∃ contents, graph.contents? scope = some contents ∧ signature ∈ contents.associated ∧
        signature.name = name := by
  unfold associations
  cases graph.contents? scope with
  | none => simp
  | some contents => simp

theorem mem_stored_of_declaredAs (hmem : signature ∈ graph.declaredAs scope name) :
    signature ∈ graph.stored := by
  obtain ⟨contents, hcontents, hdeclared, _⟩ := mem_declaredAs_iff.mp hmem
  exact List.mem_flatMap.mpr ⟨contents, List.mem_of_getElem? hcontents, hdeclared⟩

variable {accepts : Signature → Prop}

/-- Stored signatures are told apart by their fingerprints. -/
theorem StoredOnce.keyInjective (hstored : StoredOnce accepts graph)
    {signatures : List Signature} (hsubset : signatures ⊆ graph.stored) :
    KeyedSet.KeyInjective (·.fingerprint) signatures :=
  (KeyedSet.keyInjective_of_nodup hstored.nodup).subset hsubset

theorem StoredOnce.origin_eq (hstored : StoredOnce accepts graph)
    (hmem : signature ∈ graph.declaredAs scope name) : signature.origin = scope := by
  obtain ⟨contents, hcontents, hdeclared, _⟩ := mem_declaredAs_iff.mp hmem
  exact hstored.at_origin scope contents hcontents signature hdeclared

theorem StoredOnce.mem_stored_of_associations (hstored : StoredOnce accepts graph)
    (hmem : signature ∈ graph.associations scope name) : signature ∈ graph.stored := by
  obtain ⟨contents, hcontents, hassociated, _⟩ := mem_associations_iff.mp hmem
  exact hstored.copied
    (List.mem_flatMap.mpr ⟨contents, List.mem_of_getElem? hcontents, hassociated⟩)

/-- Within one scope no fingerprint is declared twice. -/
theorem StoredOnce.nodup_declaredAs (hstored : StoredOnce accepts graph) (scope : ScopeId)
    (name : String) : ((graph.declaredAs scope name).map (·.fingerprint)).Nodup := by
  unfold declaredAs
  cases hcontents : graph.contents? scope with
  | none => simp
  | some contents =>
      have hscope : [contents].Sublist graph.scopes :=
        List.singleton_sublist.mpr (List.mem_of_getElem? hcontents)
      have hpart : contents.declared.Sublist graph.stored := by
        simpa [stored] using hscope.flatMap (·.declared)
      exact hstored.nodup.sublist ((List.filter_sublist.trans hpart).map _)

end Named

end ScopeGraph
end CallResolution
