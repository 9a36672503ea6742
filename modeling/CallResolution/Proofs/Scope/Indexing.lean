import Mathlib.Tactic
import CallResolution.Proofs.Scope.Inheritance
import CallResolution.Proofs.Scope.Storage

/-!
# The index leads to what is stored

A stored signature is kept in up to three places: among the declarations of its scope, as a
copy in another scope, and as a place in the index.  They are written one after the other
when a signature is declared.  In a graph built by commands they agree: asking the index for
a fingerprint gives the stored signature that has it, and nothing else.

A place in the index is a position among the declarations of one name in one scope.  It
stays right because declarations are only ever added at the end.
-/

namespace CallResolution
namespace ScopeGraph

/-! ## Declarations and copies after one change -/

section Append

variable {graph grown : ScopeGraph} {kind : ScopeKind}
  (hscopes : grown.scopes = graph.scopes ++ [Scope.ofKind kind])
include hscopes

theorem declaredAs_of_append (scope : ScopeId) (name : String) :
    grown.declaredAs scope name = graph.declaredAs scope name := by
  unfold declaredAs
  rcases contents?_of_append hscopes scope with hsame | ⟨hnone, hnew⟩
  · rw [hsame]
  · rw [hnone, hnew]
    rfl

theorem associations_of_append (scope : ScopeId) (name : String) :
    grown.associations scope name = graph.associations scope name := by
  unfold associations
  rcases contents?_of_append hscopes scope with hsame | ⟨hnone, hnew⟩
  · rw [hsame]
  · rw [hnone, hnew]
    rfl

end Append

theorem contents?_eq_none_iff (graph : ScopeGraph) (scope : ScopeId) :
    graph.contents? scope = none ↔ graph.holds scope = false := by
  simp [contents?, holds]

section Store

variable (graph : ScopeGraph) (signature : Signature) (scope : ScopeId) (name : String)

/-- A signature is declared in its own scope under its own name, behind what was there. -/
theorem declaredAs_withSignature (space : Option ScopeId)
    (horigin : graph.holds signature.origin = true) :
    (graph.withSignature signature space).declaredAs scope name =
      graph.declaredAs scope name ++
        if scope = signature.origin ∧ signature.name = name then [signature] else [] := by
  unfold declaredAs
  rw [contents?_withSignature]
  cases hcontents : graph.contents? scope with
  | none =>
      have hother : scope ≠ signature.origin := by
        rintro rfl
        rw [contents?_eq_none_iff, horigin] at hcontents
        cases hcontents
      simp [hother]
  | some contents =>
      by_cases hscope : scope = signature.origin
      · by_cases hname : signature.name = name
        · simp [hscope, hname]
        · simp [hscope, hname]
      · simp [hscope]

theorem associations_withSignature {space : Option ScopeId}
    (hspace : ∀ other ∈ space, graph.holds other = true) :
    (graph.withSignature signature space).associations scope name =
      graph.associations scope name ++
        if space = some scope ∧ signature.name = name then [signature] else [] := by
  unfold associations
  rw [contents?_withSignature]
  cases hcontents : graph.contents? scope with
  | none =>
      have hother : space ≠ some scope := by
        rintro rfl
        rw [contents?_eq_none_iff, hspace scope rfl] at hcontents
        cases hcontents
      simp [hother]
  | some contents =>
      by_cases hscope : space = some scope
      · by_cases hname : signature.name = name
        · simp [hscope, hname]
        · simp [hscope, hname]
      · simp [hscope]

end Store

/-! ## The invariant -/

/-- Places in the index hold the signatures they are for, members are declared in the scope
of their class, and copies are made in other scopes only. -/
structure Indexed (graph : ScopeGraph) : Prop where
  placed : ∀ entry ∈ graph.index, ∃ signature,
    (graph.declaredAs entry.scope entry.name)[entry.place]? = some signature ∧
      signature.fingerprint = entry.fingerprint
  members : ∀ scope name, ∀ signature ∈ graph.declaredAs scope name, graph.FitsMember signature
  elsewhere : ∀ scope name, ∀ signature ∈ graph.associations scope name,
    signature.origin ≠ scope

theorem Indexed.of_new_scope {graph grown : ScopeGraph} {kind : ScopeKind}
    (hindexed : graph.Indexed) (hscopes : grown.scopes = graph.scopes ++ [Scope.ofKind kind])
    (hindex : grown.index = graph.index) : grown.Indexed where
  placed entry hentry := by
    rw [hindex] at hentry
    rw [declaredAs_of_append hscopes]
    exact hindexed.placed entry hentry
  members scope name signature hmem receiver hreceiver := by
    rw [declaredAs_of_append hscopes] at hmem
    have hkind := hindexed.members scope name signature hmem receiver hreceiver
    exact kind?_append_of_eq_some hscopes hkind
  elsewhere scope name signature hmem := by
    rw [associations_of_append hscopes] at hmem
    exact hindexed.elsewhere scope name signature hmem

theorem Indexed.of_signature {graph : ScopeGraph} (hindexed : graph.Indexed)
    {signature : Signature} {space : Option ScopeId}
    (horigin : graph.holds signature.origin = true) (hmember : graph.FitsMember signature)
    (hspace : ∀ other ∈ space, other ≠ signature.origin ∧ graph.holds other = true) :
    (graph.withSignature signature space).Indexed where
  placed entry hentry := by
    rw [index_withSignature, List.mem_append, List.mem_singleton] at hentry
    rw [declaredAs_withSignature _ _ _ _ _ horigin]
    rcases hentry with hold | rfl
    · -- An old place lies before the end of the list, where nothing changes.
      obtain ⟨found, hfound, hfingerprint⟩ := hindexed.placed entry hold
      have hbound := (List.getElem?_eq_some_iff.mp hfound).1
      exact ⟨found, by rw [List.getElem?_append_left hbound, hfound], hfingerprint⟩
    · refine ⟨signature, ?_, rfl⟩
      rw [if_pos ⟨rfl, rfl⟩]
      exact List.getElem?_concat_length
  members scope name other hmem receiver hreceiver := by
    rw [declaredAs_withSignature _ _ _ _ _ horigin, List.mem_append] at hmem
    rw [kind?_withSignature]
    rcases hmem with hold | hnew
    · exact hindexed.members scope name other hold receiver hreceiver
    · split at hnew
      · rw [List.mem_singleton.mp hnew] at hreceiver ⊢
        exact hmember receiver hreceiver
      · cases hnew
  elsewhere scope name other hmem := by
    rw [associations_withSignature _ _ _ _ fun other hother => (hspace other hother).2,
      List.mem_append] at hmem
    rcases hmem with hold | hnew
    · exact hindexed.elsewhere scope name other hold
    · split at hnew
      · rename_i hhere
        rw [List.mem_singleton.mp hnew]
        exact Ne.symm (hspace scope hhere.1).1
      · cases hnew

theorem Indexed.extend {accepts : Signature → Prop} {graph grown : ScopeGraph}
    (hindexed : graph.Indexed) (hextension : Extension accepts graph grown) : grown.Indexed := by
  cases hextension with
  | space | block => exact hindexed.of_new_scope rfl rfl
  | classType => exact hindexed.of_new_scope (scopes_withClass ..) (index_withClass ..)
  | pull | plainType => exact ⟨hindexed.placed, hindexed.members, hindexed.elsewhere⟩
  | signature signature space _ horigin hmember _ hspace =>
      exact hindexed.of_signature horigin hmember hspace

theorem indexed_of_no_signatures {graph : ScopeGraph} (hscopes : graph.scopes = empty.scopes)
    (hindex : graph.index = []) : graph.Indexed := by
  have hcontents : ∀ scope contents, graph.contents? scope = some contents →
      contents = Scope.ofKind .space := by
    intro scope contents hfound
    have hmem : contents ∈ graph.scopes := List.mem_of_getElem? hfound
    rw [hscopes] at hmem
    exact List.mem_singleton.mp hmem
  refine ⟨by simp [hindex], ?_, ?_⟩
  · intro scope name signature hmem
    obtain ⟨contents, hfound, hdeclared, _⟩ := mem_declaredAs_iff.mp hmem
    rw [hcontents scope contents hfound] at hdeclared
    cases hdeclared
  · intro scope name signature hmem
    obtain ⟨contents, hfound, hassociated, _⟩ := mem_associations_iff.mp hmem
    rw [hcontents scope contents hfound] at hassociated
    cases hassociated

theorem Built.indexed {graph : ScopeGraph} (hbuilt : graph.Built) : graph.Indexed :=
  hbuilt.induct (indexed_of_no_signatures rfl rfl) (indexed_of_no_signatures rfl rfl)
    fun _ _ _ hextension hindexed => hindexed.extend hextension

/-! ## What the index answers -/

section Answers

variable {accepts : Signature → Prop} {graph : ScopeGraph} (hstored : StoredOnce accepts graph)
include hstored

theorem StoredOnce.mem_declaredAs_iff_mem_stored {scope : ScopeId} {name : String}
    {signature : Signature} :
    signature ∈ graph.declaredAs scope name ↔
      signature ∈ graph.stored ∧ signature.name = name ∧ signature.origin = scope := by
  constructor
  · intro hmem
    obtain ⟨_, _, _, hname⟩ := mem_declaredAs_iff.mp hmem
    exact ⟨mem_stored_of_declaredAs hmem, hname, hstored.origin_eq hmem⟩
  · rintro ⟨hmem, rfl, rfl⟩
    obtain ⟨contents, hcontents, hdeclared⟩ := List.mem_flatMap.mp hmem
    obtain ⟨index, hindex⟩ := List.getElem?_of_mem hcontents
    have hscope : signature.origin = ⟨index⟩ :=
      hstored.at_origin ⟨index⟩ contents hindex signature hdeclared
    rw [mem_declaredAs_iff, hscope]
    exact ⟨contents, hindex, hdeclared, rfl⟩

/-- The index finds the signature that has the fingerprint, and only this one. -/
theorem StoredOnce.signature?_eq_some_iff (hindexed : graph.Indexed) {fingerprint : Fingerprint}
    {signature : Signature} :
    graph.signature? fingerprint = some signature ↔
      signature ∈ graph.stored ∧ signature.fingerprint = fingerprint := by
  have hfound : ∀ entry, graph.index.find? (·.fingerprint == fingerprint) = some entry →
      ∃ found, graph.signature? fingerprint = some found ∧ found ∈ graph.stored ∧
        found.fingerprint = fingerprint := by
    intro entry hentry
    obtain ⟨found, hplace, hfingerprint⟩ :=
      hindexed.placed entry (List.mem_of_find?_eq_some hentry)
    have hkey : entry.fingerprint = fingerprint := by simpa using List.find?_some hentry
    refine ⟨found, ?_, mem_stored_of_declaredAs (List.mem_of_getElem? hplace),
      hfingerprint.trans hkey⟩
    rw [signature?, hentry]
    exact hplace
  constructor
  · intro hanswer
    obtain ⟨entry, hentry, _⟩ := Option.bind_eq_some_iff.mp hanswer
    obtain ⟨found, hsame, hmem, hfingerprint⟩ := hfound entry hentry
    rw [hanswer] at hsame
    obtain rfl := Option.some.inj hsame
    exact ⟨hmem, hfingerprint⟩
  · rintro ⟨hmem, hfingerprint⟩
    -- Some entry has the fingerprint, and the signature behind it cannot be another one.
    have hkey : graph.isIndexed fingerprint = true := by
      rw [hstored.isIndexed_iff, ← hfingerprint]
      exact List.mem_map_of_mem hmem
    obtain ⟨entry, hentry⟩ := Option.isSome_iff_exists.mp
      ((List.find?_isSome.mpr (List.any_eq_true.mp hkey)))
    obtain ⟨found, hanswer, hstoredFound, hsame⟩ := hfound entry hentry
    have heq : found = signature :=
      hstored.keyInjective (List.Subset.refl _) found hstoredFound signature hmem
        (hsame.trans hfingerprint.symm)
    rw [hanswer, heq]

theorem StoredOnce.storedCount_eq : graph.storedCount = graph.stored.length := by
  simpa [storedCount] using hstored.indexed.length_eq

end Answers

/-- The index answers with the stored signature that has the fingerprint.  A signature is
stored once, under its own name in its own scope, which is the scope of its class if it is a
member; copies of it are in other scopes; and the index has an entry for each.

That the name is its own holds by the way `Scope.declared` is kept.  That the scope is its own,
and that an entry of the index finds it under that name, is what building has to keep up. -/
theorem index_and_storage_agree {graph : ScopeGraph} (hbuilt : graph.Built) :
    (∀ fingerprint signature, graph.signature? fingerprint = some signature ↔
      signature ∈ graph.stored ∧ signature.fingerprint = fingerprint) ∧
    (∀ scope name signature, signature ∈ graph.declaredAs scope name ↔
      signature ∈ graph.stored ∧ signature.name = name ∧ signature.origin = scope) ∧
    (graph.stored.map (·.fingerprint)).Nodup ∧
    (∀ scope name, ∀ signature ∈ graph.associations scope name,
      signature ∈ graph.stored ∧ signature.name = name ∧ signature.origin ≠ scope) ∧
    (∀ signature ∈ graph.stored, ∀ receiver ∈ signature.receiver,
      graph.kind? signature.origin = some (.classBody receiver.type) ∧
        graph.body? receiver.type = some signature.origin) ∧
    graph.storedCount = graph.stored.length := by
  have hstored := hbuilt.storedOnce
  have hindexed := hbuilt.indexed
  refine ⟨fun _ _ => hstored.signature?_eq_some_iff hindexed,
    fun _ _ _ => hstored.mem_declaredAs_iff_mem_stored, hstored.nodup, ?_, ?_,
    hstored.storedCount_eq⟩
  · intro scope name signature hmem
    obtain ⟨_, _, _, hname⟩ := mem_associations_iff.mp hmem
    exact ⟨hstored.mem_stored_of_associations hmem, hname,
      hindexed.elsewhere scope name signature hmem⟩
  · intro signature hmem receiver hreceiver
    have hdeclared : signature ∈ graph.declaredAs signature.origin signature.name :=
      hstored.mem_declaredAs_iff_mem_stored.mpr ⟨hmem, rfl, rfl⟩
    have hkind := hindexed.members _ _ signature hdeclared receiver hreceiver
    exact ⟨hkind, hbuilt.hierarchy.class_body _ _ hkind⟩

/-- An addition that is declared in the scope of a class but is no member of it. -/
def vectorAddition : Signature where
  name := "operator+"
  origin := ⟨2⟩
  kind := .operator
  parameters := [⟨.ofName "math::Vec", .constReference, false, false⟩, .ellipsis]
  receiver := none

/-- A class in a namespace that offers the addition of the class too, a member of the same
name, and a function whose form is wrong but was not checked.  The addition is declared a
second time and a member is declared outside of its class; both are refused. -/
def vectorSpace : ScopeGraph :=
  Command.runAll
    [.enterPath ["math"], .newClass ⟨1⟩ "Vec" [],
      .declare ⟨vectorAddition, some ⟨1⟩⟩,
      .newMemberOperator (.ofName "math::Vec") .add false [.ellipsis],
      .declareAsIs ⟨vectorAddition, none⟩,
      .declare ⟨⟨"norm", ⟨1⟩, .method, [], some ⟨.ofName "math::Vec", true⟩⟩, none⟩,
      .declareAsIs ⟨⟨"sum", ⟨1⟩, .function, [.ellipsis, .ellipsis], none⟩, none⟩]
    withScalars

/-- The copy in the namespace is found by its fingerprint in the scope of the class. -/
theorem vectorSpace_indexed :
    vectorSpace.Built ∧ vectorSpace.storedCount = 3 ∧
      vectorSpace.associations ⟨1⟩ "operator+" = [vectorAddition] ∧
      vectorSpace.signature? vectorAddition.fingerprint = some vectorAddition ∧
      vectorAddition.origin ≠ ⟨1⟩ := by
  have hbuilt : vectorSpace.Built := ⟨_, Or.inr rfl⟩
  obtain ⟨hindex, _, _, hcopies, _, hcount⟩ := index_and_storage_agree hbuilt
  have hcopy : vectorSpace.associations ⟨1⟩ "operator+" = [vectorAddition] := by decide +kernel
  have hlength : vectorSpace.stored.length = 3 := by decide +kernel
  obtain ⟨hstored, _, horigin⟩ := hcopies ⟨1⟩ "operator+" vectorAddition (by simp [hcopy])
  exact ⟨hbuilt, hcount.trans hlength, hcopy, (hindex _ _).mpr ⟨hstored, rfl⟩, horigin⟩

end ScopeGraph
end CallResolution
