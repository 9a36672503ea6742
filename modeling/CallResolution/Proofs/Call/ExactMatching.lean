import Mathlib.Tactic
import CallResolution.Proofs.Call.Matching
import CallResolution.Proofs.Signature.Form

/-!
# What a match reports

Matching stops at the first argument that does not bind.  Here it is compared with what
every argument comes to at its own slot, all of them tried: the failure reported is the first
of these that fails, the bindings recorded are those before it, and without a failure
there is one for every argument.

Parameters left over at the end are filled by their defaults without being looked at.  The
arity test only counts, but in a well-formed signature the parameters left over do have
defaults.

Slots and bounds are defined for any receiver that may take the first argument.  Matching uses
those of the receiver that the kind of the signature calls for.
-/

namespace CallResolution

theorem Binding.rank_ne_inapplicable (binding : Binding) : binding.rank ≠ .inapplicable := by
  have hstep : ∀ step : Step, step.rank ≠ .inapplicable := by
    rintro ⟨(_ | _) | _, _, _⟩ <;> simp [Step.rank]
  cases binding with
  | ellipsis => simp [Binding.rank]
  | converted conversion =>
      obtain ⟨_, _, route⟩ := conversion
      cases route with
      | trivial => simp [Binding.rank, Conversion.rank, Route.rank]
      | standardOnly step => exact hstep step
      | userOnly rule => simp [Binding.rank, Conversion.rank, Route.rank]
      | userThenStandard rule step => simp [Binding.rank, Conversion.rank, Route.rank]

/-! ## Slots -/

/-- How many arguments a receiver takes. -/
def receiverShare (taker : Option Receiver) : Nat :=
  if taker.isSome then 1 else 0

namespace Signature

/-- The slot of the argument at a place: the receiver that takes the first argument, if there
is one, then the parameters, then the ellipsis. -/
def slotFrom (signature : Signature) (taker : Option Receiver) (place : Nat) : Slot :=
  match taker, place with
  | some receiver, 0 => .receiver receiver
  | some _, index + 1 => .parameter (signature.fixedParameters[index]?.getD .ellipsis)
  | none, index => .parameter (signature.fixedParameters[index]?.getD .ellipsis)

/-- The slot that the argument at a position goes to, where the receiver takes an operand if the
kind of the signature says so. -/
def slotAt (signature : Signature) (place : Nat) : Slot :=
  signature.slotFrom signature.operandReceiver place

theorem getD_slots (signature : Signature) (place : Nat) :
    signature.slots[place]?.getD (.parameter .ellipsis) = signature.slotAt place := by
  have hparameters : ∀ index : Nat,
      (signature.fixedParameters.map Slot.parameter)[index]?.getD (.parameter .ellipsis) =
        .parameter (signature.fixedParameters[index]?.getD .ellipsis) := by
    intro index
    rw [List.getElem?_map]
    exact Option.getD_map Slot.parameter .ellipsis _
  unfold slots slotAt slotFrom
  cases signature.operandReceiver with
  | none => exact hparameters place
  | some taker =>
      cases place with
      | zero => rfl
      | succ index => exact hparameters index

theorem length_slots (signature : Signature) :
    signature.slots.length = signature.receiverCount + signature.fixedParameters.length := by
  unfold slots receiverCount
  cases signature.operandReceiver with
  | none => simp
  | some taker => simp [Nat.add_comm]

/-- A call may have this many arguments, with those that the receiver takes. -/
def TakesCountFrom (signature : Signature) (taker : Option Receiver) (count : Nat) : Prop :=
  signature.leastCount + receiverShare taker ≤ count ∧
    ∀ most ∈ signature.mostCount?, count ≤ most + receiverShare taker

/-- A call may have this many arguments, an operand for the receiver included. -/
def TakesCount (signature : Signature) (count : Nat) : Prop :=
  signature.TakesCountFrom signature.operandReceiver count

theorem receiverShare_operandReceiver (signature : Signature) :
    receiverShare signature.operandReceiver = signature.receiverCount :=
  rfl

theorem acceptsArguments_iff (signature : Signature) (count : Nat) :
    signature.acceptsArguments count = true ↔ signature.TakesCount count := by
  simp only [acceptsArguments, admits, TakesCount, TakesCountFrom,
    receiverShare_operandReceiver, Bool.and_eq_true, decide_eq_true_eq]
  cases signature.mostCount? with
  | none =>
      simp only [Option.all_none, and_true, Option.mem_def, reduceCtorEq, false_implies,
        implies_true]
      omega
  | some most =>
      simp only [Option.all_some, decide_eq_true_eq, Option.mem_def, Option.some.injEq,
        forall_eq']
      omega

/-- The parameters that a call with so many arguments leaves out, those for the receiver not
counted. -/
def omittedFrom (signature : Signature) (taker : Option Receiver) (count : Nat) :
    List Parameter :=
  signature.fixedParameters.drop (count - receiverShare taker)

/-- The parameters that a call with so many arguments leaves out. -/
def omitted (signature : Signature) (count : Nat) : List Parameter :=
  signature.omittedFrom signature.operandReceiver count

/-- What every argument comes to at its slot. -/
def attempts (signature : Signature) (args : List Argument) (table : ConversionTable)
    (graph : ScopeGraph) : List (Except BindRefusal Binding) :=
  args.mapIdx fun place arg => (signature.slotAt place).bind arg table graph

section Attempts

variable {signature : Signature} {args : List Argument} {table : ConversionTable}
  {graph : ScopeGraph} {place : Nat}

/-- What an argument comes to is what it comes to at its slot. -/
theorem exists_of_attempts {outcome : Except BindRefusal Binding}
    (hattempt : (signature.attempts args table graph)[place]? = some outcome) :
    ∃ arg, args[place]? = some arg ∧
      (signature.slotFrom signature.operandReceiver place).bind arg table graph = outcome := by
  rw [attempts, List.getElem?_mapIdx] at hattempt
  exact Option.map_eq_some_iff.mp hattempt

/-- Bindings that the attempts begin with are those of their slots. -/
theorem exists_of_bindings {bindings : List Binding} {binding : Binding}
    {later : List (Except BindRefusal Binding)}
    (hattempts : signature.attempts args table graph = bindings.map .ok ++ later)
    (hbinding : bindings[place]? = some binding) :
    ∃ arg, args[place]? = some arg ∧
      (signature.slotFrom signature.operandReceiver place).bind arg table graph =
        .ok binding := by
  have hplace : place < bindings.length := (List.getElem?_eq_some_iff.mp hbinding).1
  apply exists_of_attempts
  rw [hattempts, List.getElem?_append_left (by simpa using hplace), List.getElem?_map, hbinding]
  rfl

end Attempts

end Signature

/-! ## Binding arguments one after the other -/

section Bind

variable (table : ConversionTable) (graph : ScopeGraph)

/-- What every argument comes to at its slot, whatever those before it come to. -/
def bindEach (slots : List Slot) (args : List Argument) : List (Except BindRefusal Binding) :=
  args.mapIdx fun place arg => (slots[place]?.getD (.parameter .ellipsis)).bind arg table graph

theorem bindEach_cons (slots : List Slot) (arg : Argument) (rest : List Argument) :
    bindEach table graph slots (arg :: rest) =
      (slots.head?.getD (.parameter .ellipsis)).bind arg table graph ::
        bindEach table graph slots.tail rest := by
  simp only [bindEach, List.mapIdx_cons, List.head?_eq_getElem?, List.getElem?_tail]

theorem Signature.attempts_eq (signature : Signature) (args : List Argument) :
    signature.attempts args table graph = bindEach table graph signature.slots args := by
  simp only [attempts, bindEach, getD_slots]

/-- Either all arguments bind, or there are bindings for those before the first that does
not. -/
theorem bindArguments_split (position : Nat) (slots : List Slot) (args : List Argument) :
    (∃ bindings, bindEach table graph slots args = bindings.map .ok ∧
      bindArguments table graph position slots args =
        ⟨bindings, slots.drop args.length, none⟩) ∨
    ∃ bindings reason later unfilled,
      bindEach table graph slots args = bindings.map .ok ++ .error reason :: later ∧
      bindArguments table graph position slots args =
        ⟨bindings, unfilled, some (position + bindings.length, reason)⟩ := by
  induction args generalizing position slots with
  | nil => exact .inl ⟨[], rfl, rfl⟩
  | cons arg rest ih =>
      -- Where the head binds, the rest is bound to the slots behind, one position on.
      rw [bindEach_cons, bindArguments]
      cases (slots.head?.getD (.parameter .ellipsis)).bind arg table graph with
      | error reason =>
          exact .inr ⟨[], reason, bindEach table graph slots.tail rest, slots.tail, rfl, rfl⟩
      | ok binding =>
          dsimp only
          rcases ih (position + 1) slots.tail with ⟨bindings, hall, hbound⟩ |
            ⟨bindings, reason, later, unfilled, hsome, hbound⟩
          · refine .inl ⟨binding :: bindings, by rw [hall, List.map_cons], ?_⟩
            rw [hbound, List.length_cons, List.drop_tail]
          · refine .inr ⟨binding :: bindings, reason, later, unfilled,
              by rw [hsome, List.map_cons, List.cons_append], ?_⟩
            rw [hbound, List.length_cons, Nat.add_right_comm, Nat.add_assoc]

end Bind

/-! ## First failures -/

/-- The attempt at this place fails, and none before it does. -/
def FailsFirst (attempts : List (Except BindRefusal Binding)) (place : Nat)
    (reason : BindRefusal) : Prop :=
  attempts[place]? = some (.error reason) ∧
    ∀ earlier < place, ∃ binding, attempts[earlier]? = some (.ok binding)

theorem not_failsFirst_of_bindings {bindings : List Binding} {place : Nat}
    {reason : BindRefusal} : ¬ FailsFirst (bindings.map .ok) place reason := by
  rintro ⟨hfails, _⟩
  have hmem := List.mem_of_getElem? hfails
  simp at hmem

theorem failsFirst_append_iff {bindings : List Binding} {reason found : BindRefusal}
    {later : List (Except BindRefusal Binding)} {place : Nat} :
    FailsFirst (bindings.map .ok ++ .error reason :: later) place found ↔
      bindings.length = place ∧ reason = found := by
  have hbefore : ∀ earlier < bindings.length, ∃ binding,
      (bindings.map .ok ++ Except.error reason :: later)[earlier]? = some (.ok binding) := by
    intro earlier hearlier
    exact ⟨bindings[earlier], by simp [List.getElem?_append_left, hearlier]⟩
  have hat : (bindings.map .ok ++ Except.error reason :: later)[bindings.length]? =
      some (.error reason) := by
    simp
  constructor
  · rintro ⟨hfails, hbinds⟩
    -- Before the failing place all bind, and behind it one before does not.
    rcases Nat.lt_trichotomy place bindings.length with hless | rfl | hmore
    · obtain ⟨binding, hbinding⟩ := hbefore place hless
      cases hbinding.symm.trans hfails
    · cases hat.symm.trans hfails
      exact ⟨rfl, rfl⟩
    · obtain ⟨binding, hbinding⟩ := hbinds bindings.length hmore
      cases hat.symm.trans hbinding
  · rintro ⟨rfl, rfl⟩
    exact ⟨hat, hbefore⟩

/-! ## The report -/

namespace Candidate

/-- The candidate is what comes of matching the arguments where `taker` takes the first one, or
no receiver takes any.  Its failure is that of their number, with bounds that count the
receiver, or an argument that its slot refuses; every binding is that of its slot; and
without a failure the defaults make up the rest. -/
structure MatchedFrom (candidate : Candidate) (taker : Option Receiver)
    (args : List Argument) (table : ConversionTable) (graph : ScopeGraph) : Prop where
  arity_iff : ∀ least most found, candidate.failure = some (.arity least most found) ↔
    ¬ candidate.signature.TakesCountFrom taker args.length ∧
      least = candidate.signature.leastCount + receiverShare taker ∧
      most = candidate.signature.mostCount?.map (· + receiverShare taker) ∧
      found = args.length
  bound : ∀ place binding, candidate.bindings[place]? = some binding →
    ∃ arg, args[place]? = some arg ∧
      (candidate.signature.slotFrom taker place).bind arg table graph = .ok binding
  refused : ∀ place reason, candidate.failure = some (.position place reason) →
    candidate.bindings.length = place ∧ ∃ arg, args[place]? = some arg ∧
      (candidate.signature.slotFrom taker place).bind arg table graph = .error reason
  filled : candidate.failure = none →
    candidate.bindings.length = args.length ∧
      candidate.positions = candidate.bindings.map (fun binding => .supplied binding.rank) ++
        (candidate.signature.omittedFrom taker args.length).map (fun _ => .defaulted)

/-- The candidate reports exactly what its arguments come to.  It is what comes of matching with
the receiver that the kind calls for.  Its failure is that of their number, or of the first that
does not bind; it has the bindings up to there and their ranks; and if nothing fails,
parameters that have a default make up the rest. -/
structure Reports (candidate : Candidate) (args : List Argument) (table : ConversionTable)
    (graph : ScopeGraph) : Prop
    extends candidate.MatchedFrom candidate.signature.operandReceiver args table graph where
  position_iff : ∀ place reason, candidate.failure = some (.position place reason) ↔
    candidate.signature.TakesCount args.length ∧
      FailsFirst (candidate.signature.attempts args table graph) place reason
  viable_iff : candidate.isViable = true ↔
    candidate.signature.TakesCount args.length ∧
      ∀ attempt ∈ candidate.signature.attempts args table graph, ∃ binding, attempt = .ok binding
  of_arity : ¬ candidate.signature.TakesCount args.length →
    candidate.positions = [] ∧ candidate.bindings = []
  of_position : ∀ place reason, candidate.failure = some (.position place reason) →
    (candidate.signature.attempts args table graph).take place = candidate.bindings.map .ok ∧
      candidate.positions = candidate.bindings.map (fun binding => .supplied binding.rank) ++
        [.supplied .inapplicable]
  of_viable : candidate.isViable = true →
    candidate.signature.attempts args table graph = candidate.bindings.map .ok ∧
      ∀ parameter ∈ candidate.signature.omitted args.length, parameter.hasDefault = true
  applicable : ∀ binding ∈ candidate.bindings, binding.rank ≠ .inapplicable

end Candidate

namespace Proposal

variable {proposal : Proposal} {args : List Argument} {table : ConversionTable}
  {graph : ScopeGraph} {bindings : List Binding}

theorem reports_arityMismatch (hcount : ¬ proposal.signature.TakesCount args.length) :
    (proposal.arityMismatch args.length).Reports args table graph where
  arity_iff least most found := by
    constructor
    · intro hfailure
      cases hfailure
      exact ⟨hcount, rfl, rfl, rfl⟩
    · rintro ⟨_, rfl, rfl, rfl⟩
      rfl
  bound place binding hbinding := by cases hbinding
  refused place reason hfailure := by cases hfailure
  filled hfailure := by cases hfailure
  position_iff place reason := by
    simp [arityMismatch, hcount]
  viable_iff := by
    simp [Candidate.isViable, arityMismatch, hcount]
  of_arity _ := ⟨rfl, rfl⟩
  of_position place reason hfailure := by cases hfailure
  of_viable hviable := by cases hviable
  applicable binding _ := binding.rank_ne_inapplicable

/-- Once arguments are bound, their number is no failure. -/
theorem failure_ofBound_ne_arity (proposal : Proposal) (bound : BoundArguments) (least : Nat)
    (most : Option Nat) (found : Nat) :
    (proposal.ofBound bound).failure ≠ some (.arity least most found) := by
  simp [ofBound]

/-- The slots left over are those of the parameters left out. -/
theorem map_defaulted_eq {signature : Signature} {count : Nat}
    (hcount : signature.receiverCount ≤ count) :
    (signature.slots.drop count).map (fun _ => PlaceRank.defaulted) =
      (signature.omitted count).map (fun _ => PlaceRank.defaulted) := by
  rw [List.map_const', List.map_const', List.length_drop, signature.length_slots,
    Signature.omitted, Signature.omittedFrom, List.length_drop,
    signature.receiverShare_operandReceiver]
  congr 1
  omega

theorem reports_ofBound_of_bindings (hcheck : proposal.signature.check = .ok ())
    (hcount : proposal.signature.TakesCount args.length)
    (hattempts : proposal.signature.attempts args table graph = bindings.map .ok) :
    (proposal.ofBound ⟨bindings, proposal.signature.slots.drop args.length, none⟩).Reports
      args table graph where
  arity_iff least most found :=
    iff_of_false (proposal.failure_ofBound_ne_arity _ least most found)
      fun hrefuses => hrefuses.1 hcount
  bound place binding hbinding :=
    Signature.exists_of_bindings (hattempts.trans (List.append_nil _).symm) hbinding
  refused place reason hfailure := by cases hfailure
  filled _ := by
    have hlength : bindings.length = args.length := by
      simpa [Signature.attempts] using (congrArg List.length hattempts).symm
    refine ⟨hlength, congrArg _ (map_defaulted_eq ?_)⟩
    exact Nat.le_trans (Nat.le_add_left _ _) hcount.1
  position_iff place reason := by
    simp [ofBound, hattempts, not_failsFirst_of_bindings]
  viable_iff := by
    simp [Candidate.isViable, ofBound, hcount, hattempts]
  of_arity hcount' := absurd hcount hcount'
  of_position place reason hfailure := by cases hfailure
  of_viable _ :=
    -- Only here does it matter that the signature was checked.
    ⟨hattempts, Signature.hasDefault_of_mem_drop hcheck (Nat.le_sub_of_add_le hcount.1)⟩
  applicable binding _ := binding.rank_ne_inapplicable

theorem reports_ofBound_of_failure {reason : BindRefusal}
    {later : List (Except BindRefusal Binding)} {unfilled : List Slot}
    (hcount : proposal.signature.TakesCount args.length)
    (hattempts : proposal.signature.attempts args table graph =
      bindings.map .ok ++ .error reason :: later) :
    (proposal.ofBound ⟨bindings, unfilled, some (bindings.length, reason)⟩).Reports
      args table graph where
  arity_iff least most found :=
    iff_of_false (proposal.failure_ofBound_ne_arity _ least most found)
      fun hrefuses => hrefuses.1 hcount
  bound place binding hbinding := Signature.exists_of_bindings hattempts hbinding
  refused place found hfailure := by
    obtain ⟨rfl, rfl⟩ : bindings.length = place ∧ reason = found := by
      simpa [ofBound] using hfailure
    have hfails : (proposal.signature.attempts args table graph)[bindings.length]? =
        some (.error reason) := by
      rw [hattempts]
      simp
    exact ⟨rfl, Signature.exists_of_attempts hfails⟩
  filled hfailure := by cases hfailure
  position_iff place found := by
    change _ ↔ _ ∧ FailsFirst (proposal.signature.attempts args table graph) place found
    rw [hattempts, failsFirst_append_iff]
    simp [ofBound, hcount]
  viable_iff := by
    constructor
    · intro hviable
      cases hviable
    · rintro ⟨_, hall⟩
      obtain ⟨binding, hbinding⟩ := hall (.error reason) (by simp [ofBound, hattempts])
      cases hbinding
  of_arity hcount' := absurd hcount hcount'
  of_position place found hfailure := by
    obtain ⟨rfl, rfl⟩ : bindings.length = place ∧ reason = found := by
      simpa [ofBound] using hfailure
    refine ⟨?_, rfl⟩
    change (proposal.signature.attempts args table graph).take bindings.length = _
    rw [hattempts]
    exact List.take_left' (List.length_map _)
  of_viable hviable := by cases hviable
  applicable binding _ := binding.rank_ne_inapplicable

/-- What a well-formed proposal is matched to reports exactly what its arguments come to. -/
theorem reports_matchedTo (proposal : Proposal) (args : List Argument) (table : ConversionTable)
    (graph : ScopeGraph) (hcheck : proposal.signature.check = .ok ()) :
    (proposal.matchedTo args table graph).Reports args table graph := by
  have hsplit := bindArguments_split table graph 0 proposal.signature.slots args
  rw [← Signature.attempts_eq] at hsplit
  unfold matchedTo
  split
  · rename_i haccepts
    rw [Signature.acceptsArguments_iff] at haccepts
    rcases hsplit with ⟨bindings, hall, hbound⟩ | ⟨bindings, reason, later, unfilled, hsome, hbound⟩
    · rw [hbound]
      exact reports_ofBound_of_bindings hcheck haccepts hall
    · rw [hbound, Nat.zero_add]
      exact reports_ofBound_of_failure haccepts hsome
  · rename_i hrefuses
    rw [Signature.acceptsArguments_iff] at hrefuses
    exact reports_arityMismatch hrefuses

theorem signature_matchedTo (proposal : Proposal) (args : List Argument)
    (table : ConversionTable) (graph : ScopeGraph) :
    (proposal.matchedTo args table graph).signature = proposal.signature := by
  unfold matchedTo
  split <;> rfl

theorem source_matchedTo (proposal : Proposal) (args : List Argument)
    (table : ConversionTable) (graph : ScopeGraph) :
    (proposal.matchedTo args table graph).source = proposal.source := by
  unfold matchedTo
  split <;> rfl

/-- A well-formed proposal always has a match, and the match reports exactly what the
arguments come to at their slots. -/
theorem matchArguments_reports_exactly (proposal : Proposal) (args : List Argument)
    (table : ConversionTable) (graph : ScopeGraph)
    (hcheck : proposal.signature.check = .ok ()) :
    ∃ candidate, proposal.matchArguments args table graph = .ok candidate ∧
      candidate.signature = proposal.signature ∧ candidate.source = proposal.source ∧
      candidate.Reports args table graph :=
  ⟨proposal.matchedTo args table graph,
    (matchArguments_eq_ok_iff proposal args table graph _).mpr ⟨hcheck, rfl⟩,
    proposal.signature_matchedTo args table graph, proposal.source_matchedTo args table graph,
    proposal.reports_matchedTo args table graph hcheck⟩

/-- A member that stores an element of a matrix in a variable, by row and by column. -/
def elementInto : Proposal where
  signature :=
    { name := "operator()"
      origin := ⟨1⟩
      kind := .operator
      parameters := [⟨.ofName "double", .mutableReference, false, false⟩,
        ⟨.ofName "int", .byValue, true, false⟩, ⟨.ofName "int", .byValue, true, false⟩]
      receiver := some ⟨.ofName "Matrix", true⟩ }
  source := .member

/-- A matrix, a variable or a value in its place, and a row. -/
def elementArguments (category : ValueCategory) : List Argument :=
  [⟨.ofName "Matrix", .rvalue⟩, ⟨.ofName "double", category⟩, ⟨.ofName "int", .rvalue⟩]

/-- With a variable the column is left out; a value cannot stand for a variable, and the row
is not looked at any more. -/
theorem elementInto_reports :
    (∃ candidate,
      elementInto.matchArguments (elementArguments .mutableLvalue) .empty .empty =
        .ok candidate ∧
      candidate.isViable = true ∧
      candidate.positions = candidate.bindings.map (fun binding => .supplied binding.rank) ++
        [.defaulted]) ∧
    ∃ candidate,
      elementInto.matchArguments (elementArguments .rvalue) .empty .empty = .ok candidate ∧
      candidate.failure = some (.position 1 (.mutableCategory .rvalue)) ∧
      candidate.bindings.length = 1 := by
  have hcheck : elementInto.signature.check = .ok () := by decide
  obtain ⟨viable, hviable, hsignature, _, hreports⟩ :=
    matchArguments_reports_exactly elementInto (elementArguments .mutableLvalue) .empty .empty
      hcheck
  obtain ⟨failed, hfailed, hsignature', _, hreports'⟩ :=
    matchArguments_reports_exactly elementInto (elementArguments .rvalue) .empty .empty hcheck
  have hbinds : viable.isViable = true := by
    have hattempts : elementInto.signature.attempts (elementArguments .mutableLvalue) .empty
        .empty = [.ok (.converted (.identity (.ofName "Matrix"))),
          .ok (.converted (.identity (.ofName "double"))),
          .ok (.converted (.identity (.ofName "int")))] := by
      decide +kernel
    rw [hreports.viable_iff, hsignature]
    exact ⟨⟨by decide, by decide⟩, by simp [hattempts]⟩
  have hfailure : failed.failure = some (.position 1 (.mutableCategory .rvalue)) := by
    rw [hreports'.position_iff, hsignature']
    refine ⟨⟨by decide, by decide⟩, by decide +kernel, fun earlier hearlier => ?_⟩
    obtain rfl : earlier = 0 := by omega
    exact ⟨.converted (.identity (.ofName "Matrix")), by decide +kernel⟩
  have hpositions := (hreports.filled (Option.isNone_iff_eq_none.mp hbinds)).2
  rw [hsignature] at hpositions
  exact ⟨⟨viable, hviable, hbinds, hpositions⟩,
    failed, hfailed, hfailure, (hreports'.refused _ _ hfailure).1⟩

end Proposal
end CallResolution
