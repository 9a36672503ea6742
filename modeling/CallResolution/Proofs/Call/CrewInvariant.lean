import CallResolution.Proofs.Call.Interleaving

/-!
# What holds throughout an interleaving

Only indices of calls that really fail are ever published, and every worker is where the
sequential algorithm takes it if it observes what the log says.  So a worker gives its
chunk up only if a call before its chunk fails.

The invariant is kept by every turn of a worker and by raising the flag.  A turn touches
only its own worker and the part of the log that belongs to its chunk; chunks do not
overlap, so the other workers do not notice.
-/

namespace CallResolution

/-! ## Chunks -/

/-- Each chunk is a slice of the list, and each starts where a whole number of chunks
before it ends. -/
theorem getElem?_chunksFrom {α : Type} {size pieces start place first : Nat}
    {list chunk : List α}
    (hget : (chunksFrom size pieces start list)[place]? = some (first, chunk)) :
    first = start + place * size ∧ chunk = (list.drop (place * size)).take size := by
  induction pieces generalizing start list place with
  | zero => simp [chunksFrom] at hget
  | succ pieces ih =>
      cases list with
      | nil => simp [chunksFrom] at hget
      | cons a rest =>
          cases place with
          | zero =>
              simp only [chunksFrom, List.getElem?_cons_zero, Option.some.injEq,
                Prod.mk.injEq] at hget
              exact ⟨by simp [hget.1], by simp [hget.2]⟩
          | succ place =>
              simp only [chunksFrom, List.getElem?_cons_succ] at hget
              obtain ⟨hfirst, hchunk⟩ := ih hget
              constructor
              · rw [hfirst, Nat.succ_mul]
                omega
              · rw [hchunk, List.drop_drop, Nat.succ_mul, Nat.add_comm size]

/-- The chunks together are the list. -/
theorem flatten_chunksFrom {α : Type} {size : Nat} (hsize : 0 < size) (pieces start : Nat)
    (list : List α) (hpieces : list.length ≤ pieces) :
    ((chunksFrom size pieces start list).map Prod.snd).flatten = list := by
  induction pieces generalizing start list with
  | zero =>
      rw [List.length_eq_zero_iff.mp (Nat.le_zero.mp hpieces)]
      rfl
  | succ pieces ih =>
      cases list with
      | nil => rfl
      | cons a rest =>
          have hlength : ((a :: rest).drop size).length ≤ pieces := by
            rw [List.length_drop]
            omega
          simp only [chunksFrom, List.map_cons, List.flatten_cons]
          rw [ih (start + size) _ hlength, List.take_append_drop]

namespace Workers

theorem chunkSize_pos {workers calls : Nat} (hcalls : 0 < calls) :
    0 < chunkSize workers calls := by
  unfold chunkSize
  apply Nat.div_pos
  · omega
  · omega

theorem sum_length_chunks (workers : Nat) (calls : List CallSite) :
    ((chunks workers calls).map fun entry => entry.2.length).sum = calls.length := by
  cases calls with
  | nil => rfl
  | cons call rest =>
      have hsize : 0 < chunkSize workers (call :: rest).length := chunkSize_pos (by simp)
      have hflatten := flatten_chunksFrom hsize _ 0 (call :: rest) le_rfl
      conv => rhs; rw [← hflatten, List.length_flatten, List.map_map]
      rfl

/-! ## One worker -/

/-- The call site of this index fails. -/
def Fails (program : Program) (calls : List CallSite) (index : Nat) : Prop :=
  ∃ call error, calls[index]? = some call ∧ program.resolve call = .error error

/-- Two ways of observing agree from `first` up to, and without, `last`. -/
def Agree (log observe : Nat → Observation) (first last : Nat) : Prop :=
  ∀ index, first ≤ index → index < last → observe index = log index

/-- What is written at an index is seen there, and nothing before it changes. -/
theorem Agree.of_update {log observe : Nat → Observation} {first last index : Nat}
    {observation : Observation}
    (hagree : Agree (Function.update log index observation) observe first last)
    (hfirst : first ≤ index) (hlast : index < last) :
    Agree log observe first index ∧ observe index = observation := by
  constructor
  · intro place hlow hhigh
    rw [hagree place hlow (by omega), Function.update_of_ne (by omega)]
  · rw [hagree index hfirst hlast, Function.update_self]

/-- What the outcome of a chunk says about the calls. -/
def Honest (program : Program) (calls : List CallSite) (first : Nat) (chunk : List CallSite) :
    ChunkEnd → Prop
  | .done resolved => chunk.mapM program.resolve = .ok resolved
  | .failed error => chunk.mapM program.resolve = .error error
  | .cancelled completed =>
      completed < chunk.length ∧
        ∃ resolved, (chunk.take completed).mapM program.resolve = .ok resolved
  | .abandoned => ∃ earlier, earlier < first ∧ Fails program calls earlier

/-- The same for a chunk with the index of its first call. -/
def HonestEntry (program : Program) (calls : List CallSite) (entry : Nat × List CallSite) :
    ChunkEnd → Prop :=
  Honest program calls entry.1 entry.2

/-- A worker is where the sequential algorithm, with the observations of the log, takes it
inside its chunk. -/
inductive Tracks (program : Program) (calls : List CallSite) (log : Nat → Observation)
    (first : Nat) (chunk : List CallSite) : Worker → Prop
  | busy (moment : Moment) (index : Nat) (settled : List CallSite)
      (resolved : List SettledCall) (rest : List CallSite)
      (hindex : index = first + settled.length)
      (hchunk : chunk = settled ++ rest)
      (hresolved : settled.mapM program.resolve = .ok resolved)
      (hmoment : moment ≠ .beforeFlag → rest ≠ [])
      (hclear : moment = .beforeCall →
        (log index).cancelled = false ∧ (log index).failedAt.any (· < index) = false)
      (hsame : ∀ observe, Agree log observe first index →
        program.workThrough observe first [] chunk =
          program.workThrough observe index resolved rest) :
      Tracks program calls log first chunk (.busy moment index resolved rest)
  | left (outcome : ChunkEnd) (hhonest : Honest program calls first chunk outcome)
      (hsame : ∀ observe, Agree log observe first (first + chunk.length) →
        program.workThrough observe first [] chunk = outcome) :
      Tracks program calls log first chunk (.left outcome)

/-- A worker depends on the log only inside its chunk. -/
theorem Tracks.congr_log {program : Program} {calls : List CallSite}
    {log log' : Nat → Observation} {first : Nat} {chunk : List CallSite} {worker : Worker}
    (htracks : Tracks program calls log first chunk worker)
    (hlog : Agree log log' first (first + chunk.length)) :
    Tracks program calls log' first chunk worker := by
  cases htracks with
  | busy moment index settled resolved rest hindex hchunk hresolved hmoment hclear hsame =>
      have hlength : first + settled.length + rest.length = first + chunk.length := by
        rw [hchunk, List.length_append, Nat.add_assoc]
      refine .busy moment index settled resolved rest hindex hchunk hresolved hmoment ?_ ?_
      · intro hcall
        have hrest : rest ≠ [] := hmoment (by rw [hcall]; decide)
        have hpos : 0 < rest.length := List.length_pos_iff.mpr hrest
        rw [hlog index (by omega) (by omega)]
        exact hclear hcall
      · intro observe hagree
        apply hsame observe
        intro place hfirst hlast
        rw [hagree place hfirst hlast, hlog place hfirst (by omega)]
  | left outcome hhonest hsame =>
      refine .left outcome hhonest ?_
      intro observe hagree
      apply hsame observe
      intro place hfirst hlast
      rw [hagree place hfirst hlast, hlog place hfirst hlast]

/-- A worker at a call site is inside its chunk. -/
theorem Tracks.index_mem {program : Program} {calls : List CallSite}
    {log : Nat → Observation} {first : Nat} {chunk : List CallSite} {moment : Moment}
    {index : Nat} {resolved : List SettledCall} {call : CallSite} {rest : List CallSite}
    (htracks : Tracks program calls log first chunk
      (.busy moment index resolved (call :: rest))) :
    first ≤ index ∧ index < first + chunk.length := by
  cases htracks with
  | busy _ _ settled _ _ hindex hchunk =>
      rw [hindex, hchunk, List.length_append, List.length_cons]
      omega

/-- What stands at an index of a chunk also stands at that index of the whole list. -/
theorem getElem?_of_slice {calls settled rest : List CallSite} {first : Nat} {call : CallSite}
    (hslice : settled ++ call :: rest <+: calls.drop first) :
    calls[first + settled.length]? = some call := by
  obtain ⟨more, hmore⟩ := hslice
  rw [← List.getElem?_drop, ← hmore]
  simp

/-- A failing call is not among those that a worker has settled. -/
theorem lt_first_of_fails {program : Program} {calls settled rest : List CallSite}
    {resolved : List SettledCall} {first seen : Nat}
    (hslice : settled ++ rest <+: calls.drop first)
    (hresolved : settled.mapM program.resolve = .ok resolved)
    (hfails : Fails program calls seen) (hseen : seen < first + settled.length) :
    seen < first := by
  by_contra hinside
  obtain ⟨call, error, hcall, herror⟩ := hfails
  obtain ⟨more, hmore⟩ := hslice
  have hplace : seen - first < settled.length := by omega
  have hget : settled[seen - first]? = some call := by
    rw [← hcall, show seen = first + (seen - first) by omega, ← List.getElem?_drop, ← hmore,
      List.append_assoc, List.getElem?_append_left (by omega), Nat.add_sub_cancel_left]
  have hmem : call ∈ settled := List.mem_of_getElem? hget
  obtain ⟨result, _, hok⟩ :=
    Traversal.exists_of_mem_left (Traversal.mapM_eq_ok_iff.mp hresolved) hmem
  rw [herror] at hok
  contradiction

section

variable {program : Program} {calls : List CallSite} {shared shared' : Shared}
  {log log' : Nat → Observation} {first : Nat} {chunk : List CallSite} {worker next : Worker}

/-- A turn writes to the log only inside the worker's own chunk. -/
theorem Turn.agree_log (hturn : Turn program shared log worker next shared' log')
    (htracks : Tracks program calls log first chunk worker) {other last : Nat}
    (hapart : last ≤ first ∨ first + chunk.length ≤ other) : Agree log log' other last := by
  have hupdate : ∀ (index : Nat) (observation : Observation),
      first ≤ index → index < first + chunk.length →
        Agree log (Function.update log index observation) other last := by
    intro index observation hlow hhigh place hother hlast
    have hne : place ≠ index := by omega
    exact Function.update_of_ne hne observation log
  cases hturn with
  | stop => exact hupdate _ _ htracks.index_mem.1 htracks.index_mem.2
  | abandon => exact hupdate _ _ htracks.index_mem.1 htracks.index_mem.2
  | clear => exact hupdate _ _ htracks.index_mem.1 htracks.index_mem.2
  | finish => exact fun _ _ _ => rfl
  | proceed => exact fun _ _ _ => rfl
  | settle => exact fun _ _ _ => rfl
  | fail => exact fun _ _ _ => rfl

/-- Only failing calls are published. -/
theorem Turn.fails_of_mem_published (hturn : Turn program shared log worker next shared' log')
    (htracks : Tracks program calls log first chunk worker)
    (hslice : chunk <+: calls.drop first)
    (hpublished : ∀ index ∈ shared.published, Fails program calls index) :
    ∀ index ∈ shared'.published, Fails program calls index := by
  cases hturn with
  | fail index resolved call rest error hresolve =>
      intro value hvalue
      rcases Shared.mem_published_publish hvalue with rfl | hold
      · cases htracks with
        | busy _ _ settled _ _ hindex hchunk =>
            rw [hchunk] at hslice
            exact ⟨call, error, hindex ▸ getElem?_of_slice hslice, hresolve⟩
      · exact hpublished value hold
  | _ => exact hpublished

/-! ### What each turn does to a worker -/

section Places

variable {index : Nat} {resolved : List SettledCall} {call : CallSite} {rest : List CallSite}

theorem Tracks.finish
    (htracks : Tracks program calls log first chunk (.busy .beforeFlag index resolved [])) :
    Tracks program calls log first chunk (.left (.done resolved)) := by
  cases htracks with
  | busy _ _ settled _ _ hindex hchunk hresolved _ _ hsame =>
      rw [List.append_nil] at hchunk
      refine .left _ (hchunk ▸ hresolved) ?_
      intro observe hagree
      rw [hsame observe (by rwa [hindex, ← hchunk])]
      rfl

theorem Tracks.stop
    (htracks : Tracks program calls log first chunk
      (.busy .beforeFlag index resolved (call :: rest))) :
    Tracks program calls (Function.update log index ⟨true, none⟩) first chunk
      (.left (.cancelled resolved.length)) := by
  have hinside := htracks.index_mem
  cases htracks with
  | busy _ _ settled _ _ hindex hchunk hresolved _ _ hsame =>
      have hlength : resolved.length = settled.length :=
        (List.Forall₂.length_eq (Traversal.mapM_eq_ok_iff.mp hresolved)).symm
      refine .left _ ⟨by omega, resolved, ?_⟩ ?_
      · rw [hlength, hchunk, List.take_left]
        exact hresolved
      · intro observe hagree
        obtain ⟨hbefore, hhere⟩ := hagree.of_update hinside.1 hinside.2
        rw [hsame observe hbefore]
        simp only [Program.workThrough, hhere, if_true]

theorem Tracks.proceed
    (htracks : Tracks program calls log first chunk
      (.busy .beforeFlag index resolved (call :: rest))) :
    Tracks program calls log first chunk
      (.busy .beforeFailure index resolved (call :: rest)) := by
  cases htracks with
  | busy _ _ settled _ _ hindex hchunk hresolved _ _ hsame =>
      exact .busy .beforeFailure index settled resolved (call :: rest) hindex hchunk
        hresolved (by simp) (by simp) hsame

/-- The failing call that makes a worker give up stands before its chunk, since what the
worker has settled did not fail. -/
theorem Tracks.abandon
    (htracks : Tracks program calls log first chunk
      (.busy .beforeFailure index resolved (call :: rest)))
    (hslice : chunk <+: calls.drop first) {seen : Nat} (hfails : Fails program calls seen)
    (hearlier : seen < index) :
    Tracks program calls (Function.update log index ⟨false, some seen⟩) first chunk
      (.left .abandoned) := by
  have hinside := htracks.index_mem
  cases htracks with
  | busy _ _ settled _ _ hindex hchunk hresolved _ _ hsame =>
      have hbeforeChunk : seen < first :=
        lt_first_of_fails (hchunk ▸ hslice) hresolved hfails (by omega)
      refine .left _ ⟨seen, hbeforeChunk, hfails⟩ ?_
      intro observe hagree
      obtain ⟨hbefore, hhere⟩ := hagree.of_update hinside.1 hinside.2
      rw [hsame observe hbefore]
      simp [Program.workThrough, hhere, hearlier]

theorem Tracks.clear
    (htracks : Tracks program calls log first chunk
      (.busy .beforeFailure index resolved (call :: rest)))
    {seen : Option Nat} (hseen : ∀ value ∈ seen, ¬ value < index) :
    Tracks program calls (Function.update log index ⟨false, seen⟩) first chunk
      (.busy .beforeCall index resolved (call :: rest)) := by
  cases htracks with
  | busy _ _ settled _ _ hindex hchunk hresolved _ _ hsame =>
      refine .busy .beforeCall index settled resolved (call :: rest) hindex hchunk
        hresolved (by simp) ?_ ?_
      · intro _
        rw [Function.update_self]
        cases seen with
        | none => exact ⟨rfl, rfl⟩
        | some value => exact ⟨rfl, by simpa using hseen value rfl⟩
      · -- The entry that is written lies at the worker's own place, not before it.
        intro observe hagree
        apply hsame observe
        intro place hlow hhigh
        rw [hagree place hlow hhigh, Function.update_of_ne (by omega)]

theorem Tracks.settle
    (htracks : Tracks program calls log first chunk
      (.busy .beforeCall index resolved (call :: rest)))
    {result : SettledCall} (hresolve : program.resolve call = .ok result) :
    Tracks program calls log first chunk
      (.busy .beforeFlag (index + 1) (resolved ++ [result]) rest) := by
  cases htracks with
  | busy _ _ settled _ _ hindex hchunk hresolved _ hclear hsame =>
      refine .busy .beforeFlag (index + 1) (settled ++ [call]) (resolved ++ [result]) rest
        ?_ ?_ ?_ (by simp) (by simp) ?_
      · rw [hindex, List.length_append, List.length_singleton, Nat.add_assoc]
      · rw [hchunk, List.append_assoc, List.singleton_append]
      · exact Traversal.mapM_eq_ok_iff.mpr
          (List.rel_append (Traversal.mapM_eq_ok_iff.mp hresolved) (.cons hresolve .nil))
      · intro observe hagree
        have hhere : observe index = log index := hagree index (by omega) (by omega)
        obtain ⟨hflag, hfailure⟩ := hclear rfl
        rw [hsame observe fun place hlow hhigh => hagree place hlow (by omega)]
        simp only [Program.workThrough, hhere, hflag, hfailure, hresolve, if_false,
          Bool.false_eq_true]

theorem Tracks.fail
    (htracks : Tracks program calls log first chunk
      (.busy .beforeCall index resolved (call :: rest)))
    {error : CallFault} (hresolve : program.resolve call = .error error) :
    Tracks program calls log first chunk (.left (.failed error)) := by
  have hinside := htracks.index_mem
  cases htracks with
  | busy _ _ settled _ _ hindex hchunk hresolved _ hclear hsame =>
      refine .left _ ?_ ?_
      · refine Traversal.mapM_eq_error_iff.mpr ⟨settled.length, call, ?_, hresolve, ?_⟩
        · simp [hchunk]
        · intro earlier hearlier
          rw [hchunk, List.take_left] at hearlier
          obtain ⟨result, _, hok⟩ :=
            Traversal.exists_of_mem_left (Traversal.mapM_eq_ok_iff.mp hresolved) hearlier
          exact ⟨result, hok⟩
      · intro observe hagree
        have hhere : observe index = log index := hagree index hinside.1 hinside.2
        obtain ⟨hflag, hfailure⟩ := hclear rfl
        rw [hsame observe fun place hlow hhigh => hagree place hlow (by omega)]
        simp only [Program.workThrough, hhere, hflag, hfailure, hresolve, if_false,
          Bool.false_eq_true]

end Places

/-- A turn keeps the worker where its chunk and the log take it. -/
theorem Turn.tracks (hturn : Turn program shared log worker next shared' log')
    (htracks : Tracks program calls log first chunk worker)
    (hslice : chunk <+: calls.drop first)
    (hpublished : ∀ index ∈ shared.published, Fails program calls index) :
    Tracks program calls log' first chunk next := by
  cases hturn with
  | finish => exact htracks.finish
  | stop => exact htracks.stop
  | proceed => exact htracks.proceed
  | abandon _ _ _ _ seen hseen hearlier =>
      exact htracks.abandon hslice (hpublished seen hseen) hearlier
  | clear _ _ _ _ seen hseen => exact htracks.clear fun value hvalue => (hseen value hvalue).2
  | settle _ _ _ _ _ hresolve => exact htracks.settle hresolve
  | fail _ _ _ _ _ hresolve => exact htracks.fail hresolve

theorem Turn.cancelled_of_left {completed : Nat}
    (hturn : Turn program shared log worker (.left (.cancelled completed)) shared' log') :
    shared.cancelled = true := by
  cases hturn with
  | stop _ _ _ _ hraised => exact hraised

/-- A worker inside its chunk can take a turn, whether the flag is up or down: a look at the
shared error index may always find none. -/
theorem Tracks.exists_turn {moment : Moment} {index : Nat} {resolved : List SettledCall}
    {rest : List CallSite}
    (htracks : Tracks program calls log first chunk (.busy moment index resolved rest)) :
    ∃ next shared' log',
      Turn program shared log (.busy moment index resolved rest) next shared' log' := by
  cases htracks with
  | busy _ _ settled _ _ _ _ _ hmoment =>
      cases rest with
      | nil =>
          cases moment with
          | beforeFlag => exact ⟨_, _, _, .finish index resolved⟩
          | beforeFailure => exact (hmoment (by decide) rfl).elim
          | beforeCall => exact (hmoment (by decide) rfl).elim
      | cons call rest =>
          cases moment with
          | beforeFlag =>
              cases hflag : shared.cancelled with
              | false => exact ⟨_, _, _, .proceed index resolved call rest hflag⟩
              | true => exact ⟨_, _, _, .stop index resolved call rest hflag⟩
          | beforeFailure => exact ⟨_, _, _, .clear index resolved call rest none (by simp)⟩
          | beforeCall =>
              cases hresolve : program.resolve call with
              | ok result => exact ⟨_, _, _, .settle index resolved call rest result hresolve⟩
              | error error => exact ⟨_, _, _, .fail index resolved call rest error hresolve⟩

end

/-! ## The whole crew -/

/-- A chunk is a slice of the calls. -/
theorem slice_of_chunks {workers place first : Nat} {calls chunk : List CallSite}
    (hchunk : (chunks workers calls)[place]? = some (first, chunk)) :
    chunk <+: calls.drop first := by
  obtain ⟨hfirst, hslice⟩ := getElem?_chunksFrom hchunk
  rw [hslice, hfirst, Nat.zero_add]
  exact List.take_prefix _ _

/-- Different chunks do not overlap. -/
theorem apart_of_chunks {workers place other first first' : Nat}
    {calls chunk chunk' : List CallSite}
    (hchunk : (chunks workers calls)[place]? = some (first, chunk))
    (hchunk' : (chunks workers calls)[other]? = some (first', chunk'))
    (hne : other ≠ place) :
    first' + chunk'.length ≤ first ∨ first + chunk.length ≤ first' := by
  obtain ⟨hfirst, hslice⟩ := getElem?_chunksFrom hchunk
  obtain ⟨hfirst', hslice'⟩ := getElem?_chunksFrom hchunk'
  generalize chunkSize workers calls.length = size at *
  have hlength : chunk.length ≤ size := by
    rw [hslice]
    exact List.length_take_le _ _
  have hlength' : chunk'.length ≤ size := by
    rw [hslice']
    exact List.length_take_le _ _
  rcases Nat.lt_or_gt_of_ne hne with hlt | hgt
  · have hstep : (other + 1) * size ≤ place * size := Nat.mul_le_mul_right size hlt
    rw [Nat.succ_mul] at hstep
    exact Or.inl (by omega)
  · have hstep : (place + 1) * size ≤ other * size := Nat.mul_le_mul_right size hgt
    rw [Nat.succ_mul] at hstep
    exact Or.inr (by omega)

/-- What holds of the crew throughout an interleaving. -/
structure Sound (program : Program) (workers : Nat) (calls : List CallSite) (crew : Crew) :
    Prop where
  length_eq : crew.workers.length = (chunks workers calls).length
  published : ∀ index ∈ crew.shared.published, Fails program calls index
  tracks : ∀ (place first : Nat) (chunk : List CallSite) (worker : Worker),
    (chunks workers calls)[place]? = some (first, chunk) →
      crew.workers[place]? = some worker →
        Tracks program calls crew.log first chunk worker
  cancelled : ∀ place completed : Nat,
    crew.workers[place]? = some (.left (.cancelled completed)) →
      crew.shared.cancelled = true

theorem sound_start (program : Program) (workers : Nat) (calls : List CallSite) :
    Sound program workers calls (Crew.start workers calls) where
  length_eq := by simp [Crew.start]
  published := by simp [Crew.start]
  tracks := by
    intro place first chunk worker hchunk hworker
    simp only [Crew.start, List.getElem?_map, hchunk, Option.map_some,
      Option.some.injEq] at hworker
    rw [← hworker]
    exact .busy .beforeFlag first [] [] chunk rfl rfl rfl (by simp) (by simp)
      fun _ _ => rfl
  cancelled := by
    intro place completed hworker
    simp [Crew.start] at hworker

/-- Every worker has a chunk, and is where the chunk and the log take it. -/
theorem Sound.exists_tracks {program : Program} {workers : Nat} {calls : List CallSite}
    {crew : Crew} (hsound : Sound program workers calls crew) {place : Nat} {worker : Worker}
    (hworker : crew.workers[place]? = some worker) :
    ∃ first chunk, (chunks workers calls)[place]? = some (first, chunk) ∧
      Tracks program calls crew.log first chunk worker := by
  have hplace := (List.getElem?_eq_some_iff.mp hworker).1
  obtain ⟨⟨first, chunk⟩, hchunk⟩ : ∃ entry, (chunks workers calls)[place]? = some entry :=
    ⟨_, List.getElem?_eq_getElem (hsound.length_eq ▸ hplace)⟩
  exact ⟨first, chunk, hchunk, hsound.tracks place first chunk worker hchunk hworker⟩

theorem Sound.advance {program : Program} {workers : Nat} {calls : List CallSite}
    {crew next : Crew} (hsound : Sound program workers calls crew)
    (hadvance : Advance program crew next) : Sound program workers calls next := by
  cases hadvance with
  | raise hlowered =>
      exact ⟨hsound.length_eq, hsound.published, hsound.tracks, fun _ _ _ => rfl⟩
  | turn place worker worker' shared' log' hworker hturn =>
      obtain ⟨hplace, _⟩ := List.getElem?_eq_some_iff.mp hworker
      obtain ⟨first, chunk, hchunk, htracks⟩ := hsound.exists_tracks hworker
      have hslice := slice_of_chunks hchunk
      refine ⟨by simpa using hsound.length_eq,
        hturn.fails_of_mem_published htracks hslice hsound.published, ?_, ?_⟩
      · intro other first' chunk' worker'' hchunk' hworker''
        by_cases hsame : other = place
        · subst hsame
          rw [List.getElem?_set_self hplace] at hworker''
          rw [hchunk] at hchunk'
          cases hworker''
          cases hchunk'
          exact hturn.tracks htracks hslice hsound.published
        · rw [List.getElem?_set_ne (Ne.symm hsame)] at hworker''
          have hother := hsound.tracks other first' chunk' worker'' hchunk' hworker''
          exact hother.congr_log
            (hturn.agree_log htracks (apart_of_chunks hchunk hchunk' hsame))
      · intro other completed hworker''
        rw [hturn.cancelled_eq]
        by_cases hsame : other = place
        · subst hsame
          rw [List.getElem?_set_self hplace, Option.some.injEq] at hworker''
          subst hworker''
          exact hturn.cancelled_of_left
        · rw [List.getElem?_set_ne (Ne.symm hsame)] at hworker''
          exact hsound.cancelled other completed hworker''

theorem sound_of_run {program : Program} {workers : Nat} {calls : List CallSite}
    {crew : Crew} (hrun : Run program (Crew.start workers calls) crew) :
    Sound program workers calls crew := by
  induction hrun with
  | refl => exact sound_start program workers calls
  | tail _ hadvance ih => exact ih.advance hadvance

end Workers
end CallResolution
