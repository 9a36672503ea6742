import Mathlib.Data.List.Forall2
import Mathlib.Tactic

/-!
# Traversals that may fail

A traversal of a list by a function into `Except` succeeds exactly if the function
succeeds at every element, and otherwise fails with the error of the first element
at which it fails.  What follows that element is not looked at.

For a traversal that carries a state along, what holds at the start and is kept by every step
holds at the end; and where every step succeeds from such a state, the traversal does.
-/

namespace CallResolution
namespace Traversal

variable {ε δ α β : Type}

theorem bind_eq_ok_iff {first : Except ε α} {next : α → Except ε β} {b : β} :
    (first >>= next) = .ok b ↔ ∃ a, first = .ok a ∧ next a = .ok b := by
  cases first with
  | error error => simp [bind, Except.bind]
  | ok a => simp [bind, Except.bind]

theorem bind_eq_error_iff {first : Except ε α} {next : α → Except ε β} {error : ε} :
    (first >>= next) = .error error ↔
      first = .error error ∨ ∃ a, first = .ok a ∧ next a = .error error := by
  cases first with
  | error found => simp [bind, Except.bind]
  | ok a => simp [bind, Except.bind]

theorem mapError_eq_ok_iff {outcome : Except ε α} {rename : ε → δ} {a : α} :
    outcome.mapError rename = .ok a ↔ outcome = .ok a := by
  cases outcome with
  | error error => simp [Except.mapError]
  | ok value => simp [Except.mapError]

theorem mapError_eq_error_iff {outcome : Except ε α} {rename : ε → δ} {error : δ} :
    outcome.mapError rename = .error error ↔
      ∃ found, outcome = .error found ∧ rename found = error := by
  cases outcome with
  | error found => simp [Except.mapError]
  | ok value => simp [Except.mapError]

theorem mapM_cons_eq (f : α → Except ε β) (a : α) (rest : List α) :
    (a :: rest).mapM f =
      match f a with
      | .error error => .error error
      | .ok b =>
          match rest.mapM f with
          | .error error => .error error
          | .ok bs => .ok (b :: bs) := by
  rw [List.mapM_cons]
  cases f a with
  | error error => rfl
  | ok b =>
      cases rest.mapM f with
      | error error => rfl
      | ok bs => rfl

/-- A traversal succeeds with the list of the single results. -/
theorem mapM_eq_ok_iff {f : α → Except ε β} {list : List α} {results : List β} :
    list.mapM f = .ok results ↔
      List.Forall₂ (fun a b => f a = .ok b) list results := by
  induction list generalizing results with
  | nil =>
      rw [List.forall₂_nil_left_iff]
      simp [pure, Except.pure, eq_comm]
  | cons a rest ih =>
      rw [mapM_cons_eq, List.forall₂_cons_left_iff]
      constructor
      · intro hok
        cases ha : f a with
        | error error => simp [ha] at hok
        | ok b =>
            cases hrest : rest.mapM f with
            | error error => simp [ha, hrest] at hok
            | ok bs =>
                simp only [ha, hrest, Except.ok.injEq] at hok
                exact ⟨b, bs, rfl, ih.mp hrest, hok.symm⟩
      · rintro ⟨b, bs, ha, hrest, rfl⟩
        rw [ha, ih.mpr hrest]

/-- Every element has a result. -/
theorem exists_of_mem_left {relation : α → β → Prop} {list : List α} {results : List β}
    (hforall : List.Forall₂ relation list results) {a : α} (ha : a ∈ list) :
    ∃ b ∈ results, relation a b := by
  induction hforall with
  | nil => simp at ha
  | @cons _ b _ _ hhead _ ih =>
      rcases List.mem_cons.mp ha with rfl | ha
      · exact ⟨b, by simp, hhead⟩
      · obtain ⟨c, hc, hrelated⟩ := ih ha
        exact ⟨c, by simp [hc], hrelated⟩

/-- Every result is the result of some element. -/
theorem exists_of_mem_right {relation : α → β → Prop} {list : List α} {results : List β}
    (hforall : List.Forall₂ relation list results) {b : β} (hb : b ∈ results) :
    ∃ a ∈ list, relation a b :=
  exists_of_mem_left (List.Forall₂.flip (R := flip relation) hforall) hb

/-- A traversal fails with the error of the first element that fails. -/
theorem mapM_eq_error_iff {f : α → Except ε β} {list : List α} {error : ε} :
    list.mapM f = .error error ↔
      ∃ place a, list[place]? = some a ∧ f a = .error error ∧
        ∀ earlier ∈ list.take place, ∃ b, f earlier = .ok b := by
  induction list with
  | nil => simp [pure, Except.pure]
  | cons a rest ih =>
      rw [mapM_cons_eq]
      constructor
      · intro herror
        cases ha : f a with
        | error found =>
            simp only [ha, Except.error.injEq] at herror
            subst herror
            exact ⟨0, a, rfl, ha, by simp⟩
        | ok b =>
            cases hrest : rest.mapM f with
            | ok bs => simp [ha, hrest] at herror
            | error found =>
                simp only [ha, hrest, Except.error.injEq] at herror
                subst herror
                obtain ⟨place, c, hplace, hc, hearlier⟩ := ih.mp hrest
                refine ⟨place + 1, c, by simpa using hplace, hc, ?_⟩
                intro earlier hmem
                rw [List.take_succ_cons, List.mem_cons] at hmem
                rcases hmem with rfl | hmem
                · exact ⟨b, ha⟩
                · exact hearlier earlier hmem
      · rintro ⟨place, c, hplace, hc, hearlier⟩
        cases place with
        | zero =>
            simp only [List.getElem?_cons_zero, Option.some.injEq] at hplace
            subst hplace
            rw [hc]
        | succ place =>
            obtain ⟨b, ha⟩ := hearlier a (by simp)
            have hrest : rest.mapM f = .error error :=
              ih.mpr ⟨place, c, by simpa using hplace, hc,
                fun earlier hmem => hearlier earlier (by simp [hmem])⟩
            rw [ha, hrest]

section Fold

variable {σ : Type} {step : σ → α → Except ε σ} {motive : σ → Prop} {items : List α} {start : σ}

theorem foldlM_induct {final : σ}
    (hstep : ∀ before item after, step before item = .ok after → motive before → motive after)
    (hstart : motive start) (hrun : items.foldlM step start = .ok final) : motive final := by
  induction items generalizing start with
  | nil =>
      obtain rfl : start = final := Except.ok.inj hrun
      exact hstart
  | cons item rest ih =>
      rw [List.foldlM_cons] at hrun
      obtain ⟨middle, hfirst, hrest⟩ := bind_eq_ok_iff.mp hrun
      exact ih (hstep start item middle hfirst hstart) hrest

theorem exists_foldlM_eq_ok
    (hstep : ∀ item ∈ items, ∀ before, motive before →
      ∃ after, step before item = .ok after ∧ motive after)
    (hstart : motive start) : ∃ final, items.foldlM step start = .ok final := by
  induction items generalizing start with
  | nil => exact ⟨start, rfl⟩
  | cons item rest ih =>
      obtain ⟨hfirst, hlater⟩ := List.forall_mem_cons.mp hstep
      obtain ⟨middle, hmiddle, hkept⟩ := hfirst start hstart
      obtain ⟨final, hrest⟩ := ih hlater hkept
      exact ⟨final, bind_eq_ok_iff.mpr ⟨middle, hmiddle, hrest⟩⟩

end Fold

end Traversal
end CallResolution
