import Mathlib.Data.List.Nodup
import Mathlib.Data.List.Perm.Basic
import Mathlib.Tactic

/-!
# Lists with one element per key

Look-ups and candidate lists are built by adding elements one after the other, where an
element is dropped if its key is taken.  `insertAll` is the common form.  What ends up
in the list is what was there and, of the new elements, those whose key was not taken
before.

That needs the new elements to agree with their own keys: among new elements with one key
but different contents the first would win.
-/

namespace CallResolution
namespace KeyedSet

section Injective

variable {α κ : Type}

/-- Elements of the list with one key are equal. -/
def KeyInjective (key : α → κ) (list : List α) : Prop :=
  ∀ a ∈ list, ∀ b ∈ list, key a = key b → a = b

variable {key : α → κ}

theorem KeyInjective.subset {list part : List α} (hinjective : KeyInjective key list)
    (hsubset : part ⊆ list) : KeyInjective key part :=
  fun a ha b hb => hinjective a (hsubset ha) b (hsubset hb)

theorem keyInjective_of_nodup {list : List α} (hnodup : (list.map key).Nodup) :
    KeyInjective key list :=
  fun _ ha _ hb hkey => List.inj_on_of_nodup_map hnodup ha hb hkey

end Injective

variable {α κ : Type} [DecidableEq κ]

/-- Add an element unless its key is taken. -/
def insertNew (key : α → κ) (set : List α) (a : α) : List α :=
  if set.any (key · == key a) then set else set ++ [a]

/-- Add elements one after the other. -/
def insertAll (key : α → κ) (set more : List α) : List α :=
  more.foldl (insertNew key) set

variable {key : α → κ}

theorem insertNew_of_taken {set : List α} {a : α} (htaken : key a ∈ set.map key) :
    insertNew key set a = set := by
  obtain ⟨b, hb, hkey⟩ := List.mem_map.mp htaken
  exact if_pos (List.any_eq_true.mpr ⟨b, hb, by simp [hkey]⟩)

theorem insertNew_of_free {set : List α} {a : α} (hfree : key a ∉ set.map key) :
    insertNew key set a = set ++ [a] := by
  refine if_neg fun htaken => hfree ?_
  obtain ⟨b, hb, hkey⟩ := List.any_eq_true.mp htaken
  exact List.mem_map.mpr ⟨b, hb, by simpa using hkey⟩

theorem nodup_insertNew {set : List α} (hset : (set.map key).Nodup) (a : α) :
    ((insertNew key set a).map key).Nodup := by
  by_cases hkey : key a ∈ set.map key
  · rwa [insertNew_of_taken hkey]
  · rw [insertNew_of_free hkey, List.map_append, List.map_singleton]
    exact hset.append (List.nodup_singleton _) (by simpa using hkey)

theorem nodup_insertAll {set : List α} (hset : (set.map key).Nodup) (more : List α) :
    ((insertAll key set more).map key).Nodup := by
  induction more generalizing set with
  | nil => exact hset
  | cons a rest ih => exact ih (nodup_insertNew hset a)

/-- What a list holds after elements were added to it. -/
theorem mem_insertAll_iff {set more : List α} (hmore : KeyInjective key more) (b : α) :
    b ∈ insertAll key set more ↔ b ∈ set ∨ b ∈ more ∧ key b ∉ set.map key := by
  induction more generalizing set with
  | nil => simp [insertAll]
  | cons a rest ih =>
      have hrest : KeyInjective key rest := hmore.subset (List.subset_cons_self a rest)
      have hsame : b ∈ rest → key b = key a → b = a := fun hb hkey =>
        hmore b (List.mem_cons_of_mem a hb) a List.mem_cons_self hkey
      change b ∈ insertAll key (insertNew key set a) rest ↔ _
      rw [ih hrest]
      -- Once `a` is in the list, its key drops only `a` itself from the rest.
      by_cases hkey : key a ∈ set.map key
      · rw [insertNew_of_taken hkey, List.mem_cons]
        constructor
        · rintro (hb | ⟨hb, hfree⟩)
          · exact Or.inl hb
          · exact Or.inr ⟨Or.inr hb, hfree⟩
        · rintro (hb | ⟨rfl | hb, hfree⟩)
          · exact Or.inl hb
          · exact absurd hkey hfree
          · exact Or.inr ⟨hb, hfree⟩
      · rw [insertNew_of_free hkey, List.map_append, List.map_singleton]
        rw [List.mem_append, List.mem_singleton, List.mem_append, List.mem_singleton,
          List.mem_cons, not_or]
        constructor
        · rintro ((hb | rfl) | ⟨hb, hfree, _⟩)
          · exact Or.inl hb
          · exact Or.inr ⟨Or.inl rfl, hkey⟩
          · exact Or.inr ⟨Or.inr hb, hfree⟩
        · rintro (hb | ⟨rfl | hb, hfree⟩)
          · exact Or.inl (Or.inl hb)
          · exact Or.inl (Or.inr rfl)
          · by_cases heq : key b = key a
            · exact Or.inl (Or.inr (hsame hb heq))
            · exact Or.inr ⟨hb, hfree, heq⟩

/-- Nothing is dropped if old and new elements agree with their keys. -/
theorem mem_insertAll_iff_mem_or {set more : List α}
    (hinjective : KeyInjective key (set ++ more)) (b : α) :
    b ∈ insertAll key set more ↔ b ∈ set ∨ b ∈ more := by
  rw [mem_insertAll_iff (hinjective.subset (List.subset_append_right set more))]
  constructor
  · rintro (hb | ⟨hb, _⟩)
    · exact Or.inl hb
    · exact Or.inr hb
  · rintro (hb | hb)
    · exact Or.inl hb
    · by_cases hkey : key b ∈ set.map key
      · obtain ⟨a, ha, heq⟩ := List.mem_map.mp hkey
        have hab : a = b := hinjective a (List.mem_append_left more ha) b
          (List.mem_append_right set hb) heq
        exact Or.inl (hab ▸ ha)
      · exact Or.inr ⟨hb, hkey⟩

theorem mem_or_mem_of_mem_insertAll {set more : List α} {b : α}
    (hmem : b ∈ insertAll key set more) : b ∈ set ∨ b ∈ more := by
  induction more generalizing set with
  | nil => exact Or.inl hmem
  | cons a rest ih =>
      rcases ih hmem with hset | hrest
      · by_cases hkey : key a ∈ set.map key
        · exact Or.inl (insertNew_of_taken hkey ▸ hset)
        · rw [insertNew_of_free hkey, List.mem_append, List.mem_singleton] at hset
          rcases hset with hset | rfl
          · exact Or.inl hset
          · exact Or.inr List.mem_cons_self
      · exact Or.inr (List.mem_cons_of_mem a hrest)

theorem subset_insertAll (set more : List α) : set ⊆ insertAll key set more := by
  induction more generalizing set with
  | nil => exact List.Subset.refl set
  | cons a rest ih =>
      refine List.Subset.trans ?_ (ih (insertNew key set a))
      unfold insertNew
      split
      · exact List.Subset.refl set
      · exact List.subset_append_left set [a]

theorem insertNew_ne_nil (set : List α) (a : α) : insertNew key set a ≠ [] := by
  by_cases hkey : key a ∈ set.map key
  · rw [insertNew_of_taken hkey]
    rintro rfl
    cases hkey
  · simp [insertNew_of_free hkey]

theorem insertAll_eq_nil_iff {set more : List α} :
    insertAll key set more = [] ↔ set = [] ∧ more = [] := by
  induction more generalizing set with
  | nil => simp [insertAll]
  | cons a rest ih =>
      change insertAll key (insertNew key set a) rest = [] ↔ _
      simp [ih, insertNew_ne_nil]

/-- Dropping elements before or after they are added is the same, if old and new elements
agree with their keys. -/
theorem filter_insertAll (keep : α → Bool) {set more : List α}
    (hinjective : KeyInjective key (set ++ more)) :
    (insertAll key set more).filter keep =
      insertAll key (set.filter keep) (more.filter keep) := by
  induction more generalizing set with
  | nil => rfl
  | cons a rest ih =>
      change (insertAll key (insertNew key set a) rest).filter keep = _
      by_cases hkey : key a ∈ set.map key
      · obtain ⟨b, hb, hsame⟩ := List.mem_map.mp hkey
        obtain rfl : b = a := hinjective b (List.mem_append_left _ hb) a (by simp) hsame
        rw [insertNew_of_taken hkey, ih (hinjective.subset (by simp))]
        cases hkeep : keep b with
        | false => rw [List.filter_cons_of_neg (by simp [hkeep])]
        | true =>
            have htaken : key b ∈ (set.filter keep).map key :=
              List.mem_map_of_mem (List.mem_filter.mpr ⟨hb, hkeep⟩)
            rw [List.filter_cons_of_pos hkeep]
            exact congrArg (insertAll key · _) (insertNew_of_taken htaken).symm
      · rw [insertNew_of_free hkey, ih (by simpa using hinjective), List.filter_append]
        cases hkeep : keep a with
        | false => simp [hkeep]
        | true =>
            have hfree : key a ∉ (set.filter keep).map key := fun htaken =>
              hkey ((List.filter_sublist.map key).subset htaken)
            rw [List.filter_cons_of_pos hkeep, List.filter_cons_of_pos hkeep, List.filter_nil]
            exact congrArg (insertAll key · _) (insertNew_of_free hfree).symm

/-- Elements that are dropped afterwards may as well not be added. -/
theorem filter_insertAll_of_dropped {keep : α → Bool} (set : List α) {more : List α}
    (hdropped : ∀ a ∈ more, keep a = false) :
    (insertAll key set more).filter keep = set.filter keep := by
  induction more generalizing set with
  | nil => rfl
  | cons a rest ih =>
      have hrest := ih (insertNew key set a) fun b hb => hdropped b (List.mem_cons_of_mem a hb)
      refine hrest.trans ?_
      unfold insertNew
      split
      · rfl
      · simp [hdropped a List.mem_cons_self]

theorem insertAll_of_nodup {set more : List α} (hnodup : ((set ++ more).map key).Nodup) :
    insertAll key set more = set ++ more := by
  induction more generalizing set with
  | nil => simp [insertAll]
  | cons a rest ih =>
      have hfree : key a ∉ set.map key := by
        rw [List.map_append, List.map_cons] at hnodup
        exact fun htaken => (List.nodup_append.mp hnodup).2.2 _ htaken _ List.mem_cons_self rfl
      change insertAll key (insertNew key set a) rest = _
      rw [insertNew_of_free hfree, ih (by simpa using hnodup), List.append_assoc,
        List.singleton_append]

/-- The order in which elements are added is only seen in the order of the result. -/
theorem insertAll_perm {set set' more more' : List α} (hset : set.Perm set')
    (hnodup : (set.map key).Nodup) (hinjective : KeyInjective key more)
    (hmore : ∀ b, b ∈ more ↔ b ∈ more') :
    (insertAll key set more).Perm (insertAll key set' more') := by
  have hnodup' : (set'.map key).Nodup := (hset.map key).nodup_iff.mp hnodup
  have hinjective' : KeyInjective key more' := hinjective.subset fun b hb => (hmore b).mpr hb
  have hfirst := (nodup_insertAll hnodup more).of_map
  have hsecond := (nodup_insertAll hnodup' more').of_map
  rw [List.perm_ext_iff_of_nodup hfirst hsecond]
  intro b
  rw [mem_insertAll_iff hinjective, mem_insertAll_iff hinjective', hmore, hset.mem_iff,
    (hset.map key).mem_iff]

end KeyedSet
end CallResolution
