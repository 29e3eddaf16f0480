import DeclarativeMdp.Text.Blank
import Mathlib.Logic.Relation

set_option autoImplicit false

namespace DeclarativeMdp.Text

theorem squeeze_blank {c : Char} (blank : isBlank c = true) (cs : List Char) :
    squeeze .outside (c :: cs) = squeeze .outside cs :=
  if_pos ⟨rfl, blank⟩

theorem squeeze_kept {place : Place} {c : Char}
    (kept : ¬ (place = .outside ∧ isBlank c = true)) (cs : List Char) :
    squeeze place (c :: cs) = c :: squeeze (place.next c) cs :=
  if_neg kept

theorem next_blank {c : Char} (blank : isBlank c = true) : Place.outside.next c = .outside := by
  have unquoted : c ≠ '"' := by
    rintro rfl
    exact absurd blank (by decide)
  exact if_neg unquoted

theorem squeeze_squeeze (place : Place) (cs : List Char) :
    squeeze place (squeeze place cs) = squeeze place cs := by
  induction cs generalizing place with
  | nil => rfl
  | cons c cs ih =>
    by_cases dropped : place = .outside ∧ isBlank c = true
    · obtain ⟨rfl, blank⟩ := dropped
      rw [squeeze_blank blank, ih]
    · rw [squeeze_kept dropped, squeeze_kept dropped, ih]

theorem normalize_normalize (text : String) : normalize (normalize text) = normalize text := by
  simp only [normalize, String.toList_ofList, squeeze_squeeze]

theorem squeeze_append (place : Place) (front back : List Char) :
    squeeze place (front ++ back) =
      squeeze place front ++ squeeze (front.foldl Place.next place) back := by
  induction front generalizing place with
  | nil => rfl
  | cons c cs ih =>
    rw [List.cons_append, List.foldl_cons]
    by_cases dropped : place = .outside ∧ isBlank c = true
    · obtain ⟨rfl, blank⟩ := dropped
      rw [squeeze_blank blank, squeeze_blank blank, next_blank blank, ih]
    · rw [squeeze_kept dropped, squeeze_kept dropped, ih, List.cons_append]

inductive Drops : List Char → List Char → Prop
  | blank {front back : List Char} {c : Char}
      (outside : front.foldl Place.next .outside = .outside) (blank : isBlank c = true) :
      Drops (front ++ c :: back) (front ++ back)

theorem Drops.squeeze_eq {cs ds : List Char} (drops : Drops cs ds) :
    squeeze .outside cs = squeeze .outside ds := by
  cases drops with
  | blank outside blank => rw [squeeze_append, squeeze_append, outside, squeeze_blank blank]

-- The blanks go one by one, the first one first. What is kept joins the front.
theorem drops_squeeze (front cs : List Char) :
    Relation.EqvGen Drops (front ++ cs)
      (front ++ squeeze (front.foldl Place.next .outside) cs) := by
  induction cs generalizing front with
  | nil => exact .refl _
  | cons c cs ih =>
    by_cases dropped : front.foldl Place.next .outside = .outside ∧ isBlank c = true
    · obtain ⟨outside, blank⟩ := dropped
      have rest := ih front
      rw [outside] at rest ⊢
      rw [squeeze_blank blank]
      exact .trans _ _ _ (.rel _ _ (.blank outside blank)) rest
    · have rest := ih (front ++ [c])
      rw [List.foldl_append, List.append_assoc, List.append_assoc] at rest
      rw [squeeze_kept dropped]
      exact rest

theorem squeeze_eq_of_eqvGen {cs ds : List Char} (alike : Relation.EqvGen Drops cs ds) :
    squeeze .outside cs = squeeze .outside ds := by
  induction alike with
  | rel _ _ drops => exact drops.squeeze_eq
  | refl => rfl
  | symm _ _ _ ih => exact ih.symm
  | trans _ _ _ _ _ ih ih' => exact ih.trans ih'

theorem normalize_eq_iff {text other : String} :
    normalize text = normalize other ↔ Relation.EqvGen Drops text.toList other.toList := by
  constructor
  · intro same
    have squeezed (text : String) : Relation.EqvGen Drops text.toList (normalize text).toList := by
      rw [normalize, String.toList_ofList]
      exact drops_squeeze [] text.toList
    exact (squeezed text).trans _ _ _ (same ▸ (squeezed other).symm)
  · intro alike
    rw [normalize, squeeze_eq_of_eqvGen alike, normalize]

end DeclarativeMdp.Text
