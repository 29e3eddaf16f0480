set_option autoImplicit false

namespace DeclarativeMdp

structure SortedSet (α : Type) [Ord α] where
  toList : List α
  ascending : toList.Pairwise fun a b => compare a b = .lt
  deriving Repr

namespace SortedSet

variable {α : Type} [Ord α]

@[ext] theorem ext {s t : SortedSet α} (h : s.toList = t.toList) : s = t := by
  cases s; cases t; cases h; rfl

instance [DecidableEq α] : DecidableEq (SortedSet α) := fun s t =>
  if h : s.toList = t.toList then isTrue (ext h) else isFalse fun e => h (e ▸ rfl)

instance [Hashable α] : Hashable (SortedSet α) := ⟨fun s => hash s.toList⟩

def empty : SortedSet α := ⟨[], .nil⟩

instance : EmptyCollection (SortedSet α) := ⟨empty⟩

instance : Inhabited (SortedSet α) := ⟨empty⟩

instance : Membership α (SortedSet α) := ⟨fun s a => a ∈ s.toList⟩

instance [DecidableEq α] (a : α) (s : SortedSet α) : Decidable (a ∈ s) :=
  inferInstanceAs (Decidable (a ∈ s.toList))

def size (s : SortedSet α) : Nat := s.toList.length

def isEmpty (s : SortedSet α) : Bool := s.toList.isEmpty

def place (a : α) : List α → List α
  | [] => [a]
  | b :: bs =>
    match compare a b with
    | .lt => a :: b :: bs
    | .eq => b :: bs
    | .gt => b :: place a bs

def dropEqual : List α → List α
  | [] => []
  | [a] => [a]
  | a :: b :: bs => if compare a b = .eq then dropEqual (a :: bs) else a :: dropEqual (b :: bs)

theorem mem_of_mem_place {a x : α} {bs : List α} (h : x ∈ place a bs) : x = a ∨ x ∈ bs := by
  induction bs with
  | nil => simpa [place] using h
  | cons b bs ih =>
    unfold place at h
    split at h
    · simpa using h
    · exact .inr h
    · rcases List.mem_cons.1 h with rfl | h
      · simp
      · rcases ih h with h | h <;> simp [h]

theorem mem_of_mem_dropEqual {x : α} {as : List α} (h : x ∈ dropEqual as) : x ∈ as := by
  fun_induction dropEqual as with
  | case1 => exact h
  | case2 => exact h
  | case3 a b bs _ ih =>
    rcases List.mem_cons.1 (ih h) with rfl | h <;> simp_all
  | case4 a b bs _ ih =>
    rcases List.mem_cons.1 h with rfl | h
    · simp
    · exact List.mem_cons_of_mem _ (ih h)

variable [Std.TransOrd α]

theorem pairwise_place (a : α) {bs : List α}
    (h : bs.Pairwise fun a b => compare a b = .lt) :
    (place a bs).Pairwise fun a b => compare a b = .lt := by
  induction bs with
  | nil => simp [place]
  | cons b bs ih =>
    have ⟨first, rest⟩ := List.pairwise_cons.1 h
    unfold place
    split
    next below =>
      refine List.pairwise_cons.2 ⟨fun x hx => ?_, h⟩
      rcases List.mem_cons.1 hx with rfl | hx
      · exact below
      · exact Std.TransCmp.lt_trans below (first x hx)
    next => exact h
    next above =>
      refine List.pairwise_cons.2 ⟨fun x hx => ?_, ih rest⟩
      rcases mem_of_mem_place hx with rfl | hx
      · exact Std.OrientedCmp.lt_of_gt above
      · exact first x hx

theorem pairwise_dropEqual {as : List α}
    (h : as.Pairwise fun a b => (compare a b).isLE) :
    (dropEqual as).Pairwise fun a b => compare a b = .lt := by
  fun_induction dropEqual as with
  | case1 => exact .nil
  | case2 => simp
  | case3 a b bs same ih =>
    refine ih (List.pairwise_cons.2 ⟨fun x hx => ?_, ?_⟩)
    · exact (List.pairwise_cons.1 h).1 x (by simp [hx])
    · exact (List.pairwise_cons.1 (List.pairwise_cons.1 h).2).2
  | case4 a b bs different ih =>
    have ⟨first, rest⟩ := List.pairwise_cons.1 h
    refine List.pairwise_cons.2 ⟨fun x hx => ?_, ih rest⟩
    have below : compare a b = .lt := by
      have := first b (by simp)
      cases e : compare a b <;> simp_all
    rcases List.mem_cons.1 (mem_of_mem_dropEqual hx) with rfl | hx
    · exact below
    · exact Std.TransCmp.lt_of_lt_of_isLE below ((List.pairwise_cons.1 rest).1 x hx)

def insert (s : SortedSet α) (a : α) : SortedSet α :=
  ⟨place a s.toList, pairwise_place a s.ascending⟩

def erase [DecidableEq α] (s : SortedSet α) (a : α) : SortedSet α :=
  ⟨s.toList.filter (· ≠ a), s.ascending.filter _⟩

def ofList (as : List α) : SortedSet α :=
  ⟨dropEqual (as.mergeSort fun a b => (compare a b).isLE), pairwise_dropEqual
    (List.pairwise_mergeSort (fun _ _ _ => Std.TransCmp.isLE_trans)
      (fun a b => by
        have swapped : compare b a = (compare a b).swap := Std.OrientedCmp.eq_swap
        rw [swapped]
        cases compare a b <;> rfl) as)⟩

omit [Std.TransOrd α] in
theorem mem_toList {s : SortedSet α} {a : α} : a ∈ s.toList ↔ a ∈ s := .rfl

variable [Std.LawfulEqOrd α]

omit [Std.TransOrd α] in
theorem mem_place {a x : α} {bs : List α} : x ∈ place a bs ↔ x = a ∨ x ∈ bs := by
  refine ⟨mem_of_mem_place, ?_⟩
  induction bs with
  | nil => simp [place]
  | cons b bs ih =>
    intro h
    unfold place
    split
    next => simpa using h
    next same =>
      rw [Std.LawfulEqOrd.eq_of_compare same] at h
      simpa using h
    next =>
      rcases h with h | h
      · exact List.mem_cons_of_mem _ (ih (.inl h))
      · rcases List.mem_cons.1 h with h | h
        · simp [h]
        · exact List.mem_cons_of_mem _ (ih (.inr h))

omit [Std.TransOrd α] in
theorem mem_dropEqual {x : α} {as : List α} : x ∈ dropEqual as ↔ x ∈ as := by
  refine ⟨mem_of_mem_dropEqual, ?_⟩
  fun_induction dropEqual as with
  | case1 => exact id
  | case2 => exact id
  | case3 a b bs same ih =>
    rw [← Std.LawfulEqOrd.eq_of_compare same]
    intro h
    exact ih (by simpa using h)
  | case4 a b bs _ ih =>
    intro h
    rcases List.mem_cons.1 h with h | h
    · simp [h]
    · exact List.mem_cons_of_mem _ (ih h)

@[simp] theorem mem_ofList {as : List α} {a : α} : a ∈ ofList as ↔ a ∈ as := by
  rw [← mem_toList]
  simp [ofList, mem_dropEqual]

@[simp] theorem mem_insert {s : SortedSet α} {a x : α} : x ∈ s.insert a ↔ x = a ∨ x ∈ s :=
  mem_place

omit [Std.TransOrd α] [Std.LawfulEqOrd α] in
@[simp] theorem mem_erase [DecidableEq α] {s : SortedSet α} {a x : α} :
    x ∈ s.erase a ↔ x ∈ s ∧ x ≠ a := by
  rw [← mem_toList, erase, List.mem_filter, decide_eq_true_iff, mem_toList]

-- Two ascending lists with the same members start with the same one, which is in neither rest.
private theorem eq_of_ascending : ∀ {as bs : List α},
    as.Pairwise (fun a b => compare a b = .lt) → bs.Pairwise (fun a b => compare a b = .lt) →
    (∀ x, x ∈ as ↔ x ∈ bs) → as = bs
  | [], [], _, _, _ => rfl
  | [], b :: _, _, _, same => absurd ((same b).2 (by simp)) (by simp)
  | a :: _, [], _, _, same => absurd ((same a).1 (by simp)) (by simp)
  | a :: as, b :: bs, ascending, ascending', same => by
    have ⟨first, rest⟩ := List.pairwise_cons.1 ascending
    have ⟨first', rest'⟩ := List.pairwise_cons.1 ascending'
    have heads : a = b := by
      rcases List.mem_cons.1 ((same a).1 (by simp)) with h | h
      · exact h
      · rcases List.mem_cons.1 ((same b).2 (by simp)) with h' | h'
        · exact h'.symm
        · have := Std.TransCmp.lt_trans (first b h') (first' a h)
          simp at this
    subst heads
    have tails : ∀ x, x ∈ as ↔ x ∈ bs := by
      intro x
      constructor
      · intro h
        rcases List.mem_cons.1 ((same x).1 (by simp [h])) with rfl | h'
        · simpa using first x h
        · exact h'
      · intro h
        rcases List.mem_cons.1 ((same x).2 (by simp [h])) with rfl | h'
        · simpa using first' x h
        · exact h'
    rw [eq_of_ascending rest rest' tails]

theorem eq_of_mem_iff {s t : SortedSet α} (same : ∀ a, a ∈ s ↔ a ∈ t) : s = t :=
  ext (eq_of_ascending s.ascending t.ascending same)

@[simp] theorem ofList_toList (s : SortedSet α) : ofList s.toList = s :=
  eq_of_mem_iff fun _ => by rw [mem_ofList, mem_toList]

omit [Std.TransOrd α] in
theorem nodup (s : SortedSet α) : s.toList.Nodup :=
  s.ascending.imp fun below same => by simp [same] at below

end SortedSet

end DeclarativeMdp
