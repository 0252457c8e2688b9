/-!
# `LayerCast.Arith.SortOn`: sorting by a number

Layers are sorted by their levels, and representations by their bandwidths. Elements with the same
number keep their order.
-/

set_option autoImplicit false

namespace LayerCast

variable {α : Type}

/-- Puts an element before the first one whose key is not smaller. -/
def insertOn (key : α → Nat) (a : α) : List α → List α
  | [] => [a]
  | b :: rest => if key a ≤ key b then a :: b :: rest else b :: insertOn key a rest

/-- Sorts by a key; elements with the same key keep their order. -/
def sortOn (key : α → Nat) : List α → List α
  | [] => []
  | a :: rest => insertOn key a (sortOn key rest)

/-- An element that is put into its place is added, and no other is lost. -/
theorem insertOn_perm (key : α → Nat) (a : α) (l : List α) :
    (insertOn key a l).Perm (a :: l) := by
  induction l with
  | nil => exact List.Perm.refl _
  | cons b rest ih =>
      unfold insertOn
      split
      · exact List.Perm.refl _
      · exact (ih.cons b).trans (List.Perm.swap a b rest)

/-- Sorting neither adds nor loses an element. -/
theorem sortOn_perm (key : α → Nat) (l : List α) : (sortOn key l).Perm l := by
  induction l with
  | nil => exact List.Perm.refl _
  | cons a rest ih => exact (insertOn_perm key a _).trans (ih.cons a)

/-- An element finds its place in a sorted list. -/
theorem pairwise_insertOn (key : α → Nat) (a : α) {l : List α}
    (h : l.Pairwise fun x y => key x ≤ key y) :
    (insertOn key a l).Pairwise fun x y => key x ≤ key y := by
  induction l with
  | nil => exact List.pairwise_singleton _ _
  | cons b rest ih =>
      obtain ⟨hb, hrest⟩ := List.pairwise_cons.mp h
      unfold insertOn
      split
      · rename_i hle
        refine List.pairwise_cons.mpr ⟨fun x hx => ?_, h⟩
        rcases List.mem_cons.mp hx with rfl | hx
        · exact hle
        · exact Nat.le_trans hle (hb x hx)
      · rename_i hgt
        refine List.pairwise_cons.mpr ⟨fun x hx => ?_, ih hrest⟩
        rcases List.mem_cons.mp ((insertOn_perm key a rest).mem_iff.mp hx) with rfl | hx
        · exact Nat.le_of_lt (Nat.lt_of_not_le hgt)
        · exact hb x hx

/-- A sorted list is in the order of its keys. -/
theorem pairwise_sortOn (key : α → Nat) (l : List α) :
    (sortOn key l).Pairwise fun x y => key x ≤ key y := by
  induction l with
  | nil => exact List.Pairwise.nil
  | cons a rest ih => exact pairwise_insertOn key a ih

/-- An element comes before those with the same key that follow it. -/
theorem filter_insertOn (key : α → Nat) (a : α) (k : Nat) (l : List α) :
    (insertOn key a l).filter (key · == k) = (a :: l).filter (key · == k) := by
  induction l with
  | nil => rfl
  | cons b rest ih =>
      unfold insertOn
      split
      · rfl
      · rename_i hgt
        rw [List.filter_cons, ih]
        by_cases hb : key b = k
        · have ha : key a ≠ k := by omega
          simp [ha, hb]
        · simp [List.filter_cons, hb]

/-- Elements with the same key keep their order. -/
theorem filter_sortOn (key : α → Nat) (k : Nat) (l : List α) :
    (sortOn key l).filter (key · == k) = l.filter (key · == k) := by
  induction l with
  | nil => rfl
  | cons a rest ih =>
      show (insertOn key a (sortOn key rest)).filter (key · == k) = _
      rw [filter_insertOn, List.filter_cons, ih, List.filter_cons]

end LayerCast
