/-!
# Lexicographic order

One order serves section numbers, names and paths: compare the first items that differ, and let a
list that ends first come first.
-/

namespace Literate

/-- Lexicographic comparison of lists under an order of their items. -/
def compareLists {α : Type} (cmp : α → α → Ordering) : List α → List α → Ordering
  | [], [] => .eq
  | [], _ :: _ => .lt
  | _ :: _, [] => .gt
  | a :: as, b :: bs =>
    match cmp a b with
    | .eq => compareLists cmp as bs
    | o => o

/-- Items that compare equal to themselves make lists that do so. -/
theorem compareLists_self {α : Type} {cmp : α → α → Ordering} (h : ∀ a, cmp a a = .eq)
    (as : List α) : compareLists cmp as as = .eq := by
  induction as with
  | nil => rfl
  | cons a as ih => simp [compareLists, h, ih]

/-- Exchanging the lists exchanges the verdict. -/
theorem compareLists_swap {α : Type} {cmp : α → α → Ordering}
    (h : ∀ a b, (cmp a b).swap = cmp b a) (as bs : List α) :
    (compareLists cmp as bs).swap = compareLists cmp bs as := by
  induction as generalizing bs with
  | nil => cases bs <;> rfl
  | cons a as ih =>
    cases bs with
    | nil => rfl
    | cons b bs =>
      simp only [compareLists, ← h a b]
      cases cmp a b <;> simp [ih]

/-- The items in increasing order; items that compare equal keep their order. -/
def sortBy {α : Type} (cmp : α → α → Ordering) (as : List α) : List α :=
  as.mergeSort fun a b => cmp a b != .gt

end Literate
