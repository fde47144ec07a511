-- How sums and products are taken apart for reading. Their parts are put in another order, and the
-- sign of a product is taken off.
import Mathlib
import Reckoner.Algebra.Normal
import Reckoner.Proofs.Sorting

namespace Reckoner

/-! ## The order of reading -/

namespace Builder

theorem sortByKey_perm (B : Builder) (l : List Expr) : (B.sortByKey l).Perm l := by
  have keys : (l.map fun x => (x, B.sortKey x)).map Prod.fst = l := by simp [Function.comp_def]
  have sorted := (sortBy_perm (fun a b => !SortKey.lt b.2 a.2)
    (l.map fun x => (x, B.sortKey x))).map Prod.fst
  rwa [keys] at sorted

theorem orderTerms_perm (B : Builder) (key : Expr → SortKey) (l : List Expr) :
    (B.orderTerms key l).Perm l := by
  unfold orderTerms
  extract_lets first special terms bases sorted
  have kept : first.Perm l := List.filter_append_perm _ _
  clear_value first
  have chosen : special = none ∨ special = some first := by
    unfold special
    split
    · dsimp only
      split_ifs <;> simp
    · exact .inl rfl
  rcases chosen with h | h
  · have names : terms.map Prod.fst = l := by simp [terms, Function.comp_def]
    rw [h]
    exact ((sortBy_perm _ terms).map Prod.fst).trans (.of_eq names)
  · rw [h]
    exact kept

end Builder

namespace Expr

/-! ## Products -/

/-- A product without the sign before it. -/
def unsigned (l : List Expr) : Expr :=
  let (c, rest) := (Expr.prod l).coeffMul
  if c.isNegative then Expr.keepCoeff c.neg rest else .prod l

/-- The factors of a product in the order of reading. -/
def readFactors (x : Expr) : List Expr :=
  match x with
  | .prod l => Builder.full.sortByKey l
  | y => [y]

theorem readFactors_perm (x : Expr) : (readFactors x).Perm x.factors := by
  cases x with
  | prod l => exact Builder.full.sortByKey_perm l
  | _ => exact .refl _

end Expr

end Reckoner
