import Mathlib.Data.List.Basic

/-! Ordered forests: a first tree, with its children as a forest, and the trees beside it. -/

namespace LotusKit.Lib

inductive Forest (α : Type) where
  | nil
  | cons (a : α) (children siblings : Forest α)

namespace Forest
variable {α : Type}

def roots : Forest α → List α
  | nil => []
  | cons a _ siblings => a :: siblings.roots

def size : Forest α → Nat
  | nil => 0
  | cons _ children siblings => children.size + siblings.size + 1

/-- Parents before their children, with the depth of each. -/
def preorder : Forest α → Nat → List (α × Nat)
  | nil, _ => []
  | cons a children siblings, depth => (a, depth) :: (children.preorder (depth + 1) ++ siblings.preorder depth)

end Forest

end LotusKit.Lib
