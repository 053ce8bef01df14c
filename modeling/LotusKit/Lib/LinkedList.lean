import Mathlib.Data.List.Nodup
import Mathlib.Logic.Function.Basic

/-! Singly linked lists in a memory of nodes: what stands in a list, reading on from one of its nodes,
and linking a new node to its last one. -/

namespace LotusKit.Lib.LinkedList

structure Node (Ptr α : Type*) where
  content : α
  next : Option Ptr

variable {Ptr α : Type*}

/-- `none` where no node lives. -/
abbrev Memory (Ptr α : Type*) := Ptr → Option (Node Ptr α)

/-- The list from a pointer on: its nodes and their contents. -/
def Lists (mem : Memory Ptr α) : Option Ptr → List (Ptr × α) → Prop
  | head, [] => head = none
  | head, (p, x) :: items => head = some p ∧ ∃ next, mem p = some ⟨x, next⟩ ∧ Lists mem next items

variable {mem mem' : Memory Ptr α} {head : Option Ptr} {items front back : List (Ptr × α)} {p q : Ptr} {x y : α}

/-- What is written outside of a list does not change it. -/
theorem Lists.congr (same : ∀ p ∈ items.map Prod.fst, mem' p = mem p) (lists : Lists mem head items) :
    Lists mem' head items := by
  induction items generalizing head with
  | nil => exact lists
  | cons item items ih =>
    obtain ⟨first, next, here, rest⟩ := lists
    rw [List.map_cons, List.forall_mem_cons] at same
    exact ⟨first, next, same.1.trans here, ih same.2 rest⟩

theorem Lists.eq_nil (lists : Lists mem none items) : items = [] := by
  cases items with
  | nil => rfl
  | cons item items => exact nomatch lists.1

theorem Lists.eq_cons (lists : Lists mem (some p) items) : ∃ x back, items = (p, x) :: back := by
  cases items with
  | nil => exact nomatch lists
  | cons item items =>
    cases lists.1
    exact ⟨item.2, items, rfl⟩

/-- A node of the list leads to what is behind it. -/
theorem Lists.read (lists : Lists mem head (front ++ (p, x) :: back)) :
    ∃ next, mem p = some ⟨x, next⟩ ∧ Lists mem next back := by
  induction front generalizing head with
  | nil => exact lists.2
  | cons item front ih =>
    obtain ⟨-, next, -, rest⟩ := lists
    exact ih rest

theorem Lists.live (lists : Lists mem head items) : ∀ p ∈ items.map Prod.fst, (mem p).isSome := by
  intro p member
  obtain ⟨⟨_, x⟩, inside, rfl⟩ := List.mem_map.mp member
  obtain ⟨front, back, rfl⟩ := List.append_of_mem inside
  obtain ⟨next, here, -⟩ := lists.read
  rw [here, Option.isSome_some]

/-- A new node behind the last one. -/
theorem Lists.link [DecidableEq Ptr] (lists : Lists mem head (items ++ [(p, x)])) (apart : ((items ++ [(p, x)]).map Prod.fst).Nodup)
    (fresh : mem q = some ⟨y, none⟩) (other : q ∉ (items ++ [(p, x)]).map Prod.fst) :
    Lists (Function.update mem p (some ⟨x, some q⟩)) head (items ++ [(p, x)] ++ [(q, y)]) := by
  induction items generalizing head with
  | nil =>
    obtain ⟨first, -⟩ := lists
    have differs : q ≠ p := fun same => other (same ▸ List.mem_singleton.mpr rfl)
    refine ⟨first, some q, Function.update_self _ _ _, rfl, none, ?_, rfl⟩
    rw [Function.update_of_ne differs, fresh]
  | cons item items ih =>
    obtain ⟨first, next, here, rest⟩ := lists
    rw [List.cons_append, List.map_cons, List.nodup_cons] at apart
    rw [List.cons_append, List.map_cons, List.mem_cons, not_or] at other
    have differs : item.1 ≠ p := by
      intro same
      apply apart.1
      rw [List.map_append, List.mem_append]
      exact .inr (same ▸ List.mem_singleton.mpr rfl)
    refine ⟨first, next, ?_, ih rest apart.2 other.2⟩
    rw [Function.update_of_ne differs, here]

/-- Several lists in one memory that have no node in common. -/
structure Laid {ι : Type*} (mem : Memory Ptr α) (heads : ι → Option Ptr) (items : ι → List (Ptr × α)) : Prop where
  lists : ∀ i, Lists mem (heads i) (items i)
  apart : ∀ i, ((items i).map Prod.fst).Nodup
  disjoint : ∀ i j, i ≠ j → List.Disjoint ((items i).map Prod.fst) ((items j).map Prod.fst)

namespace Laid
variable {ι : Type*} {heads : ι → Option Ptr} {items : ι → List (Ptr × α)} {i : ι}

theorem nil : Laid mem (fun _ : ι => none) (fun _ => []) where
  lists _ := rfl
  apart _ := List.nodup_nil
  disjoint _ _ _ := List.disjoint_nil_left _

/-- With no node in any list, the memory does not matter. -/
theorem reset (laid : Laid mem heads fun _ => []) : Laid mem' heads fun _ => [] where
  lists := laid.lists
  apart := laid.apart
  disjoint := laid.disjoint

/-- A node in none of the lists may change. -/
theorem write [DecidableEq Ptr] (laid : Laid mem heads items) (outside : ∀ i, p ∉ (items i).map Prod.fst) (node : Option (Node Ptr α)) :
    Laid (Function.update mem p node) heads items where
  lists i := by
    apply (laid.lists i).congr
    intro q member
    have differs : q ≠ p := fun same => outside i (same ▸ member)
    exact Function.update_of_ne differs _ _
  apart := laid.apart
  disjoint := laid.disjoint

variable [DecidableEq ι]

theorem clear (laid : Laid mem heads items) (i : ι) :
    Laid mem (Function.update heads i none) (Function.update items i []) where
  lists j := by
    by_cases same : j = i
    · subst same
      rw [Function.update_self, Function.update_self]
      rfl
    · rw [Function.update_of_ne same, Function.update_of_ne same]
      exact laid.lists j
  apart j := by
    by_cases same : j = i
    · subst same
      rw [Function.update_self]
      exact List.nodup_nil
    · rw [Function.update_of_ne same]
      exact laid.apart j
  disjoint j k differs := by
    by_cases first : j = i
    · subst first
      rw [Function.update_self]
      exact List.disjoint_nil_left _
    by_cases second : k = i
    · subst second
      rw [Function.update_self]
      exact List.disjoint_nil_right _
    rw [Function.update_of_ne first, Function.update_of_ne second]
    exact laid.disjoint j k differs

theorem apart_append (laid : Laid mem heads items) (outside : ∀ i, q ∉ (items i).map Prod.fst) (i j : ι) :
    ((Function.update items i (items i ++ [(q, y)]) j).map Prod.fst).Nodup := by
  by_cases same : j = i
  · subst same
    rw [Function.update_self, List.map_append, List.map_singleton, List.nodup_append_comm]
    exact List.nodup_cons.mpr ⟨outside j, laid.apart j⟩
  · rw [Function.update_of_ne same]
    exact laid.apart j

theorem disjoint_append (laid : Laid mem heads items) (outside : ∀ i, q ∉ (items i).map Prod.fst) (i : ι) :
    ∀ j k, j ≠ k → List.Disjoint ((Function.update items i (items i ++ [(q, y)]) j).map Prod.fst)
      ((Function.update items i (items i ++ [(q, y)]) k).map Prod.fst) := by
  have one_side : ∀ k, k ≠ i → List.Disjoint ((items i ++ [(q, y)]).map Prod.fst) ((items k).map Prod.fst) := by
    intro k other
    rw [List.map_append, List.map_singleton, List.disjoint_append_left, List.singleton_disjoint]
    exact ⟨laid.disjoint i k other.symm, outside k⟩
  intro j k differs
  by_cases first : j = i
  · subst first
    rw [Function.update_self, Function.update_of_ne differs.symm]
    exact one_side k differs.symm
  by_cases second : k = i
  · subst second
    rw [Function.update_self, Function.update_of_ne differs]
    exact List.disjoint_comm.mp (one_side j differs)
  rw [Function.update_of_ne first, Function.update_of_ne second]
  exact laid.disjoint j k differs

/-- The first node of a list. -/
theorem push (laid : Laid mem heads items) (fresh : mem q = some ⟨y, none⟩) (outside : ∀ i, q ∉ (items i).map Prod.fst)
    (empty : items i = []) :
    Laid mem (Function.update heads i (some q)) (Function.update items i (items i ++ [(q, y)])) where
  lists j := by
    by_cases same : j = i
    · subst same
      rw [Function.update_self, Function.update_self, empty]
      exact ⟨rfl, none, fresh, rfl⟩
    · rw [Function.update_of_ne same, Function.update_of_ne same]
      exact laid.lists j
  apart := laid.apart_append outside i
  disjoint := laid.disjoint_append outside i

/-- A new node behind the last one of a list. -/
theorem link [DecidableEq Ptr] (laid : Laid mem heads items) (fresh : mem q = some ⟨y, none⟩) (outside : ∀ i, q ∉ (items i).map Prod.fst)
    (last : items i = front ++ [(p, x)]) :
    Laid (Function.update mem p (some ⟨x, some q⟩)) heads (Function.update items i (items i ++ [(q, y)])) where
  lists j := by
    have here : p ∈ (items i).map Prod.fst := by
      rw [last, List.map_append, List.mem_append]
      exact .inr (List.mem_singleton.mpr rfl)
    by_cases same : j = i
    · subst same
      rw [Function.update_self, last]
      exact (last ▸ laid.lists j).link (last ▸ laid.apart j) fresh (last ▸ outside j)
    · rw [Function.update_of_ne same]
      apply (laid.lists j).congr
      intro r member
      have differs : r ≠ p := by
        intro same_node
        exact laid.disjoint j i same (same_node ▸ member) here
      exact Function.update_of_ne differs _ _
  apart := laid.apart_append outside i
  disjoint := laid.disjoint_append outside i

end Laid

end LotusKit.Lib.LinkedList
