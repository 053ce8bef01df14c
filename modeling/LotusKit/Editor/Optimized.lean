import LotusKit.Editor.Held
import LotusKit.Editor.Rounded
import LotusKit.Editor.Controls
import Mathlib.Data.Finset.Dedup
import Mathlib.Data.Finset.Card

/-! What the optimizer keeps: the inputs of every single frame, and all that stands between them. -/

namespace LotusKit.Editor
open LotusKit.Lib

variable {N : Numbers}

section Meaning

/-- How many frames a duration lasts. -/
def Numbers.count (N : Numbers) (x : N.Number) : Nat :=
  match N.shortest x with
  | .finite false s e => if 0 ≤ e then s * 10 ^ e.toNat else 0
  | _ => 0

/-- The input of a single frame, or what stands between inputs. -/
inductive Item (N : Numbers) where
  | input (buttons : Finset (List Char)) (lstick rstick : Stick N)
  | other (frame : Frame N)

namespace Frame

def count : Frame N → Nat
  | input duration _ _ _ => N.count duration
  | _ => 0

def item : Frame N → Item N
  | input _ buttons lstick rstick => .input buttons.toFinset lstick rstick
  | frame => .other frame

def expand (frame : Frame N) : List (Item N) :=
  if frame.isInput then List.replicate frame.count frame.item else [frame.item]

/-- A `Set` of buttons. -/
def IsSet : Frame N → Prop
  | input _ buttons _ _ => buttons.Nodup
  | _ => True

def Natural : Frame N → Prop
  | input duration _ _ _ => N.Natural duration
  | _ => True

/-- Two inputs with equal buttons and sticks. -/
def Same : Frame N → Frame N → Prop
  | input _ buttons lstick rstick, input _ buttons' lstick' rstick' =>
    buttons.toFinset = buttons'.toFinset ∧ lstick.strictEq lstick' = true ∧ rstick.strictEq rstick' = true
  | _, _ => False

/-- What the optimizer checks of a frame and the next one. -/
def merges : Frame N → Frame N → Bool
  | input duration buttons lstick rstick, input _ buttons' lstick' rstick' =>
    Current.matches_ ⟨duration, buttons, lstick, rstick⟩ buttons' lstick' rstick'
  | _, _ => false

end Frame

/-- The inputs frame by frame. -/
def expand (frames : List (Frame N)) : List (Item N) := frames.flatMap Frame.expand

/-- Sums of integers are exact up to a limit. -/
def Numbers.AddsExactly (N : Numbers) (limit : Nat) : Prop :=
  ∀ x y, N.Natural x → N.Natural y → N.count x + N.count y ≤ limit →
    N.Natural (N.add x y) ∧ N.count (N.add x y) = N.count x + N.count y

/-- Inputs that are the same and follow each other last no longer than the limit. -/
def RunsFit (limit : Nat) (frames : List (Frame N)) : Prop :=
  ∀ a b rest, a :: b :: rest <:+: frames → (∀ f ∈ b :: rest, Frame.Same a f) →
    (∀ f ∈ a :: b :: rest, f.Natural) ∧ ((a :: b :: rest).map Frame.count).sum ≤ limit

end Meaning

section Sums
variable {x : N.Number} {n : Nat}

theorem is_of_natural (natural : N.Natural x) : (N.shortest x).Is (N.count x) := by
  rcases natural with zero | ⟨s, e, finite, whole⟩
  · rw [Numbers.count, zero]
    exact .inl ⟨rfl, rfl⟩
  · rw [Numbers.count, finite]
    exact .inr ⟨s, e, rfl, whole, if_pos whole⟩

theorem natural_of_is (is : (N.shortest x).Is n) : N.Natural x ∧ N.count x = n := by
  rcases is with ⟨zero, rfl⟩ | ⟨s, e, finite, whole, rfl⟩
  · rw [Numbers.count, zero]
    exact ⟨.inl zero, rfl⟩
  · rw [Numbers.count, finite]
    exact ⟨.inr ⟨s, e, finite, whole⟩, if_pos whole⟩

/-- Doubles add up to 53 bits without rounding. -/
theorem addsExactly_rounded : rounded.AddsExactly (2 ^ 53) := by
  intro x y natural natural' small
  have sum := ((is_of_natural natural).add (is_of_natural natural')).round
  rw [roundDouble_of_le small] at sum
  exact natural_of_is sum

end Sums

section Same
variable {a b : Frame N}

theorem strictEq_iff {x y : N.Number} : N.strictEq x y = true ↔ x = y ∧ x ≠ N.nan := by
  rw [Numbers.strictEq, decide_eq_true_eq]

theorem Stick.eq_of_strictEq {s t : Stick N} (same : s.strictEq t = true) : s = t := by
  rw [Stick.strictEq, Bool.and_eq_true, strictEq_iff, strictEq_iff] at same
  obtain ⟨⟨x, -⟩, y, -⟩ := same
  cases s
  cases t
  congr

theorem toFinset_eq_iff {xs ys : List (List Char)} (set : xs.Nodup) (set' : ys.Nodup) :
    xs.toFinset = ys.toFinset ↔ xs.length = ys.length ∧ ∀ x ∈ xs, x ∈ ys := by
  have cards : xs.toFinset.card = xs.length ∧ ys.toFinset.card = ys.length :=
    ⟨List.toFinset_card_of_nodup set, List.toFinset_card_of_nodup set'⟩
  constructor
  · intro same
    refine ⟨?_, fun x inside => ?_⟩
    · rw [← cards.1, ← cards.2, same]
    · rwa [← List.mem_toFinset, ← same, List.mem_toFinset]
  · rintro ⟨length, subset⟩
    apply Finset.eq_of_subset_of_card_le
    · intro x inside
      rw [List.mem_toFinset] at inside ⊢
      exact subset x inside
    · rw [cards.1, cards.2, length]

/-- The optimizer merges what is the same. -/
theorem merges_iff (set : a.IsSet) (set' : b.IsSet) : a.merges b = true ↔ a.Same b := by
  cases a with
  | input duration buttons lstick rstick =>
    cases b with
    | input duration' buttons' lstick' rstick' =>
      rw [Frame.merges, Current.matches_, decide_eq_true_eq, Frame.Same, toFinset_eq_iff set set']
      exact and_comm
    | _ => exact iff_of_false Bool.false_ne_true id
  | _ => exact iff_of_false Bool.false_ne_true id

theorem Frame.Same.item_eq (same : a.Same b) : b.item = a.item ∧ b.isInput = true := by
  cases a with
  | input duration buttons lstick rstick =>
    cases b with
    | input duration' buttons' lstick' rstick' =>
      obtain ⟨set, left, right⟩ := same
      exact ⟨by rw [item, item, set, Stick.eq_of_strictEq left, Stick.eq_of_strictEq right], rfl⟩
    | _ => exact same.elim
  | _ => exact same.elim

end Same

section Shape
variable {frames front back : List (Frame N)} {current : Option (Current N)} {c : Current N} {barrier : Frame N}
  {duration : N.Number} {buttons : List (List Char)} {lstick rstick : Stick N}

theorem optimizeLoop_other (other : barrier.isInput = false) :
    optimizeLoop (barrier :: frames) current =
      (current.map Current.frame).toList ++ barrier :: optimizeLoop frames none := by
  cases barrier with
  | input duration buttons lstick rstick => cases other
  | _ => rfl

theorem optimizeLoop_first : optimizeLoop (.input duration buttons lstick rstick :: frames) none =
    optimizeLoop frames (some ⟨duration, buttons, lstick, rstick⟩) := rfl

theorem optimizeLoop_merge (same : c.matches_ buttons lstick rstick = true) :
    optimizeLoop (.input duration buttons lstick rstick :: frames) (some c) =
      optimizeLoop frames (some { c with duration := N.add c.duration duration }) := if_pos same

theorem optimizeLoop_differ (differs : c.matches_ buttons lstick rstick = false) :
    optimizeLoop (.input duration buttons lstick rstick :: frames) (some c) =
      c.frame :: optimizeLoop frames (some ⟨duration, buttons, lstick, rstick⟩) :=
  if_neg (Bool.not_eq_true _ ▸ differs)

/-- Nothing is carried over a frame that is no input. -/
theorem optimizeLoop_split (other : barrier.isInput = false) :
    optimizeLoop (front ++ barrier :: back) current = optimizeLoop front current ++ barrier :: optimizeLoop back none := by
  induction front generalizing current with
  | nil => exact optimizeLoop_other other
  | cons next front ih =>
    rw [List.cons_append]
    by_cases plain : next.isInput = false
    · rw [optimizeLoop_other plain, optimizeLoop_other plain, ih, List.append_assoc, List.cons_append]
    · cases next with
      | input duration buttons lstick rstick =>
        cases current with
        | none => exact ih
        | some c =>
          by_cases same : c.matches_ buttons lstick rstick = true
          · rw [optimizeLoop_merge same, optimizeLoop_merge same, ih]
          · rw [Bool.not_eq_true] at same
            rw [optimizeLoop_differ same, optimizeLoop_differ same, ih, List.cons_append]
      | _ => exact absurd rfl plain

/-- The open input comes first. -/
theorem exists_optimizeLoop_some (frames : List (Frame N)) (c : Current N) :
    ∃ duration rest, optimizeLoop frames (some c) = .input duration c.buttons c.lstick c.rstick :: rest := by
  induction frames generalizing c with
  | nil => exact ⟨c.duration, [], rfl⟩
  | cons next frames ih =>
    cases next with
    | input duration buttons lstick rstick =>
      by_cases same : c.matches_ buttons lstick rstick = true
      · rw [optimizeLoop_merge same]
        exact ih { c with duration := N.add c.duration duration }
      · rw [Bool.not_eq_true] at same
        exact ⟨c.duration, _, optimizeLoop_differ same⟩
    | _ => exact ⟨c.duration, _, rfl⟩

/-- No frame that comes out merges with the next one. -/
theorem isChain_optimizeLoop : (optimizeLoop frames current).IsChain fun a b => a.merges b = false := by
  induction frames generalizing current with
  | nil =>
    cases current with
    | none => exact .nil
    | some c => exact .singleton c.frame
  | cons next frames ih =>
    cases next with
    | input duration buttons lstick rstick =>
      cases current with
      | none => exact ih
      | some c =>
        by_cases same : c.matches_ buttons lstick rstick = true
        · rw [optimizeLoop_merge same]
          exact ih
        · rw [Bool.not_eq_true] at same
          have rest := @ih (some ⟨duration, buttons, lstick, rstick⟩)
          obtain ⟨duration', more, out⟩ := exists_optimizeLoop_some frames (⟨duration, buttons, lstick, rstick⟩ : Current N)
          rw [optimizeLoop_differ same]
          rw [out] at rest ⊢
          exact .cons_cons same rest
    | _ =>
      rw [optimizeLoop_other rfl]
      have rest := @ih none
      cases current with
      | none => exact List.isChain_cons.mpr ⟨fun _ _ => rfl, rest⟩
      | some c => exact .cons_cons rfl (List.isChain_cons.mpr ⟨fun _ _ => rfl, rest⟩)

/-- A list in which nothing merges is left as it is. -/
theorem optimizeLoop_of_isChain (chain : frames.IsChain fun a b => a.merges b = false) :
    optimizeLoop frames none = frames ∧
      ∀ c : Current N, (∀ f ∈ frames.head?, c.frame.merges f = false) → optimizeLoop frames (some c) = c.frame :: frames := by
  induction frames with
  | nil => exact ⟨rfl, fun _ _ => rfl⟩
  | cons next frames ih =>
    obtain ⟨first, rest⟩ := List.isChain_cons.mp chain
    obtain ⟨closed, opened⟩ := ih rest
    cases next with
    | input duration buttons lstick rstick =>
      have here := opened ⟨duration, buttons, lstick, rstick⟩ first
      refine ⟨here, fun c differs => ?_⟩
      have apart : c.matches_ buttons lstick rstick = false := differs _ rfl
      rw [optimizeLoop_differ apart, here]
      rfl
    | _ =>
      rw [optimizeLoop_other rfl, closed]
      refine ⟨rfl, fun c _ => ?_⟩
      rw [optimizeLoop_other rfl, closed]
      rfl

theorem getOptimizedFrames_idempotent (frames : List (Frame N)) :
    getOptimizedFrames (getOptimizedFrames frames) = getOptimizedFrames frames :=
  (optimizeLoop_of_isChain isChain_optimizeLoop).1

/-- No input that comes out is the same as the next one. -/
theorem isChain_not_same (sets : ∀ f ∈ frames, f.IsSet) :
    (getOptimizedFrames frames).IsChain fun a b => ¬ a.Same b := by
  have out : ∀ f ∈ getOptimizedFrames frames, f.IsSet := forall_optimizeLoop (fun _ _ set => set) sets nofun
  apply isChain_optimizeLoop.imp_of_mem_imp
  intro a b left right apart
  rw [← merges_iff (out a left) (out b right), apart]
  exact Bool.false_ne_true

end Shape

section Expand
variable {limit : Nat} {frames r : List (Frame N)} {current : Option (Current N)}

/-- The open input stands for the inputs that were merged into it. -/
def Represents : Option (Current N) → List (Frame N) → Prop
  | none, r => r = []
  | some c, r => ∃ duration more, r = .input duration c.buttons c.lstick c.rstick :: more ∧
    (∀ f ∈ more, Frame.Same (.input duration c.buttons c.lstick c.rstick) f) ∧
    (more = [] → c.duration = duration) ∧
    (more ≠ [] → N.Natural c.duration ∧ N.count c.duration = (r.map Frame.count).sum)

theorem expand_append {front back : List (Frame N)} : expand (front ++ back) = expand front ++ expand back :=
  List.flatMap_append

theorem Frame.expand_input {f : Frame N} (input : f.isInput = true) : f.expand = List.replicate f.count f.item :=
  if_pos input

theorem expand_same {a : Frame N} (input : a.isInput = true) (same : ∀ f ∈ r, a.Same f) :
    expand (a :: r) = List.replicate ((a :: r).map Frame.count).sum a.item := by
  have rest : expand r = List.replicate (r.map Frame.count).sum a.item := by
    induction r with
    | nil => rfl
    | cons f r ih =>
      have ⟨first, later⟩ := List.forall_mem_cons.mp same
      have ⟨item, input'⟩ := first.item_eq
      rw [expand, List.flatMap_cons, ← expand, ih later, Frame.expand_input input', item, List.map_cons, List.sum_cons,
        List.replicate_add]
  rw [expand, List.flatMap_cons, ← expand, rest, Frame.expand_input input, List.map_cons, List.sum_cons,
    List.replicate_add]

theorem Represents.expand_eq {c : Current N} (represents : Represents (some c) r) : c.frame.expand = expand r := by
  obtain ⟨duration, more, rfl, same, single, merged⟩ := represents
  rw [expand_same rfl same]
  by_cases alone : more = []
  · rw [alone, ← single alone]
    rfl
  · rw [← (merged alone).2]
    rfl

theorem Represents.expand_toList (represents : Represents current r) :
    expand (current.map Current.frame).toList = expand r := by
  cases current with
  | none =>
    have empty : r = [] := represents
    rw [empty]
    rfl
  | some c => exact (List.append_nil _).trans represents.expand_eq

theorem RunsFit.of_infix {more : List (Frame N)} (fits : RunsFit limit frames) (part : more <:+: frames) :
    RunsFit limit more := fun a b rest inside same => fits a b rest (inside.trans part) same

theorem RunsFit.last {a next : Frame N} {more : List (Frame N)} (fits : RunsFit limit (a :: more ++ [next]))
    (same : ∀ f ∈ more ++ [next], a.Same f) :
    (∀ f ∈ a :: more ++ [next], f.Natural) ∧ ((a :: more).map Frame.count).sum + next.count ≤ limit := by
  have whole : (∀ f ∈ a :: more ++ [next], f.Natural) ∧ ((a :: more ++ [next]).map Frame.count).sum ≤ limit := by
    cases more with
    | nil => exact fits a next [] List.infix_rfl same
    | cons second more => exact fits a second (more ++ [next]) List.infix_rfl same
  rwa [List.map_append, List.sum_append, List.map_singleton, List.sum_singleton] at whole

/-- One more input is merged into the open one. -/
theorem Represents.merge {c : Current N} {duration : N.Number} {buttons : List (List Char)} {lstick rstick : Stick N}
    (exact_ : N.AddsExactly limit) (represents : Represents (some c) r)
    (fits : RunsFit limit (r ++ [.input duration buttons lstick rstick]))
    (sets : ∀ f ∈ r ++ [.input duration buttons lstick rstick], f.IsSet)
    (same : c.matches_ buttons lstick rstick = true) :
    Represents (some { c with duration := N.add c.duration duration }) (r ++ [.input duration buttons lstick rstick]) := by
  obtain ⟨first, more, rfl, own, single, merged⟩ := represents
  have ⟨set, others⟩ := List.forall_mem_cons.mp sets
  have set' := others _ (List.mem_append_right more List.mem_cons_self)
  have all : ∀ f ∈ more ++ [Frame.input duration buttons lstick rstick],
      Frame.Same (.input first c.buttons c.lstick c.rstick) f := by
    intro f member
    rcases List.mem_append.mp member with before | new
    · exact own f before
    · rw [List.mem_singleton.mp new]
      exact (merges_iff set set').mp same
  have ⟨naturals, bound⟩ := fits.last all
  have counted : N.Natural c.duration ∧ N.count c.duration =
      ((Frame.input first c.buttons c.lstick c.rstick :: more).map Frame.count).sum := by
    by_cases alone : more = []
    · rw [alone, single alone]
      exact ⟨naturals _ List.mem_cons_self, rfl⟩
    · exact merged alone
  have natural : N.Natural duration := naturals _ (List.mem_append_right _ List.mem_cons_self)
  rw [← counted.2] at bound
  have ⟨whole, value⟩ := exact_ c.duration duration counted.1 natural bound
  refine ⟨first, more ++ [.input duration buttons lstick rstick], rfl, all, fun none_ => ?_, fun _ => ⟨whole, ?_⟩⟩
  · exact absurd none_ (List.append_ne_nil_of_right_ne_nil more (List.cons_ne_nil _ _))
  · rw [value, List.map_append, List.sum_append, counted.2]
    rfl

/-- What is left to read and what is open last as long as before. -/
theorem expand_optimizeLoop (exact_ : N.AddsExactly limit) (represents : Represents current r)
    (fits : RunsFit limit (r ++ frames)) (sets : ∀ f ∈ r ++ frames, f.IsSet) :
    expand (optimizeLoop frames current) = expand (r ++ frames) := by
  induction frames generalizing current r with
  | nil =>
    rw [List.append_nil]
    exact represents.expand_toList
  | cons next frames ih =>
    have later : ∀ f ∈ next :: frames, f.IsSet := fun f member => sets f (List.mem_append_right r member)
    have behind : frames <:+: r ++ next :: frames := ⟨r ++ [next], [], by simp⟩
    by_cases input : next.isInput = true
    · cases next with
      | input duration buttons lstick rstick =>
        have alone : Represents (some ⟨duration, buttons, lstick, rstick⟩)
            [Frame.input (N := N) duration buttons lstick rstick] :=
          ⟨duration, [], rfl, nofun, fun _ => rfl, fun some_ => absurd rfl some_⟩
        have fresh := ih alone (fits.of_infix ⟨r, [], by simp⟩) later
        cases current with
        | none =>
          rw [show r = [] from represents]
          exact fresh
        | some c =>
          by_cases same : c.matches_ buttons lstick rstick = true
          · have front : ∀ f ∈ r ++ [Frame.input duration buttons lstick rstick], f.IsSet := by
              intro f member
              apply sets
              rw [List.append_cons]
              exact List.mem_append_left frames member
            have merged := represents.merge exact_ (fits.of_infix ⟨[], frames, by simp⟩) front same
            rw [optimizeLoop_merge same, List.append_cons]
            apply ih merged
            · rwa [← List.append_cons]
            · rwa [← List.append_cons]
          · rw [Bool.not_eq_true] at same
            rw [optimizeLoop_differ same]
            calc expand (c.frame :: optimizeLoop frames (some ⟨duration, buttons, lstick, rstick⟩))
                = c.frame.expand ++ expand (optimizeLoop frames (some ⟨duration, buttons, lstick, rstick⟩)) := rfl
              _ = expand r ++ expand (.input duration buttons lstick rstick :: frames) := by
                rw [represents.expand_eq, fresh, List.singleton_append]
              _ = expand (r ++ .input duration buttons lstick rstick :: frames) := expand_append.symm
      | _ => cases input
    · rw [Bool.not_eq_true] at input
      have rest := @ih [] none rfl (fits.of_infix behind) fun f member => later f (List.mem_cons_of_mem next member)
      rw [optimizeLoop_other input, expand_append, represents.expand_toList, expand_append]
      calc expand r ++ (next.expand ++ expand (optimizeLoop frames none))
          = expand r ++ (next.expand ++ expand frames) := by rw [rest, List.nil_append]

end Expand

end LotusKit.Editor
