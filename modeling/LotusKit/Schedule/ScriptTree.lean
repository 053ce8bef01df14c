import LotusKit.Schedule.Binds
import Mathlib.Algebra.GroupWithZero.Nat

/-! Nested scripts in the abstract. A script is a tree of inputs and nested scripts; its
meaning is the in-order flattening. A small stack machine says how far a script gets before
it has to wait for an input to elapse or for a pause to end, and plays the flattening unless
a nested script ends before it ever waited. -/

namespace LotusKit.Schedule

/-- A script that schedules inputs, and executes other scripts in between. -/
inductive ScriptTree where
  | done
  | input (duration : Nat) (nextButtons : BitVec 64) (nextLStick nextRStick : AnalogStickState)
      (rest : ScriptTree)
  | nested (bind : ExecBind) (child rest : ScriptTree)

/-- The file is there, builds, and has its entry point. -/
def ScriptSource.good : ScriptSource := ⟨true, false, true, true⟩

namespace ScriptTree

def toScript : ScriptTree → Script
  | done => .done
  | input duration b l r rest => .call (.input duration b l r) rest.toScript
  | nested bind child rest => .exec ⟨bind, .good, true, true⟩ child.toScript rest.toScript

/-- How far the stack grows above the script's own slot. -/
def depth : ScriptTree → Nat
  | done => 0
  | input _ _ _ _ rest => rest.depth
  | nested _ child rest => max (child.depth + 1) rest.depth

/-- The time an input is held, in 60ths. A pushed script runs at 30 fps. -/
def time60 (duration : Nat) : Nat := u32 (duration * InputDurationScalingStrategy.fps30_2X.factor)

def inputEvent (slot duration : Nat) (b : BitVec 64) (l r : AnalogStickState) : Event :=
  .input slot (time60 duration) (scheduledInput b l r)

/-- What script `t` in slot `k` shows from its current statement on, when every nested call
is expanded in place. A script is executed again after each input it waits for, and exactly
once after each nested script. -/
def flatten (k : Nat) : ScriptTree → List Event
  | done => []
  | input duration b l r rest =>
    inputEvent k duration b l r ::
      (if 0 < time60 duration then .execute k :: rest.flatten k else rest.flatten k)
  | nested _ child rest =>
    .execute (k + 1) :: (child.flatten (k + 1) ++ .execute k :: rest.flatten k)

/-- The same for a stack of scripts that wait, the top first. -/
def flattenStack : List ScriptTree → List Event
  | [] => []
  | t :: below => .execute below.length :: (t.flatten below.length ++ flattenStack below)

/-- Some input in the expansion takes time. -/
def Yields : ScriptTree → Prop
  | done => False
  | input duration _ _ _ rest => 0 < time60 duration ∨ rest.Yields
  | nested _ child rest => child.Yields ∨ rest.Yields

/-- Every nested script has an input that takes time. -/
def NestedYield : ScriptTree → Prop
  | done => True
  | input _ _ _ _ rest => rest.NestedYield
  | nested _ child rest => child.Yields ∧ child.NestedYield ∧ rest.NestedYield

/-- How one `Execute` of a script ends: with the script at its end, with a stack of scripts
that wait, or in an abort. -/
inductive Burst where
  | finished (events : List Event)
  | stopped (events : List Event) (stack : List ScriptTree) (ttl60 : Nat)
  | aborted

def Burst.after (before : List Event) : Burst → Burst
  | finished events => finished (before ++ events)
  | stopped events stack ttl60 => stopped (before ++ events) stack ttl60
  | aborted => aborted

/-- A nested script stopped, and its parent with it. -/
def Burst.beyond (rest : ScriptTree) (before : List Event) : Burst → Burst
  | finished _ => aborted
  | stopped events stack ttl60 => stopped (before ++ events) (stack ++ [rest]) ttl60
  | aborted => aborted

/-- `Execute` of script `t` in slot `k`, where `blocked i` tells whether slot `i` may not be
executed now. A nested script that finishes right away returns to a parent which is still
being executed. -/
def burst (blocked : Nat → Bool) (k : Nat) : ScriptTree → Burst
  | done => .finished []
  | input duration b l r rest =>
    if 0 < time60 duration then .stopped [inputEvent k duration b l r] [rest] (time60 duration)
    else (rest.burst blocked k).after [inputEvent k duration b l r]
  | nested _ child rest =>
    if blocked (k + 1) then .stopped [] [child, rest] 0
    else (child.burst blocked (k + 1)).beyond rest [.execute (k + 1)]

/-- Only the slots above `k` are asked. -/
theorem burst_congr {blocked blocked' : Nat → Bool} {t : ScriptTree} {k : Nat}
    (same : ∀ i, k < i → blocked i = blocked' i) : t.burst blocked k = t.burst blocked' k := by
  induction t generalizing k with
  | done => rfl
  | input duration b l r rest ih => simp only [burst, ih same]
  | nested bind child rest ihChild ihRest =>
    simp only [burst, same (k + 1) (Nat.lt_succ_self k)]
    rw [ihChild fun i beyond => same i (Nat.lt_of_succ_lt beyond)]

/-- What blocks the child is asked first, what blocks the scripts above it later. -/
theorem burst_nested_update (blocked : Nat → Bool) (isBlocked : Bool) (bind : ExecBind)
    (child rest : ScriptTree) (k : Nat) :
    (nested bind child rest).burst (Function.update blocked (k + 1) isBlocked) k =
      if isBlocked then .stopped [] [child, rest] 0
      else (child.burst blocked (k + 1)).beyond rest [.execute (k + 1)] := by
  have above : child.burst (Function.update blocked (k + 1) isBlocked) (k + 1) =
      child.burst blocked (k + 1) :=
    burst_congr fun i beyond => Function.update_of_ne (Nat.ne_of_gt beyond) _ _
  simp only [burst, Function.update_self, above]

/-- How a frame ends. -/
inductive Turn where
  | complete (events : List Event)
  | waiting (events : List Event) (stack : List ScriptTree) (ttl60 : Nat)
  | aborted

def Turn.after (before : List Event) : Turn → Turn
  | complete events => complete (before ++ events)
  | waiting events stack ttl60 => waiting (before ++ events) stack ttl60
  | aborted => aborted

/-- The top script goes on; when it ends, so does the one below, unless it is blocked. What
is blocked may change on the way: `blocked k i` is for slot `i` once slot `k` is executed. -/
def turn (blocked : Nat → Nat → Bool) : List ScriptTree → Turn
  | [] => .complete []
  | t :: below =>
    match t.burst (blocked below.length) below.length with
    | .finished events =>
      if below ≠ [] ∧ blocked below.length (below.length - 1) then
        .waiting (.execute below.length :: events) below 0
      else (turn blocked below).after (.execute below.length :: events)
    | .stopped events stack ttl60 =>
      .waiting (.execute below.length :: events) (stack ++ below) ttl60
    | .aborted => .aborted

/-- A turn asks each level of the stack for itself. -/
theorem turn_congr {blocked blocked' : Nat → Nat → Bool} {stack : List ScriptTree}
    (same : ∀ k < stack.length, blocked k = blocked' k) : turn blocked stack = turn blocked' stack := by
  induction stack with
  | nil => rfl
  | cons t below ih =>
    have top := same below.length (Nat.lt_succ_self _)
    have rest := ih fun k less => same k (Nat.lt_succ_of_lt less)
    simp only [turn, top, rest]

/-- What blocks the top's scripts is asked first, then whether the one below goes on. -/
theorem turn_update (blocked : Nat → Nat → Bool) (blockedTop : Nat → Bool) (isBlocked : Bool)
    (t : ScriptTree) (below : List ScriptTree) :
    turn (Function.update blocked below.length
        (Function.update blockedTop (below.length - 1) isBlocked)) (t :: below) =
      match t.burst blockedTop below.length with
      | .finished events =>
        if below ≠ [] ∧ isBlocked then .waiting (.execute below.length :: events) below 0
        else (turn blocked below).after (.execute below.length :: events)
      | .stopped events stack ttl60 =>
        .waiting (.execute below.length :: events) (stack ++ below) ttl60
      | .aborted => .aborted := by
  have top : t.burst (Function.update blockedTop (below.length - 1) isBlocked) below.length =
      t.burst blockedTop below.length :=
    burst_congr fun i beyond => Function.update_of_ne (by omega) _ _
  have rest : turn (Function.update blocked below.length
      (Function.update blockedTop (below.length - 1) isBlocked)) below = turn blocked below :=
    turn_congr fun k less => Function.update_of_ne (Nat.ne_of_lt less) _ _
  simp only [turn, Function.update_self, top, rest]

/-- The scripts on the stack between two frames, the top first, the time left of the top's
input, and whether they were never executed yet. -/
structure Playing where
  stack : List ScriptTree
  ttl60 : Nat
  isPlaybackBeginPending : Bool

/-- A frame takes `spent60` off the top's input, unless the top is blocked. -/
def frame (isBlocked : Bool) (spent60 : Nat) (blocked : Nat → Nat → Bool) (p : Playing) : Turn :=
  if p.isPlaybackBeginPending = false ∧ isBlocked then .waiting [] p.stack p.ttl60
  else if p.isPlaybackBeginPending = false ∧ p.ttl60 - spent60 ≠ 0 then
    .waiting [] p.stack (p.ttl60 - spent60)
  else turn blocked p.stack

/-- Counts statements and the time of their inputs. -/
def weight : ScriptTree → Nat
  | done => 1
  | input duration _ _ _ rest => 1 + time60 duration + rest.weight
  | nested _ child rest => 1 + child.weight + rest.weight

theorem weight_pos (t : ScriptTree) : 0 < t.weight := by
  cases t <;> simp only [weight] <;> omega

def stackWeight (stack : List ScriptTree) : Nat := (stack.map weight).sum

theorem stackWeight_append (top below : List ScriptTree) :
    stackWeight (top ++ below) = stackWeight top + stackWeight below := by
  simp [stackWeight]

/-- There is room on the stack for whatever the scripts will still push. -/
def Fits : List ScriptTree → Prop
  | [] => True
  | t :: below => below.length + t.depth < MAX_MODULE_STACK_DEPTH ∧ Fits below

/-- What is left of script `t`, executed in slot `k`, when it waits. -/
structure Waits (blocked : Nat → Bool) (k : Nat) (t : ScriptTree) (events : List Event)
    (stack : List ScriptTree) (ttl60 : Nat) : Prop where
  nonempty : stack ≠ []
  events : ∀ below, below.length = k →
    events ++ flattenStack (stack ++ below) = t.flatten k ++ flattenStack below
  weight : ttl60 + stackWeight stack < t.weight
  fits : ∀ below, below.length = k → k + t.depth < MAX_MODULE_STACK_DEPTH → Fits below →
    Fits (stack ++ below)
  nestedYield : t.NestedYield → ∀ u ∈ stack, u.NestedYield
  unblocked : (∀ i, blocked i = false) →
    t.Yields ∧ ((∀ u ∈ stack, u.NestedYield) → t.NestedYield)

/-- What is true of each way a script can end its turn. -/
def Burst.Spec (blocked : Nat → Bool) (k : Nat) (t : ScriptTree) : Burst → Prop
  | finished events => events = t.flatten k ∧ ¬t.Yields ∧ t.NestedYield
  | stopped events stack ttl60 => Waits blocked k t events stack ttl60
  | aborted => ¬t.NestedYield

variable {blocked : Nat → Bool} {k : Nat}

theorem Burst.Spec.after {duration : Nat} {b : BitVec 64} {l r : AnalogStickState}
    {rest : ScriptTree} {burst : Burst} (instant : ¬0 < time60 duration)
    (spec : burst.Spec blocked k rest) :
    (burst.after [inputEvent k duration b l r]).Spec blocked k (.input duration b l r rest) := by
  cases burst with
  | finished events =>
    obtain ⟨same, silent, nested⟩ := spec
    refine ⟨?_, by simp [Yields, instant, silent], nested⟩
    simp only [flatten, if_neg instant, same, List.singleton_append]
  | stopped events stack ttl60 =>
    refine ⟨spec.nonempty, fun below slot => ?_, ?_, spec.fits, spec.nestedYield,
      fun free => ⟨.inr (spec.unblocked free).1, (spec.unblocked free).2⟩⟩
    · simp only [flatten, if_neg instant, List.cons_append, List.nil_append]
      rw [spec.events below slot]
    · have less := spec.weight
      simp only [ScriptTree.weight]
      omega
  | aborted => exact spec

/-- A nested script that waits makes its parent wait below it. -/
theorem Burst.Spec.beyond {bind : ExecBind} {child rest : ScriptTree} {burst : Burst}
    (spec : burst.Spec blocked (k + 1) child) :
    (burst.beyond rest [.execute (k + 1)]).Spec blocked k (.nested bind child rest) := by
  cases burst with
  | finished events => exact fun nested => spec.2.1 nested.1
  | stopped events stack ttl60 =>
    refine ⟨by simp, fun below slot => ?_, ?_, fun below slot room fits => ?_,
      fun nested u member => ?_, fun free => ⟨.inl (spec.unblocked free).1, fun all => ?_⟩⟩
    · have inner := spec.events (rest :: below) (by simp [slot])
      simp only [flattenStack, slot] at inner
      simp only [flatten, List.cons_append, List.nil_append, List.append_assoc, inner]
    · have less := spec.weight
      simp only [ScriptTree.weight, stackWeight_append]
      simp only [stackWeight, List.map_cons, List.map_nil, List.sum_cons, List.sum_nil] at less ⊢
      omega
    · simp only [depth] at room
      rw [List.append_assoc]
      exact spec.fits (rest :: below) (by simp [slot]) (by omega) ⟨by omega, fits⟩
    · rcases List.mem_append.mp member with inner | own
      · exact spec.nestedYield nested.2.1 u inner
      · rw [List.mem_singleton.mp own]
        exact nested.2.2
    · have inner := (spec.unblocked free).2 fun u member => all u (List.mem_append_left _ member)
      exact ⟨(spec.unblocked free).1, inner, all rest (List.mem_append_right _ (by simp))⟩
  | aborted => exact fun nested => spec nested.2.1

/-- Each `Execute` plays a prefix of the script's flattening and leaves the rest on the
stack, and aborts only at a nested script that ends right away. -/
theorem burst_spec (blocked : Nat → Bool) (t : ScriptTree) (k : Nat) : (t.burst blocked k).Spec blocked k t := by
  induction t generalizing k with
  | done => exact ⟨rfl, id, trivial⟩
  | input duration b l r rest ih =>
    simp only [burst]
    split
    next yields =>
      refine ⟨by simp, fun below slot => ?_, ?_, fun below slot room fits => ?_, ?_, ?_⟩
      · simp [flattenStack, flatten, yields, slot]
      · simp only [ScriptTree.weight, stackWeight, List.map_cons, List.map_nil, List.sum_cons,
          List.sum_nil]
        omega
      · rw [← slot] at room
        exact ⟨room, fits⟩
      · intro nested u member
        rw [List.mem_singleton.mp member]
        exact nested
      · exact fun _ => ⟨.inl yields, fun all => all rest (by simp)⟩
    next instant => exact (ih k).after instant
  | nested bind child rest ihChild ihRest =>
    simp only [burst]
    split
    next isBlocked =>
      refine ⟨by simp, fun below slot => ?_, ?_, fun below slot room fits => ?_, ?_, ?_⟩
      · simp [flattenStack, flatten, slot]
      · simp only [ScriptTree.weight, stackWeight, List.map_cons, List.map_nil, List.sum_cons,
          List.sum_nil]
        omega
      · simp only [depth] at room
        have length : (rest :: below).length = k + 1 := by simp [slot]
        refine ⟨?_, ?_, fits⟩
        · show (rest :: below).length + child.depth < MAX_MODULE_STACK_DEPTH
          omega
        · show below.length + rest.depth < MAX_MODULE_STACK_DEPTH
          omega
      · intro nested u member
        rcases List.mem_cons.mp member with same | same
        · rw [same]
          exact nested.2.1
        · rw [List.mem_singleton.mp same]
          exact nested.2.2
      · intro free
        rw [free] at isBlocked
        cases isBlocked
    next => exact (ihChild (k + 1)).beyond

/-- The scripts `stack` are what is left of the scripts `before` once `events` were seen. -/
structure Remains (blocked : Nat → Nat → Bool) (before : List ScriptTree) (events : List Event)
    (stack : List ScriptTree) : Prop where
  nonempty : stack ≠ []
  events : events ++ flattenStack stack = flattenStack before
  fits : Fits before → Fits stack
  nestedYield : (∀ u ∈ before, u.NestedYield) → ∀ u ∈ stack, u.NestedYield
  unblocked : (∀ k i, blocked k i = false) → (∀ u ∈ stack, u.NestedYield) →
    ∀ u ∈ before, u.NestedYield

variable {blocked : Nat → Nat → Bool}

theorem Remains.refl {stack : List ScriptTree} (nonempty : stack ≠ []) :
    Remains blocked stack [] stack :=
  ⟨nonempty, rfl, id, id, fun _ => id⟩

/-- What is true of each way the scripts `before` can end a turn. -/
def Turn.Spec (blocked : Nat → Nat → Bool) (before : List ScriptTree) : Turn → Prop
  | complete events => events = flattenStack before ∧ ∀ u ∈ before, u.NestedYield
  | waiting events stack ttl60 =>
    Remains blocked before events stack ∧ ttl60 + stackWeight stack < stackWeight before
  | aborted => ¬∀ u ∈ before, u.NestedYield

theorem stackWeight_cons (t : ScriptTree) (below : List ScriptTree) :
    stackWeight (t :: below) = t.weight + stackWeight below := by
  simp [stackWeight]

/-- The top script ended, and the turn goes on with the ones below. -/
theorem Turn.Spec.after {t : ScriptTree} {below : List ScriptTree} {turn : Turn}
    (spec : turn.Spec blocked below) (nested : t.NestedYield) :
    (turn.after (.execute below.length :: t.flatten below.length)).Spec blocked (t :: below) := by
  cases turn with
  | complete events =>
    refine ⟨?_, List.forall_mem_cons.mpr ⟨nested, spec.2⟩⟩
    simp only [flattenStack, spec.1, List.cons_append]
  | waiting events stack ttl60 =>
    obtain ⟨⟨nonempty, same, fits, keeps, free⟩, less⟩ := spec
    refine ⟨⟨nonempty, ?_, fun before => fits before.2,
      fun all => keeps (List.forall_mem_cons.mp all).2,
      fun unblocked all => List.forall_mem_cons.mpr ⟨nested, free unblocked all⟩⟩, ?_⟩
    · simp only [flattenStack, List.cons_append, List.append_assoc, same]
    · rw [stackWeight_cons]
      omega
  | aborted => exact fun all => spec (List.forall_mem_cons.mp all).2

theorem turn_spec (blocked : Nat → Nat → Bool) (stack : List ScriptTree) :
    (turn blocked stack).Spec blocked stack := by
  induction stack with
  | nil => exact ⟨rfl, nofun⟩
  | cons t below ih =>
    have spec := burst_spec (blocked below.length) t below.length
    simp only [turn]
    cases ends : t.burst (blocked below.length) below.length with
    | finished events =>
      rw [ends] at spec
      obtain ⟨rfl, -, nested⟩ := spec
      simp only
      split
      next stops =>
        have positive := t.weight_pos
        refine ⟨⟨stops.1, by simp [flattenStack], fun fits => fits.2,
          fun all => (List.forall_mem_cons.mp all).2,
          fun _ all => List.forall_mem_cons.mpr ⟨nested, all⟩⟩, ?_⟩
        rw [stackWeight_cons]
        omega
      next => exact ih.after nested
    | stopped events stack ttl60 =>
      rw [ends] at spec
      obtain ⟨nonempty, same, less, fits, keeps, free⟩ := spec
      refine ⟨⟨by simp [nonempty], ?_, fun before => fits below rfl before.1 before.2,
        fun all u member => ?_, fun unblocked all => ?_⟩, ?_⟩
      · simp only [flattenStack, List.cons_append, same below rfl]
      · obtain ⟨top, rest⟩ := List.forall_mem_cons.mp all
        rcases List.mem_append.mp member with inner | outer
        · exact keeps top u inner
        · exact rest u outer
      · refine List.forall_mem_cons.mpr ⟨(free (unblocked _)).2 fun u member => ?_, fun u member => ?_⟩
        · exact all u (List.mem_append_left _ member)
        · exact all u (List.mem_append_right _ member)
      · rw [stackWeight_append, stackWeight_cons]
        omega
    | aborted =>
      rw [ends] at spec
      exact fun all => spec (List.forall_mem_cons.mp all).1

/-- What is true of each way a frame can end: it never loses ground, and if it takes time
and the top is not blocked, it gains some. -/
def Turn.Progress (isBlocked : Bool) (spent60 : Nat) (blocked : Nat → Nat → Bool) (p : Playing) :
    Turn → Prop
  | complete events => events = flattenStack p.stack ∧ ∀ u ∈ p.stack, u.NestedYield
  | waiting events stack ttl60 =>
    Remains blocked p.stack events stack ∧
      ttl60 + stackWeight stack ≤ p.ttl60 + stackWeight p.stack ∧
      (isBlocked = false → 0 < spent60 →
        ttl60 + stackWeight stack < p.ttl60 + stackWeight p.stack)
  | aborted => ¬∀ u ∈ p.stack, u.NestedYield

theorem frame_progress (isBlocked : Bool) (spent60 : Nat) (blocked : Nat → Nat → Bool)
    (p : Playing) (nonempty : p.stack ≠ []) :
    (frame isBlocked spent60 blocked p).Progress isBlocked spent60 blocked p := by
  unfold frame
  split
  next stops =>
    refine ⟨.refl nonempty, Nat.le_refl _, fun free _ => ?_⟩
    rw [free] at stops
    exact absurd stops.2 (by decide)
  next =>
    split
    next waits => exact ⟨.refl nonempty, by omega, fun _ positive => by omega⟩
    next =>
      have spec := turn_spec blocked p.stack
      cases ends : turn blocked p.stack with
      | complete events =>
        rw [ends] at spec
        exact spec
      | waiting events stack ttl60 =>
        rw [ends] at spec
        exact ⟨spec.1, by have := spec.2; omega, fun _ _ => by have := spec.2; omega⟩
      | aborted =>
        rw [ends] at spec
        exact spec

end ScriptTree

end LotusKit.Schedule
