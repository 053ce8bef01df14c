import Mathlib.Data.List.Nodup
import Mathlib.Logic.Function.Basic

/-! What there is to a script that awaits a pause, apart from the time, the inputs and the
pauses themselves: the slots, who is being executed, and the awaits in force. What a look
at the top of the stack saw of the pauses enters as a predicate. -/

namespace LotusKit.Schedule

/-- A call of one of the four await binds: it waits for a pause request or a pause target,
by its hash, to be on or off. -/
structure Await where
  isTarget : Bool
  hash : Nat
  awaitPauseVal : Bool
  deriving DecidableEq, Repr

/-- The fields of a slot that belong to its awaits. -/
structure Awaits where
  isAwaitPauseRequestHash : Nat
  isAwaitPauseTargetHash : Nat
  awaitPauseVal : Bool
  deriving DecidableEq, Repr

/-- The slot waits for nothing. -/
def Awaits.Over (w : Awaits) : Prop := w.isAwaitPauseRequestHash = 0 ∧ w.isAwaitPauseTargetHash = 0

/-- The call sets one hash and leaves the other. -/
def Await.begin (await : Await) (w : Awaits) : Awaits :=
  if await.isTarget then
    { w with isAwaitPauseTargetHash := await.hash, awaitPauseVal := await.awaitPauseVal }
  else { w with isAwaitPauseRequestHash := await.hash, awaitPauseVal := await.awaitPauseVal }

/-- The slot waits for this and nothing else. -/
def Await.InForce (await : Await) (w : Awaits) : Prop :=
  w = await.begin ⟨0, 0, await.awaitPauseVal⟩

theorem Await.inForce_begin (await : Await) {w : Awaits} (beyond : w.Over) :
    await.InForce (await.begin w) := by
  obtain ⟨request, target, val⟩ := w
  obtain ⟨rfl, rfl⟩ := beyond
  cases await with
  | mk isTarget hash awaitPauseVal => cases isTarget <;> rfl

theorem Await.not_over (await : Await) (named : await.hash ≠ 0) {w : Awaits}
    (inForce : await.InForce w) : ¬w.Over := by
  rintro ⟨request, target⟩
  rw [inForce] at request target
  unfold Await.begin at request target
  split at request
  next isTarget =>
    rw [if_pos isTarget] at target
    exact named target
  next => exact named request

/-- A look leaves the awaits, but for those that were seen to be met. -/
structure Awaits.Clears (Sees : Await → Prop) (w w' : Awaits) : Prop where
  awaitPauseVal : w'.awaitPauseVal = w.awaitPauseVal
  request : w'.isAwaitPauseRequestHash = w.isAwaitPauseRequestHash ∨
    w'.isAwaitPauseRequestHash = 0 ∧ Sees ⟨false, w.isAwaitPauseRequestHash, w.awaitPauseVal⟩
  target : w'.isAwaitPauseTargetHash = w.isAwaitPauseTargetHash ∨
    w'.isAwaitPauseTargetHash = 0 ∧ Sees ⟨true, w.isAwaitPauseTargetHash, w.awaitPauseVal⟩

theorem Awaits.Clears.refl (Sees : Await → Prop) (w : Awaits) : w.Clears Sees w :=
  ⟨rfl, .inl rfl, .inl rfl⟩

theorem Awaits.Clears.trans {Sees : Await → Prop} {w w' w'' : Awaits} (first : w.Clears Sees w')
    (second : w'.Clears Sees w'') : w.Clears Sees w'' := by
  refine ⟨second.awaitPauseVal.trans first.awaitPauseVal, ?_, ?_⟩
  · rcases first.request with same | ⟨gone, seen⟩
    · rw [← same, ← first.awaitPauseVal]
      exact second.request
    · rcases second.request with same | ⟨still, -⟩
      · exact .inr ⟨same.trans gone, seen⟩
      · exact .inr ⟨still, seen⟩
  · rcases first.target with same | ⟨gone, seen⟩
    · rw [← same, ← first.awaitPauseVal]
      exact second.target
    · rcases second.target with same | ⟨still, -⟩
      · exact .inr ⟨same.trans gone, seen⟩
      · exact .inr ⟨still, seen⟩

/-- A look sets no hash. -/
theorem Awaits.Over.clears {Sees : Await → Prop} {w w' : Awaits} (beyond : w.Over) (clears : w.Clears Sees w') :
    w'.Over := by
  constructor
  · rcases clears.request with same | gone
    · rw [same]
      exact beyond.1
    · exact gone.1
  · rcases clears.target with same | gone
    · rw [same]
      exact beyond.2
    · exact gone.1

/-- An await in force stays in force until it is seen to be met. -/
theorem Await.inForce_clears {Sees : Await → Prop} {await : Await} {w w' : Awaits}
    (inForce : await.InForce w) (clears : w.Clears Sees w') : await.InForce w' ∨ Sees await := by
  obtain ⟨isTarget, hash, val⟩ := await
  obtain ⟨request, target, v⟩ := w'
  obtain ⟨same, seenRequest, seenTarget⟩ := clears
  rw [inForce] at same seenRequest seenTarget
  cases isTarget with
  | false =>
    simp only [Await.begin, Bool.false_eq_true, if_false] at same seenRequest seenTarget
    rcases seenRequest with rfl | ⟨-, seen⟩
    · have none_ : target = 0 := seenTarget.elim id And.left
      rw [same, none_]
      exact .inl rfl
    · exact .inr seen
  | true =>
    simp only [Await.begin, if_true] at same seenRequest seenTarget
    rcases seenTarget with rfl | ⟨-, seen⟩
    · have none_ : request = 0 := seenRequest.elim id And.left
      rw [same, none_]
      exact .inl rfl
    · exact .inr seen

/-- The stack of scripts, with who was executed so far. -/
structure Stage where
  moduleStackIndex : Nat
  isPlaybackBeginPending : Bool
  running : List Nat
  asModule : Nat → Option Nat
  /-- Which scripts were asked to suspend. -/
  doSuspend : Nat → Bool
  awaits : Nat → Awaits
  executed : List Nat

namespace Stage

/-- What a step of the scheduler does to the stack while no abort is requested. -/
inductive Moves (Sees : Await → Prop) (v : Stage) : Stage → Prop
  | stays : Moves Sees v v
  | looks (w : Awaits) : (v.awaits v.moduleStackIndex).Clears Sees w →
      Moves Sees v { v with awaits := Function.update v.awaits v.moduleStackIndex w }
  /-- The top is executed: it is waiting for nothing, or pending. -/
  | executes (w : Awaits) : v.asModule v.moduleStackIndex ≠ none → v.moduleStackIndex ∉ v.running →
      (v.awaits v.moduleStackIndex).Clears Sees w → (v.isPlaybackBeginPending = false → w.Over) →
      Moves Sees v
        { v with
          awaits := Function.update v.awaits v.moduleStackIndex w
          isPlaybackBeginPending := false
          running := v.moduleStackIndex :: v.running
          executed := v.executed ++ [v.moduleStackIndex] }
  | leaves {sp : Nat} {rest : List Nat} : v.running = sp :: rest → v.doSuspend sp = true →
      Moves Sees v { v with running := rest, doSuspend := Function.update v.doSuspend sp false }
  | finishes {rest : List Nat} : v.running = v.moduleStackIndex :: rest →
      v.doSuspend v.moduleStackIndex = false →
      Moves Sees v
        { v with
          running := rest
          doSuspend := Function.update v.doSuspend v.moduleStackIndex false
          asModule := Function.update v.asModule v.moduleStackIndex none
          moduleStackIndex := v.moduleStackIndex - 1 }
  | suspends {rest : List Nat} : v.running = v.moduleStackIndex :: rest →
      Moves Sees v { v with doSuspend := Function.update v.doSuspend v.moduleStackIndex true }
  | begins {rest : List Nat} (await : Await) : v.running = v.moduleStackIndex :: rest →
      v.doSuspend v.moduleStackIndex = false →
      Moves Sees v
        { v with
          awaits := Function.update v.awaits v.moduleStackIndex
            (await.begin (v.awaits v.moduleStackIndex))
          doSuspend := Function.update v.doSuspend v.moduleStackIndex true }
  /-- Whoever pushes stops. -/
  | pushes {sp m : Nat} {doSuspend : Nat → Bool} {pending : Bool} {w : Awaits} :
      sp = v.moduleStackIndex ∧ v.asModule v.moduleStackIndex = none ∨ sp = v.moduleStackIndex + 1 →
      sp ∉ v.running → (∀ i ∈ v.running, doSuspend i = true) → w.Over →
      Moves Sees v
        { v with
          moduleStackIndex := sp
          asModule := Function.update v.asModule sp (some m)
          awaits := Function.update v.awaits sp w
          doSuspend := doSuspend
          isPlaybackBeginPending := pending }

/-- What holds of the stack whatever the scripts await. -/
structure Orderly (v : Stage) : Prop where
  nodup : v.running.Nodup
  asModule : ∀ i ∈ v.running, v.asModule i ≠ none
  /-- A script that goes on has nothing to wait for. -/
  beyond : ∀ i ∈ v.running, v.doSuspend i = false → (v.awaits i).Over
  pending : v.isPlaybackBeginPending = true →
    (∀ i ∈ v.running, v.doSuspend i = true) ∧
    (v.asModule v.moduleStackIndex ≠ none → (v.awaits v.moduleStackIndex).Over)

/-- The script in slot `k` awaits, and is not executed for now. -/
structure Held (v : Stage) (k : Nat) (await : Await) : Prop where
  under : k ≤ v.moduleStackIndex
  asModule : v.asModule k ≠ none
  inForce : await.InForce (v.awaits k)
  stopping : k ∈ v.running → v.doSuspend k = true
  top : v.moduleStackIndex = k → v.isPlaybackBeginPending = false

variable {Sees : Await → Prop} {v w : Stage}

/-- Of a script that was not asked to suspend, nothing above it is pending. -/
theorem Orderly.not_pending (orderly : v.Orderly) {i : Nat} (member : i ∈ v.running)
    (goes : v.doSuspend i = false) : v.isPlaybackBeginPending = false := by
  by_contra pending
  have asked := (orderly.pending (by simpa using pending)).1 i member
  exact absurd (asked.symm.trans goes) (by decide)

theorem Orderly.of_empty (empty : v.running = []) (bottom : v.asModule v.moduleStackIndex = none) :
    v.Orderly := by
  refine ⟨?_, ?_, ?_, fun _ => ⟨?_, fun taken => absurd bottom taken⟩⟩
  · rw [empty]
    exact List.nodup_nil
  all_goals
    rw [empty]
    exact fun i member => absurd member List.not_mem_nil

theorem Orderly.moves (orderly : v.Orderly) (moves : Moves Sees v w) : w.Orderly := by
  cases moves with
  | stays => exact orderly
  | looks awaits clears =>
    refine ⟨orderly.nodup, orderly.asModule, fun i member goes => ?_, fun pending => ?_⟩
    · have beyond := orderly.beyond i member goes
      by_cases top : i = v.moduleStackIndex
      · subst top
        simpa using beyond.clears clears
      · simpa [top] using beyond
    · obtain ⟨asked, fresh⟩ := orderly.pending pending
      exact ⟨asked, fun taken => by simpa using (fresh taken).clears clears⟩
  | executes awaits taken idle clears waited =>
    refine ⟨List.nodup_cons.mpr ⟨idle, orderly.nodup⟩, fun i member => ?_, fun i member goes => ?_,
      nofun⟩
    · rcases List.mem_cons.mp member with top | before
      · rw [top]
        exact taken
      · exact orderly.asModule i before
    · rcases List.mem_cons.mp member with top | before
      · subst top
        have beyond : awaits.Over := by
          cases pending : v.isPlaybackBeginPending with
          | false => exact waited pending
          | true => exact ((orderly.pending pending).2 taken).clears clears
        simpa using beyond
      · have different : i ≠ v.moduleStackIndex := fun same => idle (same ▸ before)
        simpa [different] using orderly.beyond i before goes
  | @leaves sp rest running asked =>
    have nodup := orderly.nodup
    rw [running] at nodup
    have fresh := (List.nodup_cons.mp nodup).1
    have member {i : Nat} (inside : i ∈ rest) : i ∈ v.running := running ▸ List.mem_cons_of_mem sp inside
    have different {i : Nat} (inside : i ∈ rest) : i ≠ sp := fun same => fresh (same ▸ inside)
    refine ⟨(List.nodup_cons.mp nodup).2, fun i inside => orderly.asModule i (member inside),
      fun i inside goes => ?_, fun pending => ⟨fun i inside => ?_, (orderly.pending pending).2⟩⟩
    · exact orderly.beyond i (member inside) (by simpa [different inside] using goes)
    · simpa [different inside] using (orderly.pending pending).1 i (member inside)
  | @finishes rest running goes =>
    have nodup := orderly.nodup
    rw [running] at nodup
    have fresh := (List.nodup_cons.mp nodup).1
    have member {i : Nat} (inside : i ∈ rest) : i ∈ v.running := running ▸ List.mem_cons_of_mem _ inside
    have different {i : Nat} (inside : i ∈ rest) : i ≠ v.moduleStackIndex :=
      fun same => fresh (same ▸ inside)
    have quiet := orderly.not_pending (running ▸ List.mem_cons_self) goes
    refine ⟨(List.nodup_cons.mp nodup).2, fun i inside => ?_, fun i inside goes => ?_,
      fun pending => absurd (pending.symm.trans quiet) (by decide)⟩
    · simpa [different inside] using orderly.asModule i (member inside)
    · exact orderly.beyond i (member inside) (by simpa [different inside] using goes)
  | @suspends rest running =>
    refine ⟨orderly.nodup, orderly.asModule, fun i member goes => ?_,
      fun pending => ⟨fun i member => ?_, (orderly.pending pending).2⟩⟩
    · by_cases top : i = v.moduleStackIndex
      · simp [top] at goes
      · exact orderly.beyond i member (by simpa [top] using goes)
    · by_cases top : i = v.moduleStackIndex
      · simp [top]
      · simpa [top] using (orderly.pending pending).1 i member
  | @begins rest await running goes =>
    have quiet := orderly.not_pending (running ▸ List.mem_cons_self) goes
    refine ⟨orderly.nodup, orderly.asModule, fun i member goes => ?_,
      fun pending => absurd (pending.symm.trans quiet) (by decide)⟩
    by_cases top : i = v.moduleStackIndex
    · simp [top] at goes
    · simpa [top] using orderly.beyond i member (by simpa [top] using goes)
  | @pushes sp m doSuspend pending awaits place apart asked beyond =>
    have different {i : Nat} (member : i ∈ v.running) : i ≠ sp := fun same => apart (same ▸ member)
    refine ⟨orderly.nodup, fun i member => ?_, fun i member goes => ?_,
      fun _ => ⟨asked, fun _ => by simpa using beyond⟩⟩
    · simpa [different member] using orderly.asModule i member
    · exact absurd ((asked i member).symm.trans goes) (by decide)

/-- The slot keeps waiting, and the step executes another slot or none. -/
theorem Held.moves {k : Nat} {await : Await} (named : await.hash ≠ 0) (orderly : v.Orderly)
    (held : v.Held k await) (moves : Moves Sees v w) :
    (w.Held k await ∧ w.executed ≠ v.executed ++ [k]) ∨ (v.moduleStackIndex = k ∧ Sees await) := by
  obtain ⟨under, taken, inForce, stopping, top⟩ := held
  -- the innermost script goes on, so it is another one
  have above {rest : List Nat} (running : v.running = v.moduleStackIndex :: rest)
      (goes : v.doSuspend v.moduleStackIndex = false) : k ≠ v.moduleStackIndex := by
    intro same
    have asked := stopping (by rw [running, same]; exact List.mem_cons_self)
    rw [same, goes] at asked
    cases asked
  cases moves with
  | stays => exact .inl ⟨⟨under, taken, inForce, stopping, top⟩, by simp⟩
  | looks awaits clears =>
    by_cases same : v.moduleStackIndex = k
    · subst same
      rcases await.inForce_clears inForce clears with still | seen
      · exact .inl ⟨⟨under, taken, by simpa using still, stopping, top⟩, by simp⟩
      · exact .inr ⟨rfl, seen⟩
    · have different : k ≠ v.moduleStackIndex := Ne.symm same
      exact .inl ⟨⟨under, taken, by simpa [different] using inForce, stopping, top⟩, by simp⟩
  | executes awaits taken' idle clears waited =>
    by_cases same : v.moduleStackIndex = k
    · subst same
      rcases await.inForce_clears inForce clears with still | seen
      · exact absurd (waited (top rfl)) (await.not_over named still)
      · exact .inr ⟨rfl, seen⟩
    · have different : k ≠ v.moduleStackIndex := Ne.symm same
      refine .inl ⟨⟨under, taken, by simpa [different] using inForce, fun member => ?_,
        fun _ => rfl⟩, by simpa using same⟩
      exact stopping ((List.mem_cons.mp member).resolve_left different)
  | @leaves sp rest running asked =>
    refine .inl ⟨⟨under, taken, inForce, fun member => ?_, top⟩, by simp⟩
    have nodup := orderly.nodup
    rw [running] at nodup
    have different : k ≠ sp := fun same => (List.nodup_cons.mp nodup).1 (same ▸ member)
    simpa [different] using stopping (running ▸ List.mem_cons_of_mem sp member)
  | @finishes rest running goes =>
    have different := above running goes
    have quiet := orderly.not_pending (running ▸ List.mem_cons_self) goes
    refine .inl ⟨⟨show k ≤ v.moduleStackIndex - 1 by omega, by simpa [different] using taken, inForce,
      fun member => ?_, fun _ => quiet⟩, by simp⟩
    simpa [different] using stopping (running ▸ List.mem_cons_of_mem _ member)
  | @suspends rest running =>
    refine .inl ⟨⟨under, taken, inForce, fun member => ?_, top⟩, by simp⟩
    by_cases same : k = v.moduleStackIndex
    · simp [same]
    · simpa [same] using stopping member
  | @begins rest await' running goes =>
    have different := above running goes
    exact .inl ⟨⟨under, taken, by simpa [different] using inForce,
      fun member => by simpa [different] using stopping member, top⟩, by simp⟩
  | @pushes sp m doSuspend pending awaits place apart asked beyond =>
    have over_ : k < sp := by
      rcases place with ⟨same, empty⟩ | next
      · have different : k ≠ v.moduleStackIndex := fun is => taken (is ▸ empty)
        omega
      · omega
    have different : k ≠ sp := by omega
    exact .inl ⟨⟨show k ≤ sp by omega, by simpa [different] using taken,
      by simpa [different] using inForce, fun member => asked k member,
      fun same => absurd same.symm different⟩, by simp⟩

end Stage

end LotusKit.Schedule
