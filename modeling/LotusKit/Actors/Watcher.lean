import LotusKit.Lib.Stages
import Mathlib.Data.List.FinRange
import Mathlib.Data.List.Perm.Basic
import Mathlib.Logic.Function.Basic

/-! How watched actors are selected. Slots wait for a spawn by its name, for a spawn by its place in the
map or for a recall, and those that have been given a PreActor wait for its actor. -/

namespace LotusKit.Actors
open LotusKit.Lib.Stages

/-- A pointer that is not null. -/
abbrev Ptr := Nat

/-- The state of a slot, without the options of what is shown. -/
structure ActorWatcherEntry where
  isCalc : Bool
  isPendingSelection : Bool
  /-- 0: unused, 1: next spawn, 3: PreActor, 4: recall, 6: entity of the map -/
  selectionType : Nat
  selectionStr : List Char
  selectionVal64 : BitVec 64
  actor : Option Ptr
  preactor : Option Ptr

def MAX_WATCHER_SLOTS : Nat := 4

abbrev Slots := Fin MAX_WATCHER_SLOTS → ActorWatcherEntry

namespace ActorWatcherEntry

/-- What `clear` leaves. -/
def cleared : ActorWatcherEntry := ⟨false, false, 0, [], 0, none, none⟩

/-- The slot after `assignSlot`. -/
def assigned (actor : Option Ptr) : ActorWatcherEntry := { cleared with isCalc := true, actor := actor }

/-- The slot after `assignSlotPreActor`. -/
def assignedPreActor (preactor : Ptr) : ActorWatcherEntry :=
  { cleared with isCalc := true, preactor := some preactor, selectionType := 3, isPendingSelection := true }

/-- The slot after `assignSlotAwaitSpawn`. -/
def awaitSpawn (actorName : List Char) : ActorWatcherEntry :=
  { cleared with isCalc := true, selectionStr := actorName, selectionType := 1, isPendingSelection := true }

variable (slot : ActorWatcherEntry)

def awaits (selectionType : Nat) : Bool :=
  slot.isCalc && slot.isPendingSelection && slot.selectionType = selectionType

/-- The test of `querySpawnSelectorSlot`. -/
def selectsName (actorName : List Char) : Bool :=
  slot.awaits 1 && (slot.selectionStr.length = 0 || slot.selectionStr = actorName)

/-- The test of `querySpawnBancHashSlot`. -/
def selectsHash (bancHash : BitVec 64) : Bool := slot.awaits 6 && slot.selectionVal64 = bancHash

/-- The body of the loop of `calc`, as far as it changes the slot; `mActor` says which actor a PreActor
has become. -/
def calc_ (mActor : Ptr → Option Ptr) : ActorWatcherEntry :=
  if slot.awaits 3 then
    match slot.preactor.bind mActor with
    | some actor => { slot with actor := some actor, isPendingSelection := false }
    | none => slot
  else slot

end ActorWatcherEntry

/-- A call of `requestCreateActorAsync`. -/
structure Spawn where
  actorName : Option (List Char)
  /-- what is passed in, with its `mInstanceId` -/
  preActor : Option (Ptr × BitVec 64)
  /-- what the call leaves at `destPreActor` -/
  created : Option Ptr

inductive GameEvent where
  | requestCreateActorAsync (spawn : Spawn)
  | recallHighlight (actor : Option Ptr)
  | calc_ (mActor : Ptr → Option Ptr)

namespace Slots
variable (s : Slots)

def assignSlot (i : Fin MAX_WATCHER_SLOTS) (actor : Option Ptr) : Slots :=
  Function.update s i (.assigned actor)

def assignSlotPreActor (i : Fin MAX_WATCHER_SLOTS) (preactor : Ptr) : Slots :=
  Function.update s i (.assignedPreActor preactor)

def assignSlotAwaitSpawn (i : Fin MAX_WATCHER_SLOTS) (actorName : List Char) : Slots :=
  Function.update s i (.awaitSpawn actorName)

def querySpawnSelectorSlot (actorName : List Char) : Option (Fin MAX_WATCHER_SLOTS) :=
  (List.finRange MAX_WATCHER_SLOTS).find? fun i => (s i).selectsName actorName

def querySpawnBancHashSlot (bancHash : BitVec 64) : Option (Fin MAX_WATCHER_SLOTS) :=
  (List.finRange MAX_WATCHER_SLOTS).find? fun i => (s i).selectsHash bancHash

def resolveRecallHighlight (actor : Option Ptr) : Slots :=
  match (List.finRange MAX_WATCHER_SLOTS).find? fun i => (s i).awaits 4 with
  | none => s
  | some i => s.assignSlot i actor

/-- The part of the hook behind `querySpawnSelectorSlot` where no slot is found. -/
def bancEntity (preActor : Option (Ptr × BitVec 64)) : Slots :=
  match preActor with
  | none => s
  | some (preActor, mInstanceId) =>
    if mInstanceId ≠ 0 then
      match s.querySpawnBancHashSlot mInstanceId with
      | none => s
      | some i => s.assignSlotPreActor i preActor
    else s

/-- `OnRequestCreateActorAsyncHook`, as one step: no other actor is asked for inside `Orig`. -/
def requestCreateActorAsync (spawn : Spawn) : Slots :=
  match spawn.actorName with
  | none => s
  | some actorName =>
    match s.querySpawnSelectorSlot actorName with
    | none => s.bancEntity spawn.preActor
    | some i =>
      match spawn.created with
      | none => s
      | some pa => s.assignSlotPreActor i pa

def handle : GameEvent → Slots
  | .requestCreateActorAsync spawn => s.requestCreateActorAsync spawn
  | .recallHighlight actor => s.resolveRecallHighlight actor
  | .calc_ mActor => fun i => (s i).calc_ mActor

end Slots

namespace ActorWatcherEntry
variable (slot : ActorWatcherEntry)

/-- Whether the slot is the one that an event is for, when it gets to it. -/
def takes : GameEvent → Bool
  | .requestCreateActorAsync spawn =>
    spawn.actorName.any fun actorName =>
      slot.selectsName actorName ||
        spawn.preActor.any fun preActor => preActor.2 ≠ 0 && slot.selectsHash preActor.2
  | .recallHighlight _ => slot.awaits 4
  | .calc_ _ => false

def fill : GameEvent → ActorWatcherEntry
  | .requestCreateActorAsync spawn =>
    (if slot.awaits 1 then spawn.created else spawn.preActor.map Prod.fst).elim slot assignedPreActor
  | .recallHighlight actor => assigned actor
  | .calc_ _ => slot

/-- What one slot does with an event: it takes it, or passes it on. -/
def step (event : GameEvent) : ActorWatcherEntry × Option GameEvent :=
  match event with
  | .calc_ mActor => (slot.calc_ mActor, some event)
  | _ => if slot.takes event then (slot.fill event, none) else (slot, some event)

theorem step_spawn (spawn : Spawn) :
    slot.step (.requestCreateActorAsync spawn) =
      if slot.takes (.requestCreateActorAsync spawn) then (slot.fill (.requestCreateActorAsync spawn), none)
      else (slot, some (.requestCreateActorAsync spawn)) :=
  rfl

theorem step_recall (actor : Option Ptr) :
    slot.step (.recallHighlight actor) =
      if slot.takes (.recallHighlight actor) then (slot.fill (.recallHighlight actor), none)
      else (slot, some (.recallHighlight actor)) :=
  rfl

theorem step_calc (mActor : Ptr → Option Ptr) :
    slot.step (.calc_ mActor) = (slot.calc_ mActor, some (.calc_ mActor)) :=
  rfl

/-- A slot that waits for a name comes to wait for an actor only; others never wait for a name. -/
structure Kept (first slot : ActorWatcherEntry) : Prop where
  named : first.awaits 1 = true → slot.selectionType = 1 ∨ slot.selectionType = 3
  unnamed : first.awaits 1 = false → slot.awaits 1 = false

theorem awaits_type {n : Nat} (waits : slot.awaits n = true) : slot.selectionType = n := by
  rw [awaits, Bool.and_eq_true, decide_eq_true_eq] at waits
  exact waits.2

theorem awaits_other {n : Nat} (type : slot.selectionType ≠ n) : slot.awaits n = false :=
  Bool.eq_false_of_not_eq_true fun waits => type (slot.awaits_type waits)

theorem kept_refl : Kept slot slot where
  named waits := .inl (slot.awaits_type waits)
  unnamed rests := rests

theorem calc_selectionType (mActor : Ptr → Option Ptr) : (slot.calc_ mActor).selectionType = slot.selectionType := by
  rw [calc_]
  split
  · split
    all_goals rfl
  · rfl

theorem calc_unnamed (mActor : Ptr → Option Ptr) (rests : slot.awaits 1 = false) :
    (slot.calc_ mActor).awaits 1 = false := by
  rw [calc_]
  split
  case isTrue waits =>
    split
    · exact awaits_other _ (by rw [slot.awaits_type waits]; decide)
    · exact rests
  case isFalse => exact rests

variable {slot} {first : ActorWatcherEntry}

theorem Kept.awaits_other {n : Nat} (kept : Kept first slot) (waited : first.awaits 1 = true)
    (name : n ≠ 1) (preActor : n ≠ 3) : slot.awaits n = false := by
  rcases kept.named waited with type | type
  all_goals exact slot.awaits_other (by omega)

theorem Kept.fill {event : GameEvent} (kept : Kept first slot) (taken : slot.takes event = true) :
    Kept first (slot.fill event) := by
  cases event with
  | requestCreateActorAsync spawn =>
    rw [ActorWatcherEntry.fill]
    cases (if slot.awaits 1 then spawn.created else spawn.preActor.map Prod.fst) with
    | none => exact kept
    | some preActor => exact ⟨fun _ => .inr rfl, fun _ => rfl⟩
  | recallHighlight actor =>
    refine ⟨fun waited => ?_, fun _ => rfl⟩
    have rests : slot.awaits 4 = false := kept.awaits_other waited (by decide) (by decide)
    exact absurd (rests.symm.trans taken) Bool.false_ne_true
  | calc_ mActor => exact kept

theorem Kept.calc_ (kept : Kept first slot) (mActor : Ptr → Option Ptr) : Kept first (slot.calc_ mActor) where
  named waited := by
    rw [calc_selectionType]
    exact kept.named waited
  unnamed rests := slot.calc_unnamed mActor (kept.unnamed rests)

/-- The PreActor that a slot waiting for a name gets by an event. -/
def gets (slot : ActorWatcherEntry) : GameEvent → Option Ptr
  | .requestCreateActorAsync spawn => if spawn.actorName.any slot.selectsName then spawn.created else none
  | _ => none

theorem takes_of_type {event : GameEvent} (type : slot.selectionType = 3) : slot.takes event = false := by
  have rests (n : Nat) (apart : n ≠ 3) : slot.awaits n = false := slot.awaits_other (by omega)
  cases event with
  | requestCreateActorAsync spawn =>
    simp [takes, selectsName, selectsHash, rests 1 (by decide), rests 6 (by decide)]
  | recallHighlight actor => exact rests 4 (by decide)
  | calc_ mActor => rfl

theorem calc_preactor (mActor : Ptr → Option Ptr) : (slot.calc_ mActor).preactor = slot.preactor := by
  rw [calc_]
  split
  · split
    all_goals rfl
  · rfl

theorem step_of_type (type : slot.selectionType = 3) (event : GameEvent) :
    (slot.step event).1.selectionType = 3 ∧ (slot.step event).1.preactor = slot.preactor := by
  cases event with
  | requestCreateActorAsync spawn =>
    rw [step_spawn, takes_of_type type, if_neg Bool.false_ne_true]
    exact ⟨type, rfl⟩
  | recallHighlight actor =>
    rw [step_recall, takes_of_type type, if_neg Bool.false_ne_true]
    exact ⟨type, rfl⟩
  | calc_ mActor => exact ⟨(slot.calc_selectionType mActor).trans type, calc_preactor mActor⟩

/-- A slot that has been given a PreActor keeps it. -/
theorem through_of_type (type : slot.selectionType = 3) (events : List GameEvent) :
    (through step slot events).1.preactor = slot.preactor := by
  induction events generalizing slot with
  | nil => rfl
  | cons event events ih =>
    obtain ⟨next, same⟩ := step_of_type type event
    rw [through, ih next, same]

theorem step_of_gets {event : GameEvent} (waits : slot.awaits 1 = true) :
    (slot.step event).1 = (slot.gets event).elim slot assignedPreActor := by
  have other (n : Nat) (apart : n ≠ 1) : slot.awaits n = false :=
    slot.awaits_other (by rw [slot.awaits_type waits]; omega)
  cases event with
  | requestCreateActorAsync spawn =>
    have taken : slot.takes (.requestCreateActorAsync spawn) = spawn.actorName.any slot.selectsName := by
      simp [takes, selectsHash, other 6 (by decide)]
    rw [step_spawn, taken, gets]
    split
    · rw [fill, if_pos waits]
    · rfl
  | recallHighlight actor =>
    rw [step_recall, takes, other 4 (by decide), if_neg Bool.false_ne_true]
    rfl
  | calc_ mActor =>
    rw [step_calc, calc_, other 3 (by decide), if_neg Bool.false_ne_true]
    rfl

theorem through_named (waits : slot.awaits 1 = true) (events : List GameEvent) :
    (through step slot events).1.preactor = (events.findSome? slot.gets).or slot.preactor := by
  induction events with
  | nil => rfl
  | cons event events ih =>
    rw [through, List.findSome?_cons, step_of_gets waits]
    cases slot.gets event with
    | none => exact ih
    | some preActor => exact through_of_type rfl events

/-- Among the slots that wait for a name at first, a spawn goes by its name. -/
theorem Kept.takes_named {spawn : Spawn} {actorName : List Char} (kept : Kept first slot)
    (named : spawn.actorName = some actorName) :
    (first.awaits 1 && slot.takes (.requestCreateActorAsync spawn)) = slot.selectsName actorName := by
  rw [takes, named, Option.any_some]
  cases waited : first.awaits 1 with
  | true =>
    have rests : slot.awaits 6 = false := kept.awaits_other waited (by decide) (by decide)
    simp [selectsHash, rests]
  | false => simp [selectsName, kept.unnamed waited]

/-- Among the others it goes by its place in the map. -/
theorem Kept.takes_unnamed {spawn : Spawn} {actorName : List Char} (kept : Kept first slot)
    (named : spawn.actorName = some actorName) :
    (!first.awaits 1 && slot.takes (.requestCreateActorAsync spawn)) =
      spawn.preActor.any fun preActor => preActor.2 ≠ 0 && slot.selectsHash preActor.2 := by
  rw [takes, named, Option.any_some]
  cases waited : first.awaits 1 with
  | true =>
    have rests : slot.awaits 6 = false := kept.awaits_other waited (by decide) (by decide)
    simp [selectsHash, rests]
  | false => simp [selectsName, kept.unnamed waited]

theorem Kept.takes_recall {actor : Option Ptr} (kept : Kept first slot) :
    (first.awaits 1 && slot.takes (.recallHighlight actor)) = false ∧
      (!first.awaits 1 && slot.takes (.recallHighlight actor)) = slot.awaits 4 := by
  rw [takes]
  cases waited : first.awaits 1 with
  | true =>
    have rests : slot.awaits 4 = false := kept.awaits_other waited (by decide) (by decide)
    simp [rests]
  | false => simp

end ActorWatcherEntry

namespace Slots

/-- The slots in the order in which they are asked: those that wait for a name come first. -/
def order (first : Slots) : List (Fin MAX_WATCHER_SLOTS) :=
  (List.finRange MAX_WATCHER_SLOTS).filter (fun i => (first i).awaits 1) ++
    (List.finRange MAX_WATCHER_SLOTS).filter fun i => !(first i).awaits 1

theorem order_perm (first : Slots) : first.order.Perm (List.finRange MAX_WATCHER_SLOTS) :=
  List.filter_append_perm _ _

theorem order_nodup (first : Slots) : first.order.Nodup :=
  first.order_perm.nodup_iff.mpr (List.nodup_finRange _)

theorem find_order (first : Slots) (found : Fin MAX_WATCHER_SLOTS → Bool) :
    first.order.find? found =
      ((List.finRange MAX_WATCHER_SLOTS).find? fun i => (first i).awaits 1 && found i).or
        ((List.finRange MAX_WATCHER_SLOTS).find? fun i => !(first i).awaits 1 && found i) := by
  rw [order, List.find?_append, List.find?_filter, List.find?_filter]
  simp only [Bool.decide_and, Bool.decide_eq_true]

variable {first s : Slots}

theorem find_idle {order : List (Fin MAX_WATCHER_SLOTS)} {found : Fin MAX_WATCHER_SLOTS → Bool}
    (idle : ∀ i, found i = false) : order.find? found = none :=
  List.find?_eq_none.mpr fun i _ => Bool.eq_false_iff.mp (idle i)

theorem bancEntity_find (s : Slots) (spawn : Spawn) :
    s.bancEntity spawn.preActor =
      ((List.finRange MAX_WATCHER_SLOTS).find? fun i =>
        spawn.preActor.any fun preActor => preActor.2 ≠ 0 && (s i).selectsHash preActor.2).elim s
          fun i => Function.update s i ((s i).fill (.requestCreateActorAsync spawn)) := by
  cases passed : spawn.preActor with
  | none =>
    rw [find_idle fun _ => Option.any_none, Option.elim_none]
    rfl
  | some preActor =>
    obtain ⟨preActor, mInstanceId⟩ := preActor
    simp only [Option.any_some]
    by_cases instanced : mInstanceId ≠ 0
    case neg =>
      simp only [decide_eq_false instanced, Bool.false_and]
      rw [find_idle fun _ => rfl, Option.elim_none]
      exact if_neg instanced
    case pos =>
      simp only [decide_eq_true instanced, Bool.true_and]
      rw [← querySpawnBancHashSlot, bancEntity, if_pos instanced]
      cases found : s.querySpawnBancHashSlot mInstanceId with
      | none => rfl
      | some i =>
        have waits : (s i).awaits 6 = true := by
          have selects := List.find?_some found
          rw [ActorWatcherEntry.selectsHash, Bool.and_eq_true] at selects
          exact selects.1
        have rests : (s i).awaits 1 = false := ActorWatcherEntry.awaits_other _ (by
          rw [ActorWatcherEntry.awaits_type _ waits]
          decide)
        rw [Option.elim_some, ActorWatcherEntry.fill, rests, passed]
        rfl

/-- The slot that gets an event is the first one in that order that takes it. -/
theorem spawn_find (kept : ∀ i, (first i).Kept (s i)) (spawn : Spawn) :
    s.requestCreateActorAsync spawn =
      (first.order.find? fun i => (s i).takes (.requestCreateActorAsync spawn)).elim s
        fun i => Function.update s i ((s i).fill (.requestCreateActorAsync spawn)) := by
  rw [requestCreateActorAsync]
  cases named : spawn.actorName with
  | none =>
    have idle (i) : (s i).takes (.requestCreateActorAsync spawn) = false := by
      rw [ActorWatcherEntry.takes, named, Option.any_none]
    rw [find_idle idle, Option.elim_none]
  | some actorName =>
    rw [find_order]
    simp only [(kept _).takes_named named, (kept _).takes_unnamed named]
    rw [← querySpawnSelectorSlot]
    cases found : s.querySpawnSelectorSlot actorName with
    | some i =>
      have waits : (s i).awaits 1 = true := by
        have selects := List.find?_some found
        rw [ActorWatcherEntry.selectsName, Bool.and_eq_true] at selects
        exact selects.1
      rw [Option.some_or, Option.elim_some, ActorWatcherEntry.fill, if_pos waits]
      cases spawn.created with
      | none => exact (Function.update_eq_self i s).symm
      | some pa => rfl
    | none =>
      rw [Option.none_or]
      exact s.bancEntity_find spawn

theorem recall_find (kept : ∀ i, (first i).Kept (s i)) (actor : Option Ptr) :
    s.resolveRecallHighlight actor =
      (first.order.find? fun i => (s i).takes (.recallHighlight actor)).elim s
        fun i => Function.update s i ((s i).fill (.recallHighlight actor)) := by
  rw [find_order, resolveRecallHighlight]
  simp only [(kept _).takes_recall.1, (kept _).takes_recall.2]
  rw [find_idle fun _ => rfl, Option.none_or]
  split
  case h_1 found => rw [found, Option.elim_none]
  case h_2 i found =>
    rw [found, Option.elim_some]
    rfl

/-- An event for the slots is that event for one after the other. -/
theorem handle_offer (kept : ∀ i, (first i).Kept (s i)) (event : GameEvent) :
    first.order.map (s.handle event) = (offer ActorWatcherEntry.step (first.order.map s) event).1 := by
  cases event with
  | requestCreateActorAsync spawn =>
    rw [offer_find _ (fun slot => slot.step_spawn spawn) first.order_nodup s, handle, spawn_find kept]
  | recallHighlight actor =>
    rw [offer_find _ (fun slot => slot.step_recall actor) first.order_nodup s, handle, recall_find kept]
  | calc_ mActor =>
    rw [offer_passed _ (fun slot => slot.step_calc mActor), List.map_map]
    rfl

theorem kept_fill (kept : ∀ i, (first i).Kept (s i)) (event : GameEvent) (i : Fin MAX_WATCHER_SLOTS) :
    (first i).Kept ((first.order.find? fun i => (s i).takes event).elim s
      (fun i => Function.update s i ((s i).fill event)) i) := by
  cases found : first.order.find? fun i => (s i).takes event with
  | none => exact kept i
  | some j =>
    rw [Option.elim_some]
    by_cases same : i = j
    · subst same
      rw [Function.update_self]
      have taken : (s i).takes event = true := List.find?_some (p := fun i => (s i).takes event) found
      exact (kept i).fill taken
    · rw [Function.update_of_ne same]
      exact kept i

theorem handle_kept (kept : ∀ i, (first i).Kept (s i)) (event : GameEvent) (i : Fin MAX_WATCHER_SLOTS) :
    (first i).Kept (s.handle event i) := by
  cases event with
  | requestCreateActorAsync spawn =>
    rw [handle, spawn_find kept]
    exact kept_fill kept _ i
  | recallHighlight actor =>
    rw [handle, recall_find kept]
    exact kept_fill kept _ i
  | calc_ mActor => exact (kept i).calc_ mActor

theorem foldl_offer_handle (kept : ∀ i, (first i).Kept (s i)) (events : List GameEvent) :
    first.order.map (events.foldl handle s) =
      events.foldl (fun slots event => (offer ActorWatcherEntry.step slots event).1) (first.order.map s) := by
  induction events generalizing s with
  | nil => rfl
  | cons event events ih =>
    calc first.order.map ((event :: events).foldl handle s)
        = first.order.map (events.foldl handle (s.handle event)) := rfl
      _ = events.foldl (fun slots event => (offer ActorWatcherEntry.step slots event).1)
            (first.order.map (s.handle event)) := ih (handle_kept kept event)
      _ = events.foldl (fun slots event => (offer ActorWatcherEntry.step slots event).1)
            (offer ActorWatcherEntry.step (first.order.map s) event).1 := by rw [handle_offer kept]

theorem order_run (s : Slots) (events : List GameEvent) :
    s.order.map (events.foldl handle s) = (stagewise ActorWatcherEntry.step (s.order.map s) events).1 := by
  rw [foldl_offer_handle fun i => (s i).kept_refl, foldl_offer]

/-- Between two calls of a script, slots behave as if each of them had seen, from the start to the end,
what the slots asked before it had left. -/
theorem watchers_share (s : Slots) (events : List GameEvent) :
    s.order.Perm (List.finRange MAX_WATCHER_SLOTS) ∧
      s.order.map (events.foldl handle s) = (stagewise ActorWatcherEntry.step (s.order.map s) events).1 :=
  ⟨s.order_perm, s.order_run events⟩

/-- The events that the slots before slot `i` leave to it. -/
def left (s : Slots) (i : Fin MAX_WATCHER_SLOTS) (events : List GameEvent) : List GameEvent :=
  (stagewise ActorWatcherEntry.step ((s.order.takeWhile (· ≠ i)).map s) events).2

theorem foldl_handle_at (s : Slots) (events : List GameEvent) (i : Fin MAX_WATCHER_SLOTS) :
    events.foldl handle s i = (through ActorWatcherEntry.step (s i) (s.left i events)).1 := by
  have here : i ∈ s.order := s.order_perm.mem_iff.mpr (List.mem_finRange i)
  obtain ⟨front, back, split_order, fresh⟩ := List.eq_append_cons_of_mem here
  have earlier : s.order.takeWhile (· ≠ i) = front := by
    have others : ∀ j ∈ front, decide (j ≠ i) = true := fun j mem =>
      decide_eq_true fun same => fresh (same ▸ mem)
    rw [split_order, List.takeWhile_append_of_pos others, List.takeWhile_cons_of_neg (by simp), List.append_nil]
  have run := s.order_run events
  rw [split_order] at run
  rw [left, earlier]
  exact stagewise_at _ run

theorem foldl_handle_preactor (s : Slots) (events : List GameEvent) {i : Fin MAX_WATCHER_SLOTS}
    (waits : (s i).awaits 1 = true) :
    (events.foldl handle s i).preactor = ((s.left i events).findSome? (s i).gets).or (s i).preactor := by
  rw [foldl_handle_at, ActorWatcherEntry.through_named waits]

/-- Of the spawns that match in a burst the first one is watched, not the last. -/
theorem first_spawn_wins (s : Slots) (i : Fin MAX_WATCHER_SLOTS) (actorName : List Char) (events : List GameEvent) :
    (events.foldl handle (s.assignSlotAwaitSpawn i actorName) i).preactor =
      ((s.assignSlotAwaitSpawn i actorName).left i events).findSome? (ActorWatcherEntry.awaitSpawn actorName).gets := by
  have assigned : s.assignSlotAwaitSpawn i actorName i = .awaitSpawn actorName := Function.update_self i _ s
  have waits : (s.assignSlotAwaitSpawn i actorName i).awaits 1 = true := by
    rw [assigned]
    rfl
  rw [foldl_handle_preactor _ _ waits, assigned]
  exact Option.or_none

example :
    let spawn (created : Ptr) : GameEvent := .requestCreateActorAsync ⟨some ['E'], none, some created⟩
    let slots := assignSlotAwaitSpawn (fun _ => .cleared) ⟨1, by decide⟩ ['E']
    let events := [spawn 7, spawn 8, .calc_ fun preActor => some (preActor + 100)]
    (events.foldl handle slots ⟨1, by decide⟩).actor = some 107 := by
  decide

end Slots

end LotusKit.Actors
