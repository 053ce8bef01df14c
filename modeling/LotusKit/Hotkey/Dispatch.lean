import LotusKit.Hotkey.Table
import LotusKit.Lib.Countdown

/-! When hotkeys are acted on. A binding rests after that, until the frames of the cooldown are spent or
its key is bound anew. -/

namespace LotusKit.Hotkey
open LotusKit.Lib

/-- What is pushed, for the main loop to execute. -/
inductive Push where
  | pushExecLocalFileModule (filename : List Char)
  | pushExecLocalFileModuleNXTas (filename : List Char)
  | pushExecEval (scriptText : List Char)
  deriving DecidableEq

namespace HotkeyBinding
variable (hk : HotkeyBinding)

def push : Option Push :=
  if hk.execType = 1 then some (.pushExecLocalFileModule hk.arg)
  else if hk.execType = 2 then some (.pushExecLocalFileModuleNXTas hk.arg)
  else if hk.execType = 3 then some (.pushExecEval hk.arg)
  else none

/-- The body of the loop of `calcCooldown`. -/
def cool : HotkeyBinding :=
  if hk.bindType ≠ 0 ∧ 0 < hk.bindCooldownRemaining then
    { hk with bindCooldownRemaining := hk.bindCooldownRemaining - 1 }
  else hk

def rest (cooldownFrames : UInt8) : HotkeyBinding := { hk with bindCooldownRemaining := cooldownFrames.toNat }

theorem cool_keys : hk.cool.bindType = hk.bindType ∧ hk.cool.buttons = hk.buttons := by
  rw [cool]
  split
  all_goals exact ⟨rfl, rfl⟩

theorem cool_push : hk.cool.push = hk.push := by
  rw [cool]
  split
  all_goals rfl

theorem cool_remaining (bound : hk.bindType ≠ 0) : hk.cool.bindCooldownRemaining = hk.bindCooldownRemaining - 1 := by
  rw [cool]
  split
  case isTrue => rfl
  case isFalse resting =>
    have spent : ¬0 < hk.bindCooldownRemaining := fun positive => resting ⟨bound, positive⟩
    omega

end HotkeyBinding

structure Hotkeys where
  bindings : Bindings
  cooldownFrames : UInt8

namespace Hotkeys

def start : Hotkeys := ⟨initialBindings, 15⟩

variable (s : Hotkeys)

def setCooldown (frames : UInt8) : Hotkeys := { s with cooldownFrames := frames }

def calcCooldown : Hotkeys := { s with bindings := fun i => (s.bindings i).cool }

def calcDispatch : Option (Fin MAX_HOTKEYS) → Hotkeys × Option Push
  | none => (s, none)
  | some i =>
    if 0 < (s.bindings i).bindCooldownRemaining then (s, none)
    else
      ({ s with bindings := Function.update s.bindings i ((s.bindings i).rest s.cooldownFrames) }, (s.bindings i).push)

/-- What is pushed for the buttons, and for the keyboard. -/
def calc_ (buttons : BitVec 64) (keyboard : KeyboardState) : Hotkeys × Option Push × Option Push :=
  let s := s.calcCooldown
  let (s, byButtons) := s.calcDispatch (s.bindings.getByButtons buttons)
  let (s, byKeyboard) := s.calcDispatch (s.bindings.getByKeyboardState keyboard)
  (s, byButtons, byKeyboard)

end Hotkeys

/-- What scripts call, and the frames in between. -/
inductive Event where
  | call (call : Call) (fits : call.Fits)
  | setCooldown (frames : UInt8)
  | frame (buttons : BitVec 64) (keyboard : KeyboardState)

namespace Event

def isFrame : Event → Bool
  | frame _ _ => true
  | _ => false

/-- The event binds the key, or unbinds it. -/
def Rebinds (key : Key) : Event → Prop
  | call c _ => c.key = some key
  | _ => False

theorem not_rebinds {event : Event} {key : Key} (frame : event.isFrame) : ¬event.Rebinds key := by
  cases event with
  | frame => exact id
  | call | setCooldown => exact absurd frame Bool.false_ne_true

end Event

namespace Hotkeys
variable (s : Hotkeys)

def handle : Event → Hotkeys
  -- a call that fits is not `none`
  | .call call _ => { s with bindings := (s.bindings.call call).getD s.bindings }
  | .setCooldown frames => s.setCooldown frames
  | .frame buttons keyboard => (s.calc_ buttons keyboard).1

def pushed : Event → List Push
  | .frame buttons keyboard =>
    let (_, byButtons, byKeyboard) := s.calc_ buttons keyboard
    byButtons.toList ++ byKeyboard.toList
  | _ => []

/-- The keys that a frame selects: the buttons that are held, and the first trigger that is met. -/
def selected : Event → List Key
  | .frame buttons keyboard =>
    .buttons buttons :: ((s.bindings.getByKeyboardState keyboard).map fun i => .keyboard (s.bindings i).buttons).toList
  | _ => []

/-- Whether the binding of a key is acted on. -/
def acts (event : Event) (key : Key) : Bool :=
  key ∈ s.selected event && (s.bindings.lookup key).any fun hk => hk.cool.bindCooldownRemaining = 0

end Hotkeys

section Slots
variable {s t : Bindings} {key : Key} {i : Fin MAX_HOTKEYS}

/-- Each slot of both tables is bound to the same key. -/
def SameKeys (s t : Bindings) : Prop := ∀ i, (t i).bindType = (s i).bindType ∧ (t i).buttons = (s i).buttons

theorem SameKeys.binds_iff (same : SameKeys s t) : t.Binds key i ↔ s.Binds key i := by
  rw [Bindings.Binds, Bindings.Binds, (same i).1, (same i).2]

theorem SameKeys.unique (same : SameKeys s t) (unique : s.Unique) : t.Unique := by
  intro key i j binds binds'
  exact unique key i j (same.binds_iff.mp binds) (same.binds_iff.mp binds')

theorem SameKeys.find (same : SameKeys s t) (key : Key) : t.find key = s.find key := by
  rw [Bindings.find_eq, Bindings.find_eq]
  congr 1
  funext i
  rw [(same i).1, (same i).2]

theorem SameKeys.getByKeyboardState (same : SameKeys s t) (keyboard : KeyboardState) :
    t.getByKeyboardState keyboard = s.getByKeyboardState keyboard := by
  have matched : t.matchesKeyboard keyboard = s.matchesKeyboard keyboard := by
    funext i
    rw [Bindings.matchesKeyboard, Bindings.matchesKeyboard, (same i).1, (same i).2]
  rw [Bindings.getByKeyboardState, Bindings.getByKeyboardState, matched]

/-- A slot whose trigger is met is bound to the keyboard. -/
theorem binds_of_getByKeyboardState {keyboard : KeyboardState} (found : s.getByKeyboardState keyboard = some i) :
    s.Binds (.keyboard (s i).buttons) i := by
  have matched := List.find?_some found
  rw [Bindings.matchesKeyboard, Bool.and_eq_true, Bool.not_eq_true', Bool.or_eq_false_iff, decide_eq_false_iff_not,
    not_not] at matched
  exact ⟨matched.1.1, rfl⟩

theorem bindType_ne_zero (binds : s.Binds key i) : (s i).bindType ≠ 0 :=
  fun free => Bindings.not_binds_unassigned free binds

/-- A slot that nothing is bound to does not rest. -/
def Rested (s : Bindings) : Prop := ∀ i, (s i).bindType = 0 → (s i).bindCooldownRemaining = 0

theorem Rested.unassign (rested : Rested s) (hk : Option (Fin MAX_HOTKEYS)) : Rested (s.unassign hk) := by
  cases hk with
  | none => exact rested
  | some j =>
    intro i free
    by_cases same : i = j
    · rw [same, Bindings.unassign, Function.update_self]
    · rw [Bindings.unassign, Function.update_of_ne same] at free ⊢
      exact rested i free

theorem Rested.fill (rested : Rested s) (key : Key) (execType : Nat) (arg : List Char) :
    Rested (s.fill key.code key.bindType execType arg) := by
  cases unassigned : s.getUnassigned with
  | none =>
    rw [Bindings.fill_of_none execType arg unassigned]
    exact rested
  | some j =>
    rw [Bindings.fill_of_some execType arg unassigned]
    intro i free
    by_cases same : i = j
    · have own := Bindings.binds_filled (s := s) (i := j) execType arg key
      rw [same] at free
      exact absurd own (Bindings.not_binds_unassigned free)
    · rw [Function.update_of_ne same] at free ⊢
      exact rested i free

/-- How long the binding of a key still rests. -/
def Bindings.remaining (s : Bindings) (key : Key) : Nat := (s.lookup key).elim 0 HotkeyBinding.bindCooldownRemaining

theorem remaining_of_lookup_none (unbound : s.lookup key = none) : s.remaining key = 0 := by
  rw [Bindings.remaining, unbound]
  rfl

theorem lookup_initialBindings (key : Key) : initialBindings.lookup key = none := by
  rw [Bindings.lookup, Bindings.find_eq_none_iff.mpr fun i => Bindings.not_binds_unassigned rfl]
  rfl

theorem remaining_of_find (found : s.find key = some i) : s.remaining key = (s i).bindCooldownRemaining := by
  rw [Bindings.remaining, Bindings.lookup, found]
  rfl

/-- What is bound anew does not rest. -/
theorem remaining_bindKey (unique : s.Unique) (rested : Rested s) (key : Key) (execType : Nat) (arg : List Char) :
    (s.bindKey key execType arg).remaining key = 0 := by
  have unique' := Bindings.unique_remove unique key
  have missing := Bindings.find_remove unique key
  rw [Bindings.bindKey]
  cases unassigned : (s.unassign (s.find key)).getUnassigned with
  | none =>
    rw [Bindings.fill_of_none execType arg unassigned]
    apply remaining_of_lookup_none
    rw [Bindings.lookup, missing]
    rfl
  | some i =>
    rw [Bindings.remaining, Bindings.lookup_fill unique' missing execType arg unassigned]
    exact rested.unassign _ i (Bindings.unassigned_of_getUnassigned unassigned)

theorem remaining_remove (unique : s.Unique) (key : Key) : (s.unassign (s.find key)).remaining key = 0 := by
  apply remaining_of_lookup_none
  rw [Bindings.lookup, Bindings.find_remove unique]
  rfl

/-- A call that fits does one of two things to the table. -/
theorem call_eq {call : Call} (fits : call.key = some key) :
    s.call call = some (s.unassign (s.find key)) ∨ ∃ execType arg, s.call call = some (s.bindKey key execType arg) := by
  cases call with
  | bindButtonsExecFile buttons arg | bindButtonsExecFileNXTas buttons arg | bindButtonsEval buttons arg =>
    obtain rfl := Option.some.inj fits
    exact .inr ⟨_, arg, rfl⟩
  | unbindButtons buttons =>
    obtain rfl := Option.some.inj fits
    exact .inl rfl
  | bindKeyboardExecFile trigger arg | bindKeyboardExecFileNXTas trigger arg | bindKeyboardEval trigger arg =>
    obtain ⟨buttons, packs, rfl⟩ := Option.map_eq_some_iff.mp fits
    exact .inr ⟨_, arg, bindKeyboard_eq s packs _ arg⟩
  | unbindKeyboard trigger =>
    obtain ⟨buttons, packs, rfl⟩ := Option.map_eq_some_iff.mp fits
    left
    rw [Bindings.call, Bindings.unbindKeyboard, Bindings.getByKeyboardTrigger, packs]
    rfl

end Slots

namespace Hotkeys
variable {s : Hotkeys} {buttons : BitVec 64} {keyboard : KeyboardState} {key : Key}

theorem calcDispatch_slot (hk : Option (Fin MAX_HOTKEYS)) (i : Fin MAX_HOTKEYS) :
    (s.calcDispatch hk).1.bindings i =
      if hk = some i ∧ (s.bindings i).bindCooldownRemaining = 0 then (s.bindings i).rest s.cooldownFrames
      else s.bindings i := by
  cases hk with
  | none => exact (if_neg fun both => Option.some_ne_none i both.1.symm).symm
  | some j =>
    rw [calcDispatch]
    split
    case isTrue rests =>
      rw [if_neg]
      rintro ⟨⟨⟩, spent⟩
      exact absurd spent (Nat.ne_of_gt rests)
    case isFalse spent =>
      by_cases same : i = j
      · subst same
        rw [if_pos ⟨rfl, Nat.eq_zero_of_not_pos spent⟩]
        exact Function.update_self _ _ _
      · rw [if_neg fun both => same (Option.some.inj both.1).symm]
        exact Function.update_of_ne same _ _

theorem calcDispatch_cooldownFrames (hk : Option (Fin MAX_HOTKEYS)) :
    (s.calcDispatch hk).1.cooldownFrames = s.cooldownFrames := by
  cases hk with
  | none => rfl
  | some i =>
    rw [calcDispatch]
    split
    all_goals rfl

theorem calcDispatch_push (hk : Option (Fin MAX_HOTKEYS)) :
    (s.calcDispatch hk).2 =
      hk.bind fun i => if (s.bindings i).bindCooldownRemaining = 0 then (s.bindings i).push else none := by
  cases hk with
  | none => rfl
  | some i =>
    rw [calcDispatch, Option.bind_some]
    split
    case isTrue rests => rw [if_neg (Nat.ne_of_gt rests)]
    case isFalse spent => rw [if_pos (Nat.eq_zero_of_not_pos spent)]

theorem sameKeys_calcCooldown (s : Hotkeys) : SameKeys s.bindings s.calcCooldown.bindings :=
  fun i => (s.bindings i).cool_keys

theorem sameKeys_calcDispatch (s : Hotkeys) (hk : Option (Fin MAX_HOTKEYS)) :
    SameKeys s.bindings (s.calcDispatch hk).1.bindings := by
  intro i
  rw [calcDispatch_slot]
  split
  all_goals exact ⟨rfl, rfl⟩

theorem calc_eq (s : Hotkeys) (buttons : BitVec 64) (keyboard : KeyboardState) :
    s.calc_ buttons keyboard =
      (((s.calcCooldown.calcDispatch (s.bindings.getByButtons buttons)).1.calcDispatch
          (s.bindings.getByKeyboardState keyboard)).1,
        (s.calcCooldown.calcDispatch (s.bindings.getByButtons buttons)).2,
        ((s.calcCooldown.calcDispatch (s.bindings.getByButtons buttons)).1.calcDispatch
          (s.bindings.getByKeyboardState keyboard)).2) := by
  have cooled : s.calcCooldown.bindings.getByButtons buttons = s.bindings.getByButtons buttons :=
    (sameKeys_calcCooldown s).find (.buttons buttons)
  have kept := (sameKeys_calcDispatch s.calcCooldown (s.bindings.getByButtons buttons)).getByKeyboardState keyboard
  rw [(sameKeys_calcCooldown s).getByKeyboardState] at kept
  rw [calc_]
  dsimp only
  rw [cooled, kept]

/-- A frame slot by slot. -/
theorem calc_slot (i : Fin MAX_HOTKEYS) :
    (s.calc_ buttons keyboard).1.bindings i =
      if (s.bindings.getByButtons buttons = some i ∨ s.bindings.getByKeyboardState keyboard = some i) ∧
          (s.bindings i).cool.bindCooldownRemaining = 0
      then (s.bindings i).cool.rest s.cooldownFrames else (s.bindings i).cool := by
  have cooled : s.calcCooldown.bindings i = (s.bindings i).cool := rfl
  have frames : s.calcCooldown.cooldownFrames = s.cooldownFrames := rfl
  rw [calc_eq]
  dsimp only
  rw [calcDispatch_slot, calcDispatch_slot, calcDispatch_cooldownFrames, cooled, frames]
  by_cases first : s.bindings.getByButtons buttons = some i ∧ (s.bindings i).cool.bindCooldownRemaining = 0
  · have either : (s.bindings.getByButtons buttons = some i ∨ s.bindings.getByKeyboardState keyboard = some i) ∧
        (s.bindings i).cool.bindCooldownRemaining = 0 := ⟨.inl first.1, first.2⟩
    rw [if_pos first]
    exact (ite_self _).trans (if_pos either).symm
  · rw [if_neg first]
    refine if_congr ?_ rfl rfl
    constructor
    · exact fun both => ⟨.inr both.1, both.2⟩
    · exact fun both => ⟨both.1.resolve_left fun held => first ⟨held, both.2⟩, both.2⟩

theorem sameKeys_calc (s : Hotkeys) (buttons : BitVec 64) (keyboard : KeyboardState) :
    SameKeys s.bindings (s.calc_ buttons keyboard).1.bindings := by
  intro i
  rw [calc_slot]
  split
  all_goals exact (s.bindings i).cool_keys

section Unique
variable (unique : s.bindings.Unique)

include unique

theorem find_of_getByKeyboardState {i : Fin MAX_HOTKEYS} (found : s.bindings.getByKeyboardState keyboard = some i) :
    s.bindings.find (.keyboard (s.bindings i).buttons) = some i :=
  (Bindings.find_eq_some_iff unique).mpr (binds_of_getByKeyboardState found)

/-- A frame selects the keys of the slots that it finds. -/
theorem mem_selected_iff {i : Fin MAX_HOTKEYS} (found : s.bindings.find key = some i) :
    key ∈ s.selected (.frame buttons keyboard) ↔
      s.bindings.getByButtons buttons = some i ∨ s.bindings.getByKeyboardState keyboard = some i := by
  rw [selected, List.mem_cons, Option.mem_toList, Option.map_eq_some_iff]
  constructor
  · rintro (rfl | ⟨j, met, rfl⟩)
    · exact .inl found
    · rw [find_of_getByKeyboardState unique met] at found
      exact .inr (met.trans found)
  · have binds := Bindings.binds_of_find found
    rintro (held | met)
    · have own : s.bindings.find (.buttons buttons) = some i := held
      exact .inl (Bindings.eq_of_binds binds (Bindings.binds_of_find own))
    · exact .inr ⟨i, met, (Bindings.eq_of_binds binds (binds_of_getByKeyboardState met)).symm⟩

/-- What a frame does to the rest of a binding. -/
theorem remaining_calc (key : Key) :
    (s.calc_ buttons keyboard).1.bindings.remaining key =
      if s.acts (.frame buttons keyboard) key then s.cooldownFrames.toNat else s.bindings.remaining key - 1 := by
  have same := (sameKeys_calc s buttons keyboard).find key
  cases found : s.bindings.find key with
  | none =>
    have unbound : s.bindings.lookup key = none := by rw [Bindings.lookup, found, Option.map_none]
    have unbound' : (s.calc_ buttons keyboard).1.bindings.lookup key = none := by
      rw [Bindings.lookup, same, found, Option.map_none]
    rw [remaining_of_lookup_none unbound', remaining_of_lookup_none unbound, acts, unbound, Option.any_none,
      Bool.and_false]
    rfl
  | some i =>
    have bound := bindType_ne_zero (Bindings.binds_of_find found)
    have looked : s.bindings.lookup key = some (s.bindings i) := by rw [Bindings.lookup, found, Option.map_some]
    have due : s.acts (.frame buttons keyboard) key = true ↔
        (s.bindings.getByButtons buttons = some i ∨ s.bindings.getByKeyboardState keyboard = some i) ∧
          (s.bindings i).cool.bindCooldownRemaining = 0 := by
      rw [acts, looked, Option.any_some, Bool.and_eq_true, decide_eq_true_eq, decide_eq_true_eq, mem_selected_iff unique found]
    rw [remaining_of_find (same.trans found), remaining_of_find found, calc_slot, if_congr due rfl rfl]
    split
    case isTrue => rfl
    case isFalse => exact (s.bindings i).cool_remaining bound

/-- What a frame pushes are the scripts of the keys that are acted on. -/
theorem pushed_eq (event : Event) :
    s.pushed event = (s.selected event).filterMap fun key =>
      if s.acts event key then (s.bindings.lookup key).bind HotkeyBinding.push else none := by
  cases event with
  | call | setCooldown => rfl
  | frame buttons keyboard =>
    have script {key : Key} {i : Fin MAX_HOTKEYS} (found : s.bindings.find key = some i)
        (member : key ∈ s.selected (.frame buttons keyboard)) :
        (if s.acts (.frame buttons keyboard) key then (s.bindings.lookup key).bind HotkeyBinding.push else none) =
          if (s.bindings i).cool.bindCooldownRemaining = 0 then (s.bindings i).cool.push else none := by
      rw [acts, Bindings.lookup, found, Option.map_some, Option.any_some, decide_eq_true member, Bool.true_and,
        Option.bind_some, HotkeyBinding.cool_push]
      exact if_congr decide_eq_true_iff rfl rfl
    have byButtons : (s.calc_ buttons keyboard).2.1 =
        if s.acts (.frame buttons keyboard) (.buttons buttons) then
          (s.bindings.lookup (.buttons buttons)).bind HotkeyBinding.push else none := by
      rw [calc_eq]
      dsimp only
      rw [calcDispatch_push]
      cases held : s.bindings.getByButtons buttons with
      | none =>
        have unbound : s.bindings.find (.buttons buttons) = none := held
        rw [Bindings.lookup, unbound, Option.map_none, Option.bind_none, Option.bind_none, ite_self]
      | some i =>
        have found : s.bindings.find (.buttons buttons) = some i := held
        exact (script found List.mem_cons_self).symm
    have byKeyboard : (s.calc_ buttons keyboard).2.2.toList =
        ((s.bindings.getByKeyboardState keyboard).map fun i => Key.keyboard (s.bindings i).buttons).toList.flatMap
          fun key => (if s.acts (.frame buttons keyboard) key then (s.bindings.lookup key).bind HotkeyBinding.push
            else none).toList := by
      rw [calc_eq]
      dsimp only
      rw [calcDispatch_push]
      cases met : s.bindings.getByKeyboardState keyboard with
      | none => rfl
      | some i =>
        have found := find_of_getByKeyboardState unique met
        have member : Key.keyboard (s.bindings i).buttons ∈ s.selected (.frame buttons keyboard) :=
          (mem_selected_iff unique found).mpr (.inr met)
        -- the slot that the buttons have found is another one
        have apart : s.bindings.getByButtons buttons ≠ some i := by
          intro held
          have other : s.bindings.find (.buttons buttons) = some i := held
          exact Key.noConfusion (Bindings.eq_of_binds (Bindings.binds_of_find other) (Bindings.binds_of_find found))
        have untouched : (s.calcCooldown.calcDispatch (s.bindings.getByButtons buttons)).1.bindings i = (s.bindings i).cool := by
          rw [calcDispatch_slot, if_neg fun both => apart both.1]
          rfl
        rw [Option.bind_some, untouched, Option.map_some, Option.toList_some, List.flatMap_singleton, script found member]
    rw [pushed, selected, List.filterMap_eq_flatMap_toList, List.flatMap_cons]
    dsimp only
    rw [byKeyboard, byButtons]

end Unique

/-- One slot for each key, and no rest where nothing is bound. -/
structure Inv (s : Hotkeys) : Prop where
  unique : s.bindings.Unique
  rested : Rested s.bindings

theorem inv_start : Inv start where
  unique _ _ _ binds := absurd binds (Bindings.not_binds_unassigned rfl)
  rested _ _ := rfl

theorem exists_key {call : Call} (fits : call.Fits) : ∃ key, call.key = some key :=
  Option.isSome_iff_exists.mp ((key_isSome_iff call).mpr fits)

/-- A call that fits leaves the bindings of other keys, and the binding of its own does not rest. -/
theorem Inv.call (inv : s.Inv) {call : Call} (fits : call.Fits) (called : call.key = some key) :
    (s.handle (.call call fits)).Inv ∧ (s.handle (.call call fits)).bindings.remaining key = 0 ∧
      ∀ key' ≠ key, (s.handle (.call call fits)).bindings.remaining key' = s.bindings.remaining key' := by
  obtain ⟨t, calls, follows⟩ := exists_follows inv.unique called
  have handled : s.handle (.call call fits) = ⟨t, s.cooldownFrames⟩ := by rw [handle, calls]; rfl
  have others : ∀ key' ≠ key, t.remaining key' = s.bindings.remaining key' := by
    intro key' other
    rw [Bindings.remaining, follows.others key' other]
    rfl
  rw [handled]
  obtain removes | ⟨execType, arg, binds⟩ := call_eq (s := s.bindings) called
  · obtain rfl := Option.some.inj (calls.symm.trans removes)
    exact ⟨⟨follows.unique, inv.rested.unassign _⟩, remaining_remove inv.unique key, others⟩
  · obtain rfl := Option.some.inj (calls.symm.trans binds)
    exact ⟨⟨follows.unique, (inv.rested.unassign _).fill key execType arg⟩,
      remaining_bindKey inv.unique inv.rested key execType arg, others⟩

theorem Inv.frame (inv : s.Inv) (buttons : BitVec 64) (keyboard : KeyboardState) :
    (s.calc_ buttons keyboard).1.Inv where
  unique := (sameKeys_calc s buttons keyboard).unique inv.unique
  rested i free := by
    rw [(sameKeys_calc s buttons keyboard i).1] at free
    have unselected : ¬(s.bindings.getByButtons buttons = some i ∨ s.bindings.getByKeyboardState keyboard = some i) := by
      rintro (held | met)
      · have own : s.bindings.find (.buttons buttons) = some i := held
        exact bindType_ne_zero (Bindings.binds_of_find own) free
      · exact bindType_ne_zero (binds_of_getByKeyboardState met) free
    rw [calc_slot, if_neg fun both => unselected both.1, HotkeyBinding.cool, if_neg fun both => both.1 free]
    exact inv.rested i free

theorem Inv.handle (inv : s.Inv) (event : Event) : (s.handle event).Inv := by
  cases event with
  | call call fits =>
    obtain ⟨key, called⟩ := exists_key fits
    exact (inv.call fits called).1
  | setCooldown frames => exact ⟨inv.unique, inv.rested⟩
  | frame buttons keyboard => exact inv.frame buttons keyboard

/-- What is acted on has come to the end of its rest. -/
theorem acts_iff (event : Event) (key : Key) :
    s.acts event key ↔ key ∈ s.selected event ∧ (s.bindings.lookup key).isSome ∧ ¬1 < s.bindings.remaining key := by
  rw [acts, Bool.and_eq_true, decide_eq_true_eq]
  refine and_congr_right fun _ => ?_
  cases found : s.bindings.find key with
  | none =>
    rw [Bindings.lookup, found, Option.map_none, Option.any_none, Option.isSome_none]
    simp
  | some i =>
    rw [remaining_of_find found, Bindings.lookup, found, Option.map_some, Option.any_some, Option.isSome_some,
      decide_eq_true_eq, (s.bindings i).cool_remaining (bindType_ne_zero (Bindings.binds_of_find found)),
      Nat.sub_eq_zero_iff_le, Nat.not_lt]
    exact (and_iff_right rfl).symm

theorem isFrame_of_acts {event : Event} (due : s.acts event key) : event.isFrame := by
  cases event with
  | frame => rfl
  | call | setCooldown => exact absurd due Bool.false_ne_true

end Hotkeys

variable (events : Nat → Event)

/-- The hotkeys before an event. -/
def before : Nat → Hotkeys
  | 0 => .start
  | n + 1 => (before n).handle (events n)

/-- How many frames there were before an event. -/
def frameOf (n : Nat) : Nat := Nat.count (fun k => (events k).isFrame) n

theorem inv_before (n : Nat) : (before events n).Inv := by
  induction n with
  | zero => exact Hotkeys.inv_start
  | succ n ih => exact ih.handle (events n)

theorem counts_down (key : Key) :
    Countdown (fun n => (before events n).bindings.remaining key) (fun n => (before events n).acts (events n) key)
      (fun n => (events n).Rebinds key) (fun n => (events n).isFrame) fun n => (before events n).cooldownFrames.toNat where
  start := remaining_of_lookup_none (lookup_initialBindings key)
  cleared {n} rebinds := by
    rw [before]
    cases event : events n with
    | call call fits =>
      rw [event] at rebinds
      exact ((inv_before events n).call fits rebinds).2.1
    | setCooldown | frame =>
      rw [event] at rebinds
      exact rebinds.elim
  fired {n} due _ := by
    rw [before]
    cases event : events n with
    | call | setCooldown =>
      rw [event] at due
      exact absurd due Bool.false_ne_true
    | frame buttons keyboard =>
      rw [event] at due
      exact (Hotkeys.remaining_calc (inv_before events n).unique key).trans (if_pos due)
  ticked {n} rests _ frame := by
    rw [before]
    cases event : events n with
    | call | setCooldown =>
      rw [event] at frame
      exact absurd frame Bool.false_ne_true
    | frame buttons keyboard =>
      rw [event] at rests
      exact (Hotkeys.remaining_calc (inv_before events n).unique key).trans (if_neg rests)
  kept {n} _ stays between := by
    rw [before]
    cases event : events n with
    | call call fits =>
      rw [event] at stays
      obtain ⟨key', called⟩ := Hotkeys.exists_key fits
      apply ((inv_before events n).call fits called).2.2 key
      rintro rfl
      exact stays called
    | setCooldown => rfl
    | frame =>
      rw [event] at between
      exact absurd rfl between
  ticks_of_fires := Hotkeys.isFrame_of_acts
  grows {n} due := by
    have spent := ((Hotkeys.acts_iff (events n) key).mp due).2.2
    exact (Nat.not_lt.mp spent).trans (Nat.le_add_left 1 _)

/-- What every frame pushes: the scripts that are bound to the keys it selects, but for the keys for
which less frames than the cooldown have gone by since they were acted on and that nobody has bound
anew since then. -/
theorem pushes_rested (n : Nat) :
    (before events n).pushed (events n) = ((before events n).selected (events n)).filterMap (fun key =>
        if (before events n).acts (events n) key then ((before events n).bindings.lookup key).bind HotkeyBinding.push
        else none) ∧
      ∀ key, (before events n).acts (events n) key ↔ key ∈ (before events n).selected (events n) ∧
        ((before events n).bindings.lookup key).isSome ∧ ∀ m < n, (before events m).acts (events m) key →
          (∃ k, m < k ∧ k < n ∧ (events k).Rebinds key) ∨
            frameOf events m + (before events m).cooldownFrames.toNat ≤ frameOf events n := by
  refine ⟨Hotkeys.pushed_eq (inv_before events n).unique (events n), ?_⟩
  intro key
  rw [Hotkeys.acts_iff]
  refine and_congr_right fun _ => and_congr_right fun _ => ?_
  rw [(counts_down events key).lt_iff n 1]
  push Not
  refine forall_congr' fun m => forall_congr' fun earlier => forall_congr' fun acted => ?_
  have frame := Hotkeys.isFrame_of_acts acted
  have counted : Nat.count (fun k => (events k).isFrame) (m + 1) = frameOf events m + 1 := by
    rw [Nat.count_succ, if_pos frame]
    rfl
  rw [counted, Nat.add_right_comm]
  by_cases anew : ∃ k, m < k ∧ k < n ∧ (events k).Rebinds key
  · obtain ⟨k, behind, before_n, rebinds⟩ := anew
    exact iff_of_true (fun lasts => absurd rebinds (lasts k behind.le before_n)) (.inl ⟨k, behind, before_n, rebinds⟩)
  · have lasts : ∀ k, m ≤ k → k < n → ¬(events k).Rebinds key := by
      intro k from_m before_n rebinds
      obtain behind | rfl := Nat.lt_or_eq_of_le from_m
      · exact anew ⟨k, behind, before_n, rebinds⟩
      · exact Event.not_rebinds frame rebinds
    rw [or_iff_right anew]
    constructor
    · exact fun apart => Nat.le_of_succ_le_succ (apart lasts)
    · exact fun apart _ => Nat.succ_le_succ apart

end LotusKit.Hotkey
