import LotusKit.Hotkey.Bindings
import LotusKit.Lib.Transition

/-! The table of hotkeys as a finite map. -/

namespace LotusKit.Hotkey
open LotusKit.Lib

inductive Key where
  | buttons (code : BitVec 64)
  | keyboard (code : BitVec 64)
  deriving DecidableEq

def Key.bindType : Key → Nat
  | buttons _ => 1
  | keyboard _ => 2

def Key.code : Key → BitVec 64
  | buttons code | keyboard code => code

theorem Key.eq_of_code {key key' : Key} (sameType : key.bindType = key'.bindType) (sameCode : key.code = key'.code) :
    key = key' := by
  cases key <;> cases key' <;> cases sameType <;> cases sameCode <;> rfl

namespace Bindings

/-- The slot holds a binding of the key. -/
def Binds (s : Bindings) (key : Key) (i : Fin MAX_HOTKEYS) : Prop :=
  (s i).bindType = key.bindType ∧ (s i).buttons = key.code

/-- One slot for each key. -/
def Unique (s : Bindings) : Prop := ∀ key i j, s.Binds key i → s.Binds key j → i = j

def find (s : Bindings) : Key → Option (Fin MAX_HOTKEYS)
  | .buttons buttons => s.getByButtons buttons
  | .keyboard buttons => s.getByKeyboardButtons buttons

/-- The map that the table is. -/
def lookup (s : Bindings) (key : Key) : Option HotkeyBinding := (s.find key).map s

variable {s t : Bindings} {key key' : Key} {i : Fin MAX_HOTKEYS}

theorem find_eq (key : Key) : s.find key =
    (List.finRange MAX_HOTKEYS).find? fun i => (s i).bindType = key.bindType && (s i).buttons = key.code := by
  cases key with
  | buttons => rfl
  | keyboard => rfl

theorem binds_of_find (found : s.find key = some i) : s.Binds key i := by
  rw [find_eq] at found
  have own := List.find?_some found
  rw [Bool.and_eq_true, decide_eq_true_eq, decide_eq_true_eq] at own
  exact own

theorem exists_find (binds : s.Binds key i) : ∃ j, s.find key = some j := by
  rw [← Option.isSome_iff_exists, find_eq, List.find?_isSome]
  refine ⟨i, List.mem_finRange i, ?_⟩
  rw [Bool.and_eq_true, decide_eq_true_eq, decide_eq_true_eq]
  exact binds

theorem find_eq_some_iff (unique : s.Unique) : s.find key = some i ↔ s.Binds key i := by
  constructor
  · exact binds_of_find
  · intro binds
    obtain ⟨j, found⟩ := exists_find binds
    rw [found, unique key i j binds (binds_of_find found)]

theorem find_eq_none_iff : s.find key = none ↔ ∀ i, ¬ s.Binds key i := by
  constructor
  · intro missing i binds
    obtain ⟨j, found⟩ := exists_find binds
    rw [missing] at found
    cases found
  · intro missing
    cases found : s.find key with
    | none => rfl
    | some i => exact absurd (binds_of_find found) (missing i)

theorem not_binds_unassigned (free : (s i).bindType = 0) : ¬ s.Binds key i := by
  rintro ⟨sameType, -⟩
  rw [free] at sameType
  cases key <;> cases sameType

/-- No slot binds two keys. -/
theorem eq_of_binds (binds : s.Binds key i) (binds' : s.Binds key' i) : key = key' :=
  Key.eq_of_code (binds.1.symm.trans binds'.1) (binds.2.symm.trans binds'.2)

theorem getUnassigned_eq_none_iff : s.getUnassigned = none ↔ ∀ i, (s i).bindType ≠ 0 := by
  rw [getUnassigned, List.find?_eq_none]
  constructor
  · exact fun none_ i free => none_ i (List.mem_finRange i) (decide_eq_true free)
  · exact fun taken i _ free => taken i (of_decide_eq_true free)

theorem unassigned_of_getUnassigned (found : s.getUnassigned = some i) : (s i).bindType = 0 := by
  have own := List.find?_some found
  exact of_decide_eq_true own

/-- What agrees with the table on the slots of a key has it at the same place. -/
theorem find_congr (unique : s.Unique) (unique' : t.Unique) (same : ∀ i, t.Binds key i ↔ s.Binds key i) :
    t.find key = s.find key := by
  ext i
  rw [find_eq_some_iff unique, find_eq_some_iff unique']
  exact same i

/-- A binding of another key stays at its place, as it is. -/
structure Keeps (s t : Bindings) (key : Key) : Prop where
  find : t.find key = s.find key
  slot : ∀ i, s.find key = some i → t i = s i

theorem Keeps.lookup (keeps : Keeps s t key) : t.lookup key = s.lookup key := by
  rw [Bindings.lookup, Bindings.lookup, keeps.find]
  cases found : s.find key with
  | none => rfl
  | some i => rw [Option.map_some, Option.map_some, keeps.slot i found]

section Remove
variable (unique : s.Unique)

include unique

theorem unique_remove (key : Key) : (s.unassign (s.find key)).Unique := by
  cases found : s.find key with
  | none => exact unique
  | some i =>
    intro key' j k binds binds'
    have stays {l : Fin MAX_HOTKEYS} (binds : (s.unassign (some i)).Binds key' l) : s.Binds key' l := by
      by_cases same : l = i
      · rw [same] at binds
        exact absurd binds (not_binds_unassigned (by rw [unassign, Function.update_self]))
      · unfold Binds at binds
        rw [unassign, Function.update_of_ne same] at binds
        exact binds
    exact unique key' j k (stays binds) (stays binds')

theorem find_remove (key : Key) : (s.unassign (s.find key)).find key = none := by
  cases found : s.find key with
  | none => exact found
  | some i =>
    rw [find_eq_none_iff]
    intro j binds
    by_cases same : j = i
    · rw [same] at binds
      exact not_binds_unassigned (by rw [unassign, Function.update_self]) binds
    · unfold Binds at binds
      rw [unassign, Function.update_of_ne same] at binds
      exact same (unique key j i binds (binds_of_find found))

theorem keeps_remove {key key' : Key} (other : key' ≠ key) : Keeps s (s.unassign (s.find key)) key' := by
  have elsewhere {i : Fin MAX_HOTKEYS} (binds : s.Binds key' i) : s.unassign (s.find key) i = s i := by
    cases found : s.find key with
    | none => rfl
    | some j =>
      have apart : i ≠ j := fun same => other (eq_of_binds binds (same ▸ binds_of_find found))
      exact Function.update_of_ne apart _ _
  constructor
  · apply find_congr unique (unique_remove unique key)
    intro i
    constructor
    · intro binds
      cases found : s.find key with
      | none =>
        rw [found] at binds
        exact binds
      | some j =>
        rw [found] at binds
        by_cases same : i = j
        · rw [same] at binds
          exact absurd binds (not_binds_unassigned (by rw [unassign, Function.update_self]))
        · unfold Binds at binds
          rw [unassign, Function.update_of_ne same] at binds
          exact binds
    · intro binds
      unfold Binds
      rw [elsewhere binds]
      exact binds
  · exact fun i found => elsewhere (binds_of_find found)

end Remove

section Fill
variable (unique : s.Unique) (missing : s.find key = none) (execType : Nat) (arg : List Char)

/-- What the new slot holds. -/
def filled (s : Bindings) (i : Fin MAX_HOTKEYS) (key : Key) (execType : Nat) (arg : List Char) : HotkeyBinding :=
  { s i with buttons := key.code, bindType := key.bindType, execType := execType, arg := arg }

theorem fill_of_none (full : s.getUnassigned = none) : s.fill key.code key.bindType execType arg = s := by
  rw [fill, full]

theorem fill_of_some (free : s.getUnassigned = some i) :
    s.fill key.code key.bindType execType arg = Function.update s i (s.filled i key execType arg) := by
  rw [fill, free]
  rfl

theorem binds_filled (key : Key) : Binds (Function.update s i (s.filled i key execType arg)) key i := by
  unfold Binds
  rw [Function.update_self]
  exact ⟨rfl, rfl⟩

/-- The new slot binds only the new key. -/
theorem binds_fill_iff (free : (s i).bindType = 0) (j : Fin MAX_HOTKEYS) :
    Binds (Function.update s i (s.filled i key execType arg)) key' j ↔ j = i ∧ key' = key ∨ s.Binds key' j := by
  by_cases same : j = i
  · subst same
    have own := binds_filled (s := s) (i := j) execType arg key
    constructor
    · exact fun binds => .inl ⟨rfl, eq_of_binds binds own⟩
    · rintro (⟨-, rfl⟩ | binds)
      · exact own
      · exact absurd binds (not_binds_unassigned free)
  · unfold Binds
    rw [Function.update_of_ne same]
    constructor
    · exact .inr
    · exact fun either => either.resolve_left fun new => same new.1

include unique missing

theorem unique_fill : (s.fill key.code key.bindType execType arg).Unique := by
  cases free : s.getUnassigned with
  | none =>
    rw [fill_of_none execType arg free]
    exact unique
  | some i =>
    have isFree := unassigned_of_getUnassigned free
    rw [fill_of_some execType arg free]
    intro key' j k binds binds'
    rw [binds_fill_iff execType arg isFree] at binds binds'
    rcases binds with ⟨rfl, rfl⟩ | binds
    · rcases binds' with ⟨rfl, -⟩ | binds'
      · rfl
      · exact absurd binds' (find_eq_none_iff.mp missing k)
    · rcases binds' with ⟨rfl, rfl⟩ | binds'
      · exact absurd binds (find_eq_none_iff.mp missing j)
      · exact unique key' j k binds binds'

theorem lookup_fill (free : s.getUnassigned = some i) :
    (s.fill key.code key.bindType execType arg).lookup key = some (s.filled i key execType arg) := by
  have unique' := unique_fill unique missing execType arg
  rw [fill_of_some execType arg free] at unique' ⊢
  rw [lookup, (find_eq_some_iff unique').mpr (binds_filled execType arg key), Option.map_some, Function.update_self]

theorem keeps_fill (other : key' ≠ key) : Keeps s (s.fill key.code key.bindType execType arg) key' := by
  have unique' := unique_fill unique missing execType arg
  cases free : s.getUnassigned with
  | none =>
    rw [fill_of_none execType arg free]
    exact ⟨rfl, fun _ _ => rfl⟩
  | some i =>
    have isFree := unassigned_of_getUnassigned free
    rw [fill_of_some execType arg free] at unique' ⊢
    constructor
    · apply find_congr unique unique'
      intro j
      rw [binds_fill_iff execType arg isFree]
      constructor
      · exact fun either => either.resolve_left fun new => other new.2
      · exact .inr
    · intro j found
      have apart : j ≠ i := by
        rintro rfl
        exact not_binds_unassigned isFree (binds_of_find found)
      exact Function.update_of_ne apart _ _

end Fill

theorem Keeps.trans {s t u : Bindings} (first : Keeps s t key) (second : Keeps t u key) : Keeps s u key where
  find := second.find.trans first.find
  slot i found := by
    have stays := first.find.trans found
    rw [second.slot i stays, first.slot i found]

/-- A bind without its conversion. -/
def bindKey (s : Bindings) (key : Key) (execType : Nat) (arg : List Char) : Bindings :=
  (s.unassign (s.find key)).fill key.code key.bindType execType arg

/-- After the key is taken out there is a free slot, if there was one or the key had one. -/
theorem getUnassigned_remove (room : s.find key ≠ none ∨ s.getUnassigned ≠ none) :
    ∃ i, (s.unassign (s.find key)).getUnassigned = some i := by
  rw [← Option.ne_none_iff_exists']
  intro full
  rw [getUnassigned_eq_none_iff] at full
  cases found : s.find key with
  | none =>
    rw [found] at full
    exact room.elim (absurd found) fun free => free (getUnassigned_eq_none_iff.mpr full)
  | some i =>
    rw [found] at full
    exact full i (by rw [unassign, Function.update_self])

end Bindings

/-- What a call does to the map: `binding` is the action that is bound to the key, `none` to unbind it. -/
structure Follows (s t : Bindings) (key : Key) (binding : Option (Nat × List Char)) : Prop where
  unique : t.Unique
  bound : ∀ execType arg, binding = some (execType, arg) → (s.find key ≠ none ∨ s.getUnassigned ≠ none) →
    ∃ hk, t.lookup key = some hk ∧ hk.execType = execType ∧ hk.arg = arg
  refused : binding ≠ none → s.find key = none → s.getUnassigned = none → t = s
  unbound : binding = none → t.lookup key = none
  others : ∀ key' ≠ key, t.lookup key' = s.lookup key'

namespace Follows
variable {s : Bindings} (unique : s.Unique) (key : Key)

include unique

theorem unbind : Follows s (s.unassign (s.find key)) key none where
  unique := Bindings.unique_remove unique key
  bound _ _ binding := by cases binding
  refused binding := absurd rfl binding
  unbound _ := by rw [Bindings.lookup, Bindings.find_remove unique, Option.map_none]
  others _ other := (Bindings.keeps_remove unique other).lookup

theorem bind (execType : Nat) (arg : List Char) :
    Follows s (s.bindKey key execType arg) key (some (execType, arg)) := by
  have removed := Bindings.unique_remove unique key
  have missing := Bindings.find_remove unique key
  constructor
  · exact Bindings.unique_fill removed missing execType arg
  · rintro _ _ ⟨⟩ room
    obtain ⟨i, free⟩ := Bindings.getUnassigned_remove room
    exact ⟨_, Bindings.lookup_fill removed missing execType arg free, rfl, rfl⟩
  · intro _ absent full
    rw [Bindings.bindKey, absent]
    exact Bindings.fill_of_none execType arg full
  · intro binding
    cases binding
  · intro key' other
    have kept := Bindings.keeps_remove unique other
    exact (kept.trans (Bindings.keeps_fill removed missing execType arg other)).lookup

end Follows

namespace Call

/-- The key of a call; `none` where the trigger does not fit. -/
def key : Call → Option Key
  | bindButtonsExecFile buttons _ | bindButtonsExecFileNXTas buttons _ | bindButtonsEval buttons _
  | unbindButtons buttons => some (.buttons buttons)
  | bindKeyboardExecFile trigger _ | bindKeyboardExecFileNXTas trigger _ | bindKeyboardEval trigger _
  | unbindKeyboard trigger => (keyboardTriggerToButtons trigger).map .keyboard

def binding : Call → Option (Nat × List Char)
  | bindButtonsExecFile _ arg | bindKeyboardExecFile _ arg => some (1, arg)
  | bindButtonsExecFileNXTas _ arg | bindKeyboardExecFileNXTas _ arg => some (2, arg)
  | bindButtonsEval _ arg | bindKeyboardEval _ arg => some (3, arg)
  | unbindButtons _ | unbindKeyboard _ => none

/-- A trigger names at most eight keys. -/
def Fits : Call → Prop
  | bindKeyboardExecFile trigger _ | bindKeyboardExecFileNXTas trigger _ | bindKeyboardEval trigger _
  | unbindKeyboard trigger => (triggerKeys trigger).length ≤ 8
  | _ => True

end Call

theorem keyboardTriggerToButtons_isSome_iff (trigger : List Char) :
    (keyboardTriggerToButtons trigger).isSome = true ↔ (triggerKeys trigger).length ≤ 8 := by
  rw [keyboardTriggerToButtons_eq, packed_isSome_iff (Nat.zero_le 8), Nat.zero_add]

theorem bindKeyboard_eq (s : Bindings) {trigger : List Char} {buttons : BitVec 64}
    (fits : keyboardTriggerToButtons trigger = some buttons) (execType : Nat) (arg : List Char) :
    s.bindKeyboard execType trigger arg = some (s.bindKey (.keyboard buttons) execType arg) := by
  have unbound : s.unbindKeyboard trigger = some (s.unassign (s.find (.keyboard buttons))) := by
    rw [Bindings.unbindKeyboard, Bindings.getByKeyboardTrigger, fits]
    rfl
  unfold Bindings.bindKeyboard
  rw [unbound]
  simp only [Option.bind_eq_bind, Option.bind_some]
  cases free : (s.unassign (s.find (.keyboard buttons))).getUnassigned with
  | none => exact congrArg some (@Bindings.fill_of_none _ (.keyboard buttons) execType arg free).symm
  | some i =>
    rw [fits]
    rfl

theorem key_isSome_iff (call : Call) : call.key.isSome = true ↔ call.Fits := by
  cases call with
  | bindButtonsExecFile | bindButtonsExecFileNXTas | bindButtonsEval | unbindButtons => exact iff_of_true rfl trivial
  | bindKeyboardExecFile trigger | bindKeyboardExecFileNXTas trigger | bindKeyboardEval trigger
  | unbindKeyboard trigger =>
    rw [Call.key, Option.isSome_map]
    exact keyboardTriggerToButtons_isSome_iff trigger

/-- Every call that fits follows the map. -/
theorem exists_follows {s : Bindings} (unique : s.Unique) {call : Call} {key : Key} (fits : call.key = some key) :
    ∃ t, s.call call = some t ∧ Follows s t key call.binding := by
  cases call with
  | bindButtonsExecFile buttons arg | bindButtonsExecFileNXTas buttons arg | bindButtonsEval buttons arg =>
    obtain rfl := Option.some.inj fits
    exact ⟨_, rfl, Follows.bind unique (.buttons buttons) _ arg⟩
  | unbindButtons buttons =>
    obtain rfl := Option.some.inj fits
    exact ⟨_, rfl, Follows.unbind unique (.buttons buttons)⟩
  | bindKeyboardExecFile trigger arg | bindKeyboardExecFileNXTas trigger arg | bindKeyboardEval trigger arg =>
    obtain ⟨buttons, packs, rfl⟩ := Option.map_eq_some_iff.mp fits
    exact ⟨_, bindKeyboard_eq s packs _ arg, Follows.bind unique (.keyboard buttons) _ arg⟩
  | unbindKeyboard trigger =>
    obtain ⟨buttons, packs, rfl⟩ := Option.map_eq_some_iff.mp fits
    refine ⟨s.unassign (s.find (.keyboard buttons)), ?_, Follows.unbind unique (.keyboard buttons)⟩
    rw [Bindings.call, Bindings.unbindKeyboard, Bindings.getByKeyboardTrigger, packs]
    rfl

theorem call_eq_none {s : Bindings} {call : Call} (misfits : call.key = none) : s.call call = none := by
  cases call with
  | bindButtonsExecFile | bindButtonsExecFileNXTas | bindButtonsEval | unbindButtons => cases misfits
  | bindKeyboardExecFile trigger | bindKeyboardExecFileNXTas trigger | bindKeyboardEval trigger
  | unbindKeyboard trigger =>
    have packs := Option.map_eq_none_iff.mp misfits
    have unbound : s.unbindKeyboard trigger = none := by
      rw [Bindings.unbindKeyboard, Bindings.getByKeyboardTrigger, packs]
      rfl
    first
    | exact unbound
    | simp only [Bindings.call, Bindings.bindKeyboardExecFile, Bindings.bindKeyboardExecFileNXTas,
        Bindings.bindKeyboardEval, Bindings.bindKeyboard, unbound, Option.bind_eq_bind, Option.bind_none]

def hotkeySystem : Transition.System Bindings Call where
  Start s := s = initialBindings
  Step s call t := s.call call = some t

theorem unique_initial : initialBindings.Unique := by
  intro key i j binds
  exact absurd binds (Bindings.not_binds_unassigned rfl)

theorem unique_of_reachable {s : Bindings} (reached : hotkeySystem.Reachable s) : s.Unique := by
  apply reached.invariant
  · rintro _ rfl
    exact unique_initial
  · intro s call t unique taken
    cases fits : call.key with
    | none =>
      have undefined := call_eq_none (s := s) fits
      rw [show s.call call = some t from taken] at undefined
      cases undefined
    | some key =>
      obtain ⟨t', called, follows⟩ := exists_follows unique fits
      obtain rfl : t = t' := Option.some.inj (taken.symm.trans called)
      exact follows.unique

/-- From every table that calls can make, a call follows the finite map exactly if its trigger fits. -/
theorem call_follows_iff_fits (s : Bindings) (reached : hotkeySystem.Reachable s) :
    s.Unique ∧ ∀ call : Call,
      (∃ t key, s.call call = some t ∧ call.key = some key ∧ Follows s t key call.binding) ↔ call.Fits := by
  have unique := unique_of_reachable reached
  refine ⟨unique, fun call => ?_⟩
  rw [← key_isSome_iff]
  constructor
  · rintro ⟨t, key, -, fits, -⟩
    rw [fits, Option.isSome_some]
  · intro fits
    obtain ⟨key, fits⟩ := Option.isSome_iff_exists.mp fits
    obtain ⟨t, called, follows⟩ := exists_follows unique fits
    exact ⟨t, key, called, fits, follows⟩

theorem initialBindings_bind_follows : ∃ t key,
    initialBindings.call (.bindKeyboardEval "LeftControl F1".toList "save".toList) = some t ∧
      Follows initialBindings t key (some (3, "save".toList)) := by
  have fits : (triggerKeys "LeftControl F1".toList).length ≤ 8 := by decide +kernel
  obtain ⟨t, key, called, -, follows⟩ := ((call_follows_iff_fits initialBindings (.start rfl)).2
    (.bindKeyboardEval "LeftControl F1".toList "save".toList)).mpr fits
  exact ⟨t, key, called, follows⟩

/-- Nine keys are written behind the eight bytes. -/
theorem nine_keys_undefined :
    initialBindings.call (.bindKeyboardEval "A B C D E F G H I".toList "save".toList) = none := by
  decide +kernel

end LotusKit.Hotkey
