import LotusKit.Hotkey.Table
import LotusKit.Lib.Scan
import Mathlib.Data.List.TakeWhile

/-! A trigger is met when all its keys are pressed. -/

namespace LotusKit.Hotkey
open LotusKit.Lib.Scan

theorem word_lt (code : BitVec 8) : code.toNat / 64 < 4 := by omega

/-- The bit of a key in the words of the keyboard. -/
def IsPressed (keyboard : KeyboardState) (code : BitVec 8) : Prop :=
  (keyboard ⟨code.toNat / 64, word_lt code⟩).getLsbD (code.toNat % 64) = true

theorem isKeySet_iff (keyboard : KeyboardState) (code : BitVec 8) :
    isKeySet keyboard code = true ↔ IsPressed keyboard code := by
  have inWord : code.toNat % 64 < 64 := Nat.mod_lt _ (by decide)
  unfold isKeySet IsPressed storageBits
  rw [decide_eq_true_eq]
  constructor
  · intro differs
    by_contra notSet
    apply differs
    apply BitVec.eq_of_getLsbD_eq
    intro i within
    by_cases same : i = code.toNat % 64
    · rw [BitVec.getLsbD_and, same, Bool.eq_false_iff.mpr notSet, Bool.false_and, BitVec.ofNat_eq_ofNat,
        BitVec.getLsbD_zero]
    · simp only [BitVec.getLsbD_and, BitVec.getLsbD_shiftLeft, BitVec.getLsbD_one, BitVec.ofNat_eq_ofNat,
        BitVec.getLsbD_zero, Bool.and_eq_false_iff, Bool.not_eq_false', decide_eq_true_eq, decide_eq_false_iff_not]
      omega
  · intro isSet same
    have bit := congrArg (fun word => word.getLsbD (code.toNat % 64)) same
    simp only [BitVec.getLsbD_and, isSet, BitVec.getLsbD_shiftLeft, BitVec.getLsbD_one, Bool.true_and, inWord,
      decide_true, Nat.lt_irrefl, decide_false, Bool.not_false, Nat.sub_self, BitVec.ofNat_eq_ofNat,
      BitVec.getLsbD_zero] at bit
    cases bit

/-- The bytes behind the codes are zero, and end the check. -/
theorem matchTrigger_append {keyboard : KeyboardState} {codes : List (BitVec 8)} (nonzero : ∀ code ∈ codes, code ≠ 0)
    (zeros : Nat) : matchTrigger keyboard (codes ++ List.replicate zeros 0) = codes.all (isKeySet keyboard) := by
  induction codes with
  | nil =>
    cases zeros with
    | zero => rfl
    | succ zeros => rfl
  | cons code codes ih =>
    rw [List.forall_mem_cons] at nonzero
    rw [List.cons_append, matchTrigger, if_neg nonzero.1, ih nonzero.2, List.all_cons]
    cases isKeySet keyboard code with
    | false => rfl
    | true => rfl

theorem keyNames_nonzero : ∀ key ∈ keyNames, key.2 ≠ 0 := by
  have nonzero : (keyboardKeys.all fun key => key.2 ≠ 0) = true := by decide +kernel
  intro key there
  obtain ⟨entry, listed, rfl⟩ := List.mem_map.mp there
  exact of_decide_eq_true (List.all_eq_true.mp nonzero entry listed)

section Names
variable {keys : List (List Char × BitVec 8)} (valid : ∀ key ∈ keys, key ∈ keyNames)

include valid

theorem leadingCodes_names : leadingCodes (keys.map Prod.fst) = keys.map Prod.snd := by
  induction keys with
  | nil => rfl
  | cons key keys ih =>
    rw [List.forall_mem_cons] at valid
    rw [List.map_cons, leadingCodes, codeOf_eq valid.1]
    simp only [ih valid.2, List.map_cons]

/-- The names joined by blanks are the keys of the trigger. -/
theorem triggerKeys_join (some_ : keys ≠ []) : triggerKeys ([' '].intercalate (keys.map Prod.fst)) = keys.map Prod.snd := by
  have whole : cStr ([' '].intercalate (keys.map Prod.fst)) = [' '].intercalate (keys.map Prod.fst) := by
    rw [cStr, List.takeWhile_eq_self_iff]
    intro c within
    rw [decide_eq_true_eq]
    rintro rfl
    apply not_mem_intercalate (by decide) _ within
    intro name there
    obtain ⟨key, listed, rfl⟩ := List.mem_map.mp there
    exact (keyNames_plain key (valid key listed)).2
  have pieces : ([' '].intercalate (keys.map Prod.fst)).splitOn ' ' = keys.map Prod.fst := by
    apply List.splitOn_intercalate
    · intro name there
      obtain ⟨key, within, rfl⟩ := List.mem_map.mp there
      exact (keyNames_plain key (valid key within)).1
    · exact fun none_ => some_ (List.map_eq_nil_iff.mp none_)
  rw [triggerKeys, whole, pieces, leadingCodes_names valid]

end Names

theorem byteAt_zero (j : Nat) : byteAt 0 j = 0 := by
  unfold byteAt
  simp

/-- The bytes of a full result, first to last. -/
theorem range_map_byteAt {codes : List (BitVec 8)} {buttons : BitVec 64} (packs : packed codes 0 0 = some buttons)
    (fits : codes.length ≤ 8) :
    (List.range 8).map (byteAt buttons) = codes ++ List.replicate (8 - codes.length) 0 := by
  apply List.ext_getElem
  · simp only [List.length_map, List.length_range, List.length_append, List.length_replicate]
    omega
  · intro j inside inside'
    have within : j < 8 := by
      rw [List.length_map, List.length_range] at inside
      exact inside
    rw [List.getElem_map, List.getElem_range, byteAt_packed packs within, if_neg (Nat.not_lt_zero j), Nat.sub_zero,
      byteAt_zero]
    by_cases front : j < codes.length
    · rw [List.getElem?_eq_getElem front, Option.getD_some, List.getElem_append_left front]
    · rw [List.getElem?_eq_none (by omega), Option.getD_none, List.getElem_append_right (by omega),
        List.getElem_replicate]

/-- A slot with a packed trigger is met by its keys. -/
theorem matchesKeyboard_iff {codes : List (BitVec 8)} {buttons : BitVec 64} (packs : packed codes 0 0 = some buttons)
    (fits : codes.length ≤ 8) (some_ : codes ≠ []) (nonzero : ∀ code ∈ codes, code ≠ 0) {t : Bindings}
    {i : Fin MAX_HOTKEYS} (isKeyboard : (t i).bindType = 2) (own : (t i).buttons = buttons) (keyboard : KeyboardState) :
    t.matchesKeyboard keyboard i = true ↔ ∀ code ∈ codes, IsPressed keyboard code := by
  have set : buttons ≠ 0 := by
    rintro rfl
    obtain ⟨code, rest, rfl⟩ := List.exists_cons_of_ne_nil some_
    have first := byteAt_packed packs (by decide : 0 < 8)
    rw [if_neg (Nat.lt_irrefl 0), Nat.sub_self, List.getElem?_cons_zero, Option.getD_some] at first
    exact nonzero code List.mem_cons_self first.symm
  unfold Bindings.matchesKeyboard
  rw [own, range_map_byteAt packs fits, matchTrigger_append nonzero, isKeyboard]
  simp only [ne_eq, not_true_eq_false, decide_false, set, Bool.or_self, Bool.not_false, Bool.true_and, List.all_eq_true,
    isKeySet_iff]

/-- Where nothing is found before it, a place is found by its own test. -/
theorem find?_finRange_iff {n : Nat} {p : Fin n → Bool} {i : Fin n} (noEarlier : ∀ j < i, p j = false) :
    (List.finRange n).find? p = some i ↔ p i = true := by
  constructor
  · exact List.find?_some
  · intro own
    rw [List.find?_eq_some_iff_getElem]
    refine ⟨own, i, by rw [List.length_finRange]; exact i.isLt, List.getElem_finRange _, ?_⟩
    intro j before
    rw [List.getElem_finRange, Bool.not_eq_true']
    exact noEarlier _ before

/-- Triggers of one to eight names are packed in order, and met by their keys. -/
theorem keyboard_trigger_matches (keys : List (List Char × BitVec 8)) (valid : ∀ key ∈ keys, key ∈ keyNames)
    (nonempty : 1 ≤ keys.length) (fits : keys.length ≤ 8) :
    ∃ buttons, keyboardTriggerToButtons ([' '].intercalate (keys.map Prod.fst)) = some buttons ∧
      (∀ j < 8, byteAt buttons j = (keys.map Prod.snd)[j]?.getD 0) ∧
      ∀ bind ∈ [Bindings.bindKeyboardExecFile, Bindings.bindKeyboardExecFileNXTas, Bindings.bindKeyboardEval],
        ∀ (s u : Bindings) (arg : List Char) (i : Fin MAX_HOTKEYS),
          s.unbindKeyboard ([' '].intercalate (keys.map Prod.fst)) = some u → u.getUnassigned = some i →
          ∃ t, bind s ([' '].intercalate (keys.map Prod.fst)) arg = some t ∧
            (t i).bindType = 2 ∧ (t i).buttons = buttons ∧ (t i).arg = arg ∧
            ∀ keyboard, (∀ j < i, t.matchesKeyboard keyboard j = false) →
              (t.getByKeyboardState keyboard = some i ↔ ∀ key ∈ keys, IsPressed keyboard key.2) := by
  have nonempty : keys ≠ [] := List.ne_nil_of_length_pos nonempty
  have codes := triggerKeys_join valid nonempty
  have room : (keys.map Prod.snd).length ≤ 8 := by rw [List.length_map]; exact fits
  have some_ : (packed (keys.map Prod.snd) 0 0).isSome = true := by
    rw [packed_isSome_iff (Nat.zero_le 8), Nat.zero_add]
    exact room
  obtain ⟨buttons, packs⟩ := Option.isSome_iff_exists.mp some_
  have converts : keyboardTriggerToButtons ([' '].intercalate (keys.map Prod.fst)) = some buttons := by
    rw [keyboardTriggerToButtons_eq, codes, packs]
  refine ⟨buttons, converts, ?_, ?_⟩
  · intro j inside
    rw [byteAt_packed packs inside, if_neg (Nat.not_lt_zero j), Nat.sub_zero, byteAt_zero]
  · intro bind isBind s u arg i unbinds free
    obtain rfl : s.unassign (s.find (.keyboard buttons)) = u := by
      rw [Bindings.unbindKeyboard, Bindings.getByKeyboardTrigger, converts] at unbinds
      exact Option.some.inj unbinds
    obtain ⟨execType, binds⟩ : ∃ execType, bind s ([' '].intercalate (keys.map Prod.fst)) arg =
        some (s.bindKey (.keyboard buttons) execType arg) := by
      rw [List.mem_cons, List.mem_cons, List.mem_singleton] at isBind
      rcases isBind with rfl | rfl | rfl
      · exact ⟨1, bindKeyboard_eq s converts 1 arg⟩
      · exact ⟨2, bindKeyboard_eq s converts 2 arg⟩
      · exact ⟨3, bindKeyboard_eq s converts 3 arg⟩
    have slot : s.bindKey (.keyboard buttons) execType arg i =
        Bindings.filled (s.unassign (s.find (.keyboard buttons))) i (.keyboard buttons) execType arg := by
      rw [Bindings.bindKey, Bindings.fill_of_some execType arg free, Function.update_self]
    refine ⟨_, binds, by rw [slot]; rfl, by rw [slot]; rfl, by rw [slot]; rfl, ?_⟩
    intro keyboard noEarlier
    have nonzero : ∀ code ∈ keys.map Prod.snd, code ≠ 0 := by
      intro code there
      obtain ⟨key, listed, rfl⟩ := List.mem_map.mp there
      exact keyNames_nonzero key (valid key listed)
    have matches_ := matchesKeyboard_iff packs room (fun none_ => nonempty (List.map_eq_nil_iff.mp none_)) nonzero
      (t := s.bindKey (.keyboard buttons) execType arg) (i := i) (by rw [slot]; rfl) (by rw [slot]; rfl) keyboard
    rw [List.forall_mem_map] at matches_
    rw [← matches_]
    exact find?_finRange_iff noEarlier

/-- Eight names, some of which begin others, leave no zero behind. -/
def eightKeys : List (List Char × BitVec 8) :=
  [("F10".toList, 67), ("F1".toList, 58), ("F".toList, 9), ("D".toList, 7), ("D1".toList, 30), ("L".toList, 15),
    ("LeftShift".toList, 225), ("P".toList, 19)]

theorem eightKeys_match : ∃ buttons t,
    keyboardTriggerToButtons "F10 F1 F D D1 L LeftShift P".toList = some buttons ∧ byteAt buttons 7 = 19 ∧
      initialBindings.bindKeyboardEval "F10 F1 F D D1 L LeftShift P".toList "f();".toList = some t ∧
        ∀ keyboard, t.getByKeyboardState keyboard = some ⟨0, by decide⟩ ↔ ∀ key ∈ eightKeys, IsPressed keyboard key.2 := by
  have joined : [' '].intercalate (eightKeys.map Prod.fst) = "F10 F1 F D D1 L LeftShift P".toList := by
    decide +kernel
  have valid : ∀ key ∈ eightKeys, key ∈ keyNames :=
    fun key there => of_decide_eq_true (List.all_eq_true.mp (by decide +kernel :
      (eightKeys.all fun key => decide (key ∈ keyNames)) = true) key there)
  obtain ⟨buttons, converts, codes, matches_⟩ := keyboard_trigger_matches eightKeys valid (by decide) (by decide)
  rw [joined] at converts matches_
  have unbound : initialBindings.find (.keyboard buttons) = none :=
    Bindings.find_eq_none_iff.mpr fun i => Bindings.not_binds_unassigned rfl
  have unbinds : initialBindings.unbindKeyboard "F10 F1 F D D1 L LeftShift P".toList = some initialBindings := by
    rw [Bindings.unbindKeyboard, Bindings.getByKeyboardTrigger, converts]
    show some (initialBindings.unassign (initialBindings.find (.keyboard buttons))) = _
    rw [unbound]
    rfl
  obtain ⟨t, binds, -, -, -, own⟩ := matches_ Bindings.bindKeyboardEval (by simp) initialBindings initialBindings
    "f();".toList ⟨0, by decide⟩ unbinds (by decide)
  exact ⟨buttons, t, converts, codes 7 (by decide), binds, fun keyboard =>
    own keyboard fun j before => absurd before (Nat.not_lt_zero j)⟩

end LotusKit.Hotkey
