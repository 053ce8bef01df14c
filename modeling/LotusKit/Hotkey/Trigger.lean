import Mathlib.Data.List.Find
import Mathlib.Data.List.Nodup
import Mathlib.Tactic.Common

/-! The names of a keyboard trigger, and how their codes are packed. -/

namespace LotusKit.Hotkey

/-- `qs` and `rv` of the unrolled loop, in its order. -/
def keyboardKeys : List (String × BitVec 8) :=
  [("A", 4), ("B", 5), ("C", 6), ("D", 7), ("E", 8), ("F", 9), ("G", 10), ("H", 11), ("I", 12), ("J", 13),
    ("K", 14), ("L", 15), ("M", 16), ("N", 17), ("O", 18), ("P", 19), ("Q", 20), ("R", 21), ("S", 22), ("T", 23),
    ("U", 24), ("V", 25), ("W", 26), ("X", 27), ("Y", 28), ("Z", 29), ("D1", 30), ("D2", 31), ("D3", 32),
    ("D4", 33), ("D5", 34), ("D6", 35), ("D7", 36), ("D8", 37), ("D9", 38), ("D0", 39), ("Return", 40),
    ("Escape", 41), ("Backspace", 42), ("Tab", 43), ("Space", 44), ("Minus", 45), ("Plus", 46),
    ("OpenBracket", 47), ("CloseBracket", 48), ("Pipe", 49), ("Tilde", 50), ("Semicolon", 51), ("Quote", 52),
    ("Backquote", 53), ("Comma", 54), ("Period", 55), ("Slash", 56), ("CapsLock", 57), ("F1", 58), ("F2", 59),
    ("F3", 60), ("F4", 61), ("F5", 62), ("F6", 63), ("F7", 64), ("F8", 65), ("F9", 66), ("F10", 67), ("F11", 68),
    ("F12", 69), ("PrintScreen", 70), ("ScrollLock", 71), ("Pause", 72), ("Insert", 73), ("Home", 74),
    ("PageUp", 75), ("Delete", 76), ("End", 77), ("PageDown", 78), ("RightArrow", 79), ("LeftArrow", 80),
    ("DownArrow", 81), ("UpArrow", 82), ("NumLock", 83), ("NumPadDivide", 84), ("NumPadMultiply", 85),
    ("NumPadSubtract", 86), ("NumPadAdd", 87), ("NumPadEnter", 88), ("NumPad1", 89), ("NumPad2", 90),
    ("NumPad3", 91), ("NumPad4", 92), ("NumPad5", 93), ("NumPad6", 94), ("NumPad7", 95), ("NumPad8", 96),
    ("NumPad9", 97), ("NumPad0", 98), ("NumPadDot", 99), ("Backslash", 100), ("Application", 101),
    ("Power", 102), ("NumPadEquals", 103), ("F13", 104), ("F14", 105), ("F15", 106), ("F16", 107), ("F17", 108),
    ("F18", 109), ("F19", 110), ("F20", 111), ("F21", 112), ("F22", 113), ("F23", 114), ("F24", 115),
    ("NumPadComma", 133), ("Ro", 135), ("KatakanaHiragana", 136), ("Yen", 137), ("Henkan", 138),
    ("Muhenkan", 139), ("NumPadCommaPc98", 140), ("HangulEnglish", 144), ("Hanja", 145), ("Katakana", 146),
    ("Hiragana", 147), ("ZenkakuHankaku", 148), ("LeftControl", 224), ("LeftShift", 225), ("LeftAlt", 226),
    ("LeftGui", 227), ("RightControl", 228), ("RightShift", 229), ("RightAlt", 230), ("RightGui", 231)]

def keyNames : List (List Char × BitVec 8) := keyboardKeys.map fun key => (key.1.toList, key.2)

/-- `trigger.c_str()`, up to its end. -/
def cStr (trigger : List Char) : List Char := trigger.takeWhile (· ≠ '\x00')

/-- `KB_CMP_IMPL` -/
def kbCmp (tp qs : List Char) : Bool :=
  qs.isPrefixOf tp && (tp[qs.length]? = some ' ' || tp[qs.length]? = none)

/-- The first key of the loop that is at `tp`. -/
def keyAt (tp : List Char) : Option (List Char × BitVec 8) := keyNames.find? fun key => kbCmp tp key.1

/-- `*out = b`, with `out` at byte `j` of `outRaw`. -/
def storeByte (outRaw : BitVec 64) (j : Nat) (b : BitVec 8) : BitVec 64 :=
  (outRaw &&& ~~~(0xff#64 <<< (8 * j))) ||| (b.setWidth 64 <<< (8 * j))

def byteAt (buttons : BitVec 64) (j : Nat) : BitVec 8 := buttons.extractLsb' (8 * j) 8

/-- `none` is a write behind `outRaw`. -/
def packFrom (tp : List Char) (j : Nat) (outRaw : BitVec 64) : Option (BitVec 64) :=
  match keyAt tp with
  | none => some outRaw
  | some (qs, rv) =>
    if j < 8 then
      match rest : tp.drop qs.length with
      | [] => some (storeByte outRaw j rv)
      | _ :: tp' => packFrom tp' (j + 1) (storeByte outRaw j rv)
    else none
termination_by tp.length
decreasing_by
  have shorter := congrArg List.length rest
  rw [List.length_drop, List.length_cons] at shorter
  omega

def keyboardTriggerToButtons (trigger : List Char) : Option (BitVec 64) := packFrom (cStr trigger) 0 0

/-- The code of a name. -/
def codeOf (token : List Char) : Option (BitVec 8) := (keyNames.find? fun key => key.1 = token).map Prod.snd

/-- The codes of the names in front, up to what is no name. -/
def leadingCodes : List (List Char) → List (BitVec 8)
  | [] => []
  | token :: tokens =>
    match codeOf token with
    | none => []
    | some code => code :: leadingCodes tokens

/-- The keys that a trigger names. -/
def triggerKeys (trigger : List Char) : List (BitVec 8) := leadingCodes ((cStr trigger).splitOn ' ')

/-- Two names differ, and none has a blank in it; a name counts as a number here. -/
theorem keyNames_checked : (keyNames.map fun key => key.1.foldl (fun n c => 256 * n + c.toNat) 0).Nodup ∧
    (keyNames.all fun key => !key.1.contains ' ' && !key.1.contains '\x00') = true := by
  decide +kernel

theorem keyNames_plain : ∀ key ∈ keyNames, ' ' ∉ key.1 ∧ '\x00' ∉ key.1 := by
  intro key there
  have own := List.all_eq_true.mp keyNames_checked.2 key there
  rw [Bool.and_eq_true, Bool.not_eq_true', Bool.not_eq_true', List.contains_eq_mem, List.contains_eq_mem,
    decide_eq_false_iff_not, decide_eq_false_iff_not] at own
  exact own

theorem eq_of_name_eq {key key' : List Char × BitVec 8} (there : key ∈ keyNames) (there' : key' ∈ keyNames)
    (same : key.1 = key'.1) : key = key' := by
  apply List.inj_on_of_nodup_map keyNames_checked.1 there there'
  rw [same]

theorem codeOf_eq {name : List Char} {code : BitVec 8} (there : (name, code) ∈ keyNames) :
    codeOf name = some code := by
  obtain ⟨key, found⟩ : ∃ key, (keyNames.find? fun key => key.1 = name) = some key := by
    rw [← Option.isSome_iff_exists, List.find?_isSome]
    exact ⟨_, there, decide_eq_true rfl⟩
  have same := List.find?_some found
  rw [decide_eq_true_eq] at same
  have own := eq_of_name_eq (List.mem_of_find?_eq_some found) there same
  rw [codeOf, found, Option.map_some, own]

/-- What follows a token. -/
def Ends (rest : List Char) : Prop := rest = [] ∨ rest.head? = some ' '

/-- A name that begins another one is not taken for it. -/
theorem kbCmp_iff {token rest qs : List Char} (plain : ' ' ∉ token) (plain' : ' ' ∉ qs) (ends : Ends rest) :
    kbCmp (token ++ rest) qs = true ↔ qs = token := by
  have atEnd : (token ++ rest)[token.length]? = some ' ' ∨ (token ++ rest)[token.length]? = none := by
    rw [List.getElem?_append_right (Nat.le_refl _), Nat.sub_self, ← List.head?_eq_getElem?]
    rcases ends with rfl | blank
    · exact .inr rfl
    · exact .inl blank
  unfold kbCmp
  rw [Bool.and_eq_true, Bool.or_eq_true, decide_eq_true_eq, decide_eq_true_eq, List.isPrefixOf_iff_prefix]
  constructor
  · rintro ⟨begins, stops⟩
    rcases Nat.lt_trichotomy qs.length token.length with shorter | same | longer
    · -- the token goes on behind the name
      rw [List.getElem?_append_left shorter, List.getElem?_eq_getElem shorter] at stops
      rcases stops with blank | outside
      · exact absurd (Option.some.inj blank ▸ List.getElem_mem shorter) plain
      · cases outside
    · have front : token <+: token ++ rest := List.prefix_append token rest
      exact (List.prefix_of_prefix_length_le begins front (Nat.le_of_eq same)).eq_of_length same
    · -- the name would have the blank behind the token
      have own : qs[token.length]? = (token ++ rest)[token.length]? := by
        obtain ⟨behind, split⟩ := begins
        rw [← split, List.getElem?_append_left longer]
      rw [List.getElem?_eq_getElem longer] at own
      rcases atEnd with blank | outside
      · rw [blank] at own
        exact absurd (Option.some.inj own ▸ List.getElem_mem longer) plain'
      · rw [outside] at own
        cases own
  · rintro rfl
    exact ⟨List.prefix_append _ _, atEnd⟩

theorem keyAt_eq {token rest : List Char} (plain : ' ' ∉ token) (ends : Ends rest) :
    keyAt (token ++ rest) = keyNames.find? fun key => key.1 = token := by
  apply List.find?_congr
  intro key there
  rw [Bool.eq_iff_iff, kbCmp_iff plain (keyNames_plain key there).1 ends, decide_eq_true_eq]

/-- The codes at their bytes. -/
def packed : List (BitVec 8) → Nat → BitVec 64 → Option (BitVec 64)
  | [], _, outRaw => some outRaw
  | code :: codes, j, outRaw => if j < 8 then packed codes (j + 1) (storeByte outRaw j code) else none

/-- A string is its first token and what follows the blank behind it. -/
theorem exists_token (tp : List Char) : ∃ token, ' ' ∉ token ∧
    (tp = token ∧ tp.splitOn ' ' = [token] ∨
      ∃ rest, tp = token ++ ' ' :: rest ∧ tp.splitOn ' ' = token :: rest.splitOn ' ') := by
  by_cases blank : ' ' ∈ tp
  · obtain ⟨token, rest, rfl, plain⟩ := List.eq_append_cons_of_mem blank
    exact ⟨token, plain, .inr ⟨rest, rfl, List.splitOn_append_cons_self_of_not_mem plain rest⟩⟩
  · exact ⟨tp, blank, .inl ⟨rfl, List.splitOn_eq_singleton blank⟩⟩

section Rounds
variable {tp : List Char} {j : Nat} {outRaw : BitVec 64} {key : List Char × BitVec 8}

theorem packFrom_none (found : keyAt tp = none) : packFrom tp j outRaw = some outRaw := by
  rw [packFrom, found]

theorem packFrom_last (found : keyAt tp = some key) (rest : tp.drop key.1.length = []) :
    packFrom tp j outRaw = if j < 8 then some (storeByte outRaw j key.2) else none := by
  rw [packFrom, found]
  simp only
  split
  · split
    · rfl
    · rename_i other
      rw [rest] at other
      cases other
  · rfl

theorem packFrom_next {c : Char} {tp' : List Char} (found : keyAt tp = some key) (rest : tp.drop key.1.length = c :: tp') :
    packFrom tp j outRaw = if j < 8 then packFrom tp' (j + 1) (storeByte outRaw j key.2) else none := by
  rw [packFrom, found]
  simp only
  split
  · split
    · rename_i other
      rw [rest] at other
      cases other
    · rename_i other
      rw [rest] at other
      rw [(List.cons.inj other).2]
  · rfl

end Rounds

/-- The loop reads the names between single blanks. -/
theorem packFrom_eq (tp : List Char) (j : Nat) (outRaw : BitVec 64) :
    packFrom tp j outRaw = packed (leadingCodes (tp.splitOn ' ')) j outRaw := by
  induction size : tp.length using Nat.strongRecOn generalizing tp j outRaw with
  | ind n ih =>
    obtain ⟨token, plain, ⟨rfl, pieces⟩ | ⟨rest, rfl, pieces⟩⟩ := exists_token tp
    · have own : keyAt (tp ++ []) = _ := keyAt_eq plain (.inl rfl)
      rw [List.append_nil] at own
      rw [pieces, leadingCodes, codeOf]
      cases found : keyNames.find? fun key => key.1 = tp with
      | none => exact packFrom_none (own.trans found)
      | some key =>
        have same := List.find?_some found
        rw [decide_eq_true_eq] at same
        rw [packFrom_last (own.trans found) (by rw [same, List.drop_length])]
        rfl
    · have own : keyAt (token ++ ' ' :: rest) = _ := keyAt_eq plain (.inr rfl)
      rw [pieces, leadingCodes, codeOf]
      cases found : keyNames.find? fun key => key.1 = token with
      | none => exact packFrom_none (own.trans found)
      | some key =>
        have same := List.find?_some found
        rw [decide_eq_true_eq] at same
        have behind : (token ++ ' ' :: rest).drop key.1.length = ' ' :: rest := by rw [same, List.drop_left]
        rw [packFrom_next (own.trans found) behind, ih rest.length _ rest _ _ rfl]
        · rfl
        · rw [← size, List.length_append, List.length_cons]
          omega

theorem keyboardTriggerToButtons_eq (trigger : List Char) :
    keyboardTriggerToButtons trigger = packed (triggerKeys trigger) 0 0 := packFrom_eq _ _ _

section Bytes
variable (w : BitVec 64) (b : BitVec 8) {j k : Nat}

theorem getLsbD_byte (i : Nat) : (0xff#64).getLsbD i = decide (i < 8) := by
  by_cases small : i < 64
  · revert i
    decide
  · rw [BitVec.getLsbD_of_ge _ _ (by omega)]
    exact (decide_eq_false (by omega)).symm

theorem byteAt_storeByte_self (inside : j < 8) : byteAt (storeByte w j b) j = b := by
  apply BitVec.eq_of_getLsbD_eq
  intro i within
  have inWord : 8 * j + i < 64 := by omega
  have place : 8 * j + i - 8 * j = i := by omega
  have behind : ¬ 8 * j + i < 8 * j := by omega
  have small : i < 64 := by omega
  simp only [byteAt, storeByte, BitVec.getLsbD_extractLsb', within, decide_true, Bool.true_and, BitVec.getLsbD_or,
    BitVec.getLsbD_and, BitVec.getLsbD_not, BitVec.getLsbD_shiftLeft, getLsbD_byte, inWord, BitVec.getLsbD_setWidth]
  simp [place, behind, within, small]

theorem byteAt_storeByte_other (inside : k < 8) (other : k ≠ j) : byteAt (storeByte w j b) k = byteAt w k := by
  apply BitVec.eq_of_getLsbD_eq
  intro i within
  have inWord : 8 * k + i < 64 := by omega
  simp only [byteAt, storeByte, BitVec.getLsbD_extractLsb', within, decide_true, Bool.true_and, BitVec.getLsbD_or,
    BitVec.getLsbD_and, BitVec.getLsbD_not, BitVec.getLsbD_shiftLeft, getLsbD_byte, inWord, BitVec.getLsbD_setWidth]
  by_cases before : 8 * k + i < 8 * j
  · simp [before]
  · have far : 8 ≤ 8 * k + i - 8 * j := by omega
    have nothing : b.getLsbD (8 * k + i - 8 * j) = false := BitVec.getLsbD_of_ge _ _ far
    simp [before, nothing, Nat.not_lt.mpr far]

end Bytes

/-- More than eight keys do not fit. -/
theorem packed_isSome_iff {codes : List (BitVec 8)} {j : Nat} {outRaw : BitVec 64} (inside : j ≤ 8) :
    (packed codes j outRaw).isSome = true ↔ j + codes.length ≤ 8 := by
  induction codes generalizing j outRaw with
  | nil => exact iff_of_true rfl (by rw [List.length_nil]; omega)
  | cons code codes ih =>
    rw [packed, List.length_cons]
    by_cases room : j < 8
    · rw [if_pos room, ih (by omega)]
      omega
    · rw [if_neg room]
      exact iff_of_false Bool.false_ne_true (by omega)

/-- The codes stand at their bytes, in their order, and zeros behind them. -/
theorem byteAt_packed {codes : List (BitVec 8)} {j : Nat} {outRaw buttons : BitVec 64}
    (packs : packed codes j outRaw = some buttons) {k : Nat} (inside : k < 8) :
    byteAt buttons k = if k < j then byteAt outRaw k else codes[k - j]?.getD (byteAt outRaw k) := by
  induction codes generalizing j outRaw with
  | nil =>
    obtain rfl := Option.some.inj packs
    rw [List.getElem?_nil, Option.getD_none, ite_self]
  | cons code codes ih =>
    rw [packed] at packs
    by_cases room : j < 8
    · rw [if_pos room] at packs
      rw [ih packs]
      rcases Nat.lt_trichotomy k j with before | rfl | behind
      · rw [if_pos (by omega), if_pos before, byteAt_storeByte_other _ _ inside (by omega)]
      · rw [if_pos (Nat.lt_succ_self _), if_neg (Nat.lt_irrefl _), Nat.sub_self, List.getElem?_cons_zero,
          Option.getD_some, byteAt_storeByte_self _ _ room]
      · obtain ⟨d, rfl⟩ := Nat.exists_eq_add_of_lt behind
        rw [if_neg (by omega), if_neg (by omega), byteAt_storeByte_other _ _ inside (by omega),
          show j + d + 1 - (j + 1) = d by omega, show j + d + 1 - j = d + 1 by omega, List.getElem?_cons_succ]
    · rw [if_neg room] at packs
      cases packs

end LotusKit.Hotkey
