import LotusKit.Freeze.Manager
import LotusKit.Lib.SetEdit
import Mathlib.Data.Fin.VecNotation
import Mathlib.Tactic.IntervalCases

/-! Freezing as edits of the set of paused targets. -/

namespace LotusKit.Freeze
open LotusKit.Lib.BinarySearch LotusKit.Lib.SetEdit

/-- The tables as the game builds them. -/
structure PauseMgr.Sound (mgr : PauseMgr) : Prop where
  sorted : mgr.mRequestArray.Pairwise fun request later => request.mHash < later.mHash
  /-- A hash stands at its place, or behind it where that is taken. -/
  placed : ∀ (i : Nat) (hash : Hash), mgr.mTargetArray.mHashArray[i]? = some hash →
    hash.toNat % mgr.mTargetArray.mCapacity ≤ i
  /-- Only free places have a hash in common. -/
  distinct : ∀ (i j : Nat) (hash : Hash), mgr.mTargetArray.mHashArray[i]? = some hash →
    mgr.mTargetArray.mHashArray[j]? = some hash → mgr.mTargetArray.mIndexArray[i]? = mgr.mTargetArray.mIndexArray[j]?
  inMask : ∀ index ∈ mgr.mTargetArray.mIndexArray, index.toNat < 128

namespace PauseMgr

/-- The table has this index for the target. -/
def IsIndex (mgr : PauseMgr) (targetHash : Hash) (k : Fin 128) : Prop :=
  ∃ i : Nat, mgr.mTargetArray.mHashArray[i]? = some targetHash ∧
    mgr.mTargetArray.mIndexArray[i]?.map BitVec.toNat = some (k : Nat)

variable {mgr : PauseMgr} (sound : mgr.Sound)

include sound

theorem index_toNat_eq_iff (hash : Hash) (k : Fin 128) :
    (mgr.mTargetArray.index hash).map BitVec.toNat = some (k : Nat) ↔ mgr.IsIndex hash k := by
  constructor
  · intro found
    obtain ⟨index, found, number⟩ := Option.map_eq_some_iff.mp found
    obtain ⟨i, place, there⟩ := Option.bind_eq_some_iff.mp found
    unfold PauseTargetArray.place at place
    split at place
    · cases place
    · have own := List.find?_some place
      exact ⟨i, of_decide_eq_true own, by rw [there, Option.map_some, number]⟩
  · rintro ⟨i, own, there⟩
    have inside : i < mgr.mTargetArray.mCapacity := by
      rw [← mgr.mTargetArray.hashes]
      exact (List.getElem?_eq_some_iff.mp own).1
    have front := sound.placed i hash own
    have some_ : (mgr.mTargetArray.place hash).isSome = true := by
      unfold PauseTargetArray.place
      rw [if_neg (by omega), List.find?_isSome]
      exact ⟨i, List.mem_range'_1.mpr ⟨front, by omega⟩, decide_eq_true own⟩
    obtain ⟨j, place⟩ := Option.isSome_iff_exists.mp some_
    have own' : mgr.mTargetArray.mHashArray[j]? = some hash := by
      unfold PauseTargetArray.place at place
      rw [if_neg (by omega)] at place
      have own' := List.find?_some place
      exact of_decide_eq_true own'
    rw [PauseTargetArray.index, place, Option.bind_some, sound.distinct j i hash own' own, there]

/-- A named target has one index. -/
theorem exists_isIndex {hash : Hash} (named : hash ∈ mgr.mTargetArray.mHashArray) : ∃ k, mgr.IsIndex hash k := by
  obtain ⟨i, own⟩ := List.mem_iff_getElem?.mp named
  have inside : i < mgr.mTargetArray.mIndexArray.length := by
    rw [mgr.mTargetArray.indices, ← mgr.mTargetArray.hashes]
    exact (List.getElem?_eq_some_iff.mp own).1
  have there := List.getElem?_eq_getElem inside
  exact ⟨⟨_, sound.inMask _ (List.getElem_mem inside)⟩, i, own, by rw [there, Option.map_some]⟩

theorem isIndex_unique {hash : Hash} {k k' : Fin 128} (isIndex : mgr.IsIndex hash k) (isIndex' : mgr.IsIndex hash k') :
    k = k' := by
  rw [← index_toNat_eq_iff sound] at isIndex isIndex'
  exact Fin.ext (Option.some.inj (isIndex.symm.trans isIndex'))

/-- Reader and writer find the same bit. -/
theorem isTargetPaused_eq {hash : Hash} {k : Fin 128} (isIndex : mgr.IsIndex hash k) :
    mgr.isTargetPaused hash = some (bitAt mgr.mPauseMask k) := by
  obtain ⟨index, found, number⟩ := Option.map_eq_some_iff.mp ((index_toNat_eq_iff sound hash k).mpr isIndex)
  have word : wordOf index = k / 32 := by rw [wordOf_eq, number]
  have bit : bitOf index = k % 32 := by rw [bitOf_eq, number]
  have within : wordOf index < 4 := by omega
  rw [isTargetPaused, found]
  simp only [word, bit, bitAt]
  rw [dif_pos (by omega)]

/-- Requests that are sorted by hash are in order for the search. -/
theorem inOrder (hash : Hash) : InOrder (pauseCmpHashFn hash) mgr.mRequestArray := by
  have before {i j : Nat} {request later : Pause} (order : i ≤ j) (first : mgr.mRequestArray[i]? = some request)
      (second : mgr.mRequestArray[j]? = some later) : request.mHash ≤ later.mHash := by
    rcases Nat.lt_or_eq_of_le order with less | rfl
    · obtain ⟨inside, rfl⟩ := List.getElem?_eq_some_iff.mp first
      obtain ⟨inside', rfl⟩ := List.getElem?_eq_some_iff.mp second
      exact BitVec.le_of_lt (List.pairwise_iff_getElem.mp sound.sorted i j inside inside' less)
    · rw [Option.some.inj (first.symm.trans second)]
      exact BitVec.le_refl _
  have isLess {request : Pause} : pauseCmpHashFn hash request = .lt ↔ request.mHash < hash := by
    unfold pauseCmpHashFn
    by_cases same : request.mHash = hash
    · simp only [same, if_true, reduceCtorEq, false_iff]
      exact BitVec.lt_irrefl hash
    · by_cases less : request.mHash < hash
      · simp only [same, less, if_false, if_true]
      · simp only [same, less, if_false, reduceCtorEq]
  have isGreater {request : Pause} : pauseCmpHashFn hash request = .gt ↔ hash < request.mHash := by
    unfold pauseCmpHashFn
    by_cases same : request.mHash = hash
    · simp only [same, if_true, reduceCtorEq, false_iff]
      exact BitVec.lt_irrefl hash
    · by_cases less : request.mHash < hash
      · simp only [same, less, if_false, if_true, reduceCtorEq, false_iff]
        exact BitVec.lt_asymm less
      · simp only [same, less, if_false, true_iff]
        rw [BitVec.lt_def] at less ⊢
        have notSame : request.mHash.toNat ≠ hash.toNat := fun equal => same (BitVec.eq_of_toNat_eq equal)
        omega
  constructor
  · intro i j order less
    obtain ⟨later, second, compared⟩ := Option.map_eq_some_iff.mp less
    obtain ⟨request, first⟩ : ∃ request, mgr.mRequestArray[i]? = some request := by
      have inside := (List.getElem?_eq_some_iff.mp second).1
      exact ⟨_, List.getElem?_eq_getElem (by omega)⟩
    rw [first, Option.map_some, Option.some.injEq, isLess]
    have behind := before order first second
    have less' := isLess.mp compared
    rw [BitVec.le_def] at behind
    rw [BitVec.lt_def] at less' ⊢
    omega
  · intro i j order inside greater
    obtain ⟨request, first, compared⟩ := Option.map_eq_some_iff.mp greater
    have second := List.getElem?_eq_getElem inside
    rw [second, Option.map_some, Option.some.injEq, isGreater]
    have behind := before order first second
    have greater' := isGreater.mp compared
    rw [BitVec.le_def] at behind
    rw [BitVec.lt_def] at greater' ⊢
    omega

theorem eq_of_mHash_eq {request other : Pause} (there : request ∈ mgr.mRequestArray)
    (there' : other ∈ mgr.mRequestArray) (same : other.mHash = request.mHash) : other = request := by
  obtain ⟨i, inside, rfl⟩ := List.mem_iff_getElem.mp there
  obtain ⟨j, inside', rfl⟩ := List.mem_iff_getElem.mp there'
  have sorted := List.pairwise_iff_getElem.mp sound.sorted
  rcases Nat.lt_trichotomy i j with less | equal | greater
  · have order := sorted i j inside inside' less
    rw [same] at order
    exact absurd order (BitVec.lt_irrefl _)
  · simp only [equal]
  · have order := sorted j i inside' inside greater
    rw [same] at order
    exact absurd order (BitVec.lt_irrefl _)

/-- A request that is there is found. -/
theorem getPauseRequestMask_eq {request : Pause} (there : request ∈ mgr.mRequestArray) :
    mgr.getPauseRequestMask request.mHash = some request.mPauseMask := by
  have same : pauseCmpHashFn request.mHash request = .eq := if_pos rfl
  obtain ⟨i, found⟩ := exists_binarySearch (inOrder sound request.mHash) there same
  have hits := binarySearch_hits found
  obtain ⟨other, place, equal⟩ := Option.map_eq_some_iff.mp hits
  have inside := (List.getElem?_eq_some_iff.mp place).1
  have index : mgr.getPauseRequestIndex request.mHash = i := by rw [getPauseRequestIndex, found]
  have hash : other.mHash = request.mHash := by
    by_contra notSame
    rw [pauseCmpHashFn, if_neg notSame] at equal
    split at equal <;> cases equal
  have own : other = request := eq_of_mHash_eq sound there (List.mem_of_getElem? place) hash
  rw [getPauseRequestMask, if_neg (by omega), index, bufferAt_natCast i inside mgr.sized, place, Option.map_some, own]

end PauseMgr

namespace Call

def val : Call → Bool
  | freezeTarget _ val _ | freezeRequest _ val _ => val

def clearOthers : Call → Bool
  | freezeTarget _ _ clearOthers | freezeRequest _ _ clearOthers => clearOthers

/-- The name is in its table. -/
def Named (mgr : PauseMgr) : Call → Prop
  | freezeTarget targetHash _ _ => targetHash ∈ mgr.mTargetArray.mHashArray
  | freezeRequest requestHash _ _ => ∃ request ∈ mgr.mRequestArray, request.mHash = requestHash

/-- The named target, or all targets of the named request. -/
def targets (mgr : PauseMgr) : Call → Set (Fin 128)
  | freezeTarget targetHash _ _ => {k | mgr.IsIndex targetHash k}
  | freezeRequest requestHash _ _ =>
    {k | ∃ request ∈ mgr.mRequestArray, request.mHash = requestHash ∧ k ∈ paused request.mPauseMask}

def edit (mgr : PauseMgr) (call : Call) : Edit (Fin 128) where
  elements := call.targets mgr
  put := call.val
  fresh := call.clearOthers

end Call

section Masks
variable (s : Freezer) (v reqMask : Mask) (k : Fin 128)

theorem paused_stacked (clearOthers : Bool) :
    paused (s.stacked clearOthers) = if clearOthers then ∅ else paused s.pauseMgr.mPauseMask := by
  cases clearOthers with
  | false => rfl
  | true =>
    ext k
    simp only [paused, bitAt, Freezer.stacked, if_true, Set.mem_ofPred_eq, BitVec.ofNat_eq_ofNat, BitVec.getLsbD_zero,
      Bool.false_eq_true, Set.mem_empty_iff_false]

theorem paused_or : paused (fun w => v w ||| reqMask w) = paused v ∪ paused reqMask := by
  ext k
  simp only [paused, bitAt, Set.mem_ofPred_eq, BitVec.getLsbD_or, Bool.or_eq_true, Set.mem_union]

theorem paused_and_not : paused (fun w => v w &&& ~~~(reqMask w)) = paused v \ paused reqMask := by
  ext k
  have inWord : (k : Nat) % 32 < 32 := Nat.mod_lt _ (by decide)
  simp only [paused, bitAt, Set.mem_ofPred_eq, BitVec.getLsbD_and, BitVec.getLsbD_not, inWord, decide_true, true_and,
    Bool.and_eq_true, Bool.not_eq_true', Set.mem_sdiff, Bool.not_eq_true]

/-- The mask of one target. -/
def flagOf (word : Fin 4) (bit : Nat) : Mask := Function.update (fun _ => 0) word (1#32 <<< bit)

theorem paused_flagOf {word : Fin 4} {bit : Nat} (isWord : (word : Nat) = k / 32) (isBit : bit = k % 32) :
    paused (flagOf word bit) = {k} := by
  ext j
  simp only [paused, bitAt, flagOf, Set.mem_ofPred_eq, Set.mem_singleton_iff, Function.update_apply]
  by_cases sameWord : (⟨j / 32, by omega⟩ : Fin 4) = word
  · rw [if_pos sameWord, BitVec.getLsbD_shiftLeft]
    have quotient : (j : Nat) / 32 = k / 32 := (Fin.ext_iff.mp sameWord).trans isWord
    simp only [BitVec.getLsbD_one, Bool.and_eq_true, decide_eq_true_eq, Bool.not_eq_true', decide_eq_false_iff_not,
      Fin.ext_iff]
    omega
  · rw [if_neg sameWord, BitVec.ofNat_eq_ofNat, BitVec.getLsbD_zero]
    simp only [Bool.false_eq_true, false_iff]
    rintro rfl
    exact sameWord (Fin.ext isWord.symm)

theorem update_or {word : Fin 4} {bit : Nat} :
    Function.update v word (v word ||| 1#32 <<< bit) = fun w => v w ||| flagOf word bit w := by
  funext w
  simp only [flagOf, Function.update_apply]
  by_cases same : w = word
  · rw [if_pos same, if_pos same, same]
  · rw [if_neg same, if_neg same, BitVec.ofNat_eq_ofNat, BitVec.or_zero]

theorem update_and_not {word : Fin 4} {bit : Nat} :
    Function.update v word (v word &&& ~~~(1#32 <<< bit)) = fun w => v w &&& ~~~(flagOf word bit w) := by
  funext w
  simp only [flagOf, Function.update_apply]
  by_cases same : w = word
  · rw [if_pos same, if_pos same, same]
  · rw [if_neg same, if_neg same, BitVec.ofNat_eq_ofNat, BitVec.not_zero, BitVec.and_allOnes]

/-- What is written over the mask on the stack. -/
theorem paused_put (val clearOthers : Bool) :
    paused (fun w => if val then s.stacked clearOthers w ||| reqMask w else s.stacked clearOthers w &&& ~~~(reqMask w)) =
      Edit.apply ⟨paused reqMask, val, clearOthers⟩ (paused s.pauseMgr.mPauseMask) := by
  unfold Edit.apply
  cases val with
  | true =>
    simp only [if_true]
    rw [paused_or, paused_stacked]
  | false =>
    simp only [Bool.false_eq_true, if_false]
    rw [paused_and_not, paused_stacked]

end Masks

section Calls
variable {s : Freezer}

theorem freezeTargetIndex_eq {index : BitVec 8} {k : Fin 128} (number : index.toNat = k) (val clearOthers : Bool) :
    ∃ v, s.freezeTargetIndex index val clearOthers = some (s.freeze v) ∧
      paused v = Edit.apply ⟨{k}, val, clearOthers⟩ (paused s.pauseMgr.mPauseMask) := by
  have word : wordOf index = k / 32 := by rw [wordOf_eq, number]
  have within : wordOf index < 4 := by omega
  have bit : bitOf index = k % 32 := by rw [bitOf_eq, number]
  have own : paused (flagOf ⟨wordOf index, within⟩ (bitOf index)) = {k} := paused_flagOf k word bit
  have put := paused_put s (flagOf ⟨wordOf index, within⟩ (bitOf index)) val clearOthers
  rw [own] at put
  refine ⟨_, ?_, put⟩
  rw [Freezer.freezeTargetIndex]
  simp only [within, dite_true]
  congr 2
  cases val with
  | true => exact update_or _
  | false => exact update_and_not _

theorem freezeRequest_of_mask {requestHash : Hash} {reqMask : Mask}
    (found : s.pauseMgr.getPauseRequestMask requestHash = some reqMask) (val clearOthers : Bool) :
    ∃ v, s.freezeRequest requestHash val clearOthers = some (s.freeze v) ∧
      paused v = Edit.apply ⟨paused reqMask, val, clearOthers⟩ (paused s.pauseMgr.mPauseMask) := by
  refine ⟨_, ?_, paused_put s reqMask val clearOthers⟩
  rw [Freezer.freezeRequest, found, Option.map_some]

variable (sound : s.pauseMgr.Sound)

include sound

theorem freezeTarget_eq {targetHash : Hash} {k : Fin 128} (isIndex : s.pauseMgr.IsIndex targetHash k)
    (val clearOthers : Bool) : ∃ v, s.freezeTarget targetHash val clearOthers = some (s.freeze v) ∧
      paused v = Edit.apply ⟨{k}, val, clearOthers⟩ (paused s.pauseMgr.mPauseMask) := by
  have found := (PauseMgr.index_toNat_eq_iff sound targetHash k).mpr isIndex
  obtain ⟨index, found, number⟩ := Option.map_eq_some_iff.mp found
  have target : s.pauseMgr.getTargetIndexByHash targetHash = index := by
    rw [PauseMgr.getTargetIndexByHash, found, Option.getD_some]
  rw [Freezer.freezeTarget, target]
  exact freezeTargetIndex_eq number val clearOthers

/-- A call with a name of the tables is an edit of the paused targets. -/
theorem call_eq {call : Call} (named : call.Named s.pauseMgr) : ∃ v, s.call call = some (s.freeze v) ∧
    paused v = (call.edit s.pauseMgr).apply (paused s.pauseMgr.mPauseMask) := by
  cases call with
  | freezeTarget targetHash val clearOthers =>
    obtain ⟨k, isIndex⟩ := PauseMgr.exists_isIndex sound named
    have own : (Call.freezeTarget targetHash val clearOthers).targets s.pauseMgr = {k} := by
      ext j
      constructor
      · exact fun isIndex' => PauseMgr.isIndex_unique sound isIndex' isIndex
      · rintro rfl
        exact isIndex
    rw [Call.edit, own]
    exact freezeTarget_eq sound isIndex val clearOthers
  | freezeRequest requestHash val clearOthers =>
    obtain ⟨request, there, rfl⟩ := named
    have own : (Call.freezeRequest request.mHash val clearOthers).targets s.pauseMgr = paused request.mPauseMask := by
      ext j
      constructor
      · rintro ⟨other, there', same, within⟩
        rw [PauseMgr.eq_of_mHash_eq sound there there' same] at within
        exact within
      · exact fun within => ⟨request, there, rfl, within⟩
    rw [Call.edit, own]
    exact freezeRequest_of_mask (PauseMgr.getPauseRequestMask_eq sound there) val clearOthers

end Calls

section Runs
variable {s : Freezer}

/-- The tables stay. -/
theorem sound_freeze (sound : s.pauseMgr.Sound) (v : Mask) : (s.freeze v).pauseMgr.Sound where
  sorted := sound.sorted
  placed := sound.placed
  distinct := sound.distinct
  inMask := sound.inMask

theorem named_freeze {call : Call} (named : call.Named s.pauseMgr) (v : Mask) : call.Named (s.freeze v).pauseMgr := by
  cases call with
  | freezeTarget => exact named
  | freezeRequest => exact named

theorem edit_freeze (call : Call) (v : Mask) : call.edit (s.freeze v).pauseMgr = call.edit s.pauseMgr := by
  cases call with
  | freezeTarget => rfl
  | freezeRequest => rfl

/-- What a run of calls leaves of the state before it. -/
structure Edited (s s' : Freezer) (edits : List (Edit (Fin 128))) : Prop where
  tables : s'.pauseMgr = { s.pauseMgr with mPauseMask := s'.pauseMgr.mPauseMask }
  mask : paused s'.pauseMgr.mPauseMask = Edit.applyAll edits (paused s.pauseMgr.mPauseMask)

/-- The mask is the fold of the calls. -/
theorem callAll_eq (sound : s.pauseMgr.Sound) {calls : List Call} (named : ∀ call ∈ calls, call.Named s.pauseMgr) :
    ∃ s', s.callAll calls = some s' ∧ Edited s s' (calls.map fun call => call.edit s.pauseMgr) := by
  induction calls generalizing s with
  | nil => exact ⟨s, rfl, rfl, rfl⟩
  | cons call calls ih =>
    rw [List.forall_mem_cons] at named
    obtain ⟨v, called, mask⟩ := call_eq sound named.1
    obtain ⟨s', run, edited⟩ := ih (sound_freeze sound v) fun call within => named_freeze (named.2 call within) v
    refine ⟨s', ?_, edited.tables, ?_⟩
    · rw [Freezer.callAll, List.foldlM_cons, called]
      exact run
    · rw [edited.mask, List.map_cons, Edit.applyAll, Edit.applyAll, List.foldl_cons, ← mask]
      simp only [edit_freeze]
      rfl

namespace Edited
variable {s' : Freezer} {edits : List (Edit (Fin 128))} (edited : Edited s s' edits)

include edited

theorem sound (sound : s.pauseMgr.Sound) : s'.pauseMgr.Sound := by
  rw [edited.tables]
  exact ⟨sound.sorted, sound.placed, sound.distinct, sound.inMask⟩

theorem isIndex {hash : Hash} {k : Fin 128} (isIndex : s.pauseMgr.IsIndex hash k) : s'.pauseMgr.IsIndex hash k := by
  rw [edited.tables]
  exact isIndex

theorem named {call : Call} (named : call.Named s.pauseMgr) : call.Named s'.pauseMgr := by
  rw [edited.tables]
  exact named_freeze named s'.pauseMgr.mPauseMask

theorem edit (call : Call) : call.edit s'.pauseMgr = call.edit s.pauseMgr := by
  rw [edited.tables]
  exact edit_freeze call s'.pauseMgr.mPauseMask

theorem targets (call : Call) : call.targets s'.pauseMgr = call.targets s.pauseMgr :=
  congrArg Edit.elements (edited.edit call)

end Edited

theorem callAll_append (before after : List Call) (s : Freezer) :
    s.callAll (before ++ after) = (s.callAll before).bind (Freezer.callAll after) := List.foldlM_append

theorem callAll_swap (sound : s.pauseMgr.Sound) {call call' : Call} (named : call.Named s.pauseMgr)
    (named' : call'.Named s.pauseMgr) (keeps : call.clearOthers = false) (keeps' : call'.clearOthers = false)
    (apart : Disjoint (call.targets s.pauseMgr) (call'.targets s.pauseMgr)) (after : List Call) :
    s.callAll (call :: call' :: after) = s.callAll (call' :: call :: after) := by
  obtain ⟨v, called, mask⟩ := call_eq sound named
  obtain ⟨v', called', mask'⟩ := call_eq sound named'
  obtain ⟨w, second, both⟩ := call_eq (sound_freeze sound v) (named_freeze named' v)
  obtain ⟨w', second', both'⟩ := call_eq (sound_freeze sound v') (named_freeze named v')
  have same : w = w' := by
    apply paused_injective
    calc
      paused w = (call'.edit s.pauseMgr).apply (paused v) := by rw [both, edit_freeze]; rfl
      _ = (call.edit s.pauseMgr).apply (paused v') := by
        rw [mask, mask']
        exact Edit.apply_comm keeps keeps' apart
      _ = paused w' := by rw [both', edit_freeze]; rfl
  have frozen : (s.freeze v).freeze w = (s.freeze v').freeze w' := by rw [same]; rfl
  simp only [Freezer.callAll, List.foldlM_cons, called, called', Option.bind_eq_bind, Option.bind_some, second, second',
    frozen]

end Runs

theorem fold_of_edits {mgr : PauseMgr} {calls : List Call} {before after : Set (Fin 128)}
    (keeps : ∀ call ∈ calls, call.clearOthers = false)
    (mask : after = Edit.applyAll (calls.map fun call => call.edit mgr) before) :
    after = calls.foldl (fun targets call =>
      if call.val then targets ∪ call.targets mgr else targets \ call.targets mgr) before := by
  induction calls generalizing before with
  | nil => exact mask
  | cons call calls ih =>
    rw [List.forall_mem_cons] at keeps
    have step : (call.edit mgr).apply before =
        if call.val then before ∪ call.targets mgr else before \ call.targets mgr := by
      unfold Edit.apply Call.edit
      simp only [keeps.1, Bool.false_eq_true, if_false]
    rw [List.foldl_cons, ← step]
    exact ih keeps.2 mask

/-- With names of the tables, the calls are set algebra on the paused targets. -/
theorem calls_edit_the_paused_targets (s : Freezer) (sound : s.pauseMgr.Sound) :
    (∀ calls : List Call, (∀ call ∈ calls, call.Named s.pauseMgr) → (∀ call ∈ calls, call.clearOthers = false) →
      ∃ s', s.callAll calls = some s' ∧
        paused s'.pauseMgr.mPauseMask = calls.foldl (fun targets call =>
          if call.val then targets ∪ call.targets s.pauseMgr else targets \ call.targets s.pauseMgr)
          (paused s.pauseMgr.mPauseMask) ∧
        (∀ before call after, calls = before ++ call :: after → ∀ hash, ∀ k ∈ call.targets s.pauseMgr,
          s.pauseMgr.IsIndex hash k → (∀ later ∈ after, k ∉ later.targets s.pauseMgr) →
          s'.pauseMgr.isTargetPaused hash = some call.val) ∧
        (∀ k, (∀ call ∈ calls, k ∉ call.targets s.pauseMgr) →
          (k ∈ paused s'.pauseMgr.mPauseMask ↔ k ∈ paused s.pauseMgr.mPauseMask) ∧
          ∀ hash, s.pauseMgr.IsIndex hash k → s'.pauseMgr.isTargetPaused hash = s.pauseMgr.isTargetPaused hash) ∧
        ∀ before call call' after, calls = before ++ call :: call' :: after →
          Disjoint (call.targets s.pauseMgr) (call'.targets s.pauseMgr) →
          s.callAll calls = s.callAll (before ++ call' :: call :: after)) ∧
    ∀ before call, (∀ call ∈ before, call.Named s.pauseMgr) → call.Named s.pauseMgr → call.clearOthers = true →
      ∃ s', s.callAll (before ++ [call]) = some s' ∧
        paused s'.pauseMgr.mPauseMask = if call.val then call.targets s.pauseMgr else ∅ := by
  constructor
  · intro calls named keeps
    have keepsEdit : ∀ edit ∈ calls.map fun call => call.edit s.pauseMgr, edit.fresh = false := by
      intro edit within
      obtain ⟨call, member, rfl⟩ := List.mem_map.mp within
      exact keeps call member
    obtain ⟨s', run, edited⟩ := callAll_eq sound named
    have soundAfter := edited.sound sound
    refine ⟨s', run, ?_, ?_, ?_, ?_⟩
    · exact fold_of_edits keeps edited.mask
    · intro before call after split hash k within isIndex last
      rw [PauseMgr.isTargetPaused_eq soundAfter (edited.isIndex isIndex), Option.some.injEq, Bool.eq_iff_iff]
      have mask := edited.mask
      rw [split, List.map_append, List.map_cons] at mask keepsEdit
      have own : k ∈ (call.edit s.pauseMgr).elements := within
      have counts : k ∈ paused s'.pauseMgr.mPauseMask ↔ (call.edit s.pauseMgr).put = true := by
        rw [mask]
        apply Edit.mem_applyAll_last own
        · exact fun edit later => keepsEdit edit (List.mem_append_right _ (List.mem_cons_of_mem _ later))
        · exact List.forall_mem_map.mpr last
      exact counts
    · intro k others
      have unchanged := Edit.mem_applyAll_other (s := paused s.pauseMgr.mPauseMask) keepsEdit
        (List.forall_mem_map.mpr others)
      rw [← edited.mask] at unchanged
      refine ⟨unchanged, fun hash isIndex => ?_⟩
      rw [PauseMgr.isTargetPaused_eq soundAfter (edited.isIndex isIndex), PauseMgr.isTargetPaused_eq sound isIndex,
        Option.some.injEq, Bool.eq_iff_iff]
      exact unchanged
    · intro before call call' after split apart
      subst split
      rw [List.forall_mem_append, List.forall_mem_cons, List.forall_mem_cons] at named keeps
      obtain ⟨first, run, edited⟩ := callAll_eq sound named.1
      rw [callAll_append, callAll_append, run, Option.bind_some, Option.bind_some]
      apply callAll_swap (edited.sound sound) (edited.named named.2.1) (edited.named named.2.2.1) keeps.2.1 keeps.2.2.1
      rw [edited.targets, edited.targets]
      exact apart
  · intro before call named own clears
    obtain ⟨first, run, edited⟩ := callAll_eq sound named
    obtain ⟨v, called, mask⟩ := call_eq (edited.sound sound) (edited.named own)
    refine ⟨first.freeze v, ?_, ?_⟩
    · rw [callAll_append, run, Option.bind_some, Freezer.callAll, List.foldlM_cons, called]
      rfl
    · rw [edited.edit] at mask
      exact mask.trans (Edit.apply_fresh clears)

/-- `Scene` stands behind its place, which `Custom_Player` took. -/
def samplePauseMgr : PauseMgr where
  mRequestArray := [⟨0x2d67e2da, ![1, 0, 2, 0x80000000], 1⟩, ⟨0xba597383, ![0, 1, 0, 0], 0⟩]
  sized := by decide
  mTargetArray :=
    { mHashArray := [0xf6e0a4c8, 0x5bac3070, 0x41a318b6, 0x3374793b]
      mIndexArray := [32, 127, 65, 0]
      mCapacity := 4
      hashes := rfl
      indices := rfl }
  mPauseMask := ![0, 1, 0, 0]

def sampleFreezer : Freezer := ⟨samplePauseMgr, fun _ => 0, false⟩

theorem samplePauseMgr_sound : samplePauseMgr.Sound where
  sorted := by decide
  placed := by
    intro i hash there
    have inside : i < 4 := (List.getElem?_eq_some_iff.mp there).1
    interval_cases i <;> cases there <;> decide
  distinct := by
    intro i j hash there there'
    have inside : i < 4 := (List.getElem?_eq_some_iff.mp there).1
    have inside' : j < 4 := (List.getElem?_eq_some_iff.mp there').1
    interval_cases i <;> interval_cases j <;> first | rfl | (cases there; cases there')
  inMask := by decide

/-- The request pauses `UI`, and the next call frees it. -/
theorem sampleFreezer_edited :
    ∃ s', sampleFreezer.callAll [.freezeRequest 0x2d67e2da true false, .freezeTarget 0x41a318b6 false false] = some s' ∧
      s'.pauseMgr.isTargetPaused 0x41a318b6 = some false := by
  have edits := (calls_edit_the_paused_targets sampleFreezer samplePauseMgr_sound).1
    [.freezeRequest 0x2d67e2da true false, .freezeTarget 0x41a318b6 false false]
  have named : ∀ call ∈ [Call.freezeRequest 0x2d67e2da true false, .freezeTarget 0x41a318b6 false false],
      call.Named sampleFreezer.pauseMgr := by
    rw [List.forall_mem_cons, List.forall_mem_singleton]
    exact ⟨⟨_, List.mem_cons_self, rfl⟩, List.mem_of_getElem? (i := 2) rfl⟩
  have keeps : ∀ call ∈ [Call.freezeRequest 0x2d67e2da true false, .freezeTarget 0x41a318b6 false false],
      call.clearOthers = false := by
    rw [List.forall_mem_cons, List.forall_mem_singleton]
    exact ⟨rfl, rfl⟩
  obtain ⟨s', run, _, last, _⟩ := edits named keeps
  have isIndex : sampleFreezer.pauseMgr.IsIndex 0x41a318b6 65 := ⟨2, rfl, rfl⟩
  refine ⟨s', run, ?_⟩
  exact last [_] _ [] rfl 0x41a318b6 65 isIndex isIndex (List.forall_mem_nil _)

end LotusKit.Freeze
