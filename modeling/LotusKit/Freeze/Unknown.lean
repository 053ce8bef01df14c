import LotusKit.Freeze.Algebra

/-! Names that are not in the tables. -/

namespace LotusKit.Freeze
open LotusKit.Lib.BinarySearch LotusKit.Lib.SetEdit

namespace PauseMgr
variable {mgr : PauseMgr} {hash : Hash}

theorem index_of_unknown {array : PauseTargetArray} (unknown : hash ∉ array.mHashArray) : array.index hash = none := by
  have none_ : array.place hash = none := by
    unfold PauseTargetArray.place
    split
    · rfl
    · rw [List.find?_eq_none]
      intro i _ own
      exact unknown (List.mem_of_getElem? (of_decide_eq_true own))
  rw [PauseTargetArray.index, none_, Option.bind_none]

theorem getPauseRequestIndex_of_unknown (unknown : ∀ request ∈ mgr.mRequestArray, request.mHash ≠ hash) :
    mgr.getPauseRequestIndex hash = -1 := by
  have absent : binarySearch (pauseCmpHashFn hash) mgr.mRequestArray = none := by
    apply binarySearch_eq_none
    intro request there equal
    rw [pauseCmpHashFn, if_neg (unknown request there)] at equal
    split at equal <;> cases equal
  rw [getPauseRequestIndex, absent]

/-- The first request answers for an unknown one. -/
theorem getPauseRequestMask_of_unknown (unknown : ∀ request ∈ mgr.mRequestArray, request.mHash ≠ hash) :
    mgr.getPauseRequestMask hash = mgr.mRequestArray[0]?.map fun request => request.mPauseMask := by
  rw [getPauseRequestMask, getPauseRequestIndex_of_unknown unknown, bufferAt_missing mgr.sized]
  split
  case isTrue empty => rw [List.length_eq_zero_iff.mp empty, List.getElem?_nil, Option.map_none]
  case isFalse => rfl

theorem getPauseRequestCount_of_unknown (unknown : ∀ request ∈ mgr.mRequestArray, request.mHash ≠ hash) :
    mgr.getPauseRequestCount hash = some (mgr.mRequestArray[0]?.elim 0 fun request => request.mPauseCount.toInt) := by
  rw [getPauseRequestCount, getPauseRequestIndex_of_unknown unknown, bufferAt_missing mgr.sized]
  split
  case isTrue empty => rw [List.length_eq_zero_iff.mp empty, List.getElem?_nil, Option.elim_none]
  case isFalse nonempty =>
    rw [List.getElem?_eq_getElem (by omega : 0 < mgr.mRequestArray.length), Option.map_some, Option.elim_some]

end PauseMgr

/-- Every target is paused as before. -/
def Freezer.KeepsTargets (s : Freezer) (after : Option Freezer) : Prop :=
  ∃ s', after = some s' ∧ paused s'.pauseMgr.mPauseMask = paused s.pauseMgr.mPauseMask

section Keeps
variable {s : Freezer}

theorem keepsTargets_iff {after : Option Freezer} {elements : Set (Fin 128)} {val : Bool}
    (edits : ∃ v, after = some (s.freeze v) ∧
      paused v = Edit.apply ⟨elements, val, false⟩ (paused s.pauseMgr.mPauseMask)) :
    s.KeepsTargets after ↔
      if val then elements ⊆ paused s.pauseMgr.mPauseMask else Disjoint (paused s.pauseMgr.mPauseMask) elements := by
  obtain ⟨v, rfl, mask⟩ := edits
  have keeps : s.KeepsTargets (some (s.freeze v)) ↔ paused v = paused s.pauseMgr.mPauseMask := by
    constructor
    · rintro ⟨s', own, same⟩
      obtain rfl := Option.some.inj own
      exact same
    · exact fun same => ⟨_, rfl, same⟩
  rw [keeps, mask]
  cases val with
  | true => exact Set.union_eq_left
  | false => exact sdiff_eq_left

theorem not_keepsTargets {after : Option Freezer} (k : Fin 128)
    (changed : after.map (fun s' => bitAt s'.pauseMgr.mPauseMask k) ≠ some (bitAt s.pauseMgr.mPauseMask k)) :
    ¬ s.KeepsTargets after := by
  rintro ⟨s', rfl, same⟩
  apply changed
  rw [Option.map_some, Option.some.injEq, Bool.eq_iff_iff]
  exact Set.ext_iff.mp same k

end Keeps

/-- The first request and the first target stand for the unknown. -/
theorem unknown_inert_iff (s : Freezer) (hash : Hash) (val : Bool) :
    ((∀ request ∈ s.pauseMgr.mRequestArray, request.mHash ≠ hash) →
      (s.isPauseRequest hash = some false ↔
        ∀ request, s.pauseMgr.mRequestArray[0]? = some request → request.mPauseCount.toInt ≤ 0) ∧
      (s.KeepsTargets (s.freezeRequest hash val false) ↔
        ∃ request, s.pauseMgr.mRequestArray[0]? = some request ∧
          if val then paused request.mPauseMask ⊆ paused s.pauseMgr.mPauseMask
          else Disjoint (paused s.pauseMgr.mPauseMask) (paused request.mPauseMask))) ∧
    (hash ∉ s.pauseMgr.mTargetArray.mHashArray →
      s.isPauseTarget hash = some false ∧
      (s.KeepsTargets (s.freezeTarget hash val false) ↔ (0 ∈ paused s.pauseMgr.mPauseMask ↔ val = true))) := by
  constructor
  · intro unknown
    constructor
    · rw [Freezer.isPauseRequest, PauseMgr.getPauseRequestCount_of_unknown unknown, Option.map_some, Option.some.injEq,
        decide_eq_false_iff_not, not_lt]
      cases s.pauseMgr.mRequestArray[0]? with
      | none => simp only [Option.elim_none, le_refl, reduceCtorEq, false_implies, implies_true]
      | some request => simp only [Option.elim_some, Option.some.injEq, forall_eq']
    · have found := PauseMgr.getPauseRequestMask_of_unknown unknown
      cases first : s.pauseMgr.mRequestArray[0]? with
      | none =>
        rw [first, Option.map_none] at found
        rw [Freezer.freezeRequest, found, Option.map_none]
        constructor
        · rintro ⟨s', own, _⟩
          cases own
        · rintro ⟨request, own, _⟩
          cases own
      | some request =>
        rw [first, Option.map_some] at found
        rw [keepsTargets_iff (freezeRequest_of_mask found val false)]
        simp only [Option.some.injEq, exists_eq_left']
  · intro unknown
    have none_ := PauseMgr.index_of_unknown unknown
    constructor
    · rw [Freezer.isPauseTarget, PauseMgr.isTargetPaused, none_]
    · have target : s.pauseMgr.getTargetIndexByHash hash = 0 := by
        rw [PauseMgr.getTargetIndexByHash, none_, Option.getD_none]
      have number : (0 : BitVec 8).toNat = (0 : Fin 128) := rfl
      rw [Freezer.freezeTarget, target, keepsTargets_iff (freezeTargetIndex_eq number val false)]
      cases val with
      | true => simp only [if_true, Set.singleton_subset_iff, iff_true]
      | false => simp only [Bool.false_eq_true, if_false, Set.disjoint_singleton_right, iff_false]

/-- With nothing to free, an unknown name does nothing, but it is taken for a request that is asked. -/
theorem unknown_inert_of_paused :
    (∀ request ∈ samplePauseMgr.mRequestArray, request.mHash ≠ 0x9f0b75e7) ∧
      sampleFreezer.isPauseRequest 0x9f0b75e7 ≠ some false ∧
      sampleFreezer.KeepsTargets (sampleFreezer.freezeRequest 0x9f0b75e7 false false) ∧
      sampleFreezer.isPauseTarget 0x9f0b75e7 = some false ∧
      sampleFreezer.KeepsTargets (sampleFreezer.freezeTarget 0x9f0b75e7 false false) := by
  have unknown : ∀ request ∈ samplePauseMgr.mRequestArray, request.mHash ≠ 0x9f0b75e7 := by decide
  obtain ⟨asked, request⟩ := (unknown_inert_iff sampleFreezer 0x9f0b75e7 false).1 unknown
  obtain ⟨free, target⟩ := (unknown_inert_iff sampleFreezer 0x9f0b75e7 false).2 (by decide)
  refine ⟨unknown, fun none_ => ?_, request.mpr ⟨_, rfl, ?_⟩, free, target.mpr ?_⟩
  · exact absurd (asked.mp none_ _ rfl) (by decide)
  · have apart : ∀ k : Fin 128, bitAt samplePauseMgr.mPauseMask k = true →
        ¬bitAt ![1, 0, 2, 0x80000000] k = true := by decide +kernel
    exact Set.disjoint_left.mpr apart
  · simp only [Bool.false_eq_true, iff_false]
    exact Bool.eq_false_iff.mp (by decide +kernel : bitAt samplePauseMgr.mPauseMask 0 = false)

/-- `0x9f0b75e7` names nothing here, and `DebugPause` is asked and its targets are paused. -/
theorem unknown_acts_on_first :
    ((∀ request ∈ sampleFreezer.pauseMgr.mRequestArray, request.mHash ≠ 0x9f0b75e7) ∧
      sampleFreezer.isPauseRequest 0x9f0b75e7 = some true ∧
      ¬ sampleFreezer.KeepsTargets (sampleFreezer.freezeRequest 0x9f0b75e7 true false)) ∧
    0x9f0b75e7 ∉ sampleFreezer.pauseMgr.mTargetArray.mHashArray ∧
      ¬ sampleFreezer.KeepsTargets (sampleFreezer.freezeTarget 0x9f0b75e7 true false) := by
  refine ⟨⟨by decide, by decide +kernel, ?_⟩, by decide, ?_⟩
  · exact not_keepsTargets 0 (by decide +kernel)
  · exact not_keepsTargets 0 (by decide +kernel)

end LotusKit.Freeze
