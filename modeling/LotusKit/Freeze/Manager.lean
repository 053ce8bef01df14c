import LotusKit.Lib.BinarySearch
import Mathlib.Data.Set.Basic
import Mathlib.Logic.Function.Basic
import Mathlib.Algebra.Group.Nat.Defs
import Mathlib.Algebra.Group.Int.Defs

/-! The pause manager of the game, whose tables name requests and targets by hash, and the
calls that freeze its mask of targets. -/

namespace LotusKit.Freeze
open LotusKit.Lib.BinarySearch

abbrev Hash := BitVec 32

/-- `u32 mPauseMask[4]` -/
abbrev Mask := Fin 4 → BitVec 32

structure Pause where
  mHash : Hash
  mPauseMask : Mask
  mPauseCount : BitVec 32

def pauseCmpHashFn (rhs_hash : Hash) (lhs : Pause) : Ordering :=
  if lhs.mHash = rhs_hash then .eq else if lhs.mHash < rhs_hash then .lt else .gt

structure PauseTargetArray where
  mHashArray : List Hash
  mIndexArray : List (BitVec 8)
  mCapacity : Nat
  hashes : mHashArray.length = mCapacity
  indices : mIndexArray.length = mCapacity

structure PauseMgr where
  mRequestArray : List Pause
  /-- `s32 mSize` -/
  sized : mRequestArray.length < 2 ^ 31
  mTargetArray : PauseTargetArray
  /-- `mContext.mPauseMask` -/
  mPauseMask : Mask

/-- `((index >> 3) & 0x1c)`, counted in words. -/
def wordOf (index : BitVec 8) : Nat := ((index >>> 3) &&& 0x1c).toNat / 4

/-- `index & 0x1f` -/
def bitOf (index : BitVec 8) : Nat := (index &&& 0x1f).toNat

namespace PauseTargetArray
variable (array : PauseTargetArray) (hash : Hash)

/-- `for (s32 i = pauseTargetHash % cap; i < cap; i++)` up to the hash. -/
def place : Option Nat :=
  if array.mCapacity = 0 then none
  else
    (List.range' (hash.toNat % array.mCapacity) (array.mCapacity - hash.toNat % array.mCapacity)).find? fun i : Nat =>
      array.mHashArray[i]? = some hash

def index : Option (BitVec 8) := (array.place hash).bind fun i : Nat => array.mIndexArray[i]?

end PauseTargetArray

/-- `sead::Buffer::operator[]`, which gives the first element for an index out of range. -/
def bufferAt {α : Type} (buffer : List α) (index : Int) : Option α :=
  if buffer.length ≤ (index % 2 ^ 32).toNat then buffer[0]? else buffer[index.toNat]?

theorem bufferAt_natCast {α : Type} {buffer : List α} (index : Nat) (inside : index < buffer.length)
    (sized : buffer.length < 2 ^ 31) : bufferAt buffer index = buffer[index]? := by
  have small : ((index : Int) % 2 ^ 32).toNat = index := by omega
  rw [bufferAt, small, if_neg (by omega), Int.toNat_natCast]

theorem bufferAt_missing {α : Type} {buffer : List α} (sized : buffer.length < 2 ^ 31) :
    bufferAt buffer (-1) = buffer[0]? := by
  have large : ((-1 : Int) % 2 ^ 32).toNat = 2 ^ 32 - 1 := by decide
  rw [bufferAt, large, if_pos (by omega)]

namespace PauseMgr
variable (mgr : PauseMgr) (hash : Hash)

/-- `binarySearch` gives `-1` for what is not there. -/
def getPauseRequestIndex : Int :=
  match binarySearch (pauseCmpHashFn hash) mgr.mRequestArray with
  | some index => index
  | none => -1

def getPauseRequestCount : Option Int :=
  if mgr.mRequestArray.length = 0 then some 0
  else (bufferAt mgr.mRequestArray (mgr.getPauseRequestIndex hash)).map fun request => request.mPauseCount.toInt

/-- `none` for the null pointer. -/
def getPauseRequestMask : Option Mask :=
  if mgr.mRequestArray.length = 0 then none
  else (bufferAt mgr.mRequestArray (mgr.getPauseRequestIndex hash)).map fun request => request.mPauseMask

/-- `none` is a read behind the mask. -/
def isTargetPaused : Option Bool :=
  match mgr.mTargetArray.index hash with
  | none => some false
  | some index =>
    if within : wordOf index < 4 then some ((mgr.mPauseMask ⟨wordOf index, within⟩).getLsbD (bitOf index)) else none

def getTargetIndexByHash : BitVec 8 := (mgr.mTargetArray.index hash).getD 0

end PauseMgr

/-- The globals of `util::pause`. -/
structure Freezer where
  pauseMgr : PauseMgr
  freezeMaskVal : Mask
  isFreezeMask : Bool

namespace Freezer
variable (s : Freezer)

def processFrozen : Freezer :=
  if s.isFreezeMask then { s with pauseMgr := { s.pauseMgr with mPauseMask := s.freezeMaskVal } } else s

def freeze (v : Mask) : Freezer := processFrozen { s with freezeMaskVal := v, isFreezeMask := true }

/-- `u32 v[4]` before it is changed. -/
def stacked (clearOthers : Bool) : Mask := if clearOthers then fun _ => 0 else s.pauseMgr.mPauseMask

/-- `none` is a write behind `v`. -/
def freezeTargetIndex (targetIndex : BitVec 8) (val clearOthers : Bool) : Option Freezer :=
  let v := s.stacked clearOthers
  if within : wordOf targetIndex < 4 then
    let word := v ⟨wordOf targetIndex, within⟩
    let flag := 1#32 <<< bitOf targetIndex
    some (s.freeze (Function.update v ⟨wordOf targetIndex, within⟩ (if val then word ||| flag else word &&& ~~~flag)))
  else none

def freezeTarget (targetHash : Hash) (val clearOthers : Bool) : Option Freezer :=
  s.freezeTargetIndex (s.pauseMgr.getTargetIndexByHash targetHash) val clearOthers

/-- `none` is a read at the null pointer. -/
def freezeRequest (requestHash : Hash) (val clearOthers : Bool) : Option Freezer :=
  (s.pauseMgr.getPauseRequestMask requestHash).map fun reqMask =>
    let v := s.stacked clearOthers
    s.freeze fun w => if val then v w ||| reqMask w else v w &&& ~~~(reqMask w)

def isPauseRequest (hash : Hash) : Option Bool :=
  (s.pauseMgr.getPauseRequestCount hash).map fun count => decide (0 < count)

def isPauseTarget (hash : Hash) : Option Bool := s.pauseMgr.isTargetPaused hash

end Freezer

inductive Call where
  | freezeTarget (targetHash : Hash) (val clearOthers : Bool)
  | freezeRequest (requestHash : Hash) (val clearOthers : Bool)

def Freezer.call (s : Freezer) : Call → Option Freezer
  | .freezeTarget targetHash val clearOthers => s.freezeTarget targetHash val clearOthers
  | .freezeRequest requestHash val clearOthers => s.freezeRequest requestHash val clearOthers

/-- One call after the other. -/
def Freezer.callAll (calls : List Call) (s : Freezer) : Option Freezer := calls.foldlM Freezer.call s

section Bits
variable {mask : Mask} {k : Fin 128}

def bitAt (mask : Mask) (k : Fin 128) : Bool := (mask ⟨k / 32, by omega⟩).getLsbD (k % 32)

/-- A target is paused by its bit. -/
def paused (mask : Mask) : Set (Fin 128) := {k | bitAt mask k = true}

theorem paused_injective : Function.Injective paused := by
  intro mask mask' same
  funext w
  apply BitVec.eq_of_getLsbD_eq
  intro i inside
  have bit := Set.ext_iff.mp same ⟨32 * w + i, by omega⟩
  have word : (32 * (w : Nat) + i) / 32 = w := by omega
  have place : (32 * (w : Nat) + i) % 32 = i := by omega
  simp only [paused, bitAt, Set.mem_ofPred_eq, word, place] at bit
  exact Bool.eq_iff_iff.mpr bit

theorem wordOf_eq (index : BitVec 8) : wordOf index = index.toNat / 32 := by
  revert index
  decide +kernel

theorem bitOf_eq (index : BitVec 8) : bitOf index = index.toNat % 32 := by
  revert index
  decide +kernel

end Bits

end LotusKit.Freeze
