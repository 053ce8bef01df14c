import LotusKit.Patch.Revert
import LotusKit.Patch.Install
import Mathlib.Data.List.Nodup

/-! The fixed frame rate of `fps.cpp`: two patchsets for the same code, and one of them is reverted
for both. What the assembler makes of an instruction is a parameter. -/

namespace LotusKit.Patch
open LotusKit.Lib.Bytes

/-- `fixedFPS`, and code memory. -/
structure Fps where
  fixedFPS : UInt8
  mem : CodeMem

section Source
variable (set : String → Patchset) (vanilla : CodeMem)

def fixedFPS_set (v : UInt8) (s : Fps) : Fps :=
  if v = 0 ∧ s.fixedFPS ≠ 0 then ⟨v, patchRevert set vanilla "lotuskit-fixed-30fps" s.mem⟩
  else if v = 20 ∧ s.fixedFPS ≠ 20 then ⟨v, patchInstall set "lotuskit-fixed-20fps" s.mem⟩
  else if v = 30 ∧ s.fixedFPS ≠ 30 then ⟨v, patchInstall set "lotuskit-fixed-30fps" s.mem⟩
  else s

/-- After calls with these values, from the start of the program on. -/
def afterFixedFPS (values : List UInt8) : Fps :=
  values.foldl (fun s v => fixedFPS_set set vanilla v s) ⟨0, vanilla⟩

end Source

/-- A dictionary of single instructions. -/
structure Instructions (patches : PatchRecords) : Prop where
  distinct : patches.Pairwise fun p q => p.1 ≠ q.1
  aligned : ∀ patch ∈ patches, patch.1 % 4 = 0
  inModule : ∀ patch ∈ patches, patch.1 + 0x100 < 2 ^ 31
  one : ∀ patch ∈ patches, patch.2.length = 4

namespace Instructions
variable {patches : PatchRecords}

theorem writable (instructions : Instructions patches) : ∀ patch ∈ patches, Writable patch := by
  intro patch member
  have aligned := instructions.aligned patch member
  have one := instructions.one patch member
  refine ⟨instructions.inModule patch member, fun ends => ?_, by omega⟩
  -- the field that would end the file is no aligned one
  obtain ⟨⟨low, high⟩, field⟩ := structPack_eq_some.mp ends
  have value := congrArg bigEndian field
  rw [bigEndian_toBigEndian (by omega)] at value
  have eeof : bigEndian EEOF = 0x45454F46 := by decide
  omega

theorem apart (instructions : Instructions patches) : patches.Pairwise Apart := by
  apply List.Pairwise.imp_of_mem _ instructions.distinct
  intro p q first second differ
  have alignedP := instructions.aligned p first
  have alignedQ := instructions.aligned q second
  have oneP := instructions.one p first
  have oneQ := instructions.one q second
  unfold Apart
  omega

theorem installed (instructions : Instructions patches) {file : File} (written : write_ips patches = some file)
    (mem : CodeMem) : Installed patches mem (applyPatchImpl (some file) mem) := by
  apply (installed_iff instructions.writable instructions.apart written).mpr
  intro patch member
  have one := instructions.one patch member
  constructor
  · rw [one, Nat.sub_self, List.drop_zero, ← one, List.take_length]
  · intro j above below
    omega

end Instructions

/-- An address in one of the instructions. -/
def InPatches (patches : PatchRecords) (x : Int) : Prop := ∃ patch ∈ patches, patch.1 ≤ x ∧ x < patch.1 + 4

/-- The two patchsets as they are built: single instructions, at the same offsets. -/
structure SameOffsets (set : String → Patchset) (patches20 patches30 : PatchRecords) : Prop where
  written20 : write_ips patches20 = some (set "lotuskit-fixed-20fps").ips
  written30 : write_ips patches30 = some (set "lotuskit-fixed-30fps").ips
  instructions20 : Instructions patches20
  instructions30 : Instructions patches30
  same : ∀ offset, offset ∈ patches20.map Prod.fst ↔ offset ∈ patches30.map Prod.fst

/-- What code memory holds at the offsets, and that it is vanilla everywhere else. -/
structure InStep (patches20 patches30 : PatchRecords) (vanilla : CodeMem) (s : Fps) : Prop where
  known : s.fixedFPS = 0 ∨ s.fixedFPS = 20 ∨ s.fixedFPS = 30
  zero : s.fixedFPS = 0 → ∀ x, InPatches patches30 x → s.mem x = vanilla x
  twenty : s.fixedFPS = 20 → ∀ patch ∈ patches20, codeAt s.mem patch.1 4 = patch.2
  thirty : s.fixedFPS = 30 → ∀ patch ∈ patches30, codeAt s.mem patch.1 4 = patch.2
  outside : ∀ x, ¬InPatches patches30 x → s.mem x = vanilla x

section InStep
variable {set : String → Patchset} {patches patches20 patches30 : PatchRecords} {vanilla : CodeMem} {s : Fps}

/-- A patchset that installs an instruction covers it: it would write it over anything else. -/
theorem covers_of_installed {name : String} (installs : ∀ mem, Installed patches mem (patchInstall set name mem))
    (one : ∀ patch ∈ patches, patch.2.length = 4) {x : Int} (within : InPatches patches x) :
    Covers (set name).ips x := by
  obtain ⟨patch, member, above, below⟩ := within
  by_contra outside
  have written (mem : CodeMem) : some (mem x) = patch.2[(x - patch.1).toNat]? := by
    have code := (installs mem).record patch member
    have same : patchInstall set name mem x = mem x := patchInstall_outside outside
    have index : (x - patch.1).toNat < patch.2.length := by
      rw [one patch member]
      omega
    have there := getElem?_codeAt (patchInstall set name mem) patch.1 index
    have place : patch.1 + ((x - patch.1).toNat : Int) = x := by omega
    rw [code, place, same] at there
    exact there.symm
  have zero := written fun _ => 0
  have one_ := written fun _ => 1
  exact absurd (Option.some.inj (zero.trans one_.symm)) (by decide)

theorem SameOffsets.inPatches (same : SameOffsets set patches20 patches30) {x : Int} :
    InPatches patches20 x ↔ InPatches patches30 x := by
  constructor
  · rintro ⟨patch, member, within⟩
    obtain ⟨other, found, offset⟩ := List.mem_map.mp ((same.same patch.1).mp (List.mem_map_of_mem member))
    exact ⟨other, found, offset ▸ within⟩
  · rintro ⟨patch, member, within⟩
    obtain ⟨other, found, offset⟩ := List.mem_map.mp ((same.same patch.1).mpr (List.mem_map_of_mem member))
    exact ⟨other, found, offset ▸ within⟩

theorem Installed.outside_of {before after : CodeMem} (installed : Installed patches before after)
    (instructions : Instructions patches) {x : Int} (outside : ¬InPatches patches x) : after x = before x := by
  apply installed.outside x
  intro patch member within
  rw [instructions.one patch member] at within
  exact outside ⟨patch, member, within⟩

theorem Installed.code {before after : CodeMem} (installed : Installed patches before after)
    (instructions : Instructions patches) : ∀ patch ∈ patches, codeAt after patch.1 4 = patch.2 := by
  intro patch member
  rw [← instructions.one patch member]
  exact installed.record patch member

/-- The revert file of one patchset takes back both. -/
theorem InStep.revert (same : SameOffsets set patches20 patches30) (inStep : InStep patches20 patches30 vanilla s) :
    patchRevert set vanilla "lotuskit-fixed-30fps" s.mem = vanilla := by
  funext x
  have reverts := @patchRevert_eq s.mem _ set vanilla "lotuskit-fixed-30fps" x
  by_cases covers : Covers (set "lotuskit-fixed-30fps").ips x
  · exact reverts.1 covers
  · rw [reverts.2 covers]
    apply inStep.outside
    intro within
    apply covers
    exact covers_of_installed (fun mem => same.instructions30.installed same.written30 mem)
      same.instructions30.one within

theorem InStep.step (same : SameOffsets set patches20 patches30) (inStep : InStep patches20 patches30 vanilla s)
    (v : UInt8) : InStep patches20 patches30 vanilla (fixedFPS_set set vanilla v s) := by
  unfold fixedFPS_set
  split
  next zero =>
    obtain ⟨rfl, -⟩ := zero
    rw [inStep.revert same]
    exact ⟨.inl rfl, fun _ _ _ => rfl, nofun, nofun, fun _ _ => rfl⟩
  next =>
    split
    next twenty =>
      obtain ⟨rfl, -⟩ := twenty
      have installed := same.instructions20.installed same.written20 s.mem
      refine ⟨.inr (.inl rfl), nofun, fun _ => installed.code same.instructions20, nofun, fun x outside => ?_⟩
      rw [← inStep.outside x outside]
      exact installed.outside_of same.instructions20 (same.inPatches.not.mpr outside)
    next =>
      split
      next thirty =>
        obtain ⟨rfl, -⟩ := thirty
        have installed := same.instructions30.installed same.written30 s.mem
        refine ⟨.inr (.inr rfl), nofun, nofun, fun _ => installed.code same.instructions30, fun x outside => ?_⟩
        rw [← inStep.outside x outside]
        exact installed.outside_of same.instructions30 outside
      next => exact inStep

/-- Whatever values the frame rate is fixed to, code memory follows. -/
theorem fixedFPS_inStep (same : SameOffsets set patches20 patches30) (vanilla : CodeMem) (values : List UInt8) :
    InStep patches20 patches30 vanilla (afterFixedFPS set vanilla values) := by
  induction values using List.reverseRecOn with
  | nil => exact ⟨.inl rfl, fun _ _ _ => rfl, nofun, nofun, fun _ _ => rfl⟩
  | append_singleton values v ih =>
    rw [afterFixedFPS, List.foldl_append, List.foldl_cons, List.foldl_nil, ← afterFixedFPS]
    exact ih.step same v

end InStep

section Builds

/-- The builds that there are patchsets for. -/
inductive BuildId where
  | TOTK_100 | TOTK_110 | TOTK_121

def NOP : List UInt8 := [0x1f, 0x20, 0x03, 0xd5]

/-- Where the patched code starts. -/
def BuildId.offset : BuildId → Int
  | TOTK_100 => 0x02a7b654
  | TOTK_110 => 0x02af47c4
  | TOTK_121 => 0x02aed814

variable (asm : String → List UInt8) (build : BuildId)

/-- `lotuskit-fixed-20fps` -/
def fixed20fps : PatchRecords :=
  [(build.offset, asm "mov x8,#0x100000"), (build.offset + 4, asm "str x8, [x19, #0x118]"),
    (build.offset + 8, NOP), (build.offset + 12, NOP), (build.offset + 16, NOP)]

/-- `lotuskit-fixed-30fps` -/
def fixed30fps : PatchRecords :=
  [(build.offset, asm "mov x8, #0x1"), (build.offset + 4, asm "str x8, [x19, #0x118]"),
    (build.offset + 8, NOP), (build.offset + 12, NOP), (build.offset + 16, NOP)]

variable {asm}

theorem BuildId.offset_bounds : build.offset % 4 = 0 ∧ build.offset + 0x200 < 2 ^ 31 := by
  cases build <;> decide

/-- Five instructions, one behind the other. -/
theorem instructions_five {first second : List UInt8} (one : first.length = 4) (two : second.length = 4) :
    Instructions [(build.offset, first), (build.offset + 4, second), (build.offset + 8, NOP),
      (build.offset + 12, NOP), (build.offset + 16, NOP)] := by
  obtain ⟨aligned, inModule⟩ := build.offset_bounds
  constructor
  · simp only [List.pairwise_cons, List.mem_cons, List.not_mem_nil, or_false, forall_eq_or_imp, forall_eq,
      false_imp_iff, implies_true, List.Pairwise.nil, and_true]
    omega
  · simp only [List.mem_cons, List.not_mem_nil, or_false, forall_eq_or_imp, forall_eq]
    omega
  · simp only [List.mem_cons, List.not_mem_nil, or_false, forall_eq_or_imp, forall_eq]
    omega
  · simp only [List.mem_cons, List.not_mem_nil, or_false, forall_eq_or_imp, forall_eq]
    exact ⟨one, two, rfl, rfl, rfl⟩

/-- The patchsets of every build are for the same offsets. -/
theorem sameOffsets_build {set : String → Patchset} (four : ∀ inst ∈ ["mov x8,#0x100000", "mov x8, #0x1",
      "str x8, [x19, #0x118]"], (asm inst).length = 4)
    (written20 : write_ips (fixed20fps asm build) = some (set "lotuskit-fixed-20fps").ips)
    (written30 : write_ips (fixed30fps asm build) = some (set "lotuskit-fixed-30fps").ips) :
    SameOffsets set (fixed20fps asm build) (fixed30fps asm build) where
  written20 := written20
  written30 := written30
  instructions20 := instructions_five build (four _ (by simp)) (four _ (by simp))
  instructions30 := instructions_five build (four _ (by simp)) (four _ (by simp))
  same offset := Iff.rfl

def encoded (inst : String) : List UInt8 :=
  if inst = "mov x8,#0x100000" then [0x08, 0x02, 0xa0, 0xd2]
  else if inst = "mov x8, #0x1" then [0x28, 0x00, 0x80, 0xd2]
  else [0x68, 0x8e, 0x00, 0xf9]

def built (patchsetName : String) : PatchRecords :=
  if patchsetName = "lotuskit-fixed-20fps" then fixed20fps encoded .TOTK_121 else fixed30fps encoded .TOTK_121

/-- The files as they are written for one of the builds. -/
def fpsPatchset (patchsetName : String) : Patchset where
  ips := (write_ips (built patchsetName)).getD []
  accepted := by
    unfold built
    split
    · unfold Accepted
      decide
    · unfold Accepted
      decide
  oldRips := none
  fill _ := 0

theorem inStep_totk_121 : InStep (fixed20fps encoded .TOTK_121) (fixed30fps encoded .TOTK_121) (fun _ => 0)
    (afterFixedFPS fpsPatchset (fun _ => 0) [20, 30, 7, 0]) :=
  fixedFPS_inStep (sameOffsets_build .TOTK_121 (by decide) (by decide) (by decide)) (fun _ => 0) [20, 30, 7, 0]

end Builds

end LotusKit.Patch
