import LotusKit.Lib.Bytes
import LotusKit.Server.SendQueue

/-! The headers of outgoing frames against the shortest ones that the protocol has. -/

namespace LotusKit.Server.SendFrame
open LotusKit.Lib.Bytes LotusKit.Lib.Memory

/-- The unmasked header of a text in one frame: the length in 7 bits, or in 16 or in 64 bits
behind a mark, in the first form that it fits. -/
def minimalHeader (n : Nat) : List UInt8 :=
  if n ≤ 125 then [0x81, UInt8.ofNat n]
  else if n ≤ 65535 then 0x81 :: 126 :: toBigEndian 2 n
  else 0x81 :: 127 :: toBigEndian 8 n

/-- The header for a payload of length `n` is the shortest one, and what is read from it is
the size of the frame. -/
def WellHeaded (n : Nat) : Prop :=
  let header := serializeHeader 0x81 (headerLenFromPayloadLen n) n
  header = minimalHeader n ∧
    ∀ frame, Holds frame ⟨0, header⟩ → getSerializedFrameSize frame = header.length + n

theorem length_serializeHeader (n : Nat) :
    (serializeHeader 0x81 (headerLenFromPayloadLen n) n).length = headerLenFromPayloadLen n := by
  unfold headerLenFromPayloadLen
  split
  · rfl
  · split
    · rfl
    · rfl

/-- Bytes count modulo 256. -/
theorem ofNat_congr {m n : Nat} (same : m % 0x100 = n % 0x100) : UInt8.ofNat m = UInt8.ofNat n := by
  apply UInt8.toNat_inj.mp
  rw [UInt8.toNat_ofNat', UInt8.toNat_ofNat']
  exact same

theorem serializeHeader_minimal {n : Nat} (other : n ≠ 65535) (small : n < 2 ^ 32) :
    serializeHeader 0x81 (headerLenFromPayloadLen n) n = minimalHeader n := by
  unfold headerLenFromPayloadLen minimalHeader
  by_cases short : n ≤ 125
  · rw [if_pos short, if_pos short]
    rfl
  · rw [if_neg short, if_neg short]
    by_cases medium : n < 65535
    · rw [if_pos medium, if_pos (Nat.le_of_lt medium)]
      have low : UInt8.ofNat (n % 0x100) = UInt8.ofNat n := ofNat_congr (by omega)
      simp only [serializeHeader, toBigEndian, low]
      rfl
    · rw [if_neg medium, if_neg (by omega)]
      have zero (m : Nat) (none_ : m = 0) : (0 : UInt8) = UInt8.ofNat m := by
        rw [none_]
        rfl
      have eight : toBigEndian 8 n = [0, 0, 0, 0, UInt8.ofNat (n / 2 ^ 24), UInt8.ofNat (n % 2 ^ 24 / 2 ^ 16),
          UInt8.ofNat (n % 2 ^ 16 / 2 ^ 8), UInt8.ofNat (n % 2 ^ 8)] := by
        simp only [toBigEndian, List.nil_append, List.cons_append, List.cons.injEq, and_true]
        refine ⟨(zero _ ?_).symm, (zero _ ?_).symm, (zero _ ?_).symm, (zero _ ?_).symm, ofNat_congr ?_,
          ofNat_congr ?_, ofNat_congr ?_, ofNat_congr ?_⟩
        all_goals omega
      rw [eight]
      rfl

/-- All lengths but 65535 get their shortest header, and 65535 gets the long form. -/
theorem wellHeaded_iff (n : Nat) (some_ : 1 ≤ n) (small : n < 2 ^ 31) : WellHeaded n ↔ n ≠ 65535 := by
  constructor
  · rintro ⟨minimal, -⟩ rfl
    have lengths := congrArg List.length minimal
    exact absurd lengths (by decide)
  · intro other
    refine ⟨serializeHeader_minimal other (by omega), fun frame holds => ?_⟩
    have most : headerLenFromPayloadLen n ≤ 10 := by
      unfold headerLenFromPayloadLen
      split
      · decide
      · split
        · decide
        · decide
    rw [length_serializeHeader]
    exact getSerializedFrameSize_header holds (by omega)

theorem wellHeaded_126 : WellHeaded 126 := (wellHeaded_iff 126 (by decide) (by decide)).mpr (by decide)

theorem not_wellHeaded_65535 : ¬WellHeaded 65535 := by
  rintro ⟨minimal, -⟩
  exact absurd (congrArg List.length minimal) (by decide)

end LotusKit.Server.SendFrame
