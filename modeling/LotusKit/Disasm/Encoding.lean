import LotusKit.Lib.Dict
import Mathlib.Data.List.Basic
import Mathlib.Data.Finset.Dedup
import Mathlib.Data.Finset.SDiff
import Mathlib.Data.Finset.Insert
import Mathlib.Algebra.Group.Nat.Defs

/-! The generator of the disassembler: a table of encodings, one a line, is written as C++. -/

namespace LotusKit.Disasm
open LotusKit.Lib

/-- A Python string. -/
abbrev Str := List Char

/-- `text.split(sep)`, where `skip` characters of a separator are still to come. -/
def splitFrom (sep : Str) : (part : Str) → (skip : Nat) → Str → List Str
  | part, _, [] => [part.reverse]
  | part, skip + 1, _ :: rest => splitFrom sep part skip rest
  | part, 0, c :: rest =>
    if sep.isPrefixOf (c :: rest) then part.reverse :: splitFrom sep [] (sep.length - 1) rest
    else splitFrom sep (c :: part) 0 rest

def split (text sep : Str) : List Str := splitFrom sep [] 0 text

structure Encoding where
  src_line : Str
  /-- 32 chars representing inst bits from left side -/
  bits_str : Str
  /-- mnemonic tokens from right side -/
  mnm_parts : List Str
  bits_argkeys : Finset Char
  bits_sum_per_argkey : Dict Char Nat

namespace Encoding

def MNM_OUT_MAX_SIZE : Nat := 64

/-- `d[k]` of a `defaultdict(int)` -/
def count (d : Dict Char Nat) (k : Char) : Nat := (d.get k).getD 0

def increase (d : Dict Char Nat) (k : Char) (n : Nat) : Dict Char Nat := (d.setDefault k 0).modify k (· + n)

/-- `bits_str[-1]`, `bits_str[-2]` and so on, with what is counted so far; `none` is an `IndexError`. -/
def sumFrom (bits_str : Str) : List Nat → (out char_exp : Dict Char Nat) → Option (Dict Char Nat)
  | [], out, _ => some out
  | i :: rest, out, char_exp => do
    let char ← bits_str.reverse[i]?
    if char = '0' ∨ char = '1' then sumFrom bits_str rest out char_exp
    else sumFrom bits_str rest (increase out char (2 ^ count char_exp char)) (increase char_exp char 1)

def _bits_sum_per_argkey (bits_str : Str) : Option (Dict Char Nat) := sumFrom bits_str (List.range 32) [] []

/-- `Encoding(src_line)`; `none` is an `IndexError`. -/
def ofLine (src_line : Str) : Option Encoding := do
  let parts := split src_line "  -  ".toList
  let left ← parts[0]?
  let right ← parts[1]?
  let bits_str := left.filter (· ≠ ' ')
  let sums ← _bits_sum_per_argkey bits_str
  some ⟨src_line, bits_str, right.splitOn ' ', bits_str.toFinset \ {'0', '1'}, sums⟩

variable (e : Encoding)

/-- `2 ** i` for each column that is `c`, where the column on the right is the lowest bit. -/
def columns (c : Char) : Nat :=
  (List.range 32).foldl (fun out i => out + if e.bits_str.reverse[i]? = some c then 2 ^ i else 0) 0

def u32_always : Nat := e.columns '1'

def u32_never : Nat := e.columns '0'

def cpp_is_match (identifier : Str) : Str :=
  "((".toList ++ identifier ++ " & ".toList ++ Nat.toDigits 10 e.u32_always ++ ") == ".toList ++
    Nat.toDigits 10 e.u32_always ++ " && (~".toList ++ identifier ++ " & ".toList ++ Nat.toDigits 10 e.u32_never ++
    ") == ".toList ++ Nat.toDigits 10 e.u32_never ++ ")".toList

/-- `mnm_trash` -/
def mnm : Str :=
  let first := (e.mnm_parts[0]?).getD []
  first ++ List.replicate (7 - first.length) ' ' ++ ' ' :: ", ".toList.intercalate (e.mnm_parts.drop 1)

def cppBlock : Str :=
  "        if (".toList ++ e.cpp_is_match "inst".toList ++ ") \x7b // ".toList ++ e.mnm ++
    "\n            strcpy(output, \"".toList ++ e.mnm ++ "\");\n            return;\n        \x7d\n".toList

end Encoding

def cppFront : Str :=
  "#include \"util/disasm.hpp\"\nnamespace lotuskit::util::disasm \x7b\n".toList ++
    "    size_t MNM_OUT_MAX_SIZE = ".toList ++ Nat.toDigits 10 Encoding.MNM_OUT_MAX_SIZE ++ ";\n".toList ++
    "    void u32_to_str_mnemonic(u32 inst, char* output) \x7b\n".toList ++
    "        //if (inst == 0) \x7b output[0] = 0; return; \x7d // dont draw anything for null space\n".toList

def cppBack : Str :=
  "        strcpy(output, \"???\"); // cannot decode\n    \x7d\n\x7d // ns\n".toList

/-- What is written to the file. -/
def cpp_gen_out (encodings : List Encoding) : Str := cppFront ++ encodings.flatMap Encoding.cppBlock ++ cppBack

/-- The whole script: `none` is an `IndexError`. -/
def generate (lines : List Str) : Option Str := (lines.mapM Encoding.ofLine).map cpp_gen_out

end LotusKit.Disasm
