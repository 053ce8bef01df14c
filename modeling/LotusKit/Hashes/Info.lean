import LotusKit.Lib.Dict
import Mathlib.Data.Finset.Insert
import LotusKit.Lib.Scan

/-! Hashes of game data and what is known of each: its key, its types, and the structs that it
is a member of. -/

namespace LotusKit.Hashes
open LotusKit.Lib

/-- A Python string. -/
abbrev Str := List Char

section Murmur

def fmix (h : Nat) : Nat :=
  let h := h ^^^ (h >>> 16)
  let h := (h * 0x85ebca6b) &&& 0xFFFFFFFF
  let h := h ^^^ (h >>> 13)
  let h := (h * 0xc2b2ae35) &&& 0xFFFFFFFF
  h ^^^ (h >>> 16)

/-- What is made of `k1` before it is mixed in. -/
def scramble (k1 : Nat) : Nat :=
  let k1 := (0xcc9e2d51 * k1) &&& 0xFFFFFFFF
  let k1 := (k1 <<< 15 ||| k1 >>> 17) &&& 0xFFFFFFFF
  (0x1b873593 * k1) &&& 0xFFFFFFFF

/-- The blocks of four bytes; what is left over is the tail. -/
def murmurBody (h1 : Nat) : List Nat → Nat × List Nat
  | b0 :: b1 :: b2 :: b3 :: rest =>
    let h1 := h1 ^^^ scramble (b3 <<< 24 ||| b2 <<< 16 ||| b1 <<< 8 ||| b0)
    let h1 := (h1 <<< 13 ||| h1 >>> 19) &&& 0xFFFFFFFF
    murmurBody ((h1 * 5 + 0xe6546b64) &&& 0xFFFFFFFF) rest
  | tail => (h1, tail)

def murmurTail (h1 : Nat) : List Nat → Nat
  | [b0, b1, b2] => h1 ^^^ scramble (b2 <<< 16 ^^^ b1 <<< 8 ^^^ b0)
  | [b0, b1] => h1 ^^^ scramble (b1 <<< 8 ^^^ b0)
  | [b0] => h1 ^^^ scramble b0
  | _ => h1

/-- With the seed `0x0`. -/
def murmur32 (key : Str) : Nat :=
  let bytes := key.flatMap fun c => (String.utf8EncodeChar c).map UInt8.toNat
  let (h1, tail) := murmurBody 0 bytes
  fmix (murmurTail h1 tail ^^^ bytes.length)

end Murmur

def HASH_TYPES : List Str :=
  ["Enum", "EnumArray", "Struct", "StructArray", "Binary", "BinaryArray", "Bool", "BoolArray", "Bool64bitKey", "BoolExp",
    "SaveTypeHash", "Int", "IntArray", "Int64", "Int64Array", "UInt", "UIntArray", "UInt64", "UInt64Array", "Float",
    "FloatArray", "Vector2", "Vector2Array", "Vector3", "Vector3Array", "Vector3f", "StringArray", "String16",
    "String16Array", "String32", "String32Array", "String64", "String64Array", "WString16", "WString16Array",
    "WString32", "WString32Array", "WString64", "WString64Array"].map String.toList

structure GameDataHashInfo where
  hash : Int
  key : Option Str
  /-- `None` is added for a line in front of the first type. -/
  types : Finset (Option Str)
  comment : Str
  struct_members : Finset Int
  struct_owners : Finset Int

/-- `global_hashinfo` -/
abbrev HashInfos := Dict Int GameDataHashInfo

namespace HashInfos
variable (t : HashInfos)

/-- A new entry for the hash, where there is none. -/
def create (hash : Int) (key : Option Str) : HashInfos := t.setDefault hash ⟨hash, key, ∅, [], ∅, ∅⟩

/-- The hash of the entry, and the table with it. `none` is a failed assertion. -/
def get_or_create (hash : Option Int) (key : Option Str) : Option (Int × HashInfos) :=
  match hash, key with
  | some hash, some key => if (murmur32 key : Int) = hash then some (hash, create t hash (some key)) else none
  | none, some key => some (murmur32 key, create t (murmur32 key) (some key))
  | some hash, none => some (hash, create t hash none)
  | none, none => none

/-- `set_key` of the entry of the hash. -/
def set_key (hash : Int) (key : Str) : Option HashInfos :=
  if (murmur32 key : Int) = hash then some (t.modify hash fun entry => { entry with key := some key }) else none

def add_type (hash : Int) (typename : Option Str) : HashInfos :=
  t.modify hash fun entry => { entry with types := insert typename entry.types }

def add_member (hash member : Int) : HashInfos :=
  t.modify hash fun entry => { entry with struct_members := insert member entry.struct_members }

def add_owner (hash owner : Int) : HashInfos :=
  t.modify hash fun entry => { entry with struct_owners := insert owner entry.struct_owners }

/-- `if typename and seg == segments[-1]` -/
def type_segment (typename : Option Str) (last : Option Str) (seg : Str) (member_entry : Int) : HashInfos :=
  match typename with
  | some name => if name ≠ [] ∧ some seg = last then add_type t member_entry typename else t
  | none => t

/-- One round over the segments, of which `before` stand in front. -/
def ingest_segment (typename : Option Str) (last : Option Str) (before : List Str) (seg : Str) : Option HashInfos := do
  let (member_entry, t) ← get_or_create t none (some seg)
  let t := type_segment t typename last seg member_entry
  let containing_key := ['.'].intercalate before
  if containing_key = [] then
    return t
  else
    let (containing_entry, t) ← get_or_create t none (some containing_key)
    let t := add_type t containing_entry (some "Struct".toList)
    let t := add_member t containing_entry member_entry
    return add_owner t member_entry containing_entry

def ingest_segments (typename : Option Str) (last : Option Str) : List Str → List Str → HashInfos → Option HashInfos
  | _, [], t => some t
  | before, seg :: rest, t => do
    let t ← ingest_segment t typename last before seg
    ingest_segments typename last (before ++ [seg]) rest t

/-- `if typename`: an empty type name counts as none. -/
def type_dotted_key (dotted_key : Str) (typename : Option Str) : Option HashInfos :=
  match typename with
  | none => some t
  | some name =>
    if name = [] then some t
    else if name ∈ HASH_TYPES then do
      let (entry, t) ← get_or_create t none (some dotted_key)
      return add_type t entry typename
    else none

def ingest_dotted_key (dotted_key : Str) (typename : Option Str) : Option HashInfos := do
  let t ← type_dotted_key t dotted_key typename
  if '.' ∈ dotted_key then
    let segments := dotted_key.splitOn '.'
    ingest_segments typename segments.getLast? [] segments t
  else return t

end HashInfos

end LotusKit.Hashes
