import LotusKit.Lib.Hex
import LotusKit.Syms.Address
import Mathlib.Data.Char
import Mathlib.Data.List.Induction
import Mathlib.Data.List.Lex
import Mathlib.Data.List.Sort
import Mathlib.Order.Defs.LinearOrder

/-! What the files of symbols declare, and the two files that are written of it for a version of
the game: lines of a table that is compiled in, and definitions for the linker. -/

namespace LotusKit.Syms
open LotusKit.Lib

inductive NSOModule where
  | RTLD | EXKING | MULTIMEDIA | LOTUSKIT | NNSDK
  deriving DecidableEq

namespace NSOModule

def ALL_MODULES : List NSOModule := [RTLD, EXKING, MULTIMEDIA, LOTUSKIT, NNSDK]

def exl_util_module_index : NSOModule → Str
  | RTLD => "util::ModuleIndex::Rtld".toList
  | EXKING => "util::ModuleIndex::Main".toList
  | MULTIMEDIA => "util::ModuleIndex::Subsdk0".toList
  | LOTUSKIT => "util::ModuleIndex::Subsdk9".toList
  | NNSDK => "util::ModuleIndex::Sdk".toList

/-- `none` is `MagicWords.SKIP`. -/
def module_start_sym : NSOModule → Option Str
  | RTLD => some "__rtld_start".toList
  | EXKING => some "__main_start".toList
  | MULTIMEDIA => some "__subsdk0_start".toList
  | LOTUSKIT => none
  | NNSDK => some "__sdk_start".toList

/-- `none` is `MagicWords.SKIP`. -/
def module_start_offset : NSOModule → Option (GameVersion → Nat)
  | EXKING => some fun
    | .TOTK_100 => 0x04d0f000
    | .TOTK_110 => 0x04dd6000
    | .TOTK_111 => 0x04dde000
    | .TOTK_112 => 0x04dd0000
    | .TOTK_120 => 0x04dc5000
    | .TOTK_121 => 0x04dd4000
  | _ => none

end NSOModule

structure RuntimeSymbol where
  unique_name : Str
  address : VersionedAddress

def RuntimeSymbol.is_mangled (sym : RuntimeSymbol) : Bool := "_Z".toList.isPrefixOf sym.unique_name

/-- A call of a module's class in a file of symbols. -/
structure Declaration where
  module : NSOModule
  unique_name : Str
  address : List (Key × Address)

/-- `sym_map` of each module. -/
abbrev SymMaps := NSOModule → Dict Str RuntimeSymbol

/-- `NSOModule.__new__` -/
def SymMaps.declare (maps : SymMaps) (d : Declaration) : Option SymMaps :=
  (VersionedAddress.from_pydsl d.address).map fun address =>
    Function.update maps d.module ((maps d.module).set d.unique_name ⟨d.unique_name, address⟩)

/-- `run_symbol_def_imports`, in whatever order the files are found. -/
def run_symbol_def_imports (declarations : List Declaration) : Option SymMaps :=
  declarations.foldlM SymMaps.declare fun _ => []

def SymMaps.postprocess (maps : SymMaps) : SymMaps := fun module =>
  (maps module).insertionSort fun a b => a.2.unique_name ≤ b.2.unique_name

/-- `f"{offset:#010x}"`, with more digits for longer offsets. -/
def offset_str (offset : Nat) : Str := if offset ≤ 0xffffffff then Hex.print 8 offset else Hex.print 16 offset

/-- `{ module_index, offset, "name" },` -/
structure HppLine where
  module_index : Str
  offset : Str
  name : Str
  deriving DecidableEq

inductive LdLine where
  /-- `name = value;` -/
  | constant (name value : Str)
  /-- `name = start + offset;` -/
  | symbol (name start offset : Str)
  deriving DecidableEq

section Build
variable (version : GameVersion) (do_export_nullptr : Bool)

/-- The offset that a symbol is written with, if it is not left out. -/
def RuntimeSymbol.exported (sym : RuntimeSymbol) : Option Nat :=
  match sym.address version with
  | .SKIP => none
  | .offset n => if n = 0 ∧ do_export_nullptr = false then none else some n

def hppLines (mod : NSOModule) (sym : RuntimeSymbol) : List HppLine :=
  match sym.exported version do_export_nullptr with
  | none => []
  | some offset => [⟨mod.exl_util_module_index, offset_str offset, sym.unique_name⟩]

def ldLines (start : Str) (sym : RuntimeSymbol) : List LdLine :=
  match sym.exported version do_export_nullptr with
  | none => []
  | some offset => if sym.is_mangled then [.symbol sym.unique_name start (offset_str offset)] else []

/-- Where the module is, if that is told. -/
def offsetLines (mod : NSOModule) (start : Str) : List LdLine :=
  match mod.module_start_offset with
  | some offset => [.constant (start ++ "_offset".toList) (Hex.print 0 (offset version))]
  | none => []

/-- `{ util::ModuleIndex::Main, 0x0, "__null_unused__" }` -/
def null_unused : HppLine := ⟨NSOModule.EXKING.exl_util_module_index, "0x0".toList, "__null_unused__".toList⟩

def build_gameversion_syms (maps : SymMaps) : List HppLine × List LdLine :=
  let modules := NSOModule.ALL_MODULES.filter fun mod => mod.module_start_sym.isSome
  (modules.flatMap (fun mod => (maps mod).flatMap fun entry => hppLines version do_export_nullptr mod entry.2) ++ [null_unused],
    .constant "__game_version".toList (Nat.toDigits 10 version.number) :: modules.flatMap fun mod =>
      let start := mod.module_start_sym.getD []
      offsetLines version mod start ++ (maps mod).flatMap fun entry => ldLines version do_export_nullptr start entry.2)

end Build

section Order
variable {maps maps' : SymMaps} {declarations declarations' : List Declaration}

/-- The address that is declared last for a name, in a module. -/
def declared (declarations : List Declaration) (mod : NSOModule) (name : Str) : Option VersionedAddress :=
  (declarations.reverse.find? fun d => d.module = mod ∧ d.unique_name = name).bind
    fun d => VersionedAddress.from_pydsl d.address

/-- The entries of a module are filed under their names, and no name comes twice. -/
structure Filed (maps : SymMaps) : Prop where
  nodup : ∀ mod, ((maps mod).map Prod.fst).Nodup
  named : ∀ mod, ∀ entry ∈ maps mod, entry.2.unique_name = entry.1

theorem declared_concat (d : Declaration) (mod : NSOModule) (name : Str) :
    declared (declarations ++ [d]) mod name =
      if d.module = mod ∧ d.unique_name = name then VersionedAddress.from_pydsl d.address
      else declared declarations mod name := by
  unfold declared
  rw [List.reverse_append, List.reverse_singleton, List.singleton_append, List.find?_cons]
  split_ifs with same
  · simp only [same, and_self, decide_true, Option.bind_some]
  · simp only [same, decide_false]

/-- What has been declared is filed, with the last address of each name. -/
theorem imports_spec (loads : run_symbol_def_imports declarations = some maps) : Filed maps ∧
    ∀ mod name, (maps mod).get name = (declared declarations mod name).map fun address => ⟨name, address⟩ := by
  induction declarations using List.reverseRecOn generalizing maps with
  | nil =>
    obtain rfl := Option.some.inj loads
    exact ⟨⟨fun _ => List.nodup_nil, fun _ _ none_ => absurd none_ List.not_mem_nil⟩, fun _ _ => rfl⟩
  | append_singleton declarations d ih =>
    rw [run_symbol_def_imports, List.foldlM_append] at loads
    obtain ⟨before, loadsBefore, declares⟩ := Option.bind_eq_some_iff.mp loads
    obtain ⟨filed, got⟩ := ih loadsBefore
    have declares' : before.declare d = some maps := by simpa using declares
    obtain ⟨address, parsed, rfl⟩ := Option.map_eq_some_iff.mp declares'
    have got' (mod : NSOModule) (name : Str) : Dict.get (Function.update before d.module
        ((before d.module).set d.unique_name ⟨d.unique_name, address⟩) mod) name =
          (declared (declarations ++ [d]) mod name).map fun address => ⟨name, address⟩ := by
      rw [declared_concat]
      by_cases own : d.module = mod
      · subst own
        rw [Function.update_self, Dict.get_set]
        by_cases same : name = d.unique_name
        · subst same
          rw [if_pos rfl, if_pos ⟨rfl, rfl⟩, parsed, Option.map_some]
        · rw [if_neg same, if_neg fun both => same both.2.symm, got]
      · rw [Function.update_of_ne (Ne.symm own), if_neg fun both => own both.1, got]
    have nodup (mod : NSOModule) : ((Function.update before d.module
        ((before d.module).set d.unique_name ⟨d.unique_name, address⟩) mod).map Prod.fst).Nodup := by
      by_cases own : d.module = mod
      · subst own
        rw [Function.update_self]
        exact Dict.nodup_set _ _ _ (filed.nodup d.module)
      · rw [Function.update_of_ne (Ne.symm own)]
        exact filed.nodup mod
    refine ⟨⟨nodup, fun mod entry member => ?_⟩, got'⟩
    have found := (Dict.get_eq_some (nodup mod)).mpr member
    rw [got'] at found
    obtain ⟨address', -, same⟩ := Option.map_eq_some_iff.mp found
    rw [← same]

/-- Maps of the same content are sorted into the same maps. -/
theorem postprocess_eq (filed : Filed maps) (filed' : Filed maps')
    (same : ∀ mod name, (maps mod).get name = (maps' mod).get name) : maps.postprocess = maps'.postprocess := by
  funext mod
  have perm := Dict.perm_of_get (filed.nodup mod) (filed'.nodup mod) (same mod)
  refine List.Perm.eq_of_pairwise (fun a b here there le ge => ?_) (List.pairwise_insertionSort _ _)
    (List.pairwise_insertionSort _ _) ((List.perm_insertionSort _ _).trans (perm.trans (List.perm_insertionSort _ _).symm))
  -- two entries of one name are one entry
  have memberA := (List.perm_insertionSort _ _).mem_iff.mp here
  have memberB := perm.mem_iff.mpr ((List.perm_insertionSort _ _).mem_iff.mp there)
  have name : a.1 = b.1 := by rw [← filed.named mod a memberA, ← filed.named mod b memberB, le_antisymm le ge]
  have found := Dict.get_of_mem (filed.nodup mod) memberA
  rw [name, Dict.get_of_mem (filed.nodup mod) memberB] at found
  exact Prod.ext name (Option.some.inj found).symm

theorem isSome_imports (declarations : List Declaration) (maps : SymMaps) :
    (declarations.foldlM SymMaps.declare maps).isSome ↔ ∀ d ∈ declarations, (VersionedAddress.from_pydsl d.address).isSome := by
  induction declarations generalizing maps with
  | nil => simp
  | cons d declarations ih =>
    rw [List.foldlM_cons, List.forall_mem_cons]
    cases parsed : VersionedAddress.from_pydsl d.address with
    | none => simp [SymMaps.declare, parsed]
    | some address =>
      simp only [SymMaps.declare, parsed, Option.map_some, Option.isSome_some, true_and]
      exact ih _

/-- The declarations by what they declare. -/
def byName (declarations : List Declaration) : Dict (NSOModule × Str) (Option VersionedAddress) :=
  declarations.map fun d => ((d.module, d.unique_name), VersionedAddress.from_pydsl d.address)

theorem declared_eq (mod : NSOModule) (name : Str) :
    declared declarations mod name = ((byName declarations.reverse).get (mod, name)).bind id := by
  unfold declared byName Dict.get
  rw [List.find?_map, Option.map_map]
  simp only [Function.comp_def, Prod.mk.injEq]
  cases declarations.reverse.find? fun d => d.module = mod ∧ d.unique_name = name with
  | none => rfl
  | some d => rfl

/-- The files that are written do not depend on the order in which the files of symbols are found,
if no module has two symbols of one name. -/
theorem build_perm (perm : declarations'.Perm declarations)
    (apart : (declarations.map fun d => (d.module, d.unique_name)).Nodup) (version : GameVersion) (do_export_nullptr : Bool) :
    (run_symbol_def_imports declarations').map (fun maps => build_gameversion_syms version do_export_nullptr maps.postprocess) =
      (run_symbol_def_imports declarations).map fun maps => build_gameversion_syms version do_export_nullptr maps.postprocess := by
  have both : (run_symbol_def_imports declarations').isSome ↔ (run_symbol_def_imports declarations).isSome := by
    unfold run_symbol_def_imports
    rw [isSome_imports, isSome_imports]
    exact forall_congr' fun d => imp_congr_left perm.mem_iff
  cases loads : run_symbol_def_imports declarations with
  | none =>
    rw [loads, Option.isSome_none, Bool.false_eq_true, iff_false, Option.not_isSome_iff_eq_none] at both
    rw [both]
  | some maps =>
    obtain ⟨maps', loads'⟩ := Option.isSome_iff_exists.mp (both.mpr (loads ▸ rfl))
    obtain ⟨filed, got⟩ := imports_spec loads
    obtain ⟨filed', got'⟩ := imports_spec loads'
    have same : maps'.postprocess = maps.postprocess := by
      refine postprocess_eq filed' filed fun mod name => ?_
      have keys : ((byName declarations'.reverse).map Prod.fst).Nodup := by
        rw [byName, List.map_map]
        exact (((List.reverse_perm declarations').trans perm).map _).nodup_iff.mpr apart
      have order : (byName declarations'.reverse).Perm (byName declarations.reverse) :=
        ((List.reverse_perm declarations').trans (perm.trans (List.reverse_perm declarations).symm)).map _
      rw [got, got', declared_eq, declared_eq, Dict.get_perm keys order]
    rw [loads', Option.map_some, same, Option.map_some]

/-- Two symbols of one module. -/
def two : List Declaration :=
  [⟨.EXKING, "_ZN4sead7HeapMgr6sArenaE".toList, [(.int 100, .offset 0x0463bde8), (.int 121, .offset 0x04716be8)]⟩,
    ⟨.EXKING, "ares::System::initialize".toList, [(ALL, .offset 0x011258ac)]⟩]

theorem build_two : (run_symbol_def_imports two.reverse).map (fun maps => build_gameversion_syms .TOTK_121 true maps.postprocess) =
    (run_symbol_def_imports two).map fun maps => build_gameversion_syms .TOTK_121 true maps.postprocess :=
  build_perm (List.reverse_perm two) (by decide) .TOTK_121 true

end Order

end LotusKit.Syms
