import LotusKit.Lib.SortedTable
import LotusKit.Syms.Build
import LotusKit.Syms.Murmur3
import Mathlib.Data.List.Chain

/-! The table as it is compiled in, and the lookup of a symbol's name while the game runs. Of a
name, the table has the hash only, and of an offset the lower 28 bits. -/

namespace LotusKit.Syms
open LotusKit.Lib LotusKit.Lib.SortedTable

inductive ModuleIndex where
  | Rtld | Main | Subsdk0 | Subsdk1 | Subsdk2 | Subsdk3 | Subsdk4 | Subsdk5 | Subsdk6 | Subsdk7 | Subsdk8 | Subsdk9 | Sdk
  deriving DecidableEq

namespace ModuleIndex

/-- The enumerator as it is written. -/
def text : ModuleIndex → Str
  | Rtld => "util::ModuleIndex::Rtld".toList
  | Main => "util::ModuleIndex::Main".toList
  | Subsdk0 => "util::ModuleIndex::Subsdk0".toList
  | Subsdk1 => "util::ModuleIndex::Subsdk1".toList
  | Subsdk2 => "util::ModuleIndex::Subsdk2".toList
  | Subsdk3 => "util::ModuleIndex::Subsdk3".toList
  | Subsdk4 => "util::ModuleIndex::Subsdk4".toList
  | Subsdk5 => "util::ModuleIndex::Subsdk5".toList
  | Subsdk6 => "util::ModuleIndex::Subsdk6".toList
  | Subsdk7 => "util::ModuleIndex::Subsdk7".toList
  | Subsdk8 => "util::ModuleIndex::Subsdk8".toList
  | Subsdk9 => "util::ModuleIndex::Subsdk9".toList
  | Sdk => "util::ModuleIndex::Sdk".toList

def all : List ModuleIndex :=
  [Rtld, Main, Subsdk0, Subsdk1, Subsdk2, Subsdk3, Subsdk4, Subsdk5, Subsdk6, Subsdk7, Subsdk8, Subsdk9, Sdk]

end ModuleIndex

/-- Where a module is, of those that have symbols. -/
def NSOModule.index : NSOModule → ModuleIndex
  | RTLD => .Rtld
  | EXKING => .Main
  | MULTIMEDIA => .Subsdk0
  | LOTUSKIT => .Subsdk9
  | NNSDK => .Sdk

/-- A line as the compiler reads it. -/
structure LookupEntry where
  m_ModuleIndex : ModuleIndex
  m_Offset : BitVec 32
  m_Symbol : Str

/-- Without a module of that name, or with an offset that does not fit, there is no program. The name stands
in the C++ string as it is: mangled names have no quotes or backslashes. -/
def HppLine.compile (l : HppLine) : Option LookupEntry := do
  let index ← ModuleIndex.all.find? fun index => index.text = l.module_index
  let offset ← Hex.read l.offset
  if offset < 2 ^ 32 then some ⟨index, BitVec.ofNat 32 offset, l.name⟩ else none

structure LookupEntryBin where
  m_SymbolHash : HashType
  m_Offset : BitVec 28
  m_ModuleIndex : ModuleIndex
  deriving DecidableEq

def LookupEntry.Convert (e : LookupEntry) : LookupEntryBin :=
  ⟨Murmur3.Compute (utf8 e.m_Symbol), e.m_Offset.setWidth 28, e.m_ModuleIndex⟩

/-- By which the entries are compared. -/
def LookupEntryBin.key (e : LookupEntryBin) : Nat := e.m_SymbolHash.toNat

/-- No two neighbours are equal. -/
def IsUnique {α : Type*} (lookups : List α) : Prop := lookups.IsChain (· ≠ ·)

instance {α : Type*} [DecidableEq α] (lookups : List α) : Decidable (IsUnique lookups) :=
  inferInstanceAs (Decidable (lookups.IsChain (· ≠ ·)))

/-- The table, if both static assertions hold. -/
def compileTable (lines : List HppLine) : Option (List LookupEntryBin) := do
  let entries ← lines.mapM HppLine.compile
  let sorted := (entries.map LookupEntry.Convert).insertionSort fun a b => a.key ≤ b.key
  if IsUnique (entries.map LookupEntry.m_Symbol) ∧ IsUnique (sorted.map LookupEntryBin.m_SymbolHash) then some sorted
  else none

/-- When the search ends behind the table, what is there is read all the same. -/
def FindByHash (table : List LookupEntryBin) (hash : HashType) : Option (Option LookupEntryBin) :=
  match table[lowerBound LookupEntryBin.key table hash.toNat]? with
  | none => none
  | some low => some (if low.m_SymbolHash ≠ hash then none else some low)

def FindByName (table : List LookupEntryBin) (string : Str) : Option (Option LookupEntryBin) :=
  FindByHash table (Murmur3.Compute (utf8 string))

/-- `nullptr` is zero. -/
def EXL_SYM_RESOLVE (targetStart : BitVec 64) (table : List LookupEntryBin) (sym : Str) : Option (BitVec 64) :=
  (FindByName table sym).map fun search =>
    match search with
    | none => 0
    | some low => targetStart + low.m_Offset.setWidth 64

section Table
variable {lines : List HppLine} {table : List LookupEntryBin}

/-- What a line is in the table, at last. -/
def HppLine.entry (l : HppLine) : Option LookupEntryBin := l.compile.map LookupEntry.Convert

theorem mem_mapM {α β : Type*} {f : α → Option β} {xs : List α} {ys : List β} (all : xs.mapM f = some ys) (y : β) :
    y ∈ ys ↔ ∃ x ∈ xs, f x = some y := by
  induction xs generalizing ys with
  | nil =>
    obtain rfl := Option.some.inj all
    simp
  | cons x xs ih =>
    rw [List.mapM_cons] at all
    obtain ⟨first, here, all⟩ := Option.bind_eq_some_iff.mp all
    obtain ⟨rest, there, all⟩ := Option.bind_eq_some_iff.mp all
    obtain rfl := Option.some.inj all
    rw [List.mem_cons, ih there, List.exists_mem_cons_iff, here, Option.some.injEq, eq_comm]

theorem isSome_of_mapM {α β : Type*} {f : α → Option β} {xs : List α} {ys : List β} (all : xs.mapM f = some ys) :
    ∀ x ∈ xs, (f x).isSome := by
  induction xs generalizing ys with
  | nil => exact fun _ none_ => absurd none_ List.not_mem_nil
  | cons x xs ih =>
    rw [List.mapM_cons] at all
    obtain ⟨first, here, all⟩ := Option.bind_eq_some_iff.mp all
    obtain ⟨rest, there, -⟩ := Option.bind_eq_some_iff.mp all
    exact List.forall_mem_cons.mpr ⟨by rw [here]; rfl, ih there⟩

/-- A table that was compiled is in strict order, and has the lines' entries. -/
theorem compileTable_spec (compiled : compileTable lines = some table) :
    (table.Pairwise fun a b => a.key < b.key) ∧ (∀ e, e ∈ table ↔ ∃ l ∈ lines, l.entry = some e) ∧
      ∀ l ∈ lines, l.compile.isSome := by
  obtain ⟨entries, each, compiled⟩ := Option.bind_eq_some_iff.mp compiled
  simp only at compiled
  split at compiled
  · rename_i unique
    obtain rfl := Option.some.inj compiled
    have sorted := List.pairwise_insertionSort (fun a b : LookupEntryBin => a.key ≤ b.key) (entries.map LookupEntry.Convert)
    refine ⟨strict_of_neighbours sorted ?_, fun e => ?_, isSome_of_mapM each⟩
    · have keys : (((entries.map LookupEntry.Convert).insertionSort fun a b => a.key ≤ b.key).map
          LookupEntryBin.m_SymbolHash |>.map BitVec.toNat).IsChain (· ≠ ·) :=
        List.isChain_map_of_isChain _ (fun a b => mt BitVec.eq_of_toNat_eq) unique.2
      rwa [List.map_map] at keys
    · rw [(List.perm_insertionSort _ _).mem_iff, List.mem_map]
      constructor
      · rintro ⟨entry, member, rfl⟩
        obtain ⟨l, written, read⟩ := (mem_mapM each entry).mp member
        exact ⟨l, written, by rw [HppLine.entry, read, Option.map_some]⟩
      · rintro ⟨l, written, read⟩
        obtain ⟨entry, compiled, rfl⟩ := Option.map_eq_some_iff.mp read
        exact ⟨entry, (mem_mapM each entry).mpr ⟨l, written, compiled⟩, rfl⟩
  · cases compiled

/-- The search finds the entry with the hash, and reads behind the table if all are below. -/
theorem FindByHash_eq (strict : table.Pairwise fun a b => a.key < b.key) (hash : HashType) :
    (∀ e ∈ table, e.m_SymbolHash = hash → FindByHash table hash = some (some e)) ∧
      ((∀ e ∈ table, e.m_SymbolHash ≠ hash) →
        FindByHash table hash = if ∃ e ∈ table, hash < e.m_SymbolHash then some none else none) := by
  constructor
  · rintro e member rfl
    have found := getElem?_lowerBound_of_mem strict member
    rw [LookupEntryBin.key] at found
    rw [FindByHash, found]
    exact congrArg some (if_neg (not_not_intro rfl))
  · intro absent
    have found := getElem?_lowerBound (strict.imp le_of_lt) hash.toNat
    split_ifs with above
    · obtain ⟨e, member, less⟩ := above
      have some_ : (table.find? fun item => hash.toNat ≤ item.key).isSome :=
        List.find?_isSome.mpr ⟨e, member, decide_eq_true (Nat.le_of_lt less)⟩
      obtain ⟨low, first⟩ := Option.isSome_iff_exists.mp some_
      rw [FindByHash, found, first]
      exact congrArg some (if_pos (absent low (List.mem_of_find?_eq_some first)))
    · have none_ : (table.find? fun item => hash.toNat ≤ item.key) = none := by
        rw [List.find?_eq_none]
        intro e member enough
        have ge : hash.toNat ≤ e.m_SymbolHash.toNat := of_decide_eq_true enough
        have differs : hash.toNat ≠ e.m_SymbolHash.toNat := fun same => absent e member (BitVec.eq_of_toNat_eq same.symm)
        exact above ⟨e, member, Nat.lt_of_le_of_ne ge differs⟩
      rw [FindByHash, found, none_]

theorem FindByHash_eq_none (strict : table.Pairwise fun a b => a.key < b.key) (hash : HashType) :
    FindByHash table hash = none ↔ ∀ e ∈ table, e.m_SymbolHash < hash := by
  have found := getElem?_lowerBound (strict.imp le_of_lt) hash.toNat
  have below : (table.find? fun item => hash.toNat ≤ item.key) = none ↔ ∀ e ∈ table, e.m_SymbolHash < hash := by
    rw [List.find?_eq_none]
    refine forall₂_congr fun e _ => ?_
    rw [decide_eq_true_iff, Nat.not_le]
    rfl
  rw [FindByHash, found, ← below]
  cases table.find? fun item => hash.toNat ≤ item.key with
  | none => simp
  | some low => simp

end Table

section Symbols
variable {version : GameVersion} {do_export_nullptr : Bool} {declarations : List Declaration} {maps : SymMaps}

/-- The name is declared in a module, and written with the offset. -/
def Exports (version : GameVersion) (do_export_nullptr : Bool) (declarations : List Declaration) (mod : NSOModule)
    (name : Str) (n : Nat) : Prop :=
  mod ≠ .LOTUSKIT ∧ ∃ address, declared declarations mod name = some address ∧
    RuntimeSymbol.exported version do_export_nullptr ⟨name, address⟩ = some n

theorem module_start_sym_isSome (mod : NSOModule) : mod.module_start_sym.isSome ↔ mod ≠ .LOTUSKIT := by
  cases mod <;> simp [NSOModule.module_start_sym]

/-- The entries of the sorted maps are the last declarations. -/
theorem mem_postprocess (loads : run_symbol_def_imports declarations = some maps) (mod : NSOModule)
    (entry : Str × RuntimeSymbol) : entry ∈ maps.postprocess mod ↔
      ∃ address, declared declarations mod entry.1 = some address ∧ entry.2 = ⟨entry.1, address⟩ := by
  obtain ⟨filed, got⟩ := imports_spec loads
  rw [SymMaps.postprocess, (List.perm_insertionSort _ _).mem_iff]
  rw [show entry = (entry.1, entry.2) from rfl, ← Dict.get_eq_some (filed.nodup mod), got, Option.map_eq_some_iff]
  simp only [eq_comm]

theorem mem_hpp (loads : run_symbol_def_imports declarations = some maps) (l : HppLine) :
    l ∈ (build_gameversion_syms version do_export_nullptr maps.postprocess).1 ↔ l = null_unused ∨
      ∃ mod name n, Exports version do_export_nullptr declarations mod name n ∧
        l = ⟨mod.exl_util_module_index, offset_str n, name⟩ := by
  have lines (mod : NSOModule) (sym : RuntimeSymbol) : l ∈ hppLines version do_export_nullptr mod sym ↔
      ∃ n, sym.exported version do_export_nullptr = some n ∧
        l = ⟨mod.exl_util_module_index, offset_str n, sym.unique_name⟩ := by
    unfold hppLines
    cases sym.exported version do_export_nullptr with
    | none => simp
    | some n => simp
  simp only [build_gameversion_syms, List.mem_append, List.mem_singleton, List.mem_flatMap, List.mem_filter, lines,
    module_start_sym_isSome, Exports]
  rw [or_comm]
  refine or_congr_right ⟨?_, ?_⟩
  · rintro ⟨mod, ⟨-, written⟩, entry, member, n, exported, rfl⟩
    obtain ⟨address, last, same⟩ := (mem_postprocess loads mod entry).mp member
    rw [same] at exported ⊢
    exact ⟨mod, entry.1, n, ⟨written, address, last, exported⟩, rfl⟩
  · rintro ⟨mod, name, n, ⟨written, address, last, exported⟩, rfl⟩
    have some_ : mod ∈ NSOModule.ALL_MODULES := by cases mod <;> decide
    exact ⟨mod, ⟨some_, written⟩, (name, ⟨name, address⟩), (mem_postprocess loads mod _).mpr ⟨address, last, rfl⟩, n,
      exported, rfl⟩

theorem read_offset_str (n : Nat) : Hex.read (offset_str n) = some n := by
  unfold offset_str
  split
  · exact Hex.read_print 8 n
  · exact Hex.read_print 16 n

/-- The compiler reads the offset that was printed. -/
theorem compile_line (mod : NSOModule) (name : Str) (n : Nat) :
    HppLine.compile ⟨mod.exl_util_module_index, offset_str n, name⟩ =
      if n < 2 ^ 32 then some ⟨mod.index, BitVec.ofNat 32 n, name⟩ else none := by
  have found : (ModuleIndex.all.find? fun index => index.text = mod.exl_util_module_index) = some mod.index := by
    cases mod <;> decide +kernel
  simp only [HppLine.compile, found, read_offset_str, Option.bind_eq_bind, Option.bind_some]

/-- A name that has an entry. -/
def Tabled (version : GameVersion) (do_export_nullptr : Bool) (declarations : List Declaration) (name : Str) : Prop :=
  name = null_unused.name ∨ ∃ mod n, Exports version do_export_nullptr declarations mod name n

def hashOf (name : Str) : HashType := Murmur3.Compute (utf8 name)

theorem null_unused_compile : null_unused.compile = some ⟨.Main, 0, null_unused.name⟩ := by
  have found : (ModuleIndex.all.find? fun index => index.text = null_unused.module_index) = some .Main := by
    decide +kernel
  have read : Hex.read null_unused.offset = some 0 := by decide
  simp only [HppLine.compile, found, read, Option.bind_eq_bind, Option.bind_some]
  rfl

variable {table : List LookupEntryBin}

/-- The entries of the table, by the names that are declared. -/
theorem mem_table (loads : run_symbol_def_imports declarations = some maps)
    (compiled : compileTable (build_gameversion_syms version do_export_nullptr maps.postprocess).1 = some table)
    (e : LookupEntryBin) : e ∈ table ↔ e = ⟨hashOf null_unused.name, 0, .Main⟩ ∨
      ∃ mod name n, Exports version do_export_nullptr declarations mod name n ∧
        e = ⟨hashOf name, BitVec.ofNat 28 n, mod.index⟩ := by
  obtain ⟨-, entries, fits⟩ := compileTable_spec compiled
  have written (mod : NSOModule) (name : Str) (n : Nat) (exports : Exports version do_export_nullptr declarations mod name n) :
      HppLine.entry ⟨mod.exl_util_module_index, offset_str n, name⟩ = some ⟨hashOf name, BitVec.ofNat 28 n, mod.index⟩ := by
    have fit := fits _ ((mem_hpp loads _).mpr (.inr ⟨mod, name, n, exports, rfl⟩))
    rw [compile_line] at fit
    by_cases small : n < 2 ^ 32
    · have bits : (BitVec.ofNat 32 n).setWidth 28 = BitVec.ofNat 28 n := BitVec.setWidth_ofNat_of_le (by decide) n
      rw [HppLine.entry, compile_line, if_pos small, Option.map_some, LookupEntry.Convert, bits, hashOf]
    · rw [if_neg small] at fit
      cases fit
  have unused : null_unused.entry = some ⟨hashOf null_unused.name, 0, .Main⟩ := by
    rw [HppLine.entry, null_unused_compile]
    rfl
  rw [entries]
  constructor
  · rintro ⟨l, member, entry⟩
    rcases (mem_hpp loads l).mp member with rfl | ⟨mod, name, n, exports, rfl⟩
    · exact .inl (Option.some.inj (entry.symm.trans unused))
    · exact .inr ⟨mod, name, n, exports, Option.some.inj (entry.symm.trans (written mod name n exports))⟩
  · rintro (rfl | ⟨mod, name, n, exports, rfl⟩)
    · exact ⟨null_unused, (mem_hpp loads _).mpr (.inl rfl), unused⟩
    · exact ⟨_, (mem_hpp loads _).mpr (.inr ⟨mod, name, n, exports, rfl⟩), written mod name n exports⟩

theorem exists_tabled (loads : run_symbol_def_imports declarations = some maps)
    (compiled : compileTable (build_gameversion_syms version do_export_nullptr maps.postprocess).1 = some table)
    (p : HashType → Prop) : (∃ e ∈ table, p e.m_SymbolHash) ↔
      ∃ name, Tabled version do_export_nullptr declarations name ∧ p (hashOf name) := by
  constructor
  · rintro ⟨e, member, holds⟩
    rcases (mem_table loads compiled e).mp member with rfl | ⟨mod, name, n, exports, rfl⟩
    · exact ⟨null_unused.name, .inl rfl, holds⟩
    · exact ⟨name, .inr ⟨mod, n, exports⟩, holds⟩
  · rintro ⟨name, rfl | ⟨mod, n, exports⟩, holds⟩
    · exact ⟨_, (mem_table loads compiled _).mpr (.inl rfl), holds⟩
    · exact ⟨_, (mem_table loads compiled _).mpr (.inr ⟨mod, name, n, exports, rfl⟩), holds⟩

/-- A name is found by its hash, be it its own name's or that of another one. -/
theorem FindByName_hash (loads : run_symbol_def_imports declarations = some maps)
    (compiled : compileTable (build_gameversion_syms version do_export_nullptr maps.postprocess).1 = some table)
    {sym : Str} :
    (∀ mod name n, Exports version do_export_nullptr declarations mod name n → hashOf name = hashOf sym →
        FindByName table sym = some (some ⟨hashOf sym, BitVec.ofNat 28 n, mod.index⟩)) ∧
      (hashOf null_unused.name = hashOf sym → FindByName table sym = some (some ⟨hashOf sym, 0, .Main⟩)) := by
  obtain ⟨strict, -⟩ := compileTable_spec compiled
  constructor
  · intro mod name n exports same
    have member := (mem_table loads compiled _).mpr (.inr ⟨mod, name, n, exports, rfl⟩)
    rw [same] at member
    exact (FindByHash_eq strict (hashOf sym)).1 _ member rfl
  · intro same
    have member := (mem_table loads compiled _).mpr (.inl rfl)
    rw [same] at member
    exact (FindByHash_eq strict (hashOf sym)).1 _ member rfl

theorem FindByName_other (loads : run_symbol_def_imports declarations = some maps)
    (compiled : compileTable (build_gameversion_syms version do_export_nullptr maps.postprocess).1 = some table)
    {sym : Str} (other : ∀ name, Tabled version do_export_nullptr declarations name → hashOf name ≠ hashOf sym) :
    FindByName table sym = some none ∨ FindByName table sym = none := by
  obtain ⟨strict, -⟩ := compileTable_spec compiled
  have none_ : ∀ e ∈ table, e.m_SymbolHash ≠ hashOf sym := by
    intro e member same
    obtain ⟨name, tabled, own⟩ := (exists_tabled loads compiled (· = hashOf sym)).mp ⟨e, member, same⟩
    exact other name tabled own
  have missed := (FindByHash_eq strict (hashOf sym)).2 none_
  have byName : FindByName table sym = FindByHash table (hashOf sym) := rfl
  rw [byName, missed]
  split_ifs with above
  · exact .inl rfl
  · exact .inr rfl

theorem FindByName_eq_none (loads : run_symbol_def_imports declarations = some maps)
    (compiled : compileTable (build_gameversion_syms version do_export_nullptr maps.postprocess).1 = some table)
    (sym : Str) : FindByName table sym = none ↔
      ∀ name, Tabled version do_export_nullptr declarations name → hashOf name < hashOf sym := by
  obtain ⟨strict, -⟩ := compileTable_spec compiled
  have above := not_congr (exists_tabled loads compiled fun hash => ¬hash < hashOf sym)
  simp only [not_exists, not_and, not_not] at above
  exact (FindByHash_eq_none strict (hashOf sym)).trans above

theorem setWidth_offset (n : Nat) : (BitVec.ofNat 28 n).setWidth 64 = BitVec.ofNat 64 (n % 2 ^ 28) := by
  apply BitVec.eq_of_toNat_eq
  rw [BitVec.toNat_setWidth, BitVec.toNat_ofNat, BitVec.toNat_ofNat]

theorem EXL_SYM_RESOLVE_exported (loads : run_symbol_def_imports declarations = some maps)
    (compiled : compileTable (build_gameversion_syms version do_export_nullptr maps.postprocess).1 = some table)
    (targetStart : BitVec 64) {mod : NSOModule} {name sym : Str} {n : Nat}
    (exports : Exports version do_export_nullptr declarations mod name n) (same : hashOf name = hashOf sym) :
    EXL_SYM_RESOLVE targetStart table sym = some (targetStart + BitVec.ofNat 64 (n % 2 ^ 28)) := by
  rw [EXL_SYM_RESOLVE, (FindByName_hash loads compiled).1 mod name n exports same, Option.map_some]
  exact congrArg (fun offset => some (targetStart + offset)) (setWidth_offset n)

/-- A name that was declared is found with its address for the version, as far as 28 bits hold it, and so is
every other name with its hash. The same goes for the entry that is always there, at the target's start.
Any other name is nowhere, but behind the table if its hash is above all. -/
theorem lookup_declared (loads : run_symbol_def_imports declarations = some maps)
    (compiled : compileTable (build_gameversion_syms version do_export_nullptr maps.postprocess).1 = some table)
    (targetStart : BitVec 64) (sym : Str) :
    (∀ mod name n, Exports version do_export_nullptr declarations mod name n → hashOf name = hashOf sym →
        EXL_SYM_RESOLVE targetStart table sym = some (targetStart + BitVec.ofNat 64 (n % 2 ^ 28))) ∧
      (hashOf null_unused.name = hashOf sym → EXL_SYM_RESOLVE targetStart table sym = some targetStart) ∧
      (EXL_SYM_RESOLVE targetStart table sym = none ↔
        ∀ name, Tabled version do_export_nullptr declarations name → hashOf name < hashOf sym) ∧
      ((∀ name, Tabled version do_export_nullptr declarations name → hashOf name ≠ hashOf sym) →
        EXL_SYM_RESOLVE targetStart table sym ≠ none → EXL_SYM_RESOLVE targetStart table sym = some 0) := by
  refine ⟨fun mod name n exports same => ?_, fun same => ?_, ?_, fun other some_ => ?_⟩
  · exact EXL_SYM_RESOLVE_exported loads compiled targetStart exports same
  · rw [EXL_SYM_RESOLVE, (FindByName_hash loads compiled).2 same, Option.map_some]
    exact congrArg some (BitVec.add_zero targetStart)
  · rw [EXL_SYM_RESOLVE, Option.map_eq_none_iff]
    exact FindByName_eq_none loads compiled sym
  · rw [EXL_SYM_RESOLVE] at some_ ⊢
    rcases FindByName_other loads compiled other with nowhere | behind
    · rw [nowhere]
      rfl
    · rw [behind] at some_
      exact absurd rfl some_

theorem mem_of_declared {mod : NSOModule} {name : Str} {address : VersionedAddress}
    (last : declared declarations mod name = some address) : ∃ d ∈ declarations, d.unique_name = name := by
  obtain ⟨d, found, -⟩ := Option.bind_eq_some_iff.mp last
  have named : d.module = mod ∧ d.unique_name = name := by simpa using List.find?_some found
  exact ⟨d, List.mem_reverse.mp (List.mem_of_find?_eq_some found), named.2⟩

theorem forall_tabled {p : Str → Prop} (unused : p null_unused.name)
    (each : ∀ d ∈ declarations, p d.unique_name) (name : Str)
    (tabled : Tabled version do_export_nullptr declarations name) : p name := by
  rcases tabled with rfl | ⟨mod, n, -, address, last, -⟩
  · exact unused
  · obtain ⟨d, member, rfl⟩ := mem_of_declared last
    exact each d member

theorem two_built : ∃ maps table, run_symbol_def_imports two = some maps ∧
    compileTable (build_gameversion_syms .TOTK_121 true maps.postprocess).1 = some table := by
  have some_ : ((run_symbol_def_imports two).bind fun maps =>
      compileTable (build_gameversion_syms .TOTK_121 true maps.postprocess).1).isSome = true := by decide +kernel
  obtain ⟨table, built⟩ := Option.isSome_iff_exists.mp some_
  obtain ⟨maps, loads, compiled⟩ := Option.bind_eq_some_iff.mp built
  exact ⟨maps, table, loads, compiled⟩

theorem two_exports : Exports .TOTK_121 true two .EXKING "_ZN4sead7HeapMgr6sArenaE".toList 0x04716be8 := by
  refine ⟨by decide, _, rfl, ?_⟩
  decide +kernel

/-- Two names of one hash, the entry that is always there, a name below and one above. -/
theorem lookup_two : ∃ maps table, run_symbol_def_imports two = some maps ∧
    compileTable (build_gameversion_syms .TOTK_121 true maps.postprocess).1 = some table ∧
    EXL_SYM_RESOLVE 0x8000000#64 table "_ZN4sead7HeapMgr6sArenaE".toList =
      some (0x8000000#64 + BitVec.ofNat 64 (0x04716be8 % 2 ^ 28)) ∧
    EXL_SYM_RESOLVE 0x8000000#64 table "aaijIv0R".toList =
      some (0x8000000#64 + BitVec.ofNat 64 (0x04716be8 % 2 ^ 28)) ∧
    EXL_SYM_RESOLVE 0x8000000#64 table "__null_unused__".toList = some 0x8000000#64 ∧
    EXL_SYM_RESOLVE 0x8000000#64 table "a2".toList = none ∧
    EXL_SYM_RESOLVE 0x8000000#64 table "a0".toList = some 0 := by
  obtain ⟨maps, table, loads, compiled⟩ := two_built
  have above : ∀ name, Tabled .TOTK_121 true two name → hashOf name < hashOf "a2".toList :=
    forall_tabled (by decide +kernel) (by decide +kernel)
  have below : ∀ name, Tabled .TOTK_121 true two name → hashOf "a0".toList < hashOf name :=
    forall_tabled (by decide +kernel) (by decide +kernel)
  refine ⟨maps, table, loads, compiled, ?_, ?_, ?_, ?_, ?_⟩
  · exact (lookup_declared loads compiled _ _).1 _ _ _ two_exports rfl
  · exact (lookup_declared loads compiled _ _).1 _ _ _ two_exports (by decide +kernel)
  · exact (lookup_declared loads compiled _ _).2.1 rfl
  · exact (lookup_declared loads compiled _ _).2.2.1.mpr above
  · refine (lookup_declared loads compiled _ _).2.2.2 (fun name tabled => (BitVec.ne_of_lt (below name tabled)).symm) ?_
    intro none_
    exact BitVec.lt_asymm (below _ (.inl rfl)) ((lookup_declared loads compiled _ _).2.2.1.mp none_ _ (.inl rfl))

end Symbols

end LotusKit.Syms
