import LotusKit.Syms.Lookup

/-! Where a symbol is used: in code that the linker gives the address, and in words of memory that
are relocated when the module is loaded. Both agree with the lookup by name. -/

namespace LotusKit.Syms
open LotusKit.Lib LotusKit.Lib.SortedTable

section Link
variable {version : GameVersion} {do_export_nullptr : Bool} {declarations : List Declaration} {maps : SymMaps}
  {table : List LookupEntryBin}

/-- What the linker makes of a line: a symbol that is defined again has the later address. -/
def linkLine (starts : Str → BitVec 64) (symbols : Dict Str (BitVec 64)) : LdLine → Dict Str (BitVec 64)
  | .constant _ _ => symbols
  | .symbol name start offset =>
    match Hex.read offset with
    | some n => symbols.set name (starts start + BitVec.ofNat 64 n)
    | none => symbols

def link (starts : Str → BitVec 64) (lines : List LdLine) : Dict Str (BitVec 64) := lines.foldl (linkLine starts) []

/-- A compiled table has one declaration of a name, in one module. -/
theorem exports_unique (loads : run_symbol_def_imports declarations = some maps)
    (compiled : compileTable (build_gameversion_syms version do_export_nullptr maps.postprocess).1 = some table)
    {mod mod' : NSOModule} {name : Str} {n n' : Nat} (exports : Exports version do_export_nullptr declarations mod name n)
    (exports' : Exports version do_export_nullptr declarations mod' name n') : mod = mod' ∧ n = n' := by
  obtain ⟨strict, -⟩ := compileTable_spec compiled
  have entry := (mem_table loads compiled _).mpr (.inr ⟨mod, name, n, exports, rfl⟩)
  have entry' := (mem_table loads compiled _).mpr (.inr ⟨mod', name, n', exports', rfl⟩)
  have index := congrArg LookupEntryBin.m_ModuleIndex (eq_of_key strict entry entry' rfl)
  obtain rfl : mod = mod' := by
    cases mod <;> cases mod' <;> first | rfl | cases index
  obtain ⟨-, address, last, exported⟩ := exports
  obtain ⟨-, address', last', exported'⟩ := exports'
  obtain rfl := Option.some.inj (last.symm.trans last')
  exact ⟨rfl, Option.some.inj (exported.symm.trans exported')⟩

/-- The lines that define a symbol. -/
theorem mem_ld (loads : run_symbol_def_imports declarations = some maps) (name start offset : Str) :
    .symbol name start offset ∈ (build_gameversion_syms version do_export_nullptr maps.postprocess).2 ↔
      ∃ mod n, Exports version do_export_nullptr declarations mod name n ∧ "_Z".toList.isPrefixOf name = true ∧
        start = mod.module_start_sym.getD [] ∧ offset = offset_str n := by
  have lines (start' : Str) (sym : RuntimeSymbol) : .symbol name start offset ∈ ldLines version do_export_nullptr start' sym ↔
      ∃ n, sym.exported version do_export_nullptr = some n ∧ sym.is_mangled = true ∧ name = sym.unique_name ∧
        start = start' ∧ offset = offset_str n := by
    unfold ldLines
    cases sym.exported version do_export_nullptr with
    | none => simp
    | some n =>
      by_cases mangled : sym.is_mangled = true
      · simp [mangled]
      · simp [mangled]
  have constants (mod : NSOModule) (start' : Str) : .symbol name start offset ∉ offsetLines version mod start' := by
    unfold offsetLines
    cases mod.module_start_offset with
    | none => simp
    | some offset => simp
  simp only [build_gameversion_syms, List.mem_cons, reduceCtorEq, false_or, List.mem_flatMap, List.mem_filter,
    List.mem_append, constants, lines, module_start_sym_isSome, Exports]
  constructor
  · rintro ⟨mod, ⟨-, written⟩, entry, member, n, exported, mangled, rfl, rfl, rfl⟩
    obtain ⟨address, last, same⟩ := (mem_postprocess loads mod entry).mp member
    rw [same] at exported mangled ⊢
    exact ⟨mod, n, ⟨written, address, last, exported⟩, mangled, rfl, rfl⟩
  · rintro ⟨mod, n, ⟨written, address, last, exported⟩, mangled, rfl, rfl⟩
    have some_ : mod ∈ NSOModule.ALL_MODULES := by cases mod <;> decide
    exact ⟨mod, ⟨some_, written⟩, (name, ⟨name, address⟩), (mem_postprocess loads mod _).mpr ⟨address, last, rfl⟩, n,
      exported, mangled, rfl, rfl, rfl⟩

/-- A run of the linker, for a name whose definitions agree. -/
theorem foldl_linkLine {starts : Str → BitVec 64} {lines : List LdLine} {name : Str} {value : BitVec 64}
    {symbols : Dict Str (BitVec 64)}
    (defined : symbols.get name = some value ∨ ∃ start offset, .symbol name start offset ∈ lines)
    (agree : ∀ start offset, .symbol name start offset ∈ lines →
      ∃ n, Hex.read offset = some n ∧ starts start + BitVec.ofNat 64 n = value) :
    (lines.foldl (linkLine starts) symbols).get name = some value := by
  induction lines generalizing symbols with
  | nil => exact defined.resolve_right fun ⟨_, _, none_⟩ => List.not_mem_nil none_
  | cons line lines ih =>
    rw [List.foldl_cons]
    apply ih ?_ fun start offset member => agree start offset (List.mem_cons_of_mem line member)
    by_cases later : ∃ start offset, .symbol name start offset ∈ lines
    · exact .inr later
    · left
      cases line with
      | constant other text =>
        refine defined.resolve_right fun ⟨start, offset, member⟩ => ?_
        rcases List.mem_cons.mp member with same | rest
        · cases same
        · exact later ⟨start, offset, rest⟩
      | symbol other start offset =>
        by_cases own : other = name
        · subst own
          obtain ⟨n, read, rfl⟩ := agree start offset List.mem_cons_self
          rw [linkLine, read]
          exact (Dict.get_set _ _ _ _).trans (if_pos rfl)
        · have before : symbols.get name = some value := by
            refine defined.resolve_right fun ⟨start', offset', member⟩ => ?_
            rcases List.mem_cons.mp member with same | rest
            · cases same
              exact own rfl
            · exact later ⟨start', offset', rest⟩
          rw [linkLine]
          split
          · rw [Dict.get_set, if_neg (Ne.symm own), before]
          · exact before

/-- A mangled name has the address of its module and its offset from the linker. The lookup by name
gives the same one, up to offsets of 28 bits, just if it starts from the module of the name. -/
theorem link_eq_resolve (loads : run_symbol_def_imports declarations = some maps)
    (compiled : compileTable (build_gameversion_syms version do_export_nullptr maps.postprocess).1 = some table)
    (starts : Str → BitVec 64) {mod : NSOModule} {name : Str} {n : Nat}
    (exports : Exports version do_export_nullptr declarations mod name n) (mangled : "_Z".toList.isPrefixOf name = true) :
    (link starts (build_gameversion_syms version do_export_nullptr maps.postprocess).2).get name =
        some (starts (mod.module_start_sym.getD []) + BitVec.ofNat 64 n) ∧
      (n < 2 ^ 28 → ∀ targetStart, EXL_SYM_RESOLVE targetStart table name =
          (link starts (build_gameversion_syms version do_export_nullptr maps.postprocess).2).get name ↔
        targetStart = starts (mod.module_start_sym.getD [])) := by
  have linked : (link starts (build_gameversion_syms version do_export_nullptr maps.postprocess).2).get name =
      some (starts (mod.module_start_sym.getD []) + BitVec.ofNat 64 n) := by
    refine foldl_linkLine (.inr ⟨_, _, (mem_ld loads name _ _).mpr ⟨mod, n, exports, mangled, rfl, rfl⟩⟩) ?_
    intro start offset member
    obtain ⟨mod', n', exports', -, rfl, rfl⟩ := (mem_ld loads name start offset).mp member
    obtain ⟨rfl, rfl⟩ := exports_unique loads compiled exports exports'
    exact ⟨n, read_offset_str n, rfl⟩
  refine ⟨linked, fun small targetStart => ?_⟩
  rw [linked, EXL_SYM_RESOLVE_exported loads compiled targetStart exports rfl, Nat.mod_eq_of_lt small, Option.some.injEq]
  exact ⟨fun same => (BitVec.add_left_inj _).mp same, fun same => same ▸ rfl⟩

/-- The symbol of two that is mangled. -/
theorem link_two : ∃ maps table, (link (fun _ => 0x8000000#64) (build_gameversion_syms .TOTK_121 true (SymMaps.postprocess maps)).2).get
      "_ZN4sead7HeapMgr6sArenaE".toList = some (0x8000000#64 + BitVec.ofNat 64 0x04716be8) ∧
    (0x04716be8 < 2 ^ 28 → ∀ targetStart, EXL_SYM_RESOLVE targetStart table "_ZN4sead7HeapMgr6sArenaE".toList =
        (link (fun _ => 0x8000000#64) (build_gameversion_syms .TOTK_121 true (SymMaps.postprocess maps)).2).get
          "_ZN4sead7HeapMgr6sArenaE".toList ↔ targetStart = 0x8000000#64) := by
  obtain ⟨maps, table, loads, compiled⟩ := two_built
  exact ⟨maps, table, link_eq_resolve loads compiled (fun _ => 0x8000000#64) two_exports (by decide)⟩

end Link

section Relocation

/-- Of the types, all but the last are applied. -/
inductive RelType where
  | JUMP_SLOT | ABSOLUTE | GLOB_DAT | other
  deriving DecidableEq

/-- `Elf_Rela`, with the name of its symbol. -/
structure Rela where
  type : RelType
  r_offset : BitVec 64
  r_addend : BitVec 64
  symbol : Str

/-- Words of memory by their addresses. -/
abbrev Words := BitVec 64 → BitVec 64

/-- The table, where the modules are that exist, and where the relocated one is. -/
structure Loaded where
  table : List LookupEntryBin
  modules : ModuleIndex → Option (BitVec 64)
  module_base : BitVec 64

namespace Loaded
variable (s : Loaded)

def target (rel : Rela) : BitVec 64 := s.module_base + rel.r_offset

def CheckAndApplyRel (words : Words) (rel : Rela) : Option Words :=
  (FindByName s.table rel.symbol).map fun search =>
    match search with
    | none => words
    | some low =>
      if rel.type = .other then words
      else
        match s.modules low.m_ModuleIndex with
        | none => words
        | some start => Function.update words (s.target rel) (start + low.m_Offset.setWidth 64 + rel.r_addend)

/-- `Lookup::Apply`: the relocations, and those of the `plt`. -/
def Apply (rels plt : List Rela) (words : Words) : Option Words := (rels ++ plt).foldlM s.CheckAndApplyRel words

/-- What a relocation writes, if it writes something. -/
def written (rel : Rela) : Option (BitVec 64) :=
  match FindByName s.table rel.symbol with
  | some (some low) =>
    if rel.type = .other then none
    else (s.modules low.m_ModuleIndex).map fun start => start + low.m_Offset.setWidth 64 + rel.r_addend
  | _ => none

end Loaded

section Run
variable {s : Loaded} {rels : List Rela} {words words' : Words}

theorem CheckAndApplyRel_eq (words : Words) (rel : Rela) : s.CheckAndApplyRel words rel =
    (FindByName s.table rel.symbol).map fun _ =>
      match s.written rel with
      | none => words
      | some value => Function.update words (s.target rel) value := by
  unfold Loaded.CheckAndApplyRel Loaded.written
  cases FindByName s.table rel.symbol with
  | none => rfl
  | some search =>
    cases search with
    | none => rfl
    | some low =>
      simp only [Option.map_some]
      split_ifs with other
      · rfl
      · cases s.modules low.m_ModuleIndex with
        | none => rfl
        | some start => rfl

theorem isSome_foldlM (rels : List Rela) (words : Words) : (rels.foldlM s.CheckAndApplyRel words).isSome ↔
    ∀ rel ∈ rels, (FindByName s.table rel.symbol).isSome := by
  induction rels generalizing words with
  | nil => simp
  | cons rel rels ih =>
    rw [List.foldlM_cons, List.forall_mem_cons, CheckAndApplyRel_eq]
    cases FindByName s.table rel.symbol with
    | none => simp
    | some search =>
      rw [Option.map_some, Option.isSome_some]
      simp only [true_and]
      exact ih _

/-- A run leaves the words that no relocation writes. -/
theorem foldlM_frame (runs : rels.foldlM s.CheckAndApplyRel words = some words') {a : BitVec 64}
    (none_ : ∀ rel ∈ rels, s.target rel = a → s.written rel = none) : words' a = words a := by
  induction rels generalizing words with
  | nil =>
    obtain rfl := Option.some.inj runs
    rfl
  | cons rel rels ih =>
    rw [List.foldlM_cons, CheckAndApplyRel_eq] at runs
    obtain ⟨between, first, rest⟩ := Option.bind_eq_some_iff.mp runs
    obtain ⟨search, -, rfl⟩ := Option.map_eq_some_iff.mp first
    obtain ⟨here, later⟩ := List.forall_mem_cons.mp none_
    rw [ih rest later]
    cases value : s.written rel with
    | none => rfl
    | some value' =>
      have apart : s.target rel ≠ a := by
        intro same
        rw [here same] at value
        cases value
      exact Function.update_of_ne (Ne.symm apart) _ _

/-- The last relocation that writes a word says what it is. -/
theorem foldlM_last {before after : List Rela} {rel : Rela} {value : BitVec 64}
    (runs : (before ++ rel :: after).foldlM s.CheckAndApplyRel words = some words')
    (last : ∀ other ∈ after, s.target other = s.target rel → s.written other = none)
    (writes : s.written rel = some value) : words' (s.target rel) = value := by
  rw [List.foldlM_append] at runs
  obtain ⟨between, -, runs⟩ := Option.bind_eq_some_iff.mp runs
  rw [List.foldlM_cons, CheckAndApplyRel_eq] at runs
  obtain ⟨behind, first, rest⟩ := Option.bind_eq_some_iff.mp runs
  obtain ⟨search, -, rfl⟩ := Option.map_eq_some_iff.mp first
  rw [foldlM_frame rest last, writes]
  exact Function.update_self _ _ _

end Run

variable {version : GameVersion} {do_export_nullptr : Bool} {declarations : List Declaration} {maps : SymMaps}
  {table : List LookupEntryBin}

/-- A relocation that writes nothing: its type is not applied, its symbol's hash is not in the table, or the
module of the entry with that hash does not exist. -/
def Idle (version : GameVersion) (do_export_nullptr : Bool) (declarations : List Declaration)
    (modules : ModuleIndex → Option (BitVec 64)) (rel : Rela) : Prop :=
  rel.type = .other ∨
  (∀ name, Tabled version do_export_nullptr declarations name → hashOf name ≠ hashOf rel.symbol) ∨
  (∃ mod name n, Exports version do_export_nullptr declarations mod name n ∧ hashOf name = hashOf rel.symbol ∧
    modules mod.index = none) ∨
  (hashOf null_unused.name = hashOf rel.symbol ∧ modules .Main = none)

theorem Idle.written (loads : run_symbol_def_imports declarations = some maps)
    (compiled : compileTable (build_gameversion_syms version do_export_nullptr maps.postprocess).1 = some table)
    {modules : ModuleIndex → Option (BitVec 64)} {rel : Rela} (module_base : BitVec 64)
    (idle : Idle version do_export_nullptr declarations modules rel) :
    Loaded.written ⟨table, modules, module_base⟩ rel = none := by
  rcases idle with other | nowhere | ⟨mod, name, n, exports, same, missing⟩ | ⟨same, missing⟩
  · unfold Loaded.written
    split
    · exact if_pos other
    · rfl
  · rcases FindByName_other loads compiled nowhere with found | behind
    · simp only [Loaded.written, found]
    · simp only [Loaded.written, behind]
  · have found := (FindByName_hash loads compiled).1 mod name n exports same
    simp only [Loaded.written, found, missing, Option.map_none, ite_self]
  · have found := (FindByName_hash loads compiled).2 same
    simp only [Loaded.written, found, missing, Option.map_none, ite_self]

/-- Relocating reads behind the table just if some symbol's hash is above all. Otherwise the last relocation
of a word that is not idle says what it becomes: the address in its module that was declared for the name with
the hash of the symbol. The other words stay. -/
theorem Apply_spec (loads : run_symbol_def_imports declarations = some maps)
    (compiled : compileTable (build_gameversion_syms version do_export_nullptr maps.postprocess).1 = some table)
    (modules : ModuleIndex → Option (BitVec 64)) (module_base : BitVec 64) (rels plt : List Rela) (words : Words) :
    (Loaded.Apply ⟨table, modules, module_base⟩ rels plt words = none ↔
        ∃ rel ∈ rels ++ plt, ∀ name, Tabled version do_export_nullptr declarations name → hashOf name < hashOf rel.symbol) ∧
      ∀ words', Loaded.Apply ⟨table, modules, module_base⟩ rels plt words = some words' →
        (∀ before rel after, rels ++ plt = before ++ rel :: after → rel.type ≠ .other →
          (∀ other ∈ after, module_base + other.r_offset = module_base + rel.r_offset →
            Idle version do_export_nullptr declarations modules other) →
          (∀ mod name n start, Exports version do_export_nullptr declarations mod name n →
            hashOf name = hashOf rel.symbol → modules mod.index = some start →
              words' (module_base + rel.r_offset) = start + BitVec.ofNat 64 (n % 2 ^ 28) + rel.r_addend) ∧
          ∀ start, hashOf null_unused.name = hashOf rel.symbol → modules .Main = some start →
            words' (module_base + rel.r_offset) = start + rel.r_addend) ∧
        ∀ a, (∀ rel ∈ rels ++ plt, module_base + rel.r_offset = a →
            Idle version do_export_nullptr declarations modules rel) → words' a = words a := by
  constructor
  · rw [← Option.not_isSome_iff_eq_none, Loaded.Apply, isSome_foldlM]
    push Not
    refine exists_congr fun rel => and_congr_right fun _ => ?_
    rw [ne_eq, Option.not_isSome_iff_eq_none]
    exact FindByName_eq_none loads compiled rel.symbol
  · intro words' runs
    constructor
    · intro before rel after split_ applied last
      rw [Loaded.Apply, split_] at runs
      have writes (value : BitVec 64) (written : Loaded.written ⟨table, modules, module_base⟩ rel = some value) :
          words' (module_base + rel.r_offset) = value :=
        foldlM_last runs (fun other member same => (last other member same).written loads compiled module_base) written
      constructor
      · intro mod name n start exports same present
        have found := (FindByName_hash loads compiled).1 mod name n exports same
        apply writes
        simp only [Loaded.written, found, if_neg applied, present, Option.map_some, setWidth_offset]
      · intro start same present
        have found := (FindByName_hash loads compiled).2 same
        have first : (0 : BitVec 28).setWidth 64 = 0#64 := rfl
        apply writes
        simp only [Loaded.written, found, if_neg applied, present, Option.map_some, first, BitVec.add_zero]
    · intro a idle
      exact foldlM_frame runs fun rel member here => (idle rel member here).written loads compiled module_base

/-- The first word is written again by the `plt`, and the third one is not written. -/
def four : List Rela :=
  [⟨.ABSOLUTE, 0x10#64, 8#64, "__null_unused__".toList⟩, ⟨.GLOB_DAT, 0x18#64, 4#64, "aaijIv0R".toList⟩,
    ⟨.other, 0x20#64, 0#64, "aaijIv0R".toList⟩, ⟨.ABSOLUTE, 0x28#64, 8#64, "__null_unused__".toList⟩]

def slot : List Rela := [⟨.JUMP_SLOT, 0x10#64, 0#64, "_ZN4sead7HeapMgr6sArenaE".toList⟩]

theorem Apply_two : ∃ table words',
    Loaded.Apply ⟨table, fun _ => some 0x8000000#64, 0x10000000#64⟩ four slot (fun _ => 7#64) = some words' ∧
      words' 0x10000010#64 = 0x8000000#64 + BitVec.ofNat 64 (0x04716be8 % 2 ^ 28) + 0#64 ∧
      words' 0x10000018#64 = 0x8000000#64 + BitVec.ofNat 64 (0x04716be8 % 2 ^ 28) + 4#64 ∧
      words' 0x10000020#64 = 7#64 ∧ words' 0x10000028#64 = 0x8000000#64 + 8#64 := by
  obtain ⟨maps, table, loads, compiled⟩ := two_built
  obtain ⟨behind, writes⟩ := Apply_spec loads compiled (fun _ => some 0x8000000#64) 0x10000000#64 four slot fun _ => 7#64
  have collides : hashOf "_ZN4sead7HeapMgr6sArenaE".toList = hashOf "aaijIv0R".toList := by decide +kernel
  have symbols : ∀ rel ∈ four ++ slot, rel.symbol = null_unused.name ∨ rel.symbol = "aaijIv0R".toList ∨
      rel.symbol = "_ZN4sead7HeapMgr6sArenaE".toList := by decide
  have some_ : Loaded.Apply ⟨table, fun _ => some 0x8000000#64, 0x10000000#64⟩ four slot (fun _ => 7#64) ≠ none := by
    intro none_
    obtain ⟨rel, member, above⟩ := behind.mp none_
    have unused := above _ (.inl rfl)
    have arena := above _ (.inr ⟨_, _, two_exports⟩)
    rcases symbols rel member with same | same | same
    · rw [same] at unused
      exact BitVec.lt_irrefl _ unused
    · rw [same, collides] at arena
      exact BitVec.lt_irrefl _ arena
    · rw [same] at arena
      exact BitVec.lt_irrefl _ arena
  obtain ⟨words', runs⟩ := Option.ne_none_iff_exists'.mp some_
  obtain ⟨last, frame⟩ := writes words' runs
  have second : ∀ other ∈ four.drop 2 ++ slot, 0x10000000#64 + other.r_offset ≠ 0x10000000#64 + 0x18#64 := by decide
  have fourth : ∀ other ∈ slot, 0x10000000#64 + other.r_offset ≠ 0x10000000#64 + 0x28#64 := by decide
  have third : ∀ rel ∈ four ++ slot, 0x10000000#64 + rel.r_offset = 0x10000020#64 → rel.type = .other := by decide
  refine ⟨table, words', runs, ?_, ?_, ?_, ?_⟩
  · exact (last four _ [] rfl (by decide) fun _ none_ => absurd none_ List.not_mem_nil).1 _ _ _ _ two_exports rfl rfl
  · exact (last (four.take 1) _ _ rfl (by decide) fun other member same => absurd same (second other member)).1
      _ _ _ _ two_exports collides rfl
  · exact frame _ fun rel member here => .inl (third rel member here)
  · exact (last (four.take 3) _ _ rfl (by decide) fun other member same => absurd same (fourth other member)).2 _ rfl rfl

end Relocation

end LotusKit.Syms
