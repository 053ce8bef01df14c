import LotusKit.Disasm.Encoding
import LotusKit.Lib.BitMask
import LotusKit.Lib.CppProgram

/-! What the generated C++ does: the first line of the table that agrees with the instruction. -/

namespace LotusKit.Disasm
open LotusKit.Lib LotusKit.Lib.Cpp

namespace Encoding

/-- The fixed columns, counted from the left, are the bits of the instruction. -/
def Agrees (e : Encoding) (inst : BitVec 32) : Prop :=
  ∀ i < 32, (e.bits_str[i]? = some '1' → inst.getMsbD i = true) ∧ (e.bits_str[i]? = some '0' → inst.getMsbD i = false)

instance (e : Encoding) (inst : BitVec 32) : Decidable (e.Agrees inst) := by
  unfold Agrees
  infer_instance

/-- A line of 32 columns, whose mnemonic stands for itself in C++. -/
structure WellFormed (e : Encoding) : Prop where
  columns : e.bits_str.length = 32
  plain : Plain e.mnm

/-- The condition of the generated `if`. -/
def condition (e : Encoding) : Expr :=
  .andAnd (.equal (.bitAnd (.name "inst".toList) (.number e.u32_always)) (.number e.u32_always))
    (.equal (.bitAnd (.complement (.name "inst".toList)) (.number e.u32_never)) (.number e.u32_never))

def stmt (e : Encoding) : Stmt := .ifThen e.condition [.call "strcpy".toList "output".toList e.mnm, .return_]

end Encoding

/-- The mnemonic of the first line that agrees. -/
def selected (encodings : List Encoding) (inst : BitVec 32) : Str :=
  ((encodings.find? fun e => e.Agrees inst).map Encoding.mnm).getD "???".toList

section Condition
variable {e : Encoding} {inst : BitVec 32}

theorem always_eq : e.u32_always = bitMask (fun i => e.bits_str.reverse[i]? = some '1') 32 := rfl

theorem never_eq : e.u32_never = bitMask (fun i => e.bits_str.reverse[i]? = some '0') 32 := rfl

theorem testBit_complement (inst : BitVec 32) {i : Nat} (inside : i < 32) :
    (2 ^ 32 - 1 - inst.toNat).testBit i = !inst.toNat.testBit i := by
  have same : 2 ^ 32 - 1 - inst.toNat = 2 ^ 32 - (inst.toNat + 1) := by omega
  rw [same, Nat.testBit_two_pow_sub_succ inst.isLt, decide_eq_true inside, Bool.true_and]

/-- The masks count the columns from the right. -/
theorem agrees_iff (columns : e.bits_str.length = 32) : e.Agrees inst ↔
    inst.toNat &&& e.u32_always = e.u32_always ∧ (2 ^ 32 - 1 - inst.toNat) &&& e.u32_never = e.u32_never := by
  have column : ∀ i < 32, e.bits_str.reverse[i]? = e.bits_str[31 - i]? := by
    intro i inside
    rw [List.getElem?_reverse (columns ▸ inside), columns]
  have bit : ∀ i < 32, inst.getMsbD (31 - i) = inst.toNat.testBit i := by
    intro i inside
    have back : 32 - 1 - (31 - i) = i := by omega
    rw [BitVec.getMsbD, decide_eq_true (by omega : 31 - i < 32), Bool.true_and, back, BitVec.getLsbD]
  rw [always_eq, never_eq, and_bitMask_eq_iff, and_bitMask_eq_iff]
  constructor
  · intro agrees
    constructor
    · intro i inside one
      rw [column i inside] at one
      rw [← bit i inside]
      exact (agrees (31 - i) (by omega)).1 one
    · intro i inside zero
      rw [column i inside] at zero
      rw [testBit_complement inst inside, ← bit i inside, (agrees (31 - i) (by omega)).2 zero]
      rfl
  · rintro ⟨ones, zeros⟩ i inside
    have back : 31 - (31 - i) = i := by omega
    have column' := column (31 - i) (by omega)
    have bit' := bit (31 - i) (by omega)
    rw [back] at column' bit'
    constructor
    · intro one
      rw [bit']
      exact ones (31 - i) (by omega) (column'.trans one)
    · intro zero
      have clear := zeros (31 - i) (by omega) (column'.trans zero)
      rw [testBit_complement inst (by omega), Bool.not_eq_true'] at clear
      rw [bit', clear]

theorem exists_literal {n : Nat} (small : n < 2 ^ 32) : ∃ type, literal n = some ⟨type, n⟩ := by
  by_cases narrow : n < 2 ^ 31
  · exact ⟨.int, if_pos narrow⟩
  · refine ⟨.long, ?_⟩
    rw [literal, if_neg narrow, if_pos (by omega)]

/-- The condition is true of the instructions that agree with the line. -/
theorem eval_condition (columns : e.bits_str.length = 32) :
    eval "inst".toList ⟨.unsigned, inst.toNat⟩ e.condition = some (truth (decide (e.Agrees inst))) := by
  obtain ⟨type, always⟩ := exists_literal (always_eq ▸ bitMask_lt : e.u32_always < 2 ^ 32)
  obtain ⟨type', never⟩ := exists_literal (never_eq ▸ bitMask_lt : e.u32_never < 2 ^ 32)
  have both : decide (e.Agrees inst) = (decide (inst.toNat &&& e.u32_always = e.u32_always) &&
      decide ((2 ^ 32 - 1 - inst.toNat) &&& e.u32_never = e.u32_never)) := by
    rw [← Bool.decide_and, decide_eq_decide]
    exact agrees_iff columns
  rw [both, ← truth_andAnd]
  simp only [Encoding.condition, eval, if_true, always, never, Option.bind_eq_bind, Option.bind_some]

end Condition

section Text
variable {e : Encoding} {tokens : List Token}

def Encoding.conditionTokens (e : Encoding) : List Token :=
  [.symbol .lparen, .symbol .lparen, .name "inst".toList, .symbol .amp, .number e.u32_always, .symbol .rparen,
    .symbol .equal, .number e.u32_always, .symbol .andAnd, .symbol .lparen, .symbol .tilde, .name "inst".toList,
    .symbol .amp, .number e.u32_never, .symbol .rparen, .symbol .equal, .number e.u32_never, .symbol .rparen]

def Encoding.blockTokens (e : Encoding) : List Token :=
  .name "if".toList :: .symbol .lparen :: e.conditionTokens ++
    [.symbol .rparen, .symbol .lbrace, .name "strcpy".toList, .symbol .lparen, .name "output".toList, .symbol .comma,
      .text e.mnm, .symbol .rparen, .symbol .semicolon, .name "return".toList, .symbol .semicolon, .symbol .rbrace]

def frontTokens : List Token :=
  [.name "namespace".toList, .name "lotuskit".toList, .symbol .scope, .name "util".toList, .symbol .scope,
    .name "disasm".toList, .symbol .lbrace, .name "size_t".toList, .name "MNM_OUT_MAX_SIZE".toList, .symbol .assign,
    .number 64, .symbol .semicolon, .name "void".toList, .name "u32_to_str_mnemonic".toList, .symbol .lparen,
    .name "u32".toList, .name "inst".toList, .symbol .comma, .name "char".toList, .symbol .star, .name "output".toList,
    .symbol .rparen, .symbol .lbrace]

def backTokens : List Token :=
  [.name "strcpy".toList, .symbol .lparen, .name "output".toList, .symbol .comma, .text "???".toList, .symbol .rparen,
    .symbol .semicolon, .symbol .rbrace, .symbol .rbrace]

theorem run_front : Lexer.run ⟨.between, []⟩ cppFront = ⟨.between, frontTokens.reverse⟩ := by decide +kernel

theorem run_back : Lexer.run ⟨.between, tokens⟩ cppBack = ⟨.between, backTokens.reverse ++ tokens⟩ := by
  apply run_of_nil
  decide +kernel

/-- The condition, and what stands behind it. -/
theorem run_cpp_is_match {more : Str} {l : Lexer} (rest : Lexer.run ⟨.between, e.conditionTokens.reverse ++ tokens⟩ more = l) :
    Lexer.run ⟨.between, tokens⟩ (e.cpp_is_match "inst".toList ++ more) = l := by
  have opens : Lexer.run ⟨.between, []⟩ "((".toList = ⟨.between, [.symbol .lparen, .symbol .lparen]⟩ := by decide +kernel
  have inst : Lexer.run ⟨.between, []⟩ "inst".toList = ⟨.word "tsni".toList, []⟩ := by decide +kernel
  have masked : Lexer.run ⟨.word "tsni".toList, []⟩ " & ".toList = ⟨.between, [.symbol .amp, .name "inst".toList]⟩ := by
    decide +kernel
  have equals : Lexer.run ⟨.between, []⟩ ") == ".toList = ⟨.between, [.symbol .equal, .symbol .rparen]⟩ := by decide +kernel
  have and_ : Lexer.run ⟨.between, []⟩ " && (~".toList =
      ⟨.between, [.symbol .tilde, .symbol .lparen, .symbol .andAnd]⟩ := by decide +kernel
  have closes : Lexer.run ⟨.between, []⟩ ")".toList = ⟨.between, [.symbol .rparen]⟩ := by decide +kernel
  unfold Encoding.cpp_is_match
  unfold Encoding.conditionTokens at rest
  generalize e.u32_always = always at rest ⊢
  generalize e.u32_never = never at rest ⊢
  simp only [List.append_assoc]
  apply run_step (run_of_nil opens)
  apply run_step (run_of_nil inst)
  apply run_step (run_of_nil masked)
  apply run_step_number always (by decide)
  apply run_step (run_of_nil equals)
  apply run_step_number always (by decide)
  apply run_step (run_of_nil and_)
  apply run_step (run_of_nil inst)
  apply run_step (run_of_nil masked)
  apply run_step_number never (by decide)
  apply run_step (run_of_nil equals)
  apply run_step_number never (by decide)
  apply run_step (run_of_nil closes)
  exact rest

theorem run_cppBlock (plain : Plain e.mnm) : Lexer.run ⟨.between, tokens⟩ e.cppBlock =
    ⟨.between, e.blockTokens.reverse ++ tokens⟩ := by
  have opens : Lexer.run ⟨.between, []⟩ "        if (".toList = ⟨.between, [.symbol .lparen, .name "if".toList]⟩ := by
    decide +kernel
  have comment : Lexer.run ⟨.between, []⟩ ") \x7b // ".toList = ⟨.comment, [.symbol .lbrace, .symbol .rparen]⟩ := by decide +kernel
  have copies : Lexer.run ⟨.comment, []⟩ "\n            strcpy(output, \"".toList =
      ⟨.literal [], [.symbol .comma, .name "output".toList, .symbol .lparen, .name "strcpy".toList]⟩ := by decide +kernel
  have closes : Lexer.run ⟨.between, []⟩ ");\n            return;\n        \x7d\n".toList = ⟨.between,
      [.symbol .rbrace, .symbol .semicolon, .name "return".toList, .symbol .semicolon, .symbol .rparen]⟩ := by decide +kernel
  have quoted : "\");\n            return;\n        \x7d\n".toList = '"' :: ");\n            return;\n        \x7d\n".toList := by
    decide +kernel
  unfold Encoding.blockTokens
  unfold Encoding.cppBlock
  generalize e.mnm = mnm at plain ⊢
  simp only [List.append_assoc]
  apply run_step (run_of_nil opens)
  apply run_cpp_is_match
  apply run_step (run_of_nil comment)
  apply run_step (run_comment plain)
  apply run_step (run_of_nil copies)
  apply run_step (run_literal plain)
  rw [quoted, run_quote, run_of_nil closes, List.append_nil, List.reverse_reverse]
  simp only [List.reverse_append, List.reverse_cons, List.reverse_nil, List.append_assoc, List.nil_append, List.cons_append]

theorem run_cppBlocks {encodings : List Encoding} (plain : ∀ e ∈ encodings, Plain e.mnm) :
    Lexer.run ⟨.between, tokens⟩ (encodings.flatMap Encoding.cppBlock) =
      ⟨.between, (encodings.flatMap Encoding.blockTokens).reverse ++ tokens⟩ := by
  induction encodings generalizing tokens with
  | nil => rfl
  | cons e encodings ih =>
    have ⟨here, later⟩ := List.forall_mem_cons.mp plain
    rw [List.flatMap_cons, List.flatMap_cons, run_append, run_cppBlock here, ih later, List.reverse_append, List.append_assoc]

/-- The tokens of the whole file. -/
theorem tokenize_cpp_gen_out {encodings : List Encoding} (plain : ∀ e ∈ encodings, Plain e.mnm) :
    tokenize (cpp_gen_out encodings) = some (frontTokens ++ encodings.flatMap Encoding.blockTokens ++ backTokens) := by
  rw [tokenize, cpp_gen_out, run_append, run_append, run_front, run_cppBlocks plain, run_back, Lexer.finish]
  simp only [List.reverse_append, List.reverse_reverse]

end Text

section Program
variable {e : Encoding} {encodings : List Encoding} {inst : BitVec 32} {rest : List Token}

theorem parseExpr_condition : parseExpr (e.conditionTokens ++ .symbol .rparen :: rest).length .andAnd
    (e.conditionTokens ++ .symbol .rparen :: rest) = some (e.condition, .symbol .rparen :: rest) := by
  unfold Encoding.conditionTokens Encoding.condition
  generalize e.u32_always = always
  generalize e.u32_never = never
  rfl

theorem parseStmt_block : parseStmt (e.blockTokens ++ rest) = some (e.stmt, rest) := by
  have tokens : e.blockTokens ++ rest = .name "if".toList :: .symbol .lparen :: (e.conditionTokens ++ .symbol .rparen ::
      .symbol .lbrace :: .name "strcpy".toList :: .symbol .lparen :: .name "output".toList :: .symbol .comma ::
      .text e.mnm :: .symbol .rparen :: .symbol .semicolon :: .name "return".toList :: .symbol .semicolon ::
      .symbol .rbrace :: rest) := by
    unfold Encoding.blockTokens
    simp only [List.cons_append, List.append_assoc, List.nil_append]
  have word : ("if".toList : Str) = "if".toList := rfl
  rw [tokens, parseStmt, if_pos word, parseExpr_condition, Encoding.stmt]
  generalize e.condition = condition
  generalize e.mnm = mnm
  rfl

theorem parseBody_blocks {fuel : Nat} {body : List Stmt} {rest' : List Token} (parsed : parseBody fuel rest = some (body, rest')) :
    parseBody (encodings.length + fuel) (encodings.flatMap Encoding.blockTokens ++ rest) =
      some (encodings.map Encoding.stmt ++ body, rest') := by
  induction encodings with
  | nil =>
    rw [List.length_nil, Nat.zero_add]
    exact parsed
  | cons e encodings ih =>
    have more : (e :: encodings).length + fuel = encodings.length + fuel + 1 := by
      rw [List.length_cons]
      omega
    have starts : ∃ tokens, e.blockTokens ++ (encodings.flatMap Encoding.blockTokens ++ rest) = .name "if".toList :: tokens :=
      ⟨_, rfl⟩
    have first := @parseStmt_block e (encodings.flatMap Encoding.blockTokens ++ rest)
    obtain ⟨tokens, starts⟩ := starts
    rw [List.flatMap_cons, List.append_assoc, more, starts, parseBody, ← starts, first]
    · simp only [Option.bind_eq_bind, Option.bind_some, ih]
      rfl
    · intro _ same
      cases same

theorem length_blocks : encodings.length ≤ (encodings.flatMap Encoding.blockTokens).length := by
  induction encodings with
  | nil => exact Nat.le_refl 0
  | cons e encodings ih =>
    have some_ : 1 ≤ e.blockTokens.length := Nat.succ_le_succ (Nat.zero_le _)
    rw [List.flatMap_cons, List.length_append, List.length_cons]
    omega

def program (encodings : List Encoding) : Function :=
  ⟨"u32_to_str_mnemonic".toList, "u32".toList, "inst".toList, "output".toList,
    encodings.map Encoding.stmt ++ [.simple (.call "strcpy".toList "output".toList "???".toList)]⟩

theorem compile_cpp_gen_out (plain : ∀ e ∈ encodings, Plain e.mnm) :
    compile (cpp_gen_out encodings) = some (program encodings) := by
  have long : ∃ k, (encodings.flatMap Encoding.blockTokens ++ backTokens).length = encodings.length + (k + 2) := by
    have blocks := @length_blocks encodings
    refine ⟨(encodings.flatMap Encoding.blockTokens).length - encodings.length + 7, ?_⟩
    rw [List.length_append, show backTokens.length = 9 from rfl]
    omega
  obtain ⟨k, long⟩ := long
  have back : parseBody (k + 2) backTokens =
      some ([.simple (.call "strcpy".toList "output".toList "???".toList)], [.symbol .rbrace]) := rfl
  have body := @parseBody_blocks encodings backTokens (k + 2) _ _ back
  rw [← long] at body
  rw [compile, tokenize_cpp_gen_out plain, Option.bind_some, List.append_assoc]
  generalize encodings.flatMap Encoding.blockTokens ++ backTokens = tokens at body ⊢
  unfold parseFile frontTokens
  simp only [List.cons_append, List.nil_append, skipScope, body]
  rfl

theorem runStmt_stmt (columns : e.bits_str.length = 32) (o : Outcome) :
    (program encodings).runStmt ⟨.unsigned, inst.toNat⟩ o e.stmt =
      if e.Agrees inst then runBlock "output".toList [.call "strcpy".toList "output".toList e.mnm, .return_] o
      else some o := by
  have run : (program encodings).runStmt ⟨.unsigned, inst.toNat⟩ o e.stmt =
      (eval "inst".toList ⟨.unsigned, inst.toNat⟩ e.condition).bind fun value =>
        if value.value = 0 then some o
        else runBlock "output".toList [.call "strcpy".toList "output".toList e.mnm, .return_] o := rfl
  rw [run, eval_condition columns, Option.bind_some]
  by_cases agrees : e.Agrees inst
  · rw [if_pos agrees, decide_eq_true agrees]
    rfl
  · rw [if_neg agrees, decide_eq_false agrees]
    rfl

/-- The statements of the table, from one line on. -/
theorem runBody_stmts {lines : List Encoding} (columns : ∀ e ∈ lines, e.bits_str.length = 32) :
    ((program encodings).runBody ⟨.unsigned, inst.toNat⟩
      (lines.map Encoding.stmt ++ [.simple (.call "strcpy".toList "output".toList "???".toList)]) ⟨none, false⟩).bind
        Outcome.copied = some (selected lines inst) := by
  induction lines with
  | nil => rfl
  | cons e lines ih =>
    have ⟨here, later⟩ := List.forall_mem_cons.mp columns
    have first := @runStmt_stmt e encodings inst here ⟨none, false⟩
    rw [List.map_cons, List.cons_append, Function.runBody, if_neg Bool.false_ne_true, first, selected, List.find?_cons]
    by_cases agrees : e.Agrees inst
    · have block : runBlock "output".toList [.call "strcpy".toList "output".toList e.mnm, .return_] ⟨none, false⟩ =
          some ⟨some e.mnm, true⟩ := rfl
      rw [if_pos agrees, block, Option.bind_some, Function.runBody_returned _ _ rfl, decide_eq_true agrees]
      rfl
    · rw [if_neg agrees, decide_eq_false agrees, Option.bind_some, ih later, selected]

/-- The generated file is a program that copies the mnemonic of the first line that agrees. -/
theorem disassembles {lines : List Str} {encodings : List Encoding} (accepted : lines.mapM Encoding.ofLine = some encodings)
    (wellFormed : ∀ e ∈ encodings, e.WellFormed) (inst : BitVec 32) :
    ∃ text f, generate lines = some text ∧ compile text = some f ∧
      f.call ⟨.unsigned, inst.toNat⟩ = some (selected encodings inst) := by
  refine ⟨cpp_gen_out encodings, program encodings, ?_, compile_cpp_gen_out fun e inside => (wellFormed e inside).plain, ?_⟩
  · rw [generate, accepted, Option.map_some]
  · exact runBody_stmts fun e inside => (wellFormed e inside).columns

/-- Three lines of the table; the last one agrees with less than the second. -/
def sampleLines : List Str :=
  ["x100 1110 xx1m mmmm 0100 00nn nnnd dddd  -  addhn2 Vd Vn Vm",
    "x000 1011 xx0x xxxx xxxx xxnn nnnd dddd  -  add Rd Rn Rm_SFT",
    "x00x 1011 xx0x xxxx xxxx xxnn nnnd dddd  -  other"].map String.toList

theorem sample_disassembled : ∃ encodings text f, sampleLines.mapM Encoding.ofLine = some encodings ∧
    generate sampleLines = some text ∧ compile text = some f ∧
    f.call ⟨.unsigned, (0x0b010000 : BitVec 32).toNat⟩ = some (selected encodings 0x0b010000) ∧
    selected encodings 0x0b010000 = "add     Rd, Rn, Rm_SFT".toList := by
  have read : ((sampleLines.mapM Encoding.ofLine).map fun encodings =>
      (encodings.all fun e => decide (e.bits_str.length = 32 ∧ Plain e.mnm)) &&
        decide (selected encodings 0x0b010000 = "add     Rd, Rn, Rm_SFT".toList)) = some true := by
    decide +kernel
  obtain ⟨encodings, accepted, checked⟩ := Option.map_eq_some_iff.mp read
  rw [Bool.and_eq_true, List.all_eq_true, decide_eq_true_eq] at checked
  have wellFormed : ∀ e ∈ encodings, e.WellFormed := by
    intro e inside
    have both := of_decide_eq_true (checked.1 e inside)
    exact ⟨both.1, both.2⟩
  obtain ⟨text, f, written, compiled, called⟩ := disassembles accepted wellFormed 0x0b010000
  exact ⟨encodings, text, f, accepted, written, compiled, called, checked.2⟩

end Program

end LotusKit.Disasm
