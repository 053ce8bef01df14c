import LotusKit.Lib.Scan

/-! The tokens of a small part of C++: names, decimal literals, string literals without escapes
and a few symbols. Comments and directives are passed over. -/

namespace LotusKit.Lib.Cpp

inductive Symbol where
  | lparen | rparen | lbrace | rbrace | semicolon | comma | tilde | star
  | assign | equal | amp | andAnd | colon | scope
  deriving DecidableEq

inductive Token where
  | name (word : List Char)
  | number (value : Nat)
  | text (value : List Char)
  | symbol (s : Symbol)
  deriving DecidableEq

def isWordChar (c : Char) : Bool := c.isAlphanum || c == '_'

/-- A number that starts with `0` is no decimal literal. -/
def wordToken (word : List Char) : Option Token :=
  match word with
  | [] => none
  | c :: rest =>
    if c.isDigit then
      if rest.all Char.isDigit ∧ (c ≠ '0' ∨ rest = []) then some (.number (Nat.ofDigitChars 10 word 0)) else none
    else some (.name word)

/-- A symbol of one character that starts no longer one. -/
def single : Char → Option Symbol
  | '(' => some .lparen
  | ')' => some .rparen
  | '\x7b' => some .lbrace
  | '\x7d' => some .rbrace
  | ';' => some .semicolon
  | ',' => some .comma
  | '~' => some .tilde
  | '*' => some .star
  | _ => none

/-- A symbol that is doubled into another one. -/
def doubled : Char → Option (Symbol × Symbol)
  | '=' => some (.assign, .equal)
  | '&' => some (.amp, .andAnd)
  | ':' => some (.colon, .scope)
  | _ => none

/-- Where the lexer is; the characters of a word or a literal are newest first. -/
inductive Mode where
  | between
  | word (back : List Char)
  | half (c : Char) (once twice : Symbol)
  | slash
  | literal (back : List Char)
  | comment
  | failed
  deriving DecidableEq

/-- The tokens are newest first. -/
structure Lexer where
  mode : Mode
  tokens : List Token
  deriving DecidableEq

namespace Lexer

/-- A character that starts a token, or stands between tokens. -/
def start (tokens : List Token) (c : Char) : Lexer :=
  if c = ' ' ∨ c = '\n' ∨ c = '\t' then ⟨.between, tokens⟩
  else if isWordChar c then ⟨.word [c], tokens⟩
  else if c = '"' then ⟨.literal [], tokens⟩
  else if c = '/' then ⟨.slash, tokens⟩
  else if c = '#' then ⟨.comment, tokens⟩
  else
    match single c, doubled c with
    | some s, _ => ⟨.between, .symbol s :: tokens⟩
    | none, some (once, twice) => ⟨.half c once twice, tokens⟩
    | none, none => ⟨.failed, tokens⟩

def next (l : Lexer) (c : Char) : Lexer :=
  match l.mode with
  | .between => start l.tokens c
  | .word back =>
    if isWordChar c then ⟨.word (c :: back), l.tokens⟩
    else
      match wordToken back.reverse with
      | some token => start (token :: l.tokens) c
      | none => ⟨.failed, l.tokens⟩
  | .half d once twice =>
    if c = d then ⟨.between, .symbol twice :: l.tokens⟩ else start (.symbol once :: l.tokens) c
  | .slash => if c = '/' then ⟨.comment, l.tokens⟩ else ⟨.failed, l.tokens⟩
  | .literal back =>
    if c = '"' then ⟨.between, .text back.reverse :: l.tokens⟩
    else if c = '\\' ∨ c = '\n' ∨ c = '\r' ∨ c = '\x00' then ⟨.failed, l.tokens⟩
    else ⟨.literal (c :: back), l.tokens⟩
  | .comment =>
    if c = '\n' then ⟨.between, l.tokens⟩ else if c = '\\' ∨ c = '\r' ∨ c = '\x00' then ⟨.failed, l.tokens⟩ else l
  | .failed => l

def run (l : Lexer) (text : List Char) : Lexer := text.foldl next l

/-- At the end of the text. -/
def finish (l : Lexer) : Option (List Token) :=
  match l.mode with
  | .between => some l.tokens.reverse
  | .comment => some l.tokens.reverse
  | .word back => (wordToken back.reverse).map fun token => (token :: l.tokens).reverse
  | .half _ once _ => some (.symbol once :: l.tokens).reverse
  | _ => none

end Lexer

def tokenize (text : List Char) : Option (List Token) := (Lexer.run ⟨.between, []⟩ text).finish

/-- A character that stands for itself in a literal and in a comment. -/
def isPlain (c : Char) : Bool := c ≠ '"' ∧ c ≠ '\\' ∧ c ≠ '\n' ∧ c ≠ '\r' ∧ c ≠ '\x00'

def Plain (text : List Char) : Prop := text.all isPlain = true

instance (text : List Char) : Decidable (Plain text) := inferInstanceAs (Decidable (_ = true))

section Runs
variable {tokens : List Token} {text more back : List Char} {l : Lexer}

theorem run_append : l.run (text ++ more) = (l.run text).run more := List.foldl_append

/-- The tokens before do not matter. -/
theorem start_append (more : List Token) (c : Char) :
    Lexer.start (tokens ++ more) c = ⟨(Lexer.start tokens c).mode, (Lexer.start tokens c).tokens ++ more⟩ := by
  unfold Lexer.start
  split_ifs
  · rfl
  · rfl
  · rfl
  · rfl
  · rfl
  · cases single c with
    | some s => rfl
    | none =>
      cases doubled c with
      | some both => rfl
      | none => rfl

theorem next_append (mode : Mode) (more : List Token) (c : Char) :
    Lexer.next ⟨mode, tokens ++ more⟩ c = ⟨(Lexer.next ⟨mode, tokens⟩ c).mode, (Lexer.next ⟨mode, tokens⟩ c).tokens ++ more⟩ := by
  unfold Lexer.next
  cases mode with
  | between => exact start_append more c
  | word back =>
    simp only
    split_ifs
    · rfl
    · cases wordToken back.reverse with
      | some token => exact @start_append (token :: tokens) more c
      | none => rfl
  | half d once twice =>
    simp only
    split_ifs
    · rfl
    · exact @start_append (.symbol once :: tokens) more c
  | slash =>
    simp only
    split_ifs
    · rfl
    · rfl
  | literal back =>
    simp only
    split_ifs
    · rfl
    · rfl
    · rfl
  | comment =>
    simp only
    split_ifs
    · rfl
    · rfl
    · rfl
  | failed => rfl

theorem run_tokens (mode : Mode) (more : List Token) :
    Lexer.run ⟨mode, tokens ++ more⟩ text = ⟨(Lexer.run ⟨mode, tokens⟩ text).mode, (Lexer.run ⟨mode, tokens⟩ text).tokens ++ more⟩ := by
  induction text generalizing mode tokens with
  | nil => rfl
  | cons c text ih =>
    rw [Lexer.run, List.foldl_cons, next_append, Lexer.run, List.foldl_cons]
    exact ih _

/-- A run from no tokens is a run from any tokens. -/
theorem run_of_nil {mode mode' : Mode} {new : List Token} (run : Lexer.run ⟨mode, []⟩ text = ⟨mode', new⟩) :
    Lexer.run ⟨mode, tokens⟩ text = ⟨mode', new ++ tokens⟩ := by
  have all := @run_tokens [] text mode tokens
  rwa [run] at all

theorem plain_cons {c : Char} (plain : Plain (c :: text)) :
    (c ≠ '"' ∧ c ≠ '\\' ∧ c ≠ '\n' ∧ c ≠ '\r' ∧ c ≠ '\x00') ∧ Plain text := by
  rw [Plain, List.all_cons, Bool.and_eq_true] at plain
  exact ⟨of_decide_eq_true plain.1, plain.2⟩

theorem run_literal (plain : Plain text) : Lexer.run ⟨.literal back, tokens⟩ text = ⟨.literal (text.reverse ++ back), tokens⟩ := by
  induction text generalizing back with
  | nil => rfl
  | cons c text ih =>
    have ⟨⟨quote, escape, line, return_, nul⟩, rest⟩ := plain_cons plain
    have here : Lexer.next ⟨.literal back, tokens⟩ c = ⟨.literal (c :: back), tokens⟩ := by
      simp only [Lexer.next, if_neg quote, escape, line, return_, nul, or_self, if_false]
    rw [Lexer.run, List.foldl_cons, here, ← Lexer.run, ih rest, List.reverse_cons, List.append_assoc]
    rfl

theorem run_quote : Lexer.run ⟨.literal back, tokens⟩ ('"' :: text) = Lexer.run ⟨.between, .text back.reverse :: tokens⟩ text := rfl

theorem run_comment (plain : Plain text) : Lexer.run ⟨.comment, tokens⟩ text = ⟨.comment, tokens⟩ := by
  induction text with
  | nil => rfl
  | cons c text ih =>
    have ⟨⟨_, escape, line, return_, nul⟩, rest⟩ := plain_cons plain
    have here : Lexer.next ⟨.comment, tokens⟩ c = ⟨.comment, tokens⟩ := by
      simp only [Lexer.next, if_neg line, escape, return_, nul, or_self, if_false]
    rw [Lexer.run, List.foldl_cons, here]
    exact ih rest

theorem run_word (all : ∀ c ∈ text, isWordChar c = true) : Lexer.run ⟨.word back, tokens⟩ text = ⟨.word (text.reverse ++ back), tokens⟩ := by
  induction text generalizing back with
  | nil => rfl
  | cons c text ih =>
    have ⟨here, rest⟩ := List.forall_mem_cons.mp all
    have step : Lexer.next ⟨.word back, tokens⟩ c = ⟨.word (c :: back), tokens⟩ := by
      simp only [Lexer.next, here, if_true]
    rw [Lexer.run, List.foldl_cons, step, ← Lexer.run, ih rest, List.reverse_cons, List.append_assoc]
    rfl

theorem wordToken_toDigits (n : Nat) : wordToken (Nat.toDigits 10 n) = some (.number n) := by
  obtain ⟨c, rest, digits, digit⟩ := Scan.exists_toDigits_eq_cons n
  have all : rest.all Char.isDigit = true := by
    rw [List.all_eq_true]
    intro d inside
    exact Scan.isDigit_of_mem d (digits ▸ List.mem_cons_of_mem c inside)
  have front : c ≠ '0' ∨ rest = [] := by
    by_cases zero : n = 0
    · right
      rw [zero, Nat.toDigits_zero] at digits
      exact (List.cons.inj digits).2.symm
    · left
      have head := Scan.head?_toDigits (Nat.pos_of_ne_zero zero)
      rw [digits] at head
      exact fun same => head (congrArg some same)
  have value : Nat.ofDigitChars 10 (c :: rest) 0 = n := by rw [← digits, Nat.ofDigitChars_ten_toDigits]
  rw [digits, wordToken, if_pos digit, if_pos ⟨all, front⟩, value]

theorem isWordChar_of_isDigit {c : Char} (digit : c.isDigit = true) : isWordChar c = true := by
  rw [isWordChar, Char.isAlphanum, digit, Bool.or_true, Bool.true_or]

theorem start_word {c : Char} (wordy : isWordChar c = true) : Lexer.start tokens c = ⟨.word [c], tokens⟩ := by
  have apart : ¬ (c = ' ' ∨ c = '\n' ∨ c = '\t') := by
    rintro (rfl | rfl | rfl)
    · exact absurd wordy (by decide)
    · exact absurd wordy (by decide)
    · exact absurd wordy (by decide)
  rw [Lexer.start, if_neg apart, if_pos wordy]

theorem run_toDigits (n : Nat) :
    Lexer.run ⟨.between, tokens⟩ (Nat.toDigits 10 n) = ⟨.word (Nat.toDigits 10 n).reverse, tokens⟩ := by
  obtain ⟨d, rest, digits, digit⟩ := Scan.exists_toDigits_eq_cons n
  have wordy : ∀ e ∈ rest, isWordChar e = true := fun e inside =>
    isWordChar_of_isDigit (Scan.isDigit_of_mem e (digits ▸ List.mem_cons_of_mem d inside))
  rw [digits]
  calc Lexer.run ⟨.between, tokens⟩ (d :: rest) = (Lexer.start tokens d).run rest := rfl
    _ = ⟨.word (rest.reverse ++ [d]), tokens⟩ := by rw [start_word (isWordChar_of_isDigit digit), run_word wordy]
    _ = ⟨.word (d :: rest).reverse, tokens⟩ := by rw [List.reverse_cons]

/-- Behind a printed number stands no letter and no digit. -/
theorem run_behind (n : Nat) (ends : text.head?.map isWordChar = some false) :
    Lexer.run ⟨.word (Nat.toDigits 10 n).reverse, tokens⟩ text = Lexer.run ⟨.between, .number n :: tokens⟩ text := by
  cases text with
  | nil => cases ends
  | cons c text =>
    have other : isWordChar c = false := Option.some.inj ends
    have last : Lexer.next ⟨.word (Nat.toDigits 10 n).reverse, tokens⟩ c = Lexer.next ⟨.between, .number n :: tokens⟩ c := by
      simp only [Lexer.next, other, Bool.false_eq_true, if_false, List.reverse_reverse, wordToken_toDigits]
    rw [Lexer.run, List.foldl_cons, last]
    rfl

variable {m n : Lexer}

/-- One piece of a text after the other. -/
theorem run_step (first : l.run text = m) (rest : m.run more = n) : l.run (text ++ more) = n := by
  rw [run_append, first, rest]

theorem run_step_number (k : Nat) (ends : text.head?.map isWordChar = some false)
    (rest : Lexer.run ⟨.between, .number k :: tokens⟩ (text ++ more) = n) :
    Lexer.run ⟨.between, tokens⟩ (Nat.toDigits 10 k ++ (text ++ more)) = n := by
  rw [run_append, run_toDigits, run_append, run_behind k ends, ← run_append, rest]

end Runs

end LotusKit.Lib.Cpp
