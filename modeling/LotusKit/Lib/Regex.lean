import Mathlib.Data.List.Basic
import Mathlib.Data.List.TakeWhile
import LotusKit.Lib.Scan

/-! Backtracking regular expressions, as far as `?` and repeated character classes: the ways
to match in the order in which they are tried, of which the first one counts. -/

namespace LotusKit.Lib
open LotusKit.Lib.Scan

inductive Regex where
  | word (w : List Char)
  | one (kind : Char → Bool)
  /-- A class with a greedy `*`. -/
  | star (kind : Char → Bool)
  | seq (r s : Regex)
  /-- A greedy `?`. -/
  | opt (r : Regex)
  | group (n : Nat) (r : Regex)
  | backref (n : Nat)
  /-- `^` -/
  | start
  /-- `$` -/
  | finish

/-- What is left of the text, and what the groups hold. -/
structure Match where
  rest : List Char
  caps : Nat → Option (List Char)

def Match.capture (n : Nat) (w : List Char) (m : Match) : Match :=
  { m with caps := fun k => if k = n then some w else m.caps k }

namespace Regex

def plus (kind : Char → Bool) : Regex := seq (one kind) (star kind)

/-- One after the other. -/
def cat : List Regex → Regex
  | [] => word []
  | [r] => r
  | r :: rs => seq r (cat rs)

/-- The ways to match from some position of a text of the given length. -/
def results (length : Nat) : Regex → Match → List Match
  | word w, m => ((expect w m.rest).map fun rest => { m with rest := rest }).toList
  | one kind, m =>
    match m.rest with
    | [] => []
    | c :: rest => if kind c then [{ m with rest := rest }] else []
  | star kind, m =>
    (List.range ((m.rest.takeWhile kind).length + 1)).reverse.map fun n : Nat =>
      { m with rest := m.rest.drop n }
  | seq r s, m => (results length r m).flatMap (results length s)
  | opt r, m => results length r m ++ [m]
  | group n r, m =>
    (results length r m).map fun m' => m'.capture n (m.rest.take (m.rest.length - m'.rest.length))
  | backref n, m =>
    match m.caps n with
    | none => [m]
    | some w => ((expect w m.rest).map fun rest => { m with rest := rest }).toList
  | start, m => if m.rest.length = length then [m] else []
  | finish, m => if m.rest = [] then [m] else []

/-- The first way to match from the first position from which there is one. -/
def search (length : Nat) (r : Regex) : List Char → Option Match
  | [] => (results length r ⟨[], fun _ => none⟩).head?
  | c :: text =>
    match (results length r ⟨c :: text, fun _ => none⟩).head? with
    | some m => some m
    | none => search length r text

/-- `text.match(r)` -/
def exec (r : Regex) (text : List Char) : Option Match := search text.length r text

/-- `r.test(text)` -/
def test (r : Regex) (text : List Char) : Bool := (r.exec text).isSome

/-- The texts a match can run over. -/
def Lang : Regex → List Char → Prop
  | word w, u => u = w
  | one kind, u => ∃ c, u = [c] ∧ kind c = true
  | star kind, u => ∀ c ∈ u, kind c = true
  | seq r s, u => ∃ v w, u = v ++ w ∧ Lang r v ∧ Lang s w
  | opt r, u => u = [] ∨ Lang r u
  | group _ r, u => Lang r u
  | backref _, _ => True
  | start, u => u = []
  | finish, u => u = []

section Lang
variable {length : Nat} {r s : Regex} {m m' : Match} {text u w : List Char}

theorem lang_of_mem (member : m' ∈ results length r m) : ∃ u, m.rest = u ++ m'.rest ∧ Lang r u := by
  induction r generalizing m m' with
  | word w =>
    simp only [results, Option.mem_toList, Option.map_eq_some_iff] at member
    obtain ⟨rest, found, rfl⟩ := member
    exact ⟨w, eq_append_of_expect found, rfl⟩
  | one kind =>
    simp only [results] at member
    split at member
    · exact absurd member List.not_mem_nil
    next c rest text =>
      split at member
      next of =>
        obtain rfl := List.mem_singleton.mp member
        exact ⟨[c], text, c, rfl, of⟩
      next => exact absurd member List.not_mem_nil
  | star kind =>
    simp only [results, List.mem_map, List.mem_reverse, List.mem_range] at member
    obtain ⟨n, bound, rfl⟩ := member
    refine ⟨m.rest.take n, (List.take_append_drop n m.rest).symm, fun c inside => ?_⟩
    have front : m.rest.take n = (m.rest.takeWhile kind).take n := by
      have isPrefix := List.takeWhile_prefix (p := kind) (l := m.rest)
      obtain ⟨tail, split_⟩ := isPrefix
      conv => lhs; rw [← split_]
      rw [List.take_append_of_le_length (by omega)]
    rw [front] at inside
    exact List.mem_takeWhile_imp (List.mem_of_mem_take inside)
  | seq r s ihr ihs =>
    simp only [results, List.mem_flatMap] at member
    obtain ⟨middle, first, second⟩ := member
    obtain ⟨v, left, langV⟩ := ihr first
    obtain ⟨w, right, langW⟩ := ihs second
    exact ⟨v ++ w, by rw [left, right, List.append_assoc], v, w, rfl, langV, langW⟩
  | opt r ih =>
    simp only [results, List.mem_append, List.mem_singleton] at member
    rcases member with taken | rfl
    · obtain ⟨u, text, lang⟩ := ih taken
      exact ⟨u, text, .inr lang⟩
    · exact ⟨[], rfl, .inl rfl⟩
  | group n r ih =>
    simp only [results, List.mem_map] at member
    obtain ⟨inner, found, rfl⟩ := member
    obtain ⟨u, text, lang⟩ := ih found
    exact ⟨u, text, lang⟩
  | backref n =>
    simp only [results] at member
    split at member
    · obtain rfl := List.mem_singleton.mp member
      exact ⟨[], rfl, trivial⟩
    next w _ =>
      simp only [Option.mem_toList, Option.map_eq_some_iff] at member
      obtain ⟨rest, found, rfl⟩ := member
      exact ⟨w, eq_append_of_expect found, trivial⟩
  | start =>
    simp only [results] at member
    split at member
    · obtain rfl := List.mem_singleton.mp member
      exact ⟨[], rfl, rfl⟩
    · exact absurd member List.not_mem_nil
  | finish =>
    simp only [results] at member
    split at member
    · obtain rfl := List.mem_singleton.mp member
      exact ⟨[], rfl, rfl⟩
    · exact absurd member List.not_mem_nil

/-- A match runs over a stretch of the text. -/
theorem lang_of_search (found : search length r text = some m) :
    ∃ before u, text = before ++ u ++ m.rest ∧ Lang r u := by
  induction text with
  | nil =>
    obtain ⟨u, split_, lang⟩ := lang_of_mem (List.mem_of_head? found)
    exact ⟨[], u, split_, lang⟩
  | cons c text ih =>
    simp only [search] at found
    split at found
    next m' first =>
      obtain rfl := Option.some.inj found
      obtain ⟨u, split_, lang⟩ := lang_of_mem (List.mem_of_head? first)
      exact ⟨[], u, split_, lang⟩
    next =>
      obtain ⟨before, u, split_, lang⟩ := ih found
      exact ⟨c :: before, u, by rw [split_]; rfl, lang⟩

/-- What runs over a sequence is cut where the sequence is cut. -/
theorem lang_cat_append {rs ss : List Regex} (some_ : ss ≠ []) (lang : (cat (rs ++ ss)).Lang u) :
    ∃ v w, u = v ++ w ∧ (cat rs).Lang v ∧ (cat ss).Lang w := by
  induction rs generalizing u with
  | nil => exact ⟨[], u, rfl, rfl, lang⟩
  | cons r rs ih =>
    obtain ⟨s, more, rest⟩ := List.exists_cons_of_ne_nil (List.append_ne_nil_of_right_ne_nil rs some_)
    have cut : cat (r :: rs ++ ss) = seq r (cat (rs ++ ss)) := by
      rw [List.cons_append, rest]
      rfl
    rw [cut] at lang
    obtain ⟨x, y, rfl, first, later⟩ := lang
    obtain ⟨v, w, rfl, front, behind⟩ := ih later
    refine ⟨x ++ v, w, (List.append_assoc x v w).symm, ?_, behind⟩
    cases rs with
    | nil =>
      obtain rfl : v = [] := front
      rwa [List.append_nil]
    | cons s rs => exact ⟨x, v, rfl, first, front⟩

theorem exec_eq_none (without : ∀ before u after, text = before ++ u ++ after → ¬Lang r u) :
    r.exec text = none := by
  cases found : r.exec text with
  | none => rfl
  | some m =>
    obtain ⟨before, u, split_, lang⟩ := lang_of_search found
    exact absurd lang (without before u m.rest split_)

end Lang

/-- The word is a part that cannot be left out. -/
def hasWord (w : List Char) : Regex → Bool
  | word v => v = w
  | seq r s => r.hasWord w || s.hasWord w
  | group _ r => r.hasWord w
  | _ => false

theorem infix_of_lang {r : Regex} {w u : List Char} (needs : r.hasWord w = true) (lang : r.Lang u) :
    w <:+: u := by
  induction r generalizing u with
  | word v =>
    obtain rfl := of_decide_eq_true needs
    obtain rfl := lang
    exact List.infix_refl _
  | seq r s ihr ihs =>
    obtain ⟨x, y, rfl, langX, langY⟩ := lang
    simp only [hasWord, Bool.or_eq_true] at needs
    rcases needs with left | right
    · exact (ihr left langX).trans (List.prefix_append x y).isInfix
    · exact (ihs right langY).trans (List.suffix_append x y).isInfix
  | group n r ih => exact ih needs lang
  | one | star | opt | backref | start | finish => cases needs

theorem exec_eq_none_of_word {r : Regex} {w text : List Char} (needs : r.hasWord w = true)
    (without : ¬w <:+: text) : r.exec text = none := by
  apply exec_eq_none
  intro before u after split_ lang
  apply without
  apply (infix_of_lang needs lang).trans
  exact ⟨before, after, split_.symm⟩

theorem exec_eq_none_of_char {r : Regex} {w text : List Char} (c : Char) (needs : r.hasWord w = true)
    (inWord : c ∈ w) (without : c ∉ text) : r.exec text = none :=
  exec_eq_none_of_word needs fun within => without (within.subset inWord)

/-- Around a character that stands only once in the text the word does not fit. -/
theorem exec_eq_none_of_around {r : Regex} {front behind before after : List Char} {c : Char}
    (needs : r.hasWord (front ++ c :: behind) = true) (once : c ∉ before ∧ c ∉ after)
    (apart : ¬(front <:+ before ∧ behind <+: after)) : r.exec (before ++ c :: after) = none := by
  apply exec_eq_none_of_word needs
  rintro ⟨s, t, split_⟩
  rw [List.append_assoc, List.append_assoc, List.cons_append, ← List.append_assoc] at split_
  obtain ⟨left, -, right⟩ := (List.append_cons_inj_of_notMem once.1 once.2).mp split_.symm
  exact apart ⟨⟨s, left.symm⟩, ⟨t, right.symm⟩⟩

theorem test_of_none {r : Regex} {text : List Char} (none_ : r.exec text = none) : r.test text = false := by
  rw [test, none_]
  rfl

theorem exec_of_test {r : Regex} {text : List Char} (fails : r.test text = false) : r.exec text = none :=
  Option.isNone_iff_eq_none.mp (Option.isSome_eq_false_iff.mp fails)

section Anchored

theorem results_anchored_short {length : Nat} (r : Regex) {m : Match} (short : m.rest.length < length) :
    results length (seq start r) m = [] := by
  rw [results, results, if_neg (by omega), List.flatMap_nil]

theorem search_anchored_short {length : Nat} (r : Regex) {text : List Char} (short : text.length < length) :
    search length (seq start r) text = none := by
  induction text with
  | nil => rw [search, results_anchored_short r short, List.head?_nil]
  | cons c text ih =>
    have shorter : text.length < length := by
      rw [List.length_cons] at short
      omega
    rw [search, results_anchored_short r short, List.head?_nil]
    exact ih shorter

/-- With `^` only the start of the text is tried. -/
theorem exec_anchored (r : Regex) (text : List Char) :
    (seq start r).exec text = (results text.length r ⟨text, fun _ => none⟩).head? := by
  have here : results text.length (seq start r) ⟨text, fun _ => none⟩ =
      results text.length r ⟨text, fun _ => none⟩ := by
    rw [results, results, if_pos rfl, List.flatMap_singleton]
  cases text with
  | nil => rw [exec, search, here]
  | cons c text =>
    rw [exec, search, here]
    cases (results (c :: text).length r ⟨c :: text, fun _ => none⟩).head? with
    | some m => rfl
    | none => exact search_anchored_short r (Nat.lt_succ_self text.length)

/-- Behind `^` and repeated characters there is a word that the text does not start with. -/
theorem exec_anchored_of_ne {kind : Char → Bool} {r : Regex} {c d : Char} {w text : List Char}
    (other : kind c = false) (different : d ≠ c) :
    (seq start (seq (star kind) (seq (word (d :: w)) r))).exec (c :: text) = none := by
  have taken : (c :: text).takeWhile kind = [] := by
    rw [List.takeWhile_cons_of_neg]
    rw [other]
    decide
  rw [exec_anchored]
  simp only [results, taken, List.length_nil, List.range_succ, List.range_zero, List.nil_append,
    List.reverse_singleton, List.map_cons, List.map_nil, List.flatMap_singleton, List.drop_zero,
    expect_cons_ne different, Option.map_none, Option.toList_none, List.flatMap_nil, List.head?_nil]

end Anchored

section Captures
variable {length n : Nat} {r : Regex} {m m' : Match} {text w : List Char}

/-- What a group holds was there before or is part of the text. -/
theorem caps_of_mem (member : m' ∈ results length r m) (held : m'.caps n = some w) :
    m.caps n = some w ∨ w <:+: m.rest := by
  induction r generalizing m m' with
  | word v =>
    simp only [results, Option.mem_toList, Option.map_eq_some_iff] at member
    obtain ⟨rest, -, rfl⟩ := member
    exact .inl held
  | one kind =>
    simp only [results] at member
    split at member
    · exact absurd member List.not_mem_nil
    · split at member
      · obtain rfl := List.mem_singleton.mp member
        exact .inl held
      · exact absurd member List.not_mem_nil
  | star kind =>
    simp only [results, List.mem_map] at member
    obtain ⟨k, -, rfl⟩ := member
    exact .inl held
  | seq r s ihr ihs =>
    simp only [results, List.mem_flatMap] at member
    obtain ⟨middle, first, second⟩ := member
    rcases ihs second held with before | part
    · exact ihr first before
    · obtain ⟨u, split_, -⟩ := lang_of_mem first
      right
      rw [split_]
      exact part.trans (List.suffix_append u middle.rest).isInfix
  | opt r ih =>
    simp only [results, List.mem_append, List.mem_singleton] at member
    rcases member with taken | rfl
    · exact ih taken held
    · exact .inl held
  | group k r ih =>
    simp only [results, List.mem_map] at member
    obtain ⟨inner, found, rfl⟩ := member
    simp only [Match.capture] at held
    split at held
    · right
      obtain rfl := Option.some.inj held
      exact (List.take_prefix _ _).isInfix
    · exact ih found held
  | backref k =>
    simp only [results] at member
    split at member
    · obtain rfl := List.mem_singleton.mp member
      exact .inl held
    · simp only [Option.mem_toList, Option.map_eq_some_iff] at member
      obtain ⟨rest, -, rfl⟩ := member
      exact .inl held
  | start =>
    simp only [results] at member
    split at member
    · obtain rfl := List.mem_singleton.mp member
      exact .inl held
    · exact absurd member List.not_mem_nil
  | finish =>
    simp only [results] at member
    split at member
    · obtain rfl := List.mem_singleton.mp member
      exact .inl held
    · exact absurd member List.not_mem_nil

theorem caps_of_search (found : search length r text = some m) (held : m.caps n = some w) : w <:+: text := by
  induction text with
  | nil => exact (caps_of_mem (List.mem_of_head? found) held).resolve_left nofun
  | cons c text ih =>
    simp only [search] at found
    split at found
    next m' first =>
      obtain rfl := Option.some.inj found
      exact (caps_of_mem (List.mem_of_head? first) held).resolve_left nofun
    next => exact (ih found).trans (List.suffix_cons c text).isInfix

end Captures

/-- The way that is tried first. -/
def First (length : Nat) (r : Regex) (m m' : Match) : Prop := (results length r m).head? = some m'

section First
variable {length n : Nat} {r s : Regex} {m m' m'' : Match} {caps : Nat → Option (List Char)}
  {kind : Char → Bool} {u rest : List Char} {c : Char}

theorem first_word (w rest : List Char) (caps : Nat → Option (List Char)) :
    First length (word w) ⟨w ++ rest, caps⟩ ⟨rest, caps⟩ := by
  simp only [First, results, expect_append]
  rfl

theorem first_one (of : kind c = true) : First length (one kind) ⟨c :: rest, caps⟩ ⟨rest, caps⟩ := by
  simp only [First, results, of, if_true, List.head?_cons]

/-- A class is repeated as often as possible. -/
theorem first_star (all : ∀ c ∈ u, kind c = true) (ends : Ends kind rest) :
    First length (star kind) ⟨u ++ rest, caps⟩ ⟨rest, caps⟩ := by
  simp only [First, results, ends.takeWhile all, List.range_succ, List.reverse_append,
    List.reverse_singleton, List.singleton_append, List.map_cons, List.head?_cons, List.drop_left]

theorem First.seq (first : First length r m m') (second : First length s m' m'') :
    First length (seq r s) m m'' := by
  unfold First at first second ⊢
  obtain ⟨more, front⟩ := List.head?_eq_some_iff.mp first
  obtain ⟨more', front'⟩ := List.head?_eq_some_iff.mp second
  rw [results, front, List.flatMap_cons, front']
  rfl

theorem first_plus (some_ : u ≠ []) (all : ∀ c ∈ u, kind c = true) (ends : Ends kind rest) :
    First length (plus kind) ⟨u ++ rest, caps⟩ ⟨rest, caps⟩ := by
  cases u with
  | nil => exact absurd rfl some_
  | cons c u =>
    apply First.seq (first_one (all c List.mem_cons_self))
    exact first_star (fun d member => all d (List.mem_cons_of_mem c member)) ends

theorem First.opt (first : First length r m m') : First length (opt r) m m' := by
  unfold First at first ⊢
  obtain ⟨more, front⟩ := List.head?_eq_some_iff.mp first
  rw [results, front]
  rfl

theorem first_skip (fails : results length r m = []) : First length (opt r) m m := by
  unfold First
  rw [results, fails]
  rfl

theorem First.group (first : First length r ⟨u ++ rest, caps⟩ ⟨rest, caps⟩) :
    First length (group n r) ⟨u ++ rest, caps⟩ (Match.capture n u ⟨rest, caps⟩) := by
  unfold First at first ⊢
  obtain ⟨more, front⟩ := List.head?_eq_some_iff.mp first
  have taken : (u ++ rest).take ((u ++ rest).length - rest.length) = u := by
    rw [List.length_append, Nat.add_sub_cancel_right, List.take_left]
  simp only [results, front, List.map_cons, List.head?_cons, taken]

theorem first_backref {w : List Char} (held : caps n = some w) :
    First length (backref n) ⟨w ++ rest, caps⟩ ⟨rest, caps⟩ := by
  simp only [First, results, held, expect_append]
  rfl

theorem first_start (here : m.rest.length = length) : First length start m m := by
  simp only [First, results, if_pos here, List.head?_cons]

/-- A match from where the search has got to. -/
theorem First.search {text : List Char} (first : First length r ⟨text, fun _ => none⟩ m) :
    Regex.search length r text = some m := by
  cases text with
  | nil => exact first
  | cons c text =>
    unfold Regex.search
    rw [first]

/-- A match from the start of the text. -/
theorem First.exec {text : List Char} (first : First text.length r ⟨text, fun _ => none⟩ m) :
    r.exec text = some m := first.search

/-- A position from which there is no way to match is left behind. -/
theorem search_cons {text : List Char} (fails : results length r ⟨c :: text, fun _ => none⟩ = []) :
    search length r (c :: text) = search length r text := by
  rw [search, fails]
  rfl

theorem results_seq_of_nil (fails : results length r m = []) : results length (seq r s) m = [] := by
  rw [results, fails, List.flatMap_nil]

/-- A class gives back its last character where what follows fails without it. -/
theorem First.giveBack {s : Regex} (all : ∀ d ∈ u ++ [c], kind d = true) (ends : Ends kind rest)
    (fails : results length s ⟨rest, caps⟩ = []) (first : First length s ⟨c :: rest, caps⟩ m') :
    First length (Regex.seq (star kind) s) ⟨u ++ c :: rest, caps⟩ m' := by
  have text : u ++ c :: rest = u ++ [c] ++ rest := by rw [List.append_assoc, List.singleton_append]
  have taken := ends.takeWhile all
  have all_ : (u ++ [c]).length = u.length + 1 := by rw [List.length_append, List.length_singleton]
  have whole : (u ++ c :: rest).drop (u.length + 1) = rest := by rw [text, ← all_, List.drop_left]
  unfold First at first ⊢
  obtain ⟨more, front⟩ := List.head?_eq_some_iff.mp first
  rw [← text] at taken
  simp only [results, taken, all_, List.range_succ, List.reverse_append, List.reverse_singleton, List.map_cons, List.flatMap_cons, whole, fails, List.nil_append, List.drop_left,
    front, List.cons_append, List.head?_cons]

theorem results_word_of_none {w : List Char} (fails : expect w m.rest = none) :
    results length (word w) m = [] := by
  rw [results, fails]
  rfl

theorem expect_short {w text : List Char} (short : text.length < w.length) : expect w text = none := by
  cases found : expect w text with
  | none => rfl
  | some rest =>
    have lengths := congrArg List.length (eq_append_of_expect found)
    rw [List.length_append] at lengths
    omega

/-- A group that could take all there is leaves the word at the end. -/
theorem First.groupBefore {w : List Char} (all : ∀ d ∈ u ++ w, kind d = true) :
    First length (Regex.seq (Regex.group n (star kind)) (word w)) ⟨u ++ w, caps⟩
      (Match.capture n u ⟨[], caps⟩) := by
  have taken := ends_nil.takeWhile all
  rw [List.append_nil] at taken
  have counts : (List.range ((u ++ w).length + 1)).reverse =
      ((List.range w.length).map (u.length + 1 + ·)).reverse ++ u.length :: (List.range u.length).reverse := by
    have sum : (u ++ w).length + 1 = u.length + 1 + w.length := by
      rw [List.length_append]
      omega
    rw [sum, List.range_add, List.reverse_append, List.range_succ, List.reverse_append]
    rfl
  have ways : results length (Regex.seq (Regex.group n (star kind)) (word w)) ⟨u ++ w, caps⟩ =
      (List.range ((u ++ w).length + 1)).reverse.flatMap fun k : Nat =>
        results length (word w) (Match.capture n ((u ++ w).take ((u ++ w).length - ((u ++ w).drop k).length))
          ⟨(u ++ w).drop k, caps⟩) := by
    simp only [results, taken, List.map_map, List.flatMap_map, Function.comp_apply]
  have longer : (((List.range w.length).map (u.length + 1 + ·)).reverse.flatMap fun k : Nat =>
      results length (word w) (Match.capture n ((u ++ w).take ((u ++ w).length - ((u ++ w).drop k).length))
        ⟨(u ++ w).drop k, caps⟩)) = [] := by
    rw [List.flatMap_eq_nil_iff]
    intro k member
    obtain ⟨more, inside, rfl⟩ := List.mem_map.mp (List.mem_reverse.mp member)
    have short : ((u ++ w).drop (u.length + 1 + more)).length < w.length := by
      have bound := List.mem_range.mp inside
      rw [List.length_drop, List.length_append]
      omega
    apply results_word_of_none
    exact expect_short short
  have own : (u ++ w).take ((u ++ w).length - w.length) = u := by
    rw [List.length_append, Nat.add_sub_cancel_right, List.take_left]
  have last : expect w w = some [] := by
    have whole := expect_append w []
    rwa [List.append_nil] at whole
  unfold First
  rw [ways, counts, List.flatMap_append, longer, List.nil_append, List.flatMap_cons]
  simp only [List.drop_left, own, results, Match.capture, last]
  rfl

end First

end Regex

end LotusKit.Lib
