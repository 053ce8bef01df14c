import LotusKit.Server.Handshake
import Mathlib.Data.List.TakeWhile

/-! The key that is taken from a request. Of the lines with a key, the first one that is not longer
than 30 characters counts, even if nothing stands in it; longer ones are cut off and overwritten. -/

namespace LotusKit.Server
open LotusKit.Lib.Memory LotusKit.Lib.Repeat LotusKit.Lib.Scan

/-- A line, without what ends it. -/
structure HeaderLine where
  text : List Char
  some_ : text ≠ []
  inLine : ¬crlf <:+: text

/-- The key in a line, if it is a line with a key. -/
def HeaderLine.key (l : HeaderLine) : Option (List Char) :=
  (expect keyHeader l.text).map fun rest => rest.takeWhile (· ≠ '\r')

/-- A request that the route is found for: what follows it in the first line, and the headers. -/
structure Request where
  target : List Char
  headers : List HeaderLine
  inLine : ¬crlf <:+: target
  nulFree : ∀ l ∈ headers, ∀ key ∈ l.key, terminator ∉ key

namespace Request

/-- The end of the first line, and the other ones up to the empty one. -/
def rest (headers : List HeaderLine) : List Char :=
  crlf ++ headers.flatMap (fun l => l.text ++ crlf) ++ crlf

theorem rest_cons (l : HeaderLine) (headers : List HeaderLine) :
    rest (l :: headers) = crlf ++ (l.text ++ rest headers) := by
  simp only [rest, List.flatMap_cons, List.append_assoc]

theorem rest_eq (headers : List HeaderLine) : ∃ more, rest headers = crlf ++ more ∧ 2 ≤ more.length := by
  refine ⟨headers.flatMap (fun l => l.text ++ crlf) ++ crlf, by rw [rest, List.append_assoc], ?_⟩
  rw [List.length_append]
  exact Nat.le_add_left _ _

def text (request : Request) : List Char := route ++ (request.target ++ rest request.headers)

def keys (request : Request) : List (List Char) := request.headers.filterMap HeaderLine.key

end Request

/-- What comes of keys when there was `old` before. -/
def chosenAfter (old : List Char) (keys : List (List Char)) : List Char :=
  match keys.find? (·.length ≤ 30) with
  | some key => key
  | none => (keys.getLast?.map fun key => key.take 31).getD old

theorem chosenAfter_cons_short {key : List Char} (short : key.length ≤ 30) (old : List Char)
    (keys : List (List Char)) : chosenAfter old (key :: keys) = key := by
  rw [chosenAfter, List.find?_cons_of_pos (by simpa using short)]

theorem chosenAfter_cons_long {key : List Char} (long : 30 < key.length) (old : List Char)
    (keys : List (List Char)) : chosenAfter old (key :: keys) = chosenAfter (key.take 31) keys := by
  rw [chosenAfter, chosenAfter, List.find?_cons_of_neg (by simpa using long)]
  cases keys.find? (·.length ≤ 30) with
  | some found => rfl
  | none =>
    cases keys with
    | nil => rfl
    | cons next keys =>
      simp only [List.getLast?_cons_cons]
      rw [List.getLast?_eq_some_getLast (List.cons_ne_nil next keys)]
      rfl

section Buffer
variable {buf : Nat → Char} {i : Nat} {text rest : List Char} {c : Char}

/-- The text is in the buffer, all of it. -/
structure InBuf (buf : Nat → Char) (i : Nat) (text : List Char) : Prop where
  holds : Holds buf ⟨i, text⟩
  inside : i + text.length ≤ MAX_HTTP_REQ_HEADER_LEN

theorem InBuf.behind (inBuf : InBuf buf i (text ++ rest)) : InBuf buf (i + text.length) rest := by
  obtain ⟨holds, inside⟩ := inBuf
  unfold Holds at holds
  rw [List.length_append] at inside
  simp only [List.length_append, load_add] at holds
  exact ⟨(List.append_inj holds (length_load _ _ _)).2, by omega⟩

theorem InBuf.front (inBuf : InBuf buf i (text ++ rest)) : InBuf buf i text := by
  have inside := inBuf.inside
  rw [List.length_append] at inside
  exact ⟨inBuf.holds.front, by omega⟩

theorem InBuf.next (inBuf : InBuf buf i (c :: rest)) : InBuf buf (i + 1) rest :=
  @InBuf.behind _ _ [c] _ inBuf

theorem InBuf.readBuf (inBuf : InBuf buf i (c :: rest)) : readBuf buf i = some c := by
  have first : buf i = c := inBuf.holds.get (Nat.succ_pos rest.length)
  have inside := inBuf.inside
  rw [List.length_cons] at inside
  rw [Server.readBuf, if_pos (by omega), first]

/-- The comparison ends inside of the text, when not all of the text is compared with a part of
the word. -/
theorem InBuf.comparesTo (inBuf : InBuf buf i text) (word : List Char)
    (enough : text <+: word → word.length ≤ text.length) : comparesTo buf word i = some (word.isPrefixOf text) := by
  induction word generalizing i text with
  | nil => rfl
  | cons d word ih =>
    cases text with
    | nil => exact absurd (enough List.nil_prefix) (Nat.not_succ_le_zero _)
    | cons c text =>
      simp only [Server.comparesTo, inBuf.readBuf, Option.bind_eq_bind, Option.bind_some]
      by_cases same : c = d
      · have enough' : text <+: word → word.length ≤ text.length := by
          intro more
          have less := enough (List.cons_prefix_cons.mpr ⟨same, more⟩)
          simp only [List.length_cons] at less
          omega
        rw [if_pos same, ih inBuf.next enough', same, List.isPrefixOf_cons_cons_self]
      · have differs : (d :: word).isPrefixOf (c :: text) = false := by
          rw [List.isPrefixOf_cons_cons, beq_false_of_ne (Ne.symm same), Bool.false_and]
        rw [if_neg same, differs]

end Buffer

section Copy
variable {buf : Nat → Char} {recvSize i : Nat} {key rest done tail : List Char}

theorem setKey_concat {wsKey_i : Nat} (c d : Char) (size : done.length = wsKey_i) :
    setKey (done ++ d :: tail) wsKey_i c = some (done ++ [c] ++ tail) := by
  rw [setKey, if_pos (by rw [List.length_append, List.length_cons]; omega), List.append_assoc, List.singleton_append,
    List.set_append_right _ _ (Nat.le_of_eq size), ← size, Nat.sub_self, List.set_cons_zero]

/-- A short key is copied whole, and closed. -/
theorem copyKey_short (inBuf : InBuf buf i (key ++ '\r' :: rest)) (inLine : '\r' ∉ key)
    (below : i + key.length < recvSize) (short : done.length + key.length ≤ 30)
    (room : key.length < tail.length) : (copyKey buf recvSize).run ⟨i, done.length, done ++ tail⟩ =
      some (recvSize - 1, done ++ key ++ terminator :: tail.drop (key.length + 1)) := by
  induction key generalizing i done tail with
  | nil =>
    cases tail with
    | nil => exact absurd room (Nat.lt_irrefl 0)
    | cons d tail =>
      apply Loop.run_leaves
      simp only [copyKey, inBuf.readBuf, if_true, setKey_concat terminator d rfl, Option.map_some]
      rw [List.append_nil, List.append_assoc]
      rfl
  | cons c key ih =>
    cases tail with
    | nil => exact absurd room (Nat.not_lt_zero _)
    | cons d tail =>
      simp only [List.mem_cons, not_or, List.length_cons] at inLine below short room
      have goesOn : (copyKey buf recvSize).body ⟨i, done.length, done ++ d :: tail⟩ =
          .inl ⟨i + 1, done.length + 1, done ++ [c] ++ tail⟩ := by
        simp only [copyKey, inBuf.readBuf, setKey_concat c d rfl]
        rw [if_neg (Ne.symm inLine.1), if_pos (by omega), if_pos (by omega)]
      have size : (done ++ [c]).length = done.length + 1 := by rw [List.length_append, List.length_singleton]
      have rest_ := @ih (i + 1) (done ++ [c]) tail inBuf.next inLine.2 (by omega) (by omega) (by omega)
      rw [size] at rest_
      rw [Loop.run_goesOn goesOn, rest_, List.append_assoc done [c] key]
      rfl

/-- Of a long key, as much is copied as there is room for. -/
theorem copyKey_long (inBuf : InBuf buf i key) (inLine : '\r' ∉ key) (some_ : key ≠ [])
    (below : i + key.length ≤ recvSize) (full : done.length + key.length = 31) (room : key.length ≤ tail.length) :
    (copyKey buf recvSize).run ⟨i, done.length, done ++ tail⟩ =
      some (i + key.length - 1, done ++ key ++ tail.drop key.length) := by
  induction key generalizing i done tail with
  | nil => exact absurd rfl some_
  | cons c key ih =>
    cases tail with
    | nil => exact absurd room (Nat.not_succ_le_zero _)
    | cons d tail =>
      simp only [List.mem_cons, not_or, List.length_cons] at inLine below full room
      cases key with
      | nil =>
        apply Loop.run_leaves
        rw [List.length_nil] at full
        simp only [copyKey, inBuf.readBuf, setKey_concat c d rfl]
        rw [if_neg (Ne.symm inLine.1), if_neg (by omega)]
        rfl
      | cons e key =>
        rw [List.length_cons] at below full
        have goesOn : (copyKey buf recvSize).body ⟨i, done.length, done ++ d :: tail⟩ =
            .inl ⟨i + 1, done.length + 1, done ++ [c] ++ tail⟩ := by
          simp only [copyKey, inBuf.readBuf, setKey_concat c d rfl]
          rw [if_neg (Ne.symm inLine.1), if_pos (by omega), if_pos (by omega)]
        have size : (done ++ [c]).length = done.length + 1 := by rw [List.length_append, List.length_singleton]
        have rest_ := @ih (i + 1) (done ++ [c]) tail inBuf.next inLine.2 (List.cons_ne_nil _ _)
          (by rw [List.length_cons]; omega) (by rw [List.length_cons]; omega) (by omega)
        rw [size] at rest_
        rw [Loop.run_goesOn goesOn, rest_, List.append_assoc done [c]]
        simp only [List.length_cons]
        congr 2
        omega

end Copy

section Lines
variable {buf : Nat → Char} {recvSize i : Nat} {line more old wsKey : List Char} {c : Char}

/-- What does not come in a word ends a prefix of it. -/
theorem prefix_of_append_cons {word : List Char} (absent : c ∉ word) (starts : word <+: line ++ c :: more) :
    word <+: line := by
  rcases Nat.lt_or_ge line.length word.length with longer | shorter
  · have within := starts.getElem longer
    rw [List.getElem_append_right (Nat.le_refl _)] at within
    simp only [Nat.sub_self, List.getElem_cons_zero] at within
    exact absurd (within ▸ List.getElem_mem longer) absent
  · exact List.prefix_of_prefix_length_le starts (List.prefix_append _ _) shorter

theorem not_crlf_start (inLine : ¬crlf <:+: c :: line) : crlf.isPrefixOf (c :: line ++ crlf ++ more) = false := by
  rw [Bool.eq_false_iff]
  intro starts
  have split_ := List.isPrefixOf_iff_prefix.mp starts
  cases line with
  | nil =>
    have second := (List.cons_prefix_cons.mp split_).2
    exact absurd (List.cons_prefix_cons.mp second).1 (by decide)
  | cons d line =>
    obtain ⟨first, rest⟩ := List.cons_prefix_cons.mp split_
    obtain ⟨second, -⟩ := List.cons_prefix_cons.mp rest
    apply inLine
    rw [← first, ← second]
    exact (List.prefix_append crlf line).isInfix

/-- The rest of a line is passed over. -/
theorem scan_line (inBuf : InBuf buf i (line ++ crlf ++ more)) (inLine : ¬crlf <:+: line)
    (below : i + line.length + 2 < recvSize) :
    (scan buf recvSize).run ⟨i, wsKey⟩ = (scan buf recvSize).run ⟨i + line.length, wsKey⟩ := by
  induction line generalizing i with
  | nil => rfl
  | cons c line ih =>
    rw [List.length_cons] at below
    have compares := inBuf.comparesTo crlf fun _ => by
      have two : crlf.length = 2 := rfl
      simp only [List.length_append, List.length_cons]
      omega
    rw [not_crlf_start inLine] at compares
    have goesOn : (scan buf recvSize).body ⟨i, wsKey⟩ = .inl ⟨i + 1, wsKey⟩ := by
      simp only [scan, scanTurn, compares, Option.bind_eq_bind, Option.bind_some, Bool.false_eq_true, if_false]
      exact if_pos (by omega)
    have inLine' : ¬crlf <:+: line := fun inside => inLine (inside.trans (List.suffix_cons c line).isInfix)
    rw [Loop.run_goesOn goesOn, ih inBuf.next inLine' (by omega), List.length_cons, Nat.add_right_comm]
    rfl

theorem scanTurn_crlf (inBuf : InBuf buf i (crlf ++ more)) : scanTurn buf recvSize ⟨i, wsKey⟩ = (do
    if ← comparesTo buf keyHeader (i + 2) then
      let (buf_i, wsKey) ← (copyKey buf recvSize).run ⟨i + 2 + 19, 0, wsKey⟩
      some ⟨buf_i, wsKey⟩
    else some ⟨i + 2, wsKey⟩) := by
  have compares := inBuf.comparesTo crlf fun _ => by
    rw [List.length_append]
    exact Nat.le_add_right _ _
  have starts : crlf.isPrefixOf (crlf ++ more) = true := List.isPrefixOf_iff_prefix.mpr (List.prefix_append _ _)
  rw [starts] at compares
  simp only [scanTurn, compares, Option.bind_eq_bind, Option.bind_some, if_true]

/-- Whether a line has a key is decided inside of the line. -/
theorem comparesTo_keyHeader (inBuf : InBuf buf i (line ++ crlf ++ more)) :
    comparesTo buf keyHeader i = some (keyHeader.isPrefixOf line) := by
  have absent : '\r' ∉ keyHeader := by decide
  rw [List.append_assoc] at inBuf
  have compares := inBuf.comparesTo keyHeader fun within =>
    absurd (within.subset (List.mem_append_right line List.mem_cons_self)) absent
  rw [compares]
  congr 1
  rw [Bool.eq_iff_iff, List.isPrefixOf_iff_prefix, List.isPrefixOf_iff_prefix]
  exact ⟨prefix_of_append_cons absent, fun starts => starts.trans (List.prefix_append _ _)⟩

variable {headers : List HeaderLine}

/-- Behind the last line there is no other one. -/
theorem scan_last (inBuf : InBuf buf i (crlf ++ crlf)) (size : i + 4 = recvSize) :
    (scan buf recvSize).run ⟨i, wsKey⟩ = some wsKey := by
  apply Loop.run_leaves
  have compares := @comparesTo_keyHeader buf (i + 2) [] [] inBuf.behind
  have turn := @scanTurn_crlf buf recvSize i _ wsKey inBuf
  rw [compares] at turn
  have absent : keyHeader.isPrefixOf [] = false := by decide
  simp only [absent, Option.bind_eq_bind, Option.bind_some, Bool.false_eq_true, if_false] at turn
  simp only [scan, turn]
  exact if_neg (by omega)

/-- A line without a key is gone into, behind its first character. -/
theorem scan_other (inBuf : InBuf buf i (crlf ++ (c :: line ++ crlf ++ more)))
    (other : ¬keyHeader <+: c :: line) (below : i + 5 < recvSize) :
    (scan buf recvSize).run ⟨i, wsKey⟩ = (scan buf recvSize).run ⟨i + 3, wsKey⟩ := by
  have compares := comparesTo_keyHeader inBuf.behind
  have turn := @scanTurn_crlf buf recvSize i _ wsKey inBuf
  have two : i + crlf.length = i + 2 := rfl
  rw [two] at compares
  have absent : keyHeader.isPrefixOf (c :: line) = false := by
    rw [Bool.eq_false_iff]
    exact fun starts => other (List.isPrefixOf_iff_prefix.mp starts)
  rw [compares, absent] at turn
  simp only [Option.bind_eq_bind, Option.bind_some, Bool.false_eq_true, if_false] at turn
  apply Loop.run_goesOn
  simp only [scan, turn]
  exact if_pos (by omega)

/-- `wsKey` as it is between the lines. -/
def keyArray (old : List Char) : List Char := old ++ List.replicate (33 - old.length) terminator

theorem length_keyArray (small : old.length ≤ 31) : (keyArray old).length = 33 := by
  rw [keyArray, List.length_append, List.length_replicate]
  omega

section Key
variable {value : List Char}

theorem scanTurn_key (inBuf : InBuf buf i (crlf ++ (keyHeader ++ value ++ crlf ++ more))) :
    scanTurn buf recvSize ⟨i, wsKey⟩ = ((copyKey buf recvSize).run ⟨i + 21, 0, wsKey⟩).map fun copied =>
      ⟨copied.1, copied.2⟩ := by
  have compares := comparesTo_keyHeader inBuf.behind
  have turn := @scanTurn_crlf buf recvSize i _ wsKey inBuf
  have two : i + crlf.length = i + 2 := rfl
  have present : keyHeader.isPrefixOf (keyHeader ++ value) = true :=
    List.isPrefixOf_iff_prefix.mpr (List.prefix_append _ _)
  rw [two] at compares
  rw [compares, present] at turn
  simp only [Option.bind_eq_bind, Option.bind_some, if_true] at turn
  rw [turn]
  cases (copyKey buf recvSize).run ⟨i + 21, 0, wsKey⟩ with
  | none => rfl
  | some copied => rfl

theorem inBuf_value (inBuf : InBuf buf i (crlf ++ (keyHeader ++ value ++ crlf ++ more))) :
    InBuf buf (i + 21) (value ++ crlf ++ more) := by
  have behind := inBuf.behind
  rw [List.append_assoc, List.append_assoc] at behind
  have value_ := behind.behind
  rwa [← List.append_assoc] at value_

theorem not_mem_key (value : List Char) : '\r' ∉ value.takeWhile (· ≠ '\r') := by
  intro member
  have differs := List.mem_takeWhile_imp member
  exact absurd rfl (of_decide_eq_true differs)

/-- The key goes up to a carriage return, that of the line's end at the latest. -/
theorem value_eq (value more : List Char) :
    ∃ rest, value ++ crlf ++ more = value.takeWhile (· ≠ '\r') ++ '\r' :: rest := by
  induction value with
  | nil => exact ⟨'\n' :: more, rfl⟩
  | cons c value ih =>
    by_cases return_ : c = '\r'
    · rw [List.takeWhile_cons_of_neg (by simpa using return_), return_]
      exact ⟨value ++ crlf ++ more, rfl⟩
    · obtain ⟨rest, split_⟩ := ih
      rw [List.takeWhile_cons_of_pos (by simpa using return_), List.cons_append, List.cons_append, split_]
      exact ⟨rest, rfl⟩

/-- The first key that is not too long ends the scan. -/
theorem scan_short (inBuf : InBuf buf i (crlf ++ (keyHeader ++ value ++ crlf ++ more))) (small : old.length ≤ 31)
    (short : (value.takeWhile (· ≠ '\r')).length ≤ 30) (size : i + 21 + value.length < recvSize) :
    ∃ tail, (scan buf recvSize).run ⟨i, keyArray old⟩ =
      some (value.takeWhile (· ≠ '\r') ++ terminator :: tail) ∧
        (value.takeWhile (· ≠ '\r')).length + tail.length = 32 := by
  have value_ := inBuf_value inBuf
  obtain ⟨rest, split_⟩ := value_eq value more
  rw [split_] at value_
  have within := (List.takeWhile_prefix (l := value) (· ≠ '\r')).length_le
  have array := length_keyArray small
  have copied := @copyKey_short buf recvSize _ _ _ [] (keyArray old) value_ (not_mem_key value)
    (by omega) (by rw [List.length_nil]; omega) (by omega)
  have turn := @scanTurn_key buf recvSize _ _ (keyArray old) _ inBuf
  rw [List.nil_append, List.length_nil, List.nil_append] at copied
  rw [copied, Option.map_some] at turn
  have left : (scan buf recvSize).body ⟨i, keyArray old⟩ = .inr (some (value.takeWhile (· ≠ '\r') ++
      terminator :: (keyArray old).drop ((value.takeWhile (· ≠ '\r')).length + 1))) := by
    simp only [scan, turn]
    exact if_neg (by omega)
  refine ⟨_, Loop.run_leaves left, ?_⟩
  rw [List.length_drop]
  omega

/-- A key that is too long is cut off, and the rest of its line passed over. -/
theorem scan_long (inBuf : InBuf buf i (crlf ++ (keyHeader ++ value ++ crlf ++ more))) (small : old.length ≤ 31)
    (long : 30 < (value.takeWhile (· ≠ '\r')).length) (size : i + 21 + value.length + 4 ≤ recvSize) :
    (scan buf recvSize).run ⟨i, keyArray old⟩ =
      (scan buf recvSize).run ⟨i + 21 + 31, keyArray ((value.takeWhile (· ≠ '\r')).take 31)⟩ := by
  have value_ := inBuf_value inBuf
  obtain ⟨rest, split_⟩ := value_eq value more
  rw [split_] at value_
  have within := (List.takeWhile_prefix (l := value) (· ≠ '\r')).length_le
  have inLine := not_mem_key value
  generalize value.takeWhile (· ≠ '\r') = key at *
  have cut : (key.take 31).length = 31 := List.length_take_of_le long
  have array := length_keyArray small
  have front : InBuf buf (i + 21) (key.take 31 ++ (key.drop 31 ++ '\r' :: rest)) := by
    rwa [← List.append_assoc, List.take_append_drop]
  have copied := @copyKey_long buf recvSize (i + 21) (key.take 31) [] (keyArray old) front.front
    (fun member => inLine (List.mem_of_mem_take member)) (List.ne_nil_of_length_eq_add_one cut) (by omega)
    (by rw [cut, List.length_nil]) (by omega)
  have turn := @scanTurn_key buf recvSize _ _ (keyArray old) _ inBuf
  rw [List.nil_append, List.length_nil, List.nil_append, cut] at copied
  rw [copied, Option.map_some] at turn
  have tail : (keyArray old).drop 31 = List.replicate 2 terminator := by
    have two : 33 - old.length - (31 - old.length) = 2 := by omega
    rw [keyArray, List.drop_append, List.drop_eq_nil_of_le small, List.nil_append, List.drop_replicate, two]
  apply Loop.run_goesOn
  simp only [scan, turn]
  rw [if_pos (by omega), tail, keyArray, cut]
  congr 2

end Key

theorem keyArray_eq (small : old.length ≤ 31) :
    ∃ tail, keyArray old = old ++ terminator :: tail ∧ old.length + tail.length = 32 := by
  have more : 33 - old.length = (32 - old.length) + 1 := by omega
  refine ⟨List.replicate (32 - old.length) terminator, by rw [keyArray, more, List.replicate_succ], ?_⟩
  rw [List.length_replicate]
  omega

/-- The rest of the scan, from within a line on. -/
theorem scan_headers (inBuf : InBuf buf i (line ++ Request.rest headers)) (inLine : ¬crlf <:+: line)
    (size : i + (line ++ Request.rest headers).length = recvSize) (small : old.length ≤ 31) :
    ∃ tail, (scan buf recvSize).run ⟨i, keyArray old⟩ =
      some (chosenAfter old (headers.filterMap HeaderLine.key) ++ terminator :: tail) ∧
        (chosenAfter old (headers.filterMap HeaderLine.key)).length + tail.length = 32 := by
  induction headers generalizing i line old with
  | nil =>
    have last : line ++ Request.rest [] = line ++ crlf ++ crlf := by rw [List.append_assoc]; rfl
    rw [last] at inBuf size
    rw [List.length_append, List.length_append, show crlf.length = 2 from rfl] at size
    obtain ⟨tail, array, whole⟩ := keyArray_eq small
    have atEnd := inBuf
    rw [List.append_assoc] at atEnd
    rw [scan_line inBuf inLine (by omega), scan_last atEnd.behind (by omega), array]
    exact ⟨tail, rfl, whole⟩
  | cons l headers ih =>
    obtain ⟨more, next, two⟩ := Request.rest_eq headers
    have lines : line ++ Request.rest (l :: headers) = line ++ crlf ++ (l.text ++ crlf ++ more) := by
      rw [Request.rest_cons, next, List.append_assoc line, List.append_assoc l.text]
    rw [lines] at inBuf size
    simp only [List.length_append, show crlf.length = 2 from rfl] at size
    have atEnd := inBuf
    rw [List.append_assoc] at atEnd
    replace atEnd := atEnd.behind
    rw [scan_line inBuf inLine (by omega)]
    cases found : expect keyHeader l.text with
    | none =>
      have key : l.key = none := by rw [HeaderLine.key, found, Option.map_none]
      have other : ¬keyHeader <+: l.text := by
        intro starts
        rw [expect, if_pos (List.isPrefixOf_iff_prefix.mpr starts)] at found
        cases found
      cases text : l.text with
      | nil => exact absurd text l.some_
      | cons c line' =>
        rw [text] at atEnd other size
        rw [List.length_cons] at size
        have within := atEnd.behind
        rw [List.cons_append, List.cons_append, List.append_assoc, ← next] at within
        rw [scan_other atEnd other (by omega), List.filterMap_cons_none key]
        have inLine' : ¬crlf <:+: line' := fun inside =>
          l.inLine (text ▸ inside.trans (List.suffix_cons c line').isInfix)
        apply ih within.next inLine' _ small
        rw [next, List.length_append, List.length_append, show crlf.length = 2 from rfl]
        omega
    | some value =>
      have text := eq_append_of_expect found
      have key : l.key = some (value.takeWhile (· ≠ '\r')) := by rw [HeaderLine.key, found, Option.map_some]
      rw [text] at atEnd size
      rw [List.length_append, show keyHeader.length = 19 from rfl] at size
      rw [List.filterMap_cons_some key]
      by_cases short : (value.takeWhile (· ≠ '\r')).length ≤ 30
      · rw [chosenAfter_cons_short short]
        exact scan_short atEnd small short (by omega)
      · have long := Nat.lt_of_not_le short
        have longer := (List.takeWhile_prefix (l := value) (· ≠ '\r')).length_le
        rw [chosenAfter_cons_long long, scan_long atEnd small long (by omega)]
        have within := inBuf_value atEnd
        have cut : (value.take 31).length = 31 := List.length_take_of_le (by omega)
        rw [← List.take_append_drop 31 value, List.append_assoc, List.append_assoc, ← next] at within
        have behind := within.behind
        rw [cut] at behind
        have inLine' : ¬crlf <:+: value.drop 31 := fun inside => l.inLine
          (text ▸ inside.trans ((List.drop_suffix 31 value).trans (List.suffix_append _ _)).isInfix)
        apply ih behind inLine' _ (by rw [List.length_take]; omega)
        rw [next, List.length_append, List.length_append, List.length_drop, show crlf.length = 2 from rfl]
        omega

end Lines

/-- The key of a request, or nothing. -/
def Request.chosen (request : Request) : List Char := chosenAfter [] request.keys

theorem mem_chosenAfter {old : List Char} {keys : List (List Char)} {c : Char} (member : c ∈ chosenAfter old keys) :
    c ∈ old ∨ ∃ key ∈ keys, c ∈ key := by
  unfold chosenAfter at member
  split at member
  next key found => exact .inr ⟨key, List.mem_of_find?_eq_some found, member⟩
  next =>
    cases last : keys.getLast? with
    | none =>
      rw [last] at member
      exact .inl member
    | some key =>
      rw [last] at member
      exact .inr ⟨key, List.mem_of_getLast? last, List.mem_of_mem_take member⟩

section Array
variable {key tail : List Char}

/-- `wsKey[32] = 0` is behind the end of the string, or there already. -/
theorem setKey_end (whole : key.length + tail.length = 32) :
    ∃ tail', setKey (key ++ terminator :: tail) 32 terminator = some (key ++ terminator :: tail') := by
  have size : (key ++ terminator :: tail).length = 33 := by
    rw [List.length_append, List.length_cons]
    omega
  rw [setKey, if_pos (by omega), List.set_append_right _ _ (by omega)]
  cases behind : 32 - key.length with
  | zero => exact ⟨tail, rfl⟩
  | succ n => exact ⟨tail.set n terminator, rfl⟩

theorem cString_eq (free : terminator ∉ key) : cString (key ++ terminator :: tail) = key := by
  have all : ∀ c ∈ key, decide (c ≠ terminator) = true := by
    intro c member
    exact decide_eq_true fun same => free (same ▸ member)
  rw [cString, List.takeWhile_append_of_pos all, List.takeWhile_cons_of_neg (by decide), List.append_nil]

theorem answer_of_key (free : terminator ∉ key) :
    (if (key ++ terminator :: tail).head? = some terminator then some Answer.closed
      else some (.established (cString (key ++ terminator :: tail)))) =
      some (if key = [] then Answer.closed else .established key) := by
  rw [cString_eq free]
  cases key with
  | nil => rfl
  | cons c key =>
    rw [List.mem_cons, not_or] at free
    rw [if_neg (List.cons_ne_nil c key), List.cons_append, List.head?_cons, if_neg]
    exact fun same => free.1 (Option.some.inj same).symm

end Array

namespace Request
variable (request : Request)

theorem terminator_not_mem_chosen : terminator ∉ request.chosen := by
  intro member
  rcases mem_chosenAfter member with none_ | ⟨key, among, within⟩
  · exact absurd none_ List.not_mem_nil
  · obtain ⟨l, header, found⟩ := List.mem_filterMap.mp among
    exact request.nulFree l header key found within

/-- No line ends in the first one. -/
theorem inFirstLine : ¬crlf <:+: route ++ request.target := by
  have front (word : List Char) (absent : '\r' ∉ word) (inside : crlf <:+: word ++ request.target) :
      crlf <:+: request.target := by
    induction word with
    | nil => exact inside
    | cons c word ih =>
      rw [List.mem_cons, not_or] at absent
      rcases List.infix_cons_iff.mp inside with starts | later
      · exact absurd (List.cons_prefix_cons.mp starts).1 absent.1
      · exact ih absent.2 later
  exact fun inside => request.inLine (front route (by decide) inside)

end Request

/-- With the request in the buffer, whatever is behind it, its key is found, and no byte outside of
`buf` and `wsKey` is touched. -/
theorem answer_eq (request : Request) {buf : Nat → Char} (holds : Holds buf ⟨0, request.text⟩)
    (inside : request.text.length ≤ MAX_HTTP_REQ_HEADER_LEN) :
    answer buf request.text.length =
      some (if request.chosen = [] then .closed else .established request.chosen) := by
  have inBuf : InBuf buf 0 request.text := ⟨holds, by rwa [Nat.zero_add]⟩
  have routed := inBuf.comparesTo route fun _ => by
    rw [Request.text, List.length_append]
    exact Nat.le_add_right _ _
  have starts : route.isPrefixOf request.text = true := List.isPrefixOf_iff_prefix.mpr (List.prefix_append _ _)
  rw [starts] at routed
  have lines : request.text = route ++ request.target ++ Request.rest request.headers := by
    rw [Request.text, List.append_assoc]
  have inLines := inBuf
  rw [lines] at inLines
  obtain ⟨tail, scanned, whole⟩ := @scan_headers buf request.text.length 0 _ [] _ inLines request.inFirstLine
    (by rw [Nat.zero_add, lines]) (Nat.zero_le _)
  obtain ⟨tail', closed⟩ := setKey_end whole
  have free := request.terminator_not_mem_chosen
  have initial : List.replicate 33 terminator = keyArray [] := rfl
  simp only [answer, routed, Option.bind_eq_bind, Option.bind_some, if_true, initial, scanned, closed]
  exact answer_of_key free

section Chosen
variable {old key : List Char} {before after : List (List Char)}

theorem chosenAfter_first (long : ∀ other ∈ before, 30 < other.length) (short : key.length ≤ 30) :
    chosenAfter old (before ++ key :: after) = key := by
  induction before generalizing old with
  | nil => exact chosenAfter_cons_short short old after
  | cons other before ih =>
    obtain ⟨first, rest⟩ := List.forall_mem_cons.mp long
    rw [List.cons_append, chosenAfter_cons_long first]
    exact ih rest

theorem chosenAfter_last (long : ∀ other ∈ before ++ [key], 30 < other.length) :
    chosenAfter old (before ++ [key]) = key.take 31 := by
  induction before generalizing old with
  | nil => exact chosenAfter_cons_long (long key (List.mem_singleton.mpr rfl)) old []
  | cons other before ih =>
    obtain ⟨first, rest⟩ := List.forall_mem_cons.mp long
    rw [List.cons_append, chosenAfter_cons_long first]
    exact ih rest

end Chosen

/-- Of the keys, the first one of at most 30 characters counts, and is refused when nothing stands
in it; without one, it is as much as there is room for of the last key, or the client is refused. -/
theorem key_extracted (request : Request) {buf : Nat → Char} (holds : Holds buf ⟨0, request.text⟩)
    (inside : request.text.length ≤ MAX_HTTP_REQ_HEADER_LEN) :
    (∀ before key after, request.keys = before ++ key :: after → (∀ other ∈ before, 30 < other.length) →
        key.length ≤ 30 → answer buf request.text.length =
          some (if key = [] then .closed else .established key)) ∧
      (∀ before key, request.keys = before ++ [key] → (∀ other ∈ request.keys, 30 < other.length) →
        answer buf request.text.length = some (.established (key.take 31))) ∧
      (request.keys = [] → answer buf request.text.length = some .closed) ∧
      answer buf request.text.length ≠ none := by
  have answered := answer_eq request holds inside
  refine ⟨fun before key after keys long short => ?_, fun before key keys long => ?_, fun none_ => ?_, ?_⟩
  · rw [answered, Request.chosen, keys, chosenAfter_first long short]
  · rw [keys] at long
    have size := long key (List.mem_append_right before (List.mem_singleton.mpr rfl))
    have some_ : key.take 31 ≠ [] := List.ne_nil_of_length_pos (by rw [List.length_take]; omega)
    rw [answered, Request.chosen, keys, chosenAfter_last long, if_neg some_]
  · rw [answered, Request.chosen, none_]
    rfl
  · rw [answered]
    exact Option.some_ne_none _

section Requests

theorem inLine_of_not_mem {text : List Char} (absent : '\r' ∉ text) : ¬crlf <:+: text :=
  fun inside => absent (inside.subset List.mem_cons_self)

/-- A line with this key. -/
def keyLine (key : List Char) (absent : '\r' ∉ keyHeader ++ key) : HeaderLine where
  text := keyHeader ++ key
  some_ := List.append_ne_nil_of_left_ne_nil (by decide) key
  inLine := inLine_of_not_mem absent

/-- The buffer after the request came in, with old bytes behind it. -/
def bufferOf (request : Request) : Nat → Char := Block.store ⟨0, request.text⟩ fun _ => '?'

theorem holds_bufferOf (request : Request) : Holds (bufferOf request) ⟨0, request.text⟩ := holds_store _ _

/-- A request with a line before the one with the key. -/
def usual : Request where
  target := ['H', 'T', 'T', 'P']
  headers := [⟨['H', 'o', 's', 't'], List.cons_ne_nil _ _, inLine_of_not_mem (by decide)⟩,
    keyLine ['k', 'e', 'y'] (by decide)]
  inLine := inLine_of_not_mem (by decide)
  nulFree := by decide

theorem usual_key : answer (bufferOf usual) usual.text.length = some (.established ['k', 'e', 'y']) :=
  (key_extracted usual (holds_bufferOf usual) (by decide)).1 [] ['k', 'e', 'y'] [] (by decide) nofun (by decide)

/-- A line without a key, before one that has it. -/
def emptyFirst : Request where
  target := ['H', 'T', 'T', 'P']
  headers := [keyLine [] (by decide), keyLine ['k'] (by decide)]
  inLine := inLine_of_not_mem (by decide)
  nulFree := by decide

/-- A single key that is too long. -/
def onlyLong : Request where
  target := ['H', 'T', 'T', 'P']
  headers := [keyLine (List.replicate 31 'k') (by decide)]
  inLine := inLine_of_not_mem (by decide)
  nulFree := by decide

theorem emptyFirst_onlyLong : emptyFirst.keys = [[], ['k']] ∧
    answer (bufferOf emptyFirst) emptyFirst.text.length = some .closed ∧
    onlyLong.keys = [List.replicate 31 'k'] ∧
    answer (bufferOf onlyLong) onlyLong.text.length = some (.established (List.replicate 31 'k')) := by
  refine ⟨by decide, ?_, by decide, ?_⟩
  · rw [answer_eq emptyFirst (holds_bufferOf _) (by decide)]
    exact congrArg some (if_pos (by decide))
  · have chosen : onlyLong.chosen = List.replicate 31 'k' := by decide
    rw [answer_eq onlyLong (holds_bufferOf _) (by decide), chosen, if_neg (by decide)]

end Requests

end LotusKit.Server
