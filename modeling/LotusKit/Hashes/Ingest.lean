import LotusKit.Hashes.Info

/-! The three sources of hashes, line by line. -/

namespace LotusKit.Hashes

section Int

/-- What `int` strips from its text. -/
def isSpace (c : Char) : Bool :=
  let n := c.toNat
  (9 ≤ n && n ≤ 13) || (28 ≤ n && n ≤ 32) || n = 0x85 || n = 0xa0 || n = 0x1680 || (0x2000 ≤ n && n ≤ 0x200a) ||
    n = 0x2028 || n = 0x2029 || n = 0x202f || n = 0x205f || n = 0x3000

def digitValue (c : Char) : Nat :=
  if '0' ≤ c ∧ c ≤ '9' then c.toNat - '0'.toNat
  else if 'a' ≤ c ∧ c ≤ 'z' then c.toNat - 'a'.toNat + 10
  else if 'A' ≤ c ∧ c ≤ 'Z' then c.toNat - 'A'.toNat + 10
  else 36

/-- Digits, with single underscores between them. -/
def digitsValue (base : Nat) : Nat → Str → Option Nat
  | _, [] => none
  | value, [c] => if digitValue c < base then some (value * base + digitValue c) else none
  | value, c :: '_' :: rest => if digitValue c < base then digitsValue base (value * base + digitValue c) rest else none
  | value, c :: rest => if digitValue c < base then digitsValue base (value * base + digitValue c) rest else none

/-- `int(text, base)` of a text without digits beyond ASCII, for the bases 10 and 16. -/
def int (text : Str) (base : Nat) : Option Int :=
  let text := (text.dropWhile isSpace).reverse.dropWhile isSpace |>.reverse
  let (negative, text) := match text with
    | '-' :: rest => (true, rest)
    | '+' :: rest => (false, rest)
    | rest => (false, rest)
  let text := match base, text with
    | 16, '0' :: 'x' :: '_' :: rest | 16, '0' :: 'X' :: '_' :: rest => rest
    | 16, '0' :: 'x' :: rest | 16, '0' :: 'X' :: rest => rest
    | _, rest => rest
  (digitsValue base 0 text).map fun value => if negative then -(value : Int) else value

end Int

/-- What a line says of a hash. -/
structure Line where
  hash : Int
  key : Option Str
  srctype : Option Str
  /-- The type is added to the entry itself. -/
  typed : Bool
  /-- `struct_entry`, for a member of it. -/
  struct_entry : Option Int
  comment : Str
  /-- Not added to an entry that has it. -/
  unlessSame : Bool
  deriving DecidableEq

namespace Line

def ingestKey (line : Line) (t : HashInfos) : Option HashInfos :=
  match line.key with
  | none => some t
  | some key => do
    let t ← HashInfos.set_key t line.hash key
    HashInfos.ingest_dotted_key t key line.srctype

def ingestOwner (line : Line) (t : HashInfos) : HashInfos :=
  match line.struct_entry with
  | none => t
  | some owner => HashInfos.add_owner (HashInfos.add_member t owner line.hash) line.hash owner

def ingestComment (line : Line) (t : HashInfos) : HashInfos :=
  t.modify line.hash fun entry =>
    if line.unlessSame ∧ entry.comment = line.comment then entry
    else { entry with comment := entry.comment ++ line.comment }

def ingest (line : Line) (t : HashInfos) : Option HashInfos := do
  let (entry, t) ← HashInfos.get_or_create t (some line.hash) none
  let t := if line.typed then HashInfos.add_type t entry line.srctype else t
  let t ← line.ingestKey t
  return line.ingestComment (line.ingestOwner t)

end Line

/-- A line that says nothing is passed over. -/
def ingestLine (line : Option Line) (t : HashInfos) : Option HashInfos :=
  match line with
  | none => some t
  | some line => line.ingest t

/-- `line.rstrip("\n")` -/
def rstrip (line : Str) : Str := (line.reverse.dropWhile (· = '\n')).reverse

/-- `--- `, the type and ` ---`. -/
def headerType (line : Str) : Option Str :=
  if "--- ".toList.isPrefixOf line ∧ " ---".toList.isSuffixOf line then some ((line.drop 4).dropLast.dropLast.dropLast.dropLast)
  else none

structure MrCheeze where
  srctype : Option Str
  struct_entry : Option Int

/-- One round of `ingest_mrcheeze`; `none` is an error. -/
def lineMrCheeze (s : MrCheeze) (text : Str) : Option (MrCheeze × Option Line) :=
  match headerType (rstrip text) with
  | some srctype => if srctype ∈ HASH_TYPES then some ({ s with srctype := some srctype }, none) else none
  | none =>
    let l := (rstrip text).splitOn '\t'
    if s.srctype = some "Struct".toList then
      if l.head? ≠ some [] then do
        let hash ← int (← l[0]?) 10
        return ({ s with struct_entry := some hash }, some ⟨hash, l[1]?, s.srctype, true, none, [], true⟩)
      else do
        let hash ← int (← l[1]?) 10
        let owner ← s.struct_entry
        return (s, some ⟨hash, l[2]?, s.srctype, false, some owner, [], true⟩)
    else do
      let hash ← int (← l[0]?) 10
      return (s, some ⟨hash, l[1]?, s.srctype, true, none, [], true⟩)

/-- `key` and `comment` of a line that may not know its key. -/
def knownKey (key comment : Str) : Option Str × Str :=
  if key = "Unknown".toList then (none, comment)
  else if "TempName.".toList.isPrefixOf key then (none, comment ++ "partial (unknown prefix): ".toList ++ key)
  else (some key, comment)

/-- An empty key counts as none. -/
def truthy (key : Option Str) : Option Str := if key = some [] then none else key

/-- One round of `ingest_mcspazzy`, for line `line_i`. -/
def lineMcSpazzy (line_i : Nat) (text : Str) : Option Line :=
  match (rstrip text).splitOn ',' with
  | [line_i_src, hexhashstr, inthashstr, srctype, key] => do
    let i ← int line_i_src 10
    let hash ← int hexhashstr 16
    let inthash ← int inthashstr 10
    if i ≠ line_i ∨ hash ≠ inthash then none
    else
      match knownKey key [] with
      | (some key, _) =>
        if '|' ∈ key then
          match key.splitOn '|' with
          | [key, comment] => some ⟨hash, truthy (some key), some srctype, true, none, comment, false⟩
          | _ => none
        else some ⟨hash, truthy (some key), some srctype, true, none, [], false⟩
      | (none, comment) => some ⟨hash, none, some srctype, true, none, comment, false⟩
  | _ => none

/-- One round of `ingest_marc`. -/
def lineMarc (text : Str) : Option (Option Line) :=
  let line := rstrip text
  if line = [] ∨ line.head? = some '#' then some none
  else
    let l := line.splitOn ';'
    if l.length = 3 ∨ l.length = 4 then
      if l[0]? = some "EnumValues".toList then some none
      else do
        let hash ← int (← l[0]?) 16
        let srctype ← l[1]?
        if srctype ∈ HASH_TYPES then
          let (key, comment) := knownKey (← l[2]?) (l[3]?.getD [])
          return some ⟨hash, truthy key, some srctype, true, none, comment, true⟩
        else none
    else none

inductive Source where
  | mrcheeze (srcfile : List Str)
  | mcspazzy (srcfile : List Str)
  | marc (srcfile : List Str)

def ingestMrCheeze : MrCheeze → List Str → HashInfos → Option HashInfos
  | _, [], t => some t
  | s, text :: srcfile, t => do
    let (s, line) ← lineMrCheeze s text
    let t ← ingestLine line t
    ingestMrCheeze s srcfile t

def ingestMcSpazzy : Nat → List Str → HashInfos → Option HashInfos
  | _, [], t => some t
  | line_i, text :: srcfile, t => do
    let line ← lineMcSpazzy line_i text
    let t ← line.ingest t
    ingestMcSpazzy (line_i + 1) srcfile t

def ingestMarc : List Str → HashInfos → Option HashInfos
  | [], t => some t
  | text :: srcfile, t => do
    let line ← lineMarc text
    let t ← ingestLine line t
    ingestMarc srcfile t

def Source.ingest : Source → HashInfos → Option HashInfos
  | mrcheeze srcfile, t => ingestMrCheeze ⟨none, none⟩ srcfile t
  | mcspazzy srcfile, t => ingestMcSpazzy 0 srcfile t
  | marc srcfile, t => ingestMarc srcfile t

/-- Sources one after the other, from an empty table. -/
def ingestSources (sources : List Source) : Option HashInfos := sources.foldlM (fun t source => source.ingest t) []

end LotusKit.Hashes
