import Mathlib.Data.Finset.Sort
import Mathlib.Data.Int.ConditionallyCompleteOrder
import Mathlib.Order.ConditionallyCompleteLattice.Basic
import LotusKit.Hashes.Ingest
import LotusKit.Hashes.Keys

/-! The two sides of the struct relation, and the module that is written from the table. -/

namespace LotusKit.Hashes
open LotusKit.Lib

namespace HashInfos
variable (t : HashInfos)

def Has (h : Int) : Prop := (t.get h).isSome = true

/-- A set of hashes in the entry of a hash; there is none in a missing entry. -/
def setAt (field : GameDataHashInfo → Finset Int) (h : Int) : Finset Int := ((t.get h).map field).getD ∅

def membersAt (h : Int) : Finset Int := t.setAt GameDataHashInfo.struct_members h

def ownersAt (h : Int) : Finset Int := t.setAt GameDataHashInfo.struct_owners h

end HashInfos

/-- The two sides of the struct relation agree, and each hash has one entry. -/
structure Linked (t : HashInfos) : Prop where
  symmetric : ∀ h h', h' ∈ t.membersAt h ↔ h ∈ t.ownersAt h'
  nodup : (t.map Prod.fst).Nodup

/-- A step that forgets no entry and keeps the struct relation. -/
structure Extends (t t' : HashInfos) : Prop where
  has : ∀ h, t.Has h → t'.Has h
  linked : Linked t → Linked t'

section Steps
variable {t t' t'' : HashInfos} {h hash member owner : Int} {key : Str}

theorem Extends.refl (t : HashInfos) : Extends t t := ⟨fun _ there => there, fun linked => linked⟩

theorem Extends.trans (first : Extends t t') (second : Extends t' t'') : Extends t t'' :=
  ⟨fun h there => second.has h (first.has h there), fun linked => second.linked (first.linked linked)⟩

theorem linked_nil : Linked [] := ⟨fun _ _ => iff_of_false (Finset.notMem_empty _) (Finset.notMem_empty _), List.nodup_nil⟩

theorem has_of_mem_setAt {field : GameDataHashInfo → Finset Int} (inside : member ∈ t.setAt field h) : t.Has h := by
  unfold HashInfos.setAt at inside
  cases found : t.get h with
  | none =>
    rw [found] at inside
    cases Finset.notMem_empty member inside
  | some entry => exact Option.isSome_iff_exists.mpr ⟨entry, found⟩

/-- What is on one side is on the other, so it has an entry. -/
theorem Linked.closed (linked : Linked t) (inside : member ∈ t.membersAt h ∨ member ∈ t.ownersAt h) : t.Has member := by
  rcases inside with inside | inside
  · exact has_of_mem_setAt ((linked.symmetric h member).mp inside)
  · exact has_of_mem_setAt ((linked.symmetric member h).mpr inside)

theorem has_create (key : Option Str) : (HashInfos.create t hash key).Has hash := by
  rw [HashInfos.Has, HashInfos.create, Dict.get_setDefault, if_pos rfl, Option.isSome_some]

theorem setAt_create {field : GameDataHashInfo → Finset Int} {key : Option Str} (empty : field ⟨hash, key, ∅, [], ∅, ∅⟩ = ∅) :
    (HashInfos.create t hash key).setAt field h = t.setAt field h := by
  rw [HashInfos.setAt, HashInfos.setAt, HashInfos.create, Dict.get_setDefault]
  by_cases same : h = hash
  · rw [if_pos same, same]
    cases t.get hash with
    | none => exact empty
    | some entry => rfl
  · rw [if_neg same]

theorem extends_create (key : Option Str) : Extends t (HashInfos.create t hash key) := by
  constructor
  · intro h there
    rw [HashInfos.Has, HashInfos.create, Dict.get_setDefault]
    by_cases same : h = hash
    · rw [if_pos same, Option.isSome_some]
    · rwa [if_neg same]
  · intro linked
    refine ⟨fun h h' => ?_, Dict.nodup_setDefault t hash _ linked.nodup⟩
    rw [HashInfos.membersAt, HashInfos.ownersAt, setAt_create rfl, setAt_create rfl]
    exact linked.symmetric h h'

theorem has_modify {f : GameDataHashInfo → GameDataHashInfo} : HashInfos.Has (t.modify hash f) h ↔ t.Has h := by
  rw [HashInfos.Has, HashInfos.Has, Dict.isSome_get, Dict.isSome_get, Dict.keys_modify]

theorem setAt_modify {f : GameDataHashInfo → GameDataHashInfo} {field : GameDataHashInfo → Finset Int}
    (keeps : ∀ entry, field (f entry) = field entry) : HashInfos.setAt (t.modify hash f) field h = t.setAt field h := by
  rw [HashInfos.setAt, HashInfos.setAt, Dict.get_modify]
  by_cases same : h = hash
  · rw [if_pos same, same, Option.map_map]
    congr 2
    exact funext keeps
  · rw [if_neg same]

/-- Changes of other fields. -/
theorem extends_modify {f : GameDataHashInfo → GameDataHashInfo} (members : ∀ entry, (f entry).struct_members = entry.struct_members)
    (owners : ∀ entry, (f entry).struct_owners = entry.struct_owners) : Extends t (t.modify hash f) := by
  refine ⟨fun h there => has_modify.mpr there, fun linked => ⟨fun h h' => ?_, ?_⟩⟩
  · rw [HashInfos.membersAt, HashInfos.ownersAt, setAt_modify members, setAt_modify owners]
    exact linked.symmetric h h'
  · rw [Dict.keys_modify]
    exact linked.nodup

theorem setAt_insert {f : GameDataHashInfo → GameDataHashInfo} {field : GameDataHashInfo → Finset Int}
    (inserts : ∀ entry, field (f entry) = insert member (field entry)) (there : t.Has hash) :
    HashInfos.setAt (t.modify hash f) field h = if h = hash then insert member (t.setAt field h) else t.setAt field h := by
  obtain ⟨entry, found⟩ := Option.isSome_iff_exists.mp there
  rw [HashInfos.setAt, HashInfos.setAt, Dict.get_modify]
  by_cases same : h = hash
  · rw [if_pos same, if_pos same, same, found]
    exact inserts entry
  · rw [if_neg same, if_neg same]

/-- The two statements that write the relation, for entries that exist. -/
theorem extends_link (container : t.Has owner) (there : t.Has member) :
    Extends t (HashInfos.add_owner (HashInfos.add_member t owner member) member owner) := by
  constructor
  · intro h there
    exact has_modify.mpr (has_modify.mpr there)
  · intro linked
    have there' : (HashInfos.add_member t owner member).Has member := has_modify.mpr there
    constructor
    · intro h h'
      have kept : (HashInfos.add_owner (HashInfos.add_member t owner member) member owner).membersAt h =
          (HashInfos.add_member t owner member).membersAt h := setAt_modify fun _ => rfl
      have kept' : (HashInfos.add_member t owner member).ownersAt h' = t.ownersAt h' := setAt_modify fun _ => rfl
      have first : (HashInfos.add_member t owner member).membersAt h =
          if h = owner then insert member (t.membersAt h) else t.membersAt h := setAt_insert (fun _ => rfl) container
      have second : (HashInfos.add_owner (HashInfos.add_member t owner member) member owner).ownersAt h' =
          if h' = member then insert owner ((HashInfos.add_member t owner member).ownersAt h')
          else (HashInfos.add_member t owner member).ownersAt h' := setAt_insert (fun _ => rfl) there'
      have old := linked.symmetric h h'
      rw [kept, first, second, kept']
      by_cases own : h = owner
      · by_cases same : h' = member
        · simp only [own, same, if_true, Finset.mem_insert_self]
        · rw [if_pos own, if_neg same, Finset.mem_insert, old]
          exact or_iff_right same
      · rw [if_neg own, old]
        by_cases same : h' = member
        · rw [if_pos same, Finset.mem_insert]
          exact (or_iff_right own).symm
        · rw [if_neg same]
    · rw [HashInfos.add_owner, HashInfos.add_member, Dict.keys_modify, Dict.keys_modify]
      exact linked.nodup

theorem extends_get_or_create {o : Option Int} {key : Option Str} (done : HashInfos.get_or_create t o key = some (h, t')) :
    Extends t t' ∧ t'.Has h := by
  unfold HashInfos.get_or_create at done
  split at done
  · split at done
    · obtain ⟨rfl, rfl⟩ := Prod.mk.inj (Option.some.inj done)
      exact ⟨extends_create _, has_create _⟩
    · cases done
  · obtain ⟨rfl, rfl⟩ := Prod.mk.inj (Option.some.inj done)
    exact ⟨extends_create _, has_create _⟩
  · obtain ⟨rfl, rfl⟩ := Prod.mk.inj (Option.some.inj done)
    exact ⟨extends_create _, has_create _⟩
  · cases done

theorem extends_set_key (done : HashInfos.set_key t hash key = some t') : Extends t t' := by
  unfold HashInfos.set_key at done
  split at done
  · obtain rfl := Option.some.inj done
    exact extends_modify (fun _ => rfl) fun _ => rfl
  · cases done

theorem extends_add_type (hash : Int) (name : Option Str) : Extends t (HashInfos.add_type t hash name) :=
  extends_modify (fun _ => rfl) fun _ => rfl

theorem extends_type_segment (typename last : Option Str) (seg : Str) (hash : Int) :
    Extends t (HashInfos.type_segment t typename last seg hash) := by
  unfold HashInfos.type_segment
  split
  · split
    · exact extends_add_type _ _
    · exact .refl t
  · exact .refl t

theorem extends_ingest_segment {typename last : Option Str} {before : List Str} {seg : Str}
    (done : HashInfos.ingest_segment t typename last before seg = some t') : Extends t t' := by
  unfold HashInfos.ingest_segment at done
  obtain ⟨⟨own, t₁⟩, first, done⟩ := Option.bind_eq_some_iff.mp done
  have ⟨made, there⟩ := extends_get_or_create first
  have typed := made.trans (extends_type_segment typename last seg own)
  simp only at done
  split at done
  · obtain rfl := Option.some.inj done
    exact typed
  · obtain ⟨⟨container, t₂⟩, second, done⟩ := Option.bind_eq_some_iff.mp done
    obtain rfl := Option.some.inj done
    have ⟨made', there'⟩ := extends_get_or_create second
    have struct := made'.trans (extends_add_type container (some "Struct".toList))
    have named : HashInfos.Has (HashInfos.add_type t₂ container (some "Struct".toList)) own :=
      struct.has own ((extends_type_segment typename last seg own).has own there)
    exact (typed.trans struct).trans (extends_link (has_modify.mpr there') named)

theorem extends_ingest_segments {typename last : Option Str} {before segs : List Str}
    (done : HashInfos.ingest_segments typename last before segs t = some t') : Extends t t' := by
  induction segs generalizing before t with
  | nil =>
    obtain rfl := Option.some.inj done
    exact .refl t
  | cons seg rest ih =>
    obtain ⟨next, first, done⟩ := Option.bind_eq_some_iff.mp done
    exact (extends_ingest_segment first).trans (ih done)

theorem extends_type_dotted_key {dotted_key : Str} {typename : Option Str}
    (done : HashInfos.type_dotted_key t dotted_key typename = some t') : Extends t t' := by
  unfold HashInfos.type_dotted_key at done
  split at done
  · obtain rfl := Option.some.inj done
    exact .refl t
  · split at done
    · obtain rfl := Option.some.inj done
      exact .refl t
    · split at done
      · obtain ⟨⟨own, next⟩, first, done⟩ := Option.bind_eq_some_iff.mp done
        obtain rfl := Option.some.inj done
        exact (extends_get_or_create first).1.trans (extends_add_type _ _)
      · cases done

theorem extends_ingest_dotted_key {dotted_key : Str} {typename : Option Str}
    (done : HashInfos.ingest_dotted_key t dotted_key typename = some t') : Extends t t' := by
  obtain ⟨next, first, done⟩ := Option.bind_eq_some_iff.mp done
  have typed := extends_type_dotted_key first
  split at done
  · exact typed.trans (extends_ingest_segments done)
  · obtain rfl := Option.some.inj done
    exact typed

theorem extends_ingestKey {line : Line} (done : line.ingestKey t = some t') : Extends t t' := by
  unfold Line.ingestKey at done
  split at done
  · obtain rfl := Option.some.inj done
    exact .refl t
  · obtain ⟨next, first, done⟩ := Option.bind_eq_some_iff.mp done
    exact (extends_set_key first).trans (extends_ingest_dotted_key done)

theorem extends_ingestOwner {line : Line} (struct : ∀ owner ∈ line.struct_entry, t.Has owner) (there : t.Has line.hash) :
    Extends t (line.ingestOwner t) := by
  unfold Line.ingestOwner
  split
  case h_1 => exact .refl t
  case h_2 owner found => exact extends_link (struct owner found) there

theorem extends_ingestComment (line : Line) : Extends t (line.ingestComment t) := by
  apply extends_modify
  · intro entry
    split
    · rfl
    · rfl
  · intro entry
    split
    · rfl
    · rfl

/-- A line, whose struct has an entry. -/
theorem extends_ingest {line : Line} (done : line.ingest t = some t') (struct : ∀ owner ∈ line.struct_entry, t.Has owner) :
    Extends t t' ∧ t'.Has line.hash := by
  unfold Line.ingest at done
  obtain ⟨⟨entry, t₁⟩, first, done⟩ := Option.bind_eq_some_iff.mp done
  obtain ⟨t₃, second, done⟩ := Option.bind_eq_some_iff.mp done
  obtain rfl := Option.some.inj done
  have ⟨made, there⟩ := extends_get_or_create first
  have own : entry = line.hash := (Prod.mk.inj (Option.some.inj first)).1.symm
  rw [own] at there
  have typed : Extends t₁ (if line.typed then HashInfos.add_type t₁ entry line.srctype else t₁) := by
    split
    · exact extends_add_type _ _
    · exact .refl t₁
  have keyed := made.trans (typed.trans (extends_ingestKey second))
  have there' := (typed.trans (extends_ingestKey second)).has _ there
  have owned := extends_ingestOwner (fun owner found => keyed.has owner (struct owner found)) there'
  have all := owned.trans (extends_ingestComment line)
  exact ⟨keyed.trans all, all.has _ there'⟩

end Steps

section Sources
variable {t t' : HashInfos} {s s' : MrCheeze} {line : Option Line}

/-- The open struct is the hash of a line that was read, and a member belongs to the open struct. -/
theorem lineMrCheeze_struct {text : Str} (read : lineMrCheeze s text = some (s', line)) :
    (∀ l ∈ line, ∀ owner ∈ l.struct_entry, s.struct_entry = some owner) ∧
      (s'.struct_entry = s.struct_entry ∨ ∃ l ∈ line, s'.struct_entry = some l.hash) := by
  unfold lineMrCheeze at read
  split at read
  · split at read
    · obtain ⟨rfl, rfl⟩ := Prod.mk.inj (Option.some.inj read)
      exact ⟨nofun, .inl rfl⟩
    · cases read
  · simp only at read
    split at read
    · split at read
      · obtain ⟨column, -, read⟩ := Option.bind_eq_some_iff.mp read
        obtain ⟨hash, -, read⟩ := Option.bind_eq_some_iff.mp read
        obtain ⟨rfl, rfl⟩ := Prod.mk.inj (Option.some.inj read)
        exact ⟨by rintro _ ⟨⟩; exact nofun, .inr ⟨_, rfl, rfl⟩⟩
      · obtain ⟨column, -, read⟩ := Option.bind_eq_some_iff.mp read
        obtain ⟨hash, -, read⟩ := Option.bind_eq_some_iff.mp read
        obtain ⟨owner, own, read⟩ := Option.bind_eq_some_iff.mp read
        obtain ⟨rfl, rfl⟩ := Prod.mk.inj (Option.some.inj read)
        exact ⟨by rintro _ ⟨⟩ _ ⟨⟩; exact own, .inl rfl⟩
    · obtain ⟨column, -, read⟩ := Option.bind_eq_some_iff.mp read
      obtain ⟨hash, -, read⟩ := Option.bind_eq_some_iff.mp read
      obtain ⟨rfl, rfl⟩ := Prod.mk.inj (Option.some.inj read)
      exact ⟨by rintro _ ⟨⟩; exact nofun, .inl rfl⟩

theorem extends_ingestLine (done : ingestLine line t = some t')
    (struct : ∀ l ∈ line, ∀ owner ∈ l.struct_entry, t.Has owner) : Extends t t' ∧ ∀ l ∈ line, t'.Has l.hash := by
  cases line with
  | none =>
    obtain rfl := Option.some.inj done
    exact ⟨.refl t, nofun⟩
  | some line =>
    have ⟨extends_, there⟩ := extends_ingest done (struct line rfl)
    refine ⟨extends_, ?_⟩
    rintro l ⟨⟩
    exact there

theorem extends_ingestMrCheeze {srcfile : List Str} (done : ingestMrCheeze s srcfile t = some t')
    (open_ : ∀ owner ∈ s.struct_entry, t.Has owner) : Extends t t' := by
  induction srcfile generalizing s t with
  | nil =>
    obtain rfl := Option.some.inj done
    exact .refl t
  | cons text srcfile ih =>
    unfold ingestMrCheeze at done
    obtain ⟨⟨next, line⟩, read, done⟩ := Option.bind_eq_some_iff.mp done
    obtain ⟨t₁, first, done⟩ := Option.bind_eq_some_iff.mp done
    have ⟨struct, kept⟩ := lineMrCheeze_struct read
    have ⟨here, there⟩ := extends_ingestLine first fun l found owner own => open_ owner (struct l found owner own)
    refine here.trans (ih done fun owner found => ?_)
    rcases kept with same | ⟨l, member, same⟩
    · exact here.has owner (open_ owner (same ▸ found))
    · obtain rfl := Option.some.inj (same.symm.trans found)
      exact there l member

theorem lineMcSpazzy_struct {line_i : Nat} {text : Str} {line : Line} (read : lineMcSpazzy line_i text = some line) :
    line.struct_entry = none := by
  unfold lineMcSpazzy at read
  split at read
  · obtain ⟨i, -, read⟩ := Option.bind_eq_some_iff.mp read
    obtain ⟨hash, -, read⟩ := Option.bind_eq_some_iff.mp read
    obtain ⟨inthash, -, read⟩ := Option.bind_eq_some_iff.mp read
    split at read
    · cases read
    · split at read
      · split at read
        · split at read
          · obtain rfl := Option.some.inj read
            rfl
          · cases read
        · obtain rfl := Option.some.inj read
          rfl
      · obtain rfl := Option.some.inj read
        rfl
  · cases read

theorem extends_ingestMcSpazzy {line_i : Nat} {srcfile : List Str} (done : ingestMcSpazzy line_i srcfile t = some t') :
    Extends t t' := by
  induction srcfile generalizing line_i t with
  | nil =>
    obtain rfl := Option.some.inj done
    exact .refl t
  | cons text srcfile ih =>
    unfold ingestMcSpazzy at done
    obtain ⟨line, read, done⟩ := Option.bind_eq_some_iff.mp done
    obtain ⟨t₁, first, done⟩ := Option.bind_eq_some_iff.mp done
    have none_ := lineMcSpazzy_struct read
    have here := extends_ingest first fun owner found => by
      rw [none_] at found
      cases found
    exact here.1.trans (ih done)

theorem lineMarc_struct {text : Str} (read : lineMarc text = some line) : ∀ l ∈ line, l.struct_entry = none := by
  unfold lineMarc at read
  simp only at read
  split at read
  · obtain rfl := Option.some.inj read
    exact nofun
  · split at read
    · split at read
      · obtain rfl := Option.some.inj read
        exact nofun
      · obtain ⟨column, -, read⟩ := Option.bind_eq_some_iff.mp read
        obtain ⟨hash, -, read⟩ := Option.bind_eq_some_iff.mp read
        obtain ⟨srctype, -, read⟩ := Option.bind_eq_some_iff.mp read
        split at read
        · obtain ⟨key, -, read⟩ := Option.bind_eq_some_iff.mp read
          obtain rfl := Option.some.inj read
          rintro _ ⟨⟩
          rfl
        · cases read
    · cases read

theorem extends_ingestMarc {srcfile : List Str} (done : ingestMarc srcfile t = some t') : Extends t t' := by
  induction srcfile generalizing t with
  | nil =>
    obtain rfl := Option.some.inj done
    exact .refl t
  | cons text srcfile ih =>
    unfold ingestMarc at done
    obtain ⟨line, read, done⟩ := Option.bind_eq_some_iff.mp done
    obtain ⟨t₁, first, done⟩ := Option.bind_eq_some_iff.mp done
    have here := extends_ingestLine first fun l found owner own => by
      rw [lineMarc_struct read l found] at own
      cases own
    exact here.1.trans (ih done)

theorem extends_foldlM {sources : List Source} (done : sources.foldlM (fun t source => source.ingest t) t = some t') :
    Extends t t' := by
  induction sources generalizing t with
  | nil =>
    obtain rfl := Option.some.inj done
    exact .refl t
  | cons source sources ih =>
    rw [List.foldlM_cons] at done
    obtain ⟨next, first, done⟩ := Option.bind_eq_some_iff.mp done
    have here : Extends t next := by
      cases source with
      | mrcheeze srcfile => exact extends_ingestMrCheeze first nofun
      | mcspazzy srcfile => exact extends_ingestMcSpazzy first
      | marc srcfile => exact extends_ingestMarc first
    exact here.trans (ih done)

theorem linked_ingestSources {sources : List Source} (done : ingestSources sources = some t) : Linked t :=
  (extends_foldlM done).linked linked_nil

end Sources

section Output

/-- `hex(n)` -/
def hex (n : Int) : Str := (if n < 0 then ['-'] else []) ++ "0x".toList ++ Nat.toDigits 16 n.natAbs

/-- One line of the module; what is empty is left out of it. -/
structure JsInfo where
  hash : Int
  hex : Str
  key : Option Str
  types : Finset (Option Str)
  comment : Str
  members : List Str
  owners : List Str

/-- What is written for a hash, and the table, which gets an entry if there is none. -/
def map_hash_to_key_or_hex (t : HashInfos) (hash : Int) : Option (Str × HashInfos) := do
  let (own, t) ← HashInfos.get_or_create t (some hash) none
  let entry ← t.get own
  return ((truthy entry.key).getD (hex hash), t)

def mapHashes : List Int → HashInfos → Option (List Str × HashInfos)
  | [], t => some ([], t)
  | hash :: hashes, t => do
    let (name, t) ← map_hash_to_key_or_hex t hash
    let (names, t) ← mapHashes hashes t
    return (name :: names, t)

/-- The order in which a set is gone through. -/
abbrev SetOrder := Finset Int → List Int

def outputEntry (order : SetOrder) (hash : Int) (entry : GameDataHashInfo) (t : HashInfos) : Option (JsInfo × HashInfos) := do
  let (members, t) ← mapHashes (order entry.struct_members) t
  let (owners, t) ← mapHashes (order entry.struct_owners) t
  return (⟨hash, hex hash, truthy entry.key, entry.types, entry.comment, members, owners⟩, t)

/-- The loop over the entries, which is an error once the table has another size than at its start. -/
def outputFrom (order : SetOrder) (size : Nat) : List (Int × GameDataHashInfo) → HashInfos → Option (List JsInfo × HashInfos)
  | [], t => if t.length = size then some ([], t) else none
  | (hash, entry) :: rest, t =>
    if t.length = size then do
      let (line, t) ← outputEntry order hash entry t
      let (lines, t) ← outputFrom order size rest t
      return (line :: lines, t)
    else none

def output_jsdata (order : SetOrder) (t : HashInfos) : Option (List JsInfo × HashInfos) := outputFrom order t.length t t

variable {t : HashInfos} {order : SetOrder}

/-- A hash with an entry adds none. -/
theorem exists_map_hash {hash : Int} (there : t.Has hash) : ∃ name, map_hash_to_key_or_hex t hash = some (name, t) := by
  obtain ⟨entry, found⟩ := Option.isSome_iff_exists.mp there
  have same : HashInfos.create t hash none = t := if_pos there
  refine ⟨(truthy entry.key).getD (hex hash), ?_⟩
  rw [map_hash_to_key_or_hex, HashInfos.get_or_create, same]
  simp only [Option.bind_eq_bind, Option.bind_some, found]
  rfl

theorem exists_mapHashes {hashes : List Int} (there : ∀ hash ∈ hashes, t.Has hash) :
    ∃ names, mapHashes hashes t = some (names, t) := by
  induction hashes with
  | nil => exact ⟨[], rfl⟩
  | cons hash hashes ih =>
    have ⟨here, later⟩ := List.forall_mem_cons.mp there
    obtain ⟨name, first⟩ := exists_map_hash here
    obtain ⟨names, rest⟩ := ih later
    refine ⟨name :: names, ?_⟩
    rw [mapHashes, first]
    simp only [Option.bind_eq_bind, Option.bind_some, rest]
    rfl

/-- No entry is added while the entries of a linked table are gone through. -/
theorem exists_outputFrom {entries : List (Int × GameDataHashInfo)} (linked : Linked t) (inside : ∀ entry ∈ entries, entry ∈ t)
    (ordered : ∀ s h, h ∈ order s ↔ h ∈ s) : ∃ lines, outputFrom order t.length entries t = some (lines, t) := by
  induction entries with
  | nil => exact ⟨[], if_pos rfl⟩
  | cons entry entries ih =>
    have ⟨here, later⟩ := List.forall_mem_cons.mp inside
    obtain ⟨hash, entry⟩ := entry
    have found : t.get hash = some entry := Dict.get_of_mem linked.nodup here
    have members : t.membersAt hash = entry.struct_members := by
      rw [HashInfos.membersAt, HashInfos.setAt, found]
      rfl
    have owners : t.ownersAt hash = entry.struct_owners := by
      rw [HashInfos.ownersAt, HashInfos.setAt, found]
      rfl
    obtain ⟨names, first⟩ := @exists_mapHashes t (order entry.struct_members) fun h among =>
      linked.closed (h := hash) (.inl (members ▸ (ordered _ h).mp among))
    obtain ⟨names', second⟩ := @exists_mapHashes t (order entry.struct_owners) fun h among =>
      linked.closed (h := hash) (.inr (owners ▸ (ordered _ h).mp among))
    obtain ⟨lines, rest⟩ := ih later
    let line : JsInfo := ⟨hash, hex hash, truthy entry.key, entry.types, entry.comment, names, names'⟩
    have written : outputEntry order hash entry t = some (line, t) := by
      simp only [outputEntry, first, second, Option.bind_eq_bind, Option.bind_some]
      rfl
    refine ⟨line :: lines, ?_⟩
    simp only [outputFrom, written, rest, if_true, Option.bind_eq_bind, Option.bind_some]
    rfl

/-- Whatever lines were read, the struct relation has two equal sides, and all of it has entries. -/
theorem structs_linked {sources : List Source} (done : ingestSources sources = some t)
    (ordered : ∀ s h, h ∈ order s ↔ h ∈ s) :
    (∀ h1 h2, h2 ∈ t.membersAt h1 ↔ h1 ∈ t.ownersAt h2) ∧
      (∀ h h', h' ∈ t.membersAt h ∨ h' ∈ t.ownersAt h → (t.get h').isSome = true) ∧
      ∃ lines, output_jsdata order t = some (lines, t) := by
  have linked := linked_ingestSources done
  exact ⟨linked.symmetric, fun h h' inside => linked.closed inside, exists_outputFrom linked (fun _ inside => inside) ordered⟩

/-- A struct with a member. -/
def structSource : List Source :=
  [.mrcheeze (["--- Struct ---", "1319662467	Foo", "	815548920	Foo.Bar"].map String.toList)]

theorem structs_linked_foo : ∃ t, ingestSources structSource = some t ∧ 815548920 ∈ t.membersAt 1319662467 ∧
    (∀ h1 h2, h2 ∈ t.membersAt h1 ↔ h1 ∈ t.ownersAt h2) ∧
      (∀ h h', h' ∈ t.membersAt h ∨ h' ∈ t.ownersAt h → (t.get h').isSome = true) ∧
      ∃ lines, output_jsdata (fun s => s.sort (· ≤ ·)) t = some (lines, t) := by
  have found : ((ingestSources structSource).map fun t => decide (815548920 ∈ t.membersAt 1319662467)) = some true := by
    decide +kernel
  obtain ⟨t, done, member⟩ := Option.map_eq_some_iff.mp found
  exact ⟨t, done, of_decide_eq_true member, structs_linked done fun s h => Finset.mem_sort _⟩

end Output

end LotusKit.Hashes
