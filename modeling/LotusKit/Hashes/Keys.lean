import LotusKit.Hashes.Ingest

/-! Which keys the table knows after the sources are read. -/

namespace LotusKit.Hashes
open LotusKit.Lib

/-- The key of the entry of a hash, if there is an entry. -/
def HashInfos.keyAt (t : HashInfos) (h : Int) : Option (Option Str) := (t.get h).map GameDataHashInfo.key

section Steps
variable {t t' : HashInfos} {h hash : Int} {key : Str}

theorem keyAt_create (key : Option Str) :
    (HashInfos.create t hash key).keyAt h = if h = hash then some ((t.keyAt hash).getD key) else t.keyAt h := by
  rw [HashInfos.keyAt, HashInfos.create, Dict.get_setDefault]
  by_cases same : h = hash
  · rw [if_pos same, if_pos same, Option.map_some, HashInfos.keyAt]
    cases t.get hash with
    | none => rfl
    | some entry => rfl
  · rw [if_neg same, if_neg same, HashInfos.keyAt]

/-- Changes of other fields. -/
theorem keyAt_modify {f : GameDataHashInfo → GameDataHashInfo} (keeps : ∀ entry, (f entry).key = entry.key) :
    HashInfos.keyAt (t.modify hash f) h = t.keyAt h := by
  rw [HashInfos.keyAt, Dict.get_modify]
  by_cases same : h = hash
  · rw [if_pos same, same, HashInfos.keyAt, Option.map_map]
    congr 1
    exact funext keeps
  · rw [if_neg same, HashInfos.keyAt]

theorem keyAt_set_key (set : HashInfos.set_key t hash key = some t') :
    (murmur32 key : Int) = hash ∧ t'.keyAt h = if h = hash then (t.keyAt h).map fun _ => some key else t.keyAt h := by
  unfold HashInfos.set_key at set
  split at set
  case isTrue own =>
    obtain rfl := Option.some.inj set
    refine ⟨own, ?_⟩
    rw [HashInfos.keyAt, Dict.get_modify]
    by_cases same : h = hash
    · rw [if_pos same, if_pos same, HashInfos.keyAt, same, Option.map_map, Option.map_map]
      rfl
    · rw [if_neg same, if_neg same, HashInfos.keyAt]
  case isFalse => cases set

end Steps

/-- What entries made by key leave at a hash. -/
def keyed (h : Int) (keys : List Str) (o : Option (Option Str)) : Option (Option Str) :=
  keys.foldl (fun o key => if (murmur32 key : Int) = h then some (o.getD (some key)) else o) o

theorem keyed_append (h : Int) (keys keys' : List Str) (o : Option (Option Str)) :
    keyed h (keys ++ keys') o = keyed h keys' (keyed h keys o) := List.foldl_append

/-- The keys that a segment makes entries for. -/
def segmentKeys : List Str → List Str → List Str
  | _, [] => []
  | before, seg :: rest =>
    (if ['.'].intercalate before = [] then [seg] else [seg, ['.'].intercalate before]) ++ segmentKeys (before ++ [seg]) rest

def dottedKeys (dotted_key : Str) (typename : Option Str) : List Str :=
  (if (truthy typename).isSome then [dotted_key] else []) ++
    if '.' ∈ dotted_key then segmentKeys [] (dotted_key.splitOn '.') else []

section Dotted
variable {t t' : HashInfos} {h : Int} {typename last : Option Str}

theorem keyAt_created (key : Str) :
    (HashInfos.create t (murmur32 key) (some key)).keyAt h = keyed h [key] (t.keyAt h) := by
  rw [keyAt_create, keyed, List.foldl_cons, List.foldl_nil]
  by_cases same : h = murmur32 key
  · rw [if_pos same, if_pos same.symm, same]
  · rw [if_neg same, if_neg (Ne.symm same)]

@[simp] theorem keyAt_add_type (hash : Int) (name : Option Str) : (HashInfos.add_type t hash name).keyAt h = t.keyAt h :=
  keyAt_modify fun _ => rfl

@[simp] theorem keyAt_add_member (hash member : Int) : (HashInfos.add_member t hash member).keyAt h = t.keyAt h :=
  keyAt_modify fun _ => rfl

@[simp] theorem keyAt_add_owner (hash owner : Int) : (HashInfos.add_owner t hash owner).keyAt h = t.keyAt h :=
  keyAt_modify fun _ => rfl

@[simp] theorem keyAt_type_segment (seg : Str) (hash : Int) :
    (HashInfos.type_segment t typename last seg hash).keyAt h = t.keyAt h := by
  unfold HashInfos.type_segment
  split
  · split
    · exact keyAt_add_type _ _
    · rfl
  · rfl

theorem keyAt_ingest_segment {before : List Str} {seg : Str}
    (done : HashInfos.ingest_segment t typename last before seg = some t') :
    t'.keyAt h = keyed h (if ['.'].intercalate before = [] then [seg] else [seg, ['.'].intercalate before]) (t.keyAt h) := by
  unfold HashInfos.ingest_segment HashInfos.get_or_create at done
  simp only [Option.bind_eq_bind, Option.bind_some] at done
  by_cases top : ['.'].intercalate before = []
  · rw [if_pos top] at done ⊢
    obtain rfl := Option.some.inj done
    rw [keyAt_type_segment, keyAt_created]
  · rw [if_neg top] at done ⊢
    obtain rfl := Option.some.inj done
    rw [keyAt_add_owner, keyAt_add_member, keyAt_add_type, keyAt_created, keyAt_type_segment, keyAt_created,
      ← keyed_append]
    rfl

theorem keyAt_ingest_segments {before segs : List Str}
    (done : HashInfos.ingest_segments typename last before segs t = some t') :
    t'.keyAt h = keyed h (segmentKeys before segs) (t.keyAt h) := by
  induction segs generalizing before t with
  | nil =>
    obtain rfl := Option.some.inj done
    rfl
  | cons seg rest ih =>
    obtain ⟨next, first, done⟩ := Option.bind_eq_some_iff.mp done
    rw [ih done, keyAt_ingest_segment first, ← keyed_append]
    rfl

theorem keyAt_type_dotted_key {dotted_key : Str}
    (done : HashInfos.type_dotted_key t dotted_key typename = some t') :
    t'.keyAt h = keyed h (if (truthy typename).isSome then [dotted_key] else []) (t.keyAt h) := by
  unfold HashInfos.type_dotted_key at done
  cases typename with
  | none =>
    obtain rfl := Option.some.inj done
    rfl
  | some name =>
    by_cases empty : name = []
    · rw [empty] at done ⊢
      obtain rfl := Option.some.inj done
      rfl
    · simp only [if_neg empty] at done
      rw [truthy, if_neg fun same => empty (Option.some.inj same), Option.isSome_some, if_pos rfl]
      split at done
      · obtain rfl := Option.some.inj done
        rw [keyAt_add_type, keyAt_created]
      · cases done

theorem keyAt_ingest_dotted_key {dotted_key : Str}
    (done : HashInfos.ingest_dotted_key t dotted_key typename = some t') :
    t'.keyAt h = keyed h (dottedKeys dotted_key typename) (t.keyAt h) := by
  obtain ⟨next, first, done⟩ := Option.bind_eq_some_iff.mp done
  rw [dottedKeys, keyed_append, ← keyAt_type_dotted_key first]
  split at done
  case isTrue dotted =>
    rw [if_pos dotted]
    exact keyAt_ingest_segments done
  case isFalse plain =>
    rw [if_neg plain]
    obtain rfl := Option.some.inj done
    rfl

end Dotted

/-- A line names its key, the segments of it, and what stands in front of its dots. -/
def Line.Names (line : Line) (k : Str) : Prop :=
  ∃ key, line.key = some key ∧
    (k = key ∨ k ∈ key.splitOn '.' ∨ k ≠ [] ∧ ∃ n, k = ['.'].intercalate ((key.splitOn '.').take n))

theorem mem_segmentKeys {before segs : List Str} {k : Str} : k ∈ segmentKeys before segs ↔
    k ∈ segs ∨ k ≠ [] ∧ ∃ n < segs.length, k = ['.'].intercalate (before ++ segs.take n) := by
  induction segs generalizing before with
  | nil =>
    simp only [segmentKeys, List.not_mem_nil, List.length_nil, Nat.not_lt_zero, false_and, exists_false, and_false, or_false]
  | cons seg rest ih =>
    have here : k ∈ (if ['.'].intercalate before = [] then [seg] else [seg, ['.'].intercalate before]) ↔
        k = seg ∨ k ≠ [] ∧ k = ['.'].intercalate before := by
      split
      case isTrue top =>
        rw [List.mem_singleton, top]
        exact (or_iff_left fun both => both.1 both.2).symm
      case isFalse some_ =>
        rw [List.mem_cons, List.mem_singleton]
        exact or_congr_right ⟨fun same => ⟨same ▸ some_, same⟩, And.right⟩
    rw [segmentKeys, List.mem_append, here, ih, List.mem_cons]
    constructor
    · rintro ((own | ⟨some_, rfl⟩) | (later | ⟨some_, n, inside, rfl⟩))
      · exact .inl (.inl own)
      · exact .inr ⟨some_, 0, Nat.succ_pos _, by rw [List.take_zero, List.append_nil]⟩
      · exact .inl (.inr later)
      · refine .inr ⟨some_, n + 1, Nat.succ_lt_succ inside, ?_⟩
        rw [List.take_succ_cons, List.append_assoc]
        rfl
    · rintro ((own | later) | ⟨some_, n, inside, rfl⟩)
      · exact .inl (.inl own)
      · exact .inr (.inl later)
      · cases n with
        | zero => exact .inl (.inr ⟨some_, by rw [List.take_zero, List.append_nil]⟩)
        | succ n =>
          refine .inr (.inr ⟨some_, n, Nat.lt_of_succ_lt_succ inside, ?_⟩)
          rw [List.take_succ_cons, List.append_assoc]
          rfl

/-- What a line names is its key or gets an entry by key. -/
theorem names_iff {line : Line} {key : Str} (own : line.key = some key) (k : Str) :
    line.Names k ↔ k = key ∨ k ∈ dottedKeys key line.srctype := by
  have named : line.Names k ↔ k = key ∨ k ∈ key.splitOn '.' ∨
      k ≠ [] ∧ ∃ n, k = ['.'].intercalate ((key.splitOn '.').take n) := by
    rw [Line.Names, own]
    exact ⟨fun ⟨_, same, rest⟩ => Option.some.inj same ▸ rest, fun rest => ⟨key, rfl, rest⟩⟩
  have typed : k ∈ (if (truthy line.srctype).isSome then [key] else []) → k = key := by
    split
    · exact List.mem_singleton.mp
    · exact fun none_ => absurd none_ List.not_mem_nil
  have whole : ['.'].intercalate (key.splitOn '.') = key := List.intercalate_splitOn '.'
  rw [named, dottedKeys, List.mem_append]
  by_cases dotted : '.' ∈ key
  · rw [if_pos dotted, mem_segmentKeys]
    simp only [List.nil_append]
    constructor
    · rintro (same | segment | ⟨some_, n, rfl⟩)
      · exact .inl same
      · exact .inr (.inr (.inl segment))
      · by_cases inside : n < (key.splitOn '.').length
        · exact .inr (.inr (.inr ⟨some_, n, inside, rfl⟩))
        · rw [List.take_of_length_le (Nat.le_of_not_lt inside), whole]
          exact .inl rfl
    · rintro (same | own | segment | ⟨some_, n, -, front⟩)
      · exact .inl same
      · exact .inl (typed own)
      · exact .inr (.inl segment)
      · exact .inr (.inr ⟨some_, n, front⟩)
  · rw [if_neg dotted, List.splitOn_eq_singleton dotted]
    constructor
    · rintro (same | segment | ⟨some_, n, front⟩)
      · exact .inl same
      · exact .inl (List.mem_singleton.mp segment)
      · cases n with
        | zero => exact absurd front some_
        | succ n => exact .inl (front.trans (by rw [List.take_succ_cons, List.take_nil]; exact List.append_nil key))
    · rintro (same | own | nothing)
      · exact .inl same
      · exact .inl (typed own)
      · exact absurd nothing List.not_mem_nil

theorem not_names_of_bare {line : Line} (bare : line.key = none) (k : Str) : ¬ line.Names k := by
  rintro ⟨key, own, -⟩
  rw [bare] at own
  cases own

section Keyed
variable {h : Int} {keys : List Str}

@[simp] theorem keyed_some (key : Option Str) : keyed h keys (some key) = some key := by
  induction keys with
  | nil => rfl
  | cons first keys ih =>
    rw [keyed, List.foldl_cons, Option.getD_some, ite_self]
    exact ih

theorem keyed_of_not_mem (o : Option (Option Str)) (other : ∀ key ∈ keys, (murmur32 key : Int) ≠ h) : keyed h keys o = o := by
  induction keys with
  | nil => rfl
  | cons first keys ih =>
    rw [keyed, List.foldl_cons, if_neg (other first List.mem_cons_self)]
    exact ih fun key inside => other key (List.mem_cons_of_mem _ inside)

theorem keyed_of_mem {k : Str} (inside : k ∈ keys) (own : (murmur32 k : Int) = h)
    (apart : ∀ key ∈ keys, (murmur32 key : Int) = h → key = k) : keyed h keys none = some (some k) := by
  induction keys with
  | nil => cases inside
  | cons first keys ih =>
    rw [keyed, List.foldl_cons]
    by_cases same : (murmur32 first : Int) = h
    · rw [if_pos same, apart first List.mem_cons_self same]
      exact keyed_some _
    · rw [if_neg same]
      have later : k ∈ keys := (List.mem_cons.mp inside).resolve_left fun first_ => same (first_ ▸ own)
      exact ih later fun key inside => apart key (List.mem_cons_of_mem _ inside)

end Keyed

/-- What a line leaves at a hash. -/
def Line.keyOf (line : Line) (h : Int) (o : Option (Option Str)) : Option (Option Str) :=
  let o := if line.hash = h then some (o.getD none) else o
  match line.key with
  | none => o
  | some key => keyed h (dottedKeys key line.srctype) (if line.hash = h then some (some key) else o)

theorem keyAt_ingest {t t' : HashInfos} {line : Line} (done : line.ingest t = some t') :
    (∀ key, line.key = some key → (murmur32 key : Int) = line.hash) ∧
      ∀ h, t'.keyAt h = line.keyOf h (t.keyAt h) := by
  unfold Line.ingest HashInfos.get_or_create at done
  simp only [Option.bind_eq_bind, Option.bind_some] at done
  obtain ⟨next, keyed_, done⟩ := Option.bind_eq_some_iff.mp done
  obtain rfl := Option.some.inj done
  have after (h : Int) : HashInfos.keyAt (line.ingestComment (line.ingestOwner next)) h = next.keyAt h := by
    rw [Line.ingestComment, keyAt_modify fun entry => by split <;> rfl, Line.ingestOwner]
    split
    · rfl
    · rw [keyAt_add_owner, keyAt_add_member]
  have before (h : Int) : HashInfos.keyAt (if line.typed then (HashInfos.create t line.hash none).add_type line.hash line.srctype
      else HashInfos.create t line.hash none) h = if line.hash = h then some ((t.keyAt h).getD none) else t.keyAt h := by
    have made := @keyAt_create t h line.hash none
    by_cases same : line.hash = h
    · rw [if_pos same.symm, same] at made
      rw [if_pos same, ← made]
      split
      · rw [same, keyAt_add_type]
      · rw [same]
    · rw [if_neg (Ne.symm same)] at made
      rw [if_neg same, ← made]
      split
      · rw [keyAt_add_type]
      · rfl
  unfold Line.ingestKey at keyed_
  cases own : line.key with
  | none =>
    rw [own] at keyed_
    obtain rfl := Option.some.inj keyed_
    refine ⟨fun key same => (by cases same), fun h => ?_⟩
    rw [after, before, Line.keyOf, own]
  | some key =>
    rw [own] at keyed_
    obtain ⟨middle, set, dotted⟩ := Option.bind_eq_some_iff.mp keyed_
    refine ⟨fun key' same => ?_, fun h => ?_⟩
    · obtain rfl := Option.some.inj same
      exact (@keyAt_set_key _ _ 0 _ _ set).1
    · rw [after, keyAt_ingest_dotted_key dotted, (keyAt_set_key set).2, before, Line.keyOf, own]
      by_cases same : line.hash = h
      · rw [if_pos same.symm, if_pos same]
        simp only [if_pos same, Option.map_some]
      · rw [if_neg (Ne.symm same), if_neg same]
        simp only [if_neg same]

end LotusKit.Hashes
