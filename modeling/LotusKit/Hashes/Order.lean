import LotusKit.Hashes.Keys

/-! Whether a key survives depends on the order of the lines: a line for a bare hash gives the
entry no key, and only a line with the key in full sets it later. -/

namespace LotusKit.Hashes
open LotusKit.Lib

section Read

def readMrCheeze : MrCheeze → List Str → Option (List Line)
  | _, [] => some []
  | s, text :: srcfile => do
    let (s, line) ← lineMrCheeze s text
    let lines ← readMrCheeze s srcfile
    return line.toList ++ lines

def readMcSpazzy : Nat → List Str → Option (List Line)
  | _, [] => some []
  | line_i, text :: srcfile => do
    let line ← lineMcSpazzy line_i text
    let lines ← readMcSpazzy (line_i + 1) srcfile
    return line :: lines

def readMarc : List Str → Option (List Line)
  | [] => some []
  | text :: srcfile => do
    let line ← lineMarc text
    let lines ← readMarc srcfile
    return line.toList ++ lines

def Source.read : Source → Option (List Line)
  | mrcheeze srcfile => readMrCheeze ⟨none, none⟩ srcfile
  | mcspazzy srcfile => readMcSpazzy 0 srcfile
  | marc srcfile => readMarc srcfile

def readSources : List Source → Option (List Line)
  | [] => some []
  | source :: sources => do
    let lines ← source.read
    let more ← readSources sources
    return lines ++ more

def ingestLines (lines : List Line) (t : HashInfos) : Option HashInfos := lines.foldlM (fun t line => line.ingest t) t

theorem ingestLines_append (lines more : List Line) (t : HashInfos) :
    ingestLines (lines ++ more) t = (ingestLines lines t).bind (ingestLines more) := List.foldlM_append

theorem ingestLine_eq (line : Option Line) (t : HashInfos) : ingestLine line t = ingestLines line.toList t := by
  cases line with
  | none => rfl
  | some line => exact (Option.bind_fun_some _).symm

/-- One round, and the rounds after it. -/
theorem round_eq {first : List Line} {rest : Option (List Line)} {next : HashInfos → Option HashInfos} (t : HashInfos)
    (ih : ∀ t, next t = rest.bind fun lines => ingestLines lines t) :
    (ingestLines first t).bind next = (rest.bind fun lines => some (first ++ lines)).bind fun lines => ingestLines lines t := by
  rw [funext ih, Option.bind_comm, Option.bind_assoc]
  congr 1
  funext lines
  exact (ingestLines_append first lines t).symm

theorem ingestMrCheeze_eq (s : MrCheeze) (srcfile : List Str) (t : HashInfos) :
    ingestMrCheeze s srcfile t = (readMrCheeze s srcfile).bind fun lines => ingestLines lines t := by
  induction srcfile generalizing s t with
  | nil => rfl
  | cons text srcfile ih =>
    unfold ingestMrCheeze readMrCheeze
    cases lineMrCheeze s text with
    | none => rfl
    | some read =>
      simp only [Option.bind_eq_bind, Option.bind_some, ingestLine_eq]
      exact round_eq t (ih read.1)

theorem ingestMcSpazzy_eq (line_i : Nat) (srcfile : List Str) (t : HashInfos) :
    ingestMcSpazzy line_i srcfile t = (readMcSpazzy line_i srcfile).bind fun lines => ingestLines lines t := by
  induction srcfile generalizing line_i t with
  | nil => rfl
  | cons text srcfile ih =>
    unfold ingestMcSpazzy readMcSpazzy
    cases lineMcSpazzy line_i text with
    | none => rfl
    | some line =>
      have own : line.ingest t = ingestLines [line] t := ingestLine_eq (some line) t
      simp only [Option.bind_eq_bind, Option.bind_some, own]
      exact round_eq t (ih (line_i + 1))

theorem ingestMarc_eq (srcfile : List Str) (t : HashInfos) :
    ingestMarc srcfile t = (readMarc srcfile).bind fun lines => ingestLines lines t := by
  induction srcfile generalizing t with
  | nil => rfl
  | cons text srcfile ih =>
    unfold ingestMarc readMarc
    cases lineMarc text with
    | none => rfl
    | some line =>
      simp only [Option.bind_eq_bind, Option.bind_some, ingestLine_eq]
      exact round_eq t ih

theorem Source.ingest_eq (source : Source) (t : HashInfos) :
    source.ingest t = source.read.bind fun lines => ingestLines lines t := by
  cases source with
  | mrcheeze srcfile => exact ingestMrCheeze_eq _ srcfile t
  | mcspazzy srcfile => exact ingestMcSpazzy_eq 0 srcfile t
  | marc srcfile => exact ingestMarc_eq srcfile t

theorem ingestSources_eq (sources : List Source) :
    ingestSources sources = (readSources sources).bind fun lines => ingestLines lines [] := by
  unfold ingestSources
  generalize ([] : HashInfos) = t
  induction sources generalizing t with
  | nil => rfl
  | cons source sources ih =>
    rw [List.foldlM_cons, Source.ingest_eq, readSources]
    cases source.read with
    | none => rfl
    | some lines => exact round_eq t ih

end Read

/-- The key at a hash after the lines. -/
def runKey (h : Int) (lines : List Line) (o : Option (Option Str)) : Option (Option Str) :=
  lines.foldl (fun o line => line.keyOf h o) o

theorem keyAt_ingestLines {lines : List Line} {t t' : HashInfos} (done : ingestLines lines t = some t') :
    (∀ line ∈ lines, ∀ key, line.key = some key → (murmur32 key : Int) = line.hash) ∧
      ∀ h, t'.keyAt h = runKey h lines (t.keyAt h) := by
  induction lines generalizing t with
  | nil =>
    obtain rfl := Option.some.inj done
    exact ⟨fun _ nothing => absurd nothing List.not_mem_nil, fun _ => rfl⟩
  | cons line lines ih =>
    obtain ⟨next, first, rest⟩ := Option.bind_eq_some_iff.mp done
    have ⟨own, here⟩ := keyAt_ingest first
    have ⟨owns, there⟩ := ih rest
    refine ⟨List.forall_mem_cons.mpr ⟨own, owns⟩, fun h => ?_⟩
    rw [there, here, runKey, runKey, List.foldl_cons]

def Named (lines : List Line) (k : Str) : Prop := ∃ line ∈ lines, line.Names k

/-- No two named strings share a hash. -/
def Apart (lines : List Line) : Prop := ∀ k k', Named lines k → Named lines k' → murmur32 k = murmur32 k' → k = k'

/-- A line names the key before any line is about its bare hash. -/
def NamedFirst (k : Str) : List Line → Prop
  | [] => False
  | line :: rest => line.hash ≠ murmur32 k ∧ (line.Names k ∨ NamedFirst k rest)

/-- A line has the key in full, or its entry is made by name. -/
def Kept (lines : List Line) (k : Str) : Prop := (∃ line ∈ lines, line.key = some k) ∨ NamedFirst k lines

section Runs
variable {line : Line} {lines : List Line} {k : Str} {h : Int}

/-- The key of an entry only changes to the key of a line in full. -/
theorem keyOf_some (key : Option Str) (other : line.hash = h → line.key = key ∨ line.key = none) :
    line.keyOf h (some key) = some key := by
  unfold Line.keyOf
  simp only [Option.getD_some, ite_self]
  cases own : line.key with
  | none => rfl
  | some full =>
    by_cases same : line.hash = h
    · have full_ : some full = key := own ▸ (other same).resolve_right fun bare => by
        rw [own] at bare
        cases bare
      simp only [if_pos same, keyed_some, full_]
    · simp only [if_neg same, keyed_some]

theorem keyOf_own (o : Option (Option Str)) (own : line.key = some k) (same : line.hash = h) :
    line.keyOf h o = some (some k) := by
  unfold Line.keyOf
  simp only [own, if_pos same, keyed_some]

theorem keyOf_bare (o : Option (Option Str)) (bare : line.key = none) (same : line.hash = h) :
    line.keyOf h o = some (o.getD none) := by
  unfold Line.keyOf
  simp only [bare, if_pos same]

theorem keyOf_first (away : line.hash ≠ murmur32 k) (names : line.Names k)
    (sound : ∀ key, line.key = some key → (murmur32 key : Int) = line.hash)
    (apart : ∀ name, line.Names name → murmur32 name = murmur32 k → name = k) :
    line.keyOf (murmur32 k) none = some (some k) := by
  obtain ⟨key, own, -⟩ := id names
  unfold Line.keyOf
  simp only [own, if_neg away]
  rcases (names_iff own k).mp names with rfl | inside
  · exact absurd (sound k own).symm away
  · apply keyed_of_mem inside rfl
    intro name named same
    exact apart name ((names_iff own name).mpr (.inr named)) (Int.natCast_inj.mp same)

/-- A line that names nothing of the hash. -/
theorem keyOf_other (o : Option (Option Str)) (other : ∀ name, line.Names name → (murmur32 name : Int) ≠ h)
    (sound : ∀ key, line.key = some key → (murmur32 key : Int) = line.hash) :
    line.keyOf h o = if line.hash = h then some (o.getD none) else o := by
  unfold Line.keyOf
  cases own : line.key with
  | none => rfl
  | some key =>
    have away : line.hash ≠ h := sound key own ▸ other key ((names_iff own key).mpr (.inl rfl))
    simp only [if_neg away]
    exact keyed_of_not_mem o fun name inside => other name ((names_iff own name).mpr (.inr inside))

theorem runKey_cons (o : Option (Option Str)) : runKey h (line :: lines) o = runKey h lines (line.keyOf h o) := rfl

theorem runKey_some (key : Option Str) (other : ∀ line ∈ lines, line.hash = h → line.key = key ∨ line.key = none) :
    runKey h lines (some key) = some key := by
  induction lines with
  | nil => rfl
  | cons line lines ih =>
    have ⟨here, there⟩ := List.forall_mem_cons.mp other
    rw [runKey_cons, keyOf_some key here, ih there]

/-- A line for a hash has its key or none. -/
theorem own_or_bare (inside : line ∈ lines) (apart : Apart lines) (named : Named lines k)
    (sound : ∀ key, line.key = some key → (murmur32 key : Int) = line.hash) (same : line.hash = murmur32 k) :
    line.key = some k ∨ line.key = none := by
  cases own : line.key with
  | none => exact .inr rfl
  | some key =>
    have names : line.Names key := (names_iff own key).mpr (.inl rfl)
    have equal : murmur32 key = murmur32 k := Int.natCast_inj.mp ((sound key own).trans same)
    rw [apart key k ⟨line, inside, names⟩ named equal]
    exact .inl rfl

/-- A line with the key in full. -/
theorem runKey_own (o : Option (Option Str)) (inside : ∃ line ∈ lines, line.key = some k)
    (sound : ∀ line ∈ lines, line.key = some k → line.hash = h)
    (other : ∀ line ∈ lines, line.hash = h → line.key = some k ∨ line.key = none) :
    runKey h lines o = some (some k) := by
  induction lines generalizing o with
  | nil =>
    obtain ⟨_, nothing, -⟩ := inside
    cases nothing
  | cons line lines ih =>
    have ⟨here, there⟩ := List.forall_mem_cons.mp other
    have ⟨own, owns⟩ := List.forall_mem_cons.mp sound
    rw [runKey_cons]
    by_cases full : line.key = some k
    · rw [keyOf_own o full (own full)]
      exact runKey_some (some k) there
    · have later : ∃ line ∈ lines, line.key = some k := by
        obtain ⟨found, member, key⟩ := inside
        rcases List.mem_cons.mp member with rfl | member
        · exact absurd key full
        · exact ⟨found, member, key⟩
      exact ih _ later owns there

/-- From no entry, the entry is made by name where a line names it first, and bare otherwise. -/
theorem runKey_none (sound : ∀ line ∈ lines, ∀ key, line.key = some key → (murmur32 key : Int) = line.hash)
    (apart : ∀ name, Named lines name → murmur32 name = murmur32 k → name = k)
    (bare : ∀ line ∈ lines, line.hash = murmur32 k → line.key = none) :
    (NamedFirst k lines → runKey (murmur32 k) lines none = some (some k)) ∧
      (¬ NamedFirst k lines → Named lines k → runKey (murmur32 k) lines none = some none) := by
  induction lines with
  | nil => exact ⟨False.elim, fun _ ⟨_, nothing, _⟩ => absurd nothing List.not_mem_nil⟩
  | cons line lines ih =>
    have ⟨own, owns⟩ := List.forall_mem_cons.mp sound
    have ⟨here, there⟩ := List.forall_mem_cons.mp bare
    have ⟨first, late⟩ := ih owns (fun name ⟨line, inside, names⟩ => apart name ⟨line, List.mem_cons_of_mem _ inside, names⟩) there
    rw [runKey_cons]
    by_cases away : line.hash = murmur32 k
    · constructor
      · intro named
        exact absurd away named.1
      · intro _ _
        rw [keyOf_bare none (here away) away]
        exact runKey_some none fun line inside same => .inl (there line inside same)
    · by_cases names : line.Names k
      · have made := keyOf_first away names own fun name names => apart name ⟨line, List.mem_cons_self, names⟩
        constructor
        · intro _
          rw [made]
          exact runKey_some (some k) fun line inside same => .inr (there line inside same)
        · intro unnamed
          exact absurd ⟨away, .inl names⟩ unnamed
      · have other : ∀ name, line.Names name → (murmur32 name : Int) ≠ murmur32 k := fun name names' same =>
          names (apart name ⟨line, List.mem_cons_self, names'⟩ (Int.natCast_inj.mp same) ▸ names')
        rw [keyOf_other none other own, if_neg away]
        constructor
        · intro named
          exact first (named.2.resolve_left names)
        · rintro unnamed ⟨found, member, names'⟩
          have later := (List.mem_cons.mp member).resolve_left fun same => names (same ▸ names')
          exact late (fun named => unnamed ⟨away, .inr named⟩) ⟨found, later, names'⟩

/-- A hash that no named string has. -/
theorem runKey_unnamed (o : Option (Option Str))
    (sound : ∀ line ∈ lines, ∀ key, line.key = some key → (murmur32 key : Int) = line.hash)
    (other : ∀ name, Named lines name → (murmur32 name : Int) ≠ h) :
    runKey h lines o = if ∃ line ∈ lines, line.hash = h then some (o.getD none) else o := by
  induction lines generalizing o with
  | nil => rw [if_neg fun ⟨_, nothing, _⟩ => absurd nothing List.not_mem_nil]; rfl
  | cons line lines ih =>
    have ⟨own, owns⟩ := List.forall_mem_cons.mp sound
    rw [runKey_cons, keyOf_other o (fun name names => other name ⟨line, List.mem_cons_self, names⟩) own,
      ih _ owns fun name ⟨line, inside, names⟩ => other name ⟨line, List.mem_cons_of_mem _ inside, names⟩]
    by_cases here : line.hash = h
    · have now : ∃ found ∈ line :: lines, found.hash = h := ⟨line, List.mem_cons_self, here⟩
      rw [if_pos here, if_pos now, Option.getD_some, ite_self]
    · have same : (∃ found ∈ line :: lines, found.hash = h) ↔ ∃ found ∈ lines, found.hash = h := by
        constructor
        · rintro ⟨found, member, equal⟩
          exact ⟨found, (List.mem_cons.mp member).resolve_left fun first => here (first ▸ equal), equal⟩
        · rintro ⟨found, member, equal⟩
          exact ⟨found, List.mem_cons_of_mem _ member, equal⟩
      simp only [if_neg here, same]

/-- The key is kept or the entry stays without one. -/
theorem runKey_named (sound : ∀ line ∈ lines, ∀ key, line.key = some key → (murmur32 key : Int) = line.hash)
    (apart : Apart lines) (named : Named lines k) :
    (Kept lines k → runKey (murmur32 k) lines none = some (some k)) ∧
      (¬ Kept lines k → runKey (murmur32 k) lines none = some none) := by
  have choice : ∀ line ∈ lines, line.hash = murmur32 k → line.key = some k ∨ line.key = none :=
    fun line inside same => own_or_bare inside apart named (sound line inside) same
  have mine : ∀ line ∈ lines, line.key = some k → line.hash = murmur32 k :=
    fun line inside own => (sound line inside k own).symm
  by_cases full : ∃ line ∈ lines, line.key = some k
  · exact ⟨fun _ => runKey_own none full mine choice, fun lost => absurd (.inl full) lost⟩
  · have bare : ∀ line ∈ lines, line.hash = murmur32 k → line.key = none :=
      fun line inside same => (choice line inside same).resolve_left fun own => full ⟨line, inside, own⟩
    have ⟨first, late⟩ := runKey_none sound (fun name names same => apart name k names named same) bare
    exact ⟨fun kept => first (kept.resolve_left full), fun lost => late (fun kept => lost (.inr kept)) named⟩

end Runs

section Kept
variable {sources : List Source} {lines : List Line} {t : HashInfos}

theorem keyAt_ingestSources (read : readSources sources = some lines) (done : ingestSources sources = some t) :
    (∀ line ∈ lines, ∀ key, line.key = some key → (murmur32 key : Int) = line.hash) ∧
      ∀ h, t.keyAt h = runKey h lines none := by
  rw [ingestSources_eq, read] at done
  exact keyAt_ingestLines done

/-- Every named key is in the table just when it is kept, and two orders of the lines leave the
same keys just when they keep the same ones. -/
theorem key_survives_iff (read : readSources sources = some lines) (done : ingestSources sources = some t)
    (apart : Apart lines) :
    (∀ k, Named lines k → (t.keyAt (murmur32 k) = some (some k) ↔ Kept lines k)) ∧
      ∀ sources' lines' t', readSources sources' = some lines' → ingestSources sources' = some t' → lines.Perm lines' →
        ((∀ h, t.keyAt h = t'.keyAt h) ↔ ∀ k, Named lines k → (Kept lines k ↔ Kept lines' k)) := by
  have ⟨sound, keys⟩ := keyAt_ingestSources read done
  have survives : ∀ k, Named lines k → (t.keyAt (murmur32 k) = some (some k) ↔ Kept lines k) := by
    intro k named
    have ⟨kept, lost⟩ := runKey_named sound apart named
    rw [keys]
    constructor
    · intro found
      by_contra not_kept
      rw [lost not_kept] at found
      cases found
    · exact kept
  refine ⟨survives, fun sources' lines' t' read' done' same => ?_⟩
  have ⟨sound', keys'⟩ := keyAt_ingestSources read' done'
  have member : ∀ line, line ∈ lines ↔ line ∈ lines' := fun line => same.mem_iff
  have names : ∀ k, Named lines k ↔ Named lines' k := fun k => exists_congr fun line => and_congr_left' (member line)
  have apart' : Apart lines' := fun k k' one two => apart k k' ((names k).mpr one) ((names k').mpr two)
  constructor
  · intro agree k named
    have ⟨kept, lost⟩ := runKey_named sound' apart' ((names k).mp named)
    rw [← survives k named, agree, keys']
    constructor
    · intro found
      by_contra not_kept
      rw [lost not_kept] at found
      cases found
    · exact kept
  · intro agree h
    rw [keys, keys']
    by_cases some_ : ∃ k, Named lines k ∧ (murmur32 k : Int) = h
    · obtain ⟨k, named, rfl⟩ := some_
      have ⟨kept, lost⟩ := runKey_named sound apart named
      have ⟨kept', lost'⟩ := runKey_named sound' apart' ((names k).mp named)
      by_cases keep : Kept lines k
      · rw [kept keep, kept' ((agree k named).mp keep)]
      · rw [lost keep, lost' fun other => keep ((agree k named).mpr other)]
    · have unnamed : ∀ name, Named lines name → (murmur32 name : Int) ≠ h := fun name named equal => some_ ⟨name, named, equal⟩
      rw [runKey_unnamed none sound unnamed, runKey_unnamed none sound' fun name named => unnamed name ((names name).mpr named)]
      simp only [member]

/-- The bare hash of `Foo` and a key in front of whose dot it stands. -/
def fooLines : List Line :=
  [⟨1319662467, none, some "Bool".toList, true, none, [], true⟩,
    ⟨815548920, some "Foo.Bar".toList, some "Bool".toList, true, none, [], true⟩]

def bareFirst : List Source := [.mrcheeze (["--- Bool ---", "1319662467", "815548920\tFoo.Bar"].map String.toList)]

def keyFirst : List Source := [.mrcheeze (["--- Bool ---", "815548920\tFoo.Bar", "1319662467"].map String.toList)]

theorem readSources_bareFirst : readSources bareFirst = some fooLines := by decide +kernel

theorem readSources_keyFirst : readSources keyFirst = some fooLines.reverse := by decide +kernel

theorem named_fooLines (k : Str) (named : Named fooLines k) : k ∈ ["Foo.Bar".toList, "Foo".toList, "Bar".toList] := by
  obtain ⟨line, inside, names⟩ := named
  rw [fooLines, List.mem_cons, List.mem_singleton] at inside
  rcases inside with rfl | rfl
  · exact absurd names (not_names_of_bare rfl k)
  · have keys : dottedKeys "Foo.Bar".toList (some "Bool".toList) =
        ["Foo.Bar".toList, "Foo".toList, "Bar".toList, "Foo".toList] := by decide +kernel
    have among := (names_iff rfl k).mp names
    simp only [keys, List.mem_cons, List.not_mem_nil, or_false] at among ⊢
    rcases among with whole | whole | front | back | front
    · exact .inl whole
    · exact .inl whole
    · exact .inr (.inl front)
    · exact .inr (.inr back)
    · exact .inr (.inl front)

theorem apart_fooLines : Apart fooLines := by
  intro k k' named named'
  have distinct : (["Foo.Bar".toList, "Foo".toList, "Bar".toList].map murmur32).Nodup := by decide +kernel
  exact List.inj_on_of_nodup_map distinct (named_fooLines k named) (named_fooLines k' named')

/-- `Foo` is lost where its hash comes first and known where it comes last. -/
theorem foo_lost :
    readSources bareFirst = some fooLines ∧ Apart fooLines ∧ Named fooLines "Foo".toList ∧
      (ingestSources bareFirst).map (fun t => t.keyAt (murmur32 "Foo".toList)) = some (some none) ∧
      (∃ lines, readSources keyFirst = some lines ∧ fooLines.Perm lines) ∧
      (ingestSources keyFirst).map (fun t => t.keyAt (murmur32 "Foo".toList)) = some (some (some "Foo".toList)) := by
  have inside : (⟨815548920, some "Foo.Bar".toList, some "Bool".toList, true, none, [], true⟩ : Line) ∈ fooLines :=
    List.mem_cons_of_mem _ List.mem_cons_self
  have named : Named fooLines "Foo".toList := by
    refine ⟨_, inside, (names_iff rfl _).mpr (.inr ?_)⟩
    decide +kernel
  exact ⟨readSources_bareFirst, apart_fooLines, named, by decide +kernel,
    ⟨_, readSources_keyFirst, fooLines.reverse_perm.symm⟩, by decide +kernel⟩

/-- Read the other way round, every key is in the table. -/
theorem foo_survives : ∃ t, ingestSources keyFirst = some t ∧
    (∀ k, Named fooLines.reverse k → (t.keyAt (murmur32 k) = some (some k) ↔ Kept fooLines.reverse k)) ∧
      Kept fooLines.reverse "Foo".toList := by
  have found : (ingestSources keyFirst).isSome := by decide +kernel
  obtain ⟨t, done⟩ := Option.isSome_iff_exists.mp found
  have apart : Apart fooLines.reverse := by
    have names : ∀ k, Named fooLines.reverse k → Named fooLines k := fun k ⟨line, inside, own⟩ => ⟨line, List.mem_reverse.mp inside, own⟩
    exact fun k k' named named' => apart_fooLines k k' (names k named) (names k' named')
  refine ⟨t, done, (key_survives_iff readSources_keyFirst done apart).1, .inr ⟨by decide, .inl ?_⟩⟩
  refine (names_iff rfl _).mpr (.inr ?_)
  decide +kernel

end Kept

end LotusKit.Hashes
