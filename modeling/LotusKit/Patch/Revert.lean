import Mathlib.Data.List.Induction
import LotusKit.Patch.Ips

/-! Installing and reverting. Both loops over a patch file visit the same instructions,
and the prepared file holds the original code at each of them, so that reverting undoes
an install whatever was installed in between. -/

namespace LotusKit.Patch
open LotusKit.Lib.Bytes LotusKit.Lib.Repeat

variable {file ips : File} {fdOffset n : Nat} {mem : CodeMem} {rips : Rips}

section Visits

theorem readFile_eq_some {bytes : List UInt8} :
    readFile file fdOffset n = some bytes ↔
      fdOffset + n ≤ file.length ∧ slice file fdOffset n = bytes := by
  rw [readFile]
  split
  next inside => simp [inside]
  next past => simp [past]

theorem readFile_eq_none : readFile file fdOffset n = none ↔ file.length < fdOffset + n := by
  rw [readFile]
  split
  next inside => simp [inside]
  next past =>
    simp only [true_iff]
    omega

/-- The offset field and the instruction count of the record at `fdOffset`, unless the
loops stop there. -/
def header (file : File) (fdOffset : Nat) : Option (List UInt8 × Nat) :=
  match readFile file fdOffset 4 with
  | none => none
  | some ipsOffset =>
    if ipsOffset = EEOF then none
    else
      match readFile file (fdOffset + 4) 2 with
      | none => none
      | some ipsPatchSize =>
        if bigEndian ipsPatchSize % 4 ≠ 0 then none else some (ipsOffset, bigEndian ipsPatchSize / 4)

theorem length_of_header {h : List UInt8 × Nat} (found : header file fdOffset = some h) :
    fdOffset + 6 ≤ file.length := by
  simp only [header] at found
  split at found
  · cases found
  · split at found
    · cases found
    · split at found
      · cases found
      next ipsPatchSize size => exact (readFile_eq_some.mp size).1

/-- The instructions of a payload that are in the file, by address and place. -/
def payloadVisits (file : File) (addr : Int) : Nat → Nat → List (Int × Nat)
  | 0, _ => []
  | insts + 1, fdOffset =>
    if fdOffset + 4 ≤ file.length then
      (addr, fdOffset) :: payloadVisits file addr insts (fdOffset + 4)
    else []

/-- All instructions that the loops get to from a record on. -/
def visits (file : File) (fdOffset : Nat) : List (Int × Nat) :=
  match _ : header file fdOffset with
  | none => []
  | some (ipsOffset, insts) =>
    payloadVisits file (instAddr ipsOffset) insts (fdOffset + 6) ++
      visits file (fdOffset + 6 + 4 * insts)
termination_by file.length - fdOffset
decreasing_by
  rename_i found
  have inside := length_of_header found
  omega

theorem visits_of_none (stops : header file fdOffset = none) : visits file fdOffset = [] := by
  rw [visits]
  split
  · rfl
  next found => cases stops.symm.trans found

theorem visits_of_some {ipsOffset : List UInt8} {insts : Nat}
    (found : header file fdOffset = some (ipsOffset, insts)) :
    visits file fdOffset = payloadVisits file (instAddr ipsOffset) insts (fdOffset + 6) ++
      visits file (fdOffset + 6 + 4 * insts) := by
  rw [visits]
  split
  next stops => cases found.symm.trans stops
  next found' =>
    cases found.symm.trans found'
    rfl

theorem visits_of_past (past : file.length < fdOffset + 4) : visits file fdOffset = [] := by
  apply visits_of_none
  rw [header, readFile_eq_none.mpr past]

end Visits

section Apply

/-- Writing the visited instructions, one after the other. -/
def writeVisits (file : File) (visited : List (Int × Nat)) (mem : CodeMem) : CodeMem :=
  visited.foldl (fun mem v => writeInst mem v.1 (slice file v.2 4)) mem

/-- A payload is written as far as the file goes. -/
theorem applyPayload_eq (ips : File) (ipsOffset : List UInt8) (insts fdOffset : Nat) (mem : CodeMem) :
    applyPayload ips ipsOffset insts fdOffset mem =
        .inl (fdOffset + 4 * insts,
          writeVisits ips (payloadVisits ips (instAddr ipsOffset) insts fdOffset) mem) ∨
      (applyPayload ips ipsOffset insts fdOffset mem =
        .inr (writeVisits ips (payloadVisits ips (instAddr ipsOffset) insts fdOffset) mem) ∧
        ips.length < fdOffset + 4 * insts) := by
  induction insts generalizing fdOffset mem with
  | zero => exact .inl rfl
  | succ insts ih =>
    simp only [applyPayload, payloadVisits]
    by_cases inside : fdOffset + 4 ≤ ips.length
    · rw [readFile_eq_some.mpr ⟨inside, rfl⟩, if_pos inside]
      have place : fdOffset + 4 * (insts + 1) = fdOffset + 4 + 4 * insts := by omega
      rw [place]
      exact ih (fdOffset + 4) _
    · rw [readFile_eq_none.mpr (by omega), if_neg inside]
      exact .inr ⟨rfl, by omega⟩

theorem applyRecord_of_none (stops : header ips fdOffset = none) :
    applyRecord ips fdOffset mem = .inr mem := by
  simp only [header] at stops
  simp only [applyRecord]
  cases offset : readFile ips fdOffset 4 with
  | none => rfl
  | some ipsOffset =>
    simp only [offset] at stops ⊢
    by_cases ends : ipsOffset = EEOF
    · rw [if_pos ends]
    rw [if_neg ends] at stops ⊢
    cases size : readFile ips (fdOffset + 4) 2 with
    | none => rfl
    | some ipsPatchSize =>
      simp only [size] at stops ⊢
      by_cases misaligned : bigEndian ipsPatchSize % 4 ≠ 0
      · rw [if_pos misaligned]
      · rw [if_neg misaligned] at stops
        cases stops

theorem applyRecord_of_some {ipsOffset : List UInt8} {insts : Nat}
    (found : header ips fdOffset = some (ipsOffset, insts)) :
    applyRecord ips fdOffset mem = applyPayload ips ipsOffset insts (fdOffset + 6) mem := by
  simp only [header] at found
  simp only [applyRecord]
  cases offset : readFile ips fdOffset 4 with
  | none =>
    rw [offset] at found
    cases found
  | some ipsOffset' =>
    simp only [offset] at found ⊢
    by_cases ends : ipsOffset' = EEOF
    · rw [if_pos ends] at found
      cases found
    rw [if_neg ends] at found ⊢
    cases size : readFile ips (fdOffset + 4) 2 with
    | none =>
      rw [size] at found
      cases found
    | some ipsPatchSize =>
      simp only [size] at found ⊢
      by_cases misaligned : bigEndian ipsPatchSize % 4 ≠ 0
      · rw [if_pos misaligned] at found
        cases found
      · rw [if_neg misaligned] at found ⊢
        cases found
        rfl

/-- The loop of `ApplyPatchImpl` writes what it visits. -/
theorem applyRecords_run (fdOffset : Nat) (mem : CodeMem) :
    (applyRecords ips).run (fdOffset, mem) = writeVisits ips (visits ips fdOffset) mem := by
  induction left : ips.length - fdOffset using Nat.strongRecOn generalizing fdOffset mem with
  | ind left_ ih =>
    cases found : header ips fdOffset with
    | none =>
      rw [visits_of_none found]
      exact Loop.run_leaves (applyRecord_of_none found)
    | some h =>
      obtain ⟨ipsOffset, insts⟩ := h
      have inside := length_of_header found
      have body : (applyRecords ips).body (fdOffset, mem) =
          applyPayload ips ipsOffset insts (fdOffset + 6) mem := applyRecord_of_some found
      rw [visits_of_some found, writeVisits, List.foldl_append]
      rcases applyPayload_eq ips ipsOffset insts (fdOffset + 6) mem with
        goesOn | ⟨leaves, past⟩
      · rw [Loop.run_goesOn (body.trans goesOn)]
        exact ih _ (by omega) _ _ rfl
      · rw [Loop.run_leaves (body.trans leaves), visits_of_past (by omega)]
        rfl

/-- A byte of code is one of a visited instruction. -/
def Covers (file : File) (x : Int) : Prop := ∃ v ∈ visits file 5, v.1 ≤ x ∧ x < v.1 + 4

theorem writeInst_outside {addr x : Int} (inst : List UInt8) (outside : ¬(addr ≤ x ∧ x < addr + 4)) :
    writeInst mem addr inst x = mem x := if_neg outside

theorem writeVisits_outside {visited : List (Int × Nat)} {x : Int}
    (outside : ∀ v ∈ visited, ¬(v.1 ≤ x ∧ x < v.1 + 4)) : writeVisits file visited mem x = mem x := by
  induction visited generalizing mem with
  | nil => rfl
  | cons v rest ih =>
    rw [writeVisits, List.foldl_cons]
    exact (ih fun w member => outside w (List.mem_cons_of_mem v member)).trans
      (writeInst_outside _ (outside v List.mem_cons_self))

/-- Writing the instructions of other code moves it here where they are visited. -/
theorem writeVisits_inside {visited : List (Int × Nat)} {x : Int} {vanilla : CodeMem}
    (original : ∀ v ∈ visited, slice file v.2 4 = codeAt vanilla v.1 4)
    (inside : ∃ v ∈ visited, v.1 ≤ x ∧ x < v.1 + 4) :
    writeVisits file visited mem x = vanilla x := by
  induction visited generalizing mem with
  | nil =>
    obtain ⟨v, member, -⟩ := inside
    cases member
  | cons v rest ih =>
    rw [writeVisits, List.foldl_cons]
    by_cases later : ∃ w ∈ rest, w.1 ≤ x ∧ x < w.1 + 4
    · exact ih (fun w member => original w (List.mem_cons_of_mem v member)) later
    · have here : v.1 ≤ x ∧ x < v.1 + 4 := by
        obtain ⟨w, member, covers⟩ := inside
        rcases List.mem_cons.mp member with rfl | behind
        · exact covers
        · exact absurd ⟨w, behind, covers⟩ later
      rw [← writeVisits, writeVisits_outside fun w member covers => later ⟨w, member, covers⟩,
        writeInst, if_pos here, original v List.mem_cons_self, List.getD_eq_getElem?_getD,
        getElem?_codeAt vanilla v.1 (by omega), Option.getD_some]
      congr 1
      omega

end Apply

section Prepare

/-- After a comparison the range holds what it should, and the rest of the file is as before. -/
structure Rips.Compared (rips : Rips) (fdOffset : Nat) (bytes : List UInt8) (after : Rips) : Prop where
  length : after.file.length = rips.file.length
  range : slice after.file fdOffset bytes.length = bytes
  before : ∀ k m, k + m ≤ fdOffset → slice after.file k m = slice rips.file k m

theorem compareWrite_of_past {bytes : List UInt8}
    (past : rips.file.length < fdOffset + bytes.length) :
    rips.compareWrite fdOffset bytes = none := by
  rw [Rips.compareWrite, readFile_eq_none.mpr past]

theorem compareWrite_of_inside (rips : Rips) (fdOffset : Nat) (bytes : List UInt8)
    (inside : fdOffset + bytes.length ≤ rips.file.length) :
    ∃ after, rips.compareWrite fdOffset bytes = some after ∧
      rips.Compared fdOffset bytes after := by
  rw [Rips.compareWrite, readFile_eq_some.mpr ⟨inside, rfl⟩]
  by_cases same : slice rips.file fdOffset bytes.length = bytes
  · refine ⟨rips, ?_, rfl, same, fun _ _ _ => rfl⟩
    simp only [same, ne_eq, not_true_eq_false, if_false]
  · refine ⟨rips.writeFile fdOffset bytes, ?_, length_overwrite inside, slice_overwrite inside, ?_⟩
    · simp only [same, ne_eq, not_false_eq_true, if_true]
    · intro k m early
      exact slice_overwrite_of_disjoint inside (.inl early)

/-- What the loop owes for the part of the file from `fdOffset` on. -/
structure Prepared (ips : File) (mem : CodeMem) (fdOffset : Nat) (rips after : Rips) : Prop where
  length : after.file.length = ips.length
  before : ∀ k m, k + m ≤ fdOffset → slice after.file k m = slice rips.file k m
  visits : visits after.file fdOffset = visits ips fdOffset
  original : ∀ v ∈ Patch.visits ips fdOffset, slice after.file v.2 4 = codeAt mem v.1 4

/-- The same fields in a file of the same length make the same header. -/
theorem header_congr (length : file.length = ips.length)
    (offset : slice file fdOffset 4 = slice ips fdOffset 4)
    (size : slice file (fdOffset + 4) 2 = slice ips (fdOffset + 4) 2) :
    header file fdOffset = header ips fdOffset := by
  simp only [header, readFile, length, offset, size]

theorem payloadVisits_congr (length : file.length = ips.length) (addr : Int) (insts fdOffset : Nat) :
    payloadVisits file addr insts fdOffset = payloadVisits ips addr insts fdOffset := by
  induction insts generalizing fdOffset with
  | zero => rfl
  | succ insts ih => simp only [payloadVisits, length, ih]

/-- The payload is compared as far as the file goes. -/
theorem preparePayload_spec (ipsOffset : List UInt8) (mem : CodeMem) (insts fdOffset : Nat)
    (rips : Rips) : ∃ after,
      (preparePayload ipsOffset mem insts fdOffset rips = .inl (fdOffset + 4 * insts, after) ∨
        preparePayload ipsOffset mem insts fdOffset rips = .inr after ∧
          rips.file.length < fdOffset + 4 * insts) ∧
      after.file.length = rips.file.length ∧
      (∀ k m, k + m ≤ fdOffset → slice after.file k m = slice rips.file k m) ∧
      ∀ v ∈ payloadVisits rips.file (instAddr ipsOffset) insts fdOffset,
        slice after.file v.2 4 = codeAt mem v.1 4 ∧ v.2 + 4 ≤ fdOffset + 4 * insts := by
  induction insts generalizing fdOffset rips with
  | zero =>
    refine ⟨rips, .inl rfl, rfl, fun _ _ _ => rfl, fun v member => ?_⟩
    cases member
  | succ insts ih =>
    simp only [preparePayload, payloadVisits]
    have size := length_codeAt mem (instAddr ipsOffset) 4
    by_cases inside : fdOffset + 4 ≤ rips.file.length
    · obtain ⟨compared, found, done⟩ := compareWrite_of_inside rips fdOffset _ (size.symm ▸ inside)
      have range := done.range
      rw [size] at range
      obtain ⟨after, ends, length, before, original⟩ := ih (fdOffset + 4) compared
      have place : fdOffset + 4 * (insts + 1) = fdOffset + 4 + 4 * insts := by omega
      rw [found, if_pos inside, place]
      refine ⟨after, done.length ▸ ends, length.trans done.length, ?_, ?_⟩
      · intro k m early
        exact (before k m (by omega)).trans (done.before k m early)
      · intro v member
        rcases List.mem_cons.mp member with rfl | later
        · refine ⟨?_, by omega⟩
          rw [before _ _ (Nat.le_refl _)]
          exact range
        · exact original v (payloadVisits_congr done.length _ _ _ ▸ later)
    · rw [compareWrite_of_past (by omega), if_neg inside]
      refine ⟨rips, .inr ⟨rfl, by omega⟩, rfl, fun _ _ _ => rfl, fun v member => ?_⟩
      cases member

theorem header_of_past (past : file.length < fdOffset + 6) : header file fdOffset = none := by
  cases found : header file fdOffset with
  | none => rfl
  | some h =>
    have inside := length_of_header found
    omega

/-- The two fields of a record are copied. -/
structure Rips.Copied (rips : Rips) (ips : File) (fdOffset : Nat) (after : Rips) : Prop where
  length : after.file.length = ips.length
  before : ∀ k m, k + m ≤ fdOffset → slice after.file k m = slice rips.file k m
  ipsOffset : slice after.file fdOffset 4 = slice ips fdOffset 4
  ipsPatchSize : slice after.file (fdOffset + 4) 2 = slice ips (fdOffset + 4) 2

theorem copied_of_inside (length : rips.file.length = ips.length)
    (inside : fdOffset + 6 ≤ ips.length) :
    ∃ first after, rips.compareWrite fdOffset (slice ips fdOffset 4) = some first ∧
      first.compareWrite (fdOffset + 4) (slice ips (fdOffset + 4) 2) = some after ∧
      rips.Copied ips fdOffset after := by
  have four : (slice ips fdOffset 4).length = 4 := length_slice (by omega)
  have two : (slice ips (fdOffset + 4) 2).length = 2 := length_slice (by omega)
  obtain ⟨first, found, offset⟩ := compareWrite_of_inside rips fdOffset (slice ips fdOffset 4)
    (by omega)
  have same := offset.length
  obtain ⟨after, found', size⟩ := compareWrite_of_inside first (fdOffset + 4)
    (slice ips (fdOffset + 4) 2) (by omega)
  have written := offset.range
  have written' := size.range
  rw [four] at written
  rw [two] at written'
  refine ⟨first, after, found, found', size.length.trans (same.trans length), ?_, ?_, written'⟩
  · intro k m early
    exact (size.before k m (by omega)).trans (offset.before k m early)
  · exact (size.before fdOffset 4 (Nat.le_refl _)).trans written

/-- Where the loops stop, the prepared file makes them stop too. -/
theorem prepareRecord_of_none (mem : CodeMem) (length : rips.file.length = ips.length)
    (stops : header ips fdOffset = none) :
    ∃ after, prepareRecord ips mem fdOffset rips = .inr after ∧
      Prepared ips mem fdOffset rips after := by
  have prepared {after : Rips} (length : after.file.length = ips.length)
      (before : ∀ k m, k + m ≤ fdOffset → slice after.file k m = slice rips.file k m)
      (stops' : header after.file fdOffset = none) : Prepared ips mem fdOffset rips after := by
    refine ⟨length, before, (visits_of_none stops').trans (visits_of_none stops).symm, ?_⟩
    intro v member
    rw [visits_of_none stops] at member
    cases member
  unfold prepareRecord
  by_cases four : fdOffset + 4 ≤ ips.length
  · rw [readFile_eq_some.mpr ⟨four, rfl⟩]
    by_cases ends : slice ips fdOffset 4 = EEOF
    · obtain ⟨after, found, done⟩ := compareWrite_of_inside rips fdOffset EEOF
        (by rw [length]; exact four)
      refine ⟨after, ?_, prepared (done.length.trans length) done.before ?_⟩
      · simp only [ends, if_true, Rips.eeof, found, Option.getD_some]
      · have range : slice after.file fdOffset 4 = EEOF := done.range
        rw [header, readFile_eq_some.mpr ⟨by rw [done.length, length]; exact four, range⟩]
        exact if_pos rfl
    · simp only [ends, if_false]
      by_cases six : fdOffset + 6 ≤ ips.length
      · obtain ⟨first, after, found, found', copied⟩ := copied_of_inside length six
        have two : fdOffset + 4 + 2 ≤ ips.length := six
        rw [found, readFile_eq_some.mpr ⟨two, rfl⟩]
        simp only [found']
        have misaligned : bigEndian (slice ips (fdOffset + 4) 2) % 4 ≠ 0 := by
          intro aligned
          rw [header, readFile_eq_some.mpr ⟨four, rfl⟩] at stops
          simp only [ends, if_false, readFile_eq_some.mpr ⟨two, rfl⟩, aligned, ne_eq,
            not_true_eq_false] at stops
          cases stops
        refine ⟨after, if_pos misaligned, prepared copied.length copied.before ?_⟩
        rw [header_congr copied.length copied.ipsOffset copied.ipsPatchSize, stops]
      · have size : (slice ips fdOffset 4).length = 4 := length_slice four
        obtain ⟨after, found, done⟩ := compareWrite_of_inside rips fdOffset (slice ips fdOffset 4)
          (by omega)
        rw [found, readFile_eq_none.mpr (by omega)]
        have length' := done.length.trans length
        exact ⟨after, rfl, prepared length' done.before (header_of_past (by omega))⟩
  · rw [readFile_eq_none.mpr (by omega)]
    exact ⟨rips, rfl, prepared length (fun _ _ _ => rfl) (header_of_past (by omega))⟩

theorem prepareRecord_of_some (mem : CodeMem) {ipsOffset : List UInt8} {insts : Nat}
    (length : rips.file.length = ips.length)
    (found : header ips fdOffset = some (ipsOffset, insts)) :
    ∃ fields, prepareRecord ips mem fdOffset rips =
        preparePayload ipsOffset mem insts (fdOffset + 6) fields ∧
      rips.Copied ips fdOffset fields := by
  have six := length_of_header found
  have four : fdOffset + 4 ≤ ips.length := by omega
  obtain ⟨first, after, offset, size, copied⟩ := copied_of_inside length six
  refine ⟨after, ?_, copied⟩
  unfold prepareRecord
  rw [header, readFile_eq_some.mpr ⟨four, rfl⟩] at found
  rw [readFile_eq_some.mpr ⟨four, rfl⟩]
  simp only at found ⊢
  split at found
  · cases found
  next record =>
    simp only [record, if_false, offset]
    have two : fdOffset + 4 + 2 ≤ ips.length := six
    rw [readFile_eq_some.mpr ⟨two, rfl⟩] at found ⊢
    simp only [size] at found ⊢
    split at found
    · cases found
    next aligned =>
      cases found
      rw [if_neg aligned]

/-- The prepared file is visited like the original, with the code of now in it. -/
theorem prepareRecords_run (mem : CodeMem) (fdOffset : Nat) (rips : Rips) (length : rips.file.length = ips.length) :
    Prepared ips mem fdOffset rips ((prepareRecords ips mem).run (fdOffset, rips)) := by
  induction left : ips.length - fdOffset using Nat.strongRecOn generalizing fdOffset rips with
  | ind left_ ih =>
    cases found : header ips fdOffset with
    | none =>
      obtain ⟨after, leaves, prepared⟩ := prepareRecord_of_none mem length found
      have run : (prepareRecords ips mem).run (fdOffset, rips) = after := Loop.run_leaves leaves
      rw [run]
      exact prepared
    | some h =>
      obtain ⟨ipsOffset, insts⟩ := h
      have six := length_of_header found
      obtain ⟨fields, taken, copied⟩ := prepareRecord_of_some mem length found
      obtain ⟨after, ends, same, before, original⟩ :=
        preparePayload_spec ipsOffset mem insts (fdOffset + 6) fields
      have length' : after.file.length = ips.length := same.trans copied.length
      -- either way the loop ends in a file that keeps `after` up to the next record
      have rest : Prepared ips mem (fdOffset + 6 + 4 * insts) after
          ((prepareRecords ips mem).run (fdOffset, rips)) := by
        rcases ends with goesOn | ⟨leaves, past⟩
        · rw [Loop.run_goesOn (taken.trans goesOn)]
          exact ih _ (by omega) _ after length' rfl
        · rw [Loop.run_leaves (taken.trans leaves)]
          have past' : ips.length < fdOffset + 6 + 4 * insts + 4 := by
            have same' := copied.length
            omega
          refine ⟨length', fun _ _ _ => rfl, ?_, ?_⟩
          · rw [visits_of_past (length'.symm ▸ past'), visits_of_past past']
          · intro v member
            rw [visits_of_past past'] at member
            cases member
      generalize (prepareRecords ips mem).run (fdOffset, rips) = final at rest
      have fields_ (k m : Nat) (early : k + m ≤ fdOffset + 6) :
          slice final.file k m = slice fields.file k m :=
        (rest.before k m (by omega)).trans (before k m early)
      have offset : slice final.file fdOffset 4 = slice ips fdOffset 4 :=
        (fields_ fdOffset 4 (by omega)).trans copied.ipsOffset
      have size : slice final.file (fdOffset + 4) 2 = slice ips (fdOffset + 4) 2 :=
        (fields_ (fdOffset + 4) 2 (by omega)).trans copied.ipsPatchSize
      have header_ : header final.file fdOffset = some (ipsOffset, insts) :=
        (header_congr rest.length offset size).trans found
      refine ⟨rest.length, ?_, ?_, ?_⟩
      · intro k m early
        exact (fields_ k m (by omega)).trans (copied.before k m early)
      · rw [visits_of_some header_, visits_of_some found, rest.visits,
          payloadVisits_congr rest.length]
      · intro v member
        rw [visits_of_some found] at member
        rcases List.mem_append.mp member with here | later
        · obtain ⟨holds, early⟩ := original v (payloadVisits_congr copied.length _ _ _ ▸ here)
          rw [rest.before _ _ early]
          exact holds
        · exact rest.original v later

end Prepare

theorem take_slice (file : File) (k n m : Nat) (fewer : m ≤ n) :
    (slice file k n).take m = slice file k m := by
  rw [slice, slice, List.take_take, Nat.min_eq_left fewer]

theorem applyPatchImpl_of_accepted (accepted : Accepted file) (mem : CodeMem) :
    applyPatchImpl (some file) mem = writeVisits file (visits file 5) mem := by
  obtain ⟨length, magic⟩ := accepted
  have inside : 0 + 8 ≤ file.length := by omega
  have same : ¬(slice file 0 8).take 5 ≠ IPS32 := by
    rw [take_slice file 0 8 5 (by omega)]
    exact not_not.mpr magic
  simp only [applyPatchImpl, readFile_eq_some.mpr ⟨inside, rfl⟩]
  rw [if_neg (by omega), if_neg same]
  exact applyRecords_run 5 mem

theorem length_setFileSize (fill : Nat → UInt8) (file : File) (size : Nat) :
    (setFileSize fill file size).length = size := by
  rw [setFileSize, List.length_append, List.length_take, List.length_map, List.length_range]
  omega

theorem length_openRips (fill : Nat → UInt8) (old : Option File) (ipsLen : Nat) :
    (openRips fill old ipsLen).file.length = ipsLen := by
  cases old with
  | none => exact length_setFileSize _ _ _
  | some file =>
    simp only [openRips]
    split
    next => exact length_setFileSize _ _ _
    next same => exact not_not.mp same

/-- The magic of the prepared file, and what the loop makes of the rest. -/
theorem prepareRips_spec (mem : CodeMem) (length : rips.file.length = ips.length) (accepted : Accepted ips) :
    ∃ started : Rips, prepareRips ips mem rips = (prepareRecords ips mem).run (5, started) ∧
      started.file.length = ips.length ∧ slice started.file 0 5 = IPS32 := by
  have inside : 0 + 8 ≤ rips.file.length := by
    have size := accepted.1
    omega
  simp only [prepareRips, readFile_eq_some.mpr ⟨inside, rfl⟩, take_slice rips.file 0 8 5 (by omega)]
  split
  next differs =>
    have fits : 0 + IPS32.length ≤ rips.file.length := by
      have five : IPS32.length = 5 := rfl
      omega
    exact ⟨rips.writeFile 0 IPS32, rfl, (length_overwrite fits).trans length, slice_overwrite fits⟩
  next same => exact ⟨rips, rfl, length, not_not.mp same⟩

/-- The prepared file is accepted, visited like the original, and holds the code of now. -/
theorem prepareRevertPatchImpl_spec (fill : Nat → UInt8) (old : Option File) (mem : CodeMem)
    (accepted : Accepted ips) :
    ∃ prepared, (prepareRevertPatchImpl fill (some ips) old mem).1 = some prepared ∧
      Accepted prepared ∧ visits prepared 5 = visits ips 5 ∧
      ∀ v ∈ visits ips 5, slice prepared v.2 4 = codeAt mem v.1 4 := by
  obtain ⟨size, magic⟩ := accepted
  have inside : 0 + 8 ≤ ips.length := by omega
  have same : ¬(slice ips 0 8).take 5 ≠ IPS32 := by
    rw [take_slice ips 0 8 5 (by omega)]
    exact not_not.mpr magic
  obtain ⟨started, run, length, magic'⟩ :=
    prepareRips_spec mem (length_openRips fill old ips.length) ⟨size, magic⟩
  have prepared := prepareRecords_run mem 5 started length
  refine ⟨(prepareRips ips mem (openRips fill old ips.length)).file, ?_, ?_, ?_, ?_⟩
  · simp only [prepareRevertPatchImpl, readFile_eq_some.mpr ⟨inside, rfl⟩]
    rw [if_neg (by omega), if_neg same]
  · rw [run]
    refine ⟨by rw [prepared.length]; exact size, ?_⟩
    rw [prepared.before 0 5 (Nat.le_refl _)]
    exact magic'
  · rw [run]
    exact prepared.visits
  · rw [run]
    exact prepared.original

section Calls
variable {ι : Type*} (set : ι → Patchset) (vanilla : CodeMem)

inductive Call (ι : Type*) where
  | install (patchsetName : ι)
  | revert (patchsetName : ι)

def call (c : Call ι) (mem : CodeMem) : CodeMem :=
  match c with
  | .install patchsetName => patchInstall set patchsetName mem
  | .revert patchsetName => patchRevert set vanilla patchsetName mem

/-- Code memory after the calls, from vanilla on. -/
def afterCalls (calls : List (Call ι)) : CodeMem := calls.foldl (fun mem c => call set vanilla c mem) vanilla

/-- The patchset is installed at some point and not reverted later. -/
def Unreverted (calls : List (Call ι)) (patchsetName : ι) : Prop :=
  ∃ before after, calls = before ++ .install patchsetName :: after ∧ Call.revert patchsetName ∉ after

variable {set vanilla} {calls : List (Call ι)} {name other : ι}

theorem Unreverted.install (still : Unreverted calls other) :
    Unreverted (calls ++ [.install name]) other := by
  obtain ⟨before, after, rfl, kept⟩ := still
  refine ⟨before, after ++ [.install name], by simp, ?_⟩
  simpa using kept

theorem unreverted_installed : Unreverted (calls ++ [.install name]) name :=
  ⟨calls, [], rfl, List.not_mem_nil⟩

theorem Unreverted.revert (still : Unreverted calls other) (different : other ≠ name) :
    Unreverted (calls ++ [.revert name]) other := by
  obtain ⟨before, after, rfl, kept⟩ := still
  refine ⟨before, after ++ [.revert name], by simp, ?_⟩
  simpa using ⟨kept, different⟩

theorem patchInstall_outside {x : Int} (outside : ¬Covers (set name).ips x) :
    patchInstall set name mem x = mem x := by
  rw [patchInstall, applyPatchImpl_of_accepted (set name).accepted]
  exact writeVisits_outside fun v member covers => outside ⟨v, member, covers⟩

/-- Reverting restores what installing writes, and nothing else. -/
theorem patchRevert_eq (x : Int) :
    (Covers (set name).ips x → patchRevert set vanilla name mem x = vanilla x) ∧
      (¬Covers (set name).ips x → patchRevert set vanilla name mem x = mem x) := by
  obtain ⟨prepared, is, accepted, same, original⟩ := prepareRevertPatchImpl_spec (set name).fill
    (set name).oldRips vanilla (set name).accepted
  rw [patchRevert, Patchset.rips, is, applyPatchImpl_of_accepted accepted, same]
  constructor
  · exact writeVisits_inside original
  · intro outside
    exact writeVisits_outside fun v member covers => outside ⟨v, member, covers⟩

/-- Code that no install that is still in force covers is vanilla, whatever was called. -/
theorem vanilla_of_not_covered {x : Int}
    (free : ∀ patchsetName, Unreverted calls patchsetName → ¬Covers (set patchsetName).ips x) :
    afterCalls set vanilla calls x = vanilla x := by
  induction calls using List.reverseRecOn with
  | nil => rfl
  | append_singleton calls c ih =>
    rw [afterCalls, List.foldl_append, List.foldl_cons, List.foldl_nil, ← afterCalls]
    cases c with
    | install name =>
      rw [call, patchInstall_outside (free name unreverted_installed)]
      exact ih fun other still => free other still.install
    | revert name =>
      by_cases covers : Covers (set name).ips x
      · exact (patchRevert_eq x).1 covers
      · rw [call, (patchRevert_eq x).2 covers]
        apply ih
        intro other still
        by_cases same : other = name
        · exact same ▸ covers
        · exact free other (still.revert same)

/-- Reverting everything restores vanilla code. -/
theorem vanilla_of_reverted (set : ι → Patchset) (vanilla : CodeMem) (calls : List (Call ι)) :
    ((∀ patchsetName, ¬Unreverted calls patchsetName) → afterCalls set vanilla calls = vanilla) ∧
      ∀ x, (∀ patchsetName, Unreverted calls patchsetName → ¬Covers (set patchsetName).ips x) →
        afterCalls set vanilla calls x = vanilla x := by
  constructor
  · intro reverted
    funext x
    exact vanilla_of_not_covered fun name still => absurd still (reverted name)
  · intro x free
    exact vanilla_of_not_covered free

/-- Two instructions for one address, over a revert file that is too short. -/
def doublePatch : Patchset where
  ips := IPS32 ++ [0, 0, 1, 8, 0, 8, 1, 2, 3, 4, 5, 6, 7, 8] ++ EEOF
  accepted := by unfold Accepted; decide
  oldRips := some [9]
  fill _ := 7

theorem doublePatch_reverted :
    afterCalls (fun _ : Unit => doublePatch) (fun _ => 0) [.install (), .install (), .revert ()] =
      fun _ => 0 := by
  apply (vanilla_of_reverted (fun _ : Unit => doublePatch) (fun _ => 0) _).1
  rintro name ⟨before, after, calls, kept⟩
  rcases before with _ | ⟨first, _ | ⟨second, _ | ⟨third, before⟩⟩⟩
  · obtain rfl := (List.cons.inj calls).2
    exact kept (by simp)
  · obtain rfl := (List.cons.inj (List.cons.inj calls).2).2
    exact kept (by simp)
  · simp at calls
  · simp at calls

end Calls

end LotusKit.Patch
