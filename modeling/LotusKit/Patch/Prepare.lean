import LotusKit.Patch.Install

/-! What `PrepareRevertPatchImpl` leaves in the `.rips` file of a well-formed `.ips` file,
and what a second run does. -/

namespace LotusKit.Patch
open LotusKit.Lib.Bytes LotusKit.Lib.Repeat

variable {mem : CodeMem} {rips : Rips}

/-- A comparison with a part of the file. -/
theorem compareWrite_middle (bytes : List UInt8) {before old behind : List UInt8}
    (file : rips.file = before ++ old ++ behind) (length : old.length = bytes.length) :
    ∃ after, rips.compareWrite before.length bytes = some after ∧
      after.file = before ++ bytes ++ behind ∧ (old = bytes → after = rips) := by
  have found : readFile rips.file before.length bytes.length = some old := by
    rw [file, ← length]
    exact readFile_middle before old behind
  rw [Rips.compareWrite, found]
  by_cases same : old = bytes
  · refine ⟨rips, ?_, same ▸ file, fun _ => rfl⟩
    simp only [same, ne_eq, not_true_eq_false, if_false]
  · refine ⟨rips.writeFile before.length bytes, ?_, ?_, fun same' => absurd same' same⟩
    · simp only [same, ne_eq, not_false_eq_true, if_true]
    · rw [Rips.writeFile, file, overwrite_middle length.symm]

/-- The instruction at an address, over and over. -/
def repeated (mem : CodeMem) (addr : Int) (insts : Nat) : List UInt8 :=
  (List.replicate insts (codeAt mem addr 4)).flatten

theorem length_repeated (mem : CodeMem) (addr : Int) (insts : Nat) :
    (repeated mem addr insts).length = 4 * insts := by
  induction insts with
  | zero => rfl
  | succ insts ih =>
    rw [repeated, List.replicate_succ, List.flatten_cons, List.length_append, length_codeAt,
      ← repeated, ih]
    omega

theorem getElem?_repeated (mem : CodeMem) (addr : Int) {insts j : Nat} (inside : j < 4 * insts) :
    (repeated mem addr insts)[j]? = some (mem (addr + (j % 4 : Nat))) := by
  induction insts generalizing j with
  | zero => exact absurd inside (by omega)
  | succ insts ih =>
    have four := length_codeAt mem addr 4
    rw [repeated, List.replicate_succ, List.flatten_cons, ← repeated]
    by_cases first : j < 4
    · rw [List.getElem?_append_left (by omega), getElem?_codeAt mem addr first,
        Nat.mod_eq_of_lt first]
    · rw [List.getElem?_append_right (by omega), four, ih (by omega)]
      congr 4
      omega

theorem preparePayload_middle (mem : CodeMem) {before old behind : List UInt8} (ipsOffset : List UInt8) (insts : Nat)
    (file : rips.file = before ++ old ++ behind) (length : old.length = 4 * insts) :
    ∃ after, preparePayload ipsOffset mem insts before.length rips =
        .inl (before.length + 4 * insts, after) ∧
      after.file = before ++ repeated mem (instAddr ipsOffset) insts ++ behind ∧
      (old = repeated mem (instAddr ipsOffset) insts → after = rips) := by
  induction insts generalizing before old rips with
  | zero =>
    obtain rfl : old = [] := List.eq_nil_of_length_eq_zero (by omega)
    exact ⟨rips, rfl, file, fun _ => rfl⟩
  | succ insts ih =>
    have four := length_codeAt mem (instAddr ipsOffset) 4
    have first : (old.take 4).length = 4 := by
      rw [List.length_take]
      omega
    have parts : rips.file = before ++ old.take 4 ++ (old.drop 4 ++ behind) := by
      rw [file, List.append_assoc before (old.take 4), ← List.append_assoc (old.take 4),
        List.take_append_drop, List.append_assoc]
    obtain ⟨compared, found, file', kept⟩ := compareWrite_middle _ parts (first.trans four.symm)
    have place : (before ++ codeAt mem (instAddr ipsOffset) 4).length = before.length + 4 := by
      rw [List.length_append, four]
    have parts' : compared.file = (before ++ codeAt mem (instAddr ipsOffset) 4) ++ old.drop 4 ++
        behind := by
      rw [file', List.append_assoc (before ++ _)]
    obtain ⟨after, run, final, kept'⟩ := ih parts' (by rw [List.length_drop]; omega)
    rw [place] at run
    have again : repeated mem (instAddr ipsOffset) (insts + 1) =
        codeAt mem (instAddr ipsOffset) 4 ++ repeated mem (instAddr ipsOffset) insts := by
      rw [repeated, List.replicate_succ, List.flatten_cons, ← repeated]
    refine ⟨after, ?_, ?_, ?_⟩
    · simp only [preparePayload, found, run]
      congr 2
      omega
    · rw [final, again]
      simp only [List.append_assoc]
    · intro same
      rw [again] at same
      have split_ := List.append_inj ((List.take_append_drop 4 old).trans same) (first.trans four.symm)
      rw [kept' split_.2, kept split_.1]

namespace Record

def withPayload (r : Record) (payload : List UInt8) (length : payload.length = r.payload.length) :
    Record where
  ipsOffset := r.ipsOffset
  payload := payload
  four := r.four
  isRecord := r.isRecord
  whole := length ▸ r.whole
  small := length ▸ r.small

/-- The record that is prepared for this one. -/
def prepared (mem : CodeMem) (r : Record) : Record :=
  r.withPayload (repeated mem r.addr r.insts) ((length_repeated _ _ _).trans r.length_payload.symm)

/-- The record with the code of its whole range. -/
def reverting (mem : CodeMem) (r : Record) : Record :=
  r.withPayload (codeAt mem r.addr r.payload.length) (length_codeAt _ _ _)

theorem length_bytes (r : Record) : r.bytes.length = 6 + r.payload.length := by
  rw [bytes, List.length_append, List.length_append, r.four, length_toBigEndian]

theorem length_bytes_prepared (r : Record) : (r.prepared mem).bytes.length = r.bytes.length := by
  rw [length_bytes, length_bytes]
  exact congrArg (6 + ·) ((length_repeated _ _ _).trans r.length_payload.symm)

end Record

theorem prepareRecord_middle (mem : CodeMem) (behind' : List UInt8) {pre before old behind : List UInt8}
    (r : Record)
    (file : rips.file = before ++ old ++ behind) (length : old.length = r.bytes.length)
    (place : before.length = pre.length) :
    ∃ after, prepareRecord (pre ++ r.bytes ++ behind') mem pre.length rips =
        .inl ((pre ++ r.bytes).length, after) ∧
      after.file = before ++ (r.prepared mem).bytes ++ behind ∧
      (old = (r.prepared mem).bytes → after = rips) := by
  -- the old bytes in the places of the two fields and the payload
  have size := r.length_bytes
  have split6 : old = old.take 4 ++ ((old.drop 4).take 2 ++ old.drop 6) := by
    have later : old.drop 6 = (old.drop 4).drop 2 := by rw [List.drop_drop]
    rw [later, List.take_append_drop, List.take_append_drop]
  have four : (old.take 4).length = 4 := by
    rw [List.length_take]
    omega
  have two : ((old.drop 4).take 2).length = 2 := by
    rw [List.length_take, List.length_drop]
    omega
  have rest : (old.drop 6).length = 4 * r.insts := by
    have whole := r.length_payload
    rw [List.length_drop]
    omega
  generalize old.take 4 = old4 at split6 four
  generalize (old.drop 4).take 2 = old2 at split6 two
  generalize old.drop 6 = oldPayload at split6 rest
  subst split6
  have file4 : rips.file = before ++ old4 ++ (old2 ++ oldPayload ++ behind) := by
    rw [file]
    simp only [List.append_assoc]
  obtain ⟨first, found, file', kept⟩ := compareWrite_middle _ file4 (four.trans r.four.symm)
  have file2 : first.file = (before ++ r.ipsOffset) ++ old2 ++ (oldPayload ++ behind) := by
    rw [file']
    simp only [List.append_assoc]
  have sizes := length_toBigEndian 2 r.payload.length
  obtain ⟨second, found', file'', kept'⟩ := compareWrite_middle _ file2 (two.trans sizes.symm)
  have filePayload : second.file = (before ++ r.ipsOffset ++ toBigEndian 2 r.payload.length) ++
      oldPayload ++ behind := by
    rw [file'']
    simp only [List.append_assoc]
  obtain ⟨after, run, final, kept''⟩ := preparePayload_middle mem r.ipsOffset r.insts
    filePayload rest
  have place4 : (before ++ r.ipsOffset).length = pre.length + 4 := by
    rw [List.length_append, r.four, place]
  have place6 : (before ++ r.ipsOffset ++ toBigEndian 2 r.payload.length).length = pre.length + 6 := by
    rw [List.length_append, place4, sizes]
  rw [place] at found
  rw [place4] at found'
  rw [place6, ← r.length_payload] at run
  have bytes : (r.prepared mem).bytes =
      r.ipsOffset ++ (toBigEndian 2 r.payload.length ++ repeated mem r.addr r.insts) := by
    have same : (repeated mem r.addr r.insts).length = r.payload.length :=
      (length_repeated _ _ _).trans r.length_payload.symm
    rw [Record.bytes, Record.prepared, Record.withPayload, same, List.append_assoc]
  refine ⟨after, ?_, ?_, ?_⟩
  · simp only [prepareRecord, readFile_ipsOffset, r.isRecord, if_false, found,
      readFile_ipsPatchSize, found', r.bigEndian_size, r.whole, ne_eq, not_true_eq_false]
    rw [List.length_append, size, ← Nat.add_assoc]
    exact run
  · rw [final, bytes, Record.addr]
    simp only [List.append_assoc]
  · intro same
    rw [bytes] at same
    have offset := List.append_inj same (four.trans r.four.symm)
    have fields := List.append_inj offset.2 (two.trans sizes.symm)
    rw [kept'' fields.2, kept' fields.1, kept offset.1]

/-- The loop over the records of a well-formed file. -/
theorem prepareRecords_encoded (mem : CodeMem) {pre before tail : List UInt8} (records : List Record)
    (file : rips.file = before ++ tail)
    (length : tail.length = (encodeRecords records ++ EEOF).length) (place : before.length = pre.length) :
    let after := (prepareRecords (pre ++ encodeRecords records ++ EEOF) mem).run (pre.length, rips)
    let prepared := encodeRecords (records.map (Record.prepared mem)) ++ EEOF
    after.file = before ++ prepared ∧ (tail = prepared → after = rips) := by
  induction records generalizing pre before tail rips with
  | nil =>
    have whole : pre ++ encodeRecords [] ++ EEOF = pre ++ EEOF := by
      rw [encodeRecords, List.flatMap_nil, List.append_nil]
    have ends : readFile (pre ++ EEOF) pre.length 4 = some EEOF := by
      have middle := readFile_middle pre EEOF []
      rwa [List.append_nil] at middle
    have file' : rips.file = before ++ tail ++ [] := by rw [file, List.append_nil]
    obtain ⟨after, found, final, kept⟩ := compareWrite_middle EEOF file' length
    have leaves : prepareRecord (pre ++ EEOF) mem pre.length rips = .inr after := by
      rw [place] at found
      simp only [prepareRecord, ends, if_true, Rips.eeof, found, Option.getD_some]
    rw [whole]
    have run : (prepareRecords (pre ++ EEOF) mem).run (pre.length, rips) = after :=
      Loop.run_leaves leaves
    constructor
    · exact (congrArg Rips.file run).trans (final.trans (List.append_nil _))
    · intro same
      exact run.trans (kept same)
  | cons r rest ih =>
    have parts : pre ++ encodeRecords (r :: rest) ++ EEOF =
        pre ++ r.bytes ++ (encodeRecords rest ++ EEOF) := by
      simp only [encodeRecords, List.flatMap_cons, List.append_assoc]
    have size : tail.length = r.bytes.length + (encodeRecords rest ++ EEOF).length := by
      rw [length, encodeRecords, List.flatMap_cons, List.append_assoc, List.length_append,
        encodeRecords]
    have split_ : tail = tail.take r.bytes.length ++ tail.drop r.bytes.length :=
      (List.take_append_drop _ _).symm
    have front : (tail.take r.bytes.length).length = r.bytes.length := by
      rw [List.length_take]
      omega
    have back : (tail.drop r.bytes.length).length = (encodeRecords rest ++ EEOF).length := by
      rw [List.length_drop]
      omega
    generalize tail.take r.bytes.length = here at split_ front
    generalize tail.drop r.bytes.length = later at split_ back
    subst split_
    rw [← List.append_assoc] at file
    obtain ⟨after, body, file', kept⟩ := prepareRecord_middle mem
      (encodeRecords rest ++ EEOF) r file front place
    have place' : (before ++ (r.prepared mem).bytes).length = (pre ++ r.bytes).length := by
      rw [List.length_append, List.length_append, place, r.length_bytes_prepared]
    have run : (prepareRecords (pre ++ r.bytes ++ (encodeRecords rest ++ EEOF)) mem).run
        (pre.length, rips) = (prepareRecords (pre ++ r.bytes ++ (encodeRecords rest ++ EEOF)) mem).run
        ((pre ++ r.bytes).length, after) := Loop.run_goesOn body
    obtain ⟨final, kept'⟩ := ih file' back place'
    rw [parts, run, ← List.append_assoc]
    have prepared : encodeRecords ((r :: rest).map (Record.prepared mem)) ++ EEOF =
        (r.prepared mem).bytes ++ (encodeRecords (rest.map (Record.prepared mem)) ++ EEOF) := by
      simp only [encodeRecords, List.map_cons, List.flatMap_cons, List.append_assoc]
    rw [prepared]
    refine ⟨final.trans (List.append_assoc _ _ _), fun same => ?_⟩
    have both := List.append_inj same (front.trans r.length_bytes_prepared.symm)
    rw [kept' both.2, kept both.1]

theorem length_encodeRecords_prepared (records : List Record) :
    (encodeRecords (records.map (Record.prepared mem))).length = (encodeRecords records).length := by
  induction records with
  | nil => rfl
  | cons r rest ih =>
    rw [List.map_cons, encodeRecords, List.flatMap_cons, List.length_append, ← encodeRecords, ih,
      r.length_bytes_prepared, encodeRecords, encodeRecords, List.flatMap_cons, List.length_append]

theorem length_encode_prepared (records : List Record) :
    (encode (records.map (Record.prepared mem))).length = (encode records).length := by
  rw [encode, encode, List.length_append, List.length_append, List.length_append,
    List.length_append, length_encodeRecords_prepared]

/-- The opened file becomes the prepared one, and is left alone when it is that already. -/
theorem prepareRips_encode (mem : CodeMem) {records : List Record} (some_ : records ≠ [])
    (length : rips.file.length = (encode records).length) :
    (prepareRips (encode records) mem rips).file = encode (records.map (Record.prepared mem)) ∧
      (rips.file = encode (records.map (Record.prepared mem)) →
        prepareRips (encode records) mem rips = rips) := by
  have size := (accepted_encode some_).1
  have five : IPS32.length = 5 := rfl
  have inside : 0 + 8 ≤ rips.file.length := by omega
  have parts : rips.file = [] ++ rips.file.take 5 ++ rips.file.drop 5 :=
    (List.take_append_drop 5 _).symm
  have tail : (rips.file.drop 5).length = (encodeRecords records ++ EEOF).length := by
    rw [List.length_drop, length, encode, List.append_assoc, List.length_append]
    omega
  have magic : slice rips.file 0 5 = rips.file.take 5 := by rw [slice, List.drop_zero]
  simp only [prepareRips, readFile_eq_some.mpr ⟨inside, rfl⟩, take_slice rips.file 0 8 5 (by omega),
    magic]
  have loop {started : Rips} (file : started.file = IPS32 ++ rips.file.drop 5) :=
    prepareRecords_encoded mem records file tail rfl
  split
  next differs =>
    have fits : 0 + IPS32.length ≤ rips.file.length := by omega
    have file : (rips.writeFile 0 IPS32).file = IPS32 ++ rips.file.drop 5 := by
      rw [Rips.writeFile, overwrite, List.take_zero, List.nil_append, Nat.zero_add, five]
    obtain ⟨final, -⟩ := loop file
    refine ⟨final.trans (List.append_assoc _ _ _).symm, fun same => ?_⟩
    rw [same, encode, List.append_assoc] at differs
    exact absurd (List.take_left' five) differs
  next same =>
    have file : rips.file = IPS32 ++ rips.file.drop 5 := by
      have front := not_not.mp same
      rw [← front, List.take_append_drop]
    obtain ⟨final, kept⟩ := loop file
    refine ⟨final.trans (List.append_assoc _ _ _).symm, fun already => kept ?_⟩
    rw [already, encode, List.append_assoc]
    exact List.drop_left' five

/-- Both results of preparing the `.rips` file of a well-formed `.ips` file. -/
theorem prepareRevertPatchImpl_encode (mem : CodeMem) (fill : Nat → UInt8) {records : List Record}
    (some_ : records ≠ []) (old : Option File) :
    (prepareRevertPatchImpl fill (some (encode records)) old mem).1 =
        some (encode (records.map (Record.prepared mem))) ∧
      (old = some (encode (records.map (Record.prepared mem))) →
        (prepareRevertPatchImpl fill (some (encode records)) old mem).2 = []) := by
  obtain ⟨size, magic⟩ := accepted_encode some_
  have inside : 0 + 8 ≤ (encode records).length := by omega
  have same : ¬(slice (encode records) 0 8).take 5 ≠ IPS32 := by
    rw [take_slice _ 0 8 5 (by omega)]
    exact not_not.mpr magic
  obtain ⟨final, kept⟩ := prepareRips_encode mem some_
    (length_openRips fill old (encode records).length)
  simp only [prepareRevertPatchImpl, readFile_eq_some.mpr ⟨inside, rfl⟩]
  rw [if_neg (by omega), if_neg same]
  refine ⟨congrArg some final, fun already => ?_⟩
  have opened : openRips fill old (encode records).length =
      ⟨encode (records.map (Record.prepared mem)), []⟩ := by
    rw [already]
    exact if_neg (not_not.mpr (length_encode_prepared records))
  rw [kept (by rw [opened]), opened]

section Correct

/-- The `.rips` file reverts the records on their whole ranges, and doing it all again
writes nothing. -/
structure PreparedWell (fill : Nat → UInt8) (records : List Record) (old : Option File)
    (mem : CodeMem) : Prop where
  rips : (prepareRevertPatchImpl fill (some (encode records)) old mem).1 =
    some (encode (records.map (Record.reverting mem)))
  again : ∀ fill', (prepareRevertPatchImpl fill' (some (encode records))
    (prepareRevertPatchImpl fill (some (encode records)) old mem).1 mem).2 = []

/-- The code in the range of a record is one instruction over and over. -/
def Record.Repeats (mem : CodeMem) (r : Record) : Prop :=
  ∀ j < r.payload.length, mem (r.addr + j) = mem (r.addr + (j % 4 : Nat))

theorem prepared_eq_reverting_iff {r : Record} :
    (r.prepared mem).bytes = (r.reverting mem).bytes ↔ r.Repeats mem := by
  have whole := r.length_payload
  have length : (repeated mem r.addr r.insts).length = r.payload.length :=
    (length_repeated _ _ _).trans whole.symm
  have length' := length_codeAt mem r.addr r.payload.length
  have payloads : (r.prepared mem).bytes = (r.reverting mem).bytes ↔
      repeated mem r.addr r.insts = codeAt mem r.addr r.payload.length := by
    simp only [Record.bytes, Record.prepared, Record.reverting, Record.withPayload, length, length',
      List.append_cancel_left_eq]
  rw [payloads, List.ext_getElem?_iff]
  refine forall_congr' fun j => ?_
  by_cases inside : j < r.payload.length
  · rw [getElem?_repeated mem r.addr (by omega), getElem?_codeAt mem r.addr inside]
    simp only [inside, true_imp_iff, Option.some.injEq]
    exact eq_comm
  · rw [List.getElem?_eq_none (by omega), List.getElem?_eq_none (by omega)]
    simp only [inside, false_imp_iff]

theorem encode_prepared_eq_iff {records : List Record} :
    encode (records.map (Record.prepared mem)) = encode (records.map (Record.reverting mem)) ↔
      ∀ r ∈ records, r.Repeats mem := by
  rw [encode, encode, List.append_cancel_right_eq, List.append_cancel_left_eq]
  induction records with
  | nil => exact iff_of_true rfl fun r none_ => absurd none_ List.not_mem_nil
  | cons r rest ih =>
    have lengths : (r.prepared mem).bytes.length = (r.reverting mem).bytes.length := by
      rw [r.length_bytes_prepared, Record.length_bytes, Record.length_bytes]
      exact congrArg (6 + ·) (length_codeAt _ _ _).symm
    simp only [List.map_cons, encodeRecords, List.flatMap_cons, List.forall_mem_cons]
    rw [← prepared_eq_reverting_iff, ← ih]
    constructor
    · intro same
      exact List.append_inj same lengths
    · rintro ⟨first, others⟩
      exact congrArg₂ (· ++ ·) first others

/-- The prepared file is right exactly when the code repeats in the range of each record;
without a record, when the file was right all along. -/
theorem preparedWell_iff (fill : Nat → UInt8) (records : List Record) (old : Option File)
    (mem : CodeMem) :
    PreparedWell fill records old mem ↔
      (records ≠ [] ∧ ∀ r ∈ records, r.Repeats mem) ∨ (records = [] ∧ old = some (encode [])) := by
  by_cases some_ : records = []
  · subst some_
    -- a file of nine bytes counts as too short
    constructor
    · intro well
      exact .inr ⟨rfl, well.rips⟩
    · rintro (⟨none_, -⟩ | ⟨-, already⟩)
      · exact absurd rfl none_
      · exact ⟨already, fun _ => rfl⟩
  · obtain ⟨final, -⟩ := prepareRevertPatchImpl_encode mem fill some_ old
    have again (fill' : Nat → UInt8) := (prepareRevertPatchImpl_encode mem fill' some_
      (some (encode (records.map (Record.prepared mem))))).2 rfl
    constructor
    · intro well
      have same := Option.some.inj (final.symm.trans well.rips)
      exact .inl ⟨some_, encode_prepared_eq_iff.mp same⟩
    · rintro (⟨-, repeats⟩ | ⟨none_, -⟩)
      · refine ⟨final.trans (congrArg some (encode_prepared_eq_iff.mpr repeats)), fun fill' => ?_⟩
        rw [final]
        exact again fill'
      · exact absurd none_ some_

/-- Code with two different instructions where the record of two goes. -/
def twoInsts : CodeMem := fun x => if x < 0x1155ec8 then 1 else 2

theorem movRet_not_preparedWell : ¬PreparedWell (fun _ => 0) [movRet] none twoInsts := by
  intro well
  have final := (prepareRevertPatchImpl_encode twoInsts (fun _ => 0)
    (List.cons_ne_nil movRet []) none).1
  exact absurd (Option.some.inj (final.symm.trans well.rips)) (by decide +kernel)

end Correct

end LotusKit.Patch
