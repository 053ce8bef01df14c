import LotusKit.Patch.Revert

/-! What `write_ips` writes and `ApplyPatchImpl` makes of it. The reader does not move the
address on inside a record. -/

namespace LotusKit.Patch
open LotusKit.Lib.Bytes LotusKit.Lib.Repeat

section Format

/-- A record of a well-formed file: its offset field and its payload. -/
structure Record where
  ipsOffset : List UInt8
  payload : List UInt8
  four : ipsOffset.length = 4
  isRecord : ipsOffset ≠ EEOF
  whole : payload.length % 4 = 0
  small : payload.length < 0x10000

namespace Record

def bytes (r : Record) : List UInt8 := r.ipsOffset ++ toBigEndian 2 r.payload.length ++ r.payload

def addr (r : Record) : Int := instAddr r.ipsOffset

def insts (r : Record) : Nat := r.payload.length / 4

theorem length_payload (r : Record) : r.payload.length = 4 * r.insts := by
  have whole := r.whole
  unfold insts
  omega

end Record

def encodeRecords (records : List Record) : List UInt8 := records.flatMap Record.bytes

/-- A well-formed file. -/
def encode (records : List Record) : File := IPS32 ++ encodeRecords records ++ EEOF

theorem readFile_middle (before bytes behind : List UInt8) :
    readFile (before ++ bytes ++ behind) before.length bytes.length = some bytes := by
  rw [readFile, if_pos (by rw [List.length_append, List.length_append]; omega), slice_middle]

/-- The fields of a record that stands somewhere in a file. -/
theorem readFile_ipsOffset (before : List UInt8) (r : Record) (behind : List UInt8) :
    readFile (before ++ r.bytes ++ behind) before.length 4 = some r.ipsOffset := by
  have parts : before ++ r.bytes ++ behind = before ++ r.ipsOffset ++
      (toBigEndian 2 r.payload.length ++ r.payload ++ behind) := by
    simp only [Record.bytes, List.append_assoc]
  rw [parts, ← r.four]
  exact readFile_middle _ _ _

theorem readFile_ipsPatchSize (before : List UInt8) (r : Record) (behind : List UInt8) :
    readFile (before ++ r.bytes ++ behind) (before.length + 4) 2 =
      some (toBigEndian 2 r.payload.length) := by
  have parts : before ++ r.bytes ++ behind = (before ++ r.ipsOffset) ++
      toBigEndian 2 r.payload.length ++ (r.payload ++ behind) := by
    simp only [Record.bytes, List.append_assoc]
  have place : before.length + 4 = (before ++ r.ipsOffset).length := by
    rw [List.length_append, r.four]
  rw [parts, place, ← length_toBigEndian 2 r.payload.length]
  exact readFile_middle _ _ _

theorem Record.bigEndian_size (r : Record) :
    bigEndian (toBigEndian 2 r.payload.length) = r.payload.length :=
  bigEndian_toBigEndian r.small

theorem header_middle (before : List UInt8) (r : Record) (behind : List UInt8) :
    header (before ++ r.bytes ++ behind) before.length = some (r.ipsOffset, r.insts) := by
  simp only [header, readFile_ipsOffset, r.isRecord, if_false, readFile_ipsPatchSize,
    r.bigEndian_size, r.whole, ne_eq, not_true_eq_false, Record.insts]

theorem header_end (before : List UInt8) : header (before ++ EEOF) before.length = none := by
  have ends : readFile (before ++ EEOF) before.length 4 = some EEOF := by
    have middle := readFile_middle before EEOF []
    rwa [List.append_nil] at middle
  simp only [header, ends, if_true]

end Format

section Apply

/-- What the instructions of one payload leave behind at their common address. -/
def Record.install (r : Record) (mem : CodeMem) : CodeMem :=
  if r.payload = [] then mem else writeInst mem r.addr (r.payload.drop (r.payload.length - 4))

theorem writeInst_writeInst (mem : CodeMem) (addr : Int) (first second : List UInt8) :
    writeInst (writeInst mem addr first) addr second = writeInst mem addr second := by
  funext x
  unfold writeInst
  split <;> rfl

theorem applyPayload_middle (before payload behind : List UInt8) (ipsOffset : List UInt8)
    (insts : Nat) (length : payload.length = 4 * insts) (mem : CodeMem) :
    applyPayload (before ++ payload ++ behind) ipsOffset insts before.length mem =
      .inl (before.length + payload.length, if payload = [] then mem else
        writeInst mem (instAddr ipsOffset) (payload.drop (payload.length - 4))) := by
  induction insts generalizing before payload mem with
  | zero =>
    obtain rfl : payload = [] := List.eq_nil_of_length_eq_zero (by omega)
    rfl
  | succ insts ih =>
    have first : (payload.take 4).length = 4 := by
      rw [List.length_take]
      omega
    have parts : before ++ payload ++ behind =
        before ++ payload.take 4 ++ (payload.drop 4 ++ behind) := by
      rw [List.append_assoc before (payload.take 4), ← List.append_assoc (payload.take 4),
        List.take_append_drop, List.append_assoc]
    have read : readFile (before ++ payload ++ behind) before.length 4 = some (payload.take 4) := by
      have middle := readFile_middle before (payload.take 4) (payload.drop 4 ++ behind)
      rwa [first, ← parts] at middle
    have next := ih (before ++ payload.take 4) (payload.drop 4) (by rw [List.length_drop]; omega)
      (writeInst mem (instAddr ipsOffset) (payload.take 4))
    have place : (before ++ payload.take 4).length = before.length + 4 := by
      rw [List.length_append, first]
    rw [List.append_assoc (before ++ payload.take 4), ← parts, place] at next
    simp only [applyPayload, read]
    have some_ : payload ≠ [] := by
      rintro rfl
      cases length
    rw [next, if_neg some_, List.length_drop]
    congr 1
    refine Prod.ext (by simp only; omega) ?_
    by_cases last : payload.drop 4 = []
    · have four : payload.length = 4 := by
        have none_ := List.drop_eq_nil_iff.mp last
        omega
      simp only [if_pos last, four, Nat.sub_self, List.drop_zero]
      rw [← four, List.take_length]
    · have more : 4 < payload.length := by
        by_contra few
        exact last (List.drop_eq_nil_iff.mpr (by omega))
      simp only [if_neg last, writeInst_writeInst, List.drop_drop]
      congr 2
      omega

/-- The loop over the records of a well-formed file. -/
theorem applyRecords_encoded (before : List UInt8) (records : List Record) (mem : CodeMem) :
    (applyRecords (before ++ encodeRecords records ++ EEOF)).run (before.length, mem) =
      records.foldl (fun mem r => r.install mem) mem := by
  induction records generalizing before mem with
  | nil =>
    have whole : before ++ encodeRecords [] ++ EEOF = before ++ EEOF := by
      rw [encodeRecords, List.flatMap_nil, List.append_nil]
    rw [whole]
    exact Loop.run_leaves (applyRecord_of_none (header_end before))
  | cons r rest ih =>
    have parts : before ++ encodeRecords (r :: rest) ++ EEOF =
        before ++ r.bytes ++ (encodeRecords rest ++ EEOF) := by
      simp only [encodeRecords, List.flatMap_cons, List.append_assoc]
    have parts' : before ++ r.bytes ++ (encodeRecords rest ++ EEOF) =
        (before ++ (r.ipsOffset ++ toBigEndian 2 r.payload.length)) ++ r.payload ++
          (encodeRecords rest ++ EEOF) := by
      simp only [Record.bytes, List.append_assoc]
    have fields : (before ++ (r.ipsOffset ++ toBigEndian 2 r.payload.length)).length =
        before.length + 6 := by
      rw [List.length_append, List.length_append, r.four, length_toBigEndian]
    have size : (before ++ r.bytes).length = before.length + 6 + r.payload.length := by
      rw [Record.bytes, ← List.append_assoc, List.length_append, fields]
    have payload := applyPayload_middle (before ++ (r.ipsOffset ++ toBigEndian 2 r.payload.length))
      r.payload (encodeRecords rest ++ EEOF) r.ipsOffset r.insts r.length_payload mem
    rw [← parts', fields, ← size] at payload
    have body : (applyRecords (before ++ r.bytes ++ (encodeRecords rest ++ EEOF))).body
        (before.length, mem) = .inl ((before ++ r.bytes).length, r.install mem) :=
      (applyRecord_of_some (header_middle before r (encodeRecords rest ++ EEOF))).trans payload
    rw [parts, Loop.run_goesOn body, ← List.append_assoc]
    exact ih (before ++ r.bytes) (r.install mem)

theorem length_encodeRecords_pos {records : List Record} (some_ : records ≠ []) :
    6 ≤ (encodeRecords records).length := by
  cases records with
  | nil => exact absurd rfl some_
  | cons r rest =>
    rw [encodeRecords, List.flatMap_cons, List.length_append, Record.bytes, List.length_append,
      List.length_append, r.four, length_toBigEndian]
    omega

theorem accepted_encode {records : List Record} (some_ : records ≠ []) : Accepted (encode records) := by
  have size := length_encodeRecords_pos some_
  constructor
  · have five : IPS32.length = 5 := rfl
    rw [encode, List.length_append, List.length_append]
    omega
  · rw [encode, List.append_assoc]
    exact (slice_append_left (by decide)).trans (slice_all IPS32)

/-- Applying a well-formed file installs its records one after the other. -/
theorem applyPatchImpl_encode (records : List Record) (mem : CodeMem) :
    applyPatchImpl (some (encode records)) mem = records.foldl (fun mem r => r.install mem) mem := by
  by_cases some_ : records = []
  · rw [some_]
    rfl
  · rw [applyPatchImpl_of_accepted (accepted_encode some_), ← applyRecords_run]
    exact applyRecords_encoded IPS32 records mem

end Apply

section Write

theorem structPack_eq_some {width : Nat} {n : Int} {bytes : List UInt8} :
    structPack width n = some bytes ↔
      (0 ≤ n ∧ n < 0x100 ^ width) ∧ toBigEndian width n.toNat = bytes := by
  rw [structPack]
  split
  next fits => simp [fits]
  next not_ => simp [not_]

/-- The reader takes off what the writer adds to an offset. -/
theorem instAddr_structPack {offset : Int} (low : 0 ≤ offset + 0x100) (high : offset + 0x100 < 2 ^ 31) :
    instAddr (toBigEndian 4 (offset + 0x100).toNat) = offset := by
  have field : bigEndian (toBigEndian 4 (offset + 0x100).toNat) = (offset + 0x100).toNat :=
    bigEndian_toBigEndian (by omega)
  have signed : (BitVec.ofNat 32 (offset + 0x100).toNat).toInt = offset + 0x100 := by
    rw [BitVec.toInt_eq_toNat_of_lt (by rw [BitVec.toNat_ofNat]; omega), BitVec.toNat_ofNat]
    omega
  rw [instAddr, field, signed, NSO_OFFSET]
  omega

/-- A patch that can be written and read: what the dictionary is promised to hold. -/
structure Writable (patch : Int × List UInt8) : Prop where
  inModule : patch.1 + 0x100 < 2 ^ 31
  notEnd : structPack 4 (patch.1 + 0x100) ≠ some EEOF
  whole : patch.2.length % 4 = 0

theorem writeRecord_eq {offset : Int} {value bytes : List UInt8} (fine : Writable (offset, value))
    (written : writeRecord offset value = some bytes) :
    ∃ r : Record, r.bytes = bytes ∧ (r.addr, r.payload) = (offset, value) := by
  obtain ⟨inModule, notEnd, whole⟩ := fine
  simp only [writeRecord, Option.bind_eq_bind, Option.bind_eq_some_iff] at written
  obtain ⟨field, packed, written⟩ := written
  split at written
  next small =>
    obtain ⟨size, packed', is⟩ := Option.bind_eq_some_iff.mp written
    obtain ⟨⟨low, -⟩, rfl⟩ := structPack_eq_some.mp packed
    obtain ⟨-, rfl⟩ := structPack_eq_some.mp packed'
    have isRecord : toBigEndian 4 (offset + 0x100).toNat ≠ EEOF := by
      rintro same
      exact notEnd (same ▸ packed)
    refine ⟨⟨_, value, length_toBigEndian 4 _, isRecord, whole, by omega⟩, ?_, ?_⟩
    · exact Option.some.inj is
    · rw [Record.addr, instAddr_structPack low inModule]
  next => cases written

theorem writeRecords_eq {patches : PatchRecords} {bytes : List UInt8}
    (fine : ∀ patch ∈ patches, Writable patch) (written : writeRecords patches = some bytes) :
    ∃ records : List Record, encodeRecords records = bytes ∧
      records.map (fun r => (r.addr, r.payload)) = patches := by
  induction patches generalizing bytes with
  | nil =>
    obtain rfl := Option.some.inj written
    exact ⟨[], rfl, rfl⟩
  | cons patch rest ih =>
    obtain ⟨offset, value⟩ := patch
    simp only [writeRecords, Option.bind_eq_bind, Option.bind_eq_some_iff] at written
    obtain ⟨first, one, others, more, is⟩ := written
    obtain ⟨r, rfl, same⟩ := writeRecord_eq (fine _ List.mem_cons_self) one
    obtain ⟨records, rfl, sames⟩ := ih (fun p member => fine p (List.mem_cons_of_mem _ member)) more
    refine ⟨r :: records, ?_, ?_⟩
    · rw [encodeRecords, List.flatMap_cons]
      exact Option.some.inj is
    · rw [List.map_cons, same, sames]

/-- The build tool writes a well-formed file. -/
theorem write_ips_eq {patches : PatchRecords} {file : File}
    (fine : ∀ patch ∈ patches, Writable patch) (written : write_ips patches = some file) :
    ∃ records : List Record, file = encode records ∧
      records.map (fun r => (r.addr, r.payload)) = patches := by
  simp only [write_ips, Option.bind_eq_bind, Option.bind_eq_some_iff] at written
  obtain ⟨bytes, more, is⟩ := written
  obtain ⟨records, rfl, same⟩ := writeRecords_eq fine more
  exact ⟨records, (Option.some.inj is).symm, same⟩

end Write

section Installs

/-- Code memory holds every record, and is as before everywhere else. -/
structure Installed (patches : PatchRecords) (before after : CodeMem) : Prop where
  record : ∀ patch ∈ patches, codeAt after patch.1 patch.2.length = patch.2
  outside : ∀ x, (∀ patch ∈ patches, ¬(patch.1 ≤ x ∧ x < patch.1 + patch.2.length)) →
    after x = before x

/-- The last instruction of the record is its first, and the others are in place already. -/
structure OneInstruction (mem : CodeMem) (patch : Int × List UInt8) : Prop where
  last : patch.2.drop (patch.2.length - 4) = patch.2.take 4
  others : ∀ j, 4 ≤ j → j < patch.2.length → patch.2[j]? = some (mem (patch.1 + j))

theorem install_apply (r : Record) (mem : CodeMem) {j : Nat} (inside : j < r.payload.length) :
    some (r.install mem (r.addr + j)) =
      if j < 4 then (r.payload.drop (r.payload.length - 4))[j]? else some (mem (r.addr + j)) := by
  have whole := r.whole
  have some_ : r.payload ≠ [] := by
    intro none_
    rw [none_] at inside
    cases inside
  have size : (r.payload.drop (r.payload.length - 4)).length = 4 := by
    rw [List.length_drop]
    omega
  rw [Record.install, if_neg some_, writeInst]
  split
  next first =>
    have place : (r.addr + j - r.addr).toNat = j := by omega
    rw [place, if_pos (by omega), List.getD_eq_getElem?_getD,
      List.getElem?_eq_getElem (by omega), Option.getD_some]
  next later => rw [if_neg (by omega)]

theorem install_outside (r : Record) (mem : CodeMem) {x : Int}
    (outside : ¬(r.addr ≤ x ∧ x < r.addr + r.payload.length)) : r.install mem x = mem x := by
  rw [Record.install]
  split
  · rfl
  next some_ =>
    have whole := r.whole
    have length : r.payload.length ≠ 0 := fun none_ => some_ (List.eq_nil_of_length_eq_zero none_)
    exact writeInst_outside _ (by omega)

theorem installAll_outside {records : List Record} {mem : CodeMem} {x : Int}
    (outside : ∀ r ∈ records, ¬(r.addr ≤ x ∧ x < r.addr + r.payload.length)) :
    records.foldl (fun mem r => r.install mem) mem x = mem x := by
  induction records generalizing mem with
  | nil => rfl
  | cons r rest ih =>
    rw [List.foldl_cons, ih fun q member => outside q (List.mem_cons_of_mem r member)]
    exact install_outside r mem (outside r List.mem_cons_self)

/-- The two patches have no address in common. -/
def Apart (p q : Int × List UInt8) : Prop :=
  p.1 + p.2.length ≤ q.1 ∨ q.1 + q.2.length ≤ p.1

instance : DecidableRel Apart := fun _ _ => inferInstanceAs (Decidable (_ ∨ _))

def Record.patch (r : Record) : Int × List UInt8 := (r.addr, r.payload)

/-- Each record is left as if it had been installed alone. -/
theorem installAll_inside {records : List Record} {mem : CodeMem}
    (apart : records.Pairwise fun r q => Apart r.patch q.patch) {r : Record} (member : r ∈ records) {j : Nat}
    (inside : j < r.payload.length) :
    records.foldl (fun mem r => r.install mem) mem (r.addr + j) = r.install mem (r.addr + j) := by
  induction records generalizing mem with
  | nil => cases member
  | cons q rest ih =>
    obtain ⟨first, later⟩ := List.pairwise_cons.mp apart
    rw [List.foldl_cons]
    rcases List.mem_cons.mp member with rfl | behind
    · apply installAll_outside
      intro q among
      rcases first q among with before | after <;> simp only [Record.patch] at * <;> omega
    · rw [ih later behind]
      have same : q.install mem (r.addr + j) = mem (r.addr + j) := by
        apply install_outside
        rcases first r behind with before | after <;> simp only [Record.patch] at * <;> omega
      apply Option.some.inj
      rw [install_apply r _ inside, install_apply r _ inside, same]

/-- A patch file installs as written exactly when every record comes down to one
instruction. -/
theorem installed_iff {patches : PatchRecords} {file : File} {mem : CodeMem}
    (fine : ∀ patch ∈ patches, Writable patch)
    (apart : patches.Pairwise Apart) (written : write_ips patches = some file) :
    Installed patches mem (applyPatchImpl (some file) mem) ↔
      ∀ patch ∈ patches, OneInstruction mem patch := by
  obtain ⟨records, rfl, rfl⟩ := write_ips_eq fine written
  rw [applyPatchImpl_encode]
  have apart' : records.Pairwise fun r q => Apart r.patch q.patch := List.pairwise_map.mp apart
  have range (r : Record) (member : r ∈ records) :
      codeAt (records.foldl (fun mem r => r.install mem) mem) r.addr r.payload.length = r.payload ↔
        OneInstruction mem (r.addr, r.payload) := by
    have whole := r.whole
    have bytes : codeAt (records.foldl (fun mem r => r.install mem) mem) r.addr r.payload.length =
        r.payload ↔ ∀ j < r.payload.length, r.payload[j]? =
          if j < 4 then (r.payload.drop (r.payload.length - 4))[j]? else some (mem (r.addr + j)) := by
      rw [List.ext_getElem?_iff]
      refine forall_congr' fun j => ?_
      by_cases inside : j < r.payload.length
      · rw [getElem?_codeAt _ _ inside, installAll_inside apart' member inside,
          install_apply r mem inside, eq_comm]
        simp only [inside, true_imp_iff]
      · have none_ : (codeAt (records.foldl (fun mem r => r.install mem) mem) r.addr
            r.payload.length)[j]? = none :=
          List.getElem?_eq_none (by rw [length_codeAt]; omega)
        rw [none_, List.getElem?_eq_none (by omega)]
        simp only [inside, false_imp_iff]
    rw [bytes]
    constructor
    · intro same
      refine ⟨?_, fun j later inside => by rw [same j inside, if_neg (by omega)]⟩
      show r.payload.drop (r.payload.length - 4) = r.payload.take 4
      apply List.ext_getElem?
      intro j
      rw [List.getElem?_take]
      split
      next first =>
        by_cases inside : j < r.payload.length
        · rw [same j inside, if_pos first]
        · rw [List.getElem?_eq_none (by rw [List.length_drop]; omega),
            List.getElem?_eq_none (by omega)]
      next later => exact List.getElem?_eq_none (by rw [List.length_drop]; omega)
    · rintro ⟨last, others⟩ j inside
      split
      next first => rw [last, List.getElem?_take, if_pos first]
      next later => exact others j (by omega) inside
  constructor
  · intro installed patch member
    obtain ⟨r, among, rfl⟩ := List.mem_map.mp member
    exact (range r among).mp (installed.record _ member)
  · intro one
    refine ⟨fun patch member => ?_, fun x outside => ?_⟩
    · obtain ⟨r, among, rfl⟩ := List.mem_map.mp member
      exact (range r among).mpr (one _ member)
    · apply installAll_outside
      intro r among
      exact outside (r.addr, r.payload) (List.mem_map_of_mem among)

/-- Two patches of one instruction, and one of the same instruction twice, which stands already in its
second place. -/
def nopPatches : PatchRecords :=
  [(0x1155ec4, [0x1f, 0x20, 0x03, 0xd5]), (0x20, [0xc0, 0x03, 0x5f, 0xd6]),
    (0x100, [0x1f, 0x20, 0x03, 0xd5, 0x1f, 0x20, 0x03, 0xd5])]

def nopAt : CodeMem := fun x =>
  if x = 0x104 then 0x1f else if x = 0x105 then 0x20 else if x = 0x106 then 0x03 else 0xd5

theorem nopPatches_installed : ∃ file, write_ips nopPatches = some file ∧
    Installed nopPatches nopAt (applyPatchImpl (some file) nopAt) := by
  have fine : ∀ patch ∈ nopPatches, Writable patch := by
    simp only [nopPatches, List.forall_mem_cons]
    exact ⟨⟨by decide, by decide, by decide⟩, ⟨by decide, by decide, by decide⟩,
      ⟨by decide, by decide, by decide⟩, List.forall_mem_nil _⟩
  have apart : nopPatches.Pairwise Apart := by decide
  refine ⟨_, rfl, (installed_iff fine apart rfl).mpr ?_⟩
  simp only [nopPatches, List.forall_mem_cons]
  refine ⟨⟨by decide, ?_⟩, ⟨by decide, ?_⟩, ⟨by decide, ?_⟩, List.forall_mem_nil _⟩
  · exact fun j later inside => absurd inside (Nat.not_lt.mpr later)
  · exact fun j later inside => absurd inside (Nat.not_lt.mpr later)
  · intro j later inside
    have last : j = 4 ∨ j = 5 ∨ j = 6 ∨ j = 7 := by
      simp only [List.length_cons, List.length_nil] at inside
      omega
    rcases last with rfl | rfl | rfl | rfl
    all_goals rfl

/-- A patch of two instructions, which write over each other. -/
def movRetPatch : PatchRecords := [(0x1155ec4, [0x00, 0x00, 0x80, 0x52, 0xc0, 0x03, 0x5f, 0xd6])]

def movRet : Record where
  ipsOffset := [0x01, 0x15, 0x5f, 0xc4]
  payload := [0x00, 0x00, 0x80, 0x52, 0xc0, 0x03, 0x5f, 0xd6]
  four := rfl
  isRecord := by decide
  whole := rfl
  small := by decide

theorem movRetPatch_not_installed :
    (∀ patch ∈ movRetPatch, Writable patch) ∧ movRetPatch.Pairwise Apart ∧
      ∃ file, write_ips movRetPatch = some file ∧
        ¬Installed movRetPatch (fun _ => 0) (applyPatchImpl (some file) fun _ => 0) := by
  refine ⟨?_, List.pairwise_singleton _ _, encode [movRet], rfl, ?_⟩
  · intro patch member
    obtain rfl := List.mem_singleton.mp member
    exact ⟨by decide, by decide, by decide⟩
  · intro installed
    have first := installed.record _ List.mem_cons_self
    rw [applyPatchImpl_encode] at first
    exact absurd first (by decide +kernel)

end Installs

end LotusKit.Patch
