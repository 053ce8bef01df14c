import LotusKit.Lib.Repeat
import LotusKit.Server.JsonDispatch
import Mathlib.Data.List.TakeDrop

/-! Uploading a file in chunks, from the loop in the browser to the file on the card. -/

namespace LotusKit.Server
open LotusKit.Lib.Bytes LotusKit.Lib.Repeat

def remote_filename : Path := "sdcard:/atmosphere/contents/0100f2c0115b6000/exefs/subsdk9".toList

def chunkSize : Nat := 0x1000

/-- `NSO0`. -/
def NSO0 : List UInt8 := [0x4E, 0x53, 0x4F, 0x30]

/-- The message for one chunk. -/
def chunkPayload (b64Chunk : List Char) (op i : Nat) : JsonPayload :=
  [("persistFileBinaryChunk", .string b64Chunk), ("persistFileName", .string remote_filename),
    ("persistChunkOp", .number op), ("persistChunkOffset", .number i)]

theorem slice_pos {rawPayload : List UInt8} {i : Nat} (inside : (i : Int) < rawPayload.length - 1) :
    0 < (slice rawPayload i chunkSize).length := by
  rw [slice, List.length_take, List.length_drop, chunkSize]
  omega

/-- `for (let i = 0; i < rawPayload.length-1;)`, with what has been sent so far. -/
def chunkLoop (rawPayload : List UInt8) : Loop (Nat × List JsonPayload) (List JsonPayload) where
  body s :=
    let (i, sent) := s
    if (i : Int) < rawPayload.length - 1 then
      let rawChunk := slice rawPayload i chunkSize
      let op := if i = 0 then 1 else 2
      .inl (i + rawChunk.length, sent ++ [chunkPayload (btoa rawChunk) op i])
    else .inr sent
  size s := rawPayload.length - s.1
  shrinks s t goesOn := by
    obtain ⟨i, sent⟩ := s
    simp only at goesOn
    split at goesOn
    next inside =>
      have some_ := slice_pos inside
      cases goesOn
      simp only
      omega
    next => cases goesOn

/-- `on_drop_terrifying_subsdk9_upload`: the messages that are sent. -/
def on_drop_terrifying_subsdk9_upload (name : String) (file : List UInt8) : List JsonPayload :=
  if name ≠ "subsdk9" then []
  else if file.length < 64 * 1024 then []
  else if file.take 4 ≠ NSO0 then []
  else (chunkLoop file).run (0, []) ++ [chunkPayload [] 3 0]

section Dispatch
variable {fill : Nat → UInt8} {d : Device}

theorem getU32_number {jsonPayload : JsonPayload} {key : String} {n : Nat}
    (held : jsonPayload.lookup key = some (.number n)) (small : n < 2 ^ 32) :
    jsonPayload.getU32 key = some n := by
  rw [JsonPayload.getU32, held]
  simp only [Option.some.injEq]
  omega

/-- A chunk message takes the route of chunks. -/
theorem dispatchText_chunk (b64Chunk : List Char) {op i : Nat} (small : op < 2 ^ 32)
    (small' : i < 2 ^ 32) :
    dispatchText fill (chunkPayload b64Chunk op i) d =
      some (writeFileChunked fill (base64_decode b64Chunk) remote_filename op i d) := by
  have op_ : (chunkPayload b64Chunk op i).getU32 "persistChunkOp" = some op :=
    getU32_number rfl small
  have offset : (chunkPayload b64Chunk op i).getU32 "persistChunkOffset" = some i :=
    getU32_number rfl small'
  have src : (chunkPayload b64Chunk op i).getString "persistFileBinaryChunk" = some b64Chunk := rfl
  have path : (chunkPayload b64Chunk op i).getString "persistFileName" = some remote_filename := rfl
  have keys : (chunkPayload b64Chunk op i).contains "execScriptString" = false ∧
      (chunkPayload b64Chunk op i).contains "persistFileString" = false ∧
      (chunkPayload b64Chunk op i).contains "persistFileBinary" = false ∧
      (chunkPayload b64Chunk op i).contains "persistFileBinaryChunk" = true ∧
      (chunkPayload b64Chunk op i).contains "persistFileName" = true ∧
      (chunkPayload b64Chunk op i).contains "persistChunkOp" = true ∧
      (chunkPayload b64Chunk op i).contains "persistChunkOffset" = true :=
    ⟨rfl, rfl, rfl, rfl, rfl, rfl, rfl⟩
  obtain ⟨exec, text, binary, chunk, name, hasOp, hasOffset⟩ := keys
  simp only [dispatchText, exec, text, binary, chunk, name, hasOp, hasOffset, Bool.false_eq_true,
    if_false, Bool.false_and, Bool.and_self, if_true, src, path, op_, offset, Option.bind_eq_bind,
    Option.bind_some]
  rfl

/-- How much of the file is on the card, and the handle is open on it. -/
structure Uploaded (file : List UInt8) (i : Nat) (d : Device) : Prop where
  content : d.files remote_filename = some (file.take i)
  open_ : d.chunkedUploadFd = some remote_filename

theorem canonicalize_remote : canonicalize remote_filename = remote_filename := if_pos (by decide)

/-- Writing at the end of what is there. -/
theorem uploaded_write (fill : Nat → UInt8) {file chunk : List UInt8} {i : Nat} (before : Uploaded file i d)
    (some_ : 0 < chunk.length) (inside : i ≤ file.length) {op : Nat} (notFirst : op ≠ 1)
    (notLast : op ≠ 3) (next : file.take i ++ chunk = file.take (i + chunk.length)) :
    Uploaded file (i + chunk.length) (writeFileChunked fill chunk remote_filename op i d) := by
  obtain ⟨content, open_⟩ := before
  have length : (file.take i).length = i := by
    rw [List.length_take]
    omega
  have extends_ : d.fileSize remote_filename < i + chunk.length := by
    rw [Device.fileSize, content, Option.getD_some, length]
    omega
  simp only [writeFileChunked, if_neg notFirst, if_neg notLast, open_, if_pos some_, if_pos extends_]
  refine ⟨?_, open_⟩
  have grown : (file.take i).take (i + chunk.length) = file.take i :=
    List.take_of_length_le (by omega)
  have filled : ((List.range (i + chunk.length - i)).map fill).length = chunk.length := by
    rw [List.length_map, List.length_range]
    omega
  have written : overwrite (file.take i ++ (List.range (i + chunk.length - i)).map fill ++ []) i chunk =
      file.take i ++ chunk ++ [] := by
    have middle := @overwrite_middle _ (file.take i) _ [] _ filled.symm
    rwa [length] at middle
  rw [List.append_nil, List.append_nil] at written
  simp only [Device.writeAt, Device.setFileSize, Device.setFile, if_true, content, Option.getD_some,
    length, grown, written, next]

/-- The first chunk, whatever was on the card. -/
theorem uploaded_first {file chunk : List UInt8} (some_ : 0 < chunk.length)
    (next : chunk = file.take chunk.length) :
    Uploaded file chunk.length (writeFileChunked fill chunk remote_filename 1 0 d) := by
  have opened : Uploaded file 0
      { (d.createFile remote_filename).setFileSize fill remote_filename 0 with
        chunkedUploadFd := some remote_filename } := by
    refine ⟨?_, rfl⟩
    simp only [Device.setFileSize, Device.setFile, if_true, List.take_zero, Nat.zero_sub,
      List.range_zero, List.map_nil, List.append_nil]
  have written := uploaded_write fill opened some_ (Nat.zero_le _) (by decide : 2 ≠ 1) (by decide)
    (by rw [List.take_zero, List.nil_append, Nat.zero_add]; exact next)
  rw [Nat.zero_add] at written
  have same : writeFileChunked fill chunk remote_filename 1 0 d =
      writeFileChunked fill chunk remote_filename 2 0
        { (d.createFile remote_filename).setFileSize fill remote_filename 0 with
          chunkedUploadFd := some remote_filename } := by
    simp only [writeFileChunked, canonicalize_remote, if_true]
    rfl
  rw [same]
  exact written

end Dispatch

section Run
variable {fill : Nat → UInt8} {file : List UInt8} {d : Device}

theorem dispatchAll_append {sent : List JsonPayload} {after : Device} (more : List JsonPayload)
    (received : dispatchAll fill sent d = some after) :
    dispatchAll fill (sent ++ more) d = dispatchAll fill more after := by
  rw [dispatchAll, List.foldlM_append, ← dispatchAll, received]
  rfl

theorem dispatchAll_singleton (jsonPayload : JsonPayload) :
    dispatchAll fill [jsonPayload] d = dispatchText fill jsonPayload d := by
  rw [dispatchAll, List.foldlM_cons]
  exact Option.bind_fun_some _

/-- Before an iteration: whole chunks, with something left, or all of the file. -/
structure Progress (file : List UInt8) (i : Nat) (d : Device) : Prop where
  place : (i % 0x1000 = 0 ∧ i < file.length) ∨ (i = file.length ∧ file.length % 0x1000 ≠ 1)
  uploaded : i ≠ 0 → Uploaded file i d

/-- How much of the file the loop gets to. -/
def reached (length : Nat) : Nat := if length % 0x1000 = 1 then length - 1 else length

theorem slice_eq_take (file : List UInt8) (i n : Nat) :
    file.take i ++ slice file i n = file.take (i + (slice file i n).length) := by
  have whole : file.take (i + n) = file.take i ++ slice file i n := List.take_add
  rw [← whole, slice, List.length_take, List.length_drop]
  rcases Nat.le_total (i + n) file.length with fits | exceeds
  · rw [Nat.min_eq_left (by omega)]
  · rw [List.take_of_length_le exceeds, List.take_of_length_le (by omega)]

/-- One chunk further. -/
theorem progress_chunk (fill : Nat → UInt8) (small : file.length < 2 ^ 32) {i : Nat} (before : Progress file i d)
    (inside : (i : Int) < file.length - 1) :
    ∃ after, dispatchText fill (chunkPayload (btoa (slice file i chunkSize)) (if i = 0 then 1 else 2) i) d =
        some after ∧ Progress file (i + (slice file i chunkSize).length) after := by
  have some_ := slice_pos inside
  have next := slice_eq_take file i chunkSize
  have length : (slice file i chunkSize).length = min 0x1000 (file.length - i) := by
    rw [slice, List.length_take, List.length_drop, chunkSize]
  have aligned : i % 0x1000 = 0 := by
    rcases before.place with ⟨aligned, -⟩ | ⟨ends, -⟩
    · exact aligned
    · omega
  have place : (i + (slice file i chunkSize).length) % 0x1000 = 0 ∧
        i + (slice file i chunkSize).length < file.length ∨
      i + (slice file i chunkSize).length = file.length ∧ file.length % 0x1000 ≠ 1 := by
    rw [length]
    omega
  have op : (if i = 0 then 1 else 2) < 2 ^ 32 := by
    split <;> decide
  refine ⟨_, dispatchText_chunk _ op (by omega), place, fun _ => ?_⟩
  rw [base64_decode_btoa]
  by_cases first : i = 0
  · subst first
    rw [List.take_zero, List.nil_append, Nat.zero_add] at next
    rw [Nat.zero_add, if_pos rfl]
    exact uploaded_first some_ next
  · rw [if_neg first]
    exact uploaded_write fill (before.uploaded first) some_ (by omega) (by decide) (by decide) next

/-- The chunks that the loop sends put as much on the card as the loop gets to. -/
theorem chunkLoop_uploads (fill : Nat → UInt8) (d : Device) (small : file.length < 2 ^ 32)
    (large : 2 ≤ file.length) (sent : List JsonPayload) {i : Nat} {now : Device} (received : dispatchAll fill sent d = some now)
    (progress : Progress file i now) :
    ∃ after, dispatchAll fill ((chunkLoop file).run (i, sent)) d = some after ∧
      Uploaded file (reached file.length) after := by
  refine Loop.induct (P := fun s r => ∀ now, dispatchAll fill s.2 d = some now →
      Progress file s.1 now → ∃ after, dispatchAll fill r d = some after ∧
        Uploaded file (reached file.length) after) ?_ ?_ (i, sent) now received progress
  · rintro ⟨i, sent⟩ r leaves now received progress
    simp only [chunkLoop] at leaves
    split at leaves
    · cases leaves
    next past =>
      cases leaves
      have ends : reached file.length = i := by
        unfold reached
        rcases progress.place with ⟨aligned, more⟩ | ⟨all, odd⟩
        · rw [if_pos (by omega)]
          omega
        · exact (if_neg odd).trans all.symm
      rw [ends]
      exact ⟨now, received, progress.uploaded (by omega)⟩
  · rintro ⟨i, sent⟩ t goesOn ih now received progress
    simp only [chunkLoop] at goesOn
    split at goesOn
    next inside =>
      cases goesOn
      obtain ⟨after, dispatched, further⟩ := progress_chunk fill small progress inside
      apply ih after _ further
      rw [dispatchAll_append _ received, dispatchAll_singleton]
      exact dispatched
    next => cases goesOn

/-- The file arrives, whatever was on the card. -/
def Reconstructs (fill : Nat → UInt8) (file : List UInt8) (d : Device) : Prop :=
  ∃ after, dispatchAll fill (on_drop_terrifying_subsdk9_upload "subsdk9" file) d = some after ∧
    after.files remote_filename = some file

/-- The file arrives when the loop gets to its end. -/
theorem reconstructs_iff_reached (fill : Nat → UInt8) (d : Device) {file : List UInt8}
    (large : 64 * 1024 ≤ file.length) (nso : file.take 4 = NSO0) (small : file.length < 2 ^ 32) :
    Reconstructs fill file d ↔ file.take (reached file.length) = file := by
  have messages : on_drop_terrifying_subsdk9_upload "subsdk9" file =
      (chunkLoop file).run (0, []) ++ [chunkPayload [] 3 0] := by
    rw [on_drop_terrifying_subsdk9_upload, if_neg (by decide), if_neg (by omega),
      if_neg (not_not.mpr nso)]
  obtain ⟨sent, received, uploaded⟩ := chunkLoop_uploads fill d small (by omega) [] rfl
    ⟨.inl ⟨rfl, by omega⟩, fun some_ => absurd rfl some_⟩
  have closed : dispatchAll fill (on_drop_terrifying_subsdk9_upload "subsdk9" file) d =
      some { sent with chunkedUploadFd := none } := by
    rw [messages, dispatchAll_append _ received, dispatchAll_singleton,
      dispatchText_chunk [] (by decide) (by decide)]
    have nothing : base64_decode [] = [] := rfl
    simp only [writeFileChunked, nothing, uploaded.open_, List.length_nil, Nat.lt_irrefl, if_false,
      if_true, Nat.reduceEqDiff]
  constructor
  · rintro ⟨after, is, arrives⟩
    cases closed.symm.trans is
    exact Option.some.inj (uploaded.content.symm.trans arrives)
  · intro all
    exact ⟨_, closed, uploaded.content.trans (congrArg some all)⟩

theorem take_reached_iff {file : List UInt8} (some_ : 0 < file.length) :
    file.take (reached file.length) = file ↔ file.length % 0x1000 ≠ 1 := by
  rw [List.take_eq_self_iff, reached]
  split
  next odd => exact iff_of_false (by omega) (not_not.mpr odd)
  next even => exact iff_of_true (Nat.le_refl _) even

/-- An upload arrives exactly when its last chunk is not a single byte. -/
theorem reconstructs_iff (fill : Nat → UInt8) (d : Device) {file : List UInt8}
    (large : 64 * 1024 ≤ file.length) (nso : file.take 4 = NSO0) (small : file.length < 2 ^ 32) :
    Reconstructs fill file d ↔ file.length % 0x1000 ≠ 1 := by
  rw [reconstructs_iff_reached fill d large nso small]
  exact take_reached_iff (by omega)

/-- A card without files. -/
def blank : Device := ⟨fun _ => none, none, []⟩

/-- A file of sixteen whole chunks. -/
def wholeChunks : List UInt8 := NSO0 ++ List.replicate 0xFFFC 7

theorem length_wholeChunks : wholeChunks.length = 0x10000 := by
  rw [wholeChunks, List.length_append, List.length_replicate]
  rfl

theorem wholeChunks_reconstructs : Reconstructs (fun _ => 0) wholeChunks blank :=
  (reconstructs_iff (fun _ => 0) blank (Nat.le_of_eq length_wholeChunks.symm) rfl
    (by rw [length_wholeChunks]; decide)).mpr
    (ne_of_eq_of_ne (congrArg (· % 0x1000) length_wholeChunks) (by decide))

/-- A file with one byte more. -/
def oneMore : List UInt8 := wholeChunks ++ [7]

theorem length_oneMore : oneMore.length = 0x10001 := by
  rw [oneMore, List.length_append, length_wholeChunks]
  rfl

theorem oneMore_not_reconstructs : ¬Reconstructs (fun _ => 0) oneMore blank := by
  rw [reconstructs_iff_reached _ _ (by rw [length_oneMore]; decide) rfl
    (by rw [length_oneMore]; decide), take_reached_iff (by rw [length_oneMore]; decide),
    length_oneMore]
  decide

end Run

end LotusKit.Server
