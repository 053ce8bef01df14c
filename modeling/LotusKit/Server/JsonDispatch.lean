import LotusKit.Lib.Bytes
import LotusKit.Server.Base64
import Mathlib.Algebra.Group.Int.Defs

/-! What the server does with the JSON texts of the frontend: scripts go to the scheduler,
files to the card. File-system calls succeed. -/

namespace LotusKit.Server
open LotusKit.Lib.Bytes

inductive JsonValue where
  | string (text : List Char)
  | number (n : Int)
  | boolean (b : Bool)
  /-- Whatever else a key may hold. -/
  | other
deriving DecidableEq

/-- A parsed object. -/
abbrev JsonPayload := List (String × JsonValue)

def JsonPayload.contains (jsonPayload : JsonPayload) (key : String) : Bool :=
  (jsonPayload.lookup key).isSome

/-- `get<std::string>`, which throws on anything else. -/
def JsonPayload.getString (jsonPayload : JsonPayload) (key : String) : Option (List Char) :=
  match jsonPayload.lookup key with
  | some (.string text) => some text
  | _ => none

def JsonPayload.getU32 (jsonPayload : JsonPayload) (key : String) : Option Nat :=
  match jsonPayload.lookup key with
  | some (.number n) => some (n % 2 ^ 32).toNat
  | some (.boolean b) => some b.toNat
  | _ => none

def JsonPayload.getBool (jsonPayload : JsonPayload) (key : String) : Option Bool :=
  match jsonPayload.lookup key with
  | some (.boolean b) => some b
  | _ => none

abbrev Path := List Char

/-- A script handed to the scheduler, deferred to the main loop. -/
structure ExecText where
  moduleName : List Char
  scriptText : List Char
  blockOnDebugPause : Bool

structure Device where
  files : Path → Option (List UInt8)
  /-- The file that the handle of a chunked upload is open on. -/
  chunkedUploadFd : Option Path
  pushed : List ExecText

/-- Everything up to the first NUL, which is all that C sees of a string. -/
def c_str (text : List Char) : List Char := text.takeWhile (· ≠ '\x00')

def canonicalize (path : Path) : Path :=
  if ':' ∈ c_str path then path else "sdcard:/totk_lotuskit/".toList ++ path

namespace Device

def setFile (path : Path) (content : List UInt8) (d : Device) : Device :=
  { d with files := fun p => if p = path then some content else d.files p }

/-- `nn::fs::CreateFile`, which does nothing to a file that exists. -/
def createFile (path : Path) (d : Device) : Device :=
  match d.files path with
  | none => d.setFile path []
  | some _ => d

/-- `nn::fs::SetFileSize`; what a new part of a file holds is up to the file system. -/
def setFileSize (fill : Nat → UInt8) (path : Path) (size : Nat) (d : Device) : Device :=
  let content := (d.files path).getD []
  d.setFile path (content.take size ++ (List.range (size - content.length)).map fill)

def fileSize (path : Path) (d : Device) : Nat := ((d.files path).getD []).length

/-- `nn::fs::WriteFile` within the size of the file. -/
def writeAt (path : Path) (offset : Nat) (src : List UInt8) (d : Device) : Device :=
  d.setFile path (overwrite ((d.files path).getD []) offset src)

end Device

def writeFile (fill : Nat → UInt8) (src : List UInt8) (path : Path) (d : Device) : Device :=
  let cpath := canonicalize path
  ((d.createFile cpath).setFileSize fill cpath src.length).writeAt cpath 0 src

def writeTextFile (fill : Nat → UInt8) (src : List Char) (path : Path) (d : Device) : Device :=
  writeFile fill ((c_str src).flatMap String.utf8EncodeChar) path d

/-- `writeFileChunked`, on the handle `chunkedUploadFd`. -/
def writeFileChunked (fill : Nat → UInt8) (src : List UInt8) (path : Path) (chunkOp chunkOffset : Nat)
    (d : Device) : Device :=
  let cpath := canonicalize path
  let d := if chunkOp = 1 then
      { (d.createFile cpath).setFileSize fill cpath 0 with chunkedUploadFd := some cpath }
    else d
  let d :=
    match d.chunkedUploadFd with
    | none => d
    | some fd =>
      if 0 < src.length then
        let reqLen := chunkOffset + src.length
        let d := if d.fileSize fd < reqLen then d.setFileSize fill fd reqLen else d
        d.writeAt fd chunkOffset src
      else d
  if chunkOp = 3 then { d with chunkedUploadFd := none } else d

/-- `JsonDispatch::dispatchText` on the parsed text; `none` is an exception of the JSON
library. -/
def dispatchText (fill : Nat → UInt8) (jsonPayload : JsonPayload) (d : Device) : Option Device :=
  if jsonPayload.contains "execScriptString" then do
    let moduleName ← if jsonPayload.contains "execScriptModule" then
        jsonPayload.getString "execScriptModule"
      else some "web_anon.as".toList
    let scriptText ← jsonPayload.getString "execScriptString"
    let blockOnDebugPause ← if jsonPayload.contains "blockOnDebugPause" then
        jsonPayload.getBool "blockOnDebugPause"
      else some true
    return { d with pushed := d.pushed ++ [⟨moduleName, scriptText, blockOnDebugPause⟩] }
  else if jsonPayload.contains "persistFileString" && jsonPayload.contains "persistFileName" then do
    let src ← jsonPayload.getString "persistFileString"
    let path ← jsonPayload.getString "persistFileName"
    return writeTextFile fill src path d
  else if jsonPayload.contains "persistFileBinary" && jsonPayload.contains "persistFileName" then do
    let src ← jsonPayload.getString "persistFileBinary"
    let path ← jsonPayload.getString "persistFileName"
    return writeFile fill (base64_decode src) path d
  else if jsonPayload.contains "persistFileBinaryChunk" && jsonPayload.contains "persistFileName" &&
      jsonPayload.contains "persistChunkOp" && jsonPayload.contains "persistChunkOffset" then do
    let src ← jsonPayload.getString "persistFileBinaryChunk"
    let path ← jsonPayload.getString "persistFileName"
    let chunkOp ← jsonPayload.getU32 "persistChunkOp"
    let chunkOffset ← jsonPayload.getU32 "persistChunkOffset"
    return writeFileChunked fill (base64_decode src) path chunkOp chunkOffset d
  else return d

/-- One text after the other. -/
def dispatchAll (fill : Nat → UInt8) (payloads : List JsonPayload) (d : Device) : Option Device :=
  payloads.foldlM (fun d jsonPayload => dispatchText fill jsonPayload d) d

end LotusKit.Server
