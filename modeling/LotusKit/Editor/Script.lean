import LotusKit.Editor.Number
import LotusKit.Lib.Regex
import Mathlib.Data.List.DropRight

/-! The frames of the TAS editor, the script that is broadcast for them, and the parser that
reads scripts line by line. -/

namespace LotusKit.Editor
open LotusKit.Lib LotusKit.Lib.Regex

section Regexes

def isDot (c : Char) : Bool :=
  c ≠ '\n' ∧ c ≠ '\r' ∧ c.toNat ≠ 0x2028 ∧ c.toNat ≠ 0x2029

def isWordChar (c : Char) : Bool := c.isAlphanum || c == '_'

/-- `\s*` -/
def white : Regex := star isWhite

def rExecFile : Regex :=
  cat [word "awaitExecFile(".toList, white, word "\"sdcard:/totk_lotuskit/".toList,
    group 1 (plus fun c => c ≠ '"'), word "\"".toList, white, word ");".toList]

def rMainStart : Regex :=
  cat [word "void".toList, plus isWhite, word "main".toList, white, word "(".toList, white,
    word ")".toList, white, word "\x7b".toList]

def rLoopStart : Regex :=
  cat [word "for".toList, white, word "(".toList, white, word "int".toList, plus isWhite,
    group 1 (plus isWordChar), white, word "=".toList, white, word "0".toList, white,
    word ";".toList, white, backref 1, white, word "<".toList, white, group 2 (plus Char.isDigit),
    white, word ";".toList, white, backref 1, word "++".toList, white, word ")".toList, white,
    word "\x7b".toList]

def rLoopEnd : Regex := cat [start, white, word "\x7d".toList, white, finish]

/-- `-?\d+` -/
def integer : Regex := seq (opt (word "-".toList)) (plus Char.isDigit)

/-- `,\s*` -/
def comma : Regex := seq (word ",".toList) white

/-- The two numbers of a stick, where both or the second one can be left out. -/
def stick (n : Nat) : Regex :=
  opt (cat [comma, group n integer, opt (seq comma (group (n + 1) integer))])

def rInputFlex : Regex :=
  cat [word "input(".toList, group 1 (plus Char.isDigit),
    opt (seq comma (group 2 (plus fun c => c ≠ ',' ∧ c ≠ ')'))), stick 3, stick 5, word ");".toList]

def rGyroRot : Regex :=
  cat [opt (word "tas::".toList), word "setGyroRotation(Matrix33f::".toList,
    group 1 (plus Char.isUpper), word ");".toList]

/-- `-?\d*\.?\d+` -/
def decimal : Regex :=
  cat [opt (word "-".toList), star Char.isDigit, opt (word ".".toList), plus Char.isDigit]

def rGyroVel : Regex :=
  cat [opt (word "tas::".toList), word "setGyroAngularVelocity(Vector3f(".toList, group 1 decimal,
    comma, group 2 decimal, comma, group 3 decimal, word "));".toList]

def rGyroClear : Regex := seq (opt (word "tas::".toList)) (word "clearGyro();".toList)

def rPosRot : Regex :=
  cat [word "Player.setPosRot(".toList, group 1 (star isDot), word ");".toList]

def rComment : Regex := cat [start, white, word "//".toList, white, group 1 (star isDot)]

end Regexes

/-- A stick of an input frame. -/
structure Stick (N : Numbers) where
  x : N.Number
  y : N.Number

instance (N : Numbers) : DecidableEq (Stick N) := fun a b =>
  decidable_of_iff (a.x = b.x ∧ a.y = b.y) (by cases a; cases b; simp)

/-- A frame of the editor; a `Set` of buttons is the list of them in the order of insertion. -/
inductive Frame (N : Numbers) where
  | input (duration : N.Number) (buttons : List (List Char)) (lstick rstick : Stick N)
  | comment (text : List Char)
  | loop_start (variable_ : List Char) (count : N.Number)
  | loop_end
  | gyro_set (orientation : List Char) (x y z : N.Number)
  | gyro_clear
  | pos_rot (x y z : N.Number) (rot : List N.Number)
  | exec_file (filename : List Char)

variable {N : Numbers}

/-- `text.trim()` -/
def trim (text : List Char) : List Char := (text.dropWhile isWhite).rdropWhile isWhite

/-- `new Set(items)` -/
def toSet (items : List (List Char)) : List (List Char) :=
  items.foldl (fun set item => if item ∈ set then set else set ++ [item]) []

section Parser

/-- `m[n]` -/
def cap (m : Match) (n : Nat) : List Char := (m.caps n).getD []

/-- `m[n] ? parseInt(m[n]) : 0` -/
def capInt (m : Match) (n : Nat) : N.Number :=
  match m.caps n with
  | some w => N.parseInt w
  | none => N.ofDecimal false 0 0

/-- What a line does to the list of frames. -/
inductive Effect (N : Numbers) where
  | nothing
  | loopEnd
  | loopStart (variable_ : List Char) (count : N.Number)
  | gyro (orientation : List Char) (velocity : Option (N.Number × N.Number × N.Number))
  | push (frame : Frame N)

def readVelocity (lt : List Char) : Option (N.Number × N.Number × N.Number) :=
  (rGyroVel.exec lt).map fun m =>
    (N.parseFloat (cap m 1), N.parseFloat (cap m 2), N.parseFloat (cap m 3))

def readPosRot (args : List Char) : Effect N :=
  let args := (args.splitOn ',').map fun s => N.parseFloat (trim s)
  match args with
  | x :: y :: z :: rot => if 9 ≤ rot.length then .push (.pos_rot x y z (rot.take 9)) else .nothing
  | _ => .nothing

def readInput (m : Match) : Effect N :=
  let btnRaw :=
    match m.caps 2 with
    | some w => trim w
    | none => "NONE".toList
  let btnRaw := if btnRaw = "0".toList then "NONE".toList else btnRaw
  let btns := toSet (if btnRaw = "NONE".toList then [] else btnRaw.splitOn '|')
  .push (.input (N.parseInt (cap m 1)) btns ⟨capInt m 3, capInt m 4⟩ ⟨capInt m 5, capInt m 6⟩)

/-- The tests of a line, one after the other. -/
def readLine (lt : List Char) : Effect N :=
  if lt = [] then .nothing
  else if rMainStart.test lt then .nothing
  else if rLoopEnd.test lt then .loopEnd
  else
    match rExecFile.exec lt with
    | some m => .push (.exec_file (cap m 1))
    | none =>
      if rGyroClear.test lt then .push .gyro_clear
      else
        match rGyroRot.exec lt with
        | some m => .gyro (cap m 1) (readVelocity lt)
        | none =>
          match rPosRot.exec lt with
          | some m => readPosRot (cap m 1)
          | none =>
            match rComment.exec lt with
            | some m => .push (.comment (cap m 1))
            | none =>
              match rLoopStart.exec lt with
              | some m => .loopStart (cap m 1) (N.parseInt (cap m 2))
              | none =>
                match rInputFlex.exec lt with
                | some m => readInput m
                | none => .nothing

/-- The loop over the lines; `skip` is the `i++` of a line that is read with the one before. -/
def parseLines : List (List Char) → (loopDepth : Nat) → (skip : Bool) → List (Frame N)
  | [], _, _ => []
  | _ :: lines, loopDepth, true => parseLines lines loopDepth false
  | line :: lines, loopDepth, false =>
    match readLine (trim line) with
    | .nothing => parseLines lines loopDepth false
    | .loopEnd =>
      if 0 < loopDepth then .loop_end :: parseLines lines (loopDepth - 1) false
      else parseLines lines loopDepth false
    | .loopStart variable_ count =>
      .loop_start variable_ count :: parseLines lines (loopDepth + 1) false
    | .gyro orientation velocity =>
      let next := lines.head?.bind fun line => readVelocity (trim line)
      let zero := N.ofDecimal false 0 0
      let (x, y, z) := (velocity.or next).getD (zero, zero, zero)
      .gyro_set orientation x y z :: parseLines lines loopDepth (velocity.isNone && next.isSome)
    | .push frame => frame :: parseLines lines loopDepth false

def parseScriptToFrames (text : List Char) : List (Frame N) :=
  parseLines ((text.splitOn '\n').filter fun l => trim l ≠ []) 0 false

end Parser

section Printer

/-- `f.buttons.size > 0 ? Array.from(f.buttons).join('|') : 'NONE'` -/
def buttonsText (buttons : List (List Char)) : List Char :=
  if buttons = [] then "NONE".toList else ['|'].intercalate buttons

def stickText (s : Stick N) : List Char := N.text s.x ++ ',' :: N.text s.y

/-- The lines of a frame, without the indentation. -/
def Frame.code : Frame N → List (List Char)
  | input duration buttons lstick rstick =>
    ["input(".toList ++ N.text duration ++ ", ".toList ++ buttonsText buttons ++ ", ".toList ++
      stickText lstick ++ ", ".toList ++ stickText rstick ++ ");".toList]
  | comment text => ["// ".toList ++ text]
  | loop_start variable_ count =>
    ["for(int ".toList ++ variable_ ++ "=0; ".toList ++ variable_ ++ " < ".toList ++ N.text count ++
      "; ".toList ++ variable_ ++ "++) \x7b".toList]
  | loop_end => ["\x7d".toList]
  | gyro_set orientation x y z =>
    ["tas::setGyroRotation(Matrix33f::".toList ++ orientation ++ ");".toList,
      "tas::setGyroAngularVelocity(Vector3f(".toList ++ N.text x ++ ", ".toList ++ N.text y ++
        ", ".toList ++ N.text z ++ "));".toList]
  | gyro_clear => ["tas::clearGyro();".toList]
  | pos_rot x y z rot =>
    ["Player.setPosRot(".toList ++ N.text x ++ ", ".toList ++ N.text y ++ ", ".toList ++ N.text z ++
      ", ".toList ++ ", ".toList.intercalate (rot.map N.text) ++ ");".toList]
  | exec_file filename => ["tas::awaitExecFile(\"sdcard:/totk_lotuskit/".toList ++ filename ++ "\");".toList]

def indentation : List Char := "    ".toList

/-- The script that `broadcastState` generates for optimized frames. -/
def printScript (frames : List (Frame N)) : List Char :=
  let innerCode := ['\n'].intercalate (frames.map fun f =>
    ['\n'].intercalate (f.code.map fun line => indentation ++ line))
  "void main() \x7b\n".toList ++ innerCode ++ "\n\x7d".toList

end Printer

section Optimizer

/-- The input frame that is still open. -/
structure Current (N : Numbers) where
  duration : N.Number
  buttons : List (List Char)
  lstick : Stick N
  rstick : Stick N

def Current.frame (c : Current N) : Frame N := .input c.duration c.buttons c.lstick c.rstick

/-- `===`, which `NaN` is to nothing. -/
def Numbers.strictEq (N : Numbers) (x y : N.Number) : Bool := x = y ∧ x ≠ N.nan

def Stick.strictEq (s t : Stick N) : Bool := N.strictEq s.x t.x && N.strictEq s.y t.y

def Current.matches_ (c : Current N) (buttons : List (List Char)) (lstick rstick : Stick N) : Bool :=
  (c.lstick.strictEq lstick ∧ c.rstick.strictEq rstick) ∧
    c.buttons.length = buttons.length ∧ ∀ btn ∈ c.buttons, btn ∈ buttons

def optimizeLoop : List (Frame N) → Option (Current N) → List (Frame N)
  | [], current => (current.map Current.frame).toList
  | .input duration buttons lstick rstick :: frames, current =>
    match current with
    | none => optimizeLoop frames (some ⟨duration, buttons, lstick, rstick⟩)
    | some c =>
      if c.matches_ buttons lstick rstick then
        optimizeLoop frames (some { c with duration := N.add c.duration duration })
      else c.frame :: optimizeLoop frames (some ⟨duration, buttons, lstick, rstick⟩)
  | next :: frames, current => (current.map Current.frame).toList ++ next :: optimizeLoop frames none

def getOptimizedFrames (frames : List (Frame N)) : List (Frame N) := optimizeLoop frames none

/-- What the editor generates and broadcasts. -/
def broadcastState (frames : List (Frame N)) : List Char := printScript (getOptimizedFrames frames)

end Optimizer

end LotusKit.Editor
