import RelayStar.Impl.Bridge

/-!
# The keyboard and the display (firmware `cardputer-fw`, `keyboard.rs` and `display.rs`)

A poll of the keyboard reads two registers of its controller, and gives a key
event if there is one (`Keyboard.poll`); a key that the table has stands for an
action (`decodeKey`). The display shows a title, the status, the lines of the
log, of eight lines at most, and the line that is typed (`Ui.render`).
-/

namespace RelayStar

def Transport.asStr : Transport → String
  | lora => "lora"
  | mqtt => "mqtt"
  | espNow => "espnow"

/-! ## Keyboard -/

inductive KeyAction where
  | char (c : Char)
  | backspace
  | enter
deriving DecidableEq

structure KeyEvent where
  key : UInt8
  pressed : Bool
deriving DecidableEq

namespace Keyboard

/-- The registers that a poll reads; one that cannot be read is 0. -/
structure Registers where
  keyLckEc : UInt8
  keyEventA : UInt8

def poll (regs : Registers) : Option KeyEvent :=
  let count := regs.keyLckEc &&& 0x0F
  if count = 0 then none
  else
    let ev := regs.keyEventA
    if ev = 0 then none
    else some ⟨ev &&& 0x7F, ev &&& 0x80 != 0⟩

end Keyboard

def LETTERS : List Char := "abcdefghijklmnopqrstuvwxyz".toList

def DIGITS : List Char := "0123456789".toList

def decodeKey (key : UInt8) : Option KeyAction :=
  if key = 1 then some .enter
  else if key = 2 then some .backspace
  else if key = 3 then some (.char ' ')
  else if 10 ≤ key ∧ key ≤ 35 then LETTERS[(key - 10).toNat]?.map .char
  else if 40 ≤ key ∧ key ≤ 49 then DIGITS[(key - 40).toNat]?.map .char
  else none

/-! ## Display -/

def LOG_CAPACITY : Nat := 8

inductive Color where
  | white
  | gray
  | orange
  | cyan
  | lightGreen
  | yellow
deriving DecidableEq

/-- A text that is drawn, with its top left corner. -/
structure Drawn where
  x : Nat
  y : Nat
  color : Color
  text : String
deriving DecidableEq

/-- The state of the screen: the log and the line that is typed. -/
structure Ui where
  log : HVec DisplayLine LOG_CAPACITY
  input : HString 64
  status : HString 32

namespace Ui

def new : Ui := ⟨.empty, .empty, ((HString.empty : HString 32).pushStr "booting...").getD .empty⟩

def setStatus (ui : Ui) (s : String) : Ui := { ui with status := HString.empty.pushAll (s.toList.take 31) }

/-- Append a line to the log, without the oldest if it is full. -/
def pushLog (ui : Ui) (line : DisplayLine) : Ui :=
  let log := if ui.log.len = LOG_CAPACITY then (ui.log.popFront.map (·.2)).getD ui.log else ui.log
  { ui with log := (log.push line).getD log }

def colorFor : Transport → Color
  | .lora => .orange
  | .mqtt => .cyan
  | .espNow => .lightGreen

/-- The text of a line of the log. -/
def row (line : DisplayLine) : HString 56 :=
  HString.empty.pushAll ('[' :: line.origin.asStr.toList ++ [']', ' '] ++ line.text.text.toList)

/-- The loop over the lines of the log. -/
def rows (y : Nat) : List DisplayLine → List Drawn
  | [] => []
  | line :: lines => ⟨2, y, colorFor line.origin, (row line).text⟩ :: rows (y + 12) lines

/-- The text of the line that is typed. -/
def inputRow (ui : Ui) : HString 66 := HString.empty.pushAll ('>' :: ' ' :: ui.input.text.toList)

/-- What is drawn onto the empty screen. -/
def render (ui : Ui) : List Drawn :=
  ⟨2, 0, .white, "RelayStar"⟩ :: ⟨80, 0, .gray, ui.status.text⟩ :: rows 14 ui.log.toList ++
    [⟨2, 124, .yellow, ui.inputRow.text⟩]

end Ui

end RelayStar
