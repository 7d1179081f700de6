import RelayStar.Impl.Ui

/-!
# A line editor

What the keyboard of the terminal is for: keys add characters to a line and take
the last one away, and Enter hands the line over, if there is something on it. The
screen shows the last lines of the traffic, and the line that is typed.
-/

namespace RelayStar.Spec

/-- What is handed over at a key, and the line after it; a line has room for `width` characters. -/
def editLine (width : Nat) (line : List Char) : KeyAction → Option (List Char) × List Char
  | .char c => (none, if line.length < width then line ++ [c] else line)
  | .backspace => (none, line.dropLast)
  | .enter => (if line = [] then none else some line, [])

/-- The text of a line of the traffic. On ESP-NOW, whose name is the longest, there
is no room for the last of 48 bytes. -/
def rowText (line : DisplayLine) : List Char :=
  '[' :: line.origin.asStr.toList ++ [']', ' '] ++
    if line.origin = .espNow ∧ line.text.text.utf8ByteSize = 48 then line.text.text.toList.dropLast
    else line.text.text.toList

/-- The screen with these lines of the traffic and this line that is typed. -/
def screen (lines : List DisplayLine) (typed : List Char) : List Drawn :=
  ⟨2, 0, .white, "RelayStar"⟩ :: ⟨80, 0, .gray, "ready"⟩ ::
    lines.mapIdx (fun i line => ⟨2, 14 + 12 * i, Ui.colorFor line.origin, String.ofList (rowText line)⟩) ++
      [⟨2, 124, .yellow, String.ofList ('>' :: ' ' :: typed)⟩]

end RelayStar.Spec
