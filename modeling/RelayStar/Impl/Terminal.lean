import RelayStar.Impl.Card
import RelayStar.Impl.Ui

/-!
# The terminal with its user (firmware `cardputer-fw`, `main.rs`)

`ui_loop` shows the lines that the other tasks have for the display, and polls
the keyboard at intervals until it has no more key events (`scanKeys`). What it
does to the channels are events of `Card`; `Terminal.step` gives these, with what
is seen of each.
-/

namespace RelayStar

/-- What is done to the channels, and what is seen of it. -/
abbrev Card.Move := Card.Event × List Card.Effect

/-- The channels, the state of the user interface, and what is on the screen. -/
structure Terminal (NR NA NF : Nat) where
  card : Card NR NA NF
  ui : Ui
  screen : List Drawn

namespace Terminal

variable {NR NA NF : Nat}

inductive Event where
  /-- A turn of another task. -/
  | task (e : Card.Event)
  /-- The user interface looks for a line to show. -/
  | line
  /-- The user interface polls the keyboard; these are the registers at each poll,
  which are 0 from then on. -/
  | scan (readings : List Keyboard.Registers)

/-- The other tasks do not take lines from `UI_IN`, nor send what is typed. -/
def ofUi : Card.Event → Bool
  | .compose _ | .display => true
  | _ => false

def boot : Terminal NR NA NF :=
  let ui := Ui.new.setStatus "ready"
  ⟨.boot, ui, ui.render⟩

/-- The loop over the key events, up to the poll that finds none. -/
def scanKeys : List Keyboard.Registers → Bool → Terminal NR NA NF → List Card.Move × Bool × Terminal NR NA NF
  | [], dirty, t => ([], dirty, t)
  | regs :: rest, dirty, t => match Keyboard.poll regs with
    | none => ([], dirty, t)
    | some ev =>
      if !ev.pressed then scanKeys rest dirty t
      else match decodeKey ev.key with
      | some (.char c) => scanKeys rest true { t with ui.input := (t.ui.input.push c).getD t.ui.input }
      | some .backspace => scanKeys rest true { t with ui.input := t.ui.input.pop }
      | some .enter =>
        if t.ui.input.isEmpty then scanKeys rest true t
        else
          let move := Card.Event.compose t.ui.input.text
          let (es, card) := t.card.step move
          let (moves, dirty, t) := scanKeys rest true { t with card, ui.input := .empty }
          ((move, es) :: moves, dirty, t)
      | none => scanKeys rest dirty t

def step (t : Terminal NR NA NF) : Event → List Card.Move × Terminal NR NA NF
  | .task e =>
    if ofUi e then ([], t)
    else
      let (es, card) := t.card.step e
      ([(e, es)], { t with card })
  | .line => match t.card.bridge.uiIn.popFront with
    | none => ([], t)
    | some (line, uiIn) =>
      let ui := t.ui.pushLog line
      ([(.display, [.shown line])],
        { card := { t.card with bridge := { t.card.bridge with uiIn } }, ui, screen := ui.render })
  | .scan readings =>
    let (moves, dirty, t) := scanKeys readings false t
    (moves, if dirty then { t with screen := t.ui.render } else t)

end Terminal

end RelayStar
