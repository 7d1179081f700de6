import Mathlib.Data.List.ReduceOption
import RelayStar.Framework.Machine
import RelayStar.Impl.Terminal
import RelayStar.Proof.Traffic
import RelayStar.Proof.Ui

/-!
# The terminal and its user

Whatever the other tasks do in between, what is typed is sent: the lines that a line
editor hands over for the keys that were pressed, each as one whole broadcast on
every transport (`typed_texts`). The screen is that of the last eight lines and of
the line that is typed, also where it is not drawn again (`screen_exact`). Keys are
taken one by one (`Tracks.scan`).
-/

namespace RelayStar

/-! ## The ports stay registered -/

namespace Relay

variable {NR NA NF : Nat}

theorem OnlyIds.fanoutTargets (m : Message) (skip : Transport) (ts : List Transport) (r : Relay NR NA NF) :
    OnlyIds r (fanoutTargets m skip ts r).2 := by
  induction ts generalizing r with
  | nil => exact .refl r
  | cons t ts ih =>
    rw [Relay.fanoutTargets]
    split
    · exact ih r
    · exact (planForward r m t).trans (ih _)

theorem registered_ingest (r : Relay NR NA NF) (source : Transport) (bytes : List UInt8) :
    (r.ingest source bytes).2.registered = r.registered := by
  cases hd : Message.decode bytes with
  | error e => rw [r.ingest_error source hd]
  | ok x =>
    by_cases hk : some x.dedupKey ∈ r.seen.window
    · rw [r.ingest_known source hd hk]
    · rw [r.ingest_new source hd hk]

/-- The terminal sends on all transports. -/
structure Open (r : Relay NR NA NF) : Prop where
  selfAddr : r.selfAddr = CARD_ADDR
  registered : ∀ t, r.isPortRegistered t = true

theorem Open.onlyIds {r r' : Relay NR NA NF} (h : r.Open) (hr : OnlyIds r r') : r'.Open := by
  obtain ⟨n, rfl⟩ := hr
  exact ⟨h.selfAddr, h.registered⟩

theorem Open.bridgeStep {r : Relay NR NA NF} (h : r.Open) (source : Transport) (bytes : List UInt8) :
    (r.bridgeStep source bytes).2.Open := by
  have hin : (r.ingest source bytes).2.Open := by
    refine ⟨(r.ingest_self source bytes).1.trans h.selfAddr, fun t => ?_⟩
    rw [isPortRegistered, r.registered_ingest]
    exact h.registered t
  rcases r.bridgeStep_cases source bytes with ⟨-, hr⟩ | ⟨m, -, -, hr⟩
  · rwa [hr]
  · rw [hr]
    exact hin.onlyIds (.fanoutTargets ..)

/-- A short text is one frame for each transport. -/
theorem Open.planText {r : Relay NR NA NF} (h : r.Open) {text : String} (hlen : (asBytes text).length ≤ 180) :
    ∃ p : Payload, p.toList = asBytes text ∧ plannedFrames (r.planSend .text (asBytes text) .broadcast).1 =
      Transport.ALL.map fun t =>
        ⟨t, .broadcast, ⟨r.nextId.1, DEFAULT_TTL, t, CARD_ADDR, BROADCAST_ADDR, .text, p, none⟩⟩ := by
  have hts : r.resolveTargets .broadcast = .ok Transport.ALL := by
    have hports : r.hasPorts = true := hasPorts_iff.mpr ⟨.lora, h.registered .lora⟩
    have hall : Transport.ALL.filter (r.usable .broadcast) = Transport.ALL :=
      List.filter_eq_self.mpr fun t _ => by simp [usable, h.registered t]
    rw [resolveTargets_eq, hports, hall]
    rfl
  obtain ⟨out, hout⟩ := (planSend_ok_iff hts (by decide) .text (asBytes text)).mpr (Nat.le_trans hlen (by decide))
  obtain ⟨-, p, g, hp, hplan⟩ := planSend_on hts hout
  have hshort : p.len ≤ 180 := by rwa [HVec.len, hp]
  have hwhole (t : Transport) :
      Message.framesOn ⟨r.nextId.1, DEFAULT_TTL, t, CARD_ADDR, BROADCAST_ADDR, .text, p, none⟩ t g =
        [⟨r.nextId.1, DEFAULT_TTL, t, CARD_ADDR, BROADCAST_ADDR, .text, p, none⟩] :=
    if_neg fun hs => absurd hs.2.2 (Nat.not_lt.mpr hshort)
  refine ⟨p, hp, ?_⟩
  rw [hout, plannedFrames, hplan, Message.plan, List.map_eq_flatMap]
  refine congrArg (List.flatMap · _) (funext fun t => ?_)
  dsimp only [Destination.addr]
  rw [h.selfAddr, hwhole]
  rfl

end Relay

namespace Card

variable {NR NA NF : Nat}

theorem open_step {c : Card NR NA NF} (h : c.bridge.relay.Open) (e : Event) : (c.step e).2.bridge.relay.Open := by
  have hstep := c.outcome_step e
  generalize c.step e = x at hstep ⊢
  cases hstep with
  | @bridge raw inbound htake =>
    show (c.bridge.turn raw).relay.Open
    rw [(c.bridge.turn_eq raw).1]
    exact h.bridgeStep ..
  | compose text =>
    show (c.bridge.sendLocalText text).relay.Open
    rw [(c.bridge.sendLocalText_eq text).1]
    exact h.onlyIds (.planSend ..)
  | other hes hrelay => exact h.onlyIds hrelay

theorem open_run (events : List Event) : (run step (boot : Card NR NA NF) events).2.bridge.relay.Open :=
  @run_inv _ _ _ step (fun c => c.bridge.relay.Open) (fun _ => True) (fun _ e _ h => open_step h e) _ _
    (fun _ _ => trivial) ⟨rfl, fun t => by cases t <;> rfl⟩

/-- The frames of a text, one for each transport. -/
def broadcasts (id : UInt32) (p : Payload) : List PlannedFrame :=
  Transport.ALL.map fun t => ⟨t, .broadcast, ⟨id, DEFAULT_TTL, t, CARD_ADDR, BROADCAST_ADDR, .text, p, none⟩⟩

theorem planned_compose {c : Card NR NA NF} (h : c.bridge.relay.Open) {text : String}
    (hlen : (asBytes text).length ≤ 180) :
    ∃ id p, p.toList = asBytes text ∧ planned (c.step (.compose text)).1 = broadcasts id p := by
  obtain ⟨p, hp, hframes⟩ := h.planText hlen
  exact ⟨c.bridge.relay.nextId.1, p, hp, (planned_enqueued ..).trans hframes⟩

/-- Only the user interface takes lines. -/
theorem not_shown {c : Card NR NA NF} {e : Event} (he : e ≠ .display) (line : DisplayLine) :
    Effect.shown line ∉ (c.step e).1 := fun h => by
  have hqueues {fs : List PlannedFrame} (hl : .shown line ∈ enqueued fs c.bridge) : False := by
    rcases enqueued_cases hl with ⟨f, -, heq⟩ | ⟨f, -, heq, -⟩ <;> cases heq
  have hreceive {t : Transport} {data : List UInt8} (hl : .shown line ∈ (c.receive t data).1) : False := by
    rw [receive] at hl
    split at hl
    · cases hl
    · split at hl <;> simp at hl
  cases e with
  | loraRx data => exact hreceive h
  | espnowRx data => exact hreceive h
  | uplink payload =>
    rw [step] at h
    split at h
    · cases h
    · split at h <;> simp at h
  | deposit t =>
    rw [step] at h
    split at h <;> cases h
  | bridge =>
    rw [step] at h
    split at h
    · cases h
    · rcases List.mem_cons.mp h with h | h
      · cases h
      · exact hqueues h
  | transmit t =>
    rw [step] at h
    split at h
    · cases h
    · split at h <;> simp at h
  | compose text => exact hqueues h
  | display => exact he rfl

end Card

namespace Terminal

variable {NR NA NF : Nat}

/-! ## What is typed -/

/-- The keys that are pressed, up to the poll that finds no event. -/
def keys : List Keyboard.Registers → List KeyAction
  | [] => []
  | regs :: rest => match Keyboard.poll regs with
    | none => []
    | some ev => (if ev.pressed then (decodeKey ev.key).toList else []) ++ keys rest

def Event.keys : Event → List KeyAction
  | .scan readings => Terminal.keys readings
  | .task _ | .line => []

/-- The keys that are pressed in a run. -/
def pressed (events : List Event) : List KeyAction := events.flatMap Event.keys

/-- The texts that are sent, with what is seen of each. -/
def sent (moves : List Card.Move) : List (String × List Card.Effect) :=
  moves.filterMap fun
    | (.compose text, es) => some (text, es)
    | _ => none

def shown (moves : List Card.Move) : List DisplayLine :=
  moves.flatMap fun m => m.2.filterMap fun
    | .shown line => some line
    | _ => none

theorem sent_append (l l' : List Card.Move) : sent (l ++ l') = sent l ++ sent l' := List.filterMap_append

theorem shown_append (l l' : List Card.Move) : shown (l ++ l') = shown l ++ shown l' := List.flatMap_append

theorem shown_other {c : Card NR NA NF} {e : Card.Event} (he : e ≠ .display) : shown [(e, (c.step e).1)] = [] :=
  List.flatMap_eq_nil_iff.mpr fun m hm => List.filterMap_eq_nil_iff.mpr fun x hx => by
    rw [List.mem_singleton.mp hm] at hx
    cases x with
    | shown line => exact absurd hx (Card.not_shown he line)
    | _ => rfl

/-- The lines that the editor hands over for these keys. -/
def lines (pressed : List KeyAction) : List (List Char) := (run (Spec.editLine 64) [] pressed).1.reduceOption

/-- The line that the editor has after these keys. -/
def typing (pressed : List KeyAction) : List Char := (run (Spec.editLine 64) [] pressed).2

theorem lines_snoc (pressed : List KeyAction) (k : KeyAction) :
    lines (pressed ++ [k]) = lines pressed ++ (Spec.editLine 64 (typing pressed) k).1.toList := by
  rw [lines, run_append, List.reduceOption_append, run_cons, run_nil]
  refine congrArg _ ?_
  show [(Spec.editLine 64 (typing pressed) k).1].reduceOption = _
  cases (Spec.editLine 64 (typing pressed) k).1 <;> rfl

theorem typing_snoc (pressed : List KeyAction) (k : KeyAction) :
    typing (pressed ++ [k]) = (Spec.editLine 64 (typing pressed) k).2 := run_snoc_snd ..

/-- The line is sent as one whole broadcast on every transport. -/
def Sends (line : List Char) (x : String × List Card.Effect) : Prop :=
  x.1 = String.ofList line ∧ ∃ id p, p.toList = asBytes x.1 ∧ Card.planned x.2 = Card.broadcasts id p

/-- What holds after a run in which these keys were pressed and these moves were
made. -/
structure Tracks (pressed : List KeyAction) (moves : List Card.Move) (t : Terminal NR NA NF) : Prop where
  card : run Card.step (Card.boot : Card NR NA NF) (moves.map (·.1)) = (moves.map (·.2), t.card)
  edits : t.ui.Edits (typing pressed)
  sends : List.Forall₂ Sends (lines pressed) (sent moves)
  log : t.ui.log.toList = (shown moves).rtake LOG_CAPACITY

namespace Tracks

variable {pressed : List KeyAction} {moves : List Card.Move} {t : Terminal NR NA NF}

theorem card_snoc (h : Tracks pressed moves t) (e : Card.Event) :
    run Card.step (Card.boot : Card NR NA NF) ((moves ++ [(e, (t.card.step e).1)]).map (·.1)) =
      ((moves ++ [(e, (t.card.step e).1)]).map (·.2), (t.card.step e).2) := by
  simp only [List.map_append, List.map_cons, List.map_nil, run_append, run_cons, run_nil, h.card]

theorem relay_open (h : Tracks pressed moves t) : t.card.bridge.relay.Open := by
  have := @Card.open_run NR NA NF (moves.map (·.1))
  rwa [h.card] at this

/-- A move that shows no line and sends nothing. -/
theorem task (h : Tracks pressed moves t) {e : Card.Event} (he : ofUi e = false) :
    Tracks pressed (moves ++ [(e, (t.card.step e).1)]) { t with card := (t.card.step e).2 } := by
  have hdisplay : e ≠ .display := fun heq => by
    rw [heq] at he
    cases he
  have hsent : sent [(e, (t.card.step e).1)] = [] := by cases e <;> first | rfl | cases he
  refine ⟨h.card_snoc e, h.edits, ?_, ?_⟩
  · rw [sent_append, hsent, List.append_nil]
    exact h.sends
  · rw [shown_append, shown_other hdisplay, List.append_nil]
    exact h.log

/-- A line is taken from `UI_IN`. -/
theorem line (h : Tracks pressed moves t) {line : DisplayLine} {uiIn : HVec DisplayLine 8}
    (hline : t.card.bridge.uiIn.popFront = some (line, uiIn)) :
    Tracks pressed (moves ++ [(.display, [.shown line])])
      { t with card := { t.card with bridge := { t.card.bridge with uiIn } }, ui := t.ui.pushLog line } := by
  have hstep : t.card.step .display = ([.shown line], { t.card with bridge := { t.card.bridge with uiIn } }) := by
    rw [Card.step, hline]
  have hcard := h.card_snoc .display
  rw [hstep] at hcard
  refine ⟨hcard, ⟨h.edits.input, h.edits.ascii, h.edits.status⟩, ?_, ?_⟩
  · rw [sent_append]
    exact (List.append_nil (sent moves)).symm ▸ h.sends
  · rw [shown_append]
    exact Ui.toList_pushLog h.log line

/-- A key that hands nothing over. -/
theorem key (h : Tracks pressed moves t) {k : KeyAction} {ui : Ui}
    (hnone : (Spec.editLine 64 (typing pressed) k).1 = none)
    (hinput : ui.input.text.toList = (Spec.editLine 64 (typing pressed) k).2)
    (hascii : IsAscii (Spec.editLine 64 (typing pressed) k).2) (hstatus : ui.status = t.ui.status)
    (hlog : ui.log = t.ui.log) : Tracks (pressed ++ [k]) moves { t with ui } := by
  refine ⟨h.card, ⟨hinput.trans (typing_snoc ..).symm, typing_snoc pressed k ▸ hascii, ?_⟩, ?_, ?_⟩
  · rw [hstatus]
    exact h.edits.status
  · rw [lines_snoc, hnone, Option.toList_none, List.append_nil]
    exact h.sends
  · rw [hlog]
    exact h.log

/-- Enter sends the line, unless it is empty. -/
theorem enter (h : Tracks pressed moves t) (hne : t.ui.input.isEmpty = false) :
    Tracks (pressed ++ [.enter]) (moves ++ [(.compose t.ui.input.text, (t.card.step (.compose t.ui.input.text)).1)])
      { t with card := (t.card.step (.compose t.ui.input.text)).2, ui.input := .empty } := by
  have hline : typing pressed ≠ [] := fun hnil => by
    rw [HString.isEmpty_iff.mpr (h.edits.input.trans hnil)] at hne
    cases hne
  have hedit : Spec.editLine 64 (typing pressed) .enter = (some (typing pressed), []) := by
    rw [Spec.editLine, if_neg hline]
  have htyping : typing (pressed ++ [.enter]) = [] := by rw [typing_snoc, hedit]
  refine ⟨h.card_snoc _, ⟨?_, ?_, h.edits.status⟩, ?_, ?_⟩
  · rw [htyping]
    rfl
  · rw [htyping]
    exact fun c hc => by cases hc
  · rw [lines_snoc, hedit, sent_append]
    refine List.rel_append h.sends (.cons ⟨?_, ?_⟩ .nil)
    · rw [← h.edits.input, String.ofList_toList]
    · exact Card.planned_compose h.relay_open (Nat.le_trans t.ui.input.size_le (by decide))
  · rw [shown_append, @shown_other _ _ _ t.card (.compose t.ui.input.text) nofun, List.append_nil]
    exact h.log

/-- The loop over the key events. -/
theorem scan (h : Tracks pressed moves t) (readings : List Keyboard.Registers) (dirty : Bool) :
    Tracks (pressed ++ keys readings) (moves ++ (scanKeys readings dirty t).1) (scanKeys readings dirty t).2.2 ∧
      ((scanKeys readings dirty t).2.1 = false → dirty = false ∧ (scanKeys readings dirty t).2.2 = t) := by
  induction readings generalizing pressed moves t dirty with
  | nil => simpa [keys, scanKeys] using h
  | cons regs rest ih =>
    rw [keys, scanKeys]
    cases Keyboard.poll regs with
    | none => simpa using h
    | some ev =>
      dsimp only
      cases hpressed : ev.pressed with
      | false => simpa using ih h dirty
      | true =>
        rw [if_pos rfl, if_neg (by decide)]
        cases hk : decodeKey ev.key with
        | none => simpa using ih h dirty
        | some k =>
          rw [Option.toList_some, ← List.append_assoc]
          -- after a key of the table the screen is drawn again
          have hdrawn {pressed' : List KeyAction} {moves' : List Card.Move} {t' : Terminal NR NA NF}
              (h' : Tracks pressed' moves' t') :
              Tracks (pressed' ++ keys rest) (moves' ++ (scanKeys rest true t').1) (scanKeys rest true t').2.2 ∧
                ((scanKeys rest true t').2.1 = false → dirty = false ∧ (scanKeys rest true t').2.2 = t) :=
            ⟨(ih h' true).1, fun hf => absurd ((ih h' true).2 hf).1 (by decide)⟩
          cases k with
          | char c =>
            have hc := utf8Size_of_decodeKey hk
            have hinput := Ui.toList_input_push h.edits hc
            have hascii := HString.isAscii_push (h.edits.input ▸ h.edits.ascii) hc
            rw [hinput] at hascii
            exact hdrawn (h.key rfl hinput hascii rfl rfl)
          | backspace =>
            have hinput : t.ui.input.pop.text.toList = (typing pressed).dropLast := by
              rw [HString.toList_pop, h.edits.input]
            exact hdrawn (h.key rfl hinput (fun c hc => h.edits.ascii c (List.mem_of_mem_dropLast hc)) rfl rfl)
          | enter =>
            dsimp only
            cases hempty : t.ui.input.isEmpty with
            | true =>
              have hnil : typing pressed = [] := h.edits.input ▸ HString.isEmpty_iff.mp hempty
              have hedit : Spec.editLine 64 (typing pressed) .enter = (none, []) := by rw [hnil]; rfl
              have h' : Tracks (pressed ++ [.enter]) moves { t with ui := t.ui } := by
                refine h.key (by rw [hedit]) ?_ ?_ rfl rfl
                · rw [hedit, h.edits.input, hnil]
                · rw [hedit]
                  exact fun c hc => by cases hc
              exact hdrawn h'
            | false =>
              have := hdrawn (h.enter hempty)
              rw [List.append_assoc moves] at this
              exact this

end Tracks

/-- The moves of a run from the start, and the state after it. -/
def life (events : List Event) : List Card.Move × Terminal NR NA NF :=
  ((run step (boot : Terminal NR NA NF) events).1.flatten, (run step (boot : Terminal NR NA NF) events).2)

theorem boot_tracks : Tracks [] [] (boot : Terminal NR NA NF) := by
  refine ⟨rfl, ⟨rfl, nofun, ?_⟩, .nil, rfl⟩
  show ((HString.empty : HString 32).pushAll ("ready".toList.take 31)).text = "ready"
  decide

/-- One turn keeps this, and the screen as it would be drawn. -/
theorem Tracks.step {pressed : List KeyAction} {moves : List Card.Move} {t : Terminal NR NA NF}
    (h : Tracks pressed moves t) (hs : t.screen = t.ui.render) (e : Event) :
    Tracks (pressed ++ e.keys) (moves ++ (t.step e).1) (t.step e).2 ∧ (t.step e).2.screen = (t.step e).2.ui.render := by
  cases e with
  | task e =>
    rw [Event.keys, List.append_nil, Terminal.step]
    cases he : ofUi e with
    | true => exact ⟨(List.append_nil moves).symm ▸ h, hs⟩
    | false => exact ⟨h.task he, hs⟩
  | line =>
    rw [Event.keys, List.append_nil, Terminal.step]
    cases hp : t.card.bridge.uiIn.popFront with
    | none => exact ⟨(List.append_nil moves).symm ▸ h, hs⟩
    | some x =>
      obtain ⟨hcard, hedits, hsends, hlog⟩ := h.line hp
      exact ⟨⟨hcard, hedits, hsends, hlog⟩, rfl⟩
  | scan readings =>
    obtain ⟨htracks, hclean⟩ := h.scan readings false
    rw [Event.keys, Terminal.step]
    dsimp only
    cases hdirty : (scanKeys readings false t).2.1 with
    | true => exact ⟨⟨htracks.card, htracks.edits, htracks.sends, htracks.log⟩, rfl⟩
    | false =>
      refine ⟨htracks, ?_⟩
      rw [if_neg (by decide), (hclean hdirty).2]
      exact hs

theorem tracks_life (events : List Event) :
    let x := (life events : List Card.Move × Terminal NR NA NF)
    Tracks (pressed events) x.1 x.2 ∧ x.2.screen = x.2.ui.render := by
  refine @run_history _ _ _ step
    (fun is os t => Tracks (pressed is) os.flatten t ∧ t.screen = t.ui.render) (fun is os t e h => ?_) boot
    ⟨boot_tracks, rfl⟩ events
  rw [pressed, List.flatMap_append, List.flatMap_singleton, List.flatten_append, List.flatten_singleton]
  exact h.1.step h.2 e

/-- The editor hands over no empty line, and none of more characters than it has room for. -/
theorem length_lines (keys : List KeyAction) :
    (typing keys).length ≤ 64 ∧ ∀ line ∈ lines keys, line ≠ [] ∧ line.length ≤ 64 := by
  induction keys using List.reverseRecOn with
  | nil => exact ⟨Nat.zero_le _, nofun⟩
  | append_singleton keys k ih =>
    obtain ⟨hlen, hlines⟩ := ih
    rw [typing_snoc, lines_snoc]
    cases k with
    | char c =>
      refine ⟨?_, fun line hline => hlines line (by simpa [Spec.editLine] using hline)⟩
      rw [Spec.editLine]
      split
      · rw [List.length_append, List.length_singleton]
        omega
      · exact hlen
    | backspace =>
      refine ⟨?_, fun line hline => hlines line (by simpa [Spec.editLine] using hline)⟩
      rw [Spec.editLine, List.length_dropLast]
      omega
    | enter =>
      refine ⟨Nat.zero_le _, fun line hline => ?_⟩
      rw [Spec.editLine] at hline
      split at hline
      · exact hlines line (by simpa using hline)
      · rename_i hne
        rcases List.mem_append.mp hline with hline | hline
        · exact hlines line hline
        · obtain rfl := List.mem_singleton.mp hline
          exact ⟨hne, hlen⟩

end Terminal

/-- In every run of the terminal, in any order of its tasks: for the keys that were
pressed, the texts that are sent are the lines that a line editor hands over, of
at most 64 characters and none empty, in order, each with one whole broadcast frame
for every transport, put into its queue or dropped where that is full. What is done
to the channels is a run of `Card`. -/
theorem typed_texts {NR NA NF : Nat} (events : List Terminal.Event) :
    let moves := (Terminal.life events : List Card.Move × Terminal NR NA NF).1
    let lines := Terminal.lines (Terminal.pressed events)
    List.Forall₂ Terminal.Sends lines (Terminal.sent moves) ∧
    (∀ line ∈ lines, line ≠ [] ∧ line.length ≤ 64) ∧
    (Card.life (moves.map (·.1)) : List Card.Effect × Card NR NA NF) =
      ((moves.map (·.2)).flatten, (Terminal.life events).2.card) := by
  intro moves lines
  obtain ⟨h, -⟩ := @Terminal.tracks_life NR NA NF events
  refine ⟨h.sends, (Terminal.length_lines _).2, ?_⟩
  rw [Card.life, h.card]

/-- In every run of the terminal the screen shows the last eight lines that were
taken from `UI_IN`, and the line that a line editor has after the keys that were
pressed. -/
theorem screen_exact {NR NA NF : Nat} (events : List Terminal.Event) :
    let x := (Terminal.life events : List Card.Move × Terminal NR NA NF)
    x.2.screen = Spec.screen ((Terminal.shown x.1).rtake LOG_CAPACITY) (Terminal.typing (Terminal.pressed events)) := by
  obtain ⟨h, hs⟩ := @Terminal.tracks_life NR NA NF events
  intro x
  rw [hs, Ui.render_eq h.edits, h.log]

end RelayStar
