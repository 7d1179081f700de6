import Mathlib.Data.List.ReduceOption
import RelayStar.Proof.Traffic

/-!
# The lines for the display

A turn of the bridge, or a text that is typed, has at most one line for the display
(`Card.lineOf`), which is put into `UI_IN` if there is room (`Card.uiIn_step`). The
lines that are shown are in the order of these, each once, and each is of a text
that was typed or of a message for this terminal that was heard (`lines_accounted`).
-/

namespace RelayStar

namespace Relay

variable {NR NA NF : Nat}

/-- The message of a turn that is shown was handed over, and is for this node. -/
theorem shown_bridgeStep {r : Relay NR NA NF} {source : Transport} {bytes : List UInt8} {m : Message}
    (h : (r.bridgeStep source bytes).1.1 = some m) :
    delivered (r.ingest source bytes).1 = some m ∧ (m.toAddr = r.selfAddr ∨ m.isBroadcast = true) := by
  have hc : (r.ingest source bytes).1 = .ok (.complete m) := by
    rw [bridgeStep] at h
    split at h
    · cases h
    · rename_i msg r' hin
      have hmsg : msg = m := by split at h <;> exact Option.some.inj h
      rw [hin, hmsg]
    · cases h
    · cases h
  have hdel : delivered (r.ingest source bytes).1 = some m := by rw [hc]; rfl
  refine ⟨hdel, ?_⟩
  rw [r.direct_of_delivered hdel, direct] at hc
  split at hc
  · assumption
  · cases hc

end Relay

namespace Bridge

variable {NR NA NF : Nat}

theorem uiIn_enqueue (fs : List PlannedFrame) (b : Bridge NR NA NF) : (fs.foldl enqueue b).uiIn = b.uiIn := by
  induction fs generalizing b with
  | nil => rfl
  | cons f fs ih =>
    rw [List.foldl_cons, ih]
    obtain ⟨t, addr, m⟩ := f
    cases t <;> rfl

theorem uiIn_fanoutForward (b : Bridge NR NA NF) (msg : Message) (skip : Transport) :
    (b.fanoutForward msg skip).uiIn = b.uiIn := by
  rw [fanoutForward, fanoutTargets_eq]
  exact uiIn_enqueue ..

/-- A line, if there is one, is put into `UI_IN`. -/
def offer (q : HVec DisplayLine 8) (line : Option DisplayLine) : HVec DisplayLine 8 := line.elim q (trySend q)

theorem uiIn_turn (b : Bridge NR NA NF) (raw : RawFrame) :
    (b.turn raw).uiIn =
      offer b.uiIn ((b.relay.bridgeStep raw.source raw.bytes.toList).1.1.map DisplayLine.fromMessage) := by
  rw [turn, Relay.bridgeStep]
  cases b.relay.ingest raw.source raw.bytes.toList with
  | mk res r =>
    cases res with
    | error e => rfl
    | ok o =>
      cases o with
      | complete m =>
        dsimp only
        split
        · exact uiIn_fanoutForward ..
        · rfl
      | notForMe m => exact uiIn_fanoutForward ..
      | duplicate => rfl
      | buffered => rfl
      | dropped reason => rfl

theorem uiIn_sendLocalText (b : Bridge NR NA NF) (text : String) :
    (b.sendLocalText text).uiIn = offer b.uiIn
      ((Relay.plannedFrames (b.relay.planSend .text (asBytes text) .broadcast).1).head?.map fun f =>
        .fromMessage f.message) := by
  rw [sendLocalText]
  cases b.relay.planSend .text (asBytes text) .broadcast with
  | mk res r =>
    cases res with
    | error e => rfl
    | ok plan =>
      dsimp only [Relay.plannedFrames]
      rw [uiIn_enqueue]
      cases plan.toList.head? <;> rfl

theorem uiIn_uplinkFrame (b : Bridge NR NA NF) (text : String) : (b.uplinkFrame text).2.uiIn = b.uiIn := by
  rw [uplinkFrame]
  dsimp only
  split
  · rfl
  · split
    · rfl
    · split <;> rfl

end Bridge

namespace Card

variable {NR NA NF : Nat}

/-- The line that a step has for the display. -/
def lineOf (c : Card NR NA NF) : Event → Option DisplayLine
  | .compose text =>
    (Relay.plannedFrames (c.bridge.relay.planSend .text (asBytes text) .broadcast).1).head?.map fun f =>
      .fromMessage f.message
  | .bridge => match c.inbound.take with
    | none => none
    | some (raw, _) => (c.bridge.relay.bridgeStep raw.source raw.bytes.toList).1.1.map DisplayLine.fromMessage
  | _ => none

def shownIn (es : List Effect) : List DisplayLine :=
  es.filterMap fun
    | .shown line => some line
    | _ => none

/-- A step puts its line into `UI_IN`; only the display takes one out. -/
theorem uiIn_step (c : Card NR NA NF) (e : Event) :
    (shownIn (c.step e).1 = [] ∧ (c.step e).2.bridge.uiIn = Bridge.offer c.bridge.uiIn (c.lineOf e)) ∨
      ∃ line, shownIn (c.step e).1 = [line] ∧ c.lineOf e = none ∧
        c.bridge.uiIn.toList = line :: (c.step e).2.bridge.uiIn.toList := by
  have hqueues (fs : List PlannedFrame) : shownIn (enqueued fs c.bridge) = [] :=
    List.filterMap_eq_nil_iff.mpr fun x hx => by
      rcases enqueued_cases hx with ⟨f, -, rfl⟩ | ⟨f, -, rfl, -⟩ <;> rfl
  have hreceive (t : Transport) (data : List UInt8) :
      shownIn (c.receive t data).1 = [] ∧ (c.receive t data).2.bridge.uiIn = c.bridge.uiIn := by
    rw [receive]
    split
    · exact ⟨rfl, rfl⟩
    · split <;> exact ⟨rfl, rfl⟩
  cases e with
  | loraRx data => exact .inl (hreceive .lora data)
  | espnowRx data => exact .inl (hreceive .espNow data)
  | uplink payload =>
    refine .inl ?_
    have hui := c.bridge.uiIn_uplinkFrame ((fromUtf8 payload).getD "<binary>")
    rw [step]
    split
    · exact ⟨rfl, rfl⟩
    · split
      · rename_i bridge hu
        rw [hu] at hui
        exact ⟨rfl, hui⟩
      · rename_i raw bridge hu
        rw [hu] at hui
        exact ⟨rfl, hui⟩
  | deposit t =>
    refine .inl ?_
    rw [step]
    split <;> exact ⟨rfl, rfl⟩
  | bridge =>
    refine .inl ?_
    rw [step, lineOf]
    cases c.inbound.take with
    | none => exact ⟨rfl, rfl⟩
    | some x => exact ⟨hqueues _, Bridge.uiIn_turn ..⟩
  | transmit t =>
    refine .inl ?_
    rw [step]
    split
    · exact ⟨rfl, rfl⟩
    · split
      · exact ⟨rfl, rfl⟩
      · rename_i f bridge hd
        refine ⟨rfl, ?_⟩
        cases t <;>
        · obtain ⟨x, -, heq⟩ := Option.map_eq_some_iff.mp hd
          cases heq
          rfl
  | compose text => exact .inl ⟨hqueues _, Bridge.uiIn_sendLocalText ..⟩
  | display =>
    rw [step]
    split
    · exact .inl ⟨rfl, rfl⟩
    · rename_i line uiIn hp
      exact .inr ⟨line, rfl, rfl, HVec.popFront_eq_some.mp hp⟩

/-- The line is of a text that was typed here, or of a message that was heard and is
for this terminal. -/
def Reported (events : List Event) (line : DisplayLine) : Prop :=
  ∃ m, line = .fromMessage m ∧
    ((∃ f, Composed events f ∧ m = f.message) ∨
      (m.toAddr = CARD_ADDR ∨ m.isBroadcast = true) ∧
        ∃ history last, (∀ y ∈ history, External events y) ∧ HandedOver history last m)

theorem Reported.mono {events : List Event} {line : DisplayLine} (h : Reported events line) (e : Event) :
    Reported (events ++ [e]) line := by
  have hsub := List.subset_append_left events [e]
  obtain ⟨m, hline, ⟨f, ⟨ha, text, id, g, p, hc, hp, hm⟩, hf⟩ | ⟨hto, history, last, hext, hover⟩⟩ := h
  · exact ⟨m, hline, .inl ⟨f, ⟨ha, text, id, g, p, hsub hc, hp, hm⟩, hf⟩⟩
  · exact ⟨m, hline, .inr ⟨hto, history, last, fun y hy => (hext y hy).mono hsub, hover⟩⟩

theorem Accountable.reported {events : List Event} {es : List Effect} {c : Card NR NA NF} (h : Accountable events es c)
    {e : Event} {line : DisplayLine} (hl : c.lineOf e = some line) : Reported (events ++ [e]) line := by
  cases e with
  | compose text =>
    obtain ⟨f, hf, rfl⟩ := Option.map_eq_some_iff.mp hl
    exact ⟨f.message, rfl, .inl ⟨f, h.composed (List.mem_of_head? hf), rfl⟩⟩
  | bridge =>
    rw [lineOf] at hl
    cases htake : c.inbound.take with
    | none =>
      rw [htake] at hl
      cases hl
    | some x =>
      rw [htake] at hl
      obtain ⟨m, hm, rfl⟩ := Option.map_eq_some_iff.mp hl
      obtain ⟨hdel, hto⟩ := Relay.shown_bridgeStep hm
      obtain ⟨history, last, hext, hover, -⟩ := h.handedOver (h.taken htake) hdel
      rw [h.selfAddr] at hto
      exact Reported.mono ⟨m, rfl, .inr ⟨hto, history, last, hext, hover⟩⟩ .bridge
  | _ => cases hl

/-- A step, with the line that it has for the display. -/
def watch (c : Card NR NA NF) (e : Event) : (Option DisplayLine × List Effect) × Card NR NA NF :=
  ((c.lineOf e, (c.step e).1), (c.step e).2)

theorem offer_sublist (q : HVec DisplayLine 8) (line : Option DisplayLine) :
    (Bridge.offer q line).toList.Sublist (q.toList ++ line.toList) := by
  cases line with
  | none => exact List.sublist_append_left ..
  | some line =>
    show ((q.push line).getD q).toList.Sublist (q.toList ++ [line])
    cases hp : q.push line with
    | none => exact List.sublist_append_left ..
    | some q' => rw [Option.getD_some, HVec.push_eq_some.mp hp]

/-- What holds after a run: the lines that were shown or wait are some of those there
were for the display, and these are accounted for. -/
structure Ordered (events : List Event) (os : List (Option DisplayLine × List Effect)) (c : Card NR NA NF) : Prop where
  accountable : Accountable events (os.flatMap (·.2)) c
  sublist : (os.flatMap (fun o => shownIn o.2) ++ c.bridge.uiIn.toList).Sublist (os.map (·.1)).reduceOption
  reported : ∀ line ∈ (os.map (·.1)).reduceOption, Reported events line

theorem Ordered.step {events : List Event} {os : List (Option DisplayLine × List Effect)} {c : Card NR NA NF}
    (h : Ordered events os c) (e : Event) : Ordered (events ++ [e]) (os ++ [(c.watch e).1]) (c.watch e).2 := by
  have hoffered : ((os ++ [(c.watch e).1]).map (·.1)).reduceOption =
      (os.map (·.1)).reduceOption ++ (c.lineOf e).toList := by
    rw [List.map_append, List.reduceOption_append]
    show _ ++ [c.lineOf e].reduceOption = _
    cases c.lineOf e <;> rfl
  refine ⟨?_, ?_, fun line hline => ?_⟩
  · rw [List.flatMap_append, List.flatMap_singleton]
    exact h.accountable.step e
  · rw [hoffered, List.flatMap_append, List.flatMap_singleton, List.append_assoc]
    show (_ ++ (shownIn (c.step e).1 ++ (c.step e).2.bridge.uiIn.toList)).Sublist _
    rcases c.uiIn_step e with ⟨hshown, hui⟩ | ⟨line, hshown, hnone, hui⟩
    · rw [hshown, hui, List.nil_append]
      refine ((offer_sublist c.bridge.uiIn (c.lineOf e)).append_left _).trans ?_
      rw [← List.append_assoc]
      exact h.sublist.append_right _
    · rw [hshown, hnone, Option.toList_none, List.append_nil, List.singleton_append, ← hui]
      exact h.sublist
  · rw [hoffered] at hline
    rcases List.mem_append.mp hline with hline | hline
    · exact (h.reported line hline).mono e
    · exact h.accountable.reported (Option.mem_toList.mp hline)

end Card

/-- In every run of the tasks, in any order, the lines that were taken for the
display, and after them those that wait in `UI_IN`, are some of those that the
steps had for it, in order and each once; a line is left out only where eight wait.
Each is of a text that was typed here, or of a message, whole or put together from
slices, that was heard and that is a broadcast or for this terminal. -/
theorem lines_accounted {NR NA NF : Nat} (events : List Card.Event) :
    let x := run Card.watch (Card.boot : Card NR NA NF) events
    let offered := (x.1.map (·.1)).reduceOption
    (x.1.flatMap (fun o => Card.shownIn o.2) ++ x.2.bridge.uiIn.toList).Sublist offered ∧
    (∀ line ∈ offered, Card.Reported events line) ∧
    ∀ e line, x.2.lineOf e = some line → x.2.bridge.uiIn.len < 8 →
      (x.2.step e).2.bridge.uiIn.toList = x.2.bridge.uiIn.toList ++ [line] := by
  intro x offered
  have h : Card.Ordered events x.1 x.2 :=
    @run_history _ _ _ Card.watch Card.Ordered (fun _ _ _ e h => h.step e) Card.boot
      ⟨Card.boot_accountable, .slnil, nofun⟩ events
  refine ⟨h.sublist, h.reported, fun e line hline hroom => ?_⟩
  rcases x.2.uiIn_step e with ⟨-, hui⟩ | ⟨-, -, hnone, -⟩
  · rw [hui, hline]
    show ((x.2.bridge.uiIn.push line).getD _).toList = _
    cases hp : x.2.bridge.uiIn.push line with
    | none =>
      rw [HVec.push_eq, HVec.extendFromSlice_eq_none, List.length_append, List.length_singleton] at hp
      rw [HVec.len] at hroom
      omega
    | some q => exact HVec.push_eq_some.mp hp
  · rw [hnone] at hline
    cases hline

end RelayStar
