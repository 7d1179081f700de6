import RelayStar.Framework.Machine
import RelayStar.Impl.LoraLoop
import RelayStar.Proof.Proto

/-!
# Turns of the LoRa radio

The calls that reach the driver of a radio are recorded (`Tap`). In any run of the
loop of the firmware, and of calls of `SxLoraPort`, the radio is only asked for what
it is ready for (`Follows`), and each frame goes to it once: those of the queue in
order (`lora_loop_turns`), and those of the calls of the port (`lora_port_turns`).
The port leaves the radio awake where a transmission fails, and the loop does not.
-/

namespace RelayStar

namespace Lora

/-- A call of the radio, with what came of it. -/
inductive Call where
  | prepareForRx (ok : Bool)
  | rx (data : Option (List UInt8))
  | prepareForTx (frame : List UInt8) (ok : Bool)
  | tx (ok : Bool)
  | sleep
deriving DecidableEq

/-- A radio with the calls it got. -/
structure Tap (L : Type) where
  lora : L
  calls : List Call

variable {L : Type} [LoraReceiver L]

instance : LoraReceiver (Tap L) where
  RadioError := LoraPhy.RadioError L
  prepareForTx t frame :=
    ((LoraPhy.prepareForTx t.lora frame).1,
      ⟨(LoraPhy.prepareForTx t.lora frame).2,
        t.calls ++ [.prepareForTx frame (LoraPhy.prepareForTx t.lora frame).1.isOk]⟩)
  tx t := ((LoraPhy.tx t.lora).1, ⟨(LoraPhy.tx t.lora).2, t.calls ++ [.tx (LoraPhy.tx t.lora).1.isOk]⟩)
  sleep t := ((LoraPhy.sleep t.lora).1, ⟨(LoraPhy.sleep t.lora).2, t.calls ++ [.sleep]⟩)
  prepareForRx t :=
    ((LoraReceiver.prepareForRx t.lora).1,
      ⟨(LoraReceiver.prepareForRx t.lora).2, t.calls ++ [.prepareForRx (LoraReceiver.prepareForRx t.lora).1.isOk]⟩)
  rx t :=
    ((LoraReceiver.rx t.lora).1,
      ⟨(LoraReceiver.rx t.lora).2, t.calls ++ [.rx (LoraReceiver.rx t.lora).1.toOption]⟩)

section Calls

variable {t t' : Tap L} {res : Except (LoraPhy.RadioError L) Unit}

theorem calls_prepareForRx (h : LoraReceiver.prepareForRx t = (res, t')) :
    t'.calls = t.calls ++ [.prepareForRx res.isOk] := by
  obtain rfl : (LoraReceiver.prepareForRx t).1 = res := congrArg Prod.fst h
  obtain rfl : (LoraReceiver.prepareForRx t).2 = t' := congrArg Prod.snd h
  rfl

theorem calls_rx {res : Except (LoraPhy.RadioError L) (List UInt8)} (h : LoraReceiver.rx t = (res, t')) :
    t'.calls = t.calls ++ [.rx res.toOption] := by
  obtain rfl : (LoraReceiver.rx t).1 = res := congrArg Prod.fst h
  obtain rfl : (LoraReceiver.rx t).2 = t' := congrArg Prod.snd h
  rfl

theorem calls_prepareForTx {frame : List UInt8} (h : LoraPhy.prepareForTx t frame = (res, t')) :
    t'.calls = t.calls ++ [.prepareForTx frame res.isOk] := by
  obtain rfl : (LoraPhy.prepareForTx t frame).1 = res := congrArg Prod.fst h
  obtain rfl : (LoraPhy.prepareForTx t frame).2 = t' := congrArg Prod.snd h
  rfl

theorem calls_tx (h : LoraPhy.tx t = (res, t')) : t'.calls = t.calls ++ [.tx res.isOk] := by
  obtain rfl : (LoraPhy.tx t).1 = res := congrArg Prod.fst h
  obtain rfl : (LoraPhy.tx t).2 = t' := congrArg Prod.snd h
  rfl

end Calls

/-- What the last call allows. Where `listens`, a transmission begins only when the
radio is ready to receive; after one whose outcome is in `rests`, the radio sleeps. -/
def Follows (listens : Bool) (rests : Bool → Bool) (last : Option Call) : Call → Prop
  | .prepareForRx _ => ∀ ok, last = some (.tx ok) → rests ok = false
  | .rx _ => last = some (.prepareForRx true)
  | .prepareForTx _ _ =>
    if listens then last = some (.prepareForRx true) else ∀ ok, last = some (.tx ok) → rests ok = false
  | .tx _ => ∃ frame, last = some (.prepareForTx frame true)
  | .sleep => ∃ ok, last = some (.tx ok) ∧ rests ok = true

/-- Each call is one that the last one allows. -/
def Turns (listens : Bool) (rests : Bool → Bool) (calls : List Call) : Prop :=
  Each (fun pre c => Follows listens rests pre.getLast? c) calls

section Turns

variable {listens : Bool} {rests : Bool → Bool} {calls : List Call} {frame : List UInt8}

/-- What was prepared is transmitted, or is not. -/
theorem Turns.tx (h : Turns listens rests (calls ++ [.prepareForTx frame true])) (ok : Bool) :
    Turns listens rests (calls ++ [.prepareForTx frame true, .tx ok]) := by
  rw [List.append_cons]
  exact .snoc h (show ∃ f, _ = _ from ⟨frame, List.getLast?_concat⟩)

theorem Turns.sleep (h : Turns listens rests (calls ++ [.prepareForTx frame true])) {ok : Bool} (hok : rests ok = true) :
    Turns listens rests (calls ++ [.prepareForTx frame true, .tx ok, .sleep]) := by
  have htx := h.tx ok
  rw [List.append_cons] at htx ⊢
  rw [List.append_cons]
  exact .snoc htx (show ∃ o, _ = _ ∧ _ from ⟨ok, List.getLast?_concat, hok⟩)

end Turns

/-- The frame that a call is to transmit. -/
def Call.prepared : Call → Option (List UInt8)
  | .prepareForTx frame _ => some frame
  | _ => none

/-- What a call received. -/
def Call.received : Call → Option (List UInt8)
  | .rx data => data
  | _ => none

/-- The frames for the relay of what was received: what is too long is none. -/
def heard (calls : List Call) : List (Transport × List UInt8) :=
  ((calls.filterMap Call.received).filter (·.length ≤ MAX_FRAME)).map (.lora, ·)

theorem heard_append (calls more : List Call) : heard (calls ++ more) = heard calls ++ heard more := by
  simp only [heard, List.filterMap_append, List.filter_append, List.map_append]

theorem heard_rx (bytes : HVec UInt8 MAX_FRAME) : heard [.rx (some bytes.toList)] = [(.lora, bytes.toList)] := by
  simp [heard, Call.received, bytes.length_le]

theorem heard_long {data : List UInt8} (h : MAX_FRAME < data.length) : heard [.rx (some data)] = [] := by
  simp [heard, Call.received, h]

/-! ## The loop -/

/-- The frame of a message that is put into the queue. -/
def queued : LoraLoop.Event → Option (List UInt8)
  | .outbound _ msg => some msg.wire
  | _ => none

/-- After some steps of the loop. -/
structure Looped (events : List LoraLoop.Event) (os : List (Option RawFrame)) (l : LoraLoop (Tap L)) : Prop where
  turns : Turns true (fun _ => true) l.lora.calls
  listening : l.listening = true → l.lora.calls.getLast? = some (.prepareForRx true)
  awake : ∀ ok, l.lora.calls.getLast? ≠ some (.tx ok)
  sent : l.lora.calls.filterMap Call.prepared ++ l.loraOut.map (·.2.wire) = events.filterMap queued
  received : (os.filterMap id).map (fun raw => (raw.source, raw.bytes.toList)) = heard l.lora.calls

variable {events : List LoraLoop.Event} {os : List (Option RawFrame)} {l : LoraLoop (Tap L)}

omit [LoraReceiver L] in
/-- A step with these further calls. -/
theorem Looped.more (h : Looped events os l) {e : LoraLoop.Event} {o : Option RawFrame} {l' : LoraLoop (Tap L)}
    {more : List Call} (hcalls : l'.lora.calls = l.lora.calls ++ more)
    (hturns : Turns true (fun _ => true) (l.lora.calls ++ more))
    (hlistening : l'.listening = true → (l.lora.calls ++ more).getLast? = some (.prepareForRx true))
    (hawake : ∀ ok, (l.lora.calls ++ more).getLast? ≠ some (.tx ok))
    (hsent : more.filterMap Call.prepared ++ l'.loraOut.map (·.2.wire) = l.loraOut.map (·.2.wire) ++ (queued e).toList)
    (hheard : o.toList.map (fun raw => (raw.source, raw.bytes.toList)) = heard more) :
    Looped (events ++ [e]) (os ++ [o]) l' := by
  refine ⟨hcalls ▸ hturns, hcalls ▸ hlistening, hcalls ▸ hawake, ?_, ?_⟩
  · rw [hcalls, List.filterMap_append, List.append_assoc, hsent, ← List.append_assoc, h.sent, List.filterMap_append]
    cases hq : queued e <;> simp [hq]
  · rw [hcalls, heard_append, ← h.received, ← hheard, List.filterMap_append, List.map_append]
    cases o <;> rfl

omit [LoraReceiver L] in
/-- Nothing is called. -/
theorem Looped.silent (h : Looped events os l) {e : LoraLoop.Event} {loraOut : List OutFrame}
    (hsent : loraOut.map (·.2.wire) = l.loraOut.map (·.2.wire) ++ (queued e).toList) :
    Looped (events ++ [e]) (os ++ [none]) { l with loraOut } := by
  have hcalls : l.lora.calls = l.lora.calls ++ [] := (List.append_nil _).symm
  exact h.more hcalls (hcalls ▸ h.turns) (hcalls ▸ h.listening) (hcalls ▸ h.awake) hsent rfl

theorem Looped.listen (h : Looped events os l) :
    Looped (events ++ [.listen]) (os ++ [(l.step .listen).1]) (l.step .listen).2 := by
  rw [LoraLoop.step]
  split
  · exact h.silent (List.append_nil _).symm
  · rename_i hoff
    have hprepare (ok : Bool) : Turns true (fun _ => true) (l.lora.calls ++ [.prepareForRx ok]) :=
      .snoc h.turns fun ok' hlast => absurd hlast (h.awake ok')
    split
    · rename_i hp
      exact h.more (calls_prepareForRx hp) (hprepare _) (fun hon => absurd hon hoff) (by simp)
        (List.append_nil _).symm rfl
    · rename_i hp
      exact h.more (calls_prepareForRx hp) (hprepare _) (fun _ => List.getLast?_concat) (by simp)
        (List.append_nil _).symm rfl

theorem Looped.receive (h : Looped events os l) :
    Looped (events ++ [.receive]) (os ++ [(l.step .receive).1]) (l.step .receive).2 := by
  rw [LoraLoop.step]
  split
  · exact h.silent (List.append_nil _).symm
  · rename_i hon
    rw [Bool.not_eq_true', Bool.not_eq_false] at hon
    have hrx (data : Option (List UInt8)) : Turns true (fun _ => true) (l.lora.calls ++ [.rx data]) :=
      .snoc h.turns (h.listening hon)
    split
    · rename_i hr
      exact h.more (calls_rx hr) (hrx _) (fun hoff => by cases hoff) (by simp) (List.append_nil _).symm rfl
    · rename_i data lora hr
      split
      · rename_i hlong
        rw [HVec.extendFromSlice_eq_none] at hlong
        exact h.more (calls_rx hr) (hrx _) (fun hoff => by cases hoff) (by simp) (List.append_nil _).symm
          (heard_long (by simpa using hlong)).symm
      · rename_i bytes hb
        have hdata : bytes.toList = data := by simpa using HVec.extendFromSlice_eq_some.mp hb
        exact h.more (calls_rx hr) (hrx _) (fun hoff => by cases hoff) (by simp) (List.append_nil _).symm
          (hdata ▸ (heard_rx bytes).symm)

theorem Looped.transmit (h : Looped events os l) :
    Looped (events ++ [.transmit]) (os ++ [(l.step .transmit).1]) (l.step .transmit).2 := by
  rw [LoraLoop.step]
  split
  · exact h.silent (List.append_nil _).symm
  · rename_i hon
    rw [Bool.not_eq_true', Bool.not_eq_false] at hon
    split
    · exact h.silent (List.append_nil _).symm
    · rename_i addr msg loraOut hout
      rw [msg.encode_max_frame]
      have hprepare (ok : Bool) : Turns true (fun _ => true) (l.lora.calls ++ [.prepareForTx msg.wire ok]) :=
        .snoc h.turns (h.listening hon)
      have htaken : msg.wire :: loraOut.map (·.2.wire) = l.loraOut.map (·.2.wire) ++ [] := by
        rw [hout]
        exact (List.append_nil _).symm
      dsimp only
      split
      · rename_i hp
        exact h.more (calls_prepareForTx hp) (hprepare _) (fun hoff => by cases hoff) (by simp) htaken rfl
      · rename_i lora hp
        have hready : lora.calls = l.lora.calls ++ [.prepareForTx msg.wire true] := calls_prepareForTx hp
        have hcalls : (LoraPhy.sleep (LoraPhy.tx lora).2).2.calls = l.lora.calls ++
            [.prepareForTx msg.wire true, .tx (LoraPhy.tx lora).1.isOk, .sleep] := by
          show lora.calls ++ [.tx _] ++ [.sleep] = _
          rw [hready]
          simp only [List.append_assoc, List.cons_append, List.nil_append]
          rfl
        exact h.more hcalls (Turns.sleep (hprepare true) rfl) (fun hoff => by cases hoff) (by simp) htaken rfl

theorem Looped.step (h : Looped events os l) (e : LoraLoop.Event) :
    Looped (events ++ [e]) (os ++ [(l.step e).1]) (l.step e).2 := by
  cases e with
  | outbound addr msg => exact h.silent (by simp [queued])
  | listen => exact h.listen
  | receive => exact h.receive
  | transmit => exact h.transmit

theorem looped_run (lora : L) (events : List LoraLoop.Event) :
    Looped events (run LoraLoop.step (⟨⟨lora, []⟩, [], false⟩ : LoraLoop (Tap L)) events).1
      (run LoraLoop.step (⟨⟨lora, []⟩, [], false⟩ : LoraLoop (Tap L)) events).2 :=
  @run_history _ _ _ LoraLoop.step Looped (fun _ _ _ e h => h.step e) ⟨⟨lora, []⟩, [], false⟩
    ⟨.nil, fun hon => (by cases hon), fun _ => (by simp), rfl, rfl⟩ events

/-! ## The port -/

/-- What a user of the port does; a reception can be given up while the radio waits
for a frame. -/
inductive Op where
  | listen
  | rxFrame
  | sendFrame (addr : FrameAddr) (frame : List UInt8)

/-- What comes of it. -/
inductive Result where
  | listening
  | received (res : Except PortError (List UInt8))
  | sent (frame : List UInt8) (res : Except PortError Unit)

def portStep (p : SxLoraPort (Tap L)) : Op → Result × SxLoraPort (Tap L)
  | .listen => (.listening, ⟨(LoraReceiver.prepareForRx p.lora).2⟩)
  | .rxFrame => (.received p.rxFrame.1, p.rxFrame.2)
  | .sendFrame addr frame =>
    (.sent frame (TransportPort.sendFrame p addr frame).1, (TransportPort.sendFrame p addr frame).2)

/-- The frame of a call of the port. -/
def Result.frame : Result → Option (List UInt8)
  | .sent frame _ => some frame
  | _ => none

/-- What a call of the port received. -/
def Result.data : Result → Option (List UInt8)
  | .received res => res.toOption
  | _ => none

/-- The port says that the frame was transmitted. -/
def Result.isSent : Result → Bool
  | .sent _ res => res.isOk
  | _ => false

/-- After some calls of the port. -/
structure Ported (os : List Result) (p : SxLoraPort (Tap L)) : Prop where
  turns : Turns false id p.lora.calls
  awake : p.lora.calls.getLast? ≠ some (.tx true)
  sent : p.lora.calls.filterMap Call.prepared = os.filterMap Result.frame
  received : p.lora.calls.filterMap Call.received = os.filterMap Result.data
  transmitted : p.lora.calls.count (.tx true) = os.countP Result.isSent

variable {rs : List Result} {p p' : SxLoraPort (Tap L)}

omit [LoraReceiver L] in
/-- The radio may get ready for something else. -/
theorem Ported.allowed (h : Ported rs p) : ∀ ok, p.lora.calls.getLast? = some (.tx ok) → id ok = false := by
  intro ok hok
  cases ok with
  | false => rfl
  | true => exact absurd hok h.awake

omit [LoraReceiver L] in
/-- A call of the port with these calls of the radio. -/
theorem Ported.more (h : Ported rs p) {o : Result} {more : List Call} (hcalls : p'.lora.calls = p.lora.calls ++ more)
    (hturns : Turns false id (p.lora.calls ++ more)) (hawake : (p.lora.calls ++ more).getLast? ≠ some (.tx true))
    (hsent : more.filterMap Call.prepared = o.frame.toList) (hreceived : more.filterMap Call.received = o.data.toList)
    (htransmitted : more.count (.tx true) = o.isSent.toNat) : Ported (rs ++ [o]) p' := by
  refine ⟨hcalls ▸ hturns, hcalls ▸ hawake, ?_, ?_, ?_⟩
  · rw [hcalls, List.filterMap_append, h.sent, hsent, List.filterMap_append]
    cases hf : o.frame <;> simp [hf]
  · rw [hcalls, List.filterMap_append, h.received, hreceived, List.filterMap_append]
    cases hd : o.data <;> simp [hd]
  · rw [hcalls, List.count_append, h.transmitted, htransmitted, List.countP_append]
    cases hs : o.isSent <;> simp [hs]

theorem Ported.step (h : Ported rs p) (op : Op) : Ported (rs ++ [(portStep p op).1]) (portStep p op).2 := by
  have hlisten (ok : Bool) : Turns false id (p.lora.calls ++ [.prepareForRx ok]) := .snoc h.turns h.allowed
  have hprepare (frame : List UInt8) (ok : Bool) : Turns false id (p.lora.calls ++ [.prepareForTx frame ok]) :=
    .snoc h.turns h.allowed
  cases op with
  | listen => exact h.more rfl (hlisten _) (by simp) rfl rfl rfl
  | rxFrame =>
    rw [portStep, SxLoraPort.rxFrame]
    split
    · rename_i hp
      exact h.more (calls_prepareForRx hp) (hlisten _) (by simp) rfl rfl rfl
    · rename_i lora hp
      have hready : lora.calls = p.lora.calls ++ [.prepareForRx true] := calls_prepareForRx hp
      have hrx (data : Option (List UInt8)) : Turns false id (p.lora.calls ++ [.prepareForRx true, .rx data]) := by
        rw [List.append_cons]
        exact .snoc (hlisten true) List.getLast?_concat
      split
      · rename_i hr
        exact h.more (by rw [calls_rx hr, hready, ← List.append_cons]) (hrx _) (by simp) rfl rfl rfl
      · rename_i hr
        exact h.more (by rw [calls_rx hr, hready, ← List.append_cons]) (hrx _) (by simp) rfl rfl rfl
  | sendFrame addr frame =>
    simp only [portStep, TransportPort.sendFrame]
    split
    · rename_i hp
      exact h.more (calls_prepareForTx hp) (hprepare frame _) (by simp) rfl rfl rfl
    · rename_i lora hp
      have hready : lora.calls = p.lora.calls ++ [.prepareForTx frame true] := calls_prepareForTx hp
      split
      · rename_i hx
        exact h.more (by rw [calls_tx hx, hready, ← List.append_cons]; rfl) (Turns.tx (hprepare frame true) false) (by simp) rfl
          rfl rfl
      · rename_i lora' hx
        have hcalls : (LoraPhy.sleep lora').2.calls = p.lora.calls ++ [.prepareForTx frame true, .tx true, .sleep] := by
          show lora'.calls ++ [.sleep] = _
          rw [calls_tx hx, hready]
          simp only [List.append_assoc, List.cons_append, List.nil_append]
          rfl
        exact h.more hcalls (Turns.sleep (hprepare frame true) rfl) (by simp) rfl rfl rfl

end Lora

/-- In any run of the loop of LoRa, from the start and with any radio: it receives
only when it has got ready to, begins to transmit only then, transmits only what was
prepared, and sleeps after each transmission, also one that fails; the messages of
the queue go to the radio in order and each once, while the others are still in it;
and what goes to the relay is what was received, in order and each once. -/
theorem lora_loop_turns {L : Type} [LoraReceiver L] (lora : L) (events : List LoraLoop.Event) :
    let out := run LoraLoop.step (⟨⟨lora, []⟩, [], false⟩ : LoraLoop (Lora.Tap L)) events
    let calls := out.2.lora.calls
    (∀ pre c post, calls = pre ++ c :: post → Lora.Follows true (fun _ => true) pre.getLast? c) ∧
    calls.filterMap Lora.Call.prepared ++ out.2.loraOut.map (·.2.wire) = events.filterMap Lora.queued ∧
    (out.1.filterMap id).map (fun raw => (raw.source, raw.bytes.toList)) = Lora.heard calls := by
  intro out calls
  have h : Lora.Looped events out.1 out.2 := Lora.looped_run lora events
  exact ⟨fun pre c post hc => h.turns.of_split hc, h.sent, h.received⟩

/-- In any run of calls of the port of LoRa, from the start and with any radio: it
receives only when it has got ready to, transmits only what was prepared, and sleeps
after each transmission that succeeds, and after no other; the frames of the calls go
to the radio in order and each once, and what the calls return is what was received;
and as many calls report success as there are transmissions that succeed. -/
theorem lora_port_turns {L : Type} [LoraReceiver L] (lora : L) (ops : List Lora.Op) :
    let out := run Lora.portStep (⟨⟨lora, []⟩⟩ : SxLoraPort (Lora.Tap L)) ops
    let calls := out.2.lora.calls
    (∀ pre c post, calls = pre ++ c :: post → Lora.Follows false id pre.getLast? c) ∧
    calls.filterMap Lora.Call.prepared = out.1.filterMap Lora.Result.frame ∧
    calls.filterMap Lora.Call.received = out.1.filterMap Lora.Result.data ∧
    calls.count (.tx true) = out.1.countP Lora.Result.isSent := by
  intro out calls
  have h : Lora.Ported out.1 out.2 :=
    @run_history _ _ _ Lora.portStep (fun _ rs p => Lora.Ported rs p) (fun _ _ _ op h => h.step op) ⟨⟨lora, []⟩⟩
      ⟨.nil, (by simp), rfl, rfl, rfl⟩ ops
  exact ⟨fun pre c post hc => h.turns.of_split hc, h.sent, h.received, h.transmitted⟩

end RelayStar
