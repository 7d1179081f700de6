import RelayStar.Impl.Card
import RelayStar.Impl.RadioPort

/-!
# The loop of LoRa (firmware `lora.rs`)

The radio listens until it has received a frame or a message is in `LORA_OUT`; a
message ends the reception. Where the radio does not get ready to listen, the loop
pauses and tries again, and takes no message.
-/

namespace RelayStar

structure LoraLoop (L : Type) where
  lora : L
  loraOut : List OutFrame
  /-- The radio waits for a frame, and the loop for that or for a message. -/
  listening : Bool

namespace LoraLoop

variable {L : Type} [LoraReceiver L]

inductive Event where
  /-- The bridge puts a message into the queue. -/
  | outbound (addr : FrameAddr) (msg : Message)
  /-- The radio gets ready to listen, or does not. -/
  | listen
  /-- The radio is done with a reception. -/
  | receive
  /-- The loop takes a message from the queue. -/
  | transmit

/-- One step: the frame for `INBOUND_RAW`, if there is one. An event that the state
does not allow does nothing. -/
def step (l : LoraLoop L) : Event → Option RawFrame × LoraLoop L
  | .outbound addr msg => (none, { l with loraOut := l.loraOut ++ [(addr, msg)] })
  | .listen =>
    if l.listening then (none, l)
    else match LoraReceiver.prepareForRx l.lora with
    | (.error _, lora) => (none, { l with lora })
    | (.ok (), lora) => (none, { l with lora, listening := true })
  | .receive =>
    if !l.listening then (none, l)
    else match LoraReceiver.rx l.lora with
    | (.error _, lora) => (none, { l with lora, listening := false })
    | (.ok data, lora) => match (HVec.empty : HVec UInt8 MAX_FRAME).extendFromSlice data with
      | none => (none, { l with lora, listening := false })
      | some bytes => (some ⟨.lora, bytes⟩, { l with lora, listening := false })
  | .transmit =>
    if !l.listening then (none, l)
    else match l.loraOut with
    | [] => (none, l)
    | (_, msg) :: loraOut => match msg.encode MAX_FRAME with
      | .error _ => (none, { l with loraOut, listening := false })
      | .ok encoded => match LoraPhy.prepareForTx l.lora encoded with
        | (.error _, lora) => (none, ⟨lora, loraOut, false⟩)
        -- whether it was transmitted makes no difference
        | (.ok (), lora) => (none, ⟨(LoraPhy.sleep (LoraPhy.tx lora).2).2, loraOut, false⟩)

end LoraLoop

end RelayStar
