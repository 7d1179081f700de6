import RelayStar.Impl.Card
import RelayStar.Impl.RadioPort

/-!
# The loop of ESP-NOW (firmware `espnow.rs`)

Whoever is heard and whoever is to be sent to is registered as a peer. The loop
does not look at whether that, or sending, fails.
-/

namespace RelayStar

structure EspNowLoop (R : Type) where
  radio : R

namespace EspNowLoop

variable {R : Type} [EspNowRadio R]

inductive Event where
  | receive (src : Addr) (data : List UInt8)
  /-- A message from the queue. -/
  | transmit (addr : FrameAddr) (msg : Message)

/-- Before the loop. -/
def start (radio : R) : EspNowLoop R := ⟨(EspNowRadio.addPeer radio BROADCAST_ADDR).2⟩

/-- Register a peer that is none. -/
def register (l : EspNowLoop R) (mac : Addr) : EspNowLoop R :=
  if mac ≠ BROADCAST_ADDR ∧ !EspNowRadio.peerExists l.radio mac then ⟨(EspNowRadio.addPeer l.radio mac).2⟩ else l

/-- One round: the frame for `INBOUND_RAW`, if there is one. -/
def step (l : EspNowLoop R) : Event → Option RawFrame × EspNowLoop R
  | .receive src data =>
    let l := l.register src
    match (HVec.empty : HVec UInt8 MAX_FRAME).extendFromSlice data with
    | none => (none, l)
    | some bytes => (some ⟨.espNow, bytes⟩, l)
  | .transmit addr msg =>
    let targetMac := match addr with
      | .unicast a => a
      | .broadcast => BROADCAST_ADDR
    let l := l.register targetMac
    match msg.encode MAX_FRAME with
    | .ok encoded => (none, ⟨(EspNowRadio.sendTo l.radio targetMac encoded).2⟩)
    | .error _ => (none, l)

end EspNowLoop

end RelayStar
