import RelayStar.Impl.Port

/-!
# The radio transports (`ports/lora.rs`, `ports/espnow.rs`)

LoRa is a shared medium: a frame is transmitted as it is, whatever its address
(`LoraPort` over any driver, `SxLoraPort` over the `lora-phy` crate). ESP-NOW
sends to registered peers only, so `EspNowPort` registers the address of a frame
before it sends it.
-/

namespace RelayStar

/-- A driver of a LoRa radio. -/
class LoraRadio (R : Type) where
  Error : Type
  transmit : R → List UInt8 → Except Error Unit × R

structure LoraPort (R : Type) where
  radio : R

instance {R : Type} [LoraRadio R] : TransportPort (LoraPort R) where
  transport _ := .lora
  sendFrame p _ frame := match LoraRadio.transmit p.radio frame with
    | (.error _, radio) => (.error .io, ⟨radio⟩)
    | (.ok (), radio) => (.ok (), ⟨radio⟩)

/-- The handle of `lora-phy`, with the parameters of the radio. -/
class LoraPhy (L : Type) where
  RadioError : Type
  prepareForTx : L → List UInt8 → Except RadioError Unit × L
  tx : L → Except RadioError Unit × L
  sleep : L → Except RadioError Unit × L

structure SxLoraPort (L : Type) where
  lora : L

instance {L : Type} [LoraPhy L] : TransportPort (SxLoraPort L) where
  transport _ := .lora
  sendFrame p _ frame := match LoraPhy.prepareForTx p.lora frame with
    | (.error _, lora) => (.error .io, ⟨lora⟩)
    | (.ok (), lora) => match LoraPhy.tx lora with
      | (.error _, lora) => (.error .io, ⟨lora⟩)
      | (.ok (), lora) => (.ok (), ⟨(LoraPhy.sleep lora).2⟩)

/-- The handle, with what it takes to receive. -/
class LoraReceiver (L : Type) extends LoraPhy L where
  prepareForRx : L → Except RadioError Unit × L
  rx : L → Except RadioError (List UInt8) × L

/-- Wait for a frame; what is told of its signal is left out. -/
def SxLoraPort.rxFrame {L : Type} [LoraReceiver L] (p : SxLoraPort L) : Except PortError (List UInt8) × SxLoraPort L :=
  match LoraReceiver.prepareForRx p.lora with
  | (.error _, lora) => (.error .io, ⟨lora⟩)
  | (.ok (), lora) => match LoraReceiver.rx lora with
    | (.error _, lora) => (.error .io, ⟨lora⟩)
    | (.ok data, lora) => (.ok data, ⟨lora⟩)

/-- A driver of an ESP-NOW radio. -/
class EspNowRadio (R : Type) where
  Error : Type
  sendTo : R → Addr → List UInt8 → Except Error Unit × R
  addPeer : R → Addr → Except Error Unit × R
  peerExists : R → Addr → Bool

structure EspNowPort (R : Type) where
  radio : R

namespace EspNowPort

variable {R : Type} [EspNowRadio R]

/-- Register a peer, if it is none. -/
def ensurePeer (p : EspNowPort R) (mac : Addr) : Except PortError Unit × EspNowPort R :=
  if EspNowRadio.peerExists p.radio mac then (.ok (), p)
  else match EspNowRadio.addPeer p.radio mac with
  | (.error _, radio) => (.error .unsupportedAddr, ⟨radio⟩)
  | (.ok (), radio) => (.ok (), ⟨radio⟩)

/-- Send to a registered peer. -/
def sendTo (p : EspNowPort R) (mac : Addr) (frame : List UInt8) : Except PortError Unit × EspNowPort R :=
  match EspNowRadio.sendTo p.radio mac frame with
  | (.error _, radio) => (.error .io, ⟨radio⟩)
  | (.ok (), radio) => (.ok (), ⟨radio⟩)

instance : TransportPort (EspNowPort R) where
  transport _ := .espNow
  sendFrame p addr frame :=
    let mac := match addr with
      | .unicast a => a
      | .broadcast => BROADCAST_ADDR
    if !EspNowRadio.peerExists p.radio mac then
      match EspNowRadio.addPeer p.radio mac with
      | (.error _, radio) => (.error .unsupportedAddr, ⟨radio⟩)
      | (.ok (), radio) => sendTo ⟨radio⟩ mac frame
    else sendTo p mac frame

end EspNowPort

end RelayStar
