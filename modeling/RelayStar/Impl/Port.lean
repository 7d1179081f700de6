import RelayStar.Impl.Proto

/-!
# Errors and ports (`error.rs`, `port.rs`)
-/

namespace RelayStar

inductive PortError where
  | io
  | notReady
  | frameTooLarge
  | unsupportedAddr
deriving DecidableEq

inductive RelayError where
  | unknownReceiver
  | noSuchPort
  | noPortsRegistered
  | payloadUnfragmentable
  | protocol (e : ProtoError)
  | port (e : PortError)
  | receiverTableFull
  | reassemblyFailed
deriving DecidableEq

instance decidableEqExcept {ε α : Type} [DecidableEq ε] [DecidableEq α] : DecidableEq (Except ε α)
  | .ok a, .ok b => decidable_of_iff (a = b) ⟨congrArg _, Except.ok.inj⟩
  | .error e, .error e' => decidable_of_iff (e = e') ⟨congrArg _, Except.error.inj⟩
  | .ok _, .error _ => isFalse nofun
  | .error _, .ok _ => isFalse nofun

/-- The transport-native address of one frame. -/
inductive FrameAddr where
  | unicast (addr : Addr)
  | broadcast
deriving DecidableEq

/-- `matches_broadcast`, byte by byte. -/
def matchesBroadcast (addr : Addr) : Bool :=
  let bc := BROADCAST_ADDR
  addr[0] == bc[0] && addr[1] == bc[1] && addr[2] == bc[2] && addr[3] == bc[3] && addr[4] == bc[4] && addr[5] == bc[5]

/-- The address of frames for this address. -/
def FrameAddr.fromBytes (addr : Addr) : FrameAddr := if matchesBroadcast addr then broadcast else unicast addr

/-- A physical transport that sends encoded frames. The state of the port
after a send is the second component of `sendFrame`. -/
class TransportPort (P : Type) where
  transport : P → Transport
  sendFrame : P → FrameAddr → List UInt8 → Except PortError Unit × P

end RelayStar
