import RelayStar.Framework.Decimal

/-!
# The address of the broker (firmware `mqtt.rs`)

The address and the port that `mqtt_loop` connects to are given at build time, as
texts. Without an address MQTT is disabled; the port is 1883 if it is none.
-/

namespace RelayStar

abbrev Ipv4Address := Vector UInt8 4

/-- The loop over the octets: the parts, and how many there were. -/
def parseOctets : List (List Char) → Ipv4Address → Nat → Option (Ipv4Address × Nat)
  | [], parts, i => some (parts, i)
  | octet :: octets, parts, i =>
    if h : i < 4 then
      match parseUnsigned 255 octet with
      | none => none
      | some n => parseOctets octets (parts.set i (UInt8.ofNat n)) (i + 1)
    else none

def parseIpv4 (s : String) : Option Ipv4Address :=
  match parseOctets (s.toList.splitOn '.') (Vector.replicate 4 0) 0 with
  | none => none
  | some (parts, i) => if i = 4 then some parts else none

/-- What the task connects to. -/
def brokerEndpoint (brokerIp brokerPort : String) : Option (Ipv4Address × UInt16) :=
  match parseIpv4 brokerIp with
  | none => none
  | some ip => some (ip, ((parseUnsigned 65535 brokerPort.toList).map UInt16.ofNat).getD 1883)

end RelayStar
