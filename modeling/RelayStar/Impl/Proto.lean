import RelayStar.Framework.HVec
import RelayStar.Framework.Wire

/-!
# The wire protocol (crate `relaystar-proto`)

The message that travels over every transport (`Message`), its bytes
(`Message.encode`, `Message.decode`) and the cache of recently seen ids
(`SeenCache`). The bytes are those of the `postcard` serializer for the
derived implementations: the fields in order of declaration, `u32`, `u16`,
enumeration tags and sequence lengths as base-128 integers, `u8` and
`[u8; 6]` as they are, an option as a flag byte; the reader ignores what
follows the message. A sequence length is a 32-bit `usize`, that of the
firmware targets, and the reader of a `heapless` vector refuses more elements
than its capacity.
-/

namespace RelayStar

/-- Maximum application payload of one message. -/
def MAX_PAYLOAD : Nat := 200

/-- Size of the buffers frames are encoded into. -/
def MAX_FRAME : Nat := 255

/-- Hop budget of a new message. -/
def DEFAULT_TTL : UInt8 := 4

abbrev Addr := Vector UInt8 6

/-- The address of every reachable peer. -/
def BROADCAST_ADDR : Addr := #v[0xFF, 0xFF, 0xFF, 0xFF, 0xFF, 0xFF]

abbrev Payload := HVec UInt8 MAX_PAYLOAD

/-- The physical transport a message was seen on, or is to be sent over. -/
inductive Transport where
  | lora
  | mqtt
  | espNow
deriving DecidableEq

namespace Transport

def ALL : List Transport := [lora, mqtt, espNow]

/-- Maximum application payload of a single frame. -/
def maxPayload : Transport → Nat
  | lora => 180
  | espNow => 200
  | mqtt => 4096

end Transport

inductive MsgKind where
  | text
  | ping
  | pong
  | telemetry
deriving DecidableEq

/-- Header of a slice of a larger payload: `total` slices share `groupId`. -/
structure Fragment where
  groupId : UInt32
  seq : UInt16
  total : UInt16
deriving DecidableEq

/-- A message; `fromAddr` and `toAddr` are the fields `from` and `to`. -/
structure Message where
  id : UInt32
  ttl : UInt8
  origin : Transport
  fromAddr : Addr
  toAddr : Addr
  kind : MsgKind
  payload : Payload
  frag : Option Fragment
deriving DecidableEq

inductive ProtoError where
  | payloadTooLarge
  | bufferTooSmall
  | decode
deriving DecidableEq

/-! ## Bytes -/

/-- The bytes of a string. -/
def asBytes (s : String) : List UInt8 := s.toUTF8.data.toList

/-- The string of these bytes, if they are UTF-8. -/
def fromUtf8 (bytes : List UInt8) : Option String := String.fromUTF8? ⟨bytes.toArray⟩

namespace Wire

/-- `u32`: at most five bytes, the fifth at most 15. -/
def u32 : Wire UInt32 :=
  (varint 4 15 (by decide)).map (fun n => ⟨n.toNat, n.toNat_lt⟩) (fun n => some (UInt32.ofNat n))
    fun n => by simp only [UInt32.ofNat_toNat]

/-- `u16`: at most three bytes, the third at most 3. -/
def u16 : Wire UInt16 :=
  (varint 2 3 (by decide)).map (fun n => ⟨n.toNat, n.toNat_lt⟩) (fun n => some (UInt16.ofNat n))
    fun n => by simp only [UInt16.ofNat_toNat]

def addr : Wire Addr :=
  (rep byte 6).map (fun v => ⟨v.toList, v.length_toList⟩) (fun l => some ⟨l.1.toArray, l.2⟩)
    fun _ => rfl

/-- A length, then as many bytes; more than the capacity are refused. -/
def payload : Wire Payload :=
  (dep u32 fun n => rep byte n.toNat).map
    (fun v => ⟨UInt32.ofNat v.len, ⟨v.toList, by
      have := v.len_le
      simp only [MAX_PAYLOAD, HVec.len] at this
      simp only [HVec.len, UInt32.toNat_ofNat']; omega⟩⟩)
    (fun x => if h : x.2.1.length ≤ MAX_PAYLOAD then some ⟨x.2.1, h⟩ else none)
    fun v => by simp only [v.length_le, ↓reduceDIte]

def transport : Wire Transport :=
  u32.map (fun | .lora => 0 | .mqtt => 1 | .espNow => 2)
    (fun n => if n = 0 then some .lora else if n = 1 then some .mqtt
      else if n = 2 then some .espNow else none)
    fun t => by cases t <;> rfl

def msgKind : Wire MsgKind :=
  u32.map (fun | .text => 0 | .ping => 1 | .pong => 2 | .telemetry => 3)
    (fun n => if n = 0 then some .text else if n = 1 then some .ping
      else if n = 2 then some .pong else if n = 3 then some .telemetry else none)
    fun k => by cases k <;> rfl

def fragment : Wire Fragment :=
  (pair u32 (pair u16 u16)).map (fun f => (f.groupId, f.seq, f.total)) (fun x => some ⟨x.1, x.2.1, x.2.2⟩)
    fun _ => rfl

def message : Wire Message :=
  (pair u32 (pair byte (pair transport (pair addr (pair addr (pair msgKind
    (pair payload (option fragment)))))))).map
    (fun m => (m.id, m.ttl, m.origin, m.fromAddr, m.toAddr, m.kind, m.payload, m.frag))
    (fun ⟨id, ttl, origin, fromAddr, toAddr, kind, payload, frag⟩ =>
      some ⟨id, ttl, origin, fromAddr, toAddr, kind, payload, frag⟩)
    fun _ => rfl

end Wire

namespace Message

/-- A new message for `toAddr`, if the payload is not too large. -/
def unicast (id : UInt32) (origin : Transport) (fromAddr toAddr : Addr) (kind : MsgKind) (payload : List UInt8) :
    Except ProtoError Message :=
  match (HVec.empty : Payload).extendFromSlice payload with
  | none => .error .payloadTooLarge
  | some payload => .ok ⟨id, DEFAULT_TTL, origin, fromAddr, toAddr, kind, payload, none⟩

/-- A new broadcast. -/
def new (id : UInt32) (origin : Transport) (fromAddr : Addr) (kind : MsgKind) (payload : List UInt8) :
    Except ProtoError Message :=
  unicast id origin fromAddr BROADCAST_ADDR kind payload

/-- A new broadcast of a text. -/
def text (id : UInt32) (origin : Transport) (fromAddr : Addr) (text : String) : Except ProtoError Message :=
  new id origin fromAddr .text (asBytes text)

/-- The bytes of a message. -/
def wire (m : Message) : List UInt8 := Wire.message.put m

/-- Encode into a buffer of `n` bytes. -/
def encode (m : Message) (n : Nat) : Except ProtoError (List UInt8) :=
  if m.wire.length ≤ n then .ok m.wire else .error .bufferTooSmall

def decode (bytes : List UInt8) : Except ProtoError Message :=
  match Wire.message.take bytes with
  | some (m, _) => .ok m
  | none => .error .decode

def isBroadcast (m : Message) : Bool := m.toAddr = BROADCAST_ADDR

/-- The payload as text, if it is UTF-8. -/
def asText (m : Message) : Option String := fromUtf8 m.payload.toList

/-- The message to forward, with one hop less to go, if there is one. -/
def preparedForRelay (m : Message) : Option Message :=
  if m.ttl = 0 then none else some { m with ttl := m.ttl - 1 }

end Message

/-! ## Deduplication -/

/-- Ring of the ids seen most recently; `next` is the cell to write next. -/
structure SeenCache (N : Nat) where
  ids : Vector UInt32 N
  valid : Vector Bool N
  next : Fin N

namespace SeenCache

variable {N : Nat}

def new [NeZero N] : SeenCache N := ⟨Vector.replicate N 0, Vector.replicate N false, 0⟩

def contains (c : SeenCache N) (id : UInt32) : Bool :=
  (List.finRange N).any fun i => c.valid.get i && c.ids.get i == id

/-- Record `id` over the oldest entry. -/
def insert (c : SeenCache N) (id : UInt32) : SeenCache N where
  ids := c.ids.set c.next id
  valid := c.valid.set c.next true
  next := ⟨(c.next + 1) % N, Nat.mod_lt _ (Nat.lt_of_le_of_lt (Nat.zero_le _) c.next.isLt)⟩

/-- Whether `id` is new; a new id is recorded. -/
def checkAndInsert (c : SeenCache N) (id : UInt32) : Bool × SeenCache N :=
  if c.contains id then (false, c) else (true, c.insert id)

end SeenCache

end RelayStar
