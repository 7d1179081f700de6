import RelayStar.Framework.Parts
import RelayStar.Impl.Fragment

/-!
# What the reassembler is for

A reassembler maps groups to the parts of a message received so far. It has
room for a bounded number of groups; a slice of a group it knows is added to
that group, a slice of a new group starts one if there is room, and when a
group has all its parts it is delivered and forgotten. Slots, bit masks and
counters do not occur here.
-/

namespace RelayStar.Spec

/-- A group: its id and its number of slices. -/
abbrev GroupKey := UInt32 × UInt16

/-- A message received in part: its header, and the payloads of the slices. -/
structure Partial where
  template : Message
  slices : Parts Payload

namespace Partial

/-- A group of which nothing has arrived, with the header of `m`. -/
def start (m : Message) : Partial := ⟨{ m with payload := .empty, frag := none }, .none⟩

def add (p : Partial) (k : Nat) (a : Payload) : Partial := ⟨p.template, p.slices.insert k a⟩

/-- The payloads of the first `n` slices, one after the other. -/
def payload (p : Partial) (n : Nat) : List UInt8 := ((p.slices.gather n).map HVec.toList).flatten

/-- All parts are there: the message, if it is not too large. -/
def deliver (p : Partial) (n : Nat) : ReassembleOutcome :=
  if h : (p.payload n).length ≤ MAX_PAYLOAD then
    .complete { p.template with payload := ⟨p.payload n, h⟩, frag := none }
  else .dropped .payloadTooLarge

end Partial

/-- The groups being assembled. -/
abbrev Table := GroupKey → Option Partial

/-- The headers a reassembler accepts. -/
def HeaderOk (PER_SLOT : Nat) (f : Fragment) : Prop :=
  f.total ≠ 0 ∧ f.seq < f.total ∧ f.total.toNat ≤ PER_SLOT ∧ f.total ≤ 64

def key (f : Fragment) : GroupKey := (f.groupId, f.total)

/-! ## Groups -/

/-- A message cut into slices: the header they share, and their payloads, which
together fit one message. -/
structure Group where
  groupId : UInt32
  header : Message
  slices : List Payload
  length_le : (slices.map HVec.toList).flatten.length ≤ MAX_PAYLOAD

namespace Group

/-- The key of the group, which all its slices name. -/
def key (g : Group) : GroupKey := (g.groupId, UInt16.ofNat g.slices.length)

/-- The fragment header of slice `k`. -/
def fragment (g : Group) (k : Nat) : Fragment := ⟨g.groupId, UInt16.ofNat k, UInt16.ofNat g.slices.length⟩

/-- Slice `k`. -/
def frame (g : Group) (k : Nat) : Message :=
  { g.header with payload := g.slices[k]?.getD .empty, frag := some (g.fragment k) }

def frames (g : Group) : List Message := (List.range g.slices.length).map g.frame

/-- The message that was cut. -/
def whole (g : Group) : Message :=
  { g.header with payload := ⟨(g.slices.map HVec.toList).flatten, g.length_le⟩, frag := none }

end Group

/-! ## The table -/

namespace Table

/-- Slice `f` of `m` joins the parts `p` of its group. -/
def join (T : Table) (f : Fragment) (m : Message) (p : Partial) : ReassembleOutcome × Table :=
  let q := p.add f.seq.toNat m.payload
  if ∀ k < f.total.toNat, q.slices k ≠ none then
    (q.deliver f.total.toNat, Function.update T (key f) none)
  else (.buffered, Function.update T (key f) (some q))

/-- Of a slice that joins a group only the payload matters. -/
theorem join_congr (T : Table) (f : Fragment) {m m' : Message} (h : m.payload = m'.payload) (p : Partial) :
    T.join f m p = T.join f m' p := by
  simp only [join, h]

/-- What the table held of the group does not matter to `join`. -/
theorem join_update (T : Table) (f : Fragment) (m : Message) (p : Partial) (x : Option Partial) :
    join (Function.update T (key f) x) f m p = T.join f m p := by
  simp only [join, Function.update_idem]

/-- A slice with a valid header arrives; `room` says if a new group fits. -/
def offer (T : Table) (room : Bool) (f : Fragment) (m : Message) : ReassembleOutcome × Table :=
  match T (key f) with
  | none => if room then T.join f m (.start m) else (.dropped .noSlot, T)
  | some p => if p.slices f.seq.toNat = none then T.join f m p else (.dropped .duplicateSlice, T)

/-- A slice of a new group, when there is room. -/
theorem offer_of_none {T : Table} {room : Bool} {f : Fragment} (hT : T (key f) = none) (hr : room = true)
    (m : Message) : T.offer room f m = T.join f m (.start m) := by
  simp only [offer, hT, hr, if_true]

/-- A new slice of a known group. -/
theorem offer_of_some {T : Table} {f : Fragment} {p : Partial} (hT : T (key f) = some p)
    (hs : p.slices f.seq.toNat = none) (room : Bool) (m : Message) : T.offer room f m = T.join f m p := by
  simp only [offer, hT, hs, if_true]

/-- A slice is refused, or joins the parts of its group. -/
theorem offer_cases (T : Table) (room : Bool) (f : Fragment) (m : Message) :
    (∃ reason, T.offer room f m = (.dropped reason, T)) ∨
      ∃ p, (T (key f) = some p ∨ T (key f) = none ∧ p = .start m) ∧ p.slices f.seq.toNat = none ∧
        T.offer room f m = T.join f m p := by
  unfold offer
  cases hT : T (key f) with
  | none =>
    cases room with
    | false => exact Or.inl ⟨_, rfl⟩
    | true => exact Or.inr ⟨.start m, Or.inr ⟨rfl, rfl⟩, rfl, rfl⟩
  | some p =>
    by_cases hs : p.slices f.seq.toNat = none
    · exact Or.inr ⟨p, Or.inl rfl, hs, if_pos hs⟩
    · exact Or.inl ⟨_, if_neg hs⟩

/-- Nothing is passed through the table. -/
theorem offer_ne_passthrough (T : Table) (room : Bool) (f : Fragment) (m x : Message) :
    (T.offer room f m).1 ≠ .passthrough x := by
  have hjoin : ∀ p, (T.join f m p).1 ≠ .passthrough x := fun p => by
    rw [join]
    split
    · dsimp only
      unfold Partial.deliver
      split <;> exact fun h => by cases h
    · exact fun h => by cases h
  rcases T.offer_cases room f m with ⟨reason, h⟩ | ⟨p, -, -, h⟩
  · rw [h]; exact fun h => by cases h
  · rw [h]; exact hjoin p

/-- A slice of payload `a` is the last missing part of its group. -/
def Completes (T : Table) (f : Fragment) (a : Payload) : Prop :=
  ∃ p, T (key f) = some p ∧ p.slices f.seq.toNat = none ∧
    (∀ k < f.total.toNat, k ≠ f.seq.toNat → p.slices k ≠ none) ∧
    ((p.add f.seq.toNat a).payload f.total.toNat).length ≤ MAX_PAYLOAD

theorem add_full_iff {p : Partial} {n q : Nat} {a : Payload} :
    (∀ k < n, (p.add q a).slices k ≠ none) ↔ ∀ k < n, k ≠ q → p.slices k ≠ none := by
  apply forall_congr'
  intro k
  apply forall_congr'
  intro hk
  show p.slices.insert q a k ≠ none ↔ _
  by_cases h : k = q
  · rw [h, Parts.insert_self]
    exact ⟨fun _ h => absurd rfl h, fun _ => Option.some_ne_none a⟩
  · rw [Parts.insert_of_ne _ _ h]
    exact ⟨fun h _ => h, fun h' => h' h⟩

theorem deliver_complete_iff {p : Partial} {n : Nat} :
    (∃ x, p.deliver n = .complete x) ↔ (p.payload n).length ≤ MAX_PAYLOAD := by
  unfold Partial.deliver
  split
  · rename_i h; exact ⟨fun _ => h, fun _ => ⟨_, rfl⟩⟩
  · rename_i h; exact ⟨fun ⟨_, e⟩ => (by cases e), fun h' => absurd h' h⟩

/-- A slice of several delivers a message exactly when it completes its group. -/
theorem offer_complete_iff (T : Table) (room : Bool) {f : Fragment} (h2 : 2 ≤ f.total.toNat) (m : Message) :
    (∃ x, (T.offer room f m).1 = .complete x) ↔ T.Completes f m.payload := by
  rw [offer, Completes]
  cases hT : T (key f) with
  | none =>
    -- a group that begins lacks the other slices
    have hmore : ¬ ∀ k < f.total.toNat, ((Partial.start m).add f.seq.toNat m.payload).slices k ≠ none := by
      rw [add_full_iff]
      intro h
      by_cases h0 : f.seq.toNat = 0
      · exact h 1 h2 (by omega) rfl
      · exact h 0 (by omega) (Ne.symm h0) rfl
    refine ⟨fun h => ?_, fun ⟨p, hp, _⟩ => (by cases hp)⟩
    obtain ⟨x, hx⟩ := h
    cases room with
    | false => cases hx
    | true => simp only [if_true, join, if_neg hmore] at hx; cases hx
  | some p =>
    dsimp only
    by_cases hs : p.slices f.seq.toNat = none
    · rw [if_pos hs, join]
      by_cases hall : ∀ k < f.total.toNat, (p.add f.seq.toNat m.payload).slices k ≠ none
      · rw [if_pos hall, deliver_complete_iff]
        refine ⟨fun h => ⟨p, rfl, hs, add_full_iff.mp hall, h⟩, fun ⟨q, hq, _, _, h⟩ => ?_⟩
        cases hq
        exact h
      · rw [if_neg hall]
        refine ⟨fun ⟨_, e⟩ => (by cases e), fun ⟨q, hq, _, h, _⟩ => ?_⟩
        cases hq
        exact absurd (add_full_iff.mpr h) hall
    · rw [if_neg hs]
      refine ⟨fun ⟨_, e⟩ => (by cases e), fun ⟨q, hq, h, _⟩ => ?_⟩
      cases hq
      exact absurd h hs

end Table

end RelayStar.Spec
