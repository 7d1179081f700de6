import RelayStar.Framework.Recent
import RelayStar.Proof.Provenance
import RelayStar.Proof.SeenHistory
import RelayStar.Proof.Window

/-!
# What a relay has heard

What a relay makes of a frame depends on the messages it has received since it
was started, and their order. Its seen cache is the last 64 keys of those that
were news when they arrived (`news`), and every part in a slot is a slice that
was (`Remembers`, `run_remembers`).
-/

namespace RelayStar

/-- Of some messages, in the order of arrival, those whose key was not one of
the last 64 recorded. -/
def news (received : List Message) : List Message := fresh 64 Message.dedupKey [] received

/-- The keys that are known after some messages: the last 64 recorded. -/
def knownKeys (received : List Message) : List UInt32 := ((news received).map Message.dedupKey).rtake 64

theorem news_append (l l' : List Message) :
    news (l ++ l') = news l ++ fresh 64 Message.dedupKey ((news l).map Message.dedupKey) l' := by
  rw [news, fresh_append, List.nil_append]
  rfl

theorem news_singleton (l : List Message) (m : Message) :
    news (l ++ [m]) = if m.dedupKey ∈ knownKeys l then news l else news l ++ [m] := by
  rw [news_append, fresh_singleton, knownKeys]
  split
  · exact List.append_nil _
  · rfl

namespace Relay

variable {NR NA NF : Nat}

/-- The message of a frame, as it is handled. -/
def heard (source : Transport) (bytes : List UInt8) : List Message :=
  match Message.decode bytes with
  | .error _ => []
  | .ok m => [m.arrived source]

/-- The messages of a run, in the order of arrival. -/
def received (calls : List (Relay NR NA NF × Transport × List UInt8)) : List Message :=
  calls.flatMap fun c => heard c.2.1 c.2.2

theorem received_append (l l' : List (Relay NR NA NF × Transport × List UInt8)) :
    received (l ++ l') = received l ++ received l' := List.flatMap_append

theorem received_singleton (c : Relay NR NA NF × Transport × List UInt8) : received [c] = heard c.2.1 c.2.2 :=
  List.flatMap_singleton ..

theorem heard_ok {source : Transport} {bytes : List UInt8} {m : Message} (h : Message.decode bytes = .ok m) :
    heard source bytes = [m.arrived source] := by
  rw [heard, h]

theorem heard_error {source : Transport} {bytes : List UInt8} {e : ProtoError}
    (h : Message.decode bytes = .error e) : heard source bytes = [] := by
  rw [heard, h]

/-- A run that goes on. -/
theorem RunFor.trans {rows : Addr → Prop} {r₀ r r' : Relay NR NA NF}
    {calls calls' : List (Relay NR NA NF × Transport × List UInt8)} (h : RunFor rows r₀ calls r)
    (h' : RunFor rows r calls' r') : RunFor rows r₀ (calls ++ calls') r' := by
  induction h' with
  | start => rw [List.append_nil]; exact h
  | other _ hop ih => exact ih.other hop
  | ingest _ source frame ih => rw [← List.append_assoc]; exact ih.ingest source frame

/-- The relay remembers the messages of a history: in its cache the last keys
of those that were news, in its slots their slices. -/
structure Remembers (history : List Message) (r : Relay NR NA NF) : Prop where
  inv : r.reassembler.Inv
  window : r.seen.window =
    (((news history).map Message.dedupKey).reverse.map some ++ List.replicate 64 none).take 64
  sourced : Sourced (news history) r.reassembler.table

namespace Remembers

variable {r : Relay NR NA NF} {history : List Message}

theorem known_iff (h : Remembers history r) {k : UInt32} : some k ∈ r.seen.window ↔ k ∈ knownKeys history := by
  rw [h.window]
  exact SeenCache.mem_window_of_empty

theorem sameInbox (h : Remembers history r) {r' : Relay NR NA NF} (hr : SameInbox r r') : Remembers history r' where
  inv := hr.reassembler ▸ h.inv
  window := hr.seen ▸ h.window
  sourced := hr.reassembler ▸ h.sourced

theorem ingest (h : Remembers history r) (source : Transport) (frame : List UInt8) :
    Remembers (history ++ heard source frame) (r.ingest source frame).2 := by
  cases hd : Message.decode frame with
  | error e =>
    rw [heard_error hd, List.append_nil, r.ingest_error source hd]
    exact h
  | ok m =>
    rw [heard_ok hd]
    by_cases hk : some m.dedupKey ∈ r.seen.window
    · have hnews : news (history ++ [m.arrived source]) = news history := by
        rw [news_singleton, Message.dedupKey_arrived, if_pos (h.known_iff.mp hk)]
      rw [r.ingest_known source hd hk]
      exact ⟨h.inv, by rw [hnews]; exact h.window, by rw [hnews]; exact h.sourced⟩
    · have hnews : news (history ++ [m.arrived source]) = news history ++ [m.arrived source] := by
        rw [news_singleton, Message.dedupKey_arrived, if_neg (h.known_iff.not.mp hk)]
      rw [r.ingest_new source hd hk]
      refine ⟨Reassembler.ingest_inv h.inv _, ?_, ?_⟩
      · rw [hnews, SeenCache.window_insert, h.window, ← List.singleton_append, take_append_take, List.map_append,
          List.reverse_append]
        rfl
      · rw [hnews]
        exact (Reassembler.sourced_ingest h.inv h.sourced _).1

end Remembers

theorem remembers_new (selfAddr : Addr) (idBase : UInt32) : Remembers [] (new selfAddr idBase : Relay NR NA NF) where
  inv := Reassembler.inv_of_idle Reassembler.inFlight_new
  window := by
    rw [show (new selfAddr idBase : Relay NR NA NF).seen = .new from rfl, SeenCache.window_new]
    rfl
  sourced g p hp := by
    have hidle : (new selfAddr idBase : Relay NR NA NF).reassembler.inFlight = 0 := Reassembler.inFlight_new
    cases ((Reassembler.inFlight_eq_zero (Reassembler.inv_of_idle hidle)).mp hidle g).symm.trans hp

/-- A relay remembers what it has received since it was started. -/
theorem run_remembers {selfAddr : Addr} {idBase : UInt32} {r : Relay NR NA NF}
    {calls : List (Relay NR NA NF × Transport × List UInt8)} (h : Run (new selfAddr idBase) calls r) :
    Remembers (received calls) r := by
  induction h with
  | start => exact remembers_new selfAddr idBase
  | other _ hop ih => exact ih.sameInbox (op_sameInbox hop)
  | ingest _ source frame ih =>
    rw [received_append, received_singleton]
    exact ih.ingest source frame

end Relay

end RelayStar
