import RelayStar.Proof.Ingest

/-!
# The dedup window over a run

The seen cache of a relay is the window of the last 64 keys it recorded
(`window_run`): a key that is recorded is known until 64 others are
(`duplicate_of_recorded`), and a key that is known was recorded by an earlier
call. So a call answers `Duplicate` only after a frame of the same key
(`duplicate_only_after_same_key`), and a frame that is dropped is recorded all
the same (`dropped_frame_recorded`).
-/

namespace RelayStar

/-- The call recorded a key. -/
def isNew : Except RelayError IngestOutcome → Bool
  | .ok .duplicate => false
  | .ok _ => true
  | .error _ => false

namespace Relay

variable {NR NA NF : Nat}

/-- Ingest the bytes of a frame. -/
def hear (r : Relay NR NA NF) (c : Transport × List UInt8) : Except RelayError IngestOutcome × Relay NR NA NF :=
  r.ingest c.1 c.2

theorem isNew_outcome (r : Relay NR NA NF) (o : ReassembleOutcome) : isNew (.ok (r.outcome o)) = true := by
  have := r.outcome_ne_duplicate o
  cases h : r.outcome o <;> first | rfl | exact absurd h this

variable (r : Relay NR NA NF) (c : Transport × List UInt8)

/-- A call records the key of its frame, or leaves the cache and the
reassembler alone. -/
theorem hear_cases :
    (isNew (r.hear c).1 = false ∧ delivered (r.hear c).1 = none ∧ (r.hear c).2.seen = r.seen ∧
        (r.hear c).2.reassembler = r.reassembler) ∨
      ∃ m, Message.decode c.2 = .ok m ∧ some m.dedupKey ∉ r.seen.window ∧
        (r.hear c).1 = .ok (r.outcome (r.reassembler.ingest (m.arrived c.1)).1) ∧
        (r.hear c).2.seen = r.seen.insert m.dedupKey ∧
        (r.hear c).2.reassembler = (r.reassembler.ingest (m.arrived c.1)).2 := by
  cases hd : Message.decode c.2 with
  | error e =>
    left
    rw [hear, r.ingest_error c.1 hd]
    exact ⟨rfl, rfl, rfl, rfl⟩
  | ok m =>
    by_cases hk : some m.dedupKey ∈ r.seen.window
    · left
      rw [hear, r.ingest_known c.1 hd hk]
      exact ⟨rfl, rfl, rfl, rfl⟩
    · right
      refine ⟨m, rfl, hk, ?_⟩
      rw [hear, r.ingest_new c.1 hd hk]
      exact ⟨rfl, rfl, rfl⟩

/-- A new frame is recorded in front of the window. -/
theorem hear_new {m : Message} (hd : Message.decode c.2 = .ok m) (h : isNew (r.hear c).1 = true) :
    some m.dedupKey ∉ r.seen.window ∧
      (r.hear c).2.seen.window = (some m.dedupKey :: r.seen.window).take 64 := by
  rcases r.hear_cases c with ⟨hn, -⟩ | ⟨m', hd', hk, -, hs, -⟩
  · rw [hn] at h; cases h
  · obtain rfl : m = m' := Except.ok.inj (hd.symm.trans hd')
    rw [hs, SeenCache.window_insert]
    exact ⟨hk, rfl⟩

/-- A run records one key for each new frame. -/
theorem window_run (l : List (Transport × List UInt8)) :
    ∃ keys : List UInt32, keys.length = (run hear r l).1.countP isNew ∧
      (run hear r l).2.seen.window = (keys.map some ++ r.seen.window).take 64 ∧
      ∀ k ∈ keys, ∃ c ∈ l, ∃ m, Message.decode c.2 = .ok m ∧ m.dedupKey = k := by
  induction l generalizing r with
  | nil =>
    refine ⟨[], rfl, ?_, fun k hk => by cases hk⟩
    rw [run_nil, List.map_nil, List.nil_append, List.take_of_length_le (Nat.le_of_eq r.seen.length_window)]
  | cons c l ih =>
    obtain ⟨keys, hlen, hwin, hmem⟩ := ih (r.hear c).2
    rw [run_cons, List.countP_cons]
    rcases r.hear_cases c with ⟨hn, -, hs, -⟩ | ⟨m, hd, -, ho, hs, -⟩
    · refine ⟨keys, by rw [hlen, hn]; rfl, by rw [hwin, hs], fun k hk => ?_⟩
      obtain ⟨c', hc', hk⟩ := hmem k hk
      exact ⟨c', List.mem_cons_of_mem _ hc', hk⟩
    · refine ⟨keys ++ [m.dedupKey], ?_, ?_, fun k hk => ?_⟩
      · rw [List.length_append, hlen, ho, isNew_outcome]; rfl
      · rw [hwin, hs, SeenCache.window_insert, take_append_take, List.map_append, List.append_assoc]
        rfl
      · rcases List.mem_append.mp hk with hk | hk
        · obtain ⟨c', hc', hk⟩ := hmem k hk
          exact ⟨c', List.mem_cons_of_mem _ hc', hk⟩
        · exact ⟨c, List.mem_cons_self, m, hd, (List.mem_singleton.mp hk).symm⟩

variable {r c}

/-- A recorded key is known until 64 others are recorded. -/
theorem mem_window_of_new {m : Message} (hd : Message.decode c.2 = .ok m) (h : isNew (r.hear c).1 = true)
    {l : List (Transport × List UInt8)} (hl : (run hear (r.hear c).2 l).1.countP isNew < 64) :
    some m.dedupKey ∈ (run hear (r.hear c).2 l).2.seen.window := by
  obtain ⟨keys, hlen, hwin, -⟩ := (r.hear c).2.window_run l
  rw [hwin, (r.hear_new c hd h).2, take_append_take, List.take_append, List.mem_append, List.length_map]
  obtain ⟨n, hn⟩ : ∃ n, 64 - keys.length = n + 1 := ⟨63 - keys.length, by omega⟩
  rw [hn, List.take_succ_cons]
  exact Or.inr List.mem_cons_self

/-- The answer to a frame of a recorded key. -/
theorem duplicate_of_recorded {m m' : Message} (hd : Message.decode c.2 = .ok m)
    (h : isNew (r.hear c).1 = true) {l : List (Transport × List UInt8)}
    (hl : (run hear (r.hear c).2 l).1.countP isNew < 64) {c' : Transport × List UInt8}
    (hd' : Message.decode c'.2 = .ok m') (hk : m'.dedupKey = m.dedupKey) :
    ((run hear (r.hear c).2 l).2.hear c').1 = .ok .duplicate := by
  have hw := mem_window_of_new hd h hl
  rw [← hk] at hw
  rw [hear, ingest_known _ c'.1 hd' hw]

end Relay

/-! ## Dropped frames -/

/-- A frame that the reassembler drops has its key recorded: the cache is not
what it was, and until 64 more keys are recorded every frame of that key is
answered `Duplicate`. -/
theorem dropped_frame_recorded {NR NA NF : Nat} (r : Relay NR NA NF) (source : Transport) (frame : List UInt8)
    (reason : RejectReason) (h : (r.ingest source frame).1 = .ok (.dropped reason)) :
    (r.ingest source frame).2.seen ≠ r.seen ∧
      ∃ m, Message.decode frame = .ok m ∧
        ∀ l c m', (run Relay.hear (r.ingest source frame).2 l).1.countP isNew < 64 →
          Message.decode c.2 = .ok m' → m'.dedupKey = m.dedupKey →
          ((run Relay.hear (r.ingest source frame).2 l).2.hear c).1 = .ok .duplicate := by
  have hnew : isNew (r.hear (source, frame)).1 = true := by rw [Relay.hear, h]; rfl
  rcases r.hear_cases (source, frame) with ⟨hn, -⟩ | ⟨m, hd, hk, -, -, -⟩
  · rw [hn] at hnew; cases hnew
  · refine ⟨fun hs => hk ?_, m, hd, fun l c m' hl hd' hkey => ?_⟩
    · have hw := Relay.mem_window_of_new hd hnew (l := [])
        (Nat.zero_lt_succ 63)
      rwa [run_nil, show (r.hear (source, frame)).2.seen = r.seen from hs] at hw
    · exact Relay.duplicate_of_recorded hd hnew hl hd' hkey

/-- A whole message. -/
def wholeFrame (id : UInt32) : Message :=
  ⟨id, 4, .lora, nodeAddr 9, BROADCAST_ADDR, .text, ⟨[7], by decide⟩, none⟩

/-- A frame with the fragment header `f`. -/
def sliceFrame (id : UInt32) (f : Fragment) : Message := { wholeFrame id with frag := some f }

theorem dropped_frame_recorded_badHeader :
    ((Relay.new (nodeAddr 2) 512 : Relay 1 1 2).ingest .lora (sliceFrame 7 ⟨1, 0, 0⟩).wire).2.seen ≠
        (Relay.new (nodeAddr 2) 512 : Relay 1 1 2).seen ∧
      ∃ m, Message.decode (sliceFrame 7 ⟨1, 0, 0⟩).wire = .ok m ∧ ∀ l c m',
        (run Relay.hear ((Relay.new (nodeAddr 2) 512 : Relay 1 1 2).ingest .lora
          (sliceFrame 7 ⟨1, 0, 0⟩).wire).2 l).1.countP isNew < 64 →
        Message.decode c.2 = .ok m' → m'.dedupKey = m.dedupKey →
        ((run Relay.hear ((Relay.new (nodeAddr 2) 512 : Relay 1 1 2).ingest .lora
          (sliceFrame 7 ⟨1, 0, 0⟩).wire).2 l).2.hear c).1 = .ok .duplicate :=
  dropped_frame_recorded _ .lora (sliceFrame 7 ⟨1, 0, 0⟩).wire .badHeader (by decide +kernel)

/-- A frame of a group of no slices is dropped, and then a message of the same
id is taken for a duplicate. -/
theorem dropped_frame_suppresses :
    let r : Relay 1 1 2 := .new (nodeAddr 2) 512
    (r.ingest .lora (sliceFrame 7 ⟨1, 0, 0⟩).wire).1 = .ok (.dropped .badHeader) ∧
      ((r.ingest .lora (sliceFrame 7 ⟨1, 0, 0⟩).wire).2.ingest .lora (wholeFrame 7).wire).1 = .ok .duplicate ∧
      (r.ingest .lora (wholeFrame 7).wire).1 = .ok (.complete (wholeFrame 7)) := by
  decide +kernel

/-! ## Duplicates -/

/-- A call of a run answers `Duplicate` only if an earlier call had a frame of
the same key, that is with the same id and slice, or with another of each. -/
theorem duplicate_only_after_same_key {NR NA NF : Nat} (selfAddr : Addr) (idBase : UInt32)
    (pre : List (Transport × List UInt8)) (c : Transport × List UInt8) (post : List (Transport × List UInt8))
    (h : (run Relay.hear (.new selfAddr idBase : Relay NR NA NF) (pre ++ c :: post)).1[pre.length]? =
      some (.ok .duplicate)) :
    ∃ m, Message.decode c.2 = .ok m ∧ ∃ c' ∈ pre, ∃ m', Message.decode c'.2 = .ok m' ∧
      m'.id ^^^ (m'.sliceIndex.toUInt32 <<< 16) = m.id ^^^ (m.sliceIndex.toUInt32 <<< 16) ∧
      (m'.id = m.id ↔ m'.sliceIndex = m.sliceIndex) := by
  rw [getElem?_run] at h
  have h := Option.some.inj h
  obtain ⟨keys, -, hwin, hmem⟩ := Relay.window_run (.new selfAddr idBase : Relay NR NA NF) pre
  cases hd : Message.decode c.2 with
  | error e =>
    rw [Relay.hear, Relay.ingest_error _ c.1 hd] at h
    cases h
  | ok m =>
    by_cases hk : some m.dedupKey ∈ (run Relay.hear (.new selfAddr idBase : Relay NR NA NF) pre).2.seen.window
    · rw [hwin] at hk
      rcases List.mem_append.mp (List.mem_of_mem_take hk) with hk | hk
      · obtain ⟨k, hk, e⟩ := List.mem_map.mp hk
        obtain ⟨c', hc', m', hd', hkey⟩ := hmem k hk
        have hkeys : m'.dedupKey = m.dedupKey := hkey.trans (Option.some.inj e)
        have heq := hkeys
        rw [Message.dedupKey_eq, Message.dedupKey_eq] at heq
        refine ⟨m, rfl, c', hc', m', hd', heq, fun hid => Message.dedupKey_inj hid hkeys, fun hs => ?_⟩
        · rw [hs] at heq
          exact (UInt32.xor_left_inj _).mp heq
      · rw [show (Relay.new selfAddr idBase : Relay NR NA NF).seen = .new from rfl, SeenCache.window_new] at hk
        cases (List.mem_replicate.mp hk).2
    · rw [Relay.hear, Relay.ingest_new _ c.1 hd hk] at h
      exact absurd (Except.ok.inj h) (Relay.outcome_ne_duplicate _ _)

theorem duplicate_only_after_same_key_twice :
    ∃ m, Message.decode (wholeFrame 7).wire = .ok m ∧ ∃ c' ∈ [(Transport.lora, (wholeFrame 7).wire)], ∃ m',
      Message.decode c'.2 = .ok m' ∧
      m'.id ^^^ (m'.sliceIndex.toUInt32 <<< 16) = m.id ^^^ (m.sliceIndex.toUInt32 <<< 16) ∧
      (m'.id = m.id ↔ m'.sliceIndex = m.sliceIndex) := by
  have h : (run Relay.hear (.new (nodeAddr 2) 512 : Relay 1 1 2)
      ([(.lora, (wholeFrame 7).wire)] ++ (.mqtt, (wholeFrame 7).wire) :: [])).1[
        [(Transport.lora, (wholeFrame 7).wire)].length]? = some (.ok .duplicate) := by decide +kernel
  exact duplicate_only_after_same_key _ _ _ _ _ h

/-- Slice 1 of one message suppresses another message. -/
theorem keys_collide :
    (run Relay.hear (.new (nodeAddr 2) 512 : Relay 1 1 2)
        [(.lora, (sliceFrame 0x01000000 ⟨1, 1, 2⟩).wire), (.lora, (wholeFrame 0x01010000).wire)]).1[1]? =
        some (.ok .duplicate) ∧
      Message.decode (sliceFrame 0x01000000 ⟨1, 1, 2⟩).wire = .ok (sliceFrame 0x01000000 ⟨1, 1, 2⟩) ∧
      Message.decode (wholeFrame 0x01010000).wire = .ok (wholeFrame 0x01010000) ∧
      (sliceFrame 0x01000000 ⟨1, 1, 2⟩).id ≠ (wholeFrame 0x01010000).id ∧
      (sliceFrame 0x01000000 ⟨1, 1, 2⟩).sliceIndex ≠ (wholeFrame 0x01010000).sliceIndex := by
  decide +kernel

end RelayStar
