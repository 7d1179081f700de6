import RelayStar.Proof.Ingest
import RelayStar.Proof.Interleaving
import RelayStar.Proof.Planning

/-!
# Copies of one message

The frames of a message planned for several transports arrive at a relay: whole
copies, and the two slices of LoRa (`Copy`). A whole copy and slice 0 have one
key (`key0`), slice 1 has another (`key1`), so only the first frame of each key
reaches the reassembler, and what becomes of the message is decided by them: a
whole copy is delivered at once, and then slice 1 waits for ever
(`run_whole`); slice 0 is delivered with slice 1 (`run_slices`), and without it
never (`run_lost`).
-/

namespace RelayStar

namespace Message

/-- The frame is slice `k` of a split message. -/
def IsSlice (m : Message) (k : UInt16) : Prop := m.frag.map Fragment.seq = some k

instance (m : Message) (k : UInt16) : Decidable (m.IsSlice k) := by unfold IsSlice; infer_instance

/-- The key of a whole copy, and of slice 0. -/
def key0 (m : Message) : UInt32 := m.id

/-- The key of slice 1. -/
def key1 (m : Message) : UInt32 := m.id ^^^ ((1 : UInt16).toUInt32 <<< 16)

/-- The two slices of the message on LoRa. -/
def loraGroup (m : Message) (g : UInt32) : Spec.Group := halves { m with origin := .lora } g

theorem whole_loraGroup {m : Message} (hm : m.frag = none) (g : UInt32) :
    (m.loraGroup g).whole = { m with origin := .lora } := whole_halves hm

theorem length_loraGroup (m : Message) (g : UInt32) {n : Nat} (h : 2 ≤ n) :
    (m.loraGroup g).slices.length ≤ min n 64 := Nat.le_min.mpr ⟨h, (by decide : 2 ≤ 64)⟩

end Message

/-- A copy of `m`, as it is received: whole, or a slice of the group `g`. -/
inductive Copy (m : Message) (g : UInt32) : Transport × Message → Prop
  | whole (t : Transport) : Copy m g (t, { m with origin := t })
  | slice (k : Nat) (hk : k < 2) : Copy m g (.lora, (m.loraGroup g).frame k)

section Keys

variable {m : Message} {g : UInt32} {c : Transport × Message}

theorem key0_ne_key1 (m : Message) : m.key0 ≠ m.key1 := fun h => by
  have h : m.id ^^^ (0 : UInt32) = m.id ^^^ ((1 : UInt16).toUInt32 <<< 16) := by rw [UInt32.xor_zero]; exact h
  exact absurd ((UInt32.xor_right_inj _).mp h) (by decide)

theorem callKey_whole (hm : m.frag = none) (t : Transport) : callKey (t, { m with origin := t }) = m.key0 := by
  simp only [callKey, Message.dedupKey, hm, Message.key0]

theorem callKey_slice0 : callKey (.lora, (m.loraGroup g).frame 0) = m.key0 :=
  Message.dedupKey_of_zero rfl

theorem callKey_slice1 : callKey (.lora, (m.loraGroup g).frame 1) = m.key1 := rfl

theorem callKey_halves_ne {k : Nat} (hk : k < 2) (t t' : Transport) :
    callKey (t', (m.halves g).frame (1 - k)) ≠ callKey (t, (m.halves g).frame k) := by
  have h0 : ∀ t, callKey (t, (m.halves g).frame 0) = m.key0 := fun t => Message.dedupKey_of_zero rfl
  have h1 : ∀ t, callKey (t, (m.halves g).frame 1) = m.key1 := fun t => rfl
  rcases (by omega : k = 0 ∨ k = 1) with rfl | rfl
  · rw [h0, h1]; exact (key0_ne_key1 m).symm
  · rw [h0, h1]; exact key0_ne_key1 m

/-- Frames of the first key. -/
theorem Copy.of_key0 (h : Copy m g c) (hk : callKey c = m.key0) :
    c = (c.1, { m with origin := c.1 }) ∨ c = (.lora, (m.loraGroup g).frame 0) := by
  cases h with
  | whole t => exact Or.inl rfl
  | slice k hk2 =>
    rcases (by omega : k = 0 ∨ k = 1) with rfl | rfl
    · exact Or.inr rfl
    · exact absurd hk.symm (key0_ne_key1 m)

/-- Frames of the second key. -/
theorem Copy.of_key1 (hm : m.frag = none) (h : Copy m g c) (hk : callKey c = m.key1) :
    c = (.lora, (m.loraGroup g).frame 1) := by
  cases h with
  | whole t => exact absurd ((callKey_whole hm t).symm.trans hk) (key0_ne_key1 m)
  | slice k hk2 =>
    rcases (by omega : k = 0 ∨ k = 1) with rfl | rfl
    · exact absurd (callKey_slice0.symm.trans hk) (key0_ne_key1 m)
    · rfl

theorem Copy.key (hm : m.frag = none) (h : Copy m g c) : callKey c = m.key0 ∨ callKey c = m.key1 := by
  cases h with
  | whole t => exact Or.inl (callKey_whole hm t)
  | slice k hk2 =>
    rcases (by omega : k = 0 ∨ k = 1) with rfl | rfl
    · exact Or.inl callKey_slice0
    · exact Or.inr callKey_slice1

theorem Copy.isSlice0 (hm : m.frag = none) (h : Copy m g c) :
    c.2.IsSlice 0 ↔ c = (.lora, (m.loraGroup g).frame 0) := by
  constructor
  · cases h with
    | whole t => intro h; rw [Message.IsSlice, hm] at h; cases h
    | slice k hk2 =>
      rcases (by omega : k = 0 ∨ k = 1) with rfl | rfl
      · intro _; rfl
      · intro h; cases h
  · rintro rfl
    rfl

theorem Copy.isSlice1 (hm : m.frag = none) (h : Copy m g c) : c.2.IsSlice 1 ↔ callKey c = m.key1 := by
  constructor
  · cases h with
    | whole t => intro h; rw [Message.IsSlice, hm] at h; cases h
    | slice k hk2 =>
      rcases (by omega : k = 0 ∨ k = 1) with rfl | rfl
      · intro h; cases h
      · intro _; exact callKey_slice1
  · intro hk
    rw [h.of_key1 hm hk]
    rfl

theorem Copy.key0_of_whole (hm : m.frag = none) (h : Copy m g c) (hc : c.2.frag = none) :
    callKey c = m.key0 := by
  cases h with
  | whole t => exact callKey_whole hm t
  | slice k hk2 => cases hc

end Keys

/-! ## Which copy comes first -/

section First

variable {m : Message} {g : UInt32} {l : List (Transport × Message)} (hm : m.frag = none)
  (hl : ∀ c ∈ l, Copy m g c)

include hl

/-- The first frame of key `key0` is a whole copy, or slice 0. -/
theorem first_cases (h : ∃ c ∈ l, callKey c = m.key0) :
    (∃ t, l.find? (callKey · = m.key0) = some (t, { m with origin := t })) ∨
      l.find? (callKey · = m.key0) = some (.lora, (m.loraGroup g).frame 0) := by
  obtain ⟨a, ha⟩ : ∃ a, l.find? (callKey · = m.key0) = some a := by
    obtain ⟨c, hc, hk⟩ := h
    rw [← Option.isSome_iff_exists, List.find?_isSome]
    exact ⟨c, hc, by simpa using hk⟩
  have hk : callKey a = m.key0 := by simpa using List.find?_some ha
  rcases (hl a (List.mem_of_find?_eq_some ha)).of_key0 hk with h | h
  · exact Or.inl ⟨a.1, h ▸ ha⟩
  · exact Or.inr (h ▸ ha)

include hm

/-- Slice 0 comes first: no whole copy comes before it. -/
theorem pairwise_of_slice0 (hnd : l.Nodup)
    (ha : l.find? (callKey · = m.key0) = some (.lora, (m.loraGroup g).frame 0)) :
    l.Pairwise fun a b => a.2.frag = none → ¬ b.2.IsSlice 0 := by
  obtain ⟨-, pre, post, rfl, hpre⟩ := List.find?_eq_some_iff_append.mp ha
  have hno : ∀ c ∈ pre, c.2.frag ≠ none := fun c hc hf => by
    have := hpre c hc
    rw [(hl c (List.mem_append_left _ hc)).key0_of_whole hm hf] at this
    simp at this
  have hnot : ∀ c ∈ post, ¬ c.2.IsSlice 0 := fun c hc hs => by
    rw [(hl c (List.mem_append_right _ (List.mem_cons_of_mem _ hc))).isSlice0 hm] at hs
    exact (List.nodup_cons.mp (List.nodup_append.mp hnd).2.1).1 (hs ▸ hc)
  rw [List.pairwise_append, List.pairwise_cons]
  refine ⟨List.pairwise_of_forall_mem_list fun a ha b _ h => absurd h (hno a ha), ⟨fun b hb _ => hnot b hb,
    List.pairwise_of_forall_mem_list fun a _ b hb _ => hnot b hb⟩, fun a ha b _ h => absurd h (hno a ha)⟩

/-- A whole copy comes first: before slice 0, if that comes. -/
theorem not_pairwise_of_whole {t : Transport}
    (ha : l.find? (callKey · = m.key0) = some (t, { m with origin := t }))
    (h0 : (Transport.lora, (m.loraGroup g).frame 0) ∈ l) :
    ¬ l.Pairwise fun a b => a.2.frag = none → ¬ b.2.IsSlice 0 := by
  obtain ⟨-, pre, post, rfl, hpre⟩ := List.find?_eq_some_iff_append.mp ha
  rw [List.pairwise_append, List.pairwise_cons]
  rintro ⟨-, ⟨h, -⟩, -⟩
  rcases List.mem_append.mp h0 with h0 | h0
  · have := hpre _ h0
    rw [callKey_slice0] at this
    simp at this
  · rcases List.mem_cons.mp h0 with h0 | h0
    · have := congrArg (fun c => c.2.frag) h0
      rw [show Message.frag { m with origin := t } = m.frag from rfl, hm] at this
      cases this
    · exact h _ h0 hm rfl

/-- A whole copy comes first exactly when one comes before any slice 0. -/
theorem overtakes_iff (h : ∃ c ∈ l, callKey c = m.key0) :
    (∃ pre w post, l = pre ++ w :: post ∧ w.2.frag = none ∧ ∀ c ∈ pre, ¬ c.2.IsSlice 0) ↔
      ∃ t, l.find? (callKey · = m.key0) = some (t, { m with origin := t }) := by
  constructor
  · rintro ⟨pre, w, post, rfl, hw, hpre⟩
    rcases first_cases hl h with h | ha
    · exact h
    · exfalso
      rw [List.find?_append] at ha
      cases hf : pre.find? (callKey · = m.key0) with
      | none =>
        have hkw := (hl w (List.mem_append_right _ List.mem_cons_self)).key0_of_whole hm hw
        rw [hf, List.find?_cons_of_pos (by simpa using hkw), Option.none_or] at ha
        cases ha
        cases hw
      | some b =>
        rw [hf, Option.some_or] at ha
        cases ha
        exact hpre _ (List.mem_of_find?_eq_some hf) rfl
  · rintro ⟨t, ha⟩
    obtain ⟨-, pre, post, rfl, hpre⟩ := List.find?_eq_some_iff_append.mp ha
    refine ⟨pre, _, post, rfl, hm, fun c hc hs => ?_⟩
    rw [(hl c (List.mem_append_left _ hc)).isSlice0 hm] at hs
    have := hpre c hc
    rw [hs, callKey_slice0] at this
    simp at this

end First

namespace Relay

variable {NR NA NF : Nat} {r : Relay NR NA NF} {m : Message} {l : List (Transport × Message)}
  (hk : ∀ c ∈ l, callKey c = m.key0 ∨ callKey c = m.key1)
  (hun : ∀ c ∈ l, r.seen.contains (callKey c) = false)

include hk hun

/-- The keys of a message that the relay does not know. -/
theorem keys_unseen : ∃ K : List UInt32, K.length ≤ 64 ∧ (∀ k ∈ K, some k ∉ r.seen.window) ∧
    ∀ c ∈ l, callKey c ∈ K := by
  refine ⟨[m.key0, m.key1].filter fun k => !r.seen.contains k, ?_, fun k hk => ?_, fun c hc => ?_⟩
  · exact Nat.le_trans (List.length_filter_le _ _) (by decide : 2 ≤ 64)
  · have := (List.mem_filter.mp hk).2
    rwa [Bool.not_eq_true', ← Bool.not_eq_true, SeenCache.contains_iff] at this
  · rw [List.mem_filter, List.mem_pair, hun c hc]
    exact ⟨hk c hc, rfl⟩

/-- `run_receive` for the frames of one message. -/
theorem run_copies :
    (run receive r l).1.filter (fun o => !isDuplicate o) =
        (run Reassembler.receive r.reassembler (firsts callKey [] l)).1.map (fun o => .ok (r.outcome o)) ∧
      (run receive r l).2.reassembler =
        (run Reassembler.receive r.reassembler (firsts callKey [] l)).2 := by
  obtain ⟨K, hK, hun, hlK⟩ := keys_unseen hk hun
  exact run_receive hK hun hlK

theorem delivered_copies :
    (run receive r l).1.filterMap delivered =
      (run Reassembler.receive r.reassembler (firsts callKey [] l)).1.filterMap
        ReassembleOutcome.delivered := by
  obtain ⟨K, hK, hun, hlK⟩ := keys_unseen hk hun
  exact delivered_run hK hun hlK

end Relay

/-! ## What the reassembler makes of them -/

section Reassembler

variable {SLOTS PER_SLOT : Nat} {r : Reassembler SLOTS PER_SLOT} {m : Message} {g : UInt32}

theorem receive_whole (hm : m.frag = none) (t : Transport) :
    r.receive (t, { m with origin := t }) = (.passthrough { m with origin := t }, r) :=
  r.ingest_unfragmented hm

/-- Both slices, in either order, from any transports: the slot they take is
free again at the end. -/
theorem run_halves (hI : r.Inv) (hP : 2 ≤ PER_SLOT) (hT : r.table (m.halves g).key = none)
    (hroom : r.room = true) {k : Nat} (hk : k < 2) (t t' : Transport) :
    let x := run Reassembler.receive r [(t, (m.halves g).frame k), (t', (m.halves g).frame (1 - k))]
    x.1 = [.buffered, .complete (Message.halves { m with origin := t } g).whole] ∧ x.2.Inv ∧
      x.2.table = r.table := by
  let G := Message.halves { m with origin := t } g
  have hlen : G.slices.length ≤ min PER_SLOT 64 := Nat.le_min.mpr ⟨hP, (by decide : 2 ≤ 64)⟩
  have hk' : 1 - k < 2 := by omega
  obtain ⟨h1, hI₁, p, hT₁, hp⟩ := Reassembler.ingest_first (g := G) hI hT hroom (Nat.le_refl 2) hlen hk
  have hTg := congrFun hT₁ G.key
  rw [Function.update_self] at hTg
  have hnew : G.frame (1 - k) ∉ [G.frame k] := fun h => by
    have := Spec.Group.frame_inj (Nat.le_of_ble_eq_true rfl) hk' hk (List.mem_singleton.mp h)
    omega
  have hall : ∀ x ∈ G.frames, x ∈ [G.frame k] ++ [G.frame (1 - k)] := by
    rcases (by omega : k = 0 ∨ k = 1) with rfl | rfl
    · exact fun x hx => hx
    · intro x hx
      exact List.mem_pair.mpr (List.mem_pair.mp hx).symm
  obtain ⟨h2, hI₂, hT₂⟩ := Reassembler.ingest_last hI₁ hTg hp hlen hk' hnew hall
    (x := ((m.halves g).frame (1 - k)).arrived t') rfl rfl
  simp only [run_cons, run_nil]
  refine ⟨?_, hI₂, ?_⟩
  · rw [show (r.receive (t, (m.halves g).frame k)).1 = _ from h1]
    exact congrArg (fun o => [ReassembleOutcome.buffered, o]) h2
  · refine hT₂.trans ?_
    rw [hT₁, Function.update_idem]
    exact Function.update_eq_self_iff.mpr hT.symm

variable (hS : 1 ≤ SLOTS) (hP : 2 ≤ PER_SLOT) (hr : r.inFlight = 0)

include hS hP hr

/-- One slice is held. -/
theorem receive_slice_idle {k : Nat} (hk : k < 2) :
    (r.receive (.lora, (m.loraGroup g).frame k)).1 = .buffered ∧
      (r.receive (.lora, (m.loraGroup g).frame k)).2.Inv ∧
      ∃ p, (r.receive (.lora, (m.loraGroup g).frame k)).2.table =
        Function.update r.table (m.loraGroup g).key (some p) ∧
          PartsOf (m.loraGroup g) [(m.loraGroup g).frame k] p := by
  obtain ⟨hI, hT, hroom⟩ := Reassembler.idle_spec hS hr
  exact Reassembler.ingest_first hI (hT _) hroom (Nat.le_refl 2) (m.length_loraGroup g hP) hk

theorem receive_slice_inFlight {k : Nat} (hk : k < 2) :
    (r.receive (.lora, (m.loraGroup g).frame k)).2.inFlight ≠ 0 := by
  obtain ⟨-, hI, p, hT, -⟩ := receive_slice_idle (m := m) (g := g) hS hP hr hk
  rw [ne_eq, Reassembler.inFlight_eq_zero hI, hT]
  intro h
  have := h (m.loraGroup g).key
  rw [Function.update_self] at this
  cases this

/-- Both slices, in either order. -/
theorem run_both {k : Nat} (hk : k < 2) :
    (run Reassembler.receive r [(.lora, (m.loraGroup g).frame k), (.lora, (m.loraGroup g).frame (1 - k))]).1 =
        [.buffered, .complete (m.loraGroup g).whole] ∧
      (run Reassembler.receive r
        [(.lora, (m.loraGroup g).frame k), (.lora, (m.loraGroup g).frame (1 - k))]).2.inFlight = 0 := by
  obtain ⟨hI, hT, hroom⟩ := Reassembler.idle_spec hS hr
  obtain ⟨h1, hI', hT'⟩ := run_halves (m := { m with origin := .lora }) hI hP (hT _) hroom hk .lora .lora
  refine ⟨h1, (Reassembler.inFlight_eq_zero hI').mpr fun q => ?_⟩
  rw [hT']
  exact hT q

/-! ## The first frame of each key -/

variable {l : List (Transport × Message)} (hm : m.frag = none) (hl : ∀ c ∈ l, Copy m g c)

include hm hl

/-- The first frame of key `key0` is a whole copy: it is delivered, and slice 1
takes a slot if it arrives. -/
theorem run_whole {t : Transport} (ha : l.find? (callKey · = m.key0) = some (t, { m with origin := t })) :
    (∃ x y, (run Reassembler.receive r (firsts callKey [] l)).1 =
        x ++ .passthrough { m with origin := t } :: y ∧ ∀ o ∈ x ++ y, o = .buffered) ∧
      ((run Reassembler.receive r (firsts callKey [] l)).2.inFlight = 0 ↔ ∀ c ∈ l, callKey c ≠ m.key1) := by
  have htwo := firsts_two (key0_ne_key1 m) fun c hc => (hl c hc).key hm
  rw [ha] at htwo
  have hwhole := fun r : Reassembler SLOTS PER_SLOT => receive_whole (r := r) hm t
  cases hb : l.find? (callKey · = m.key1) with
  | none =>
    have hnone : ∀ c ∈ l, callKey c ≠ m.key1 := fun c hc => by
      have := List.find?_eq_none.mp hb c hc
      simpa using this
    rw [hb] at htwo
    have hL : firsts callKey [] l = [(t, { m with origin := t })] := htwo.elim id id
    rw [hL]
    simp only [run_cons, run_nil, hwhole]
    exact ⟨⟨[], [], rfl, fun o ho => by cases ho⟩, fun _ => hnone, fun _ => hr⟩
  | some b =>
    have hmem := List.mem_of_find?_eq_some hb
    have hkey : callKey b = m.key1 := by simpa using List.find?_some hb
    obtain rfl := (hl b hmem).of_key1 hm hkey
    obtain ⟨ho, -⟩ := receive_slice_idle (m := m) (g := g) hS hP hr (k := 1) (by decide)
    have hfl := receive_slice_inFlight (m := m) (g := g) hS hP hr (k := 1) (by decide)
    rw [hb] at htwo
    rcases htwo with hL | hL
    all_goals
      rw [hL]
      simp only [Option.toList_some, List.singleton_append, run_cons, run_nil, hwhole, ho]
      refine ⟨?_, fun h => absurd h hfl, fun h => absurd hkey (h _ hmem)⟩
    · exact ⟨[], [.buffered], rfl, fun o ho => List.mem_singleton.mp ho⟩
    · exact ⟨[.buffered], [], rfl, fun o ho => List.mem_singleton.mp ho⟩

/-- The first frame of key `key0` is slice 0, and slice 1 arrives. -/
theorem run_slices (ha : l.find? (callKey · = m.key0) = some (.lora, (m.loraGroup g).frame 0))
    (hb : ∃ c ∈ l, callKey c = m.key1) :
    (run Reassembler.receive r (firsts callKey [] l)).1 = [.buffered, .complete (m.loraGroup g).whole] ∧
      (run Reassembler.receive r (firsts callKey [] l)).2.inFlight = 0 := by
  have htwo := firsts_two (key0_ne_key1 m) fun c hc => (hl c hc).key hm
  rw [ha] at htwo
  obtain ⟨b, hb⟩ : ∃ b, l.find? (callKey · = m.key1) = some b := by
    rw [← Option.isSome_iff_exists, List.find?_isSome]
    obtain ⟨c, hc, hk⟩ := hb
    exact ⟨c, hc, by simpa using hk⟩
  have hkey : callKey b = m.key1 := by simpa using List.find?_some hb
  obtain rfl := (hl b (List.mem_of_find?_eq_some hb)).of_key1 hm hkey
  rw [hb] at htwo
  rcases htwo with hL | hL
  · rw [hL]; exact run_both hS hP hr (k := 0) (by decide)
  · rw [hL]; exact run_both hS hP hr (k := 1) (by decide)

/-- The first frame of key `key0` is slice 0, and slice 1 is lost. -/
theorem run_lost (ha : l.find? (callKey · = m.key0) = some (.lora, (m.loraGroup g).frame 0))
    (hb : ∀ c ∈ l, callKey c ≠ m.key1) :
    (run Reassembler.receive r (firsts callKey [] l)).1 = [.buffered] := by
  have htwo := firsts_two (key0_ne_key1 m) fun c hc => (hl c hc).key hm
  have hb : l.find? (callKey · = m.key1) = none :=
    List.find?_eq_none.mpr fun c hc => by simpa using hb c hc
  rw [ha, hb] at htwo
  have hL : firsts callKey [] l = [(.lora, (m.loraGroup g).frame 0)] := htwo.elim id id
  rw [hL, run_cons, run_nil, (receive_slice_idle (m := m) (g := g) hS hP hr (k := 0) (by decide)).1]

end Reassembler

end RelayStar
