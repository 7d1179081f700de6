import RelayStar.Framework.Chunks
import RelayStar.Impl.Fragment

/-!
# Splitting a message

The loop of `Fragmenter.split` takes one chunk of the payload after the other
(`slices_eq`), so a message that is too long for a frame is cut into full slices
and a last one, and nothing of it is lost (`split_partition`).
-/

namespace RelayStar.Fragmenter

/-- The size of the slices for `t`. -/
def sliceSize (t : Transport) : Nat := min t.maxPayload MAX_PAYLOAD

theorem sliceSize_pos (t : Transport) : 0 < sliceSize t := by cases t <;> decide

/-- The frame of chunk `k` of the payload. -/
def chunkFrame (m : Message) (mtu total : Nat) (g : UInt32) (k : Nat) : Message :=
  { m with
    payload := ⟨chunk mtu m.payload.toList k, Nat.le_trans (length_chunk_le ..) m.payload.length_le⟩
    frag := some ⟨g, UInt16.ofNat k, UInt16.ofNat total⟩ }

variable (m : Message) (g : UInt32)

theorem single_ok : ∃ out, single m = .ok out ∧ out.toList = [m] :=
  ⟨⟨[m], Nat.le_of_ble_eq_true rfl⟩, rfl, rfl⟩

theorem slice_eq (mtu total k : Nat) : slice m mtu total g k = .ok (chunkFrame m mtu total g k) := by
  have hchunk : (m.payload.toList.drop (k * mtu)).take (min (k * mtu + mtu) m.payload.len - k * mtu) =
      (chunkFrame m mtu total g k).payload.toList := by
    show _ = (m.payload.toList.drop (k * mtu)).take mtu
    rw [List.take_eq_take_iff, List.length_drop, show m.payload.toList.length = m.payload.len from rfl]
    omega
  simp only [slice, hchunk, HVec.extendFromSlice_empty]
  rfl

/-- The loop over slices that all fit. -/
theorem slices_eq (mtu total : Nat) {seqs : List Nat} {out : HVec Message MAX_FRAGMENTS}
    (h : out.toList.length + seqs.length ≤ MAX_FRAGMENTS) :
    ∃ w, slices m mtu total g seqs out = .ok w ∧ w.toList = out.toList ++ seqs.map (chunkFrame m mtu total g) := by
  induction seqs generalizing out with
  | nil => exact ⟨out, rfl, (List.append_nil _).symm⟩
  | cons k seqs ih =>
    rw [List.length_cons] at h
    have hfit : (out.toList ++ [chunkFrame m mtu total g k]).length ≤ MAX_FRAGMENTS := by
      rw [List.length_append, List.length_singleton]; omega
    have hpush : out.push (chunkFrame m mtu total g k) = some ⟨_, hfit⟩ := HVec.push_eq_some.mpr rfl
    have hroom : (out.toList ++ [chunkFrame m mtu total g k]).length + seqs.length ≤ MAX_FRAGMENTS := by
      rw [List.length_append, List.length_singleton]; omega
    obtain ⟨w, hw, hlist⟩ := @ih ⟨_, hfit⟩ hroom
    refine ⟨w, ?_, ?_⟩
    · simp only [slices, slice_eq, hpush, hw]
    · rw [hlist, List.append_assoc]; rfl

variable {m} {t : Transport}

/-- A message that fits a frame, or is a slice, is a frame as it is. -/
theorem split_single (h : m.payload.len ≤ sliceSize t ∨ m.frag ≠ none) :
    ∃ out, split m t g = .ok out ∧ out.toList = [m] := by
  have hmtu : ¬ min t.maxPayload MAX_PAYLOAD = 0 := Nat.ne_of_gt (sliceSize_pos t)
  rw [split, if_neg hmtu]
  split
  · exact single_ok m
  · rename_i hn
    rw [if_pos]
    · exact single_ok m
    · intro hf
      rcases h with h | h
      · exact hn ⟨h, hf⟩
      · exact h hf

/-- A message takes two slices at most. -/
theorem ceilDiv_sliceSize_le (m : Message) (t : Transport) : m.payload.len ⌈/⌉ sliceSize t ≤ 2 := by
  rw [ceilDiv_le_iff_le_smul (sliceSize_pos t), smul_eq_mul]
  have hle : m.payload.len ≤ 200 := m.payload.len_le
  have : 100 ≤ sliceSize t := by cases t <;> decide
  omega

/-- Another message is cut. -/
theorem split_cut (hf : m.frag = none) (hlen : sliceSize t < m.payload.len) :
    ∃ out, split m t g = .ok out ∧ out.toList = (List.range (m.payload.len ⌈/⌉ sliceSize t)).map
      (chunkFrame m (sliceSize t) (m.payload.len ⌈/⌉ sliceSize t) g) := by
  have hpos := sliceSize_pos t
  have htot := ceilDiv_sliceSize_le m t
  have hceil : (m.payload.len + sliceSize t - 1) / sliceSize t = m.payload.len ⌈/⌉ sliceSize t :=
    (Nat.ceilDiv_eq_add_pred_div ..).symm
  have hmax : ¬ (m.payload.len ⌈/⌉ sliceSize t > MAX_FRAGMENTS ∨ m.payload.len ⌈/⌉ sliceSize t > 65535) := by
    rw [show MAX_FRAGMENTS = 32 from rfl]; omega
  have hroom : (HVec.empty : HVec Message MAX_FRAGMENTS).toList.length +
      (List.range (m.payload.len ⌈/⌉ sliceSize t)).length ≤ MAX_FRAGMENTS := by
    rw [HVec.toList_empty, List.length_nil, List.length_range, show MAX_FRAGMENTS = 32 from rfl]; omega
  obtain ⟨w, hw, hlist⟩ := slices_eq m g (sliceSize t) (m.payload.len ⌈/⌉ sliceSize t) hroom
  refine ⟨w, ?_, hlist⟩
  rw [split, show min t.maxPayload MAX_PAYLOAD = sliceSize t from rfl, if_neg (Nat.ne_of_gt hpos),
    if_neg fun h => Nat.not_lt_of_le h.1 hlen, if_neg (not_not.mpr hf)]
  simp only [hceil, if_neg hmax, hw]

/-- The numbers of a slice fit their fields. -/
theorem frag_chunkFrame {mtu c k : Nat} (hc : c ≤ MAX_FRAGMENTS) (hk : k < c) :
    ∃ f, (chunkFrame m mtu c g k).frag = some f ∧ f.groupId = g ∧ f.seq.toNat = k ∧ f.total.toNat = c := by
  have hc : c ≤ 32 := hc
  refine ⟨_, rfl, rfl, ?_, ?_⟩
  · rw [UInt16.toNat_ofNat_of_lt']
    show k < 65536
    omega
  · rw [UInt16.toNat_ofNat_of_lt']
    show c < 65536
    omega

theorem len_chunkFrame_le (mtu c k : Nat) : (chunkFrame m mtu c g k).payload.len ≤ mtu := by
  show (chunk mtu m.payload.toList k).length ≤ mtu
  rw [length_chunk]
  exact Nat.min_le_left ..

/-- Splitting is a partition: a message that fits a frame is left as it is, and
another is cut into as many slices as it takes, numbered in order, all full but
the last, which is not empty; they have the header of the message and put
together its payload. -/
theorem split_partition (m : Message) (hf : m.frag = none) (t : Transport) (g : UInt32) :
    ∃ out, split m t g = .ok out ∧ out.toList ≠ [] ∧
      (m.payload.len ≤ min t.maxPayload MAX_PAYLOAD → out.toList = [m]) ∧
      (min t.maxPayload MAX_PAYLOAD < m.payload.len →
        out.toList.length = m.payload.len ⌈/⌉ min t.maxPayload MAX_PAYLOAD ∧
        (out.toList.map fun f => f.payload.toList).flatten = m.payload.toList ∧
        ∀ k (hk : k < out.toList.length),
          out.toList[k] = { m with payload := out.toList[k].payload, frag := out.toList[k].frag } ∧
          (∃ f, out.toList[k].frag = some f ∧ f.groupId = g ∧ f.seq.toNat = k ∧ f.total.toNat = out.toList.length) ∧
          0 < out.toList[k].payload.len ∧ out.toList[k].payload.len ≤ min t.maxPayload MAX_PAYLOAD ∧
          (k + 1 < out.toList.length → out.toList[k].payload.len = min t.maxPayload MAX_PAYLOAD)) := by
  show ∃ out, _ ∧ _ ∧ (m.payload.len ≤ sliceSize t → _) ∧ (sliceSize t < m.payload.len → _)
  rcases Nat.lt_or_ge (sliceSize t) m.payload.len with hlt | hge
  · obtain ⟨out, hs, hlist⟩ := split_cut g hf hlt
    have hlen : out.toList.length = m.payload.len ⌈/⌉ sliceSize t := by
      rw [hlist, List.length_map, List.length_range]
    have hc : m.payload.len ⌈/⌉ sliceSize t ≤ MAX_FRAGMENTS :=
      Nat.le_trans (ceilDiv_sliceSize_le m t) (by decide : 2 ≤ MAX_FRAGMENTS)
    have hpos : 0 < m.payload.len ⌈/⌉ sliceSize t := (lt_ceilDiv (sliceSize_pos t)).mpr (by omega)
    refine ⟨out, hs, fun hnil => ?_, fun h => absurd h (Nat.not_le_of_lt hlt), fun _ => ⟨hlen, ?_, fun k hk => ?_⟩⟩
    · rw [hnil] at hlen
      exact Nat.ne_of_gt hpos hlen.symm
    · rw [hlist, List.map_map]
      exact flatten_chunks (sliceSize_pos t) m.payload.toList
    · have hget : out.toList[k] = chunkFrame m (sliceSize t) (m.payload.len ⌈/⌉ sliceSize t) g k := by
        simp only [hlist, List.getElem_map, List.getElem_range]
      rw [hlen] at hk ⊢
      rw [hget]
      exact ⟨rfl, frag_chunkFrame g hc hk, chunk_pos (sliceSize_pos t) hk, len_chunkFrame_le g ..,
        chunk_full (sliceSize_pos t)⟩
  · obtain ⟨out, hs, hlist⟩ := split_single g (.inl hge)
    exact ⟨out, hs, by rw [hlist]; exact List.cons_ne_nil _ _, fun _ => hlist,
      fun h => absurd h (Nat.not_lt_of_le hge)⟩

/-- Exactly a slice that is too long already does not fit its frame. -/
theorem fits_iff (m : Message) (t : Transport) (g : UInt32) :
    (∀ out, split m t g = .ok out → ∀ f ∈ out.toList, f.payload.len ≤ t.maxPayload) ↔
      m.frag = none ∨ m.payload.len ≤ t.maxPayload := by
  have hsize : sliceSize t ≤ t.maxPayload := Nat.min_le_left ..
  by_cases hcut : m.frag = none ∧ sliceSize t < m.payload.len
  · obtain ⟨hf, hlt⟩ := hcut
    obtain ⟨out, hs, hlist⟩ := split_cut g hf hlt
    refine iff_of_true (fun out' hs' f hmem => ?_) (.inl hf)
    obtain rfl : out = out' := Except.ok.inj (hs.symm.trans hs')
    rw [hlist] at hmem
    obtain ⟨k, -, rfl⟩ := List.mem_map.mp hmem
    exact Nat.le_trans (len_chunkFrame_le ..) hsize
  · have hfit : m.payload.len ≤ sliceSize t ∨ m.frag ≠ none := by
      by_cases hf : m.frag = none
      · exact .inl (Nat.le_of_not_lt fun hlt => hcut ⟨hf, hlt⟩)
      · exact .inr hf
    obtain ⟨out, hs, hlist⟩ := split_single g hfit
    constructor
    · exact fun h => .inr (h out hs m (by rw [hlist]; exact List.mem_singleton_self m))
    · intro h out' hs' f hmem
      obtain rfl : out = out' := Except.ok.inj (hs.symm.trans hs')
      rw [hlist] at hmem
      rw [List.mem_singleton.mp hmem]
      rcases h with hf | h
      · exact Nat.le_trans (hfit.resolve_right (not_not.mpr hf)) hsize
      · exact h

/-- One byte more than a LoRa frame takes. -/
def exampleLong : Message :=
  ⟨1, DEFAULT_TTL, .lora, BROADCAST_ADDR, BROADCAST_ADDR, .text,
    ⟨List.replicate 181 0, by rw [List.length_replicate]; decide⟩, none⟩

theorem split_partition_long :
    ∃ out, split exampleLong .lora 9 = .ok out ∧ out.toList.length = 2 ∧
      (out.toList.map fun f => f.payload.toList).flatten = exampleLong.payload.toList := by
  obtain ⟨out, hs, -, -, hcut⟩ := split_partition exampleLong rfl .lora 9
  have hlong : exampleLong.payload.len = 181 := List.length_replicate
  rw [hlong] at hcut
  obtain ⟨hlen, hflat, -⟩ := hcut (by decide)
  exact ⟨out, hs, by rw [hlen, Nat.ceilDiv_eq_add_pred_div]; decide, hflat⟩

end RelayStar.Fragmenter
