import RelayStar.Proof.Reachable
import RelayStar.Proof.Window

/-!
# Leads of a delivery

Of every delivery in a run one call recorded the id (`Lead`): the delivering
call itself, for a whole frame, or else a call that brought slice 0 of the
group. The slots keep this call in their contents (`Track`), so that every
delivery has a lead (`exists_lead`), and two deliveries have different ones
(`Lead.ne`).
-/

namespace RelayStar

/-- A call of a run, and its answer. -/
abbrev Entry := (Transport × List UInt8) × Except RelayError IngestOutcome

/-- The frame of the call is the slice `f` of a message with this id. -/
def Entry.IsSlice (e : Entry) (id : UInt32) (f : Fragment) : Prop :=
  ∃ x, Message.decode e.1.2 = .ok x ∧ x.id = id ∧ x.frag = some f

/-- The calls `a`, …, `b - 1` deliver no message of the group. -/
def Quiet (tr : List Entry) (g : Spec.GroupKey) (a b : Nat) : Prop :=
  ∀ t e id f, a ≤ t → t < b → tr[t]? = some e → e.IsSlice id f → Spec.key f = g → delivered e.2 = none

/-- Call `a` brought slice 0 of the group, which is not delivered before `b`. -/
def Opened (tr : List Entry) (g : Spec.GroupKey) (a b : Nat) (id : UInt32) : Prop :=
  ∃ e f, tr[a]? = some e ∧ isNew e.2 = true ∧ e.IsSlice id f ∧ f.seq = 0 ∧ Spec.key f = g ∧ Quiet tr g a b

/-- Call `a` recorded the id of the message that call `i` hands over: it is call
`i` itself with a whole frame, or it brought slice 0 of the group of call `i`,
and this group was not delivered in between. -/
def Lead (tr : List Entry) (i a : Nat) (id : UInt32) : Prop :=
  (a = i ∧ ∃ e x, tr[i]? = some e ∧ isNew e.2 = true ∧ Message.decode e.1.2 = .ok x ∧ x.id = id ∧ x.frag = none) ∨
    a ≤ i ∧ ∃ e id' f, tr[i]? = some e ∧ e.IsSlice id' f ∧ Opened tr (Spec.key f) a i id

/-- The number of keys recorded strictly between the calls `a` and `b`. -/
def newBetween (tr : List Entry) (a b : Nat) : Nat :=
  ((tr.drop (a + 1)).take (b - (a + 1))).countP fun e => isNew e.2

/-- The slices of a group carry the id of one message. -/
def OneMessagePerGroup (l : List (Transport × List UInt8)) : Prop :=
  ∀ c ∈ l, ∀ c' ∈ l, ∀ x x' f f', Message.decode c.2 = .ok x → Message.decode c'.2 = .ok x' →
    x.frag = some f → x'.frag = some f' → f.groupId = f'.groupId → x.id = x'.id

namespace Relay

variable {NR NA NF : Nat}

/-- A message as it is on the air. -/
def wired (c : Transport × Message) : Transport × List UInt8 := (c.1, c.2.wire)

/-- The calls of a run, with their answers. -/
def trace (r : Relay NR NA NF) (l : List (Transport × List UInt8)) : List Entry := l.zip (run hear r l).1

@[simp] theorem length_trace (r : Relay NR NA NF) (l : List (Transport × List UInt8)) :
    (r.trace l).length = l.length := by
  rw [trace, List.length_zip, length_run, Nat.min_self]

theorem trace_append (r : Relay NR NA NF) (l l' : List (Transport × List UInt8)) :
    r.trace (l ++ l') = r.trace l ++ (run hear r l).2.trace l' := by
  rw [trace, run_append, List.zip_append (length_run ..).symm]
  rfl

theorem trace_cons (r : Relay NR NA NF) (c : Transport × List UInt8) (l : List (Transport × List UInt8)) :
    r.trace (c :: l) = (c, (r.hear c).1) :: (r.hear c).2.trace l := rfl

theorem countP_trace (r : Relay NR NA NF) (l : List (Transport × List UInt8)) :
    ((r.trace l).countP fun e => isNew e.2) = (run hear r l).1.countP isNew := by
  induction l generalizing r with
  | nil => rfl
  | cons c l ih => rw [trace_cons, List.countP_cons, ih, run_cons, List.countP_cons]

/-- The entry of a call in a run. -/
theorem getElem?_trace (r : Relay NR NA NF) (pre : List (Transport × List UInt8)) (c : Transport × List UInt8)
    (post : List (Transport × List UInt8)) :
    (r.trace (pre ++ c :: post))[pre.length]? = some (c, ((run hear r pre).2.hear c).1) := by
  rw [trace_append, List.getElem?_append_right (Nat.le_of_eq (length_trace ..)), length_trace, Nat.sub_self,
    trace_cons, List.getElem?_cons_zero]

/-- The entry of a message in a run on the bytes of messages. -/
theorem getElem?_trace_wired (r : Relay NR NA NF) (pre : List (Transport × Message)) (c : Transport × Message)
    (post : List (Transport × Message)) :
    (r.trace ((pre ++ c :: post).map wired))[pre.length]? =
      some (wired c, ((run receive r pre).2.receive c).1) := by
  have h := r.getElem?_trace (pre.map wired) (wired c) (post.map wired)
  rw [run_map, List.length_map] at h
  rw [List.map_append, List.map_cons, h]
  rfl

/-- An entry of a trace splits the run. -/
theorem trace_split {r : Relay NR NA NF} {l : List (Transport × List UInt8)} {i : Nat} {e : Entry}
    (h : (r.trace l)[i]? = some e) :
    ∃ l₁ l₂, l = l₁ ++ e.1 :: l₂ ∧ l₁.length = i ∧ e.2 = ((run hear r l₁).2.hear e.1).1 := by
  obtain ⟨hi, he⟩ := List.getElem?_eq_some_iff.mp h
  rw [length_trace] at hi
  have hl : l = l.take i ++ l[i] :: l.drop (i + 1) := by
    rw [← List.drop_eq_getElem_cons, List.take_append_drop]
  have hlen : (l.take i).length = i := by rw [List.length_take]; omega
  have he1 : e.1 = l[i] := by rw [← he]; simp only [trace, List.getElem_zip]
  refine ⟨l.take i, l.drop (i + 1), by rw [he1]; exact hl, hlen, ?_⟩
  have hentry := r.getElem?_trace (l.take i) l[i] (l.drop (i + 1))
  rw [← hl, hlen, h] at hentry
  cases hentry
  rfl

/-- Two calls that record the same key have at least 64 others between them. -/
theorem newBetween_of_same_key {r : Relay NR NA NF} {l : List (Transport × List UInt8)} {a b : Nat}
    (hab : a < b) {e e' : Entry} (ha : (r.trace l)[a]? = some e) (hb : (r.trace l)[b]? = some e')
    (hn : isNew e.2 = true) (hn' : isNew e'.2 = true) {x x' : Message} (hx : Message.decode e.1.2 = .ok x)
    (hx' : Message.decode e'.1.2 = .ok x') (hk : x.dedupKey = x'.dedupKey) :
    64 ≤ newBetween (r.trace l) a b := by
  obtain ⟨l₁, l₂, rfl, rfl, he⟩ := trace_split ha
  have hdrop : (r.trace (l₁ ++ e.1 :: l₂)).drop (l₁.length + 1) =
      ((run hear r l₁).2.hear e.1).2.trace l₂ := by
    rw [trace_append, trace_cons, ← length_trace r l₁, List.drop_length_add_append]
    rfl
  have hb' : (((run hear r l₁).2.hear e.1).2.trace l₂)[b - (l₁.length + 1)]? = some e' := by
    rw [← hdrop, List.getElem?_drop, Nat.add_sub_cancel' hab]
    exact hb
  obtain ⟨l₃, l₄, rfl, hlen, he'⟩ := trace_split hb'
  have hbetween : newBetween (r.trace (l₁ ++ e.1 :: (l₃ ++ e'.1 :: l₄))) l₁.length b =
      (run hear ((run hear r l₁).2.hear e.1).2 l₃).1.countP isNew := by
    rw [newBetween, hdrop, ← hlen, trace_append, ← length_trace ((run hear r l₁).2.hear e.1).2 l₃,
      List.take_left, countP_trace]
  rw [hbetween]
  by_contra hlt
  have hdup := duplicate_of_recorded hx (he ▸ hn) (Nat.lt_of_not_le hlt) hx' hk.symm
  rw [he', hdup] at hn'
  cases hn'

end Relay

/-! ## Longer runs -/

section Append

variable {tr tr' : List Entry} {g : Spec.GroupKey} {a b i : Nat} {id : UInt32} {e : Entry}

theorem Quiet.append (h : Quiet tr g a b) (hb : b ≤ tr.length) : Quiet (tr ++ tr') g a b := by
  intro t e id f hat htb he
  rw [List.getElem?_append_left (by omega)] at he
  exact h t e id f hat htb he

theorem Opened.lt (h : Opened tr g a b id) : a < tr.length := by
  obtain ⟨e, f, he, -⟩ := h
  exact (List.getElem?_eq_some_iff.mp he).1

theorem Opened.append (h : Opened tr g a b id) (hb : b ≤ tr.length) : Opened (tr ++ tr') g a b id := by
  obtain ⟨e, f, he, hn, hs, hf, hg, hq⟩ := h
  exact ⟨e, f, by rw [List.getElem?_append_left (List.getElem?_eq_some_iff.mp he).1, he], hn, hs, hf, hg,
    hq.append hb⟩

theorem Lead.append (h : Lead tr i a id) : Lead (tr ++ tr') i a id := by
  rcases h with ⟨rfl, e, x, he, hn, hx⟩ | ⟨hai, e, id', f, he, hs, ho⟩
  · exact Or.inl ⟨rfl, e, x, by rw [List.getElem?_append_left (List.getElem?_eq_some_iff.mp he).1, he], hn, hx⟩
  · have hi := (List.getElem?_eq_some_iff.mp he).1
    exact Or.inr ⟨hai, e, id', f, by rw [List.getElem?_append_left hi, he], hs, ho.append (Nat.le_of_lt hi)⟩

/-- A call that does not deliver the group leaves it open. -/
theorem Opened.snoc (h : Opened tr g a tr.length id)
    (he : ∀ id f, e.IsSlice id f → Spec.key f = g → delivered e.2 = none) :
    Opened (tr ++ [e]) g a (tr ++ [e]).length id := by
  have h' : Opened (tr ++ [e]) g a tr.length id := h.append (Nat.le_refl _)
  obtain ⟨e₀, f, he₀, hn, hs, hf, hg, hq⟩ := h'
  refine ⟨e₀, f, he₀, hn, hs, hf, hg, fun t e' id' f' hat htb he' hs' hg' => ?_⟩
  rw [List.length_append, List.length_singleton] at htb
  by_cases ht : t < tr.length
  · exact hq t e' id' f' hat ht he' hs' hg'
  · obtain rfl : t = tr.length := by omega
    rw [List.getElem?_concat_length] at he'
    cases he'
    exact he id' f' hs' hg'

/-- A slice 0 opens its group. -/
theorem opened_self (hn : isNew e.2 = true) {f : Fragment} (hs : e.IsSlice id f) (hf : f.seq = 0)
    (hd : delivered e.2 = none) : Opened (tr ++ [e]) (Spec.key f) tr.length (tr ++ [e]).length id := by
  refine ⟨e, f, List.getElem?_concat_length, hn, hs, hf, rfl, fun t e' id' f' hat htb he' _ _ => ?_⟩
  rw [List.length_append, List.length_singleton] at htb
  obtain rfl : t = tr.length := by omega
  rw [List.getElem?_concat_length] at he'
  cases he'
  exact hd

end Append

/-! ## What the slots remember -/

theorem Spec.Partial.deliver_add_id {p : Partial} {n k : Nat} {a : Payload} {x : Message}
    (h : ((p.add k a).deliver n).delivered = some x) : x.id = p.template.id := by
  unfold deliver at h
  split at h
  · cases h; rfl
  · cases h

namespace Relay

variable {NR NA NF : Nat} {r r' : Relay NR NA NF} {tr : List Entry} {e : Entry}

/-- A call delivers nothing and leaves the groups as they are, hands a whole
frame over, or adds a slice to its group. -/
theorem hear_table (hI : r.reassembler.Inv) (c : Transport × List UInt8) :
    (r.hear c).2.reassembler.Inv ∧
      ((delivered (r.hear c).1 = none ∧ (r.hear c).2.reassembler.table = r.reassembler.table) ∨
        (∃ m, Message.decode c.2 = .ok m ∧ isNew (r.hear c).1 = true ∧ m.frag = none ∧
          delivered (r.hear c).1 = some (m.arrived c.1) ∧
          (r.hear c).2.reassembler.table = r.reassembler.table) ∨
        ∃ m f p, Message.decode c.2 = .ok m ∧ isNew (r.hear c).1 = true ∧ m.frag = some f ∧ f.total ≠ 0 ∧
          (r.reassembler.table (Spec.key f) = some p ∨
            r.reassembler.table (Spec.key f) = none ∧ p = .start (m.arrived c.1)) ∧
          delivered (r.hear c).1 = (r.reassembler.table.join f (m.arrived c.1) p).1.delivered ∧
          (r.hear c).2.reassembler.table = (r.reassembler.table.join f (m.arrived c.1) p).2) := by
  rcases r.hear_cases c with ⟨-, hd, -, hr⟩ | ⟨m, hm, -, ho, -, hr⟩
  · rw [hr]
    exact ⟨hI, Or.inl ⟨hd, rfl⟩⟩
  have hnew : isNew (r.hear c).1 = true := by rw [ho]; exact r.isNew_outcome _
  have hdel : delivered (r.hear c).1 = (r.reassembler.ingest (m.arrived c.1)).1.delivered := by
    rw [ho]; exact r.delivered_outcome _
  rw [hr, hdel]
  refine ⟨Reassembler.ingest_inv hI _, ?_⟩
  cases hf : m.frag with
  | none =>
    rw [r.reassembler.ingest_unfragmented (m := m.arrived c.1) hf]
    exact Or.inr (Or.inl ⟨m, hm, hnew, hf, rfl, rfl⟩)
  | some f =>
    by_cases hok : Spec.HeaderOk NF f
    · obtain ⟨hout, htab, -⟩ := r.reassembler.ingest_refines hI (m := m.arrived c.1) hf hok
      rw [hout, htab]
      rcases r.reassembler.table.offer_cases r.reassembler.room f (m.arrived c.1) with
        ⟨reason, h⟩ | ⟨p, hp, -, h⟩
      · rw [h]
        exact Or.inl ⟨rfl, rfl⟩
      · rw [h]
        exact Or.inr (Or.inr ⟨m, f, p, hm, hnew, hf, hok.1, hp, rfl, rfl⟩)
    · rw [r.reassembler.ingest_badHeader (m := m.arrived c.1) hf hok]
      exact Or.inl ⟨rfl, rfl⟩

/-- The groups in the slots are those that the trace left open. -/
structure Track (tr : List Entry) (r : Relay NR NA NF) : Prop where
  inv : r.reassembler.Inv
  opened : ∀ g p, r.reassembler.table g = some p → p.slices 0 ≠ none → ∃ a id, Opened tr g a tr.length id
  template : ∀ g p, r.reassembler.table g = some p →
    ∃ e ∈ tr, ∃ f, e.IsSlice p.template.id f ∧ Spec.key f = g

/-- A call that delivers no group and changes none. -/
theorem Track.keep (h : Track tr r) (hI : r'.reassembler.Inv)
    (ht : r'.reassembler.table = r.reassembler.table)
    (he : ∀ id f, e.IsSlice id f → delivered e.2 = none) : Track (tr ++ [e]) r' where
  inv := hI
  opened g p hp h0 := by
    obtain ⟨a, id, ho⟩ := h.opened g p (ht ▸ hp) h0
    exact ⟨a, id, ho.snoc fun id f hs _ => he id f hs⟩
  template g p hp := by
    obtain ⟨e', he', hf⟩ := h.template g p (ht ▸ hp)
    exact ⟨e', List.mem_append_left _ he', hf⟩

/-- A slice of the group `g`. -/
theorem Track.update (h : Track tr r) (hI : r'.reassembler.Inv) {g : Spec.GroupKey} {x : Option Spec.Partial}
    (ht : r'.reassembler.table = Function.update r.reassembler.table g x)
    (he : ∀ id f, e.IsSlice id f → Spec.key f = g)
    (hx : ∀ q, x = some q → (q.slices 0 ≠ none → ∃ a id, Opened (tr ++ [e]) g a (tr ++ [e]).length id) ∧
      ∃ e' ∈ tr ++ [e], ∃ f, e'.IsSlice q.template.id f ∧ Spec.key f = g) : Track (tr ++ [e]) r' where
  inv := hI
  opened g' p hp h0 := by
    rw [ht] at hp
    by_cases hg : g' = g
    · subst hg
      rw [Function.update_self] at hp
      exact (hx p hp).1 h0
    · rw [Function.update_of_ne hg] at hp
      obtain ⟨a, id, ho⟩ := h.opened g' p hp h0
      exact ⟨a, id, ho.snoc fun id f hs hg' => absurd (hg'.symm.trans (he id f hs)) hg⟩
  template g' p hp := by
    rw [ht] at hp
    by_cases hg : g' = g
    · subst hg
      rw [Function.update_self] at hp
      exact (hx p hp).2
    · rw [Function.update_of_ne hg] at hp
      obtain ⟨e', he', hf⟩ := h.template g' p hp
      exact ⟨e', List.mem_append_left _ he', hf⟩

section Hear

variable {c : Transport × List UInt8} {m : Message} {f : Fragment} {p : Spec.Partial}

/-- The header of a group came with one of its slices. -/
theorem Track.exists_template (h : Track tr r) (hs : e.IsSlice m.id f)
    (hp : r.reassembler.table (Spec.key f) = some p ∨
      r.reassembler.table (Spec.key f) = none ∧ p = .start (m.arrived c.1)) :
    ∃ e' ∈ tr ++ [e], ∃ f', e'.IsSlice p.template.id f' ∧ Spec.key f' = Spec.key f := by
  rcases hp with hp | ⟨-, rfl⟩
  · obtain ⟨e', he', hf⟩ := h.template _ _ hp
    exact ⟨e', List.mem_append_left _ he', hf⟩
  · exact ⟨e, List.mem_append_right _ (List.mem_singleton_self e), f, hs, rfl⟩

/-- Slice 0 of a group is the one that arrives, or is there already. -/
theorem Track.opened_of_add (h : Track tr r)
    (hp : r.reassembler.table (Spec.key f) = some p ∨
      r.reassembler.table (Spec.key f) = none ∧ p = .start (m.arrived c.1))
    (h0 : (p.add f.seq.toNat m.payload).slices 0 ≠ none) :
    f.seq = 0 ∨ ∃ a id, Opened tr (Spec.key f) a tr.length id := by
  by_cases hseq : f.seq.toNat = 0
  · exact Or.inl (UInt16.toNat_inj.mp hseq)
  · right
    have h0' : p.slices 0 ≠ none := by
      have hne := Parts.insert_of_ne p.slices m.payload (Ne.symm hseq)
      rwa [show (p.add f.seq.toNat m.payload).slices 0 = p.slices 0 from hne] at h0
    rcases hp with hp | ⟨-, rfl⟩
    · exact h.opened _ _ hp h0'
    · exact absurd rfl h0'

theorem Track.hear (h : Track tr r) (c : Transport × List UInt8) :
    Track (tr ++ [(c, (r.hear c).1)]) (r.hear c).2 := by
  obtain ⟨hI, ⟨hd, ht⟩ | ⟨m, hm, -, hf, -, ht⟩ | ⟨m, f, p, hm, hn, hf, -, hp, hd, ht⟩⟩ := hear_table h.inv c
  · exact h.keep hI ht fun _ _ _ => hd
  · refine h.keep hI ht fun id f ⟨x, hx, _, hxf⟩ => ?_
    obtain rfl : m = x := Except.ok.inj (hm.symm.trans hx)
    rw [hf] at hxf
    cases hxf
  · have hs : Entry.IsSlice (c, (r.hear c).1) m.id f := ⟨m, hm, rfl, hf⟩
    have hkey : ∀ id f', Entry.IsSlice (c, (r.hear c).1) id f' → Spec.key f' = Spec.key f := by
      rintro id f' ⟨x, hx, -, hxf⟩
      obtain rfl : m = x := Except.ok.inj (hm.symm.trans hx)
      rw [hf] at hxf
      cases hxf
      rfl
    rw [Spec.Table.join] at ht hd
    split at ht
    · exact h.update hI ht hkey fun q hq => by cases hq
    · rename_i hall
      rw [if_neg hall] at hd
      refine h.update hI ht hkey fun q hq => ?_
      obtain rfl := Option.some.inj hq
      refine ⟨fun h0 => ?_, h.exists_template (p := p) hs hp⟩
      rcases h.opened_of_add hp h0 with hseq | ⟨a, id, ho⟩
      · exact ⟨_, _, opened_self hn hs hseq hd⟩
      · exact ⟨a, id, ho.snoc fun _ _ _ _ => hd⟩

/-- A call that hands a message over has a lead. -/
theorem Track.lead (h : Track tr r) {c : Transport × List UInt8} {x : Message}
    (hx : delivered (r.hear c).1 = some x)
    (hone : ∀ e ∈ tr ++ [(c, (r.hear c).1)], ∀ e' ∈ tr ++ [(c, (r.hear c).1)], ∀ id id' f f',
      e.IsSlice id f → e'.IsSlice id' f' → Spec.key f = Spec.key f' → id = id') :
    ∃ a, Lead (tr ++ [(c, (r.hear c).1)]) tr.length a x.id := by
  obtain ⟨-, ⟨hd, -⟩ | ⟨m, hm, hn, hf, hd, -⟩ | ⟨m, f, p, hm, hn, hf, htotal, hp, hd, -⟩⟩ :=
    hear_table h.inv c
  · rw [hd] at hx
    cases hx
  · rw [hd] at hx
    cases hx
    exact ⟨tr.length, Or.inl ⟨rfl, _, m, List.getElem?_concat_length, hn, hm, rfl, hf⟩⟩
  · have hs : Entry.IsSlice (c, (r.hear c).1) m.id f := ⟨m, hm, rfl, hf⟩
    obtain ⟨e', he', f', hs', hk'⟩ := h.exists_template hs hp
    rw [hd, Spec.Table.join] at hx
    split at hx
    · rename_i hall
      rw [Spec.Partial.deliver_add_id hx]
      have hlast := List.mem_append_right tr (List.mem_singleton_self (c, (r.hear c).1))
      rcases h.opened_of_add hp (hall 0 (Nat.pos_of_ne_zero fun h => htotal (UInt16.toNat_inj.mp h))) with
        hseq | ⟨a, id, ho⟩
      · -- the slice is its own lead
        refine ⟨tr.length, Or.inr ⟨Nat.le_refl _, _, m.id, f, List.getElem?_concat_length, hs, ?_⟩⟩
        rw [← hone _ hlast _ he' _ _ _ _ hs hs' hk'.symm]
        exact ⟨_, f, List.getElem?_concat_length, hn, hs, hseq, rfl, fun t _ _ _ h₁ h₂ => by omega⟩
      · have ho' : Opened (tr ++ [(c, (r.hear c).1)]) (Spec.key f) a tr.length id := ho.append (Nat.le_refl _)
        refine ⟨a, Or.inr ⟨Nat.le_of_lt ho.lt, _, m.id, f, List.getElem?_concat_length, hs, ?_⟩⟩
        obtain ⟨e₀, f₀, he₀, hn₀, hs₀, h0, hk₀, hq⟩ := ho'
        rw [← hone _ (List.mem_of_getElem? he₀) _ he' _ _ _ _ hs₀ hs' (hk₀.trans hk'.symm)]
        exact ⟨e₀, f₀, he₀, hn₀, hs₀, h0, hk₀, hq⟩
    · cases hx

end Hear

/-! ## Runs -/

theorem track_new (selfAddr : Addr) (idBase : UInt32) : Track [] (new selfAddr idBase : Relay NR NA NF) := by
  have hI : (new selfAddr idBase : Relay NR NA NF).reassembler.Inv :=
    Reassembler.inv_of_idle Reassembler.inFlight_new
  have ht := (Reassembler.inFlight_eq_zero hI).mp Reassembler.inFlight_new
  refine ⟨hI, fun g p hp => ?_, fun g p hp => ?_⟩
  · rw [ht g] at hp
    cases hp
  · rw [ht g] at hp
    cases hp

/-- The slots track every run. -/
theorem track_run (h : Track tr r) (l : List (Transport × List UInt8)) :
    Track (tr ++ r.trace l) (run hear r l).2 := by
  induction l generalizing tr r with
  | nil => rw [show r.trace [] = [] from rfl, List.append_nil]; exact h
  | cons c l ih =>
    have := ih (h.hear c)
    rwa [List.append_assoc] at this

end Relay

/-! ## Leads -/

section Lead

variable {tr : List Entry} {i j a : Nat} {id id' : UInt32}

/-- The lead of a delivery recorded its id. -/
theorem Lead.entry (h : Lead tr i a id) :
    ∃ e x, tr[a]? = some e ∧ isNew e.2 = true ∧ Message.decode e.1.2 = .ok x ∧ x.dedupKey = id := by
  rcases h with ⟨rfl, e, x, he, hn, hx, rfl, hf⟩ | ⟨-, -, -, -, -, -, e, f, he, hn, ⟨x, hx, rfl, hf⟩, h0, -⟩
  · exact ⟨e, x, he, hn, hx, Message.dedupKey_of_zero (by rw [Message.sliceIndex, hf]; rfl)⟩
  · exact ⟨e, x, he, hn, hx, Message.dedupKey_of_zero (by rw [Message.sliceIndex, hf]; exact h0)⟩

theorem Entry.IsSlice.unique {e : Entry} {f f' : Fragment} (h : e.IsSlice id f) (h' : e.IsSlice id' f') :
    f = f' := by
  obtain ⟨x, hx, -, hf⟩ := h
  obtain ⟨x', hx', -, hf'⟩ := h'
  obtain rfl : x = x' := Except.ok.inj (hx.symm.trans hx')
  exact Option.some.inj (hf.symm.trans hf')

/-- A later delivery has another lead. -/
theorem Lead.ne {e : Entry} (hij : i < j) (he : tr[i]? = some e) (hd : delivered e.2 ≠ none)
    (h : Lead tr i a id) (h' : Lead tr j a id') : False := by
  rcases h' with ⟨rfl, -⟩ | ⟨-, e₂, id₂, f₂, he₂, hs₂, ea, fa, hea, hna, hsa, h0, hk, hq⟩
  · rcases h with ⟨rfl, -⟩ | ⟨hai, -⟩
    · exact absurd hij (Nat.lt_irrefl _)
    · exact absurd hai (Nat.not_le.mpr hij)
  · rcases h with ⟨rfl, e₁, x, he₁, -, hx, -, hf⟩ | ⟨hai, e₁, id₁, f₁, he₁, hs₁, eb, fb, heb, -, hsb, -, hk', -⟩
    · -- a whole frame is no slice
      obtain ⟨y, hy, -, hfy⟩ := hsa
      obtain rfl : e₁ = ea := Option.some.inj (he₁.symm.trans hea)
      obtain rfl : x = y := Except.ok.inj (hx.symm.trans hy)
      rw [hf] at hfy
      cases hfy
    · -- the group was delivered at `i`, after `a`
      obtain rfl : ea = eb := Option.some.inj (hea.symm.trans heb)
      obtain rfl := hsa.unique hsb
      obtain rfl : e = e₁ := Option.some.inj (he.symm.trans he₁)
      exact hd (hq i e id₁ f₁ hai hij he hs₁ (hk'.symm.trans hk))

end Lead

namespace Relay

variable {NR NA NF : Nat} {r : Relay NR NA NF}

/-- Every delivery of a run has a lead. -/
theorem exists_lead (hr : Track [] r) {l : List (Transport × List UInt8)} (h : OneMessagePerGroup l) {i : Nat}
    {e : Entry} {m : Message} (he : (r.trace l)[i]? = some e) (hm : delivered e.2 = some m) :
    ∃ a, Lead (r.trace l) i a m.id := by
  obtain ⟨l₁, l₂, rfl, rfl, he2⟩ := trace_split he
  have hentry : (e.1, ((run hear r l₁).2.hear e.1).1) = e := by rw [← he2]
  have hmem : ∀ e' ∈ r.trace l₁ ++ [e], e'.1 ∈ l₁ ++ e.1 :: l₂ := fun e' he' => by
    rcases List.mem_append.mp he' with he' | he'
    · exact List.mem_append_left _ (List.of_mem_zip he').1
    · rw [List.mem_singleton.mp he']
      exact List.mem_append_right _ List.mem_cons_self
  have ht := track_run hr l₁
  rw [List.nil_append] at ht
  obtain ⟨a, hlead⟩ := ht.lead (he2 ▸ hm) (by
    rw [hentry]
    rintro e₁ he₁ e₂ he₂ _ _ f₁ f₂ ⟨x, hx, rfl, hf⟩ ⟨x', hx', rfl, hf'⟩ hk
    exact h _ (hmem e₁ he₁) _ (hmem e₂ he₂) x x' f₁ f₂ hx hx' hf hf' (congrArg Prod.fst hk))
  rw [hentry, length_trace] at hlead
  refine ⟨a, ?_⟩
  rw [trace_append, trace_cons, hentry, ← List.singleton_append, ← List.append_assoc]
  exact hlead.append

end Relay

end RelayStar
