import RelayStar.Impl.Endpoint

/-!
# The address of the broker

An address is taken exactly if it is four decimals of at most 255 with points
between them, and it is the one that these spell; a port is that of its text, if it
has one, or 1883 (`endpoint_exact`).
-/

namespace RelayStar

theorem length_parseOctets {octets : List (List Char)} {parts parts' : Ipv4Address} {i i' : Nat}
    (h : parseOctets octets parts i = some (parts', i')) : i' = i + octets.length := by
  induction octets generalizing parts i with
  | nil =>
    cases h
    rfl
  | cons octet octets ih =>
    rw [parseOctets] at h
    split at h
    · split at h
      · cases h
      · rw [ih h, List.length_cons]
        omega
    · cases h

theorem parseUnsigned_toNat {l : List Char} {b : UInt8} :
    parseUnsigned 255 l = some b.toNat ↔ Spells l b.toNat := by
  have := b.toNat_lt
  rw [parseUnsigned_eq_some]
  exact and_iff_left (by omega)

/-- An octet that is read is the one that is spelt. -/
theorem octet_iff {l : List Char} {n : Nat} (h : parseUnsigned 255 l = some n) (b : UInt8) :
    UInt8.ofNat n = b ↔ Spells l b.toNat := by
  have hn := (parseUnsigned_eq_some.mp h).2
  rw [← parseUnsigned_toNat, h, Option.some.injEq, ← UInt8.toNat_inj, UInt8.toNat_ofNat', Nat.mod_eq_of_lt (by omega)]

theorem parseOctets_four {a b c d : List Char} {parts ip : Ipv4Address} :
    parseOctets [a, b, c, d] parts 0 = some (ip, 4) ↔
      Spells a ip[0].toNat ∧ Spells b ip[1].toNat ∧ Spells c ip[2].toNat ∧ Spells d ip[3].toNat := by
  have hnone {l : List Char} (h : parseUnsigned 255 l = none) (x : UInt8) : ¬ Spells l x.toNat := fun hs => by
    rw [parseUnsigned_toNat.mpr hs] at h
    cases h
  cases ha : parseUnsigned 255 a with
  | none => simp [parseOctets, ha, hnone ha]
  | some na =>
    cases hb : parseUnsigned 255 b with
    | none => simp [parseOctets, ha, hb, hnone hb]
    | some nb =>
      cases hc : parseUnsigned 255 c with
      | none => simp [parseOctets, ha, hb, hc, hnone hc]
      | some nc =>
        cases hd : parseUnsigned 255 d with
        | none => simp [parseOctets, ha, hb, hc, hd, hnone hd]
        | some nd =>
          rw [← octet_iff ha, ← octet_iff hb, ← octet_iff hc, ← octet_iff hd]
          simp only [parseOctets, ha, hb, hc, hd, Nat.reduceLT, dite_true, Nat.reduceAdd, Option.some.injEq,
            Prod.mk.injEq, and_true]
          constructor
          · rintro rfl
            simp
          · rintro ⟨h0, h1, h2, h3⟩
            refine Vector.ext fun i hi => ?_
            rcases (by omega : i = 0 ∨ i = 1 ∨ i = 2 ∨ i = 3) with rfl | rfl | rfl | rfl <;>
              simp [h0, h1, h2, h3]

theorem parseIpv4_eq_some {s : String} {ip : Ipv4Address} :
    parseIpv4 s = some ip ↔ ∃ a b c d, s.toList = a ++ '.' :: (b ++ '.' :: (c ++ '.' :: d)) ∧
      Spells a ip[0].toNat ∧ Spells b ip[1].toNat ∧ Spells c ip[2].toNat ∧ Spells d ip[3].toNat := by
  have hiff : parseIpv4 s = some ip ↔ parseOctets (s.toList.splitOn '.') (Vector.replicate 4 0) 0 = some (ip, 4) := by
    rw [parseIpv4]
    cases parseOctets (s.toList.splitOn '.') (Vector.replicate 4 0) 0 with
    | none => simp
    | some x =>
      dsimp only
      split <;> simp [Prod.ext_iff, *]
  have hdots (a b c d : List Char) : ['.'].intercalate [a, b, c, d] = a ++ '.' :: (b ++ '.' :: (c ++ '.' :: d)) := by
    simp [List.intercalate_cons_cons]
  rw [hiff]
  constructor
  · intro h
    have hlen := length_parseOctets h
    obtain ⟨a, b, c, d, hsplit⟩ : ∃ a b c d, s.toList.splitOn '.' = [a, b, c, d] := by
      generalize s.toList.splitOn '.' = octets at hlen
      match octets, hlen with
      | [a, b, c, d], _ => exact ⟨a, b, c, d, rfl⟩
    rw [hsplit, parseOctets_four] at h
    exact ⟨a, b, c, d, by rw [← hdots, ← hsplit, List.intercalate_splitOn], h⟩
  · rintro ⟨a, b, c, d, hs, ha, hb, hc, hd⟩
    have hsplit : s.toList.splitOn '.' = [a, b, c, d] := by
      rw [hs, ← hdots]
      refine List.splitOn_intercalate _ (fun l hl => ?_) (List.cons_ne_nil _ _)
      simp only [List.mem_cons, List.not_mem_nil, or_false] at hl
      rcases hl with rfl | rfl | rfl | rfl
      · exact ha.not_mem
      · exact hb.not_mem
      · exact hc.not_mem
      · exact hd.not_mem
    rw [hsplit, parseOctets_four]
    exact ⟨ha, hb, hc, hd⟩

/-- The port that is spelt, or the default. -/
theorem port_iff {l : List Char} {port : UInt16} :
    ((parseUnsigned 65535 l).map UInt16.ofNat).getD 1883 = port ↔
      Spells l port.toNat ∨ port = 1883 ∧ ∀ n ≤ 65535, ¬ Spells l n := by
  have hlt := port.toNat_lt
  have hparse : parseUnsigned 65535 l = some port.toNat ↔ Spells l port.toNat :=
    parseUnsigned_eq_some.trans (and_iff_left (by omega))
  cases h : parseUnsigned 65535 l with
  | none =>
    rw [h] at hparse
    have hnone : ∀ n ≤ 65535, ¬ Spells l n := fun n hn hs => by
      rw [parseUnsigned_eq_some.mpr ⟨hs, hn⟩] at h
      cases h
    exact ⟨fun heq => .inr ⟨heq.symm, hnone⟩, fun hor => hor.elim (fun hs => nomatch hparse.mpr hs) fun hd => hd.1.symm⟩
  | some n =>
    obtain ⟨hs, hn⟩ := parseUnsigned_eq_some.mp h
    have hport : UInt16.ofNat n = port ↔ Spells l port.toNat := by
      rw [← hparse, h, Option.some.injEq, ← UInt16.toNat_inj, UInt16.toNat_ofNat', Nat.mod_eq_of_lt (by omega)]
    exact hport.trans ⟨.inl, fun hor => hor.resolve_right fun hd => hd.2 n hn hs⟩

/-- The usual notation of an address. -/
def dotted (ip : Ipv4Address) : String :=
  String.ofList (ip[0].toNat.repr.toList ++ '.' :: (ip[1].toNat.repr.toList ++
    '.' :: (ip[2].toNat.repr.toList ++ '.' :: ip[3].toNat.repr.toList)))

/-- The task connects exactly where the address is four decimals of at most 255,
which can have zeros and a plus sign in front, with points between them; it connects
to the address that these spell, and to the port that is spelt, or to port 1883 if
none is. The usual notation of an address is taken for it. -/
theorem endpoint_exact :
    (∀ (s p : String) (ip : Ipv4Address) (port : UInt16), brokerEndpoint s p = some (ip, port) ↔
      (∃ a b c d, s.toList = a ++ '.' :: (b ++ '.' :: (c ++ '.' :: d)) ∧
        Spells a ip[0].toNat ∧ Spells b ip[1].toNat ∧ Spells c ip[2].toNat ∧ Spells d ip[3].toNat) ∧
      (Spells p.toList port.toNat ∨ port = 1883 ∧ ∀ n ≤ 65535, ¬ Spells p.toList n)) ∧
    ∀ ip, parseIpv4 (dotted ip) = some ip := by
  constructor
  · intro s p ip port
    rw [← parseIpv4_eq_some, brokerEndpoint]
    cases parseIpv4 s with
    | none => simp
    | some ip' => simp [port_iff]
  · intro ip
    refine parseIpv4_eq_some.mpr ⟨_, _, _, _, ?_, spells_repr _, spells_repr _, spells_repr _, spells_repr _⟩
    rw [dotted, String.toList_ofList]

end RelayStar
