import SpanRules.Proofs.Source.Quoted
import SpanRules.Proofs.Text.Utf8
import SpanRules.Proofs.Unicode.Lower
import SpanRules.Text.Lower

/-! Lower case of texts: it is in lower case already, and the marks of ASCII stay where they were,
so that names stay names. -/
namespace SpanRules

namespace Utf8
variable {b : UInt8} {code : Nat}

theorem encode_of_lt (h : code < 0x80) : encode code = [code.toUInt8] := by
  rw [encode, if_pos h]

/-- Only a character of ASCII has bytes of ASCII in its sequence. -/
theorem le_of_mem_encode (h : code < 0x200000) (hcode : 0x80 ≤ code) (hb : b ∈ encode code) :
    0x80 ≤ b.toNat := by
  unfold encode at hb
  rw [if_neg (by omega)] at hb
  split at hb
  · simp only [List.mem_cons, List.not_mem_nil, or_false] at hb
    rcases hb with rfl | rfl <;> rw [UInt8.toNat_ofNat'] <;> omega
  · split at hb
    · simp only [List.mem_cons, List.not_mem_nil, or_false] at hb
      rcases hb with rfl | rfl | rfl <;> rw [UInt8.toNat_ofNat'] <;> omega
    · simp only [List.mem_cons, List.not_mem_nil, or_false] at hb
      rcases hb with rfl | rfl | rfl | rfl <;> rw [UInt8.toNat_ofNat'] <;> omega

theorem encode_eq_singleton_of_mem (h : code < 0x200000) (hb : b ∈ encode code)
    (hlt : b.toNat < 0x80) : code = b.toNat ∧ encode code = [b] := by
  rcases Nat.lt_or_ge code 0x80 with hcode | hcode
  · rw [encode_of_lt hcode, List.mem_singleton] at hb
    rw [encode_of_lt hcode, hb]
    exact ⟨(UInt8.toNat_ofNat_of_lt' (show code < 256 by omega)).symm, rfl⟩
  · have := le_of_mem_encode h hcode hb
    omega

end Utf8

namespace Text
open Utf8
variable {t : Text} {m : UInt8} {code : Nat}

/-- The bytes of ASCII at the start need no decoding: each is the sequence of its own code, before
and after. -/
theorem lowerBy_eq_mapCodes (table : Nat → Nat) (t : Text) :
    lowerBy table t = mapCodes (Unicode.toLowerBy table) t := by
  induction t with
  | nil => rfl
  | cons b t ih =>
    unfold lowerBy
    split
    · rename_i hb
      simp only [UInt8.lt_iff_toNat_lt, UInt8.reduceToNat] at hb
      have hcode : encode b.toNat = [b] := by rw [encode_of_lt hb, toUInt8_eq rfl]
      have hmap := mapCodes_encode_append (Unicode.toLowerBy table)
        (show b.toNat < 0x200000 by omega) t
      rw [hcode, List.singleton_append] at hmap
      rw [hmap, encode_of_lt (Unicode.toLowerBy_lt_of_lt table hb), ih]
      rfl
    · rfl

theorem lower_eq_mapCodes (t : Text) : t.lower = mapCodes Unicode.toLower t :=
  lowerBy_eq_mapCodes _ t

@[simp] theorem lower_nil : lower [] = [] := rfl

theorem lower_encode_append (h : code < 0x200000) (rest : Text) :
    lower (encode code ++ rest) = encode (Unicode.toLower code) ++ lower rest := by
  rw [lower_eq_mapCodes, lower_eq_mapCodes, mapCodes_encode_append _ h rest]

theorem lower_cons {b : UInt8} (h : decode (b :: t) = none) : lower (b :: t) = b :: lower t := by
  rw [lower_eq_mapCodes, lower_eq_mapCodes, mapCodes_cons _ h]

/-- Lower case is in lower case already, as the table is: bytes outside characters stay outside
characters, because a sequence in lower case breaks off where it did before. -/
theorem lowerBy_lowerBy {table : Nat → Nat} (h : Unicode.Settled table) (t : Text) :
    lowerBy table (lowerBy table t) = lowerBy table t := by
  rw [lowerBy_eq_mapCodes, lowerBy_eq_mapCodes, mapCodes_mapCodes h.lt]
  exact mapCodes_congr fun code hcode => h.again code hcode

theorem lower_lower (t : Text) : t.lower.lower = t.lower :=
  lowerBy_lowerBy Unicode.settled_tableLower t

/-- The bytes that matter for the source form of a name. -/
def isMark (m : UInt8) : Bool := m == byte '\n' || m == byte '/' || m == byte '\\'

theorem toNat_of_isMark (h : isMark m = true) :
    m.toNat < 0x41 ∨ (0x5A < m.toNat ∧ m.toNat ≤ 0x60) := by
  simp only [isMark, Bool.or_eq_true, beq_iff_eq] at h
  rcases h with (rfl | rfl) | rfl <;> decide

/-- A character is a mark if and only if its lower case is. -/
theorem encode_toLower_of_isMark (hm : isMark m = true) (hcode : code < 0x200000) :
    (m ∈ encode (Unicode.toLower code) ↔ code = m.toNat) ∧ (m ∈ encode code ↔ code = m.toNat) := by
  have hlt := toNat_of_isMark hm
  have hmem : ∀ {code : Nat}, code < 0x200000 → (m ∈ encode code ↔ code = m.toNat) := by
    intro code h
    constructor
    · intro hmem
      exact (encode_eq_singleton_of_mem h hmem (by omega)).1
    · rintro rfl
      rw [encode_of_lt (by omega), toUInt8_eq rfl]
      exact List.mem_singleton.2 rfl
  exact ⟨(hmem (Unicode.toLower_lt hcode)).trans (Unicode.toLower_eq_iff hlt), hmem hcode⟩

theorem mem_lower (hm : isMark m = true) : m ∈ t.lower ↔ m ∈ t := by
  induction t using glyph_induction with
  | nil => rfl
  | char code rest h ih =>
    obtain ⟨hlower, hsame⟩ := encode_toLower_of_isMark hm h
    rw [lower_encode_append h, List.mem_append, List.mem_append, ih, hlower, hsame]
  | stray b rest h ih => rw [lower_cons h, List.mem_cons, List.mem_cons, ih]

theorem head?_lower (hm : isMark m = true) : t.lower.head? = some m ↔ t.head? = some m := by
  have hhead : ∀ {code : Nat} (rest : Text), code < 0x200000 →
      ((encode code ++ rest).head? = some m ↔ m ∈ encode code) := by
    intro code rest h
    constructor
    · intro hm'
      obtain ⟨b, t, ht, _⟩ := encode_eq_cons h
      rw [ht] at hm' ⊢
      exact List.mem_cons.2 (.inl (Option.some.inj hm').symm)
    · intro hmem
      have := toNat_of_isMark hm
      rw [(encode_eq_singleton_of_mem h hmem (by omega)).2]
      rfl
  induction t using glyph_induction with
  | nil => rfl
  | char code rest h =>
    obtain ⟨hlower, hsame⟩ := encode_toLower_of_isMark hm h
    rw [lower_encode_append h, hhead _ h, hhead _ (Unicode.toLower_lt h), hlower, hsame]
  | stray b rest h => rw [lower_cons h, List.head?_cons, List.head?_cons]

theorem lower_ne_nil (h : t ≠ []) : t.lower ≠ [] := by
  induction t using glyph_induction with
  | nil => exact absurd rfl h
  | char code rest hcode =>
    obtain ⟨b, u, hu, _⟩ := encode_eq_cons (Unicode.toLower_lt hcode)
    rw [lower_encode_append hcode, hu]
    exact List.cons_ne_nil _ _
  | stray b rest hd =>
    rw [lower_cons hd]
    exact List.cons_ne_nil _ _

theorem getLast?_lower (hm : isMark m = true) :
    t.lower.getLast? = some m ↔ t.getLast? = some m := by
  have hlast : ∀ {code : Nat}, code < 0x200000 →
      ((encode code).getLast? = some m ↔ m ∈ encode code) := by
    intro code h
    constructor
    · intro hm'
      exact List.mem_of_getLast? hm'
    · intro hmem
      have := toNat_of_isMark hm
      rw [(encode_eq_singleton_of_mem h hmem (by omega)).2]
      rfl
  have happ : ∀ {u v : Text}, v ≠ [] → ((u ++ v).getLast? = some m ↔ v.getLast? = some m) := by
    intro u v hv
    rw [List.getLast?_append_of_ne_nil _ hv]
  induction t using glyph_induction with
  | nil => rfl
  | char code rest h ih =>
    obtain ⟨hlower, hsame⟩ := encode_toLower_of_isMark hm h
    rw [lower_encode_append h]
    by_cases hrest : rest = []
    · rw [hrest, lower_nil, List.append_nil, List.append_nil, hlast h,
        hlast (Unicode.toLower_lt h), hlower, hsame]
    · exact ((happ (lower_ne_nil hrest)).trans ih).trans (happ hrest).symm
  | stray b rest h ih =>
    rw [lower_cons h]
    by_cases hrest : rest = []
    · rw [hrest, lower_nil]
    · exact ((happ (u := [b]) (lower_ne_nil hrest)).trans ih).trans (happ (u := [b]) hrest).symm

theorem uncommented_encode (h : code < 0x200000) : Uncommented (encode code) := by
  by_cases hslash : byte '/' ∈ encode code
  · rw [(encode_eq_singleton_of_mem h hslash (by decide)).2]
    exact uncommented_singleton _
  · rw [uncommented_iff]
    exact fun hslashes => hslash (hslashes.subset (List.mem_cons_self))

theorem Uncommented.lower (h : t.Uncommented) : t.lower.Uncommented := by
  have hslash : isMark (byte '/') = true := by decide
  induction t using glyph_induction with
  | nil => exact uncommented_nil
  | char code rest hcode ih =>
    rw [lower_encode_append hcode]
    have hfirst := uncommented_encode (Unicode.toLower_lt hcode)
    apply hfirst.append (ih (List.IsChain.right_of_append h))
    obtain ⟨hlower, hsame⟩ := encode_toLower_of_isMark hslash hcode
    by_cases hmem : byte '/' ∈ encode code
    · right
      rw [Ne, head?_lower hslash]
      intro hhead
      rw [(encode_eq_singleton_of_mem hcode hmem (by decide)).2] at h
      exact h.rel_head? hhead ⟨rfl, rfl⟩
    · left
      exact fun hlast => hmem (hsame.2 (hlower.1 (List.mem_of_getLast? hlast)))
  | stray b rest hd ih =>
    rw [lower_cons hd]
    apply List.IsChain.cons (ih h.tail)
    intro c hc hbc
    rw [hbc.2, Option.mem_def, head?_lower hslash] at hc
    exact h.rel_head? hc ⟨hbc.1, rfl⟩

theorem Nameable.lower {n : Text} (h : n.Nameable) : n.lower.Nameable :=
  ⟨⟨fun hmem => h.quiet.feed ((mem_lower (by decide)).1 hmem), h.quiet.uncommented.lower⟩,
    fun hlast => h.backslash ((getLast?_lower (by decide)).1 hlast)⟩

end Text

end SpanRules
