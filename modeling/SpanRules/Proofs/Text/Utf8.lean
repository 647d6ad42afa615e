import SpanRules.Proofs.Text.Glyphs

/-! Decoding and encoding belong together: a text starts with a character if and only if it starts
with the sequence of its code. -/
namespace SpanRules.Utf8
variable {a b c d : UInt8} {t rest : Text} {code x y z w : Nat}
open UInt8 (toNat_ofNat_of_lt')

theorem continuation?_eq_some_iff : continuation? b = some y ↔ b.toNat = 0x80 + y ∧ y < 64 := by
  unfold continuation?
  simp only [UInt8.le_iff_toNat_le, UInt8.lt_iff_toNat_lt, UInt8.reduceToNat]
  split
  · rw [Option.some.injEq]
    omega
  · simp only [reduceCtorEq, false_iff]
    omega

theorem continuation?_toUInt8 (hy : y < 64) : continuation? (0x80 + y).toUInt8 = some y :=
  continuation?_eq_some_iff.2 ⟨toNat_ofNat_of_lt' (show 0x80 + y < 256 by omega), hy⟩

theorem decode_encode (h : code < 0x200000) (rest : Text) :
    decode (encode code ++ rest) = some code := by
  unfold encode
  split
  · have hlead := toNat_ofNat_of_lt' (show code < 256 by omega)
    simp only [List.singleton_append, decode, UInt8.lt_iff_toNat_lt, UInt8.reduceToNat, hlead]
    rw [if_pos ‹_›]
  · split
    · have hlead := toNat_ofNat_of_lt' (show 0xC0 + code / 64 < 256 by omega)
      have htail := continuation?_toUInt8 (show code % 64 < 64 by omega)
      simp only [List.cons_append, List.nil_append, decode, UInt8.lt_iff_toNat_lt,
        UInt8.reduceToNat, hlead, htail]
      rw [if_neg (by omega), if_neg (by omega), if_pos (by omega)]
      simp only [Option.bind_eq_bind, Option.bind_some]
      rw [if_neg (by omega), Option.some.injEq]
      omega
    · split
      · have hlead := toNat_ofNat_of_lt' (show 0xE0 + code / 4096 < 256 by omega)
        have hmid := continuation?_toUInt8 (show code / 64 % 64 < 64 by omega)
        have htail := continuation?_toUInt8 (show code % 64 < 64 by omega)
        simp only [List.cons_append, List.nil_append, decode, UInt8.lt_iff_toNat_lt,
          UInt8.reduceToNat, hlead, hmid, htail]
        rw [if_neg (by omega), if_neg (by omega), if_neg (by omega), if_pos (by omega)]
        simp only [Option.bind_eq_bind, Option.bind_some]
        rw [if_neg (by omega), Option.some.injEq]
        omega
      · have hlead := toNat_ofNat_of_lt' (show 0xF0 + code / 262144 % 16 < 256 by omega)
        have hhigh := continuation?_toUInt8 (show code / 4096 % 64 < 64 by omega)
        have hmid := continuation?_toUInt8 (show code / 64 % 64 < 64 by omega)
        have htail := continuation?_toUInt8 (show code % 64 < 64 by omega)
        simp only [List.cons_append, List.nil_append, decode, UInt8.lt_iff_toNat_lt,
          UInt8.reduceToNat, hlead, hhigh, hmid, htail]
        rw [if_neg (by omega), if_neg (by omega), if_neg (by omega), if_neg (by omega),
          if_pos (by omega)]
        simp only [Option.bind_eq_bind, Option.bind_some]
        rw [if_neg (by omega), Option.some.injEq]
        omega

theorem toUInt8_eq (h : x = a.toNat) : x.toUInt8 = a := by
  rw [h]
  exact UInt8.ofNat_toNat

/-- A sequence is that of its code; longer forms are no sequences. -/
theorem encode_of_decode (h : decode t = some code) : code < 0x200000 ∧ encode code <+: t := by
  cases t with
  | nil => cases h
  | cons a t =>
    simp only [decode, UInt8.lt_iff_toNat_lt, UInt8.reduceToNat] at h
    split at h
    · rename_i ha
      cases h
      constructor
      · omega
      · rw [encode, if_pos ha, toUInt8_eq rfl]
        exact List.prefix_append [a] t
    · split at h
      · cases h
      · split at h
        · cases t with
          | nil => cases h
          | cons b t =>
            obtain ⟨y, hy, h⟩ := Option.bind_eq_some_iff.1 h
            obtain ⟨hb, hy⟩ := continuation?_eq_some_iff.1 hy
            split at h
            · cases h
            · cases h
              constructor
              · omega
              · rw [encode, if_neg ‹_›, if_pos (by omega), toUInt8_eq (a := a) (by omega),
                  toUInt8_eq (a := b) (by omega)]
                exact List.prefix_append [a, b] t
        · split at h
          · match t with
            | [] => cases h
            | [_] => cases h
            | b :: c :: t =>
              obtain ⟨y, hy, h⟩ := Option.bind_eq_some_iff.1 h
              obtain ⟨z, hz, h⟩ := Option.bind_eq_some_iff.1 h
              obtain ⟨hb, hy⟩ := continuation?_eq_some_iff.1 hy
              obtain ⟨hc, hz⟩ := continuation?_eq_some_iff.1 hz
              split at h
              · cases h
              · cases h
                constructor
                · omega
                · rw [encode, if_neg (by omega), if_neg ‹_›, if_pos (by omega),
                    toUInt8_eq (a := a) (by omega), toUInt8_eq (a := b) (by omega),
                    toUInt8_eq (a := c) (by omega)]
                  exact List.prefix_append [a, b, c] t
          · split at h
            · match t with
              | [] => cases h
              | [_] => cases h
              | [_, _] => cases h
              | b :: c :: d :: t =>
                obtain ⟨y, hy, h⟩ := Option.bind_eq_some_iff.1 h
                obtain ⟨z, hz, h⟩ := Option.bind_eq_some_iff.1 h
                obtain ⟨w, hw, h⟩ := Option.bind_eq_some_iff.1 h
                obtain ⟨hb, hy⟩ := continuation?_eq_some_iff.1 hy
                obtain ⟨hc, hz⟩ := continuation?_eq_some_iff.1 hz
                obtain ⟨hd, hw⟩ := continuation?_eq_some_iff.1 hw
                split at h
                · cases h
                · cases h
                  constructor
                  · omega
                  · rw [encode, if_neg (by omega), if_neg (by omega), if_neg ‹_›,
                      toUInt8_eq (a := a) (by omega), toUInt8_eq (a := b) (by omega),
                      toUInt8_eq (a := c) (by omega), toUInt8_eq (a := d) (by omega)]
                    exact List.prefix_append [a, b, c, d] t
            · cases h

theorem glyphsAfter_eq (skip : Nat) (t : Text) : glyphsAfter skip t = glyphs (t.drop skip) := by
  induction t generalizing skip with
  | nil => cases skip <;> rfl
  | cons b t ih =>
    cases skip with
    | zero => rfl
    | succ skip => rw [glyphsAfter, ih, List.drop_succ_cons]

/-- The first byte of a sequence tells its length and goes on with no other sequence. -/
theorem encode_eq_cons (h : code < 0x200000) : ∃ b t, encode code = b :: t ∧
    charLen b = (b :: t).length ∧ continuation? b = none := by
  have hnone : ∀ {b : UInt8}, b.toNat < 0x80 ∨ 0xC0 ≤ b.toNat → continuation? b = none := by
    intro b hb
    apply Option.eq_none_iff_forall_ne_some.2
    intro y hy
    have := continuation?_eq_some_iff.1 hy
    omega
  unfold encode
  split
  · have hlead := toNat_ofNat_of_lt' (show code < 256 by omega)
    refine ⟨_, _, rfl, ?_, hnone (by rw [hlead]; omega)⟩
    simp only [charLen, UInt8.lt_iff_toNat_lt, hlead, UInt8.reduceToNat]
    rw [if_pos (by omega)]
    rfl
  · split
    · have hlead := toNat_ofNat_of_lt' (show 0xC0 + code / 64 < 256 by omega)
      refine ⟨_, _, rfl, ?_, hnone (by rw [hlead]; omega)⟩
      simp only [charLen, UInt8.lt_iff_toNat_lt, hlead, UInt8.reduceToNat]
      rw [if_neg (by omega), if_pos (by omega)]
      rfl
    · split
      · have hlead := toNat_ofNat_of_lt' (show 0xE0 + code / 4096 < 256 by omega)
        refine ⟨_, _, rfl, ?_, hnone (by rw [hlead]; omega)⟩
        simp only [charLen, UInt8.lt_iff_toNat_lt, hlead, UInt8.reduceToNat]
        rw [if_neg (by omega), if_neg (by omega), if_pos (by omega)]
        rfl
      · have hlead := toNat_ofNat_of_lt' (show 0xF0 + code / 262144 % 16 < 256 by omega)
        refine ⟨_, _, rfl, ?_, hnone (by rw [hlead]; omega)⟩
        simp only [charLen, UInt8.lt_iff_toNat_lt, hlead, UInt8.reduceToNat]
        rw [if_neg (by omega), if_neg (by omega), if_neg (by omega)]
        rfl

theorem glyphs_encode_append (h : code < 0x200000) (rest : Text) :
    glyphs (encode code ++ rest) = ⟨encode code, some code⟩ :: glyphs rest := by
  obtain ⟨b, t, ht, hlen, _⟩ := encode_eq_cons h
  have hdecode := decode_encode h rest
  rw [ht, List.cons_append] at hdecode
  have hfirst : firstGlyph b (t ++ rest) = ⟨encode code, some code⟩ := by
    rw [firstGlyph, hdecode, hlen, ht, ← List.cons_append, List.take_left]
  rw [ht, List.cons_append, glyphs, glyphsAfter, hfirst, glyphsAfter_eq, ht, List.length_cons,
    Nat.add_sub_cancel, List.drop_left]

theorem glyphs_cons (h : decode (b :: t) = none) :
    glyphs (b :: t) = ⟨[b], none⟩ :: glyphs t := by
  have hfirst : firstGlyph b t = ⟨[b], none⟩ := by rw [firstGlyph, h]
  rw [glyphs, glyphsAfter, hfirst, glyphsAfter_eq]
  rfl

/-- Induction on a text character by character. -/
theorem glyph_induction {P : Text → Prop} (nil : P [])
    (char : ∀ code rest, code < 0x200000 → P rest → P (encode code ++ rest))
    (stray : ∀ b rest, decode (b :: rest) = none → P rest → P (b :: rest)) (t : Text) : P t := by
  generalize hn : t.length = n
  induction n using Nat.strongRecOn generalizing t with
  | ind n ih =>
    cases t with
    | nil => exact nil
    | cons b t =>
      rw [List.length_cons] at hn
      cases hd : decode (b :: t) with
      | none => exact stray b t hd (ih t.length (by omega) t rfl)
      | some code =>
        obtain ⟨hcode, rest, hrest⟩ := encode_of_decode hd
        obtain ⟨c, u, hu, _⟩ := encode_eq_cons hcode
        have hlen := congrArg List.length hrest
        rw [hu, List.length_append, List.length_cons, List.length_cons] at hlen
        rw [← hrest]
        exact char code rest hcode (ih rest.length (by omega) rest rfl)

section
variable (f : Nat → Nat)

theorem mapCodes_encode_append (h : code < 0x200000) (rest : Text) :
    mapCodes f (encode code ++ rest) = encode (f code) ++ mapCodes f rest := by
  rw [mapCodes, glyphs_encode_append h, List.flatMap_cons]
  rfl

theorem mapCodes_cons (h : decode (b :: t) = none) : mapCodes f (b :: t) = b :: mapCodes f t := by
  rw [mapCodes, glyphs_cons h, List.flatMap_cons]
  rfl

end

/-- Only the codes within the reach of UTF-8 are ever mapped. -/
theorem mapCodes_congr {f g : Nat → Nat} (h : ∀ code < 0x200000, f code = g code) :
    mapCodes f t = mapCodes g t := by
  induction t using glyph_induction with
  | nil => rfl
  | char code rest hcode ih =>
    rw [mapCodes_encode_append f hcode, mapCodes_encode_append g hcode, h code hcode, ih]
  | stray b rest hstray ih => rw [mapCodes_cons f hstray, mapCodes_cons g hstray, ih]

/-- The bytes at the start of a text that may go on with a sequence. -/
def continuing (t : Text) : Text := t.takeWhile fun b => (continuation? b).isSome

theorem decode_cons_continuing (a : UInt8) (t : Text) :
    decode (a :: continuing t) = decode (a :: t) := by
  match t with
  | [] => rfl
  | [b] => cases hb : continuation? b <;> simp [continuing, decode, hb]
  | [b, c] =>
    cases hb : continuation? b
    · simp [continuing, decode, hb]
    · cases hc : continuation? c <;> simp [continuing, decode, hb, hc]
  | b :: c :: d :: t =>
    cases hb : continuation? b
    · simp [continuing, decode, hb]
    · cases hc : continuation? c
      · simp [continuing, decode, hb, hc]
      · cases hd : continuation? d <;> simp [continuing, decode, hb, hc, hd]

theorem continuing_mapCodes {f : Nat → Nat} (hf : ∀ code < 0x200000, f code < 0x200000) (t : Text) :
    continuing (mapCodes f t) = continuing t := by
  have hencode : ∀ {code : Nat} (rest : Text), code < 0x200000 →
      continuing (encode code ++ rest) = [] := by
    intro code rest h
    obtain ⟨b, t, ht, _, hb⟩ := encode_eq_cons h
    simp [continuing, ht, hb]
  induction t using glyph_induction with
  | nil => rfl
  | char code rest h ih =>
    rw [mapCodes_encode_append f h, hencode _ h, hencode _ (hf code h)]
  | stray b rest h ih =>
    unfold continuing at ih ⊢
    rw [mapCodes_cons f h, List.takeWhile_cons, List.takeWhile_cons, ih]

/-- Mapping twice is mapping with both maps, as long as the codes stay within reach. -/
theorem mapCodes_mapCodes {f g : Nat → Nat} (hf : ∀ code < 0x200000, f code < 0x200000)
    (t : Text) : mapCodes g (mapCodes f t) = mapCodes (g ∘ f) t := by
  induction t using glyph_induction with
  | nil => rfl
  | char code rest h ih =>
    rw [mapCodes_encode_append f h, mapCodes_encode_append g (hf code h),
      mapCodes_encode_append _ h, ih]
    rfl
  | stray b rest h ih =>
    have hstray : decode (b :: mapCodes f rest) = none := by
      rw [← decode_cons_continuing, continuing_mapCodes hf, decode_cons_continuing, h]
    rw [mapCodes_cons f h, mapCodes_cons g hstray, mapCodes_cons _ h, ih]

end SpanRules.Utf8
