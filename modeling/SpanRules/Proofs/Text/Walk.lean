import SpanRules.Proofs.Text.Bits

/-! A text is gone over character by character. At every place no more bytes are decoded than the
first of them announces, and these tell as much as all that follow. Main statement: there is one
such walk over any text, valid or not, and from the codes that it meets and the bytes that stand
alone the text is put together again; and every code within reach is decoded from its own sequence.
-/
namespace SpanRules.Utf8

/-- A walk over a text. As many bytes are decoded as the first announces, or all if there are fewer.
It goes on after them if they are a character, and otherwise after the first byte. -/
inductive Walk : Text → List Glyph → Prop
  | nil : Walk [] []
  | char {b : UInt8} {t : Text} {code : Nat} {gs : List Glyph}
      (valid : decode ((b :: t).take (charLen b)) = some code)
      (rest : Walk ((b :: t).drop (charLen b)) gs) :
      Walk (b :: t) (⟨(b :: t).take (charLen b), some code⟩ :: gs)
  | stray {b : UInt8} {t : Text} {gs : List Glyph}
      (invalid : decode ((b :: t).take (charLen b)) = none) (rest : Walk t gs) :
      Walk (b :: t) (⟨[b], none⟩ :: gs)

/-- A character written anew from its code. A byte that stands alone is written as it is. -/
def Glyph.recoded (g : Glyph) : Text :=
  match g.code? with
  | some code => encode code
  | none => g.bytes

variable {b : UInt8} {t : Text} {code : Nat} {gs : List Glyph}

/-- The bytes after those that the first one announces do not matter to what is decoded. -/
theorem decode_take_charLen (b : UInt8) (t : Text) :
    decode ((b :: t).take (charLen b)) = decode (b :: t) := by
  unfold charLen
  split
  · rename_i h1
    simp only [List.take_succ_cons, List.take_zero, decode, h1, if_true]
  · rename_i h1
    have hascii : ¬ b < 0x80 := by
      simp only [UInt8.lt_iff_toNat_lt, UInt8.reduceToNat] at h1 ⊢
      omega
    split
    · rename_i h2
      cases t with
      | nil => rfl
      | cons c t => simp only [List.take_succ_cons, List.take_zero, decode, h1, h2, hascii, if_true,
          if_false]
    · rename_i h2
      split
      · rename_i h3
        rcases t with _ | ⟨c, _ | ⟨d, t⟩⟩
        · rfl
        · rfl
        · simp only [List.take_succ_cons, List.take_zero, decode, h1, h2, h3, hascii, if_true,
            if_false]
      · rename_i h3
        rcases t with _ | ⟨c, _ | ⟨d, _ | ⟨e, t⟩⟩⟩
        · rfl
        · rfl
        · rfl
        · simp only [List.take_succ_cons, List.take_zero, decode, h1, h2, h3, hascii, if_false]

theorem glyphs_of_decode (h : decode (b :: t) = some code) :
    glyphs (b :: t) =
      ⟨(b :: t).take (charLen b), some code⟩ :: glyphs ((b :: t).drop (charLen b)) := by
  obtain ⟨hcode, rest, hrest⟩ := encode_of_decode h
  obtain ⟨c, u, hu, hlength, -⟩ := encode_eq_cons hcode
  have hhead : c = b := by
    rw [hu, List.cons_append] at hrest
    exact (List.cons.inj hrest).1
  have hglyphs := glyphs_encode_append hcode rest
  rw [← hu, hhead] at hlength
  rw [← hrest, hlength, List.take_left, List.drop_left]
  exact hglyphs

theorem Walk.eq_glyphs (h : Walk t gs) : gs = glyphs t := by
  induction h with
  | nil => rfl
  | char valid rest ih =>
    rw [decode_take_charLen] at valid
    rw [glyphs_of_decode valid, ih]
  | stray invalid rest ih =>
    rw [decode_take_charLen] at invalid
    rw [glyphs_cons invalid, ih]

theorem walk_glyphs (t : Text) : Walk t (glyphs t) := by
  induction t using glyph_induction with
  | nil => exact .nil
  | char code rest hcode ih =>
    obtain ⟨b, u, hu, hlength, -⟩ := encode_eq_cons hcode
    have hdecode := decode_encode hcode rest
    have hdrop : (encode code ++ rest).drop (charLen b) = rest := by
      rw [hlength, ← hu, List.drop_left]
    rw [hu, List.cons_append] at hdecode hdrop ⊢
    rw [glyphs_of_decode hdecode]
    refine .char ((decode_take_charLen b _).trans hdecode) ?_
    rw [hdrop]
    exact ih
  | stray b rest hstray ih =>
    rw [glyphs_cons hstray]
    exact .stray ((decode_take_charLen b rest).trans hstray) ih

/-- There is one walk over a text. -/
theorem walk_iff : Walk t gs ↔ gs = glyphs t :=
  ⟨Walk.eq_glyphs, fun h => h ▸ walk_glyphs t⟩

theorem flatMap_recoded_glyphs (t : Text) : (glyphs t).flatMap Glyph.recoded = t := by
  induction t using glyph_induction with
  | nil => rfl
  | char code rest hcode ih =>
    rw [glyphs_encode_append hcode, List.flatMap_cons, ih]
    rfl
  | stray b rest hstray ih =>
    rw [glyphs_cons hstray, List.flatMap_cons, ih]
    rfl

/-- Decoding and encoding undo each other, and both are done bit by bit. Over each text there is one
walk, and the characters that it meets, written anew, are the text. At no place does decoding see
more than the bytes that the first announces; and the sequence of a code has the length that its
first byte announces and gives the code, whatever follows it. -/
theorem walk_recoded :
    ((∀ t, decodeBits? t = decode t) ∧ ∀ code, encodeBits code = encode code) ∧
    (∀ t gs, Walk t gs ↔ gs = glyphs t) ∧ (∀ t gs, Walk t gs → gs.flatMap Glyph.recoded = t) ∧
    (∀ (t : Text) (i : Nat) (b : UInt8), t[i]? = some b →
      decode (t.drop i) = decode ((t.drop i).take (charLen b))) ∧
    ∀ code < 0x200000, (∃ b t, encode code = b :: t ∧ charLen b = (encode code).length) ∧
      ∀ rest, decode (encode code ++ rest) = some code := by
  refine ⟨⟨decodeBits?_eq, encodeBits_eq⟩, fun t gs => walk_iff, fun t gs h => ?_,
    fun t i b hb => ?_, fun code hcode => ?_⟩
  · rw [walk_iff.1 h, flatMap_recoded_glyphs]
  · obtain ⟨hi, rfl⟩ := List.getElem?_eq_some_iff.1 hb
    rw [List.drop_eq_getElem_cons hi, decode_take_charLen]
  · obtain ⟨b, t, ht, hlength, -⟩ := encode_eq_cons hcode
    exact ⟨⟨b, t, ht, ht ▸ hlength⟩, decode_encode hcode⟩

/-- A letter, the beginning of a sequence and one that is longer than it has to be; and the greatest
code. -/
theorem walk_recoded_overlong :
    let t : Text := [0xC3, 0xA9, 0xE2, 0x82, 0xC0, 0x80]
    let gs : List Glyph :=
      [⟨[0xC3, 0xA9], some 0xE9⟩, ⟨[0xE2], none⟩, ⟨[0x82], none⟩, ⟨[0xC0], none⟩, ⟨[0x80], none⟩]
    (Walk t gs ∧ gs.flatMap Glyph.recoded = t) ∧
    (t[2]? = some 0xE2 ∧ decode (t.drop 2) = decode ((t.drop 2).take 3)) ∧
    (0x1FFFFF < 0x200000 ∧ decode (encode 0x1FFFFF ++ t) = some 0x1FFFFF) := by
  intro t gs
  obtain ⟨-, hwalk, hrecoded, hplaces, hcodes⟩ := walk_recoded
  have hgs : Walk t gs := (hwalk t gs).2 (by decide)
  have hplace : t[2]? = some 0xE2 := by decide
  have hgreatest : 0x1FFFFF < 0x200000 := by decide
  exact ⟨⟨hgs, hrecoded t gs hgs⟩, ⟨hplace, hplaces t 2 0xE2 hplace⟩,
    ⟨hgreatest, (hcodes 0x1FFFFF hgreatest).2 t⟩⟩

end SpanRules.Utf8
