import Mathlib.Data.List.Basic
import SpanRules.Document.Token
import SpanRules.Proofs.Text.Utf8

/-! The words of a text. A space parts them, whatever stands around it, and each word is its own only
word, so that words that are joined with spaces come back. -/
namespace SpanRules

namespace Utf8
variable {b c : UInt8} {t u : Text}

/-- What could go on with a sequence ends before a byte that could not. -/
theorem continuing_append_cons (hc : continuation? c = none) :
    continuing (t ++ c :: u) = continuing t := by
  unfold continuing
  have hstop : (c :: u).takeWhile (fun b => (continuation? b).isSome) = [] := by
    rw [List.takeWhile_cons_of_neg]
    simp [hc]
  rw [List.takeWhile_append, hstop, List.append_nil]
  split
  · rename_i hall
    exact (List.takeWhile_prefix _).eq_of_length hall |>.symm
  · rfl

/-- Where a byte goes on with no sequence, the characters before it are those of the text before. -/
theorem glyphs_append_cons (hc : continuation? c = none) :
    glyphs (t ++ c :: u) = glyphs t ++ glyphs (c :: u) := by
  induction t using glyph_induction with
  | nil => rfl
  | char code rest hcode ih =>
    rw [List.append_assoc, glyphs_encode_append hcode, glyphs_encode_append hcode, ih]
    rfl
  | stray b rest hb ih =>
    have hstray : decode (b :: (rest ++ c :: u)) = none := by
      rw [← decode_cons_continuing, continuing_append_cons hc, decode_cons_continuing, hb]
    rw [List.cons_append, glyphs_cons hstray, glyphs_cons hb, ih]
    rfl

/-- A byte at which no character starts is none by itself either. -/
theorem decode_singleton_of_stray (h : decode (b :: t) = none) : decode [b] = none := by
  simp only [decode] at h ⊢
  split at h
  · cases h
  · rename_i hb
    rw [if_neg hb]
    simp only [ite_self]

end Utf8

namespace Stretch
variable {g : Utf8.Glyph} {s : Stretch} {ss us : List Stretch} {t u : Text}
open Utf8 (glyphs glyphs_append_cons glyphs_encode_append glyphs_cons glyph_induction encode decode)

/-- A character that starts no run, or another run, stays apart from the stretches after it. -/
theorem push_cons_of_ne (h : ¬ (s.kind = .ofGlyph g ∧ s.kind.isRun = true)) :
    push g (s :: ss) = ⟨.ofGlyph g, g.bytes⟩ :: s :: ss := by
  rw [push, if_neg h]

/-- A stretch that is no run is not joined with what stands before it. -/
theorem push_append_cons (hs : s.kind.isRun = false) :
    push g (ss ++ s :: us) = push g ss ++ s :: us := by
  cases ss with
  | nil =>
    have hapart : ¬ (s.kind = .ofGlyph g ∧ s.kind.isRun = true) := by simp [hs]
    exact push_cons_of_ne hapart
  | cons s' ss =>
    rw [List.cons_append, push, push]
    split <;> rfl

theorem foldr_push_append (gs : List Utf8.Glyph) (hs : s.kind.isRun = false) :
    gs.foldr push (s :: us) = gs.foldr push [] ++ s :: us := by
  induction gs with
  | nil => rfl
  | cons g gs ih => rw [List.foldr_cons, List.foldr_cons, ih, push_append_cons hs]

/-- A space in a text is a stretch of its own, between those before and those after it. -/
theorem ofText_append_space (t u : Text) :
    ofText (t ++ byte ' ' :: u) = ofText t ++ ⟨.space, [byte ' ']⟩ :: ofText u := by
  have hspace : glyphs (byte ' ' :: u) = ⟨[byte ' '], some 32⟩ :: glyphs u :=
    glyphs_encode_append (show 32 < 0x200000 by decide) u
  have hpush : push ⟨[byte ' '], some 32⟩ (ofText u) = ⟨.space, [byte ' ']⟩ :: ofText u := by
    cases hu : ofText u with
    | nil => rfl
    | cons s ss =>
      apply push_cons_of_ne
      rintro ⟨hkind, hrun⟩
      rw [hkind] at hrun
      cases hrun
  have hcont : Utf8.continuation? (byte ' ') = none := by decide
  rw [ofText, glyphs_append_cons hcont, List.foldr_append, hspace, List.foldr_cons]
  rw [← ofText, hpush, foldr_push_append _ rfl]
  rfl

theorem ofText_encode_append {code : Nat} (hcode : code < 0x200000) (t : Text) :
    ofText (encode code ++ t) = push ⟨encode code, some code⟩ (ofText t) := by
  rw [ofText, glyphs_encode_append hcode]
  rfl

theorem ofText_cons_of_stray {b : UInt8} (hb : decode (b :: t) = none) :
    ofText (b :: t) = push ⟨[b], none⟩ (ofText t) := by
  rw [ofText, glyphs_cons hb]
  rfl

/-- A stretch that a character begins, alone or with the run after it, is divided as itself. -/
theorem ofText_bytes_of_mem_push (hg : ∀ t, g.code? ≠ none → ofText (g.bytes ++ t) = push g (ofText t))
    (hone : ofText g.bytes = [⟨.ofGlyph g, g.bytes⟩]) (hss : ∀ s ∈ ss, ofText s.bytes = [s])
    (h : s ∈ push g ss) : ofText s.bytes = [s] := by
  cases ss with
  | nil =>
    rw [List.mem_singleton.1 h]
    exact hone
  | cons s' ss =>
    have hs' := hss s' List.mem_cons_self
    rw [push] at h
    split at h
    · rename_i hjoin
      rcases List.mem_cons.1 h with rfl | h
      · have hcode : g.code? ≠ none := by
          intro hnone
          rw [hjoin.1] at hjoin
          simp [CharKind.ofGlyph, hnone, CharKind.isRun] at hjoin
        simp only
        rw [hg s'.bytes hcode, hs', push, if_pos hjoin]
      · exact hss s (List.mem_cons_of_mem _ h)
    · rcases List.mem_cons.1 h with rfl | h
      · exact hone
      · exact hss s h

/-- Every stretch of a text, taken by itself, is divided into itself. -/
theorem ofText_bytes_of_mem (h : s ∈ ofText t) : ofText s.bytes = [s] := by
  induction t using glyph_induction generalizing s with
  | nil => cases h
  | char code rest hcode ih =>
    rw [ofText_encode_append hcode] at h
    have hone : ofText (encode code) = [⟨.ofGlyph ⟨encode code, some code⟩, encode code⟩] := by
      have hall := ofText_encode_append hcode []
      rw [List.append_nil] at hall
      exact hall
    exact ofText_bytes_of_mem_push (fun t _ => ofText_encode_append hcode t) hone (fun _ => ih) h
  | stray b rest hb ih =>
    rw [ofText_cons_of_stray hb] at h
    have hone : ofText [b] = [⟨.ofGlyph ⟨[b], none⟩, [b]⟩] :=
      ofText_cons_of_stray (Utf8.decode_singleton_of_stray hb)
    exact ofText_bytes_of_mem_push (fun _ hcode => absurd rfl hcode) hone (fun _ => ih) h

end Stretch

namespace Text
variable {t w : Text}

theorem map_word_ofStretches (pos : Nat) (ss : List Stretch) :
    (Token.ofStretches pos ss).map (·.word) = (ss.filter (·.kind != .space)).map (·.bytes) := by
  induction ss generalizing pos with
  | nil => rfl
  | cons s ss ih =>
    rw [Token.ofStretches]
    by_cases hspace : s.kind = .space
    · simp only [hspace, if_true, ih]
      rw [List.filter_cons_of_neg (by simp [hspace])]
    · simp only [hspace, if_false, List.map_cons, ih]
      rw [List.filter_cons_of_pos (by simpa using hspace), List.map_cons]

/-- The words of a text are its stretches but for the spaces. -/
theorem words_eq (t : Text) :
    t.words = ((Stretch.ofText t).filter (·.kind != .space)).map (·.bytes) :=
  map_word_ofStretches 0 _

@[simp] theorem words_nil : words [] = [] := rfl

/-- A space parts the words before it from the words after it. -/
theorem words_append_space (t u : Text) : (t ++ byte ' ' :: u).words = t.words ++ u.words := by
  have hspace : (Stretch.kind ⟨.space, [byte ' ']⟩ != .space) = false := rfl
  rw [words_eq, Stretch.ofText_append_space, List.filter_append,
    List.filter_cons_of_neg (by rw [hspace]; decide), List.map_append, ← words_eq, ← words_eq]

/-- A word, taken by itself, is its own only word. -/
theorem words_of_mem_words (h : w ∈ t.words) : w.words = [w] := by
  rw [words_eq] at h
  obtain ⟨s, hs, rfl⟩ := List.mem_map.1 h
  obtain ⟨hs, hkind⟩ := List.mem_filter.1 hs
  have hsolid : [s].filter (·.kind != .space) = [s] := List.filter_cons_of_pos hkind
  rw [words_eq, Stretch.ofText_bytes_of_mem hs, hsolid, List.map_singleton]

/-- Texts that are joined with spaces have the words of each, in order. -/
theorem words_join (ts : List Text) : (join (ascii " ") ts).words = ts.flatMap words := by
  induction ts with
  | nil => rfl
  | cons t ts ih =>
    cases ts with
    | nil => rw [join, List.flatMap_singleton]
    | cons u us =>
      have hsep : t ++ ascii " " ++ join (ascii " ") (u :: us) =
          t ++ byte ' ' :: join (ascii " ") (u :: us) := List.append_assoc _ _ _
      rw [join, hsep, words_append_space, ih]
      rfl

/-- The words of two texts with a space between them are those of the first and then those of the
second, whether or not their bytes are characters; and the words of a text, joined with spaces, are
the words of what comes out. -/
theorem words_respect_spaces :
    (∀ t u : Text, (t ++ ascii " " ++ u).words = t.words ++ u.words) ∧
      ∀ t : Text, (join (ascii " ") t.words).words = t.words := by
  constructor
  · intro t u
    have hsep : t ++ ascii " " ++ u = t ++ byte ' ' :: u := List.append_assoc _ _ _
    rw [hsep, words_append_space]
  · intro t
    have hself : t.words.flatMap words = t.words.flatMap fun w => [w] :=
      List.flatMap_congr fun w hw => words_of_mem_words hw
    rw [words_join, hself, List.flatMap_singleton']

end Text

end SpanRules
