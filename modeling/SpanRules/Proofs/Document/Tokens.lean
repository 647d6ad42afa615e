import SpanRules.Proofs.Document.WellFormed
import SpanRules.Proofs.Text.Utf8

/-! What the tokens of a text are. Stretches divide the text: each is a maximal run of letters or of
digits, another single character, or a byte at which no character starts; and the tokens are the
stretches that are no spaces. -/
namespace SpanRules

/-- Whether a text is a non-empty sequence of characters whose codes pass a test. -/
def Text.IsRunOf (test : Nat → Bool) (t : Text) : Prop :=
  ∃ codes : List Nat, codes ≠ [] ∧ (∀ c ∈ codes, c < 0x200000 ∧ test c = true) ∧
    t = codes.flatMap Utf8.encode

/-- Whether a text is one character that is no space, no digit and no letter. -/
def Text.IsSymbolChar (t : Text) : Prop :=
  ∃ c < 0x200000, t = Utf8.encode c ∧ Unicode.isSpace c = false ∧ Unicode.isDigit c = false ∧
    Unicode.isLetter c = false

namespace Text
variable {test : Nat → Bool} {t u : Text} {c : Nat}
open Utf8 (decode encode decode_encode)

theorem isRunOf_encode (hc : c < 0x200000) (htest : test c = true) : (encode c).IsRunOf test :=
  ⟨[c], List.cons_ne_nil _ _, List.forall_mem_singleton.2 ⟨hc, htest⟩, by simp⟩

theorem IsRunOf.append (h : t.IsRunOf test) (h' : u.IsRunOf test) : (t ++ u).IsRunOf test := by
  obtain ⟨codes, hne, hcodes, rfl⟩ := h
  obtain ⟨codes', -, hcodes', rfl⟩ := h'
  exact ⟨codes ++ codes', by simp [hne], List.forall_mem_append.2 ⟨hcodes, hcodes'⟩, by simp⟩

/-- A run begins with one of its characters, whatever follows it. -/
theorem IsRunOf.exists_decode (h : t.IsRunOf test) (rest : Text) :
    ∃ c, decode (t ++ rest) = some c ∧ test c = true := by
  obtain ⟨codes, hne, hcodes, rfl⟩ := h
  obtain ⟨c, codes, rfl⟩ := List.exists_cons_of_ne_nil hne
  obtain ⟨hc, htest⟩ := hcodes c List.mem_cons_self
  refine ⟨c, ?_, htest⟩
  rw [List.flatMap_cons, List.append_assoc]
  exact decode_encode hc _

theorem IsRunOf.test_of_decode {rest : Text} (h : t.IsRunOf test)
    (hc : decode (t ++ rest) = some c) : test c = true := by
  obtain ⟨d, hd, htest⟩ := h.exists_decode rest
  obtain rfl : c = d := Option.some.inj (hc.symm.trans hd)
  exact htest

end Text

theorem Unicode.not_isDigit_of_isLetter {c : Nat} (h : isLetter c = true) : ¬ isDigit c = true := by
  intro hdigit
  simp only [isDigit, Bool.and_eq_true, decide_eq_true_eq] at hdigit
  rw [isLetter, if_pos (by omega)] at h
  simp only [Bool.or_eq_true, Bool.and_eq_true, decide_eq_true_eq] at h
  omega

/-- The kind of a character that is no space. -/
def CharKind.ofSolid (c : Nat) : CharKind :=
  if Unicode.isDigit c then .digit else if Unicode.isLetter c then .letter else .symbol

theorem CharKind.ofSolid_of_isDigit {c : Nat} (h : Unicode.isDigit c = true) :
    ofSolid c = .digit := if_pos h

theorem CharKind.ofSolid_of_isLetter {c : Nat} (h : Unicode.isLetter c = true) :
    ofSolid c = .letter := by
  rw [ofSolid, if_neg (Unicode.not_isDigit_of_isLetter h), if_pos h]

namespace Stretch
variable {s : Stretch} {ss before after : List Stretch} {g : Utf8.Glyph} {rest : Text} {c i : Nat}
open Utf8 (decode encode glyph_induction glyphs_encode_append glyphs_cons)

/-- Whether a stretch is what its kind says, where `rest` follows it in the text. -/
def Fits (rest : Text) (s : Stretch) : Prop :=
  match s.kind with
  | .space => ∃ c < 0x200000, s.bytes = encode c ∧ Unicode.isSpace c = true
  | .letter => s.bytes.IsRunOf Unicode.isLetter
  | .digit => s.bytes.IsRunOf Unicode.isDigit
  | .symbol => s.bytes.IsSymbolChar ∨ ∃ b, s.bytes = [b] ∧ decode (b :: rest) = none

/-- Whether each stretch fits in front of the next ones, and no run could be longer. -/
inductive Divided : List Stretch → Prop
  | nil : Divided []
  | cons {u us} : u.Fits (us.flatMap (·.bytes)) →
      (∀ v ∈ us.head?, ¬ (v.kind = u.kind ∧ u.kind.isRun = true)) → Divided us → Divided (u :: us)

theorem fits_char (hc : c < 0x200000) (rest : Text) :
    Fits rest ⟨.ofGlyph ⟨encode c, some c⟩, encode c⟩ := by
  unfold CharKind.ofGlyph
  by_cases hspace : Unicode.isSpace c = true
  · simp only [hspace, if_true]
    exact ⟨c, hc, rfl, hspace⟩
  · by_cases hdigit : Unicode.isDigit c = true
    · simp only [hspace, hdigit, if_true]
      exact Text.isRunOf_encode hc hdigit
    · by_cases hletter : Unicode.isLetter c = true
      · simp only [hspace, hdigit, hletter, if_true]
        exact Text.isRunOf_encode hc hletter
      · simp only [hspace, hdigit, hletter]
        exact .inl ⟨c, hc, rfl, by simpa using hspace, by simpa using hdigit,
          by simpa using hletter⟩

/-- A character of the kind of a run goes on with it. -/
theorem fits_append (hg : Fits (s.bytes ++ rest) ⟨.ofGlyph g, g.bytes⟩) (hs : s.Fits rest)
    (hkind : s.kind = .ofGlyph g) (hrun : s.kind.isRun = true) :
    Fits rest ⟨s.kind, g.bytes ++ s.bytes⟩ := by
  obtain ⟨kind, bytes⟩ := s
  simp only at hkind hrun hg hs ⊢
  rw [← hkind] at hg
  cases kind with
  | letter => exact Text.IsRunOf.append hg hs
  | digit => exact Text.IsRunOf.append hg hs
  | space => cases hrun
  | symbol => cases hrun

theorem divided_push (hg : Fits (ss.flatMap (·.bytes)) ⟨.ofGlyph g, g.bytes⟩) (hss : Divided ss) :
    Divided (push g ss) := by
  cases hss with
  | nil => exact .cons hg (by simp) .nil
  | @cons s ss hs hnext hss =>
    rw [push]
    split
    · rename_i hrun
      exact .cons (fits_append hg hs hrun.1 hrun.2) hnext hss
    · rename_i hrun
      refine .cons hg ?_ (.cons hs hnext hss)
      rintro _ ⟨⟩ ⟨hkind, hisRun⟩
      exact hrun ⟨hkind, hkind ▸ hisRun⟩

theorem divided_ofText (t : Text) : Divided (ofText t) := by
  induction t using glyph_induction with
  | nil => exact .nil
  | char code rest hcode ih =>
    rw [ofText, glyphs_encode_append hcode, List.foldr_cons]
    exact divided_push (fits_char hcode _) ih
  | stray b rest hb ih =>
    rw [ofText, glyphs_cons hb, List.foldr_cons]
    refine divided_push (.inr ⟨b, rfl, ?_⟩) ih
    rwa [← ofText, flatMap_bytes_ofText]

theorem Divided.of_append (h : Divided (before ++ after)) : Divided after := by
  induction before with
  | nil => exact h
  | cons s before ih =>
    cases h with
    | cons _ _ h => exact ih h

theorem Fits.not_of_symbol {bytes : Text} (h : Fits rest ⟨.symbol, bytes⟩)
    (hc : decode (bytes ++ rest) = some c) :
    Unicode.isDigit c = false ∧ Unicode.isLetter c = false := by
  rcases h with ⟨d, hd, hbytes, -, hother⟩ | ⟨b, hbytes, hb⟩
  · simp only at hbytes
    rw [hbytes, Utf8.decode_encode hd, Option.some.injEq] at hc
    exact hc ▸ hother
  · simp only at hbytes
    rw [hbytes, List.singleton_append, hb] at hc
    cases hc

/-- The kind of a stretch that is no space is told by the character at its start. -/
theorem Fits.kind_eq (h : s.Fits rest) (hspace : s.kind ≠ .space)
    (hc : decode (s.bytes ++ rest) = some c) : s.kind = .ofSolid c := by
  obtain ⟨kind, bytes⟩ := s
  cases kind with
  | space => exact absurd rfl hspace
  | letter => exact (CharKind.ofSolid_of_isLetter (Text.IsRunOf.test_of_decode h hc)).symm
  | digit => exact (CharKind.ofSolid_of_isDigit (Text.IsRunOf.test_of_decode h hc)).symm
  | symbol =>
    obtain ⟨hdigit, hletter⟩ := h.not_of_symbol hc
    simp [CharKind.ofSolid, hdigit, hletter]

/-- A run is of the kind that the characters of its class have. -/
theorem Fits.kind_of_run {kind : CharKind} {test : Nat → Bool} (h : s.Fits rest)
    (hspace : s.kind ≠ .space) (hrun : s.bytes.IsRunOf test)
    (hkind : ∀ c, test c = true → CharKind.ofSolid c = kind) : s.kind = kind := by
  obtain ⟨c, hc, htest⟩ := hrun.exists_decode rest
  exact (h.kind_eq hspace hc).trans (hkind c htest)

/-- Every byte lies in a stretch. -/
theorem exists_stretch (h : i < (ss.flatMap (·.bytes)).length) :
    ∃ before s after, ss = before ++ s :: after ∧ (before.flatMap (·.bytes)).length ≤ i ∧
      i < (before.flatMap (·.bytes)).length + s.bytes.length := by
  induction ss generalizing i with
  | nil => exact absurd h (Nat.not_lt_zero _)
  | cons s ss ih =>
    by_cases hlt : i < s.bytes.length
    · exact ⟨[], s, ss, rfl, Nat.zero_le _, by simpa using hlt⟩
    · rw [List.flatMap_cons, List.length_append] at h
      obtain ⟨before, u, after, rfl, hle, hlt'⟩ := ih (i := i - s.bytes.length) (by omega)
      refine ⟨s :: before, u, after, rfl, ?_, ?_⟩
      · rw [List.flatMap_cons, List.length_append]
        omega
      · rw [List.flatMap_cons, List.length_append]
        omega

/-- Where stretches end is told by the bytes before. -/
theorem eq_of_length_eq {before' after' : List Stretch} (hne : ∀ s ∈ before ++ after, s.bytes ≠ [])
    (h : before ++ after = before' ++ after')
    (hlen : (before.flatMap (·.bytes)).length = (before'.flatMap (·.bytes)).length) :
    before = before' ∧ after = after' := by
  induction before generalizing before' with
  | nil =>
    cases before' with
    | nil => exact ⟨rfl, h⟩
    | cons s before' =>
      have hs := List.length_pos_iff.2 (hne s (by rw [h]; exact List.mem_cons_self))
      rw [List.flatMap_cons, List.length_append] at hlen
      simp only [List.flatMap_nil, List.length_nil] at hlen
      omega
  | cons s before ih =>
    cases before' with
    | nil =>
      have hs := List.length_pos_iff.2 (hne s List.mem_cons_self)
      rw [List.flatMap_cons, List.length_append] at hlen
      simp only [List.flatMap_nil, List.length_nil] at hlen
      omega
    | cons s' before' =>
      obtain ⟨rfl, htail⟩ := List.cons.inj h
      rw [List.flatMap_cons, List.flatMap_cons, List.length_append, List.length_append] at hlen
      obtain ⟨rfl, rfl⟩ := ih (fun u hu => hne u (List.mem_cons_of_mem _ hu)) htail (by omega)
      exact ⟨rfl, rfl⟩

end Stretch

/-- The tokens are the stretches that are no spaces, each at its place. -/
theorem Token.mem_ofStretches_iff {ss : List Stretch} {pos : Nat} {t : Token} :
    t ∈ ofStretches pos ss ↔ ∃ before s after, ss = before ++ s :: after ∧ s.kind ≠ .space ∧
      t = ⟨pos + (before.flatMap (·.bytes)).length,
        pos + (before.flatMap (·.bytes)).length + s.bytes.length, s.bytes⟩ := by
  induction ss generalizing pos with
  | nil => simp [ofStretches]
  | cons u ss ih =>
    have htail : t ∈ ofStretches (pos + u.bytes.length) ss ↔ ∃ before s after,
        u :: ss = (u :: before) ++ s :: after ∧ s.kind ≠ .space ∧
          t = ⟨pos + ((u :: before).flatMap (·.bytes)).length,
            pos + ((u :: before).flatMap (·.bytes)).length + s.bytes.length, s.bytes⟩ := by
      rw [ih]
      simp only [List.cons_append, List.cons.injEq, true_and, List.flatMap_cons,
        List.length_append, Nat.add_assoc]
    have hhead : t ∈ ofStretches pos (u :: ss) ↔
        (u.kind ≠ .space ∧ t = ⟨pos, pos + u.bytes.length, u.bytes⟩) ∨
          t ∈ ofStretches (pos + u.bytes.length) ss := by
      simp only [ofStretches]
      split
      · rename_i hu
        simp [hu]
      · rename_i hu
        simp [hu]
    rw [hhead, htail]
    constructor
    · rintro (⟨hu, rfl⟩ | ⟨before, s, after, h⟩)
      · exact ⟨[], u, ss, rfl, hu, rfl⟩
      · exact ⟨u :: before, s, after, h⟩
    · rintro ⟨before, s, after, heq, hs, rfl⟩
      cases before with
      | nil =>
        obtain ⟨rfl, rfl⟩ := List.cons.inj heq
        exact .inl ⟨hs, rfl⟩
      | cons v before =>
        obtain ⟨rfl, hrest⟩ := List.cons.inj heq
        exact .inr ⟨before, s, after, heq, hs, rfl⟩

namespace Text
variable {text : Text} {t u : Token} {i : Nat}
open Utf8 (decode encode decode_encode)

/-- A token is a stretch of the text, at its place. -/
theorem exists_stretch_of_mem_tokens (ht : t ∈ text.tokens) : ∃ before s after,
    Stretch.ofText text = before ++ s :: after ∧ s.kind ≠ .space ∧
      s.Fits (after.flatMap (·.bytes)) ∧ t.word = s.bytes ∧
      t.start = (before.flatMap (·.bytes)).length ∧ t.stop = t.start + s.bytes.length ∧
      text.drop t.start = s.bytes ++ after.flatMap (·.bytes) := by
  obtain ⟨before, s, after, hss, hspace, rfl⟩ := Token.mem_ofStretches_iff.1 ht
  have hdivided := Stretch.divided_ofText text
  have hbytes := Stretch.flatMap_bytes_ofText text
  rw [hss] at hdivided hbytes
  simp only [Nat.zero_add]
  refine ⟨before, s, after, hss, hspace, ?_, rfl, rfl, rfl, ?_⟩
  · cases hdivided.of_append with
    | cons hs _ _ => exact hs
  · rw [← hbytes, List.flatMap_append, List.flatMap_cons, List.drop_left]

theorem word_eq_between (ht : t ∈ text.tokens) : t.word = text.between t.start t.stop := by
  obtain ⟨before, s, after, -, -, -, hword, -, hstop, hdrop⟩ := exists_stretch_of_mem_tokens ht
  have hlen : t.stop - t.start = s.bytes.length := by omega
  rw [between, hdrop, hlen, List.take_left, hword]

/-- What lies outside the tokens are spaces. -/
theorem exists_space (hi : i < text.length)
    (hout : ∀ t ∈ text.tokens, ¬ (t.start ≤ i ∧ i < t.stop)) :
    ∃ p c, p ≤ i ∧ i < p + (encode c).length ∧ decode (text.drop p) = some c ∧
      Unicode.isSpace c = true := by
  have hbytes := Stretch.flatMap_bytes_ofText text
  rw [← hbytes] at hi
  obtain ⟨before, s, after, hss, hle, hlt⟩ := Stretch.exists_stretch hi
  have hdivided := Stretch.divided_ofText text
  rw [hss] at hdivided hbytes
  by_cases hspace : s.kind = .space
  · cases hdivided.of_append with
    | cons hs _ _ =>
      unfold Stretch.Fits at hs
      rw [hspace] at hs
      obtain ⟨c, hc, hs, hcode⟩ := hs
      refine ⟨_, c, hle, hs ▸ hlt, ?_, hcode⟩
      rw [← hbytes, List.flatMap_append, List.flatMap_cons, List.drop_left, hs, decode_encode hc]
  · have hmem : ⟨0 + (before.flatMap (·.bytes)).length,
        0 + (before.flatMap (·.bytes)).length + s.bytes.length, s.bytes⟩ ∈ text.tokens :=
      Token.mem_ofStretches_iff.2 ⟨before, s, after, hss, hspace, rfl⟩
    exact absurd ⟨by simp only; omega, by simp only; omega⟩ (hout _ hmem)

theorem kinds_of_mem_tokens (ht : t ∈ text.tokens) :
    t.word.IsRunOf Unicode.isLetter ∨ t.word.IsRunOf Unicode.isDigit ∨ t.word.IsSymbolChar ∨
      (t.stop = t.start + 1 ∧ decode (text.drop t.start) = none) := by
  obtain ⟨before, ⟨kind, bytes⟩, after, -, hspace, hs, hword, -, hstop, hdrop⟩ :=
    exists_stretch_of_mem_tokens ht
  simp only at hspace hword hstop hdrop
  rw [hword, hdrop, hstop]
  cases kind with
  | space => exact absurd rfl hspace
  | letter => exact .inl hs
  | digit => exact .inr (.inl hs)
  | symbol =>
    rcases hs with hs | ⟨b, hbytes, hb⟩
    · exact .inr (.inr (.inl hs))
    · simp only at hbytes
      rw [hbytes]
      exact .inr (.inr (.inr ⟨rfl, hb⟩))

/-- Tokens that touch are stretches next to each other, so that they are no runs of one kind. -/
theorem not_runs_of_touching (ht : t ∈ text.tokens) (hu : u ∈ text.tokens)
    (htouch : t.stop = u.start) :
    ¬ (t.word.IsRunOf Unicode.isLetter ∧ u.word.IsRunOf Unicode.isLetter) ∧
      ¬ (t.word.IsRunOf Unicode.isDigit ∧ u.word.IsRunOf Unicode.isDigit) := by
  obtain ⟨before, s, after, hss, hspace, hs, hword, hstart, hstop, -⟩ :=
    exists_stretch_of_mem_tokens ht
  obtain ⟨before', s', after', hss', hspace', hs', hword', hstart', -, -⟩ :=
    exists_stretch_of_mem_tokens hu
  have hne : ∀ s ∈ Stretch.ofText text, s.bytes ≠ [] := fun _ => Stretch.bytes_ne_nil_of_mem_ofText
  have hdivided := Stretch.divided_ofText text
  rw [hss] at hne hdivided
  obtain ⟨-, rfl⟩ : before ++ [s] = before' ∧ after = s' :: after' := by
    apply Stretch.eq_of_length_eq (by simpa using hne) (by simpa [hss] using hss')
    rw [List.flatMap_append, List.flatMap_singleton, List.length_append]
    omega
  have hkinds : ¬ (s'.kind = s.kind ∧ s.kind.isRun = true) := by
    cases hdivided.of_append with
    | cons _ hnext _ => exact hnext s' rfl
  rw [hword, hword']
  have hruns : ∀ {kind : CharKind} {test : Nat → Bool}, kind.isRun = true →
      (∀ c, test c = true → CharKind.ofSolid c = kind) →
      ¬ (s.bytes.IsRunOf test ∧ s'.bytes.IsRunOf test) := by
    rintro kind test hisRun hkind ⟨hrun, hrun'⟩
    obtain rfl := hs.kind_of_run hspace hrun hkind
    exact hkinds ⟨hs'.kind_of_run hspace' hrun' hkind, hisRun⟩
  exact ⟨hruns rfl fun _ => CharKind.ofSolid_of_isLetter,
    hruns rfl fun _ => CharKind.ofSolid_of_isDigit⟩

/-- The tokens of a text are non-empty stretches of it, in order and apart from each other, and all
other bytes belong to spaces. A token is a run of letters, a run of digits, a single other character
or a byte at which no character starts. Runs are maximal: no two of one kind touch. -/
theorem tokens_partition (text : Text) :
    (∀ t ∈ text.tokens, t.start < t.stop ∧ t.stop ≤ text.length ∧
      t.word = text.between t.start t.stop) ∧
    text.tokens.Pairwise (fun t u => t.stop ≤ u.start) ∧
    (∀ i < text.length, (∀ t ∈ text.tokens, ¬ (t.start ≤ i ∧ i < t.stop)) →
      ∃ p c, p ≤ i ∧ i < p + (encode c).length ∧ decode (text.drop p) = some c ∧
        Unicode.isSpace c = true) ∧
    (∀ t ∈ text.tokens, t.word.IsRunOf Unicode.isLetter ∨ t.word.IsRunOf Unicode.isDigit ∨
      t.word.IsSymbolChar ∨ (t.stop = t.start + 1 ∧ decode (text.drop t.start) = none)) ∧
    ∀ t ∈ text.tokens, ∀ u ∈ text.tokens, t.stop = u.start →
      ¬ (t.word.IsRunOf Unicode.isLetter ∧ u.word.IsRunOf Unicode.isLetter) ∧
      ¬ (t.word.IsRunOf Unicode.isDigit ∧ u.word.IsRunOf Unicode.isDigit) := by
  have hwell := Document.ofText_wellFormed [] text
  refine ⟨fun t ht => ?_, hwell.ordered, fun i => exists_space, fun t => kinds_of_mem_tokens,
    fun t ht u hu => not_runs_of_touching ht hu⟩
  exact ⟨hwell.nonempty t ht, hwell.inside t ht, word_eq_between ht⟩

end Text

end SpanRules
