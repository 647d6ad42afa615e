import Mathlib.Data.List.TakeWhile
import SpanRules.Proofs.Source.Joined
import SpanRules.Proofs.Source.Quoted
import SpanRules.Proofs.Source.Reading
import SpanRules.Proofs.Source.Token
import SpanRules.Statement.Reading

/-! What is known of a statement because it was read: where its names come from, and which texts its
words, files and patterns can be. -/
namespace SpanRules

/-- Whether tokens between double quotes spell a text. -/
def SpellsQuoted (ts : List SourceToken) (n : Text) : Prop :=
  ∃ o inner c, o :: (inner ++ [c]) <:+: ts ∧ o.isSymbol '"' = true ∧ c.isSymbol '"' = true ∧
    inner.flatMap (·.text) = n

/-- Whether a name is one in source form, or is spelled between double quotes. -/
def NameIn (ts : List SourceToken) (n : Text) : Prop := n.Nameable ∨ SpellsQuoted ts n

/-- The bytes outside quotes in the name of a file. The mark is the one that ends what the name is
part of: a double quote, or the comma after a phrase. -/
def inFileName (mark : Char) (b : UInt8) : Bool := b != byte mark && b != byte ';'

def Effect.names : Effect → List Text
  | .spanType type => [type]
  | .spanProperty key value => [key, value]
  | .tokenProperty key value => [key, value]

def DictionaryEntry.file? : DictionaryEntry → Option Text
  | .word _ => none
  | .file name _ => some name

def PhraseEntry.file? : PhraseEntry → Option Text
  | .words _ _ => none
  | .file name _ => some name

/-- The word that has no source form: one backslash, which would escape the quote after it. -/
def backslash : Text := [byte '\\']

def PhraseEntry.wordList : PhraseEntry → List Text
  | .words _ ws => ws
  | .file _ _ => []

def Generator.phraseWords : Generator → List Text
  | .phrases entries => entries.flatMap (·.wordList)
  | _ => []

def Generator.files : Generator → List Text
  | .phrases entries => entries.filterMap (·.file?)
  | _ => []

namespace Statement

def names : Statement → List Text
  | declareType name | provide name | annotateWith name | onLevel name => [name]
  | require type file => [type, file]
  | offLevel => []
  | importFromLevel level newType oldType => [level, newType, oldType]
  | defineDictionary d => [d.name]
  | defineLevel level _ pattern => [level, pattern]
  | label l => l.effect.names ++ [l.scope]

def files : Statement → List Text
  | defineDictionary d => d.entries.filterMap (·.file?)
  | label l => l.generator.files
  | _ => []

def phraseWords : Statement → List Text
  | label l => l.generator.phraseWords
  | _ => []

end Statement

section
variable (lines : LineReader)

def DictionaryEntry.Regular : DictionaryEntry → Prop
  | .word w => w.Nameable
  | .file name ls => name.Joined (inFileName '"') ∧ name ≠ [] ∧ lines name = .ok ls

/-- A phrase that was read. Its words may be marks as well, and one mark has no source form. -/
def PhraseEntry.Regular : PhraseEntry → Prop
  | .words _ ws => ∀ w ∈ ws, w.Nameable ∨ w = backslash
  | .file name ls => name.Joined (inFileName ',') ∧ name ≠ [] ∧ lines name = .ok ls

def Generator.Regular : Generator → Prop
  | .extractions p | .rejections p =>
    ∃ s, Pattern.ofSegment? s = .ok p ∧ ∀ t ∈ s.tokens, t.Tidy
  | .phrases entries => ∀ e ∈ entries, e.Regular lines

/-- What holds of the parts of a statement that was read, but for its names. -/
def Statement.Regular : Statement → Prop
  | .defineDictionary d => d.entries ≠ [] ∧ ∀ e ∈ d.entries, e.Regular lines
  | .defineLevel _ strategy _ => strategy = .pseudotoken
  | .label l => l.generator.Regular lines
  | _ => True

end

namespace SourceToken
variable {t : SourceToken}

theorem Tidy.nameable (h : t.Tidy) (hend : t.kind ≠ .unterminated) :
    t.text.unquote.Nameable ∨ t.lexeme = ⟨.symbol, [byte '\\']⟩ :=
  h.genuine.nameable h.blank hend h.quiet

theorem Tidy.nameable_of_isWordOrQuoted (h : t.Tidy) (hname : t.isWordOrQuoted = true) :
    t.text.unquote.Nameable := by
  have hend : t.kind ≠ .unterminated := by
    intro hkind
    rw [isWordOrQuoted, hkind] at hname
    cases hname
  apply (h.nameable hend).resolve_right
  intro hback
  rw [isWordOrQuoted, show t.kind = .symbol from congrArg Lexeme.kind hback] at hname
  cases hname

theorem byte_ne {b : UInt8} {c : Char} (h : t.isSymbol c = false)
    (hb : t.lexeme = ⟨.symbol, [b]⟩) : b ≠ byte c := by
  rintro rfl
  rw [isSymbol_iff.2 hb] at h
  cases h

theorem Tidy.unquote_eq (h : t.Tidy) (hkind : t.kind ≠ .quoted) (hend : t.kind ≠ .unterminated) :
    t.text.unquote = t.text :=
  h.genuine.unquote_eq hkind hend

end SourceToken

theorem SpellsQuoted.mono {ts us : Rest} {n : Text} (h : SpellsQuoted us n) (hsuffix : us <:+ ts) :
    SpellsQuoted ts n := by
  obtain ⟨o, inner, c, hinner, hrest⟩ := h
  exact ⟨o, inner, c, hinner.trans hsuffix.isInfix, hrest⟩

theorem NameIn.mono {ts us : Rest} {n : Text} (h : NameIn us n) (hsuffix : us <:+ ts) :
    NameIn ts n :=
  h.imp_right (·.mono hsuffix)

theorem nameable_nil : Text.Nameable [] := ⟨⟨List.not_mem_nil, Text.uncommented_nil⟩, nofun⟩

theorem suffix_tail {ts : Rest} : ts.tail <:+ ts := List.tail_suffix ts

/-- The tokens of a suffix are as tidy as all. -/
theorem tidy_of_suffix {ts us : Rest} (h : ∀ t ∈ ts, t.Tidy) (hsuffix : us <:+ ts) :
    ∀ t ∈ us, t.Tidy :=
  fun t ht => h t (hsuffix.subset ht)

/-- Tokens that are finished and are no symbols outside a test spell a joined text. -/
theorem joined_of_tidy {ok : UInt8 → Bool} {ts : List SourceToken}
    (hok : ∀ b, delimits b = false → ok b = true) (htidy : ∀ t ∈ ts, t.Tidy)
    (hend : ∀ t ∈ ts, t.kind ≠ .unterminated)
    (hsymbol : ∀ t ∈ ts, ∀ b, t.lexeme = ⟨.symbol, [b]⟩ → ok b = true) :
    Text.Joined ok (ts.flatMap (·.text)) := by
  have hjoin : Text.Joined ok ((ts.map SourceToken.lexeme).flatMap (·.text)) := by
    refine Text.joined_flatMap hok (fun l hl => ?_) fun l hl => ?_
    · obtain ⟨t, ht, rfl⟩ := List.mem_map.1 hl
      exact (htidy t ht).genuine
    · obtain ⟨t, ht, rfl⟩ := List.mem_map.1 hl
      exact ⟨(htidy t ht).blank, hend t ht, hsymbol t ht⟩
  rwa [List.flatMap_map] at hjoin

theorem joined_inFileName {mark : Char} {ts : List SourceToken}
    (hmark : delimits (byte mark) = true) (htidy : ∀ t ∈ ts, t.Tidy)
    (hinner : ∀ t ∈ ts, t.isSymbol mark = false ∧ t.kind ≠ .unterminated) :
    Text.Joined (inFileName mark) (ts.flatMap (·.text)) := by
  have hok : ∀ b, b ≠ byte mark → b ≠ byte ';' → inFileName mark b = true := by
    intro b hb hsemi
    simp only [inFileName, Bool.and_eq_true, bne_iff_ne]
    exact ⟨hb, hsemi⟩
  apply joined_of_tidy _ htidy (fun t ht => (hinner t ht).2)
  · intro t ht b hb
    apply hok
    · exact SourceToken.byte_ne (hinner t ht).1 hb
    · exact SourceToken.byte_ne (htidy t ht).semicolon hb
  · intro b hb
    have hne : ∀ c, delimits (byte c) = true → b ≠ byte c := by
      rintro c hc rfl
      rw [hb] at hc
      cases hc
    exact hok b (hne mark hmark) (hne ';' (by decide))

namespace Statement
variable {lines : LineReader} {role : NameRole} {ts us rest : Rest} {n name : Text}
  {st : Statement} {c : Char}

theorem quotedTokens?_eq_ok (h : quotedTokens? ts = .ok (name, rest)) :
    ∃ inner c, ts = inner ++ c :: rest ∧ c.isSymbol '"' = true ∧
      (∀ t ∈ inner, t.isSymbol '"' = false ∧ t.kind ≠ .unterminated) ∧
      inner.flatMap (·.text) = name := by
  induction ts generalizing name with
  | nil => cases h
  | cons t ts ih =>
    rw [quotedTokens?] at h
    split at h
    · rename_i ht
      cases h
      exact ⟨[], t, rfl, ht, List.forall_mem_nil _, rfl⟩
    · rename_i ht
      split at h
      · cases h
      · rename_i hend
        obtain ⟨⟨name', rest'⟩, hname, h⟩ := Reading.bind_eq_ok_iff.1 h
        cases h
        obtain ⟨inner, c, rfl, hc, hinner, rfl⟩ := ih hname
        exact ⟨t :: inner, c, rfl, hc,
          List.forall_mem_cons.2 ⟨⟨by simpa using ht, hend⟩, hinner⟩, rfl⟩

theorem quotedTokens?_append {inner : List SourceToken} {close : SourceToken} (rest : Rest)
    (hinner : ∀ t ∈ inner, t.lexeme ≠ .mark '"' ∧ t.lexeme.kind ≠ .unterminated)
    (hclose : close.lexeme = .mark '"') :
    quotedTokens? (inner ++ close :: rest) = .ok (inner.flatMap (·.text), rest) := by
  induction inner with
  | nil =>
    rw [List.nil_append, quotedTokens?, if_pos (SourceToken.isSymbol_iff.2 hclose)]
    rfl
  | cons t inner ih =>
    obtain ⟨⟨hquote, hend⟩, hinner⟩ := List.forall_mem_cons.1 hinner
    have hkind : t.kind ≠ .unterminated := hend
    rw [List.cons_append, quotedTokens?, if_neg (mt SourceToken.isSymbol_iff.1 hquote),
      if_neg hkind, ih hinner]
    rfl

theorem fileName?_eq_ok (h : fileName? ts = .ok (name, rest)) :
    quotedTokens? ts = .ok (name, rest) ∧ name ≠ [] := by
  obtain ⟨⟨name', rest'⟩, hname, h⟩ := Reading.bind_eq_ok_iff.1 h
  simp only at h
  split at h
  · cases h
  · cases h
    exact ⟨hname, ‹_›⟩

/-- The name of a file between double quotes is a joined text. -/
theorem joined_of_fileName? (h : fileName? ts = .ok (name, rest)) (htidy : ∀ t ∈ ts, t.Tidy) :
    name.Joined (inFileName '"') ∧ name ≠ [] ∧ rest <:+ ts := by
  obtain ⟨hname, hne⟩ := fileName?_eq_ok h
  obtain ⟨inner, c, rfl, _, hinner, rfl⟩ := quotedTokens?_eq_ok hname
  have hjoined : Text.Joined (inFileName '"') (inner.flatMap (·.text)) :=
    joined_inFileName (by decide) (fun t ht => htidy t (List.mem_append_left _ ht)) hinner
  have hsuffix : rest <:+ inner ++ c :: rest :=
    (List.suffix_cons _ _).trans (List.suffix_append _ _)
  exact ⟨hjoined, hne, hsuffix⟩

/-- A name that is a single token has a source form. -/
theorem nameable_of_name? (h : name? role ts = .ok (n, rest)) (htidy : ∀ t ∈ ts, t.Tidy)
    (hopen : nextIs '"' ts = false) : n.Nameable ∧ rest = ts.tail := by
  cases ts with
  | nil => cases h
  | cons t ts =>
    have ht := htidy t List.mem_cons_self
    have hopen : t.isSymbol '"' = false := hopen
    simp only [name?, hopen] at h
    split at h
    · rename_i hword
      cases h
      have hname := ht.nameable_of_isWordOrQuoted (by simp [SourceToken.isWordOrQuoted, hword])
      rw [ht.unquote_eq (by simp [hword]) (by simp [hword])] at hname
      exact ⟨hname, rfl⟩
    · split at h
      · rename_i hquoted
        cases h
        have hname := ht.nameable_of_isWordOrQuoted (by simp [SourceToken.isWordOrQuoted, hquoted])
        exact ⟨hname, rfl⟩
      · cases h

theorem name?_eq_ok (h : name? role ts = .ok (n, rest)) (htidy : ∀ t ∈ ts, t.Tidy) :
    NameIn ts n ∧ rest <:+ ts := by
  by_cases hopen : nextIs '"' ts = true
  · cases ts with
    | nil => cases h
    | cons t ts =>
      have hopen : t.isSymbol '"' = true := hopen
      have hkind : t.kind = .symbol := congrArg Lexeme.kind (SourceToken.isSymbol_iff.1 hopen)
      simp only [name?, hkind, reduceCtorEq, if_false, hopen, if_true] at h
      obtain ⟨hname, _⟩ := fileName?_eq_ok h
      obtain ⟨inner, c, rfl, hc, _, rfl⟩ := quotedTokens?_eq_ok hname
      have hspells : SpellsQuoted (t :: (inner ++ c :: rest)) (inner.flatMap (·.text)) :=
        ⟨t, inner, c, ⟨[], rest, by simp⟩, hopen, hc, rfl⟩
      have hrest : rest <:+ inner ++ c :: rest :=
        (List.suffix_cons _ _).trans (List.suffix_append _ _)
      exact ⟨.inr hspells, hrest.trans (List.suffix_cons _ _)⟩
  · obtain ⟨hname, hrest⟩ := nameable_of_name? h htidy (Bool.eq_false_iff.2 hopen)
    rw [hrest]
    exact ⟨.inl hname, List.tail_suffix ts⟩

theorem lastName?_eq_ok (h : lastName? role ts = .ok n) (htidy : ∀ t ∈ ts, t.Tidy) :
    NameIn ts n := by
  obtain ⟨⟨n', rest⟩, hname, h⟩ := Reading.bind_eq_ok_iff.1 h
  obtain ⟨_, _, h⟩ := Reading.bind_eq_ok_iff.1 h
  cases h
  exact (name?_eq_ok hname htidy).1

theorem expect_eq_ok (h : expect c ts = .ok rest) : nextIs c ts = true ∧ rest = ts.tail := by
  unfold expect at h
  split at h
  · cases h
    exact ⟨‹_›, rfl⟩
  · cases h

/-- What is known of a statement that was read from some tokens. -/
structure Sourced (lines : LineReader) (ts : Rest) (st : Statement) : Prop where
  names : ∀ n ∈ st.names, NameIn ts n
  regular : st.Regular lines

theorem Sourced.mono (h : Sourced lines us st) (hsuffix : us <:+ ts) : Sourced lines ts st :=
  ⟨fun n hn => (h.names n hn).mono hsuffix, h.regular⟩

theorem sourced_require? (h : require? ts = .ok st) (htidy : ∀ t ∈ ts, t.Tidy) :
    Sourced lines ts st := by
  obtain ⟨⟨type, us⟩, htype, h⟩ := Reading.bind_eq_ok_iff.1 h
  obtain ⟨hname, hus⟩ := name?_eq_ok htype htidy
  simp only at h
  split at h
  · obtain ⟨file, hfile, h⟩ := Reading.bind_eq_ok_iff.1 h
    cases h
    have htail : us.tail <:+ ts := suffix_tail.trans hus
    constructor
    · simp only [names, List.forall_mem_cons]
      exact ⟨hname, (lastName?_eq_ok hfile (tidy_of_suffix htidy htail)).mono htail,
        List.forall_mem_nil _⟩
    · trivial
  · obtain ⟨_, _, h⟩ := Reading.bind_eq_ok_iff.1 h
    cases h
    constructor
    · simp only [names, List.forall_mem_cons]
      exact ⟨hname, .inl nameable_nil, List.forall_mem_nil _⟩
    · trivial

theorem sourced_offLevel? (h : offLevel? ts = .ok st) : Sourced lines ts st := by
  have hst : st = .offLevel := by
    unfold offLevel? at h
    split at h
    · obtain ⟨_, _, h⟩ := Reading.bind_eq_ok_iff.1 h
      cases h
      rfl
    · obtain ⟨_, _, h⟩ := Reading.bind_eq_ok_iff.1 h
      cases h
      rfl
  rw [hst]
  exact ⟨List.forall_mem_nil _, trivial⟩

theorem sourced_import? (h : import? ts = .ok st) (htidy : ∀ t ∈ ts, t.Tidy) :
    Sourced lines ts st := by
  obtain ⟨⟨level, us⟩, hlevel, h⟩ := Reading.bind_eq_ok_iff.1 h
  obtain ⟨⟨newType, vs⟩, hnew, h⟩ := Reading.bind_eq_ok_iff.1 h
  obtain ⟨ws, hexpect, h⟩ := Reading.bind_eq_ok_iff.1 h
  obtain ⟨oldType, hold, h⟩ := Reading.bind_eq_ok_iff.1 h
  cases h
  obtain ⟨hlevelName, hus⟩ := name?_eq_ok hlevel htidy
  obtain ⟨hnewName, hvs⟩ := name?_eq_ok hnew (tidy_of_suffix htidy hus)
  obtain ⟨_, rfl⟩ := expect_eq_ok hexpect
  have htail : vs.tail <:+ ts := suffix_tail.trans (hvs.trans hus)
  constructor
  · simp only [names, List.forall_mem_cons]
    exact ⟨hlevelName, hnewName.mono hus,
      (lastName?_eq_ok hold (tidy_of_suffix htidy htail)).mono htail, List.forall_mem_nil _⟩
  · trivial

theorem readLines_eq_ok {file : Text} {ls : List Text} (h : readLines lines file rest = .ok ls) :
    lines file = .ok ls := by
  unfold readLines at h
  split at h
  · rename_i hls
    cases h
    exact hls
  · cases h

theorem entry?_eq_ok {e : DictionaryEntry} (h : entry? lines ts = .ok (e, rest))
    (htidy : ∀ t ∈ ts, t.Tidy) : e.Regular lines ∧ rest <:+ ts := by
  cases ts with
  | nil => cases h
  | cons t ts =>
    have hts := tidy_of_suffix htidy (List.suffix_cons t ts)
    unfold entry? at h
    simp only at h
    split at h
    · obtain ⟨⟨file, us⟩, hfile, h⟩ := Reading.bind_eq_ok_iff.1 h
      obtain ⟨ls, hls, h⟩ := Reading.bind_eq_ok_iff.1 h
      cases h
      obtain ⟨hjoined, hne, hus⟩ := joined_of_fileName? hfile hts
      exact ⟨⟨hjoined, hne, readLines_eq_ok hls⟩, hus.trans (List.suffix_cons _ _)⟩
    · split at h
      · rename_i hname
        cases h
        exact ⟨(htidy t List.mem_cons_self).nameable_of_isWordOrQuoted hname,
          List.suffix_cons _ _⟩
      · cases h

theorem entries?_eq_ok {fuel : Nat} {es : List DictionaryEntry}
    (h : entries? lines fuel ts = .ok es) (htidy : ∀ t ∈ ts, t.Tidy) :
    es ≠ [] ∧ ∀ e ∈ es, e.Regular lines := by
  induction fuel generalizing ts es with
  | zero => cases h
  | succ fuel ih =>
    obtain ⟨⟨e, us⟩, he, h⟩ := Reading.bind_eq_ok_iff.1 h
    obtain ⟨hregular, hus⟩ := entry?_eq_ok he htidy
    simp only at h
    split at h
    · cases h
      exact ⟨List.cons_ne_nil _ _, List.forall_mem_singleton.2 hregular⟩
    · split at h
      · obtain ⟨es', hes, h⟩ := Reading.bind_eq_ok_iff.1 h
        cases h
        have hentries := (ih hes (tidy_of_suffix htidy (suffix_tail.trans hus))).2
        exact ⟨List.cons_ne_nil _ _, List.forall_mem_cons.2 ⟨hregular, hentries⟩⟩
      · cases h

theorem sourced_dictionary? (h : dictionary? lines ts = .ok st) (htidy : ∀ t ∈ ts, t.Tidy) :
    Sourced lines ts st := by
  have hbody : ∀ {us : Rest} {ignoreCase : Bool}, us <:+ ts →
      (name? .dictionary us >>= fun x => expect '=' x.2 >>= fun rest =>
        entries? lines (rest.length + 1) rest >>= fun es =>
          pure (defineDictionary ⟨x.1, ignoreCase, es⟩)) = .ok st → Sourced lines ts st := by
    intro us ignoreCase hsuffix h
    obtain ⟨⟨name, vs⟩, hname, h⟩ := Reading.bind_eq_ok_iff.1 h
    obtain ⟨ws, hexpect, h⟩ := Reading.bind_eq_ok_iff.1 h
    obtain ⟨es, hes, h⟩ := Reading.bind_eq_ok_iff.1 h
    cases h
    obtain ⟨_, rfl⟩ := expect_eq_ok hexpect
    obtain ⟨hnameIn, hvs⟩ := name?_eq_ok hname (tidy_of_suffix htidy hsuffix)
    constructor
    · exact List.forall_mem_singleton.2 (hnameIn.mono hsuffix)
    · exact entries?_eq_ok hes (tidy_of_suffix htidy (suffix_tail.trans (hvs.trans hsuffix)))
  unfold dictionary? at h
  simp only at h
  split at h
  · split at h
    · exact hbody (suffix_tail.trans suffix_tail) h
    · cases h
  · exact hbody List.suffix_rfl h

theorem sourced_level? (h : level? ts = .ok st) (htidy : ∀ t ∈ ts, t.Tidy) :
    Sourced lines ts st := by
  obtain ⟨⟨name, us⟩, hname, h⟩ := Reading.bind_eq_ok_iff.1 h
  obtain ⟨vs, hexpect, h⟩ := Reading.bind_eq_ok_iff.1 h
  obtain ⟨_, rfl⟩ := expect_eq_ok hexpect
  obtain ⟨hnameIn, hus⟩ := name?_eq_ok hname htidy
  split at h
  · cases h
  · rename_i t vs htail
    have hvs : vs <:+ ts := by
      refine List.IsSuffix.trans ?_ (suffix_tail.trans hus)
      rw [htail]
      exact List.suffix_cons _ _
    split at h
    · cases h
    · rename_i strategy _
      obtain ⟨⟨pattern, ws⟩, hpattern, h⟩ := Reading.bind_eq_ok_iff.1 h
      have hpatternIn := (name?_eq_ok hpattern (tidy_of_suffix htidy hvs)).1
      simp only at h
      split at h
      · cases h
      · rename_i hstrategy
        obtain ⟨_, _, h⟩ := Reading.bind_eq_ok_iff.1 h
        cases h
        constructor
        · simp only [names, List.forall_mem_cons]
          exact ⟨hnameIn, hpatternIn.mono hvs, List.forall_mem_nil _⟩
        · exact not_not.1 hstrategy

theorem phrase?_eq_ok {number : Nat} {e : PhraseEntry} (h : phrase? lines number ts = .ok e)
    (htidy : ∀ t ∈ ts, t.Tidy) (hend : ∀ t ∈ ts, t.kind ≠ .unterminated)
    (hcomma : ∀ t ∈ ts, t.isSymbol ',' = false) : e.Regular lines := by
  unfold phrase? at h
  split at h
  · rename_i hquoted
    obtain ⟨ls, hls, h⟩ := Reading.bind_eq_ok_iff.1 h
    cases h
    have hmem : ∀ t ∈ ts.tail.dropLast, t ∈ ts := fun t ht =>
      List.mem_of_mem_tail (List.dropLast_subset _ ht)
    refine ⟨?_, ?_, readLines_eq_ok hls⟩
    · apply joined_inFileName (by decide) (fun t ht => htidy t (hmem t ht))
      intro t ht
      exact ⟨hcomma t (hmem t ht), hend t (hmem t ht)⟩
    · -- there is a token between the double quotes, and no token is empty
      have hlen : 0 < ts.tail.dropLast.length := by
        simp only [areQuoted, Bool.and_eq_true, decide_eq_true_eq] at hquoted
        simp only [List.length_dropLast, List.length_tail]
        omega
      obtain ⟨t, ht⟩ := List.exists_mem_of_length_pos hlen
      intro hnil
      exact (htidy t (hmem t ht)).genuine.ne_nil (List.flatMap_eq_nil_iff.1 hnil t ht)
  · cases h
    intro w hw
    obtain ⟨t, ht, rfl⟩ := List.mem_map.1 hw
    apply ((htidy t ht).nameable (hend t ht)).imp_right
    intro hback
    rw [show t.text = [byte '\\'] from congrArg Lexeme.text hback]
    rfl

theorem phrases?_eq_ok_iff {g : Generator} : phrases? lines ts = .ok g ↔
    (∀ t ∈ ts, t.kind ≠ .unterminated) ∧ ∃ es,
      ((phraseTokens ts).zipIdx.mapM fun part => phrase? lines part.2 part.1) = .ok es ∧
        .phrases es = g := by
  have hfault : ts.dropWhile (·.kind != .unterminated) = [] ↔ ∀ t ∈ ts, t.kind ≠ .unterminated := by
    simp
  unfold phrases?
  extract_lets fromFault
  by_cases hend : fromFault = []
  · rw [if_neg (not_not.2 hend), Reading.bind_eq_ok_iff, ← hfault]
    constructor
    · rintro ⟨es, hes, h⟩
      exact ⟨hend, es, hes, Except.ok.inj h⟩
    · rintro ⟨-, es, hes, h⟩
      exact ⟨es, hes, congrArg Except.ok h⟩
  · rw [if_pos hend, ← hfault]
    constructor
    · intro h
      cases h
    · rintro ⟨hnil, -⟩
      exact absurd hnil hend

theorem phrases?_eq_ok {g : Generator} (h : phrases? lines ts = .ok g)
    (htidy : ∀ t ∈ ts, t.Tidy) : g.Regular lines := by
  obtain ⟨hend, es, hes, rfl⟩ := phrases?_eq_ok_iff.1 h
  intro e he
  obtain ⟨i, hi, rfl⟩ := List.getElem_of_mem he
  have hall := List.forall₂_iff_get.1 (Reading.mapM_eq_ok_iff.1 hes)
  have hpart := hall.2 i (hall.1 ▸ hi) hi
  have hmem : ((phraseTokens ts).zipIdx.get ⟨i, hall.1 ▸ hi⟩).1 ∈ phraseTokens ts :=
    List.fst_mem_of_mem_zipIdx (List.get_mem _ _)
  obtain ⟨s, hs, heq⟩ := List.mem_map.1 hmem
  rw [← heq] at hpart
  have hs' : ∀ t ∈ s.tokens, t ∈ ts ∧ t.isSymbol ',' = false :=
    fun t ht => Segment.mem_of_mem_split hs ht
  apply phrase?_eq_ok hpart
  · intro t ht
    exact htidy t (hs' t ht).1
  · intro t ht
    exact hend t (hs' t ht).1
  · intro t ht
    exact (hs' t ht).2

/-- No regular expression is ever read to its end. -/
theorem regex?_ne_ok {α : Type} {stop : SourceToken} {a : α} : regex? stop ts ≠ .ok a := by
  intro h
  unfold regex? at h
  split at h
  · cases h
  · split at h
    · cases h
    · obtain ⟨us, _, h⟩ := Reading.bind_eq_ok_iff.1 h
      split at h
      · cases h
      · split at h <;> cases h

theorem generator?_eq_ok {stop : SourceToken} {g : Generator}
    (h : generator? lines stop ts = .ok g) (htidy : ∀ t ∈ ts, t.Tidy) : g.Regular lines := by
  have htail := tidy_of_suffix htidy suffix_tail
  unfold generator? at h
  split at h
  · split at h
    · exact absurd h regex?_ne_ok
    · split at h
      · exact phrases?_eq_ok h (tidy_of_suffix htail suffix_tail)
      · cases h
  · split at h
    · cases h
    · rename_i p hp
      have hregular : ∃ s, Pattern.ofSegment? s = .ok p ∧ ∀ t ∈ s.tokens, t.Tidy := ⟨_, hp, htail⟩
      cases h
      split
      · exact hregular
      · exact hregular

theorem sourced_labeling? {stop : SourceToken} {effect : Effect}
    (h : labeling? lines stop effect ts = .ok st) (htidy : ∀ t ∈ ts, t.Tidy)
    (heffect : ∀ n ∈ effect.names, NameIn us n) (hus : ts <:+ us) : Sourced lines us st := by
  obtain ⟨vs, hexpect, h⟩ := Reading.bind_eq_ok_iff.1 h
  obtain ⟨_, rfl⟩ := expect_eq_ok hexpect
  have htail := tidy_of_suffix htidy suffix_tail
  simp only at h
  split at h
  · obtain ⟨g, hg, h⟩ := Reading.bind_eq_ok_iff.1 h
    cases h
    constructor
    · exact List.forall_mem_append.2 ⟨heffect, List.forall_mem_singleton.2 (.inl nameable_nil)⟩
    · exact generator?_eq_ok hg htail
  · obtain ⟨⟨scope, ws⟩, hscope, h⟩ := Reading.bind_eq_ok_iff.1 h
    obtain ⟨hname, hws⟩ := name?_eq_ok hscope htail
    simp only at h
    split at h
    · obtain ⟨g, hg, h⟩ := Reading.bind_eq_ok_iff.1 h
      cases h
      refine ⟨List.forall_mem_append.2 ⟨heffect, List.forall_mem_singleton.2 ?_⟩, ?_⟩
      · exact hname.mono (suffix_tail.trans hus)
      · exact generator?_eq_ok hg (tidy_of_suffix htail hws)
    · cases h

theorem sourced_spanType? {stop : SourceToken} (h : spanType? lines stop ts = .ok st)
    (htidy : ∀ t ∈ ts, t.Tidy) : Sourced lines ts st := by
  obtain ⟨⟨type, us⟩, htype, h⟩ := Reading.bind_eq_ok_iff.1 h
  obtain ⟨hname, hus⟩ := name?_eq_ok htype htidy
  simp only at h
  split at h
  · cases h
  · exact sourced_labeling? h (tidy_of_suffix htidy hus) (List.forall_mem_singleton.2 hname) hus

theorem sourced_property? {stop : SourceToken} {effect : Text → Text → Effect}
    (h : property? lines stop effect ts = .ok st) (htidy : ∀ t ∈ ts, t.Tidy)
    (heffect : ∀ key value, (effect key value).names = [key, value]) : Sourced lines ts st := by
  obtain ⟨⟨key, us⟩, hkey, h⟩ := Reading.bind_eq_ok_iff.1 h
  obtain ⟨hname, hus⟩ := name?_eq_ok hkey htidy
  simp only at h
  split at h
  · obtain ⟨⟨value, vs⟩, hvalue, h⟩ := Reading.bind_eq_ok_iff.1 h
    have htail : us.tail <:+ ts := suffix_tail.trans hus
    obtain ⟨hvalueName, hvs⟩ := name?_eq_ok hvalue (tidy_of_suffix htidy htail)
    refine sourced_labeling? h (tidy_of_suffix htidy (hvs.trans htail)) ?_ (hvs.trans htail)
    simp only [heffect, List.forall_mem_cons]
    exact ⟨hname, hvalueName.mono htail, List.forall_mem_nil _⟩
  · cases h

/-- A statement that consists of one name. -/
theorem sourced_lastName {f : Text → Statement} (h : f <$> lastName? role ts = .ok st)
    (htidy : ∀ t ∈ ts, t.Tidy) (hf : ∀ n, (f n).names = [n] ∧ (f n).Regular lines) :
    Sourced lines ts st := by
  cases hn : lastName? role ts with
  | error e =>
    rw [hn] at h
    cases h
  | ok n =>
    rw [hn] at h
    cases h
    constructor
    · rw [(hf n).1]
      exact List.forall_mem_singleton.2 (lastName?_eq_ok hn htidy)
    · exact (hf n).2

theorem sourced_body? {stop : SourceToken} {keyword : Text}
    (h : body? lines stop keyword ts = .ok st) (htidy : ∀ t ∈ ts, t.Tidy) :
    Sourced lines ts st := by
  rw [body?] at h
  rcases ite_eq_iff.1 h with ⟨-, h⟩ | ⟨-, h⟩
  · exact sourced_lastName h htidy fun _ => ⟨rfl, trivial⟩
  rcases ite_eq_iff.1 h with ⟨-, h⟩ | ⟨-, h⟩
  · exact sourced_lastName h htidy fun _ => ⟨rfl, trivial⟩
  rcases ite_eq_iff.1 h with ⟨-, h⟩ | ⟨-, h⟩
  · exact sourced_require? h htidy
  rcases ite_eq_iff.1 h with ⟨-, h⟩ | ⟨-, h⟩
  · exact sourced_lastName h htidy fun _ => ⟨rfl, trivial⟩
  rcases ite_eq_iff.1 h with ⟨-, h⟩ | ⟨-, h⟩
  · exact sourced_lastName h htidy fun _ => ⟨rfl, trivial⟩
  rcases ite_eq_iff.1 h with ⟨-, h⟩ | ⟨-, h⟩
  · exact sourced_offLevel? h
  rcases ite_eq_iff.1 h with ⟨-, h⟩ | ⟨-, h⟩
  · exact sourced_import? h htidy
  rcases ite_eq_iff.1 h with ⟨-, h⟩ | ⟨-, h⟩
  · exact sourced_dictionary? h htidy
  rcases ite_eq_iff.1 h with ⟨-, h⟩ | ⟨-, h⟩
  · exact sourced_level? h htidy
  rcases ite_eq_iff.1 h with ⟨-, h⟩ | ⟨-, h⟩
  · exact sourced_spanType? h htidy
  rcases ite_eq_iff.1 h with ⟨-, h⟩ | ⟨-, h⟩
  · exact sourced_property? h htidy fun _ _ => rfl
  rcases ite_eq_iff.1 h with ⟨-, h⟩ | ⟨-, h⟩
  · exact sourced_property? h htidy fun _ _ => rfl
  · cases h

theorem sourced_ofSegment? {s : Segment} (h : ofSegment? lines s = .ok st)
    (htidy : ∀ t ∈ s.tokens, t.Tidy) : Sourced lines s.tokens st := by
  unfold ofSegment? at h
  extract_lets first at h
  split at h
  · cases h
  · split at h
    · cases h
    · split at h
      · rename_i hbody
        cases h
        exact (sourced_body? hbody (tidy_of_suffix htidy suffix_tail)).mono suffix_tail
      · cases h

end Statement

end SpanRules
