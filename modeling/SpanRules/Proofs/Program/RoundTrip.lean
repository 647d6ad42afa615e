import SpanRules.Proofs.Statement.Reread.Backslash
import SpanRules.Program

/-! Reading the listing of a program. It gives the same program again, unless a phrase has a single
backslash as a word. -/
namespace SpanRules

theorem forall₂_append_left_iff {α β : Type} {R : α → β → Prop} {xs zs : List α} {ys : List β} :
    List.Forall₂ R (xs ++ zs) ys ↔
      ∃ us vs, List.Forall₂ R xs us ∧ List.Forall₂ R zs vs ∧ ys = us ++ vs := by
  constructor
  · intro h
    have htake := List.forall₂_take xs.length h
    have hdrop := List.forall₂_drop xs.length h
    rw [List.take_left] at htake
    rw [List.drop_left] at hdrop
    exact ⟨_, _, htake, hdrop, (List.take_append_drop _ ys).symm⟩
  · rintro ⟨us, vs, hus, hvs, rfl⟩
    exact List.rel_append hus hvs

theorem exists_of_forall₂_append_cons {α β : Type} {R : α → β → Prop} {xs zs : List α} {x : α}
    {ys : List β} (h : List.Forall₂ R (xs ++ x :: zs) ys) :
    ∃ us y vs, ys = us ++ y :: vs ∧ xs.length = us.length ∧ R x y := by
  obtain ⟨us, rest, hus, hrest, rfl⟩ := forall₂_append_left_iff.1 h
  obtain ⟨y, vs, hy, -, rfl⟩ := List.forall₂_cons_left_iff.1 hrest
  exact ⟨us, y, vs, rfl, hus.length_eq, hy⟩

namespace Program
variable {r : Resources} {lines : LineReader} {source : Text} {p p' : Program}

theorem parse?_eq_ok_iff : parse? r source = .ok p ↔
    ofSegments? r.readLines source.stripComments.segments = .ok p := by
  unfold parse?
  split
  · rename_i hp
    rw [hp]
    constructor
    · intro h
      exact congrArg Except.ok (Except.ok.inj h)
    · intro h
      exact congrArg Except.ok (Except.ok.inj h)
  · rename_i he
    rw [he]
    constructor
    · intro h
      cases h
    · intro h
      cases h

theorem feed_not_mem_of_spellsQuoted {ts : Rest} {n : Text} (htidy : ∀ t ∈ ts, t.Tidy)
    (h : SpellsQuoted ts n) : byte '\n' ∉ n := by
  obtain ⟨o, inner, c, hinner, -, -, rfl⟩ := h
  intro hmem
  obtain ⟨t, ht, hfeed⟩ := List.mem_flatMap.1 hmem
  have ht' := htidy t (hinner.subset (by simp [ht]))
  exact ht'.genuine.feed_not_mem ht'.blank hfeed

/-- Each statement of a program that was read comes from a segment of its source. -/
theorem exists_sourced_of_parse? {st : Statement} (h : parse? r source = .ok p) (hst : st ∈ p) :
    ∃ s ∈ source.stripComments.segments, (∀ t ∈ s.tokens, t.Tidy) ∧
      Statement.Sourced r.readLines s.tokens st := by
  have hread := Reading.mapM_eq_ok_iff.1 (parse?_eq_ok_iff.1 h)
  obtain ⟨i, hi, rfl⟩ := List.getElem_of_mem hst
  obtain ⟨hlength, hget⟩ := List.forall₂_iff_get.1 hread
  have hs := List.mem_of_mem_filter (List.get_mem _ ⟨i, hlength ▸ hi⟩)
  have htidy := fun t => Text.tidy_of_mem_segments (t := t) hs
  exact ⟨_, hs, htidy, Statement.sourced_ofSegment? (hget i (hlength ▸ hi) hi) htidy⟩

/-- The statements of a program that was read can be listed if its names between double quotes and
its files can. -/
theorem listable_of_parse? (h : parse? r source = .ok p)
    (hnames : ∀ st ∈ p, ∀ n ∈ st.names,
      (∃ s ∈ source.stripComments.segments, SpellsQuoted s.tokens n) →
        n.getLast? ≠ some (byte '\\') ∧ ¬ ascii "//" <:+: n)
    (hfiles : ∀ st ∈ p, ∀ name ∈ st.files, ¬ ascii "//" <:+: name) :
    ∀ st ∈ p, st.Listable r.readLines := by
  intro st hst
  obtain ⟨s, hs, htidy, hsourced⟩ := exists_sourced_of_parse? h hst
  refine ⟨fun n hn => ?_, fun name hname => Text.uncommented_iff.2 (hfiles _ hst name hname),
    hsourced.regular⟩
  rcases hsourced.names n hn with hname | hquoted
  · exact hname
  · obtain ⟨hlast, hcomment⟩ := hnames _ hst n hn ⟨s, hs, hquoted⟩
    exact ⟨⟨feed_not_mem_of_spellsQuoted htidy hquoted, Text.uncommented_iff.2 hcomment⟩, hlast⟩

section
variable {lexemes : Statement → List Lexeme} {segments : List Segment}

/-- Segments with the lexemes of statements are no empty ones. -/
theorem filter_segments
    (h : segments.map (fun s => s.tokens.map SourceToken.lexeme) = p.map lexemes)
    (hne : ∀ st ∈ p, lexemes st ≠ []) : segments.filter (! ·.tokens.isEmpty) = segments := by
  apply List.filter_eq_self.2
  intro s hs
  have hmem := List.mem_map_of_mem (f := fun s : Segment => s.tokens.map SourceToken.lexeme) hs
  rw [h] at hmem
  obtain ⟨st, hst, heq⟩ := List.mem_map.1 hmem
  have htokens : s.tokens ≠ [] := fun hnil => hne st hst (by rw [heq, hnil]; rfl)
  simpa using htokens

theorem mapM_ofSegment?
    (h : segments.map (fun s => s.tokens.map SourceToken.lexeme) = p.map lexemes)
    (hread : ∀ st ∈ p, ∀ s : Segment, s.tokens.map SourceToken.lexeme = lexemes st →
      Statement.ofSegment? lines s = .ok st.relisted) :
    segments.mapM (Statement.ofSegment? lines) = .ok (p.map (·.relisted)) := by
  rw [Reading.mapM_eq_ok_iff]
  induction p generalizing segments with
  | nil =>
    rw [List.map_eq_nil_iff.1 h]
    exact .nil
  | cons st p ih =>
    obtain ⟨hst, hread⟩ := List.forall_mem_cons.1 hread
    obtain ⟨s, segments, rfl, hs, hsegments⟩ := List.map_eq_cons_iff.1 h
    exact .cons (hst s hs) (ih hsegments hread)

end

theorem parse?_listing_of_rereads (h : ∀ st ∈ p, st.Rereads r.readLines) :
    parse? r p.listing = .ok (p.map (·.relisted)) := by
  choose! lexemes hprints hne hsemi hread using h
  have hstrip : p.listing.stripComments = p.listing := by
    have hall := Text.stripComments_statements hprints []
    rw [List.append_nil] at hall
    exact hall.trans (List.append_nil _)
  have hsegments : p.listing.segments.map (fun s => s.tokens.map SourceToken.lexeme) =
      p.map lexemes ++ [[]] := by
    have hall := Text.segments_statements hprints hsemi []
    rw [List.append_nil] at hall
    exact hall
  rw [parse?_eq_ok_iff, hstrip, ofSegments?]
  obtain ⟨segments, rest, heq, hp, hrest⟩ := List.map_eq_append_iff.1 hsegments
  obtain ⟨s, rfl, hs⟩ := List.map_eq_singleton_iff.1 hrest
  have hlast : [s].filter (! ·.tokens.isEmpty) = [] := by
    simp [List.map_eq_nil_iff.1 hs]
  rw [heq, List.filter_append, filter_segments hp hne, hlast, List.append_nil]
  exact mapM_ofSegment? hp hread

/-- The segments of the listing up to a place in a statement where a quote is printed. -/
theorem exists_segments_eq {ps : List Statement} {lexemes : Statement → List Lexeme}
    {ls : List Lexeme} {a u : Text} (hprints : ∀ st ∈ ps, st.toText.Prints (lexemes st))
    (hsemi : ∀ st ∈ ps, .mark ';' ∉ lexemes st) (ha : a.PrintsApart ls) (hls : .mark ';' ∉ ls)
    (hsource : source =
      ps.flatMap (fun st => st.toText ++ ascii ";\n") ++ (a ++ byte '\'' :: u)) :
    ∃ segments s rest l ms, source.stripComments.segments = segments ++ s :: rest ∧
      segments.map (fun s => s.tokens.map SourceToken.lexeme) = ps.map lexemes ∧
      s.tokens.map SourceToken.lexeme = ls ++ l :: ms ∧
      (l.kind = .quoted ∨ l.kind = .unterminated) := by
  have hquiet : (a ++ [byte '\'']).Quiet := ha.quiet.append (by decide) (.inl ha.last)
  have hlast : (a ++ [byte '\'']).getLast? = some (byte '\'') := List.getLast?_concat
  obtain ⟨w, hw⟩ := Text.exists_stripComments_append (u := u) hquiet.uncommented hquiet.feed
    (by simp) (by rw [hlast]; decide) (by rw [hlast]; decide)
  obtain ⟨l, ms, hlexemes, hl⟩ := Text.exists_solidLexemes_quote w
  have hsemi' : .mark ';' ∉ ls ++ [l] := by
    have hne : Lexeme.mark ';' ≠ l := by
      rintro rfl
      rcases hl with hl | hl <;> cases hl
    simp [hls, hne]
  obtain ⟨xs, xss, hxs⟩ := exists_splitOn_append hsemi' ms
  have hall : ((a ++ [byte '\'']) ++ w).solidLexemes = ls ++ [l] ++ ms := by
    rw [List.append_assoc, List.singleton_append, ha.spells, hlexemes, List.append_cons]
  have hsegments := Text.segments_statements hprints hsemi ((a ++ [byte '\'']) ++ w)
  rw [hall, hxs] at hsegments
  obtain ⟨segments, rest, heq, hps, hrest⟩ := List.map_eq_append_iff.1 hsegments
  obtain ⟨s, rest, rfl, hs, -⟩ := List.map_eq_cons_iff.1 hrest
  refine ⟨segments, s, rest, l, xs, ?_, hps, by rw [hs, List.append_assoc]; rfl, hl⟩
  rw [hsource, Text.stripComments_statements hprints, ← heq, List.append_cons a, hw]

theorem not_alike_of_backslash (h : ∀ st ∈ p, st.Listable r.readLines)
    (hwords : ∃ st ∈ p, backslash ∈ st.phraseWords) (hp' : parse? r p.listing = .ok p') :
    ¬ List.Forall₂ Statement.Alike p p' := by
  obtain ⟨st, hst, hback⟩ := hwords
  obtain ⟨ps, st, qs, rfl, hback, hps⟩ := exists_first (p := (·.phraseWords.contains backslash))
    ⟨st, hst, List.contains_iff_mem.2 hback⟩
  have hrereads : ∀ st ∈ ps, st.Rereads r.readLines := fun st hst =>
    (h st (List.mem_append_left _ hst)).rereads (by simpa using hps st hst)
  choose! lexemes hprints hne hsemi hread using hrereads
  obtain ⟨a, v, ls, htext, hbefore, hls, hsemi', hnot⟩ :=
    (h st (List.mem_append_right _ List.mem_cons_self)).exists_not_alike
      (List.contains_iff_mem.1 hback)
  have hlisting : Program.listing (ps ++ st :: qs) =
      ps.flatMap (fun st => st.toText ++ ascii ";\n") ++
        (a ++ byte '\'' :: (v ++ ascii ";\n" ++ Program.listing qs)) := by
    rw [listing, List.flatMap_append, List.flatMap_cons, htext]
    simp only [List.append_assoc, List.cons_append]
    rfl
  obtain ⟨segments, s, rest, l, ms, hsegments, hps', hs, hl⟩ :=
    exists_segments_eq hprints hsemi hbefore hsemi' hlisting
  have htokens : s.tokens ≠ [] := fun hnil => hls (by simp [hnil] at hs)
  have hfilter : (segments ++ s :: rest).filter (! ·.tokens.isEmpty) =
      segments ++ s :: rest.filter (! ·.tokens.isEmpty) := by
    rw [List.filter_append, filter_segments hps' hne,
      List.filter_cons_of_pos (by simpa using htokens)]
  rw [parse?_eq_ok_iff, ofSegments?, hsegments, hfilter, Reading.mapM_eq_ok_iff] at hp'
  intro halike
  obtain ⟨us, st', vs, rfl, hlength, hst'⟩ := exists_of_forall₂_append_cons hp'
  obtain ⟨us', st'', vs', heq, hlength', halike⟩ := exists_of_forall₂_append_cons halike
  have hsame : us.length = us'.length := by
    have hlen := congrArg List.length hps'
    simp only [List.length_map] at hlen
    omega
  obtain ⟨-, hrest⟩ := List.append_inj heq hsame
  cases hrest
  refine hnot s l ms st' hl (fun t ht => ?_) hs hst' halike
  exact Text.tidy_of_mem_segments (hsegments ▸ List.mem_append_right _ List.mem_cons_self) ht

/-- A program that was read is read again from its listing, with the same statements but for the
case of words that a dictionary holds in lower case and for empty phrases, and has the same listing
then; if and only if no word of a phrase is a single backslash. Only names between double quotes can
end in a backslash or hold the mark of a comment. -/
theorem parse?_listing_iff (h : parse? r source = .ok p)
    (hnames : ∀ st ∈ p, ∀ n ∈ st.names,
      (∃ s ∈ source.stripComments.segments, SpellsQuoted s.tokens n) →
        n.getLast? ≠ some (byte '\\') ∧ ¬ ascii "//" <:+: n)
    (hfiles : ∀ st ∈ p, ∀ name ∈ st.files, ¬ ascii "//" <:+: name) :
    (∃ p', parse? r p.listing = .ok p' ∧ List.Forall₂ Statement.Alike p p' ∧
      p'.listing = p.listing) ↔ ∀ st ∈ p, backslash ∉ st.phraseWords := by
  have hlistable := listable_of_parse? h hnames hfiles
  constructor
  · rintro ⟨p', hp', halike, -⟩ st hst hback
    exact not_alike_of_backslash hlistable ⟨st, hst, hback⟩ hp' halike
  · intro hwords
    have hrereads : ∀ st ∈ p, st.Rereads r.readLines := fun st hst =>
      (hlistable st hst).rereads (hwords st hst)
    refine ⟨_, parse?_listing_of_rereads hrereads, ?_, ?_⟩
    · rw [List.forall₂_map_right_iff]
      exact List.forall₂_same.2 fun st _ => st.alike_relisted
    · rw [listing, listing, List.flatMap_map]
      exact List.flatMap_congr fun st _ => by rw [Statement.toText_relisted]

/-- A name between double quotes, a word in another case, and a phrase that begins with an empty
word. -/
theorem parse?_listing_iff_of_three_statements :
    let source := ascii "onLevel \"a b\"; defDict D = Word; defSpanType T = ~ trie '' 'a b';"
    let p : Program := [.onLevel (ascii "ab"),
      .defineDictionary ⟨ascii "D", true, [.word (ascii "Word")]⟩,
      .label ⟨.spanType (ascii "T"), [], .phrases [.words 0 [[], ascii "a b"]]⟩]
    parse? default source = .ok p ∧
      (∀ st ∈ p, ∀ n ∈ st.names,
        (∃ s ∈ source.stripComments.segments, SpellsQuoted s.tokens n) →
          n.getLast? ≠ some (byte '\\') ∧ ¬ ascii "//" <:+: n) ∧
      (∀ st ∈ p, ∀ name ∈ st.files, ¬ ascii "//" <:+: name) ∧
      ∃ p', parse? default p.listing = .ok p' ∧ List.Forall₂ Statement.Alike p p' ∧
        p'.listing = p.listing := by
  intro source p
  have hp : parse? default source = .ok p := by decide +kernel
  have hnames : ∀ st ∈ p, ∀ n ∈ st.names,
      n.getLast? ≠ some (byte '\\') ∧ ¬ ascii "//" <:+: n := by decide
  have hfiles : ∀ st ∈ p, ∀ name ∈ st.files, ¬ ascii "//" <:+: name := by decide
  have hwords : ∀ st ∈ p, backslash ∉ st.phraseWords := by decide
  exact ⟨hp, fun st hst n hn _ => hnames st hst n hn, hfiles,
    (parse?_listing_iff hp (fun st hst n hn _ => hnames st hst n hn) hfiles).2 hwords⟩

/-- A single backslash is printed as a quoted text that does not end. -/
theorem parse?_listing_of_backslash :
    let p : Program := [.label ⟨.spanType (ascii "T"), [], .phrases [.words 0 [backslash]]⟩]
    parse? default (ascii "defSpanType T = ~ trie \\;") = .ok p ∧
      p.listing = ascii "defSpanType T = ~ trie '\\';\n" ∧
      ∀ p', parse? default p.listing ≠ .ok p' := by
  intro p
  refine ⟨by decide +kernel, by decide, fun p' hp' => ?_⟩
  have hfail : (parse? default p.listing).isOk = false := by decide +kernel
  rw [hp'] at hfail
  cases hfail
end Program

end SpanRules
