import SpanRules.Proofs.Statement.Reread.Labeling

/-! Reading the source form of any statement that was read before. -/
namespace SpanRules

namespace Statement
variable {lines : LineReader} {st : Statement}

/-- A statement that was read, of which the names can be quoted and the files are no comments. -/
structure Listable (lines : LineReader) (st : Statement) : Prop where
  names : ∀ n ∈ st.names, n.Nameable
  files : ∀ name ∈ st.files, name.Uncommented
  regular : st.Regular lines

/-- The phrases of a statement without single backslashes can be listed. -/
theorem listable_of_regular {e : PhraseEntry} (h : e.Regular lines)
    (hfile : ∀ name ∈ e.file?, name.Uncommented) (hwords : backslash ∉ e.wordList)
    (hempty : e.isEmpty = false) : e.Listable lines := by
  refine ⟨hempty, ?_, ?_⟩
  · rintro number ws rfl w hw
    exact (h w hw).resolve_right fun hback => hwords (hback ▸ hw)
  · rintro name ls rfl
    exact ⟨h.1, h.2.1, h.2.2, hfile name rfl⟩

theorem Listable.rereads (h : st.Listable lines) (hwords : backslash ∉ st.phraseWords) :
    Rereads lines st := by
  obtain ⟨hnames, hfiles, hregular⟩ := h
  cases st with
  | declareType type =>
    exact rereads_of_name (w := "declareSpanType") (List.forall_mem_singleton.1 hnames)
      ⟨by decide, by decide, fun _ => rfl⟩ rfl rfl .declareType
  | provide type =>
    exact rereads_of_name (w := "provide") (List.forall_mem_singleton.1 hnames)
      ⟨by decide, by decide, fun _ => rfl⟩ rfl rfl .provide
  | require type file =>
    obtain ⟨htype, hfile⟩ := List.forall_mem_cons.1 hnames
    exact rereads_require htype (List.forall_mem_singleton.1 hfile)
  | annotateWith file =>
    exact rereads_of_name (w := "annotateWith") (List.forall_mem_singleton.1 hnames)
      ⟨by decide, by decide, fun _ => rfl⟩ rfl rfl .annotateWith
  | onLevel level =>
    exact rereads_of_name (w := "onLevel") (List.forall_mem_singleton.1 hnames)
      ⟨by decide, by decide, fun _ => rfl⟩ rfl rfl .onLevel
  | offLevel => exact rereads_offLevel
  | importFromLevel level newType oldType =>
    obtain ⟨hlevel, htypes⟩ := List.forall_mem_cons.1 hnames
    obtain ⟨hnew, hold⟩ := List.forall_mem_cons.1 htypes
    exact rereads_importFromLevel hlevel hnew (List.forall_mem_singleton.1 hold)
  | defineDictionary d =>
    exact rereads_defineDictionary (List.forall_mem_singleton.1 hnames) hregular.1 hregular.2 hfiles
  | defineLevel level strategy pattern =>
    obtain ⟨hlevel, hpattern⟩ := List.forall_mem_cons.1 hnames
    obtain rfl : strategy = .pseudotoken := hregular
    exact rereads_defineLevel hlevel (List.forall_mem_singleton.1 hpattern)
  | label l =>
    obtain ⟨heffect, hscope⟩ := List.forall_mem_append.1 hnames
    apply rereads_label heffect (List.forall_mem_singleton.1 hscope)
    obtain ⟨effect, scope, g⟩ := l
    cases g with
    | extractions p => exact Generator.rereads_extractions hregular
    | rejections p => exact Generator.rereads_rejections hregular
    | phrases es =>
      refine Generator.rereads_phrases fun e he hempty =>
        listable_of_regular (hregular e he) (fun name hname => ?_) (fun hmem => ?_) hempty
      · exact hfiles name (List.mem_filterMap.2 ⟨e, he, hname⟩)
      · exact hwords (List.mem_flatMap.2 ⟨e, he, hmem⟩)

end Statement

end SpanRules
