import SpanRules.Proofs.Statement.Reread.Files

/-! Reading the source form of a dictionary: its words one by one, and its files between double
quotes. -/
namespace SpanRules

theorem Name.spells_fileLexemes {name : Text} (hj : name.Joined (inFileName '"'))
    (hne : name ≠ []) : Name.Spells (fileLexemes name) name := by
  have hls : ∀ l ∈ name.lexemes, l ≠ .mark '"' ∧ l.kind ≠ .unterminated := by
    intro l hl
    exact ⟨(hj.solid l hl).ne_mark (by decide), (hj.solid l hl).finished⟩
  exact ⟨name.lexemes, encloses_fileLexemes hne, hls, name.flatMap_text_lexemes⟩

namespace DictionaryEntry
variable {lines : LineReader} {d : DictionaryDefinition} {e : DictionaryEntry}
  {es : List DictionaryEntry}

def lexemes (d : DictionaryDefinition) : DictionaryEntry → List Lexeme
  | word w => [(d.normal w).nameLexeme]
  | file name _ => fileLexemes name

theorem nameable_normal {w : Text} (h : w.Nameable) : (d.normal w).Nameable := by
  unfold DictionaryDefinition.normal
  split
  · exact h.lower
  · exact h

theorem Regular.prints (h : e.Regular lines) (hfile : ∀ name ∈ e.file?, name.Uncommented) :
    (e.toText d).Prints (e.lexemes d) := by
  cases e with
  | word w => exact (nameable_normal h).prints
  | file name ls => exact prints_file h.1 (hfile name rfl)

theorem Regular.solid (h : e.Regular lines) : ∀ l ∈ e.lexemes d, l.Solid (· != byte ';') := by
  cases e with
  | word w => exact List.forall_mem_singleton.2 (Text.solid_nameLexeme _)
  | file name ls =>
    refine solid_fileLexemes h.1 (fun b hb => ?_) (by decide)
    exact (Bool.and_eq_true_iff.1 hb).2

theorem Regular.derives_relisted (h : e.Regular lines) :
    (e.relisted d).Derives lines (e.lexemes d) := by
  cases e with
  | word w =>
    have hnames := (d.normal w).names_nameLexeme
    have hderives : Derives lines [(d.normal w).nameLexeme]
        (.word (d.normal w).nameLexeme.text.unquote) := .word hnames.kind
    rwa [hnames.unquote] at hderives
  | file name ls => exact .file (Name.spells_fileLexemes h.1 h.2.1) h.2.2

theorem derivesList_relisted (hne : es ≠ []) (hes : ∀ e ∈ es, e.Regular lines) :
    DerivesList lines ([.mark ','].intercalate (es.map (·.lexemes d)))
      (es.map (·.relisted d)) := by
  induction es with
  | nil => exact absurd rfl hne
  | cons e es ih =>
    obtain ⟨he, hes⟩ := List.forall_mem_cons.1 hes
    cases es with
    | nil =>
      simp only [List.map_cons, List.map_nil, List.intercalate_singleton]
      exact .last he.derives_relisted
    | cons e' es =>
      have hmore := ih (List.cons_ne_nil _ _) hes
      exact .more he.derives_relisted hmore

end DictionaryEntry

namespace Statement
variable {lines : LineReader} {d : DictionaryDefinition}

theorem rereads_defineDictionary (hname : d.name.Nameable) (hne : d.entries ≠ [])
    (hes : ∀ e ∈ d.entries, e.Regular lines)
    (hfiles : ∀ name ∈ (defineDictionary d).files, name.Uncommented) :
    Rereads lines (defineDictionary d) := by
  have hentries : (Text.join (ascii ", ") (d.entries.map (·.toText d))).Prints
      ([.mark ','].intercalate (d.entries.map (·.lexemes d))) :=
    Text.prints_join printsApart_comma (Text.delimited_cons rfl) (by decide) fun e he =>
      (hes e he).prints fun name hname => hfiles name (List.mem_filterMap.2 ⟨e, he, hname⟩)
  have hsemi : .mark ';' ∉ [Lexeme.mark ','].intercalate (d.entries.map (·.lexemes d)) :=
    not_mem_of_solid (by decide) (forall_mem_intercalate
      (List.forall_mem_singleton.2 (Lexeme.solid_mark (by decide)))
      (List.forall_mem_map.2 fun e he => (hes e he).solid))
  have hhead : (ascii "defDict " ++ if d.ignoreCase then [] else ascii "+case ").PrintsApart
      (.keyword "defDict" :: DictionaryDefinition.caseMark d.ignoreCase) := by
    cases d.ignoreCase with
    | true => exact ⟨by decide, by decide, fun _ => rfl⟩
    | false => exact ⟨by decide, by decide, fun _ => rfl⟩
  have hprints : (defineDictionary d).toText.Prints (.keyword "defDict" ::
      (DictionaryDefinition.caseMark d.ignoreCase ++ ([d.name.nameLexeme] ++ .mark '=' ::
        [.mark ','].intercalate (d.entries.map (·.lexemes d))))) := by
    simpa [toText, DictionaryDefinition.toText] using
      (hhead.append hname.prints).append_equals.append hentries
  have hcase : .mark ';' ∉ DictionaryDefinition.caseMark d.ignoreCase := by
    cases d.ignoreCase <;> decide
  have heq : Lexeme.mark ';' ≠ .mark '=' := by decide
  have hderives : DictionaryDefinition.Derives lines _ d.relisted :=
    .mk (Name.derives_nameLexeme d.name) (DictionaryEntry.derivesList_relisted hne hes)
  exact rereads_of_derives hprints (by simp [hcase, heq, hsemi]) (.defineDictionary hderives)

end Statement

end SpanRules
