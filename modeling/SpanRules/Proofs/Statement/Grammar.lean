import SpanRules.Proofs.Pattern.Grammar
import SpanRules.Statement.Reading

/-! The grammar of statements, as a relation between lexemes and what they stand for.

    statement := declareSpanType name | provide name | require name [',' name] |
                 annotateWith name | onLevel name | offLevel [name] |
                 importFromLevel name name '=' name |
                 defDict ['+' case] name '=' entry (',' entry)* |
                 defLevel name '=' pseudotoken name |
                 effect '=' [name] generator
    effect    := defSpanType name | defSpanProp name ':' name | defTokenProp name ':' name
    generator := ':' pattern | '-' pattern | '~' trie phrase (',' phrase)*
    name      := word | quoted | '"' lexeme+ '"'
    entry     := word | quoted | '"' lexeme+ '"'
    phrase    := '"' lexeme+ '"' | lexeme*

A statement has no semicolons, and a phrase no commas. A name between double quotes has none between
them, and the files that entries and phrases name can be read. A text that is not terminated is part
of nothing. Statements by regular expressions are left out. -/
namespace SpanRules

/-- Whether lexemes stand between double quotes, and which. -/
def Lexeme.Encloses (ls inner : List Lexeme) : Prop :=
  ls = .mark '"' :: (inner ++ [.mark '"']) ∧ inner ≠ []

namespace Name

def Spells (ls : List Lexeme) (n : Text) : Prop :=
  ∃ inner, Lexeme.Encloses ls inner ∧
    (∀ l ∈ inner, l ≠ .mark '"' ∧ l.kind ≠ .unterminated) ∧ inner.flatMap (·.text) = n

inductive Derives : List Lexeme → Text → Prop
  | word {w} : Derives [⟨.word, w⟩] w
  | quoted {w} : Derives [⟨.quoted, w⟩] w.unquote
  | spelled {ls n} : Spells ls n → Derives ls n

theorem Derives.head {ls : List Lexeme} {n : Text} (h : Derives ls n) :
    ∃ l rest, ls = l :: rest ∧ (l.IsName ∨ l = .mark '"') := by
  cases h with
  | word => exact ⟨_, _, rfl, .inl (.inl rfl)⟩
  | quoted => exact ⟨_, _, rfl, .inl (.inr rfl)⟩
  | spelled h =>
    obtain ⟨inner, ⟨rfl, -⟩, -⟩ := h
    exact ⟨_, _, rfl, .inr rfl⟩

/-- The lexemes of a name that may be missing. It is empty then. -/
inductive DerivesOptional : List Lexeme → Text → Prop
  | none : DerivesOptional [] []
  | some {ls n} : Derives ls n → DerivesOptional ls n

end Name

section
variable (lines : LineReader)

inductive DictionaryEntry.Derives : List Lexeme → DictionaryEntry → Prop
  | word {l} : l.IsName → Derives [l] (.word l.text.unquote)
  | file {ls name ws} : Name.Spells ls name → lines name = .ok ws → Derives ls (.file name ws)

inductive DictionaryEntry.DerivesList : List Lexeme → List DictionaryEntry → Prop
  | last {ls e} : Derives lines ls e → DerivesList ls [e]
  | more {ls ms e es} : Derives lines ls e → DerivesList ms es →
      DerivesList (ls ++ .mark ',' :: ms) (e :: es)

/-- The lexemes of the definition of a dictionary, after the mark of its case. -/
inductive DictionaryDefinition.Derives : List Lexeme → DictionaryDefinition → Prop
  | mk {ls ms d} : Name.Derives ls d.name → DictionaryEntry.DerivesList lines ms d.entries →
      Derives (ls ++ .mark '=' :: ms) d

inductive PhraseEntry.Derives (number : Nat) : List Lexeme → PhraseEntry → Prop
  | words {ls} : (∀ inner, ¬ Lexeme.Encloses ls inner) →
      Derives number ls (.words number (ls.map (·.text.unquote)))
  | file {ls inner ws} : Lexeme.Encloses ls inner → lines (inner.flatMap (·.text)) = .ok ws →
      Derives number ls (.file (inner.flatMap (·.text)) ws)

inductive Generator.Derives : List Lexeme → Generator → Prop
  | extractions {ls} {p : Pattern} : Pattern.Derives ls (p.alternatives.map (·.elements)) →
      p.source = ls.map (·.text) → Derives (.mark ':' :: ls) (.extractions p)
  | rejections {ls} {p : Pattern} : Pattern.Derives ls (p.alternatives.map (·.elements)) →
      p.source = ls.map (·.text) → Derives (.mark '-' :: ls) (.rejections p)
  | phrases {ls es} : (∀ l ∈ ls, l.kind ≠ .unterminated) →
      List.Forall₂ (fun part e => PhraseEntry.Derives lines part.2 part.1 e)
        (ls.splitOn (.mark ',')).zipIdx es →
      Derives (.mark '~' :: .keyword "trie" :: ls) (.phrases es)

/-- A generator begins with a mark that no name begins with. -/
theorem Generator.Derives.head {lines : LineReader} {ls : List Lexeme} {g : Generator}
    (h : Derives lines ls g) :
    ∃ l rest, ls = l :: rest ∧ (l = .mark ':' ∨ l = .mark '-' ∨ l = .mark '~') := by
  cases h with
  | extractions => exact ⟨_, _, rfl, .inl rfl⟩
  | rejections => exact ⟨_, _, rfl, .inr (.inl rfl)⟩
  | phrases => exact ⟨_, _, rfl, .inr (.inr rfl)⟩

inductive Effect.Derives : List Lexeme → Effect → Prop
  | spanType {ls type} : Name.Derives ls type →
      Derives (.keyword "defSpanType" :: ls) (.spanType type)
  | spanProperty {ls ms key value} : Name.Derives ls key → Name.Derives ms value →
      Derives (.keyword "defSpanProp" :: (ls ++ .mark ':' :: ms)) (.spanProperty key value)
  | tokenProperty {ls ms key value} : Name.Derives ls key → Name.Derives ms value →
      Derives (.keyword "defTokenProp" :: (ls ++ .mark ':' :: ms)) (.tokenProperty key value)

/-- The lexemes of a labeling statement after its effect. -/
inductive Labeling.Derives (effect : Effect) : List Lexeme → Labeling → Prop
  | mk {ls ms scope g} : Name.DerivesOptional ls scope → Generator.Derives lines ms g →
      Derives effect (.mark '=' :: (ls ++ ms)) ⟨effect, scope, g⟩

def DictionaryDefinition.caseMark (ignoreCase : Bool) : List Lexeme :=
  if ignoreCase then [] else [.mark '+', .keyword "case"]

inductive Statement.Derives : List Lexeme → Statement → Prop
  | declareType {ls type} : Name.Derives ls type →
      Derives (.keyword "declareSpanType" :: ls) (.declareType type)
  | provide {ls type} : Name.Derives ls type →
      Derives (.keyword "provide" :: ls) (.provide type)
  | require {ls type} : Name.Derives ls type →
      Derives (.keyword "require" :: ls) (.require type [])
  | requireFrom {ls ms type file} : Name.Derives ls type → Name.Derives ms file →
      Derives (.keyword "require" :: (ls ++ .mark ',' :: ms)) (.require type file)
  | annotateWith {ls file} : Name.Derives ls file →
      Derives (.keyword "annotateWith" :: ls) (.annotateWith file)
  | onLevel {ls level} : Name.Derives ls level →
      Derives (.keyword "onLevel" :: ls) (.onLevel level)
  | offLevel {ls level} : Name.DerivesOptional ls level →
      Derives (.keyword "offLevel" :: ls) .offLevel
  | importFromLevel {ls ms os level newType oldType} : Name.Derives ls level →
      Name.Derives ms newType → Name.Derives os oldType →
      Derives (.keyword "importFromLevel" :: (ls ++ (ms ++ .mark '=' :: os)))
        (.importFromLevel level newType oldType)
  | defineDictionary {ls d} : DictionaryDefinition.Derives lines ls d →
      Derives (.keyword "defDict" :: (DictionaryDefinition.caseMark d.ignoreCase ++ ls))
        (.defineDictionary d)
  | defineLevel {ls ms level pattern} : Name.Derives ls level → Name.Derives ms pattern →
      Derives (.keyword "defLevel" :: (ls ++ .mark '=' :: .keyword "pseudotoken" :: ms))
        (.defineLevel level .pseudotoken pattern)
  | label {ls ms effect l} : Effect.Derives ls effect → Labeling.Derives lines effect ms l →
      Derives (ls ++ ms) (.label l)

end

section
variable {lines : LineReader} {ls : List Lexeme} {n : Text}

theorem Name.Spells.finished (h : Name.Spells ls n) : ∀ l ∈ ls, l.kind ≠ .unterminated := by
  obtain ⟨inner, ⟨rfl, -⟩, hinner, -⟩ := h
  intro l hl
  rcases List.mem_cons.1 hl with rfl | hl
  · decide
  · rcases List.mem_append.1 hl with hl | hl
    · exact (hinner l hl).2
    · rw [List.mem_singleton.1 hl]
      decide

theorem Name.Derives.finished (h : Name.Derives ls n) : ∀ l ∈ ls, l.kind ≠ .unterminated := by
  cases h with
  | word | quoted => simp
  | spelled h => exact h.finished

theorem Name.DerivesOptional.finished (h : Name.DerivesOptional ls n) :
    ∀ l ∈ ls, l.kind ≠ .unterminated := by
  cases h with
  | none => simp
  | some h => exact h.finished

theorem DictionaryEntry.Derives.finished {e : DictionaryEntry} (h : e.Derives lines ls) :
    ∀ l ∈ ls, l.kind ≠ .unterminated := by
  cases h with
  | word hl => simpa using hl.inSequence.finished
  | file h => exact h.finished

theorem DictionaryEntry.DerivesList.finished {es : List DictionaryEntry}
    (h : DerivesList lines ls es) : ∀ l ∈ ls, l.kind ≠ .unterminated := by
  induction h with
  | last he => exact he.finished
  | more he _ ih => simpa [or_imp, forall_and] using ⟨he.finished, ih⟩

theorem DictionaryDefinition.Derives.finished {d : DictionaryDefinition}
    (h : Derives lines ls d) : ∀ l ∈ ls, l.kind ≠ .unterminated := by
  obtain ⟨hname, hes⟩ := h
  simpa [or_imp, forall_and] using ⟨hname.finished, hes.finished⟩

theorem Generator.Derives.finished {g : Generator} (h : Derives lines ls g) :
    ∀ l ∈ ls, l.kind ≠ .unterminated := by
  cases h with
  | extractions h | rejections h => simpa using Pattern.finished_of_derives h
  | phrases h => simpa using h

theorem Effect.Derives.finished {e : Effect} (h : Derives ls e) :
    ∀ l ∈ ls, l.kind ≠ .unterminated := by
  cases h with
  | spanType h => simpa using h.finished
  | spanProperty hkey hvalue | tokenProperty hkey hvalue =>
    simpa [or_imp, forall_and] using ⟨hkey.finished, hvalue.finished⟩

theorem Labeling.Derives.finished {effect : Effect} {l : Labeling} (h : Derives lines effect ls l) :
    ∀ l ∈ ls, l.kind ≠ .unterminated := by
  obtain ⟨hscope, hg⟩ := h
  simpa [or_imp, forall_and] using ⟨hscope.finished, hg.finished⟩

/-- A statement begins with its keyword. -/
theorem Statement.Derives.head {st : Statement} (h : Derives lines ls st) :
    ∃ l rest, ls = l :: rest ∧ l.kind = .word := by
  cases h with
  | label h => cases h <;> exact ⟨_, _, rfl, rfl⟩
  | _ => exact ⟨_, _, rfl, rfl⟩

theorem Statement.Derives.finished {st : Statement} (h : Derives lines ls st) :
    ∀ l ∈ ls, l.kind ≠ .unterminated := by
  cases h with
  | declareType h | provide h | require h | annotateWith h | onLevel h | offLevel h =>
    simpa using h.finished
  | requireFrom h h' | defineLevel h h' =>
    simpa [or_imp, forall_and] using ⟨h.finished, h'.finished⟩
  | importFromLevel h h' h'' =>
    simpa [or_imp, forall_and] using ⟨h.finished, h'.finished, h''.finished⟩
  | @defineDictionary _ d h =>
    cases hcase : d.ignoreCase <;> simpa [DictionaryDefinition.caseMark, hcase] using h.finished
  | label h h' => simpa [or_imp, forall_and] using ⟨h.finished, h'.finished⟩

end

end SpanRules
