import SpanRules.Proofs.Statement.Reread.Names

/-! The parts of a list with commas between them, and the names of files between double quotes. -/
namespace SpanRules

theorem forall_mem_intercalate {α : Type} {p : α → Prop} {sep : List α} {xss : List (List α)}
    (hsep : ∀ x ∈ sep, p x) (h : ∀ xs ∈ xss, ∀ x ∈ xs, p x) : ∀ x ∈ sep.intercalate xss, p x := by
  induction xss with
  | nil => exact List.forall_mem_nil _
  | cons xs xss ih =>
    obtain ⟨hxs, hxss⟩ := List.forall_mem_cons.1 h
    cases xss with
    | nil => simpa using hxs
    | cons ys xss =>
      rw [List.intercalate_cons_cons]
      exact List.forall_mem_append.2 ⟨List.forall_mem_append.2 ⟨hxs, hsep⟩, ih hxss⟩

variable {ok ok' : UInt8 → Bool} {c : Char} {l : Lexeme} {ls : List Lexeme} {name n : Text}

theorem Lexeme.Solid.ne_mark (h : l.Solid ok) (hc : ok (byte c) = false) : l ≠ .mark c := by
  rintro rfl
  rw [h.symbol _ rfl] at hc
  cases hc

theorem Lexeme.solid_mark (hc : ok (byte c) = true) : (mark c).Solid ok :=
  ⟨nofun, nofun, fun b hb => by cases hb; exact hc⟩

theorem Text.solid_nameLexeme (n : Text) : n.nameLexeme.Solid ok := by
  rcases n.names_nameLexeme.kind with h | h <;>
    exact .of_kind (by simp [h]) (by simp [h]) (by simp [h])

theorem not_mem_of_solid (hc : ok (byte c) = false) (h : ∀ l ∈ ls, l.Solid ok) : .mark c ∉ ls :=
  fun hmem => (h _ hmem).ne_mark hc rfl

def fileLexemes (name : Text) : List Lexeme := .mark '"' :: (name.lexemes ++ [.mark '"'])

theorem encloses_fileLexemes (hne : name ≠ []) :
    Lexeme.Encloses (fileLexemes name) name.lexemes := by
  refine ⟨rfl, fun hnil => hne ?_⟩
  rw [← name.flatMap_text_lexemes, hnil]
  rfl

theorem prints_file (hj : name.Joined ok) (hname : name.Uncommented) :
    (ascii "\"" ++ name ++ ascii "\"").Prints (fileLexemes name) := by
  have hquote : (ascii "\"").PrintsApart [.mark '"'] := ⟨by decide, by decide, fun _ => rfl⟩
  exact ((hquote.append (hj.prints hname)).append_apart hquote (Text.delimited_cons rfl)
    (by decide)).prints

theorem solid_fileLexemes (hj : name.Joined ok) (hok : ∀ b, ok b = true → ok' b = true)
    (hquote : ok' (byte '"') = true) : ∀ l ∈ fileLexemes name, l.Solid ok' := by
  have hname : ∀ l ∈ name.lexemes, l.Solid ok' := fun l hl =>
    have hsolid := hj.solid l hl
    ⟨hsolid.blank, hsolid.finished, fun b hb => hok b (hsolid.symbol b hb)⟩
  exact List.forall_mem_cons.2 ⟨Lexeme.solid_mark hquote, List.forall_mem_append.2
    ⟨hname, List.forall_mem_singleton.2 (Lexeme.solid_mark hquote)⟩⟩

end SpanRules
