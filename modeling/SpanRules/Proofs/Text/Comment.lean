import Mathlib.Data.List.Chain
import SpanRules.Source.Comment

/-! Texts without comments. A source without comments has none, and one that has none and whose
lines end as they should is left as it is. -/
namespace SpanRules.Text

/-- No two slashes stand next to each other. -/
def Uncommented (t : Text) : Prop := t.IsChain fun a b => ¬ (a = byte '/' ∧ b = byte '/')

variable {t u : Text} {b : UInt8}

theorem uncommented_nil : Uncommented [] := .nil

theorem uncommented_singleton (b : UInt8) : Uncommented [b] := .singleton b

theorem uncommented_iff : t.Uncommented ↔ ¬ ascii "//" <:+: t := by
  constructor
  · intro h hslashes
    have hpair := List.IsChain.infix h hslashes
    exact (List.isChain_pair.1 hpair) ⟨rfl, rfl⟩
  · intro h
    refine List.isChain_iff_forall_rel_of_append_cons_cons.2 fun {a b l₁ l₂} heq hab => h ?_
    exact ⟨l₁, l₂, by rw [heq, hab.1, hab.2]; simp [ascii]⟩

/-- A comment can only arise where a slash meets a slash. -/
theorem Uncommented.append (ht : t.Uncommented) (hu : u.Uncommented)
    (h : t.getLast? ≠ some (byte '/') ∨ u.head? ≠ some (byte '/')) : (t ++ u).Uncommented := by
  apply List.IsChain.append ht hu
  intro a ha b hb hab
  rcases h with h | h
  · exact h (by rw [← hab.1]; exact ha)
  · exact h (by rw [← hab.2]; exact hb)

theorem Uncommented.cons (hb : b ≠ byte '/') (ht : t.Uncommented) : Uncommented (b :: t) :=
  List.IsChain.cons ht fun _ _ h => hb h.1

theorem slashes_prefix_iff :
    (ascii "//").isPrefixOf (b :: t) = true ↔ b = byte '/' ∧ t.head? = some (byte '/') := by
  rw [show ascii "//" = [byte '/', byte '/'] from rfl, List.isPrefixOf_iff_prefix,
    List.cons_prefix_cons, List.head?_eq_some_iff, eq_comm]
  apply and_congr_right
  intro _
  exact exists_congr fun _ => eq_comm

theorem beforeComment_of_uncommented (h : t.Uncommented) : beforeComment t = t := by
  induction t with
  | nil => rfl
  | cons b t ih =>
    rw [beforeComment, if_neg, ih h.tail]
    rw [slashes_prefix_iff]
    rintro ⟨hb, ht⟩
    exact h.rel_head? ht ⟨hb, rfl⟩

theorem beforeComment_prefix (t : Text) : beforeComment t <+: t := by
  induction t with
  | nil => exact List.prefix_rfl
  | cons b t ih =>
    rw [beforeComment]
    split
    · exact List.nil_prefix
    · exact List.cons_prefix_cons.2 ⟨rfl, ih⟩

theorem uncommented_beforeComment (t : Text) : (beforeComment t).Uncommented := by
  induction t with
  | nil => exact .nil
  | cons b t ih =>
    rw [beforeComment]
    split
    · exact .nil
    · rename_i hprefix
      refine List.IsChain.cons ih fun c hc hbc => hprefix (slashes_prefix_iff.2 ⟨hbc.1, ?_⟩)
      obtain ⟨rest, hrest⟩ := beforeComment_prefix t
      obtain ⟨u, hu⟩ := List.head?_eq_some_iff.1 hc
      rw [← hrest, hu, ← hbc.2]
      rfl

theorem uncommented_stripComments (source : Text) : source.stripComments.Uncommented := by
  unfold stripComments
  induction source.lines with
  | nil => exact .nil
  | cons line lines ih =>
    rw [List.flatMap_cons]
    refine Uncommented.append ?_ ih (.inl (by simp; decide))
    exact (uncommented_beforeComment line).append (.singleton _) (.inr (by decide))

theorem splitOn_eq (sep : UInt8) (t : Text) : splitOn sep t = List.splitOn sep t := by
  induction t with
  | nil => rfl
  | cons b t ih =>
    rw [splitOn, List.splitOn_cons_eq_if_modifyHead, ih]
    by_cases hb : b = sep
    · simp [hb]
    · obtain ⟨v, vs, hvs⟩ := List.exists_cons_of_ne_nil (List.splitOn_ne_nil sep t)
      simp [hb, hvs]

theorem splitOn_append_cons {sep : UInt8} (h : sep ∉ t) :
    splitOn sep (t ++ sep :: u) = t :: splitOn sep u := by
  rw [splitOn_eq, splitOn_eq]
  exact List.splitOn_append_cons_self_of_not_mem h u

theorem exists_splitOn_eq_cons (sep : UInt8) (t : Text) : ∃ u us, splitOn sep t = u :: us := by
  rw [splitOn_eq]
  exact List.exists_cons_of_ne_nil (List.splitOn_ne_nil sep t)

/-- A first line without a comment stays as it is. -/
theorem stripComments_append_line (hquiet : t.Uncommented) (hfeed : byte '\n' ∉ t)
    (hreturn : t.getLast? ≠ some 13) :
    stripComments (t ++ byte '\n' :: u) = t ++ byte '\n' :: stripComments u := by
  have hlines : lines (t ++ byte '\n' :: u) = t :: lines u := by
    obtain ⟨v, vs, hvs⟩ := exists_splitOn_eq_cons 10 u
    have hsplit : splitOn 10 (t ++ byte '\n' :: u) = t :: v :: vs := by
      rw [← hvs]
      exact splitOn_append_cons hfeed
    simp only [lines]
    rw [hsplit, hvs, List.getLast?_cons_cons]
    split
    · rw [List.dropLast_cons_cons, List.map_cons, dropReturn, if_neg hreturn]
    · rw [List.map_cons, dropReturn, if_neg hreturn]
  rw [stripComments, hlines, List.flatMap_cons, beforeComment_of_uncommented hquiet,
    List.append_assoc]
  rfl

theorem stripComments_lines {ts : List Text} (hquiet : ∀ t ∈ ts, t.Uncommented)
    (hfeed : ∀ t ∈ ts, byte '\n' ∉ t) (hreturn : ∀ t ∈ ts, t.getLast? ≠ some 13) :
    stripComments (ts.flatMap (fun t => t ++ [byte '\n']) ++ u) =
      ts.flatMap (fun t => t ++ [byte '\n']) ++ stripComments u := by
  induction ts with
  | nil => rfl
  | cons t ts ih =>
    obtain ⟨ht, hquiet⟩ := List.forall_mem_cons.1 hquiet
    obtain ⟨ht', hfeed⟩ := List.forall_mem_cons.1 hfeed
    obtain ⟨ht'', hreturn⟩ := List.forall_mem_cons.1 hreturn
    rw [List.flatMap_cons, List.append_assoc, List.append_assoc, List.append_assoc,
      List.append_assoc, List.singleton_append, stripComments_append_line ht ht' ht'',
      ih hquiet hfeed hreturn]
    rfl

theorem beforeComment_append (hquiet : t.Uncommented) (hlast : t.getLast? ≠ some (byte '/')) :
    beforeComment (t ++ u) = t ++ beforeComment u := by
  induction t with
  | nil => rfl
  | cons b t ih =>
    cases t with
    | nil =>
      have hb : b ≠ byte '/' := fun h => hlast (by rw [h]; rfl)
      rw [List.singleton_append, beforeComment, if_neg (fun h => hb (slashes_prefix_iff.1 h).1)]
      rfl
    | cons c t =>
      rw [List.cons_append, beforeComment, if_neg, ih hquiet.tail hlast]
      · rfl
      · rw [slashes_prefix_iff]
        rintro ⟨hb, hc⟩
        exact (List.isChain_cons_cons.1 hquiet).1 ⟨hb, Option.some.inj hc⟩

theorem splitOn_append_of_not_mem {α : Type} [BEq α] [LawfulBEq α] {c : α} {as : List α}
    (h : c ∉ as) (bs : List α) :
    (as ++ bs).splitOn c = (bs.splitOn c).modifyHead (as ++ ·) := by
  induction as with
  | nil => exact (congrFun List.modifyHead_id _).symm
  | cons a as ih =>
    obtain ⟨ha, has⟩ := not_or.1 fun hmem => h (List.mem_cons.2 hmem)
    rw [List.cons_append, List.splitOn_cons_eq_if_modifyHead, if_neg (by simpa using Ne.symm ha),
      ih has, List.modifyHead_modifyHead]
    rfl

theorem splitOn_append {sep : UInt8} {v : Text} {vs : List Text} (h : sep ∉ t)
    (hu : splitOn sep u = v :: vs) : splitOn sep (t ++ u) = (t ++ v) :: vs := by
  rw [splitOn_eq] at hu ⊢
  rw [splitOn_append_of_not_mem h, hu, List.modifyHead_cons]

theorem exists_dropReturn_append (hreturn : t.getLast? ≠ some 13) :
    ∃ v, dropReturn (t ++ u) = t ++ v := by
  by_cases hu : u = []
  · exact ⟨[], by rw [hu, List.append_nil, dropReturn, if_neg hreturn]⟩
  · unfold dropReturn
    split
    · exact ⟨u.dropLast, List.dropLast_append_of_ne_nil hu⟩
    · exact ⟨u, rfl⟩

/-- A first line stays as it is up to a place before its comment. -/
theorem exists_stripComments_append (hquiet : t.Uncommented) (hfeed : byte '\n' ∉ t)
    (hne : t ≠ []) (hslash : t.getLast? ≠ some (byte '/')) (hreturn : t.getLast? ≠ some 13) :
    ∃ v, stripComments (t ++ u) = t ++ v := by
  obtain ⟨v, vs, hvs⟩ := exists_splitOn_eq_cons 10 u
  have hsplit : splitOn 10 (t ++ u) = (t ++ v) :: vs := splitOn_append hfeed hvs
  obtain ⟨w, hw⟩ := exists_dropReturn_append (u := v) hreturn
  have hlines : ∃ ls, lines (t ++ u) = (t ++ w) :: ls := by
    simp only [lines]
    rw [hsplit, ← hw]
    split
    · rename_i hlast
      cases vs with
      | nil => simp [hne] at hlast
      | cons => exact ⟨_, by rw [List.dropLast_cons_cons, List.map_cons]⟩
    · exact ⟨_, List.map_cons⟩
  obtain ⟨ls, hls⟩ := hlines
  rw [stripComments, hls, List.flatMap_cons, beforeComment_append hquiet hslash, List.append_assoc,
    List.append_assoc]
  exact ⟨_, rfl⟩

end SpanRules.Text
