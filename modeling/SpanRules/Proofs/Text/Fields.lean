import SpanRules.Proofs.Text.Lines
import SpanRules.Text.Decimal

/-! Lines of fields. A line that is put together from fields falls into the same fields again, and a
numeral is a field from which its number is read. -/
namespace SpanRules.Text

/-- Whether a text can stand between blanks in a line. -/
structure IsField (t : Text) : Prop where
  nonempty : t ≠ []
  solid : ∀ b ∈ t, isBlank b = false

theorem isField_iff {t : Text} :
    (! t.isEmpty && t.all (! isBlank ·)) = true ↔ t.IsField := by
  simp only [Bool.and_eq_true, Bool.not_eq_true', List.isEmpty_eq_false_iff, List.all_eq_true]
  exact ⟨fun h => ⟨h.1, h.2⟩, fun h => ⟨h.nonempty, h.solid⟩⟩

instance (t : Text) : Decidable t.IsField := decidable_of_iff _ isField_iff

theorem IsField.not_mem {t : Text} {b : UInt8} (ht : t.IsField) (hb : isBlank b = true) :
    b ∉ t := by
  intro hmem
  rw [ht.solid b hmem] at hb
  cases hb

theorem dropWhile_isBlank_of_solid {t : Text} (h : ∀ b ∈ t.head?, isBlank b = false) :
    t.dropWhile isBlank = t := by
  cases t with
  | nil => rfl
  | cons b t => rw [List.dropWhile_cons_of_neg (by simp [h b rfl])]

theorem dropTrailingBlanks_of_solid {t : Text} (h : ∀ b ∈ t.getLast?, isBlank b = false) :
    dropTrailingBlanks t = t := by
  rw [dropTrailingBlanks, dropWhile_isBlank_of_solid (by rwa [List.head?_reverse]),
    List.reverse_reverse]

theorem strip_eq_self {t : Text} (hfirst : ∀ b ∈ t.head?, isBlank b = false)
    (hlast : ∀ b ∈ t.getLast?, isBlank b = false) : t.strip = t := by
  rw [strip, dropWhile_isBlank_of_solid hfirst, dropTrailingBlanks_of_solid hlast]

theorem IsField.strip {t : Text} (ht : t.IsField) : t.strip = t :=
  strip_eq_self (fun b hb => ht.solid b (List.mem_of_head? hb))
    fun b hb => ht.solid b (List.mem_of_getLast? hb)

theorem join_eq_intercalate (sep : Text) (ts : List Text) : join sep ts = sep.intercalate ts := by
  induction ts with
  | nil => rfl
  | cons t ts ih =>
    cases ts with
    | nil => simp [join]
    | cons u ts => simp [join, ih]

/-- Fields between single spaces begin and end with bytes that are not blank, and have no other
blank between them. -/
theorem blanks_join {ts : List Text} (h : ∀ t ∈ ts, t.IsField) :
    (∀ b ∈ (join (ascii " ") ts).head?, isBlank b = false) ∧
      (∀ b ∈ (join (ascii " ") ts).getLast?, isBlank b = false) ∧
      ∀ b ∈ join (ascii " ") ts, isBlank b = true → b = byte ' ' := by
  induction ts with
  | nil => simp [join]
  | cons t ts ih =>
    obtain ⟨ht, hts⟩ := List.forall_mem_cons.1 h
    obtain ⟨-, hlast, hinside⟩ := ih hts
    have hfirst : ∀ b ∈ t.head?, isBlank b = false := fun b hb => ht.solid b (List.mem_of_head? hb)
    cases ts with
    | nil =>
      refine ⟨hfirst, fun b hb => ht.solid b (List.mem_of_getLast? hb), fun b hb hblank => ?_⟩
      exact absurd hb (ht.not_mem hblank)
    | cons u ts =>
      have hne : join (ascii " ") (u :: ts) ≠ [] := by
        have hu := (hts u List.mem_cons_self).nonempty
        cases ts <;> simp [join, hu]
      rw [join, List.append_assoc, List.head?_append_of_ne_nil _ ht.nonempty,
        ← List.append_assoc, List.getLast?_append_of_ne_nil _ hne]
      refine ⟨hfirst, hlast, fun b hb hblank => ?_⟩
      rw [List.mem_append, List.mem_append] at hb
      rcases hb with (hb | hb) | hb
      · exact absurd hb (ht.not_mem hblank)
      · exact List.mem_singleton.1 hb
      · exact hinside b hb hblank

theorem strip_join {ts : List Text} (h : ∀ t ∈ ts, t.IsField) :
    (join (ascii " ") ts).strip = join (ascii " ") ts :=
  strip_eq_self (blanks_join h).1 (blanks_join h).2.1

theorem fields_join {ts : List Text} (h : ∀ t ∈ ts, t.IsField) :
    fields (byte ' ') (join (ascii " ") ts) = ts := by
  rw [fields, join_eq_intercalate, splitOn_eq]
  cases ts with
  | nil => rfl
  | cons t ts =>
    rw [show ascii " " = [byte ' '] from rfl,
      List.splitOn_intercalate (byte ' ') (fun u hu => (h u hu).not_mem rfl) (List.cons_ne_nil _ _)]
    exact List.filter_eq_self.2 fun u hu => by simp [(h u hu).nonempty]

section
variable {t u : Text} {ts : List Text}

theorem dropTrailingBlanks_append_of_eq_nil (h : dropTrailingBlanks u = []) (t : Text) :
    dropTrailingBlanks (t ++ u) = dropTrailingBlanks t := by
  have hblank : (List.dropWhile isBlank u.reverse).isEmpty = true :=
    List.isEmpty_iff.2 (List.reverse_eq_nil_iff.1 h)
  rw [dropTrailingBlanks, List.reverse_append, List.dropWhile_append, if_pos hblank]
  rfl

theorem dropTrailingBlanks_append_of_ne_nil (h : dropTrailingBlanks u ≠ []) (t : Text) :
    dropTrailingBlanks (t ++ u) = t ++ dropTrailingBlanks u := by
  have hsolid : ¬ (List.dropWhile isBlank u.reverse).isEmpty = true := fun hblank =>
    h (List.reverse_eq_nil_iff.2 (List.isEmpty_iff.1 hblank))
  rw [dropTrailingBlanks, List.reverse_append, List.dropWhile_append, if_neg hsolid,
    List.reverse_append, List.reverse_reverse]
  rfl

/-- A carriage return at the end of a line is a blank like others. -/
theorem strip_dropReturn (t : Text) : strip (dropReturn t) = strip t := by
  rcases dropReturn_eq_or t with ht | ht
  · rw [← ht]
  · conv_rhs => rw [ht]
    unfold strip
    rw [List.dropWhile_append]
    split
    · rename_i hblank
      rw [List.isEmpty_iff.1 hblank]
      rfl
    · exact (dropTrailingBlanks_append_of_eq_nil (u := [13]) rfl _).symm

theorem fields_append_space (t u : Text) :
    fields (byte ' ') (t ++ byte ' ' :: u) = fields (byte ' ') t ++ fields (byte ' ') u := by
  unfold fields
  rw [splitOn_eq, splitOn_eq, splitOn_eq, List.splitOn_append_cons_self, List.filter_append]

theorem join_concat (hne : ts ≠ []) (u : Text) :
    join (ascii " ") (ts ++ [u]) = join (ascii " ") ts ++ byte ' ' :: u := by
  induction ts with
  | nil => exact absurd rfl hne
  | cons t ts ih =>
    cases ts with
    | nil => exact List.append_assoc t _ u
    | cons v ts =>
      rw [List.cons_append, List.cons_append, join, ← List.cons_append, ih (List.cons_ne_nil v ts),
        join, ← List.append_assoc]

/-- What stands in a line after some fields falls into the fields that it has by itself. -/
theorem fields_strip_join_concat (hne : ts ≠ []) (h : ∀ t ∈ ts, t.IsField) (u : Text) :
    fields (byte ' ') (strip (join (ascii " ") (ts ++ [u]))) =
      ts ++ fields (byte ' ') u.dropTrailingBlanks := by
  obtain ⟨hfirst, hlast, -⟩ := blanks_join h
  have hfields := fields_join h
  have hline : join (ascii " ") ts ≠ [] := by
    intro hnil
    rw [hnil] at hfields
    exact hne hfields.symm
  rw [join_concat hne]
  generalize join (ascii " ") ts = line at hfirst hlast hfields hline
  have hfirst' : ∀ b ∈ (line ++ byte ' ' :: u).head?, isBlank b = false := by
    rwa [List.head?_append_of_ne_nil _ hline]
  rw [strip, dropWhile_isBlank_of_solid hfirst', ← List.singleton_append (x := byte ' ')]
  by_cases hu : dropTrailingBlanks u = []
  · have hspace : dropTrailingBlanks ([byte ' '] ++ u) = [] :=
      dropTrailingBlanks_append_of_eq_nil hu [byte ' ']
    rw [dropTrailingBlanks_append_of_eq_nil hspace, dropTrailingBlanks_of_solid hlast, hfields, hu]
    exact (List.append_nil ts).symm
  · have hspace : dropTrailingBlanks ([byte ' '] ++ u) = byte ' ' :: dropTrailingBlanks u :=
      dropTrailingBlanks_append_of_ne_nil hu [byte ' ']
    rw [dropTrailingBlanks_append_of_ne_nil (hspace ▸ List.cons_ne_nil _ _), hspace,
      fields_append_space, hfields]

end

/-- Lines that have no line feeds and are ended by them are the lines of the text. -/
theorem lines_flatMap_feed_of_not_mem {ls : List Text} (h : ∀ l ∈ ls, byte '\n' ∉ l) :
    lines (ls.flatMap (· ++ [byte '\n'])) = ls.map dropReturn := by
  induction ls with
  | nil => rfl
  | cons l ls ih =>
    obtain ⟨hl, hls⟩ := List.forall_mem_cons.1 h
    have hsplit : splitOn 10 l = [l] := by
      rw [splitOn_eq]
      exact List.splitOn_eq_singleton hl
    rw [List.flatMap_cons, List.append_assoc, List.singleton_append, lines_append_feed, hsplit,
      List.map_singleton, ih hls, List.singleton_append, List.map_cons]

/-- Lines that are put together from fields and ended by line feeds are the lines of the text. -/
theorem lines_flatMap_feed {ls : List Text}
    (h : ∀ l ∈ ls, ∃ ts, (∀ t ∈ ts, IsField t) ∧ l = join (ascii " ") ts) :
    lines (ls.flatMap (· ++ [byte '\n'])) = ls := by
  have hline : ∀ l ∈ ls, byte '\n' ∉ l ∧ dropReturn l = l := by
    intro l hl
    obtain ⟨ts, hts, rfl⟩ := h l hl
    obtain ⟨-, hlast, hinside⟩ := blanks_join hts
    exact ⟨fun hmem => absurd (hinside 10 hmem rfl) (by decide),
      if_neg fun hreturn => by cases hlast 13 hreturn⟩
  rw [lines_flatMap_feed_of_not_mem fun l hl => (hline l hl).1]
  exact (List.map_congr_left fun l hl => (hline l hl).2).trans (List.map_id' ls)

theorem toNat_byte_of_isDigit {c : Char} (hc : c.isDigit = true) :
    (byte c).toNat = c.toNat ∧ 48 ≤ c.toNat ∧ c.toNat ≤ 57 := by
  have hbounds : 48 ≤ c.toNat ∧ c.toNat ≤ 57 := by
    rw [Char.isDigit, Bool.and_eq_true, decide_eq_true_eq, decide_eq_true_eq] at hc
    exact hc
  refine ⟨?_, hbounds⟩
  rw [byte, Nat.toUInt8, UInt8.toNat_ofNat']
  omega

theorem isDigit_of_mem_ofNat {n : Nat} {b : UInt8} (hb : b ∈ ofNat n) : isDigit b = true := by
  obtain ⟨c, hc, rfl⟩ := List.mem_map.1 hb
  have hdigit := toNat_byte_of_isDigit (Nat.isDigit_of_mem_toDigits (by decide) (by decide) hc)
  simp only [isDigit, Bool.and_eq_true, decide_eq_true_eq, UInt8.le_iff_toNat_le]
  rw [hdigit.1]
  exact hdigit.2

theorem isField_ofNat (n : Nat) : (ofNat n).IsField := by
  refine ⟨fun h => Nat.toDigits_ne_nil (List.map_eq_nil_iff.1 h), fun b hb => ?_⟩
  have hdigit := isDigit_of_mem_ofNat hb
  grind [isDigit, isBlank]

theorem digitsValue_ofNat (n : Nat) : digitsValue (ofNat n) = n := by
  have hfold : ∀ (cs : List Char) (m : Nat), (∀ c ∈ cs, c.isDigit = true) →
      (cs.map byte).foldl (fun n b => n * 10 + (b.toNat - 48)) m = Nat.ofDigitChars 10 cs m := by
    intro cs
    induction cs with
    | nil => exact fun _ _ => rfl
    | cons c cs ih =>
      intro m hcs
      obtain ⟨hc, hcs⟩ := List.forall_mem_cons.1 hcs
      rw [List.map_cons, List.foldl_cons, ih _ hcs, (toNat_byte_of_isDigit hc).1, Nat.mul_comm,
        Nat.ofDigitChars_cons]
      rfl
  rw [digitsValue, ofNat,
    hfold _ 0 fun c hc => Nat.isDigit_of_mem_toDigits (by decide) (by decide) hc]
  exact Nat.ofDigitChars_toDigits (by decide) (by decide)

theorem natural?_ofNat (n : Nat) : natural? (ofNat n) = some n := by
  rw [natural?, digitsValue_ofNat]
  exact if_pos ⟨(isField_ofNat n).nonempty,
    List.all_eq_true.2 fun b hb => isDigit_of_mem_ofNat hb⟩

theorem integer?_ofNat (n : Nat) : integer? (ofNat n) = some (n : Int) := by
  have hnatural := natural?_ofNat n
  obtain ⟨b, t, hbt⟩ := List.exists_cons_of_ne_nil (isField_ofNat n).nonempty
  have hdigit : isDigit b = true := isDigit_of_mem_ofNat (hbt ▸ List.mem_cons_self)
  have hsign : b ≠ byte '-' ∧ b ≠ byte '+' := by
    constructor <;> rintro rfl <;> exact absurd hdigit (by decide)
  rw [hbt] at hnatural ⊢
  rw [integer?, if_neg hsign.1, if_neg hsign.2, hnatural]
  rfl

/-- The numeral of a number that fits in 32 bits is read as that number. -/
theorem int32?_ofNat {n : Nat} (h : n < 2147483648) : int32? (ofNat n) = some (n : Int) := by
  have hrange : IsInt32 n := ⟨by omega, by omega⟩
  rw [int32?, (isField_ofNat n).strip, integer?_ofNat, Option.filter_some,
    if_pos (decide_eq_true hrange)]

theorem wrap32_eq_self {n : Int} (h : -2147483648 ≤ n) (h' : n < 2147483648) : wrap32 n = n :=
  Int.bmod_eq_of_le (by omega) (by omega)

end SpanRules.Text
