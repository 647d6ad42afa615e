import SpanRules.Unicode.Class

/-! Lower case is in lower case already, and is no mark of ASCII unless it was one before. -/
namespace SpanRules.Unicode

namespace CaseRange

def lowest (r : CaseRange) : Nat := (r.first + r.shift).toNat

def highest (r : CaseRange) : Nat := (r.last + r.shift).toNat

/-- Whether bounds and steps tell that no lower case of one range is a code of another: all of it
comes before or after, or falls between the steps. -/
def apart (r r' : CaseRange) : Bool :=
  r.highest.blt r'.first || r'.last.blt r.lowest ||
    ((r.step == 2 || r.first == r.last) && r'.step == 2 && (r.lowest + r'.first) % 2 == 1)

variable {r r' : CaseRange} {code : Nat}

theorem covers_iff : r.covers code = true ↔
    (r.first ≤ code ∧ code ≤ r.last) ∧ (code - r.first) % r.step = 0 := by
  simp [covers]

theorem not_covers_of_apart (h : r.apart r' = true) (hlow : 0 < r.first + r.shift)
    (hc : r.covers code = true) : r'.covers (code + r.shift).toNat = false := by
  rw [covers_iff] at hc
  rw [Bool.eq_false_iff, Ne, covers_iff]
  rintro ⟨⟨hfirst, hlast⟩, hstep⟩
  simp only [apart, lowest, highest, Bool.or_eq_true, Bool.and_eq_true, beq_iff_eq,
    Nat.blt_eq] at h
  rcases h with (h | h) | ⟨⟨hr, hr'⟩, hodd⟩
  · omega
  · omega
  · rw [hr'] at hstep
    rcases hr with hr | hr
    · rw [hr] at hc
      omega
    · omega

end CaseRange

theorem caseRanges_apart :
    (caseRanges.all fun r => caseRanges.all fun r' => r.apart r') = true := by decide +kernel

theorem caseRanges_bounds :
    (caseRanges.all fun r => Nat.blt 0x60 r.lowest && r.highest.blt 0x200000) = true := by
  decide +kernel

theorem apart_of_mem {r r' : CaseRange} (h : r ∈ caseRanges) (h' : r' ∈ caseRanges) :
    r.apart r' = true :=
  List.all_eq_true.1 (List.all_eq_true.1 caseRanges_apart r h) r' h'

/-- All lower case of the table lies after the capital letters of ASCII and within the reach of
UTF-8. -/
theorem bounds_of_covers {r : CaseRange} {code : Nat} (h : r ∈ caseRanges)
    (hc : r.covers code = true) :
    0x60 < r.first + r.shift ∧ 0x60 < (code + r.shift).toNat ∧
      (code + r.shift).toNat < 0x200000 := by
  have hbounds := List.all_eq_true.1 caseRanges_bounds r h
  simp only [CaseRange.lowest, CaseRange.highest, Bool.and_eq_true, Nat.blt_eq] at hbounds
  have hcode := (CaseRange.covers_iff.1 hc).1
  omega

/-- A table whose lower case is in lower case already and stays within the reach of UTF-8. The rule
for ASCII counts, so that the lower case of no character is a capital letter of ASCII. -/
structure Settled (table : Nat → Nat) : Prop where
  lt : ∀ code < 0x200000, toLowerBy table code < 0x200000
  again : ∀ code < 0x200000, toLowerBy table (toLowerBy table code) = toLowerBy table code

variable {code : Nat}

/-- The rule for ASCII stays within ASCII, whatever the table. -/
theorem toLowerBy_lt_of_lt (table : Nat → Nat) (h : code < 0x80) : toLowerBy table code < 0x80 := by
  unfold toLowerBy
  rw [if_pos h]
  split <;> omega

/-- The lower case of a character outside ASCII comes from the table or is the character. -/
theorem toLower_of_le (h : 0x80 ≤ code) : toLower code = code ∨
    ∃ r ∈ caseRanges, r.covers code = true ∧ toLower code = (code + r.shift).toNat := by
  rw [toLower, toLowerBy, if_neg (by omega), tableLower]
  cases hr : caseRanges.find? (·.covers code) with
  | none => exact .inl rfl
  | some r =>
    have hc := List.find?_some hr
    exact .inr ⟨r, List.mem_of_find?_eq_some hr, hc, rfl⟩

theorem toLower_lt (h : code < 0x200000) : toLower code < 0x200000 := by
  rcases Nat.lt_or_ge code 0x80 with hlt | hge
  · have := toLowerBy_lt_of_lt tableLower hlt
    rw [toLower]
    omega
  · rcases toLower_of_le hge with heq | ⟨r, hr, hc, heq⟩
    · rwa [heq]
    · rw [heq]
      exact (bounds_of_covers hr hc).2.2

/-- The marks of ASCII that are not letters stay, and nothing else becomes one of those before the
letters in lower case. -/
theorem toLower_eq_iff {mark : Nat} (h : mark < 0x41 ∨ (0x5A < mark ∧ mark ≤ 0x60)) :
    toLower code = mark ↔ code = mark := by
  rcases Nat.lt_or_ge code 0x80 with hlt | hge
  · rw [toLower, toLowerBy, if_pos hlt]
    split <;> omega
  · rcases toLower_of_le hge with heq | ⟨r, hr, hc, heq⟩
    · rw [heq]
    · have := (bounds_of_covers hr hc).2.1
      omega

theorem toLower_toLower (code : Nat) : toLower (toLower code) = toLower code := by
  rcases Nat.lt_or_ge code 0x80 with hlt | hge
  · by_cases hcapital : 0x41 ≤ code ∧ code ≤ 0x5A
    · have hlower : toLower code = code + 32 := by rw [toLower, toLowerBy, if_pos hlt, if_pos hcapital]
      rw [hlower, toLower, toLowerBy, if_pos (by omega), if_neg (by omega)]
    · have hlower : toLower code = code := by rw [toLower, toLowerBy, if_pos hlt, if_neg hcapital]
      rw [hlower, hlower]
  · rcases toLower_of_le hge with heq | ⟨r, hr, hc, heq⟩
    · rw [heq, heq]
    · obtain ⟨hlow, hletter, _⟩ := bounds_of_covers hr hc
      rw [heq]
      generalize hlower : (code + r.shift).toNat = lower at *
      rcases Nat.lt_or_ge lower 0x80 with hlt' | hge'
      · rw [toLower, toLowerBy, if_pos hlt', if_neg (by omega)]
      · rcases toLower_of_le hge' with heq' | ⟨r', hr', hc', _⟩
        · exact heq'
        · have hnot := CaseRange.not_covers_of_apart (apart_of_mem hr hr') (by omega) hc
          rw [hlower, hc'] at hnot
          cases hnot

theorem settled_tableLower : Settled tableLower :=
  ⟨fun _ => toLower_lt, fun code _ => toLower_toLower code⟩

end SpanRules.Unicode
