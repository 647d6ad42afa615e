import SpanRules.Pattern.Reading
import SpanRules.Proofs.Source.Reading
import SpanRules.Proofs.Source.Token

/-! Reading a pattern takes no notice of places: tokens with the same kinds and texts give the same
pattern. -/
namespace SpanRules

namespace SourceToken
variable {t : SourceToken}

/-- A token that has lost its place. -/
def bare (t : SourceToken) : SourceToken := ⟨t.kind, t.text, default, default⟩

@[simp] theorem kind_bare : t.bare.kind = t.kind := rfl

@[simp] theorem text_bare : t.bare.text = t.text := rfl

@[simp] theorem isSymbol_bare {c : Char} : t.bare.isSymbol c = t.isSymbol c := rfl

@[simp] theorem isWordOrQuoted_bare : t.bare.isWordOrQuoted = t.isWordOrQuoted := rfl

@[simp] theorem count?_bare : t.bare.count? = t.count? := rfl

theorem map_bare_eq_iff {ts us : List SourceToken} :
    ts.map bare = us.map bare ↔ ts.map lexeme = us.map lexeme := by
  have hbare : ∀ ts : List SourceToken,
      ts.map bare = (ts.map lexeme).map fun l => ⟨l.kind, l.text, default, default⟩ := by
    intro ts
    rw [List.map_map]
    rfl
  have hlexeme : ∀ ts : List SourceToken, ts.map lexeme = (ts.map bare).map lexeme := by
    intro ts
    rw [List.map_map]
    rfl
  constructor
  · intro h
    rw [hlexeme ts, h, ← hlexeme]
  · intro h
    rw [hbare, h, ← hbare]

end SourceToken

open SourceToken (bare)

variable {ε α β : Type} {ts : Rest} {c : Char}

@[simp] theorem nextIs_map_bare : nextIs c (ts.map bare) = nextIs c ts := by
  cases ts <;> rfl

@[simp] theorem tail_map_bare : (ts.map bare).tail = ts.tail.map bare := (List.map_tail).symm

@[simp] theorem head?_isWord_map_bare {w : String} :
    ((ts.map bare).head?.any fun t => t.isWord w) = ts.head?.any fun t => t.isWord w := by
  cases ts <;> rfl

@[simp] theorem head?_startsTest_map_bare :
    ((ts.map bare).head?.any fun t => t.startsTest) = ts.head?.any fun t => t.startsTest := by
  cases ts <;> rfl

namespace Reading

/-- A result of reading in which the tokens that are left have lost their places. -/
def bare : Reading ε (α × Rest) → Reading ε (α × Rest)
  | .ok (a, ts) => .ok (a, ts.map SourceToken.bare)
  | .error (e, ts) => .error (e, ts.map SourceToken.bare)

@[simp] theorem bare_ok {a : α} : bare (.ok (a, ts) : Reading ε _) = .ok (a, ts.map .bare) := rfl

@[simp] theorem bare_stopAt {e : ε} :
    bare (stopAt ts e : Reading ε (α × Rest)) = stopAt (ts.map .bare) e := rfl

theorem bare_bind {r : Reading ε (α × Rest)} {f : α × Rest → Reading ε (β × Rest)}
    (hf : ∀ a ts, f (a, ts.map .bare) = bare (f (a, ts))) : (bare r >>= f) = bare (r >>= f) := by
  rcases r with ⟨e, ts⟩ | ⟨a, ts⟩
  · rfl
  · exact hf a ts

end Reading

namespace Test
open Reading

theorem property?_map_bare (key : Text) (ts : Rest) :
    property? key (ts.map bare) = (property? key ts).bare := by
  unfold property?
  simp only [nextIs_map_bare, tail_map_bare]
  split
  · cases ts.tail with
    | nil => rfl
    | cons v rest =>
      by_cases hv : v.isWordOrQuoted = true <;> simp [hv]
  · rfl

theorem argument?_map_bare (mayBeWord : Bool) (ts : Rest) :
    argument? mayBeWord (ts.map bare) = (argument? mayBeWord ts).bare := by
  cases ts with
  | nil => rfl
  | cons v rest =>
    simp only [argument?, List.map_cons, SourceToken.kind_bare, nextIs_map_bare, tail_map_bare]
    split
    · split <;> rfl
    · rfl

theorem function?_map_bare (name : Text) (ts : Rest) :
    function? name (ts.map bare) = (function? name ts).bare := by
  unfold function?
  simp only [tail_map_bare, argument?_map_bare]
  split
  · exact bare_bind fun _ _ => rfl
  · split
    · exact bare_bind fun _ _ => rfl
    · split
      · exact bare_bind fun _ _ => rfl
      · split
        · exact bare_bind fun _ _ => rfl
        · split
          · exact bare_bind fun _ _ => rfl
          · rfl

theorem read?_map_bare (fuel : Nat) (ts : Rest) : read? fuel (ts.map bare) = (read? fuel ts).bare ∧
    conjunction? fuel (ts.map bare) = (conjunction? fuel ts).bare := by
  induction fuel generalizing ts with
  | zero => exact ⟨by cases ts <;> simp [read?], by simp [conjunction?]⟩
  | succ fuel ih =>
    constructor
    · cases ts with
      | nil => simp [read?]
      | cons t rest =>
        simp only [read?, List.map_cons, SourceToken.kind_bare, SourceToken.text_bare,
          SourceToken.isSymbol_bare, nextIs_map_bare, function?_map_bare, property?_map_bare,
          (ih rest).1, (ih rest).2]
        split
        · rfl
        · split
          · exact bare_bind fun _ _ => rfl
          · split
            · rfl
            · split
              · rfl
              · split
                · rfl
                · split <;> rfl
    · simp only [conjunction?, (ih ts).1]
      apply bare_bind
      intro x rest
      simp only [nextIs_map_bare, tail_map_bare, (ih rest.tail).2]
      split
      · rfl
      · split
        · exact bare_bind fun _ _ => rfl
        · rfl

end Test

namespace Run
open Reading

theorem bounds?_map_bare (ts : Rest) : bounds? (ts.map bare) = (bounds? ts).bare := by
  unfold bounds?
  simp only [nextIs_map_bare, tail_map_bare]
  split
  · rfl
  · split
    · rfl
    · split
      · rfl
      · split
        · cases ts.tail with
          | nil => rfl
          | cons n rest =>
            simp only [List.map_cons, SourceToken.count?_bare, nextIs_map_bare, tail_map_bare]
            split
            · rfl
            · split
              · rfl
              · split
                · split
                  · rfl
                  · cases rest.tail with
                    | nil => rfl
                    | cons m rest =>
                      simp only [List.map_cons, SourceToken.count?_bare, nextIs_map_bare,
                        tail_map_bare]
                      split
                      · rfl
                      · split
                        · rfl
                        · split <;> rfl
                · rfl
        · rfl

theorem test?_map_bare (ts : Rest) : test? (ts.map bare) = (test? ts).bare := by
  unfold test?
  simp only [List.length_map, tail_map_bare, (Test.read?_map_bare _ _).1, Test.property?_map_bare,
    head?_isWord_map_bare, head?_startsTest_map_bare]
  split
  · split <;> exact bare_bind fun _ _ => rfl
  · exact bare_bind fun _ _ => rfl

theorem read?_map_bare (ts : Rest) : read? (ts.map bare) = (read? ts).bare := by
  unfold read?
  rw [test?_map_bare]
  apply bare_bind
  intro _ rest
  simp only [bounds?_map_bare]
  apply bare_bind
  intro _ rest
  simp only [head?_isWord_map_bare, tail_map_bare]
  split <;> rfl

end Run

/-- Reading the items of a sequence from bare tokens gives the same draft or the same fault. -/
theorem Draft.extend?_map_bare (fuel : Nat) (d : Draft) (ts : Rest) :
    extend? fuel d (ts.map bare) = (extend? fuel d ts).mapError fun e => (e.1, e.2.map bare) := by
  induction fuel generalizing d ts with
  | zero => cases ts <;> rfl
  | succ fuel ih =>
    cases ts with
    | nil => rfl
    | cons t rest =>
      simp only [extend?, List.map_cons, SourceToken.kind_bare, SourceToken.isSymbol_bare, ih]
      split
      · rfl
      · split
        · rfl
        · split
          · split <;> rfl
          · split
            · split <;> rfl
            · split
              · cases rest with
                | nil => rfl
                | cons n rest =>
                  simp only [List.map_cons, SourceToken.isWordOrQuoted_bare, nextIs_map_bare,
                    tail_map_bare, SourceToken.text_bare]
                  split
                  · split <;> exact ih _ _
                  · rfl
              · rw [← List.map_cons, Run.read?_map_bare]
                rcases Run.read? (t :: rest) with ⟨e, us⟩ | ⟨r, us⟩
                · rfl
                · exact ih _ _

theorem Alternative.ofSegment?_congr {s s' : Segment} {a : Alternative}
    (h : s.tokens.map bare = s'.tokens.map bare) (ha : ofSegment? s = .ok a) :
    ofSegment? s' = .ok a := by
  have hlen : s.tokens.length = s'.tokens.length := by simpa using congrArg List.length h
  have hs := Draft.extend?_map_bare s.tokens.length (.plain []) s.tokens
  rw [h, hlen, Draft.extend?_map_bare] at hs
  unfold ofSegment? at ha ⊢
  rw [hlen] at ha
  cases hd : Draft.extend? s'.tokens.length (.plain []) s.tokens with
  | error e =>
    rw [hd] at ha
    cases ha
  | ok d =>
    rw [hd] at ha hs
    cases hd' : Draft.extend? s'.tokens.length (.plain []) s'.tokens with
    | error e =>
      rw [hd'] at hs
      cases hs
    | ok d' =>
      rw [hd'] at hs
      obtain rfl := Except.ok.inj hs
      simp only at ha ⊢
      cases hf : d'.finish with
      | error e =>
        rw [hf] at ha
        cases ha
      | ok a' =>
        rw [hf] at ha
        exact ha

theorem Segment.split_map_bare (isStop : SourceToken → Bool)
    (hstop : ∀ t : SourceToken, isStop t.bare = isStop t) (stop stop' : SourceToken)
    {ts ts' : List SourceToken} (h : ts.map bare = ts'.map bare) :
    (split isStop stop ts).map (·.tokens.map bare) =
      (split isStop stop' ts').map (·.tokens.map bare) := by
  have hpush : ∀ (t : SourceToken) (ss : List Segment),
      (pushFront t ss).map (·.tokens.map bare) =
        (ss.map (·.tokens.map bare)).modifyHead (t.bare :: ·) := by
    intro t ss
    cases ss <;> rfl
  induction ts generalizing ts' with
  | nil =>
    rw [List.map_nil, eq_comm, List.map_eq_nil_iff] at h
    rw [h]
    rfl
  | cons t ts ih =>
    rw [List.map_cons, eq_comm, List.map_eq_cons_iff] at h
    obtain ⟨t', us, rfl, ht, hts⟩ := h
    have hsame : isStop t' = isStop t := by rw [← hstop t', ht, hstop]
    rw [split, split, hsame]
    split
    · rw [List.map_cons, List.map_cons, ih hts.symm]
    · rw [hpush, hpush, ih hts.symm, ht]

/-- The pattern is the same if kinds and texts of the tokens are. -/
theorem Pattern.ofSegment?_congr {s s' : Segment} {p : Pattern}
    (h : s.tokens.map SourceToken.lexeme = s'.tokens.map SourceToken.lexeme)
    (hp : ofSegment? s = .ok p) : ofSegment? s' = .ok p := by
  have hsource : s.tokens.map (·.text) = s'.tokens.map (·.text) := by
    simpa [Function.comp_def, SourceToken.lexeme] using congrArg (List.map Lexeme.text) h
  have hsplit := Segment.split_map_bare (·.kind == .bars) (fun _ => rfl) s.stop s'.stop
    (SourceToken.map_bare_eq_iff.2 h)
  unfold ofSegment? at hp ⊢
  rw [Reading.bind_eq_ok_iff] at hp ⊢
  obtain ⟨as, has, hp⟩ := hp
  refine ⟨as, ?_, hsource ▸ hp⟩
  rw [Reading.mapM_eq_ok_iff] at has ⊢
  clear hp
  generalize Segment.split _ s.stop s.tokens = ss at has hsplit
  generalize Segment.split _ s'.stop s'.tokens = ss' at hsplit
  induction has generalizing ss' with
  | nil =>
    rw [List.map_nil, eq_comm, List.map_eq_nil_iff] at hsplit
    exact hsplit ▸ .nil
  | cons hx _ ih =>
    rw [List.map_cons, eq_comm, List.map_eq_cons_iff] at hsplit
    obtain ⟨s₁, ss₁, rfl, hs₁, hss₁⟩ := hsplit
    exact .cons (Alternative.ofSegment?_congr hs₁.symm hx) (ih ss₁ hss₁.symm)

end SpanRules
