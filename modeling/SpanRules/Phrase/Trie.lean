import SpanRules.Document.Basic
import SpanRules.Text.Lower

/-! Phrases, kept in a tree by their words. Phrases and documents are compared in lower case. -/
namespace SpanRules

/-- A forest of words. A word carries the keys of the phrases that end with it, the words that may
follow it and its alternatives. -/
inductive Trie where
  | nil
  | word (w : Text) (keys : List Text) (below : Trie) (next : Trie)
  deriving DecidableEq, Inhabited

namespace Trie

def single (key : Text) : List Text → Trie
  | [] => .nil
  | [w] => .word w [key] .nil .nil
  | w :: ws => .word w [] (single key ws) .nil

/-- Adds a phrase; its key comes after the keys that its last word has. -/
def insert (key : Text) : Trie → List Text → Trie
  | .nil, ws => single key ws
  | t@(.word ..), [] => t
  | .word w keys below next, v :: vs =>
    if v = w then
      if vs = [] then .word w (keys ++ [key]) below next
      else .word w keys (insert key below vs) next
    else .word w keys below (insert key next (v :: vs))

/-- What is known of a first word: the keys that it carries and the words that may follow. -/
def step? (v : Text) : Trie → Option (List Text × Trie)
  | .nil => none
  | .word w keys below next => if v = w then some (keys, below) else step? v next

/-- The lengths of the phrases with which a list of words begins, `depth` words being read. -/
def lengths (depth : Nat) : Trie → List Text → List Nat
  | _, [] => []
  | t, v :: vs =>
    match step? v t with
    | none => []
    | some (keys, below) =>
      if keys = [] then lengths (depth + 1) below vs
      else (depth + 1) :: lengths (depth + 1) below vs

def keysOf : Trie → List Text → List Text
  | _, [] => []
  | t, [v] => ((step? v t).map (·.1)).getD []
  | t, v :: vs =>
    match step? v t with
    | none => []
    | some (_, below) => keysOf below vs

end Trie

structure PhraseSet where
  trie : Trie
  size : Nat
  deriving DecidableEq, Inhabited

namespace PhraseSet

def empty : PhraseSet := ⟨.nil, 0⟩

def wordsOf (phrase : Text) : List Text := phrase.words.map Text.lower

/-- Adds a phrase under a key. A phrase without tokens is left out. -/
def add (p : PhraseSet) (key phrase : Text) : PhraseSet :=
  match wordsOf phrase with
  | [] => p
  | ws => ⟨p.trie.insert key ws, p.size + 1⟩

def ofList (phrases : List (Text × Text)) : PhraseSet :=
  phrases.foldl (fun p e => p.add e.1 e.2) empty

/-- The beginnings and ends of phrases in a list of words, the first of which has number `pos`. -/
def occurrences (t : Trie) : Nat → List Text → List (Nat × Nat)
  | _, [] => []
  | pos, w :: ws =>
    (t.lengths 0 (w :: ws)).map (fun n => (pos, pos + n)) ++ occurrences t (pos + 1) ws

/-- The phrases that occur in a span, by first token and then by length. -/
def lookup (p : PhraseSet) (d : Document) (s : Span) : List Span :=
  (occurrences p.trie 0 ((d.spanWords s).map Text.lower)).map fun r => s.sub r.1 r.2

/-- The keys of the phrases with the given words, in the order in which they were added. -/
def find (p : PhraseSet) (words : List Text) : List Text := p.trie.keysOf (words.map Text.lower)

end PhraseSet

end SpanRules
