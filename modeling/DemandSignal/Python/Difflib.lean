import DemandSignal.Python.Number

/-!
# `difflib.SequenceMatcher`

The ratio of two token sequences: twice the tokens in matching blocks over all tokens, where the
blocks are found longest first.
-/

namespace DemandSignal.Difflib

/-- A block of equal tokens at `a[i:]` and `b[j:]`. -/
structure Match where
  i : Nat
  j : Nat
  size : Nat

/-- The tokens of `b` that no match starts from, once it has two hundred or more. -/
def popular (b : List String) : List String :=
  if b.length < 200 then []
  else b.filter fun token => b.length / 100 + 1 < b.count token

variable (a b : List String)

/-- One token of `a` against the tokens of `b` it may match: the runs that end in each, and the
longest block so far. -/
def extendRuns (popularTokens : List String) (blo bhi i : Nat)
    (runs : List (Nat × Nat)) (best : Match) : List (Nat × Nat) × Match :=
  (List.range bhi).foldl (fun (next, best) j =>
    if blo ≤ j ∧ a[i]? = b[j]? ∧ ¬ (a.getD i "") ∈ popularTokens then
      let k := (if j = 0 then 0 else (runs.lookup (j - 1)).getD 0) + 1
      ((j, k) :: next, if best.size < k then ⟨i + 1 - k, j + 1 - k, k⟩ else best)
    else (next, best)) ([], best)

def growLeft (alo blo : Nat) : Nat → Match → Match
  | 0, m => m
  | fuel + 1, m =>
      if alo < m.i ∧ blo < m.j ∧ a[m.i - 1]? = b[m.j - 1]? then
        growLeft alo blo fuel ⟨m.i - 1, m.j - 1, m.size + 1⟩
      else m

def growRight (ahi bhi : Nat) : Nat → Match → Match
  | 0, m => m
  | fuel + 1, m =>
      if m.i + m.size < ahi ∧ m.j + m.size < bhi ∧ a[m.i + m.size]? = b[m.j + m.size]? then
        growRight ahi bhi fuel ⟨m.i, m.j, m.size + 1⟩
      else m

def findLongestMatch (popularTokens : List String) (alo ahi blo bhi : Nat) : Match :=
  let best := ((List.range ahi).foldl (fun (runs, best) i =>
    if alo ≤ i then extendRuns a b popularTokens blo bhi i runs best else (runs, best))
    (([], ⟨alo, blo, 0⟩) : List (Nat × Nat) × Match)).2
  growRight a b ahi bhi ahi (growLeft a b alo blo ahi best)

/-- The tokens in the matching blocks of `a[alo:ahi]` and `b[blo:bhi]`; `fuel` bounds the blocks. -/
def matchedTokens (popularTokens : List String) : Nat → Nat → Nat → Nat → Nat → Nat
  | 0, _, _, _, _ => 0
  | fuel + 1, alo, ahi, blo, bhi =>
      let m := findLongestMatch a b popularTokens alo ahi blo bhi
      if m.size = 0 then 0
      else
        m.size +
          (if alo < m.i ∧ blo < m.j then matchedTokens popularTokens fuel alo m.i blo m.j else 0) +
          (if m.i + m.size < ahi ∧ m.j + m.size < bhi then
            matchedTokens popularTokens fuel (m.i + m.size) ahi (m.j + m.size) bhi else 0)

/-- `SequenceMatcher(None, a, b).ratio()`. -/
def ratio : ℚ :=
  if a.length + b.length = 0 then 1
  else
    let blocks := matchedTokens a b (popular b) (a.length + 1) 0 a.length 0 b.length
    Python.toDouble (2 * blocks / (a.length + b.length : Nat))

end DemandSignal.Difflib
