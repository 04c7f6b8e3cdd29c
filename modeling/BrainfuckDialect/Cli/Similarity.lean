/-!
# Similarity of names

The Jaro similarity of two texts. Two characters match when they
are equal and at most `max(|a|, |b|) / 2 - 1` positions apart, each character of `b`
matching at most once, the leftmost free one first. With `m` matches and `t` half the
number of matched pairs out of order, the similarity is `(m/|a| + m/|b| + (m - t)/m) / 3`,
and 0 when nothing matches. It is used to suggest a switch for a misspelt one, when the
similarity is above 0.7.
-/

namespace BrainfuckDialect
namespace Cli

/-- The first index `j` in `[lo, hi)` with `b[j] = c` and `j` not yet taken. -/
def freeMatch (b : Array Char) (taken : Array Bool) (c : Char) (lo hi : Nat) : Option Nat :=
  (List.range' lo (hi - lo)).find? (fun j => b.getD j ' ' == c && !taken.getD j true)

/-- The matched characters of `a` in order, and the positions of `b` that matched. -/
def matchAll (a b : List Char) : List Char × Array Bool :=
  let window := max a.length b.length / 2 - 1
  let bs := b.toArray
  let step := fun (acc : List Char × Array Bool) (p : Nat × Char) =>
    let i := p.1
    let c := p.2
    match freeMatch bs acc.2 c (i - window) (min b.length (i + window + 1)) with
    | some j => (acc.1 ++ [c], acc.2.set! j true)
    | none => acc
  (a.zipIdx.map (fun p => (p.2, p.1))).foldl step ([], Array.replicate b.length false)

/-- The Jaro similarity of two texts, computed in binary64 arithmetic in the order
`((m / |a| + m / |b|) + (m - t) / m) / 3`: the suggestion threshold is a binary64
comparison, and near 7/10 the rounding decides it. -/
def jaro (a b : List Char) : Float :=
  if a.isEmpty && b.isEmpty then 1.0
  else if a.isEmpty || b.isEmpty then 0.0
  else
    let (fromA, taken) := matchAll a b
    let fromB := (b.zip taken.toList).filterMap (fun p => if p.2 then some p.1 else none)
    let m := fromA.length
    let t := ((fromA.zip fromB).filter (fun p => p.1 != p.2)).length / 2
    if m = 0 then 0.0
    else
      let mf := Float.ofNat m
      (mf / Float.ofNat a.length + mf / Float.ofNat b.length + Float.ofNat (m - t) / mf) / 3.0

/-- Whether a similarity is high enough to suggest a name: above 0.7. -/
def isClose (x : Float) : Bool :=
  x > 0.7

end Cli
end BrainfuckDialect
