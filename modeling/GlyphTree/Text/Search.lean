import GlyphTree.Text

/-!
# Searching and splitting texts

Plain, literal searches: occurrences of one text in another from left to right without overlap,
and cutting a text at a separator character.
-/

namespace GlyphTree.Text

/-- The rest of `t` after `pre`, if `t` starts with it. -/
def dropPrefix? : Text → Text → Option Text
  | [], t => some t
  | _ :: _, [] => none
  | p :: ps, c :: cs => if p = c then dropPrefix? ps cs else none

/-- `dropPrefix?` takes off exactly the given beginning. -/
theorem dropPrefix?_eq_some_iff {p t r : Text} : dropPrefix? p t = some r ↔ t = p ++ r := by
  induction p generalizing t with
  | nil => simp [dropPrefix?, eq_comm]
  | cons p ps ih =>
    cases t with
    | nil => simp [dropPrefix?]
    | cons c cs =>
      by_cases h : p = c
      · simp [dropPrefix?, h, ih]
      · simp [dropPrefix?, h, Ne.symm h]

/-- Whether a text ends with `suffix`. -/
def endsWith (t suffix : Text) : Bool := suffix.isSuffixOf t

/-- Offsets of the occurrences of `pat` in `t`, left to right, where `skip` characters belong to
an occurrence already reported and `offset` bytes came before `t`. -/
def occurrencesFrom (pat : Text) : Nat → Nat → Text → List Nat
  | _, _, [] => []
  | skip, offset, c :: cs =>
    if skip = 0 then
      if (dropPrefix? pat (c :: cs)).isSome then
        offset :: occurrencesFrom pat (pat.length - 1) (offset + c.utf8Size) cs
      else occurrencesFrom pat 0 (offset + c.utf8Size) cs
    else occurrencesFrom pat (skip - 1) (offset + c.utf8Size) cs

/-- Byte offsets of the non-overlapping occurrences of a non-empty `pat`, left to right. -/
def occurrences (pat t : Text) : List Nat := occurrencesFrom pat 0 0 t

/-- One character is found wherever it stands. -/
theorem occurrencesFrom_singleton_cons (g c : Char) (offset : Nat) (t : Text) :
    occurrencesFrom [g] 0 offset (c :: t) =
      if g = c then offset :: occurrencesFrom [g] 0 (offset + c.utf8Size) t
      else occurrencesFrom [g] 0 (offset + c.utf8Size) t := by
  by_cases h : g = c <;> simp [occurrencesFrom, dropPrefix?, h]

/-- The pieces of a text between the occurrences of a separator character. -/
def splitAt (sep : Char) : Text → List Text
  | [] => [[]]
  | c :: cs =>
    if c = sep then [] :: splitAt sep cs
    else match splitAt sep cs with
      | [] => [[c]]
      | piece :: pieces => (c :: piece) :: pieces

/-- The parts before and after the first occurrence of a separator character. -/
def splitOnce (sep : Char) : Text → Option (Text × Text)
  | [] => none
  | c :: cs =>
    if c = sep then some ([], cs)
    else (splitOnce sep cs).map fun (a, b) => (c :: a, b)

end GlyphTree.Text
