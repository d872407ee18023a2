import GlyphTree.Proofs.Expansion

/-!
# Undefined labels

A token that looks like a label but is none makes an expansion fail, unless it is the name of a
capture group. What stands before the token decides that, and is not looked at closely enough: in
`\(?<name>` the bracket is escaped and opens no group, yet the token passes for a group's name. What
is reported is the first token that nothing excuses, which is the first that names no group just if
no escape comes in between (`expand_undefined`).
-/

namespace GlyphTree

/-! ## Tokens of a text -/

/-- What stands in the brackets of a token. -/
def IsIdent (t : Text) : Prop :=
  ∃ c cs, t = c :: cs ∧ isIdentStart c = true ∧ ∀ x ∈ cs, isIdentRest x = true

/-- A text that looks like a label. -/
def LooksLikeLabel (t : Text) : Prop := ∃ ident, IsIdent ident ∧ t = '<' :: ident ++ ['>']

variable {t before ident a b token : Text}

theorem isIdentRest_of_isIdentStart {c : Char} (h : isIdentStart c = true) :
    isIdentRest c = true := by
  unfold isIdentStart at h
  unfold isIdentRest Char.isAlphanum
  grind

theorem IsIdent.isIdentRest (h : IsIdent ident) : ∀ x ∈ ident, isIdentRest x = true := by
  obtain ⟨c, cs, rfl, hc, hcs⟩ := h
  exact List.forall_mem_cons.2 ⟨isIdentRest_of_isIdentStart hc, hcs⟩

/-- The identifier of a token ends where no character of an identifier stands. -/
theorem identToken?_eq_some_iff :
    identToken? t = some ident ↔ IsIdent ident ∧ ∃ after, t = ident ++ '>' :: after := by
  constructor
  · intro h
    cases t with
    | nil => cases h
    | cons c cs =>
      rw [identToken?] at h
      split at h
      · rename_i hc
        dsimp only at h
        split at h
        · rename_i hend
          obtain rfl := Option.some.inj h
          refine ⟨⟨c, _, rfl, hc, fun x hx => List.mem_takeWhile_imp hx⟩, ?_⟩
          obtain ⟨after, hafter⟩ := List.head?_eq_some_iff.1 hend
          refine ⟨after, ?_⟩
          rw [List.cons_append, ← hafter, List.takeWhile_append_dropWhile]
        · cases h
      · cases h
  · rintro ⟨⟨c, cs, rfl, hc, hcs⟩, after, rfl⟩
    have htake : (cs ++ '>' :: after).takeWhile isIdentRest = cs := by
      rw [List.takeWhile_append_of_pos hcs, List.takeWhile_cons_of_neg (by decide), List.append_nil]
    have hdrop : (cs ++ '>' :: after).dropWhile isIdentRest = '>' :: after := by
      rw [List.dropWhile_append_of_pos hcs, List.dropWhile_cons_of_neg (by decide)]
    rw [List.cons_append, identToken?, if_pos hc, htake, hdrop]
    rfl

/-- The token at the front of a text. -/
def frontToken? : Text → Option Text
  | [] => none
  | c :: cs =>
    if c = '<' then (identToken? cs).map fun ident => '<' :: ident ++ ['>'] else none

theorem frontToken?_eq_some_iff :
    frontToken? t = some token ↔ LooksLikeLabel token ∧ token <+: t := by
  constructor
  · intro h
    cases t with
    | nil => cases h
    | cons c cs =>
      rw [frontToken?] at h
      split at h
      · next hc =>
        obtain ⟨ident, hcs, rfl⟩ := Option.map_eq_some_iff.1 h
        obtain ⟨hident, after, rfl⟩ := identToken?_eq_some_iff.1 hcs
        exact ⟨⟨ident, hident, rfl⟩, after, by simp [hc]⟩
      · cases h
  · rintro ⟨⟨ident, hident, rfl⟩, after, rfl⟩
    have hfront : identToken? (ident ++ ['>'] ++ after) = some ident :=
      identToken?_eq_some_iff.2 ⟨hident, after, by simp⟩
    show Option.map _ (identToken? (ident ++ ['>'] ++ after)) = _
    rw [hfront]
    rfl

/-- No token starts inside another, so it makes no difference that tokens are passed over. -/
theorem identTokensFrom_skip (ha : ∀ c ∈ a, c ≠ '<') :
    identTokensFrom before a.length (a ++ b) = identTokensFrom before 0 (a ++ b) := by
  induction a generalizing before with
  | nil => rfl
  | cons c a ih =>
    obtain ⟨hc, ha⟩ := List.forall_mem_cons.1 ha
    rw [List.length_cons, List.cons_append, identTokensFrom, identTokensFrom, if_neg hc, ih ha]

theorem identTokensFrom_cons (before : Text) (c : Char) (cs : Text) :
    identTokensFrom before 0 (c :: cs) =
      ((frontToken? (c :: cs)).map (before.reverse, ·)).toList ++
        identTokensFrom (c :: before) 0 cs := by
  rw [identTokensFrom, frontToken?]
  by_cases hc : c = '<'
  · rw [if_pos hc, if_pos hc]
    cases hident : identToken? cs with
    | none => rfl
    | some ident =>
      obtain ⟨hid, after, rfl⟩ := identToken?_eq_some_iff.1 hident
      have hfree : ∀ x ∈ ident ++ ['>'], x ≠ '<' := by
        intro x hx
        rcases List.mem_append.1 hx with hx | hx
        · rintro rfl
          exact absurd (hid.isIdentRest _ hx) (by decide)
        · rw [List.mem_singleton.1 hx]
          decide
      have hskip : identTokensFrom (c :: before) (ident ++ ['>']).length (ident ++ ['>'] ++ after) =
          _ := identTokensFrom_skip hfree
      rw [List.length_append, List.append_assoc] at hskip
      simpa using hskip
  · rw [if_neg hc, if_neg hc]
    rfl

theorem LooksLikeLabel.ne_nil (h : LooksLikeLabel token) : token ≠ [] := by
  obtain ⟨ident, -, rfl⟩ := h
  exact List.cons_ne_nil _ _

/-- Every token of a text is found, each with what stands before it. -/
theorem mem_identTokensFrom : (b, token) ∈ identTokensFrom before 0 t ↔
    ∃ a, b = before.reverse ++ a ∧ LooksLikeLabel token ∧ a ++ token <+: t := by
  induction t generalizing before with
  | nil =>
    refine iff_of_false (List.not_mem_nil (a := (b, token))) ?_
    rintro ⟨a, -, htoken, h⟩
    exact htoken.ne_nil (List.append_eq_nil_iff.1 (List.prefix_nil.1 h)).2
  | cons c cs ih =>
    rw [identTokensFrom_cons, List.mem_append, ih, Option.mem_toList,
      Option.map_eq_some_iff]
    constructor
    · rintro (⟨_, hfront, heq⟩ | ⟨a, rfl, htoken, h⟩)
      · obtain ⟨rfl, rfl⟩ := Prod.mk.inj heq
        exact ⟨[], (List.append_nil _).symm, frontToken?_eq_some_iff.1 hfront⟩
      · exact ⟨c :: a, by simp, htoken, List.cons_prefix_cons.2 ⟨rfl, h⟩⟩
    · rintro ⟨a, rfl, htoken, h⟩
      cases a with
      | nil => exact .inl ⟨token, frontToken?_eq_some_iff.2 ⟨htoken, h⟩, by simp⟩
      | cons x a =>
        obtain ⟨rfl, hrest⟩ := List.cons_prefix_cons.1 h
        exact .inr ⟨a, by simp, htoken, hrest⟩

theorem mem_identTokens :
    (before, token) ∈ identTokens t ↔ LooksLikeLabel token ∧ before ++ token <+: t := by
  rw [identTokens, mem_identTokensFrom]
  constructor
  · rintro ⟨a, rfl, h⟩
    exact h
  · exact fun h => ⟨before, rfl, h⟩

theorem identTokensFrom_pairwise (before t : Text) : (identTokensFrom before 0 t).Pairwise
    fun x y => x.1.length < y.1.length := by
  induction t generalizing before with
  | nil => exact .nil
  | cons c cs ih =>
    rw [identTokensFrom_cons]
    refine List.pairwise_append.2 ⟨?_, ih _, ?_⟩
    · cases frontToken? (c :: cs) with
      | none => exact .nil
      | some token => exact List.pairwise_singleton _ _
    · rintro x hx ⟨b, token⟩ hy
      obtain ⟨token', -, rfl⟩ := Option.map_eq_some_iff.1 (Option.mem_toList.1 hx)
      obtain ⟨a, rfl, -⟩ := mem_identTokensFrom.1 hy
      simp only [List.length_append, List.length_reverse, List.length_cons]
      omega

/-! ## Tokens of several stretches -/

/-- A token of a sequence of stretches: which of them it is in, what of that stands before it, and
the token itself. -/
structure Token where
  stretch : Nat
  before : Text
  text : Text
deriving DecidableEq, Repr, Inhabited

namespace Token

variable {k k' : Token} {ss : List Text} {excused : Text → Prop}

/-- A token stands in a sequence of stretches. -/
def In (k : Token) (ss : List Text) : Prop :=
  LooksLikeLabel k.text ∧ ∃ s, ss[k.stretch]? = some s ∧ k.before ++ k.text <+: s

/-- One token stands before another. -/
def Precedes (k k' : Token) : Prop :=
  k.stretch < k'.stretch ∨ k.stretch = k'.stretch ∧ k.before.length < k'.before.length

/-- The first token of all that are not excused by what stands before them. -/
structure First (ss : List Text) (excused : Text → Prop) (k : Token) : Prop where
  stands : k.In ss
  unexcused : ¬excused k.before
  first : ∀ k' : Token, k'.In ss → ¬excused k'.before → ¬k'.Precedes k

/-- The tokens of a sequence of stretches from left to right. -/
def listed (ss : List Text) : List Token :=
  ss.zipIdx.flatMap fun (s, i) => (identTokens s).map fun (before, text) => ⟨i, before, text⟩

theorem mem_listed : k ∈ listed ss ↔ k.In ss := by
  obtain ⟨i, before, text⟩ := k
  simp only [listed, List.mem_flatMap, Prod.exists, List.mem_zipIdx_iff_getElem?, List.mem_map,
    mk.injEq, In]
  constructor
  · rintro ⟨s, _, hs, _, _, hmem, rfl, rfl, rfl⟩
    obtain ⟨htoken, hbefore⟩ := mem_identTokens.1 hmem
    exact ⟨htoken, s, hs, hbefore⟩
  · rintro ⟨htoken, s, hs, hbefore⟩
    exact ⟨s, i, hs, _, _, mem_identTokens.2 ⟨htoken, hbefore⟩, rfl, rfl, rfl⟩

theorem listed_pairwise (ss : List Text) : (listed ss).Pairwise Precedes := by
  refine List.pairwise_flatMap.2 ⟨fun x _ => ?_, ?_⟩
  · exact List.pairwise_map.2 ((identTokensFrom_pairwise [] x.1).imp fun h => .inr ⟨rfl, h⟩)
  · have hidx : (ss.zipIdx.map Prod.snd).Pairwise (· < ·) := by
      rw [List.zipIdx_map_snd]
      exact List.pairwise_lt_range'
    refine (List.pairwise_map.1 hidx).imp fun h k hk k' hk' => ?_
    obtain ⟨_, -, rfl⟩ := List.mem_map.1 hk
    obtain ⟨_, -, rfl⟩ := List.mem_map.1 hk'
    exact .inl h

theorem Precedes.asymm (h : k.Precedes k') : ¬k'.Precedes k := by
  unfold Precedes at *
  omega

theorem first_iff [DecidablePred excused] :
    First ss excused k ↔ (listed ss).find? (¬excused ·.before) = some k := by
  constructor
  · rintro ⟨hin, hbad, hfirst⟩
    obtain ⟨front, behind, he⟩ := List.append_of_mem (mem_listed.2 hin)
    refine List.find?_eq_some_iff_append.2 ⟨by simpa using hbad, front, behind, he, fun x hx => ?_⟩
    have hprec : x.Precedes k :=
      (List.pairwise_append.1 (he ▸ listed_pairwise ss)).2.2 x hx k List.mem_cons_self
    have hmem : x ∈ listed ss := he ▸ List.mem_append_left _ hx
    simpa using fun hx => hfirst x (mem_listed.1 hmem) hx hprec
  · intro h
    obtain ⟨hbad, front, behind, he, hfront⟩ := List.find?_eq_some_iff_append.1 h
    refine ⟨mem_listed.1 (List.mem_of_find?_eq_some h), by simpa using hbad, fun x hx hxbad => ?_⟩
    have hmem := mem_listed.2 hx
    have hpair := List.pairwise_append.1 (he ▸ listed_pairwise ss)
    rw [he, List.mem_append, List.mem_cons] at hmem
    rcases hmem with hmem | rfl | hmem
    · exact absurd (by simpa using hfront x hmem) hxbad
    · exact fun hp => hp.asymm hp
    · exact ((List.pairwise_cons.1 hpair.2.1).1 x hmem).asymm

theorem First.unique (h : First ss excused k) (h' : First ss excused k') : k = k' := by
  classical
  exact Option.some.inj ((first_iff.1 h).symm.trans (first_iff.1 h'))

theorem In.exists_first (h : k.In ss) (hbad : ¬excused k.before) :
    ∃ k' : Token, k'.First ss excused := by
  classical
  simp only [first_iff, ← Option.isSome_iff_exists, List.find?_isSome]
  exact ⟨k, mem_listed.2 h, by simpa using hbad⟩

/-- The first of the tokens that are left is the first too if more is excused, but not it. -/
theorem First.mono {excused' : Text → Prop} (h : First ss excused k)
    (himp : ∀ t, excused t → excused' t) (hbad : ¬excused' k.before) : First ss excused' k :=
  ⟨h.stands, hbad, fun k' hin hbad' => h.first k' hin (mt (himp _) hbad')⟩

theorem findSome?_undefinedToken? (ss : List Text) : ss.findSome? undefinedToken? =
    ((listed ss).find? fun k => !introducesGroupName k.before).map Token.text := by
  conv_lhs => rw [← List.zipIdx_map_fst 0 ss, List.findSome?_map]
  rw [listed, List.find?_flatMap, List.map_findSome?]
  refine congrArg (List.findSome? · _) (funext fun x => ?_)
  simp only [Function.comp_apply, List.find?_map, Option.map_map, undefinedToken?]
  rfl

end Token

/-! ## Names of capture groups -/

/-- What can stand before the name of a capture group. -/
def groupSigils : List Text := ["(?P", "(?", "\\k"]

/-- The number of backslashes at the end of a text. -/
def backslashes (t : Text) : Nat := (t.rtakeWhile (· = '\\')).length

/-- A text ends in a sigil behind an even number of backslashes, so a token behind it is the name of
a capture group. -/
def NamesGroup (t : Text) : Prop :=
  ∃ sigil ∈ groupSigils, sigil <:+ t ∧ Even (backslashes (t.rdrop sigil.length))

/-- A text ends in what looks like a sigil, but an odd number of backslashes stands before it, so the
last of them escapes its first character. -/
def EscapesSigil (t : Text) : Prop :=
  ∃ sigil ∈ groupSigils, sigil <:+ t ∧ Odd (backslashes (t.rdrop sigil.length))

instance : DecidablePred NamesGroup := fun _ => inferInstanceAs (Decidable (∃ _ ∈ _, _))

instance : DecidablePred EscapesSigil := fun _ => inferInstanceAs (Decidable (∃ _ ∈ _, _))

/-- An escaped sigil passes for one. -/
theorem introducesGroupName_iff {t : Text} :
    introducesGroupName t = true ↔ NamesGroup t ∨ EscapesSigil t := by
  have hends : introducesGroupName t = true ↔ ∃ sigil ∈ groupSigils, sigil <:+ t := by
    simp [introducesGroupName, groupSigils, Text.endsWith, or_assoc]
  rw [hends, NamesGroup, EscapesSigil, ← exists_or]
  refine exists_congr fun sigil => ?_
  rw [← and_or_left, ← and_or_left]
  refine and_congr_right fun _ => ?_
  simp only [Nat.even_or_odd, and_true]

/-! ## Failing expansions -/

namespace Registry

variable {r : Registry} {pattern : Text} {ps : List Piece}

/-- An expansion fails with the first token that does not look like the name of a capture group. -/
theorem Scans.expand_eq_error_iff (h : r.Scans pattern ps) (hn : r.Named) {e : HideError} :
    r.expand pattern = .error e ↔
      ∃ k : Token, k.First (stretches ps) (introducesGroupName · = true) ∧
        e = .undefinedLabel k.text := by
  rw [h.expand_eq hn, Token.findSome?_undefinedToken?]
  simp only [Token.first_iff, decide_not, Bool.decide_eq_true]
  cases (Token.listed (stretches ps)).find? fun k => !introducesGroupName k.before with
  | none => simp
  | some k => simp [eq_comm]

/-- What an expansion should fail with is the first token that is not the name of a capture group. It
fails with the first token behind no sigil, escaped or not. These agree just if no escaped sigil
stands before the first, or the second looks the same. -/
theorem expand_undefined (r : Registry) (hn : r.Named) (pattern : Text) :
    ∃ ps, r.Scans pattern ps ∧
      (∀ e, r.expand pattern = .error e ↔
        ∃ k : Token, k.First (stretches ps) (fun t => NamesGroup t ∨ EscapesSigil t) ∧
          e = .undefinedLabel k.text) ∧
      ((∀ e, r.expand pattern = .error e ↔
          ∃ k : Token, k.First (stretches ps) NamesGroup ∧ e = .undefinedLabel k.text) ↔
        ∀ k : Token, k.First (stretches ps) NamesGroup → EscapesSigil k.before →
          ∃ k' : Token, k'.First (stretches ps) (fun t => NamesGroup t ∨ EscapesSigil t) ∧
            k'.text = k.text) := by
  obtain ⟨ps, hps⟩ := hn.exists_scans pattern
  have hfails : ∀ e, r.expand pattern = .error e ↔
      ∃ k : Token, k.First (stretches ps) (fun t => NamesGroup t ∨ EscapesSigil t) ∧
        e = .undefinedLabel k.text := fun e => by
    simpa only [introducesGroupName_iff] using hps.expand_eq_error_iff hn (e := e)
  refine ⟨ps, hps, hfails, ?_⟩
  simp only [hfails]
  constructor
  · intro hverdict k hk _
    obtain ⟨k', hk', he⟩ := (hverdict _).2 ⟨k, hk, rfl⟩
    exact ⟨k', hk', (HideError.undefinedLabel.inj he).symm⟩
  · intro hsame e
    -- the token that should be reported has the text of one that is
    have hboth : ∀ k : Token, k.First (stretches ps) NamesGroup →
        ∃ k' : Token, k'.First (stretches ps) (fun t => NamesGroup t ∨ EscapesSigil t) ∧
          k'.text = k.text := fun k hk => by
      by_cases hescaped : EscapesSigil k.before
      · exact hsame k hk hescaped
      · exact ⟨k, hk.mono (fun _ => .inl) (not_or.2 ⟨hk.unexcused, hescaped⟩), rfl⟩
    constructor
    · rintro ⟨k', hk', rfl⟩
      obtain ⟨k, hk⟩ := hk'.stands.exists_first (not_or.1 hk'.unexcused).1
      obtain ⟨k'', hk'', htext⟩ := hboth k hk
      exact ⟨k, hk, by rw [hk'.unique hk'', htext]⟩
    · rintro ⟨k, hk, rfl⟩
      obtain ⟨k', hk', htext⟩ := hboth k hk
      exact ⟨k', hk', by rw [htext]⟩

/-- The token behind an unescaped bracket is the name of a group, the one after it is reported. -/
theorem expand_undefined_secondToken :
    let r := empty ⟨'a', 'z'⟩
    r.Named ∧ r.expand "(?<a>)<b>" = .error (.undefinedLabel "<b>") ∧
      ∃ ps, r.Scans "(?<a>)<b>" ps ∧ ∃ k : Token,
        k.First (stretches ps) (fun t => NamesGroup t ∨ EscapesSigil t) ∧ k.text = "<b>" := by
  intro r
  have hn : r.Named := named_empty _
  have he : r.expand "(?<a>)<b>" = .error (.undefinedLabel "<b>") := by decide
  obtain ⟨ps, hps, hfails, -⟩ := expand_undefined r hn "(?<a>)<b>"
  obtain ⟨k, hk, htext⟩ := (hfails _).1 he
  exact ⟨hn, he, ps, hps, k, hk, (HideError.undefinedLabel.inj htext).symm⟩

/-- An escaped bracket excuses a token that names no group: the expansion should fail with the token
and gives the pattern back. -/
theorem not_expand_undefined :
    let r := empty ⟨'a', 'z'⟩
    let ps := ("\\(?<Foo>" : Text).map Piece.literal
    r.Named ∧ r.Scans "\\(?<Foo>" ps ∧ r.expand "\\(?<Foo>" = .ok "\\(?<Foo>" ∧
      ¬∀ e, r.expand "\\(?<Foo>" = .error e ↔
        ∃ k : Token, k.First (stretches ps) NamesGroup ∧ e = .undefinedLabel k.text := by
  intro r ps
  have he : r.expand "\\(?<Foo>" = .ok "\\(?<Foo>" := by decide
  have hk : Token.First (stretches ps) NamesGroup ⟨0, "\\(?", "<Foo>"⟩ :=
    Token.first_iff.2 (by decide)
  refine ⟨named_empty _, scans_empty _ _, he, fun hverdict => ?_⟩
  have hfails := (hverdict _).2 ⟨_, hk, rfl⟩
  rw [he] at hfails
  cases hfails

end Registry

end GlyphTree
