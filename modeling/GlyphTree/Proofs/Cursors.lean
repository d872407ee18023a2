import GlyphTree.Proofs.Lookup

/-!
# Iterations by name

A cursor says how many nodes an iteration has given, and each name has its own. So questions about
different names do not get in each other's way, however they are mixed (`queries_answered`). The cursor
counts on a list that is made anew each time: a loop that takes the name from each node it is given
passes over the node that moves up into its place (`Reached.renamingLoop_skips`).
-/

namespace GlyphTree

/-! ## Cursors -/

namespace Cursors

variable {c : Cursors} {name other : Text} {n : Nat}

theorem get_reset : (c.reset name).get name = 0 := by
  have hnone : (c.entries.filter (·.1 != name)).lookup name = none := by
    refine List.lookup_eq_none_iff.2 fun e he => ?_
    rw [bne_comm]
    exact (List.mem_filter.1 he).2
  rw [get, reset, hnone]
  rfl

theorem get_reset_of_ne (h : other ≠ name) : (c.reset name).get other = c.get other := by
  obtain ⟨entries⟩ := c
  rw [get, get, reset]
  congr 1
  induction entries with
  | nil => rfl
  | cons e entries ih =>
    obtain ⟨key, m⟩ := e
    by_cases hkey : key = name
    · rw [List.filter_cons_of_neg (by simpa using hkey), ih, List.lookup_cons, beq_false_of_ne]
      exact hkey ▸ h
    · rw [List.filter_cons_of_pos (by simpa using hkey), List.lookup_cons, List.lookup_cons, ih]

theorem get_set : (c.set name n).get name = n := by
  rw [get, set, List.lookup_cons_self]
  rfl

theorem get_set_of_ne (h : other ≠ name) : (c.set name n).get other = c.get other := by
  rw [← get_reset_of_ne (c := c) h, get, get, set, List.lookup_cons, beq_false_of_ne h]

end Cursors

/-- A question about the nodes with a name. -/
inductive Query where
  | next (name : Text)
  | restart (name : Text)
  | first (name : Text)
deriving DecidableEq, Repr

/-- The name that a question is about. -/
def Query.name : Query → Text
  | next name | restart name | first name => name

/-- Whether a question is for the first node. -/
def Query.isFirst : Query → Bool
  | first _ => true
  | _ => false

namespace Tree

variable {t t' t'' u u' : Tree} {n m name : Text} {x : NodeId} {ids ids' rest passed : List NodeId}
  {q : Query} {qs before after : List Query} {k : Nat}

/-! ## Questions -/

/-- What a question is answered, and the tree it leaves behind. A restart has no answer. -/
def ask (t : Tree) : Query → Option NodeId × Tree
  | .next name => t.getNode name
  | .restart name => (none, t.resetNode name)
  | .first name => (t.firstNode name, t)

/-- The tree that questions leave behind. -/
def asked (t : Tree) (qs : List Query) : Tree := qs.foldl (fun t q => (t.ask q).2) t

/-- Questions with their answers. -/
def answers (t : Tree) : List Query → List (Query × Option NodeId)
  | [] => []
  | q :: qs => (q, (t.ask q).1) :: (t.ask q).2.answers qs

theorem answers_append (t : Tree) (qs qs' : List Query) :
    t.answers (qs ++ qs') = t.answers qs ++ (t.asked qs).answers qs' := by
  induction qs generalizing t with
  | nil => rfl
  | cons q qs ih => exact congrArg _ (ih _)

theorem length_answers (t : Tree) (qs : List Query) : (t.answers qs).length = qs.length := by
  induction qs generalizing t with
  | nil => rfl
  | cons q qs ih => exact congrArg (· + 1) (ih _)

/-! ## One question -/

theorem getNode_of_cons (h : (t.named n).drop (t.cursors.get n) = x :: rest) :
    t.getNode n = (some x, { t with cursors := t.cursors.set n (t.cursors.get n + 1) }) := by
  have hx : (t.named n)[t.cursors.get n]? = some x := by
    rw [← List.head?_drop, h]
    rfl
  rw [getNode, hx]

theorem getNode_of_nil (h : (t.named n).drop (t.cursors.get n) = []) :
    t.getNode n = (none, t.resetNode n) := by
  have hx : (t.named n)[t.cursors.get n]? = none := by
    rw [← List.head?_drop, h]
    rfl
  rw [getNode, hx]
  rfl

/-- Trees that only cursors may tell apart. -/
def CursorsOnly (t t' : Tree) : Prop := t' = { t with cursors := t'.cursors }

theorem CursorsOnly.named (h : CursorsOnly t t') (name : Text) : t'.named name = t.named name := by
  rw [h]
  rfl

theorem CursorsOnly.trans (h : CursorsOnly t t') (h' : CursorsOnly t' t'') : CursorsOnly t t'' := by
  rw [CursorsOnly, h', h]

theorem cursorsOnly_ask (t : Tree) (q : Query) : CursorsOnly t (t.ask q).2 := by
  cases q with
  | next name =>
    rw [ask, getNode]
    split <;> rfl
  | restart | first => rfl

theorem cursorsOnly_asked (t : Tree) (qs : List Query) : CursorsOnly t (t.asked qs) := by
  induction qs generalizing t with
  | nil => rfl
  | cons q qs ih => exact (cursorsOnly_ask t q).trans (ih _)

/-- A question about a name moves no other cursor, and one for the first node moves none. -/
theorem cursor_ask_of_ne (h : q.name ≠ name ∨ q.isFirst = true) :
    (t.ask q).2.cursors.get name = t.cursors.get name := by
  cases q with
  | next other =>
    have hne : name ≠ other := (h.resolve_right Bool.false_ne_true).symm
    rw [ask, getNode]
    split
    · exact Cursors.get_set_of_ne hne
    · exact Cursors.get_reset_of_ne hne
  | restart other => exact Cursors.get_reset_of_ne (h.resolve_right Bool.false_ne_true).symm
  | first => rfl

/-- The answer to a question depends on what its name finds and on its cursor only, and so does where the
cursor is then. -/
theorem ask_congr (hq : q.name = name) (hnamed : t'.named name = t.named name)
    (hcursor : t'.cursors.get name = t.cursors.get name) :
    (t'.ask q).1 = (t.ask q).1 ∧
      (t'.ask q).2.cursors.get name = (t.ask q).2.cursors.get name := by
  subst hq
  cases q with
  | next name =>
    change t'.named name = t.named name at hnamed
    change t'.cursors.get name = t.cursors.get name at hcursor
    cases hx : (t.named name).drop (t.cursors.get name) with
    | nil =>
      rw [ask, ask, getNode_of_nil hx, getNode_of_nil (by rw [hnamed, hcursor, hx])]
      exact ⟨rfl, Cursors.get_reset.trans Cursors.get_reset.symm⟩
    | cons x rest =>
      rw [ask, ask, getNode_of_cons hx, getNode_of_cons (by rw [hnamed, hcursor, hx]), hcursor]
      exact ⟨rfl, Cursors.get_set.trans Cursors.get_set.symm⟩
  | restart name => exact ⟨rfl, Cursors.get_reset.trans Cursors.get_reset.symm⟩
  | first name => exact ⟨congrArg List.head? hnamed, hcursor⟩

/-! ## Questions of one kind among others -/

/-- Questions that move no cursor of the others may be left out, and the others have the same
answers. -/
theorem filter_answers (keep : Query → Bool)
    (hout : ∀ q, keep q = false → ∀ q', keep q' = true → ∀ t : Tree,
      (t.ask q).2.cursors.get q'.name = t.cursors.get q'.name)
    (qs : List Query) (hnamed : ∀ name, t'.named name = t.named name)
    (hcursor : ∀ q, keep q = true → t'.cursors.get q.name = t.cursors.get q.name) :
    (t'.answers qs).filter (fun e => keep e.1) = t.answers (qs.filter keep) := by
  induction qs generalizing t t' with
  | nil => rfl
  | cons q qs ih =>
    cases hq : keep q with
    | false =>
      rw [answers, List.filter_cons_of_neg (by simp [hq]), List.filter_cons_of_neg (by simp [hq])]
      exact ih (fun name => ((cursorsOnly_ask t' q).named name).trans (hnamed name))
        fun q' hq' => (hout q hq q' hq' t').trans (hcursor q' hq')
    | true =>
      obtain ⟨hanswer, hmoved⟩ := ask_congr rfl (hnamed q.name) (hcursor q hq)
      rw [answers, List.filter_cons_of_pos hq, answers, List.filter_cons_of_pos (by exact hq),
        hanswer]
      refine congrArg _ (ih (fun name => ?_) fun q' hq' => ?_)
      · rw [(cursorsOnly_ask t' q).named, (cursorsOnly_ask t q).named, hnamed]
      · by_cases hname : q.name = q'.name
        · rw [← hname]
          exact hmoved
        · rw [cursor_ask_of_ne (.inl hname), cursor_ask_of_ne (.inl hname), hcursor q' hq']

/-! ## Rounds -/

/-- The first answers of an iteration that gives all nodes and then none, time and again. -/
def rounds (ids : List NodeId) (count : Nat) : List (Option NodeId) :=
  (List.replicate count (ids.map some ++ [none])).flatten.take count

/-- The nodes that an iteration has given, with its ends. -/
def given (name : Text) (log : List (Query × Option NodeId)) : List (Option NodeId) :=
  (log.filter fun e => e.1 = .next name).map Prod.snd

@[simp] theorem given_next (n : Text) (answer : Option NodeId) (log : List (Query × Option NodeId)) :
    given n ((Query.next n, answer) :: log) = answer :: given n log := by
  simp [given]

theorem given_of_ne (hq : q ≠ .next n) (answer : Option NodeId) (log : List (Query × Option NodeId)) :
    given n ((q, answer) :: log) = given n log := by
  simp [given, hq]

/-- An iteration goes on from where its cursor is, and after an end from the start. -/
theorem given_answers (hrestart : Query.restart n ∉ qs)
    (hcount : qs.count (Query.next n) ≤ k + 1) :
    given n (t.answers qs) =
      (((t.named n).drop (t.cursors.get n)).map some ++
        none :: (List.replicate k ((t.named n).map some ++ [none])).flatten).take
        (qs.count (Query.next n)) := by
  induction qs generalizing t k with
  | nil => rfl
  | cons q qs ih =>
    obtain ⟨hq, hqs⟩ := not_or.1 (List.mem_cons.not.1 hrestart)
    have hnamed := (cursorsOnly_ask t q).named n
    rw [answers]
    by_cases hnext : q = .next n
    · subst hnext
      rw [List.count_cons_self] at hcount ⊢
      rw [given_next]
      cases hx : (t.named n).drop (t.cursors.get n) with
      | cons x rest =>
        have hrest : (t.named n).drop (t.cursors.get n + 1) = rest := by
          rw [← List.tail_drop, hx]
          rfl
        rw [ih hqs (Nat.le_of_succ_le hcount), hnamed, ask, getNode_of_cons hx]
        dsimp only
        rw [Cursors.get_set, hrest]
        rfl
      | nil =>
        refine List.cons_eq_cons.2 ⟨by rw [ask, getNode_of_nil hx], ?_⟩
        -- the end takes up one round, if there is to be another answer
        cases k with
        | zero =>
          rw [ih (k := 0) hqs (by omega), Nat.le_zero.1 (Nat.le_of_succ_le_succ hcount)]
          rfl
        | succ k =>
          rw [ih hqs (Nat.le_of_succ_le_succ hcount), hnamed, ask, getNode_of_nil hx]
          dsimp only [resetNode]
          rw [Cursors.get_reset, List.replicate_succ, List.flatten_cons, List.append_assoc]
          rfl
    · rw [List.count_cons_of_ne hnext] at hcount ⊢
      have hstays : (t.ask q).2.cursors.get n = t.cursors.get n := by
        refine cursor_ask_of_ne ?_
        cases q with
        | next name => exact .inl fun e => hnext (congrArg _ e)
        | restart name => exact .inl fun e => hq (congrArg _ e.symm)
        | first name => exact .inr rfl
      rw [given_of_ne hnext, ih hqs hcount, hnamed, hstays]

theorem given_answers_of_zero (hrestart : Query.restart n ∉ qs) (hcursor : t.cursors.get n = 0) :
    given n (t.answers qs) = rounds (t.named n) (qs.count (Query.next n)) := by
  rw [rounds]
  cases hcount : qs.count (Query.next n) with
  | zero =>
    rw [given_answers (k := 0) hrestart (by omega), hcount]
    rfl
  | succ k =>
    rw [given_answers hrestart hcount.le, hcursor, hcount, List.replicate_succ, List.flatten_cons,
      List.append_assoc]
    rfl

/-- Whether an iteration is at its start after questions: none have been asked yet, or it has been put
back there, or it has just come to its end. -/
inductive Anew (t : Tree) (name : Text) : List Query → Prop
  | unset : t.cursors.get name = 0 → Anew t name []
  | restarted {qs : List Query} : Anew t name (qs ++ [.restart name])
  | ended {qs : List Query} : ((t.asked qs).ask (.next name)).1 = none →
    Anew t name (qs ++ [.next name])

theorem asked_concat (t : Tree) (qs : List Query) (q : Query) :
    t.asked (qs ++ [q]) = ((t.asked qs).ask q).2 := by
  rw [asked, List.foldl_append]
  rfl

theorem Anew.cursor (h : Anew t name qs) : (t.asked qs).cursors.get name = 0 := by
  cases h with
  | unset h => exact h
  | restarted =>
    rw [asked_concat]
    exact Cursors.get_reset
  | @ended qs h =>
    rw [asked_concat]
    cases hx : ((t.asked qs).named name).drop ((t.asked qs).cursors.get name) with
    | nil =>
      rw [ask, getNode_of_nil hx]
      exact Cursors.get_reset
    | cons x rest =>
      rw [ask, getNode_of_cons hx] at h
      cases h

/-- What questions do to a tree, and what they are answered. -/
structure Answered (t : Tree) (qs : List Query) : Prop where
  /-- Nothing changes but the cursors. -/
  kept : CursorsOnly t (t.asked qs)
  /-- The first node is the one that is found first. -/
  first : ∀ name answer, (Query.first name, answer) ∈ t.answers qs → answer = (t.named name).head?
  /-- All other questions are answered as they are without those for first nodes. -/
  unmoved : (t.answers qs).filter (fun e => !e.1.isFirst) = t.answers (qs.filter fun q => !q.isFirst)
  /-- The questions about a name are answered as they are without all the others. -/
  apart : ∀ name, (t.answers qs).filter (fun e => e.1.name = name) =
    t.answers (qs.filter fun q => q.name = name)
  /-- From its start an iteration gives all nodes with the name in order, then none, and so on. -/
  rounds : ∀ name before after, qs = before ++ after → Anew t name before → Query.restart name ∉ after →
    given name ((t.answers qs).drop before.length) = rounds (t.named name) (after.count (.next name))

/-- However questions are mixed, those about one name are answered as if there were no others, and
nothing but cursors changes. -/
theorem queries_answered (t : Tree) (qs : List Query) : Answered t qs := by
  refine ⟨cursorsOnly_asked t qs, fun name answer hmem => ?_, ?_, fun name => ?_,
    fun name before after hqs hanew hrestart => ?_⟩
  · induction qs generalizing t with
    | nil => cases hmem
    | cons q qs ih =>
      rcases List.mem_cons.1 hmem with heq | hmem
      · obtain ⟨rfl, rfl⟩ := Prod.mk.inj heq
        rfl
      · rw [ih _ hmem, (cursorsOnly_ask t q).named]
  · refine filter_answers (fun q => !q.isFirst) (fun q hq q' _ t => cursor_ask_of_ne (.inr ?_)) qs
      (fun _ => rfl) fun _ _ => rfl
    simpa using hq
  · refine filter_answers (fun q => q.name = name) (fun q hq q' hq' t =>
      cursor_ask_of_ne (.inl fun e => ?_)) qs (fun _ => rfl) fun _ _ => rfl
    exact of_decide_eq_false hq (e.trans (of_decide_eq_true hq'))
  · subst hqs
    rw [answers_append, List.drop_left' (length_answers t before),
      given_answers_of_zero hrestart hanew.cursor, (cursorsOnly_asked t before).named]

/-- Two parts of a text, hidden under the same name. -/
def bothHidden : Tree := (ofText ['x', 'x']).after [.hideAll ['n'] ['x'] ['#'] ['*']]

/-- Questions about two names, one of which no node has. -/
theorem queries_answered_mixed :
    let qs : List Query := [.next ['n'], .next ['m'], .first ['n'], .next ['n'], .restart ['m'],
      .next ['n'], .next ['m'], .next ['n']]
    bothHidden.named ['n'] = [1, 2] ∧ Answered bothHidden qs ∧
      given ['n'] (bothHidden.answers qs) = [some 1, some 2, none, some 1] := by
  have hnamed : bothHidden.named ['n'] = [1, 2] := by cbv
  have hanswered := queries_answered bothHidden [.next ['n'], .next ['m'], .first ['n'],
    .next ['n'], .restart ['m'], .next ['n'], .next ['m'], .next ['n']]
  refine ⟨hnamed, hanswered, (hanswered.rounds ['n'] [] _ rfl (.unset (by cbv)) (by decide)).trans ?_⟩
  rw [hnamed]
  rfl

/-! ## A loop that renames -/

/-- A loop that takes node after node with the name `n`, until there is none, and gives each of them
the name `m`: it is given `ids`, and leaves `t'` behind. -/
inductive RenamingLoop (n m : Text) : Tree → List NodeId → Tree → Prop
  | done {t t' : Tree} : t.getNode n = (none, t') → RenamingLoop n m t [] t'
  | next {t u t' : Tree} {x : NodeId} {ids : List NodeId} : t.getNode n = (some x, u) →
    (u.renameNode x m).result = .ok () → RenamingLoop n m (u.renameNode x m).tree ids t' →
    RenamingLoop n m t (x :: ids) t'

/-- The first of a list, the third, and so on. -/
def everyOther : List NodeId → List NodeId
  | [] => []
  | [x] => [x]
  | x :: _ :: l => x :: everyOther l

theorem everyOther_cons (x : NodeId) (l : List NodeId) :
    everyOther (x :: l) = x :: everyOther l.tail := by
  cases l <;> rfl

theorem everyOther_sublist (l : List NodeId) : (everyOther l).Sublist l := by
  induction l using everyOther.induct with
  | case1 => exact .slnil
  | case2 x => exact .refl _
  | case3 x y l ih => exact (ih.cons y).cons_cons x

theorem everyOther_eq_self {l : List NodeId} : everyOther l = l ↔ l.length ≤ 1 := by
  cases l with
  | nil => exact ⟨fun _ => Nat.zero_le 1, fun _ => rfl⟩
  | cons x l =>
    cases l with
    | nil => exact ⟨fun _ => le_rfl, fun _ => rfl⟩
    | cons y l =>
      refine ⟨fun h => ?_, fun h => absurd h (by simp)⟩
      have hlength := (everyOther_sublist l).length_le
      have := congrArg List.length h
      simp only [everyOther, List.length_cons] at this
      omega

theorem RenamingLoop.unique (h : RenamingLoop n m t ids u) (h' : RenamingLoop n m t ids' u') :
    ids = ids' ∧ u = u' := by
  induction h generalizing ids' with
  | done hget =>
    cases h' with
    | done hget' => exact ⟨rfl, (Prod.mk.inj (hget.symm.trans hget')).2⟩
    | next hget' => cases (Prod.mk.inj (hget.symm.trans hget')).1
  | next hget _ _ ih =>
    cases h' with
    | done hget' => cases (Prod.mk.inj (hget.symm.trans hget')).1
    | next hget' _ hloop =>
      obtain ⟨hx, rfl⟩ := Prod.mk.inj (hget.symm.trans hget')
      obtain rfl := Option.some.inj hx
      exact (ih hloop).imp_left (congrArg _)

/-- One turn of the loop: the next node is given and renamed, and those behind it move up by one
place. -/
theorem Reached.turn (h : Reached t) (hne : n ≠ m) (hnamed : t.named n = passed ++ x :: rest)
    (hcursor : t.cursors.get n = passed.length) : ∃ u, Reached u ∧
      (∀ {ids t'}, RenamingLoop n m u ids t' → RenamingLoop n m t (x :: ids) t') ∧
      u.named n = passed ++ rest ∧ u.cursors.get n = passed.length + 1 ∧
      ∀ j, u.node j = if j = x then { t.node j with name := m } else t.node j := by
  have hdrop : (t.named n).drop (t.cursors.get n) = x :: rest := by
    rw [hnamed, hcursor, List.drop_left]
  have hget := getNode_of_cons hdrop
  have hmem : x ∈ t.named n := hnamed ▸ List.mem_append_right _ List.mem_cons_self
  have hx : x < t.size := h.tied.lt_of_mem_documentOrder (List.mem_filter.1 hmem).1
  have h₁ : Reached (t.getNode n).2 := h.step (c := .getNode n)
  rw [hget] at h₁
  have hnodup := (h.finds n).once
  rw [hnamed] at hnodup
  obtain ⟨-, hnodup', hapart⟩ := List.nodup_append.1 hnodup
  refine ⟨_, h₁.rename hx m, fun hloop => .next hget ?_ ?_, ?_, ?_, fun j => ?_⟩
  · rw [renameNode, if_pos (by exact hx)]
    rfl
  · rw [renameNode, if_pos (by exact hx)]
    exact hloop
  · rw [h₁.named_rename hx hne]
    change (t.named n).filter _ = _
    rw [hnamed, List.filter_append, List.filter_cons_of_neg (by simp), List.filter_eq_self.2,
      List.filter_eq_self.2]
    · exact fun y hy => decide_eq_true fun e => (List.nodup_cons.1 hnodup').1 (e ▸ hy)
    · exact fun y hy => decide_eq_true fun e => hapart y hy x List.mem_cons_self e
  · refine (congrArg (fun a => Cursors.get a.cursors n) (aside_rename _ x m)).trans ?_
    exact Cursors.get_set.trans (congrArg _ hcursor)
  · rw [node_rename]
    refine ite_congr (propext ⟨And.left, fun hj => ⟨hj, ?_⟩⟩) (fun _ => rfl) fun _ => rfl
    exact hj ▸ hx

/-- The loop is given every other node of those behind its cursor. -/
theorem Reached.exists_renamingLoop (h : Reached t) (hne : n ≠ m) (hnamed : t.named n = passed ++ rest)
    (hcursor : t.cursors.get n = passed.length) : ∃ t', RenamingLoop n m t (everyOther rest) t' ∧
      t'.named n = passed ++ everyOther rest.tail ∧ t'.cursors.get n = 0 ∧
      ∀ j, t'.node j = if j ∈ everyOther rest then { t.node j with name := m } else t.node j := by
  have hend : ∀ {t : Tree}, (t.named n).length ≤ t.cursors.get n →
      RenamingLoop n m t [] (t.resetNode n) := fun hle =>
    .done (getNode_of_nil (List.drop_eq_nil_of_le hle))
  induction rest using everyOther.induct generalizing t passed with
  | case1 =>
    refine ⟨_, hend (by simp [hnamed, hcursor]), hnamed, Cursors.get_reset, fun j => ?_⟩
    rw [everyOther, if_neg List.not_mem_nil]
    rfl
  | case2 x =>
    obtain ⟨u, -, hloop, hnamed', hcursor', hnode⟩ := h.turn hne hnamed hcursor
    refine ⟨_, hloop (hend (by simp [hnamed', hcursor'])), hnamed', Cursors.get_reset, fun j => ?_⟩
    simp only [everyOther, List.mem_singleton]
    exact hnode j
  | case3 x y l ih =>
    -- the node behind moves up into the place that the cursor has just left
    obtain ⟨u, hu, hloop, hnamed', hcursor', hnode⟩ := h.turn hne hnamed hcursor
    have hpassed : u.named n = (passed ++ [y]) ++ l := by
      rw [hnamed', List.append_assoc]
      rfl
    obtain ⟨t', hrest, hnamed'', hcursor'', hnode'⟩ := ih hu hpassed (by simpa using hcursor')
    refine ⟨t', hloop hrest, ?_, hcursor'', fun j => ?_⟩
    · rw [hnamed'', List.append_assoc, List.tail_cons, everyOther_cons]
      rfl
    · rw [hnode', hnode]
      by_cases hj : j = x
      · simp only [everyOther, List.mem_cons, hj, true_or, if_true]
        split <;> rfl
      · simp only [everyOther, List.mem_cons, hj, false_or, if_false]

/-- A loop that takes the name from each node it is given comes to an end, but it is given only every
other node with that name, and leaves the rest as they are. -/
theorem Reached.renamingLoop_skips (h : Reached t) (hne : n ≠ m) (hcursor : t.cursors.get n = 0) :
    ∃ t', (∀ ids u, RenamingLoop n m t ids u ↔ ids = everyOther (t.named n) ∧ u = t') ∧
      t'.named n = everyOther (t.named n).tail ∧ t'.cursors.get n = 0 ∧
      (∀ x, t'.node x =
        if x ∈ everyOther (t.named n) then { t.node x with name := m } else t.node x) ∧
      (everyOther (t.named n) = t.named n ↔ (t.named n).length ≤ 1) := by
  obtain ⟨t', hloop, hnamed, hcursor', hnode⟩ :=
    h.exists_renamingLoop hne (List.nil_append _).symm hcursor
  refine ⟨t', fun ids u => ⟨fun hu => hu.unique hloop, ?_⟩, hnamed, hcursor', hnode,
    everyOther_eq_self⟩
  rintro ⟨rfl, rfl⟩
  exact hloop

theorem reachable_bothHidden : Reachable bothHidden := by
  have hsolid : (ofText ['x', 'x']).SolidMatches ['n'] ['x'] ['#'] ['*'] :=
    of_decide_eq_true (by cbv)
  exact (Reachable.initial (.ofText _ _)).after ⟨hsolid, trivial⟩

/-- Of two nodes one is left. -/
theorem renamingLoop_skips_second : Reached bothHidden ∧ bothHidden.cursors.get ['n'] = 0 ∧
    ∃ t', (∀ ids u, RenamingLoop ['n'] ['m'] bothHidden ids u ↔
        ids = everyOther (bothHidden.named ['n']) ∧ u = t') ∧
      t'.named ['n'] = everyOther (bothHidden.named ['n']).tail ∧ t'.cursors.get ['n'] = 0 ∧
      (∀ x, t'.node x = if x ∈ everyOther (bothHidden.named ['n']) then
        { bothHidden.node x with name := ['m'] } else bothHidden.node x) ∧
      (everyOther (bothHidden.named ['n']) = bothHidden.named ['n'] ↔
        (bothHidden.named ['n']).length ≤ 1) :=
  have hcursor : bothHidden.cursors.get ['n'] = 0 := by cbv
  ⟨reachable_bothHidden.reached, hcursor,
    Reached.renamingLoop_skips reachable_bothHidden.reached (by decide) hcursor⟩

/-- Such a loop is not given every node that had the name at the start. -/
theorem not_renamingLoop_complete : ¬ ∀ (t : Tree) (n m : Text), Reachable t → n ≠ m →
    t.cursors.get n = 0 → ∃ t', RenamingLoop n m t (t.named n) t' := by
  intro hall
  have hnamed : bothHidden.named ['n'] = [1, 2] := by cbv
  obtain ⟨u, hu⟩ := hall bothHidden ['n'] ['m'] reachable_bothHidden (by decide) (by cbv)
  obtain ⟨t', ht', -⟩ := reachable_bothHidden.reached.exists_renamingLoop (n := ['n']) (m := ['m'])
    (by decide) (List.nil_append _).symm (by cbv)
  have hids := (hu.unique ht').1
  rw [hnamed] at hids
  cases hids

end Tree

end GlyphTree
