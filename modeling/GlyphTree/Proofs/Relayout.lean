import GlyphTree.Proofs.Atoms

/-!
# Layouts under moves

How a node is laid out after each of the moves on which the changes of a tree are built: its text is
patched, a child is put on a character or around a stretch of its cells, or children come over from
another text. A node is laid out as before if nothing it is made of has changed (`Layout.frame`).
-/

namespace GlyphTree.Tree

open Cells Patch

variable {t t' : Tree} {p q : NodeId} {o : Nat} {cs ds z : Cells} {ps : List Patch}

theorem Layout.frame (h : Layout t q cs) (hlt : q < t'.size)
    (ht : (t'.node q).text = (t.node q).text) (hc : t'.children q = t.children q)
    (hk : ∀ id ∈ t.children q, (t'.node id).place = (t.node id).place ∧
      (t'.node id).fold = (t.node id).fold) : Layout t' q cs where
  lt := hlt
  text := ht.trans h.text
  children := hc.trans h.children
  fits := h.fits.congr fun id hid => hk id (h.children ▸ h.nested.mem_ids.1 hid)
  nested := h.nested
  irrefl := h.irrefl

/-- A change to a node that is neither `q` nor a child of `q`. -/
theorem Layout.modify {id : NodeId} (h : Layout t q cs) (hq : q ≠ id) (hid : id ∉ t.children q)
    (f : Node → Node) : Layout (t.modify id f) q cs := by
  have hsame : ∀ j, j ≠ id → (t.modify id f).node j = t.node j := by
    intro j hj
    rw [node_modify, if_neg fun e => hj e.1]
  refine h.frame (by simpa using h.lt) (by rw [hsame q hq]) (by rw [Tree.children, hsame q hq]; rfl)
    fun i hi => ?_
  rw [hsame i fun e => hid (e ▸ hi)]
  exact ⟨rfl, rfl⟩

/-! ## Patching -/

theorem node_collapse {ks : List NodeId} {es : List Edit} {j : NodeId} (he : es ≠ [])
    (hp : p < t.size) (hks : ks.Nodup) (hlt : ∀ k ∈ ks, k < t.size) (hself : p ∉ ks) :
    ((t.setChildren p ks).rewrite p es).node j =
      if j = p then edited es { t.node p with children := ks }
      else if j ∈ ks then followEdits es (t.node j)
      else t.node j := by
  have hc : (t.setChildren p ks).children p = ks := by
    rw [children, node_setChildren _ hp, if_pos rfl]
  rw [node_rewrite he (by simpa using hp) (by rwa [hc]) (by simpa [hc] using hlt) (by rwa [hc]),
    hc, node_setChildren _ hp, node_setChildren _ hp]
  by_cases hj : j = p
  · simp [hj]
  · simp [hj]

/-- The children that patches keep are where they are marked afterwards. -/
theorem Fits.after {n : Nat} (es : List Edit) (h : t.Fits p o (before ps z))
    (hs : ∀ i, o ≤ i → remapStart i es = remapStartFrom i ((n : Int) - o) (edits o ps))
    (he : ∀ i, o < i → remapEnd i es = remapEndFrom i ((n : Int) - o) (edits o ps))
    (hnew : ∀ x ∈ ps, x.new = plain x.new.text)
    (hid : ∀ id ∈ ids (after ps z), ∀ s, (t.node id).place = some ⟨p, s⟩ →
      (t'.node id).place = some ⟨p, ⟨remapStart s.start es, remapEnd s.stop es⟩⟩ ∧
      (t'.node id).fold = (t.node id).fold) : t'.Fits p n (after ps z) := by
  induction ps generalizing o n with
  | nil =>
    refine h.move (remapStart · es) (remapEnd · es) (fun i h1 _ => ?_) (fun i h1 _ => ?_) hid
    · rw [hs i h1, remapStartFrom_nil h1]
    · rw [he i h1, remapEndFrom_nil (Nat.le_of_lt h1)]
  | cons x ps ih =>
    obtain ⟨hk, hr⟩ := fits_append.1 h
    obtain ⟨hk, -⟩ := fits_append.1 hk
    simp only [after, ids_append, List.mem_append] at hid
    refine fits_append.2 ⟨fits_append.2 ⟨?_, ?_⟩, ?_⟩
    · refine hk.move (remapStart · es) (remapEnd · es) (fun i h1 h2 => ?_) (fun i h1 h2 => ?_)
        fun id h1 => hid id (.inl (.inl h1))
      · rw [hs i h1, remapStartFrom_kept h1 h2]
      · rw [he i h1, remapEndFrom_kept (Nat.le_of_lt h1) h2]
    · rw [hnew x List.mem_cons_self]
      exact fits_plain _
    · rw [size_append, ← Nat.add_assoc] at hr ⊢
      refine ih hr (fun i h1 => ?_) (fun i h1 => ?_)
        (fun y hy => hnew y (List.mem_cons_of_mem _ hy)) fun id h1 => hid id (.inr h1)
      · rw [hs i (by omega), remapStartFrom_skip h1]
      · rw [he i (by omega), remapEndFrom_skip (Nat.le_of_lt h1) (by omega)]

section
variable (h : Layout t p (before ps z)) (hps : ps ≠ []) (hc : ∀ x ∈ ps, Closed x.gone)
  (hnew : ∀ x ∈ ps, x.new = plain x.new.text)
include h hps hc hnew

theorem Layout.node_patched (j : NodeId) :
    ((t.setChildren p (starts (after ps z))).rewrite p (edits 0 ps)).node j =
      if j = p then edited (edits 0 ps) { t.node p with children := starts (after ps z) }
      else if j ∈ starts (after ps z) then followEdits (edits 0 ps) (t.node j)
      else t.node j := by
  have hsub := starts_after_sublist (z := z) hnew
  exact node_collapse (mt edits_eq_nil.1 hps) h.lt (nested_after (d := []) h.nested hc hnew).1.nodup
    (fun k hk => h.lt_size (h.children ▸ hsub.subset hk)) fun hp => h.irrefl (hsub.subset hp)

/-- Patches that take both markers of a child or none, made with the children that stay. -/
theorem Layout.collapse :
    Layout ((t.setChildren p (starts (after ps z))).rewrite p (edits 0 ps)) p (after ps z) := by
  have hsub := starts_after_sublist (z := z) hnew
  have hn : Nested (after ps z) := (nested_after (d := []) h.nested hc hnew).1
  have hself : p ∉ starts (after ps z) := fun hp => h.irrefl (hsub.subset hp)
  have hnode := h.node_patched hps hc hnew
  refine ⟨by simpa using h.lt, ?_, ?_, ?_, hn, hself⟩
  · rw [hnode, if_pos rfl]
    simp only [edited, Node.mapGroups, h.text]
    exact applyEdits_edits ps z
  · rw [Tree.children, hnode, if_pos rfl]
    rfl
  · refine h.fits.after (n := 0) (edits 0 ps) (fun i _ => by simp [remapStart])
      (fun i _ => by simp [remapEnd]) hnew fun id hid s hs => ?_
    have hid := hn.mem_ids.1 hid
    have hreg := h.fits.region h.nested (hsub.subset hid)
    have hne : id ≠ p := fun e => hself (e ▸ hid)
    simp only [startOf, stopOf, Node.span, hs, Option.map_some, Option.getD_some] at hreg
    rw [hnode, if_neg hne, if_pos hid]
    refine ⟨?_, followEdits_fold _ _⟩
    rw [followEdits_place, hs, Option.map_some, ← remapSpan_stop hreg.2.1 ps]
    rfl

end

/-! ## Putting a child -/

section
variable {a b c : Cells} {g : Char} {id : NodeId}

theorem node_put (h : Layout t p (a ++ ⟨g, none⟩ :: c)) (hlt : id < t.size) (hne : id ≠ p)
    (hid : id ∉ t.children p) (stop : Nat) (j : NodeId) :
    (t.putChild p id ⟨a.size, stop⟩).node j =
      if j = id then { t.node id with place := some ⟨p, ⟨a.size, stop⟩⟩ }
      else if j = p then { t.node p with children := starts a ++ id :: starts c }
      else t.node j := by
  obtain ⟨hfa, hfc⟩ := fits_append.1 h.fits
  have hc : t.children p = starts a ++ starts c := by simpa using h.children
  rw [hc, List.mem_append, not_or] at hid
  refine node_putChild h.lt hlt hne hc hid.1 hid.2 (fun k hk => ?_) (fun k hk => ?_)
  · have := hfa.startOf hk
    simp only
    omega
  · have := (fits_none.1 hfc).startOf hk
    have hw := g.utf8Size_pos
    simp only
    omega

/-- A literal character becomes the glyph of a child. -/
theorem Layout.put (h : Layout t p (a ++ ⟨g, none⟩ :: c)) (hlt : id < t.size) (hne : id ≠ p)
    (hid : id ∉ t.children p) (hf : (t.node id).fold = none) :
    Layout (t.putChild p id ⟨a.size, a.size + g.utf8Size⟩) p
      (a ++ ⟨g, some (.glyph id)⟩ :: c) := by
  have hnode := node_put h hlt hne hid (a.size + g.utf8Size)
  obtain ⟨hfa, hfc⟩ := fits_append.1 h.fits
  have hfc := fits_none.1 hfc
  have hid := h.children ▸ hid
  have hn := h.nested.mark hid
  have hother : ∀ i ∈ ids a ++ ids c, i ≠ id := by
    rintro i hi rfl
    exact hid (h.nested.mem_ids.1 (by simpa using hi))
  have hsame : ∀ i, i ≠ id → ((t.putChild p id ⟨a.size, a.size + g.utf8Size⟩).node i).place =
      (t.node i).place ∧
      ((t.putChild p id ⟨a.size, a.size + g.utf8Size⟩).node i).fold = (t.node i).fold := by
    intro i hi
    rw [hnode, if_neg hi]
    split
    · rename_i hip
      simp [hip]
    · exact ⟨rfl, rfl⟩
  refine ⟨by simpa using h.lt, ?_, ?_, ?_, hn, ?_⟩
  · rw [hnode, if_neg (Ne.symm hne), if_pos rfl]
    simpa using h.text
  · rw [Tree.children, hnode, if_neg (Ne.symm hne), if_pos rfl]
    simp
  · refine fits_append.2 ⟨?_, fits_some.2 ⟨?_, ?_⟩⟩
    · exact hfa.congr fun i hi => hsame i (hother i (by simp [hi]))
    · simp [Stands, hnode, hf]
    · exact hfc.congr fun i hi => hsame i (hother i (by simp [hi]))
  · have := h.irrefl
    simp only [starts_append, starts_none, starts_glyph, List.mem_append, List.mem_cons] at this ⊢
    simp [this, Ne.symm hne]

/-- A closed stretch between two literal characters becomes the region of an unfolded child. -/
theorem Layout.enclose {f : Fold}
    (h : Layout t p (a ++ ⟨f.opening, none⟩ :: b ++ ⟨f.closing, none⟩ :: c)) (hb : Closed b)
    (hlt : id < t.size) (hne : id ≠ p) (hid : id ∉ t.children p)
    (hf : (t.node id).fold = some f) :
    Layout (t.putChild p id
        ⟨a.size, a.size + f.opening.utf8Size + b.size + f.closing.utf8Size⟩) p
      (a ++ ⟨f.opening, some (.opening id)⟩ :: b ++ ⟨f.closing, some (.closing id)⟩ :: c) := by
  generalize hstop : a.size + f.opening.utf8Size + b.size + f.closing.utf8Size = stop
  have h' : Layout t p (a ++ ⟨f.opening, none⟩ :: (b ++ ⟨f.closing, none⟩ :: c)) := by
    simpa using h
  have hnode := node_put h' hlt hne hid stop
  obtain ⟨hfa, hfo⟩ := fits_append.1 h'.fits
  obtain ⟨hfb, hfc⟩ := fits_append.1 (fits_none.1 hfo)
  have hfc := fits_none.1 hfc
  have hid := h.children ▸ hid
  have hn := h.nested.enclose hb hid
  have hother : ∀ i ∈ ids a ++ ids b ++ ids c, i ≠ id := by
    rintro i hi rfl
    exact hid (h.nested.mem_ids.1 (by simpa using hi))
  have hsame : ∀ i, i ≠ id →
      ((t.putChild p id ⟨a.size, stop⟩).node i).place = (t.node i).place ∧
      ((t.putChild p id ⟨a.size, stop⟩).node i).fold = (t.node i).fold := by
    intro i hi
    rw [hnode, if_neg hi]
    split
    · rename_i hip
      simp [hip]
    · exact ⟨rfl, rfl⟩
  refine ⟨by simpa using h.lt, ?_, ?_, ?_, hn, ?_⟩
  · rw [hnode, if_neg (Ne.symm hne), if_pos rfl]
    simpa using h.text
  · rw [Tree.children, hnode, if_neg (Ne.symm hne), if_pos rfl]
    simp
  · rw [List.append_assoc, List.cons_append]
    refine fits_append.2 ⟨?_, fits_some.2 ⟨?_, fits_append.2 ⟨?_, fits_some.2 ⟨?_, ?_⟩⟩⟩⟩
    · exact hfa.congr fun i hi => hsame i (hother i (by simp [hi]))
    · exact ⟨stop, f, by simp [hnode], by simp [hnode, hf], rfl⟩
    · exact hfb.congr fun i hi => hsame i (hother i (by simp [hi]))
    · refine ⟨a.size, f, ?_, by simp [hnode, hf], rfl⟩
      rw [hnode, if_pos rfl, ← hstop]
      simp only [Option.some.injEq, Place.mk.injEq, Span.mk.injEq, true_and]
      omega
    · exact hfc.congr fun i hi => hsame i (hother i (by simp [hi]))
  · have := h.irrefl
    simp only [starts_append, starts_none, starts_opening, starts_closing, List.mem_append,
      List.mem_cons, not_or] at this ⊢
    simp [this, Ne.symm hne]

end

/-! ## Moving children -/

section
variable {a b c : Cells} {sub : Nat}

/-- What moves the children of `b`, at offset `sub` of a text, to where the same text stands in the
cells of `q`. -/
theorem node_gather (h : Layout t q (a ++ plain b.text ++ c)) (hb : t.Fits p sub b)
    (hn : Nested b) (hd : ∀ i ∈ starts b, i ≠ q ∧ i ∉ starts a ∧ i ∉ starts c) (j : NodeId) :
    ((starts b).foldl (fun t i => t.moveChild q sub a.size i) t).node j =
      if j ∈ starts b then moved q sub a.size (t.node j)
      else if j = q then { t.node q with children := starts a ++ starts b ++ starts c }
      else t.node j := by
  obtain ⟨hfa, hfc⟩ := fits_append.1 h.fits
  obtain ⟨hfa, -⟩ := fits_append.1 hfa
  refine node_foldl_moveChild (p := p) h.lt hn.nodup (fun i hi => ?_) (by simpa using h.children)
    ((hb.startOf_pairwise).imp Nat.le_of_lt) (fun i hi k hk => ?_) fun i hi k hk => ?_
  · exact ⟨hb.parent (hn.mem_ids.2 hi), hd i hi⟩
  · have := hfa.startOf hk
    have := hb.startOf hi
    omega
  · have := hfc.startOf hk
    have := hb.startOf hi
    simp only [size_append, size_plain] at *
    rw [show Text.byteSize b.text = b.size from rfl] at *
    omega

/-- The children of `b` come with the marks of `b`. -/
theorem Layout.gather (h : Layout t q (a ++ plain b.text ++ c)) (hb : t.Fits p sub b)
    (hn : Nested b) (hd : ∀ i ∈ starts b, i ≠ q ∧ i ∉ starts a ∧ i ∉ starts c) :
    Layout ((starts b).foldl (fun t i => t.moveChild q sub a.size i) t) q (a ++ b ++ c) := by
  have hnode := node_gather h hb hn hd
  obtain ⟨hfa, hfc⟩ := fits_append.1 h.fits
  obtain ⟨hfa, -⟩ := fits_append.1 hfa
  have hq : q ∉ starts b := fun hq => (hd q hq).1 rfl
  have hsame : ∀ i, i ∉ starts b →
      (((starts b).foldl (fun t i => t.moveChild q sub a.size i) t).node i).place =
        (t.node i).place ∧
      (((starts b).foldl (fun t i => t.moveChild q sub a.size i) t).node i).fold =
        (t.node i).fold := by
    intro i hi
    rw [hnode, if_neg hi]
    split
    · rename_i hip
      simp [hip]
    · exact ⟨rfl, rfl⟩
  have hother : ∀ i ∈ ids a ++ ids c, i ∉ starts b := by
    intro i hi hib
    have : i ∈ starts (a ++ plain b.text ++ c) := h.nested.mem_ids.1 (by simpa using hi)
    simp only [starts_append, starts_plain, List.append_nil, List.mem_append] at this
    have := hd i hib
    simp_all
  refine ⟨by simpa using h.lt, ?_, ?_, ?_, h.nested.insert hn hd, ?_⟩
  · rw [hnode, if_neg hq, if_pos rfl]
    simpa using h.text
  · rw [Tree.children, hnode, if_neg hq, if_pos rfl]
    simp
  · refine fits_append.2 ⟨fits_append.2 ⟨?_, ?_⟩, ?_⟩
    · exact hfa.congr fun i hi => hsame i (hother i (by simp [hi]))
    · refine hb.move (· + a.size - sub) (· + a.size - sub) (fun i h1 h2 => ?_) (fun i h1 h2 => ?_)
        fun i hi s hs => ?_
      · omega
      · omega
      · rw [hnode, if_pos (hn.mem_ids.1 hi)]
        simp [moved, hs]
    · have he : 0 + (a ++ plain b.text).size = 0 + (a ++ b).size := by
        simp only [size_append, size_plain]
        rfl
      exact he ▸ hfc.congr fun i hi => hsame i (hother i (by simp [hi]))
  · have := h.irrefl
    simp only [starts_append, starts_plain, List.append_nil, List.mem_append, not_or] at this ⊢
    simp [this, hq]

end

/-! ## Taking over children -/

section
variable {a b c : Cells} {g : Char} {sub : Nat} {id : NodeId}

/-- A node that holds the bare text of `b` takes over the children of `b`, which stand at offset
`sub` of the text of `p`, and comes to stand on a literal character of `p`. -/
def takeOver (t : Tree) (p id : NodeId) (sub : Nat) (b : Cells) (s : Span) : Tree :=
  ((starts b).foldl (fun t i => t.moveChild id sub 0 i) t).putChild p id s

/-- What has to hold for a node to take over children. -/
structure Ready (t : Tree) (p id : NodeId) (sub : Nat) (a b : Cells) (g : Char) (c : Cells) :
    Prop where
  parent : Layout t p (a ++ ⟨g, none⟩ :: c)
  bare : Layout t id (plain b.text)
  fold : (t.node id).fold = none
  ne : id ≠ p
  notMem : id ∉ t.children p
  fits : t.Fits p sub b
  nested : Nested b
  disjoint : ∀ i ∈ starts b, i ≠ id ∧ i ≠ p ∧ i ∉ starts a ∧ i ∉ starts c

variable (h : Ready t p id sub a b g c)
include h

theorem Ready.node_gather (j : NodeId) :
    ((starts b).foldl (fun t i => t.moveChild id sub 0 i) t).node j =
      if j ∈ starts b then moved id sub 0 (t.node j)
      else if j = id then { t.node id with children := starts b }
      else t.node j := by
  have := Tree.node_gather (a := []) (c := []) (by simpa using h.bare) h.fits h.nested
    (fun i hi => ⟨(h.disjoint i hi).1, by simp, by simp⟩) j
  simpa using this

theorem Ready.layout_gather :
    Layout ((starts b).foldl (fun t i => t.moveChild id sub 0 i) t) id b := by
  have := Layout.gather (a := []) (c := []) (by simpa using h.bare) h.fits h.nested
    (fun i hi => ⟨(h.disjoint i hi).1, by simp, by simp⟩)
  simpa using this

theorem Ready.layout_parent :
    Layout ((starts b).foldl (fun t i => t.moveChild id sub 0 i) t) p
      (a ++ ⟨g, none⟩ :: c) := by
  have hp : p ∉ starts b := fun hp => (h.disjoint p hp).2.1 rfl
  refine h.parent.frame (by simpa using h.parent.lt) ?_ ?_ fun i hi => ?_
  · rw [h.node_gather, if_neg hp, if_neg (Ne.symm h.ne)]
  · rw [children, h.node_gather, if_neg hp, if_neg (Ne.symm h.ne)]
    rfl
  · have hib : i ∉ starts b := by
      intro hib
      have := h.parent.children ▸ hi
      have hd := h.disjoint i hib
      simp only [starts_append, starts_none, List.mem_append] at this
      simp_all
    have hne : i ≠ id := fun e => h.notMem (e ▸ hi)
    rw [h.node_gather, if_neg hib, if_neg hne]
    exact ⟨rfl, rfl⟩

theorem Ready.node_takeOver (j : NodeId) :
    (t.takeOver p id sub b ⟨a.size, a.size + g.utf8Size⟩).node j =
      if j = id then { t.node id with
        place := some ⟨p, ⟨a.size, a.size + g.utf8Size⟩⟩, children := starts b }
      else if j = p then { t.node p with children := starts a ++ id :: starts c }
      else if j ∈ starts b then moved id sub 0 (t.node j)
      else t.node j := by
  have hp : p ∉ starts b := fun hp => (h.disjoint p hp).2.1 rfl
  have hid : id ∉ starts b := fun hid => (h.disjoint id hid).1 rfl
  have hmem : id ∉ ((starts b).foldl (fun t i => t.moveChild id sub 0 i) t).children p := by
    rw [h.layout_parent.children, ← h.parent.children]
    exact h.notMem
  rw [takeOver, node_put h.layout_parent (by simpa using h.bare.lt) h.ne hmem, h.node_gather,
    h.node_gather, h.node_gather]
  by_cases hj : j = id
  · simp [hj, hid]
  · by_cases hjp : j = p
    · simp [hjp, hp, Ne.symm h.ne]
    · simp [hj, hjp]

theorem Ready.layout_takeOver :
    Layout (t.takeOver p id sub b ⟨a.size, a.size + g.utf8Size⟩) p
      (a ++ ⟨g, some (.glyph id)⟩ :: c) := by
  have hid : id ∉ starts b := fun hid => (h.disjoint id hid).1 rfl
  refine h.layout_parent.put (by simpa using h.bare.lt) h.ne ?_ ?_
  · rw [h.layout_parent.children, ← h.parent.children]
    exact h.notMem
  · rw [h.node_gather, if_neg hid, if_pos rfl]
    exact h.fold

theorem Ready.layout_taken :
    Layout (t.takeOver p id sub b ⟨a.size, a.size + g.utf8Size⟩) id b := by
  have hnode := h.node_takeOver
  have hid : id ∉ starts b := fun hid => (h.disjoint id hid).1 rfl
  refine h.layout_gather.frame (by simpa [takeOver] using h.bare.lt) ?_ ?_ fun i hi => ?_
  · rw [hnode, if_pos rfl, h.node_gather, if_neg hid, if_pos rfl]
  · rw [children, hnode, if_pos rfl, children, h.node_gather, if_neg hid, if_pos rfl]
  · have hib : i ∈ starts b := h.layout_gather.children ▸ hi
    obtain ⟨h1, h2, -, -⟩ := h.disjoint i hib
    rw [hnode, if_neg h1, if_neg h2, if_pos hib, h.node_gather, if_pos hib]
    exact ⟨rfl, rfl⟩

end

end GlyphTree.Tree
