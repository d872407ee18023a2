import GlyphTree.Proofs.Json.Values

/-!
# Records read back

A record whose fields have different names gives each of them back (`Data.fields?_record`), and a
value that may be absent is read as what it was written for.
-/

namespace GlyphTree.Data

variable {α : Type} {fields : List (Text × Data)}

/-! ## Values -/

@[simp] theorem nat?_ofNat (n : Nat) : nat? (ofNat n) = some n := rfl

@[simp] theorem text?_ofText (t : Text) : text? (ofText t) = some t := rfl

@[simp] theorem bool?_ofBool (b : Bool) : bool? (ofBool b) = some b := rfl

@[simp] theorem seq?_seq (items : List Data) : seq? (seq items) = some items := rfl

@[simp] theorem char?_ofText (c : Char) : char? (ofText [c]) = some c := rfl

@[simp] theorem word?_ofNat (n : UInt64) : word? (ofNat n.toNat) = some n := by
  have hn : n.toNat < 1 <<< 64 := n.toNat_lt
  rw [word?, nat?_ofNat, Option.bind_some, if_pos hn, UInt64.ofNat_toNat]

/-- A value that may be absent is read as what it was written for, if nothing is written null. -/
theorem nullable?_ofOption {read : Data → Option α} {write : α → Data} {o : Option α}
    (h : ∀ a ∈ o, write a ≠ null ∧ read (write a) = some a) :
    nullable? read (ofOption write o) = some o := by
  cases o with
  | none => rfl
  | some a =>
    obtain ⟨hne, hread⟩ := h a rfl
    rw [ofOption, nullable?, hread]
    · rfl
    · exact hne

/-- Values are read as what they were written for if each of them is. -/
theorem mapM_write {read : Data → Option α} {write : α → Data} {l : List α}
    (h : ∀ a ∈ l, read (write a) = some a) : (l.map write).mapM read = some l := by
  induction l with
  | nil => rfl
  | cons a l ih =>
    obtain ⟨ha, hl⟩ := List.forall_mem_cons.1 h
    rw [List.map_cons, List.mapM_cons, ha, ih hl]
    rfl

/-! ## Fields -/

theorem fieldIndex?_ofText {key : Text} {before : List Text} (h : key ∉ before)
    (after : List Text) :
    fieldIndex? (before ++ key :: after) (ofText key) = some (some before.length) := by
  have hbefore : before.findIdx? (· = key) = none := List.findIdx?_eq_none_iff.2 fun k hk => by
    simp only [decide_eq_false_iff_not]
    rintro rfl
    exact h hk
  have hfound : (before ++ key :: after).findIdx? (· = key) = some before.length := by
    rw [List.findIdx?_append, hbefore]
    simp [List.findIdx?_cons]
  exact congrArg some hfound

/-- The entries of a record find the places of their names, in order. -/
theorem placeEntries_record (done rest : List (Text × Data))
    (h : ((done ++ rest).map Prod.fst).Nodup) :
    placeEntries ((done ++ rest).map Prod.fst)
        (done.map (fun f => some f.2) ++ List.replicate rest.length none)
        (rest.map fun f => (ofText f.1, f.2)) =
      some ((done ++ rest).map fun f => some f.2) := by
  induction rest generalizing done with
  | nil => simp [placeEntries]
  | cons f rest ih =>
    have hnot : f.1 ∉ done.map Prod.fst := by
      rw [List.map_append, List.map_cons] at h
      exact fun hf => (List.nodup_append.1 h).2.2 _ hf _ List.mem_cons_self rfl
    have hindex := fieldIndex?_ofText hnot (rest.map Prod.fst)
    have hnext := ih (done ++ [f]) (by simpa using h)
    simp only [List.map_append, List.map_cons, List.append_assoc, List.cons_append,
      List.nil_append, List.map_nil, List.length_map] at hindex hnext ⊢
    rw [placeEntries, hindex]
    simpa [List.replicate_succ, List.set_append] using hnext

/-- A record gives back its fields. -/
theorem fields?_record {names : List Text} (hnames : fields.map Prod.fst = names)
    (h : names.Nodup) : (record fields).fields? names = some (fields.map fun f => some f.2) := by
  have := placeEntries_record [] fields (by simpa [hnames] using h)
  simpa [record, fields?, ← hnames] using this

/-! ## Plain values -/

theorem plainItems_iff {items : List Data} : PlainItems items ↔ ∀ d ∈ items, d.Plain := by
  induction items with
  | nil => simp [PlainItems]
  | cons d ds ih => simp [PlainItems, ih]

theorem plain_record_iff : (record fields).Plain ↔ ∀ f ∈ fields, f.2.Plain := by
  rw [record, Plain]
  induction fields with
  | nil => simp [PlainEntries]
  | cons f fs ih =>
    rw [List.map_cons, PlainEntries, ih, List.forall_mem_cons]
    rfl

@[simp] theorem plain_ofText (t : Text) : (ofText t).Plain := trivial

@[simp] theorem plain_ofBool (b : Bool) : (ofBool b).Plain := trivial

@[simp] theorem plain_word (n : UInt64) : (ofNat n.toNat).Plain := n.toNat_lt

theorem plain_ofOption_iff {write : α → Data} {o : Option α} :
    (ofOption write o).Plain ↔ ∀ a ∈ o, (write a).Plain := by
  cases o with
  | none => simp [ofOption, null, Plain, Scalar.Plain]
  | some a => simp [ofOption]

/-! ## Depth -/

@[simp] theorem depth_ofNat (n : Nat) : (ofNat n).depth = 0 := rfl

@[simp] theorem depth_ofText (t : Text) : (ofText t).depth = 0 := rfl

@[simp] theorem depth_ofBool (b : Bool) : (ofBool b).depth = 0 := rfl

theorem depth_ofOption_le {write : α → Data} {o : Option α} {n : Nat} :
    (ofOption write o).depth ≤ n ↔ ∀ a ∈ o, (write a).depth ≤ n := by
  cases o with
  | none => simp [ofOption, null, depth]
  | some a => simp [ofOption]

theorem depth_seq_le {items : List Data} {n : Nat} :
    (seq items).depth ≤ n + 1 ↔ ∀ d ∈ items, d.depth ≤ n := by
  rw [depth, Nat.succ_le_succ_iff]
  induction items with
  | nil => simp [depthItems]
  | cons d ds ih => rw [depthItems, Nat.max_le, ih, List.forall_mem_cons]

theorem depth_record_le {n : Nat} : (record fields).depth ≤ n + 1 ↔ ∀ f ∈ fields, f.2.depth ≤ n := by
  rw [record, depth, Nat.succ_le_succ_iff]
  induction fields with
  | nil => simp [depthEntries]
  | cons f fs ih =>
    rw [List.map_cons, depthEntries, Nat.max_le, ih, List.forall_mem_cons]
    simp [depthEntry]

/-! ## Sound values -/

mutual

/-- Nothing in a plain value is broken. -/
theorem Plain.sound : ∀ {d : Data}, d.Plain → d.sound = true
  | .scalar s, h => by cases s <;> first | rfl | exact h.elim
  | .seq _, h => PlainItems.sound h
  | .map _, h => PlainEntries.sound h

theorem PlainItems.sound : ∀ {ds : List Data}, PlainItems ds → soundItems ds = true
  | [], _ => rfl
  | _ :: _, h => Bool.and_eq_true_iff.2 ⟨Plain.sound h.1, PlainItems.sound h.2⟩

theorem PlainEntries.sound : ∀ {es : List (Data × Data)}, PlainEntries es → soundEntries es = true
  | [], _ => rfl
  | _ :: _, h => Bool.and_eq_true_iff.2 ⟨PlainEntry.sound h.1, PlainEntries.sound h.2⟩

theorem PlainEntry.sound : ∀ {e : Data × Data}, PlainEntry e → soundEntry e = true
  | (.scalar (.text _), _), h => Plain.sound h

end

end GlyphTree.Data
