import GlyphTree.Command
import GlyphTree.Proofs.Json.Records
import GlyphTree.Proofs.Walks
import GlyphTree.View.Snapshot
import Mathlib

/-!
# Snapshots in JSON

A snapshot laid out over lines is read back as it was (`Snapshot.ofJson?_toJson`), if its numbers are of
64 bits and its nesting stays within what the reader bears.
-/

namespace GlyphTree

open Data

/-- Both ends are numbers of 64 bits. -/
def Span.Storable (s : Span) : Prop := s.start < 1 <<< 64 ∧ s.stop < 1 <<< 64

namespace Snapshot

/-- All numbers of a snapshot are of 64 bits. -/
inductive Storable : Snapshot → Prop
  | intro {s : Snapshot} (id : s.id < 1 <<< 64) (span : ∀ r ∈ s.span, r.Storable)
      (groups : ∀ gs ∈ s.groups, ∀ g ∈ gs, ∀ r ∈ g, r.Storable)
      (children : ∀ c ∈ s.children, c.Storable) : Storable s

variable {s : Snapshot} {room : Nat}

/-- The fields of a snapshot as a record. -/
def fields (s : Snapshot) : List (Text × Data) :=
  [("id", .ofNat s.id), ("name", .ofText s.name), ("text", .ofText s.text),
    ("span", .ofOption spanData s.span), ("label", .ofOption .ofText s.label),
    ("groups", .ofOption (fun gs => .seq (gs.map (.ofOption spanData))) s.groups),
    ("ignored", .ofBool s.ignored), ("folded", .ofBool s.folded),
    ("children", .seq (s.children.map toData))]

theorem toData_eq (s : Snapshot) : s.toData = .record s.fields := by
  cases s
  rw [toData]
  rfl

theorem plain_spanData {r : Span} (h : r.Storable) : (spanData r).Plain := by
  simpa [spanData, Plain, PlainItems, ofNat, Scalar.Plain, Span.Storable] using h

theorem plain_toData (h : s.Storable) : s.toData.Plain := by
  induction h with
  | @intro s id span groups children ih =>
    have hspan : ∀ r ∈ s.span, (spanData r).Plain := fun r hr => plain_spanData (span r hr)
    have hgroups : ∀ gs ∈ s.groups, ∀ g ∈ gs, ∀ r ∈ g, (spanData r).Plain :=
      fun gs hgs g hg r hr => plain_spanData (groups gs hgs g hg r hr)
    have hid : (Data.ofNat s.id).Plain := id
    have hseq : (Data.seq (s.children.map toData)).Plain := plainItems_iff.2 (by simpa using ih)
    rw [toData_eq, plain_record_iff]
    simp only [fields, List.forall_mem_cons, plain_ofOption_iff, plain_ofText, plain_ofBool,
      true_and]
    refine ⟨hid, hspan, fun _ _ => trivial, fun gs hgs => plainItems_iff.2 ?_, hseq, by simp⟩
    simpa [plain_ofOption_iff] using hgroups gs hgs

/-- The record of a snapshot has room for the sequence of its children. -/
theorem exists_room (h : (record s.fields).depth ≤ room) : ∃ n, room = n + 2 := by
  cases room with
  | zero => exact absurd h (Nat.not_succ_le_zero _)
  | succ room =>
    have hkids : (seq (s.children.map toData)).depth ≤ room :=
      depth_record_le.1 h ("children", _) (by simp [fields])
    cases room with
    | zero => exact absurd hkids (Nat.not_succ_le_zero _)
    | succ room => exact ⟨room, rfl⟩

/-- A snapshot is read back from its record where there is room for its levels. -/
theorem ofData?_toData (h : s.Storable) (hroom : s.toData.depth ≤ room) :
    ofData? room s.toData = some s := by
  induction h generalizing room with
  | @intro s id span groups children ih =>
    rw [toData_eq] at hroom ⊢
    obtain ⟨room, rfl⟩ : ∃ n, room = n + 2 := exists_room hroom
    rw [depth_record_le] at hroom
    simp only [fields, List.forall_mem_cons, depth_ofOption_le, depth_seq_le, List.forall_mem_map]
      at hroom
    obtain ⟨-, -, -, -, -, hgroups, -, -, hchildren, -⟩ := hroom
    have hspan : nullable? (within room 0 spanOfData?) (.ofOption spanData s.span) = some s.span :=
      nullable?_ofOption fun r _ => ⟨(fun h => by cases h), rfl⟩
    have hlabel : nullable? text? (.ofOption .ofText s.label) = some s.label :=
      nullable?_ofOption fun _ _ => ⟨(fun h => by cases h), rfl⟩
    have hgroup : ∀ gs ∈ s.groups, ∀ g ∈ gs,
        nullable? (within room 1 spanOfData?) (.ofOption spanData g) = some g := by
      intro gs hgs g hg
      refine nullable?_ofOption fun r hr => ⟨(fun h => by cases h), ?_⟩
      have hlevel : (spanData r).depth ≤ room := hgroups gs hgs g hg r hr
      exact if_pos hlevel
    have hgroups : nullable? (fun d => d.seq?.bind (·.mapM (nullable? (within room 1 spanOfData?))))
        (.ofOption (fun gs => .seq (gs.map (.ofOption spanData))) s.groups) = some s.groups :=
      nullable?_ofOption fun gs hgs => ⟨(fun h => by cases h), mapM_write (hgroup gs hgs)⟩
    have hkids : (s.children.map toData).mapM (ofData? room) = some s.children :=
      mapM_write fun c hc => ih c hc (hchildren c hc)
    rw [ofData?, fields?_record]
    · simp only [fields, List.map_cons, List.map_nil, required?, default?, hspan, hlabel, hgroups,
        seq?_seq, hkids, nat?_ofNat, text?_ofText, bool?_ofBool, Option.bind_eq_bind,
        Option.bind_some, Option.pure_def]
      cases s
      rfl
    · rfl
    · decide

/-- Beside the children of a snapshot there are three levels at most. -/
theorem depth_toData_le {n : Nat} (h : ∀ c ∈ s.children, c.toData.depth ≤ n + 1) :
    s.toData.depth ≤ n + 3 := by
  have hspan : ∀ r, (spanData r).depth ≤ n + 1 := fun _ => Nat.succ_le_succ (Nat.zero_le n)
  rw [toData_eq, depth_record_le]
  simp only [fields, List.forall_mem_cons, depth_ofOption_le, depth_seq_le, List.forall_mem_map]
  refine ⟨Nat.zero_le _, Nat.zero_le _, Nat.zero_le _, ?_, ?_, ?_, Nat.zero_le _, Nat.zero_le _, h,
    by simp⟩
  · exact fun r _ => Nat.le_succ_of_le (hspan r)
  · exact fun _ _ => Nat.zero_le _
  · exact fun _ _ _ _ r _ => hspan r

end Snapshot

/-! ## Snapshots of trees -/

/-- All numbers of a node are of 64 bits. -/
def Node.Storable (n : Node) : Prop :=
  (∀ c ∈ n.children, c < 1 <<< 64) ∧ (∀ r ∈ n.span, r.Storable) ∧
    ∀ gs ∈ n.groups, ∀ g ∈ gs, ∀ r ∈ g, r.Storable

namespace Tree

variable {t : Tree} {x : NodeId}

/-- All numbers of a tree are of 64 bits. -/
def Storable (t : Tree) : Prop := ∀ n ∈ t.nodes, n.Storable

theorem Storable.node (h : Storable t) (x : NodeId) : (t.node x).Storable := by
  rw [Tree.node]
  cases hn : t.nodes[x]? with
  | none => refine ⟨?_, ?_, ?_⟩ <;> exact fun _ hmem => by cases hmem
  | some n => exact h n (Array.mem_of_getElem? hn)

theorem Storable.snapshotWithin (h : Storable t) (hx : x < 1 <<< 64) (depth : Nat) :
    (t.snapshotWithin depth x).Storable := by
  induction depth generalizing x with
  | zero => refine ⟨hx, ?_, ?_, ?_⟩ <;> exact fun _ hmem => by cases hmem
  | succ depth ih =>
    obtain ⟨hchildren, hspan, hgroups⟩ := h.node x
    refine ⟨hx, hspan, hgroups, fun c hc => ?_⟩
    obtain ⟨y, hy, rfl⟩ := List.mem_map.1 hc
    exact ih (hchildren y hy)

/-- Each node on the way down takes two levels, and the last of them one more. -/
theorem depth_snapshotWithin {d : Nat} (h : Ends t.children d x) (depth : Nat) :
    (t.snapshotWithin depth x).toData.depth ≤ 2 * d + 1 := by
  induction d generalizing x depth with
  | zero => exact h.elim
  | succ d ih =>
    refine Snapshot.depth_toData_le fun c hc => ?_
    cases depth with
    | zero => cases hc
    | succ depth =>
      obtain ⟨y, hy, rfl⟩ := List.mem_map.1 hc
      exact ih (h y hy) depth

end Tree

namespace Snapshot

/-- A snapshot, whatever it is of, is read back from its JSON. So is that of a tree, unless too many
nodes stand inside each other. -/
theorem ofJson?_toJson :
    (∀ s : Snapshot, s.Storable → s.toData.depth ≤ maxDepth → ofJson? s.toJson = some s) ∧
      ∀ (t : Tree) (d : Nat), t.Storable → Tree.Ends t.children d Tree.root → 2 * d < maxDepth →
        ofJson? t.snapshot.toJson = some t.snapshot := by
  have hall : ∀ s : Snapshot, s.Storable → s.toData.depth ≤ maxDepth → ofJson? s.toJson = some s := by
    intro s hs hdepth
    rw [ofJson?, toJson, Json.read?_pretty (plain_toData hs), Option.bind_some,
      ofData?_toData hs hdepth]
  refine ⟨hall, fun t d ht hends hd => hall t.snapshot ?_ ?_⟩
  · exact ht.snapshotWithin (by decide) _
  · exact Nat.le_trans (Tree.depth_snapshotWithin hends _) hd

/-- A quotation mark hidden in a text. -/
def hiddenQuote : Tree :=
  ((Tree.ofText ['a', '"', 'b']).perform (.hideAll ['k'] ['"'] ['#'] ['*'])).tree

theorem ofJson?_toJson_hiddenQuote :
    (hiddenQuote.snapshotOf 1).text = ['"'] ∧ (hiddenQuote.snapshotOf 1).Storable ∧
      (hiddenQuote.snapshotOf 1).toData.depth ≤ maxDepth ∧
      ofJson? (hiddenQuote.snapshotOf 1).toJson = some (hiddenQuote.snapshotOf 1) ∧
      hiddenQuote.Storable ∧ Tree.Ends hiddenQuote.children 2 Tree.root ∧
      ofJson? hiddenQuote.snapshot.toJson = some hiddenQuote.snapshot := by
  have hnodes : hiddenQuote.nodes = #[⟨[], ['a', '#', 'b'], none, none, none, [1], []⟩,
      ⟨['k'], ['"'], some ⟨0, ⟨1, 2⟩⟩, none, none, [], []⟩] := by cbv
  have ht : hiddenQuote.Storable := by
    intro n hn
    rw [hnodes] at hn
    simp only [List.mem_toArray, List.mem_cons, List.not_mem_nil, or_false] at hn
    rcases hn with rfl | rfl
    · refine ⟨by simp, ?_, ?_⟩ <;> exact fun _ hmem => by cases hmem
    · refine ⟨by simp, fun r hr => ?_, by simp⟩
      obtain rfl : _ = r := Option.some.inj hr
      exact ⟨by decide, by decide⟩
  have hroot : hiddenQuote.children Tree.root = [1] := by cbv
  have hquote : hiddenQuote.children 1 = [] := by cbv
  have hleaf : Tree.Ends hiddenQuote.children 1 1 := fun c hc => by rw [hquote] at hc; cases hc
  have hends : Tree.Ends hiddenQuote.children 2 Tree.root := fun c hc => by
    rw [hroot] at hc
    exact List.mem_singleton.1 hc ▸ hleaf
  have hs : (hiddenQuote.snapshotOf 1).Storable := ht.snapshotWithin (by decide) _
  have hdepth : (hiddenQuote.snapshotOf 1).toData.depth ≤ maxDepth :=
    Nat.le_trans (Tree.depth_snapshotWithin hleaf _) (by decide)
  exact ⟨by cbv, hs, hdepth, ofJson?_toJson.1 _ hs hdepth, ht, hends,
    ofJson?_toJson.2 hiddenQuote 2 ht hends (by decide)⟩

end Snapshot

end GlyphTree
