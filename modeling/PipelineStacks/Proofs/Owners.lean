import Mathlib.Data.List.Basic
import Mathlib.Tactic.Common
import PipelineStacks.Pipeline.Ownership
import PipelineStacks.Proofs.SortedMap

/-!
# The owners of an object

Owners are recorded in two places, a list of references and an annotation, and `Object.owners` is
what both together say.  The annotation is a text with commas between the uids: it holds a list of
uids exactly if each of them is `Listable`, and only such uids are ever read from it
(`splitOwners_joinOwners`, `listable_of_mem_splitOwners`).

So marking and unmarking act on the owners as on a set: `mem_owners_mark` and `owners_unmark`.  All
but the owners stays as it was, which `Object.withoutOwners` makes precise, and a mark that is there
is not set again (`mark_mark`).
-/

namespace PipelineStacks

/-! ## Lists with separators -/

namespace Text

/-- A text without separators is its only part. -/
lemma splitWhere_eq_singleton {sep : Char → Bool} {cs : List Char}
    (h : ∀ c ∈ cs, sep c = false) : splitWhere sep cs = [cs] := by
  induction cs with
  | nil => rfl
  | cons c cs ih =>
    obtain ⟨hc, hcs⟩ := List.forall_mem_cons.mp h
    rw [splitWhere, hc, ih hcs]
    rfl

/-- What stands before the first separator is the first part. -/
lemma splitWhere_append_cons {sep : Char → Bool} {cs rest : List Char} {c : Char}
    (h : ∀ d ∈ cs, sep d = false) (hc : sep c = true) :
    splitWhere sep (cs ++ c :: rest) = cs :: splitWhere sep rest := by
  induction cs with
  | nil => rw [List.nil_append, splitWhere, if_pos hc]
  | cons d cs ih =>
    obtain ⟨hd, hcs⟩ := List.forall_mem_cons.mp h
    rw [List.cons_append, splitWhere, hd, ih hcs]
    rfl

/-- Parts without separators are found again in the text that joins them. -/
theorem splitWhere_intercalate {sep : Char → Bool} {c : Char} (hc : sep c = true)
    {parts : List (List Char)} (hne : parts ≠ []) (h : ∀ part ∈ parts, ∀ d ∈ part, sep d = false) :
    splitWhere sep ([c].intercalate parts) = parts := by
  induction parts with
  | nil => exact (hne rfl).elim
  | cons part parts ih =>
    obtain ⟨hpart, hparts⟩ := List.forall_mem_cons.mp h
    cases parts with
    | nil => simpa [List.intercalate] using splitWhere_eq_singleton hpart
    | cons next parts =>
      have hjoin : [c].intercalate (part :: next :: parts) =
          part ++ c :: [c].intercalate (next :: parts) := by
        simp [List.intercalate]
      rw [hjoin, splitWhere_append_cons hpart hc, ih (List.cons_ne_nil _ _) hparts]

/-- No part has a separator. -/
lemma not_sep_of_mem_splitWhere {sep : Char → Bool} {cs part : List Char}
    (h : part ∈ splitWhere sep cs) : ∀ c ∈ part, sep c = false := by
  induction cs generalizing part with
  | nil =>
    obtain rfl := List.mem_singleton.mp h
    exact fun c hc => (List.not_mem_nil hc).elim
  | cons d cs ih =>
    unfold splitWhere at h
    split at h
    · rcases List.mem_cons.mp h with rfl | h
      · exact fun c hc => (List.not_mem_nil hc).elim
      · exact ih h
    · next hd =>
      split at h
      · next hnil => exact (splitWhere_ne_nil sep cs hnil).elim
      · next first parts hsplit =>
        rw [hsplit] at ih
        rcases List.mem_cons.mp h with rfl | h
        · intro c hc
          rcases List.mem_cons.mp hc with rfl | hc
          · exact Bool.eq_false_iff.mpr hd
          · exact ih List.mem_cons_self c hc
        · exact ih (List.mem_cons_of_mem _ h)

/-- Trimming only drops characters. -/
lemma trim_sublist (cs : List Char) : (trim cs).Sublist cs := by
  have hend : (trim cs).reverse.Sublist (cs.dropWhile isBlank).reverse := by
    rw [trim, trimWhile, dropEndWhile, List.reverse_reverse]
    exact List.dropWhile_sublist _
  exact (List.reverse_sublist.mp hend).trans (List.dropWhile_sublist _)

/-- A trimmed text has no blanks at its ends. -/
lemma trim_trim (cs : List Char) : trim (trim cs) = trim cs := by
  have hstart : (trim cs).dropWhile isBlank = trim cs := by
    refine dropWhile_eq_self_of_head fun c hc => ?_
    -- the first character that is left was there before the end was trimmed
    have hhead : (cs.dropWhile isBlank).head? = some c := by
      rw [trim, trimWhile, dropEndWhile, List.head?_reverse] at hc
      have hsuffix := List.dropWhile_suffix isBlank (l := (cs.dropWhile isBlank).reverse)
      obtain ⟨before, hbefore⟩ := hsuffix
      rw [← List.reverse_reverse (cs.dropWhile isBlank), List.head?_reverse, ← hbefore,
        List.getLast?_append, hc]
      rfl
    exact head_dropWhile_not hhead
  have hfinish : ∀ ds : List Char, dropEndWhile isBlank (dropEndWhile isBlank ds) =
      dropEndWhile isBlank ds := by
    intro ds
    rw [dropEndWhile, dropEndWhile, List.reverse_reverse]
    exact congrArg List.reverse (dropWhile_eq_self_of_head fun c hc => head_dropWhile_not hc)
  rw [trim, trimWhile, hstart, trim, trimWhile, hfinish]

end Text

/-! ## Uids that can be listed -/

/-- A uid that can be told from a list: it is not empty, and it has no comma and no blanks at its
ends. -/
structure Listable (uid : String) : Prop where
  ne_empty : uid ≠ ""
  no_comma : ',' ∉ uid.toList
  trimmed : Text.trim uid.toList = uid.toList

namespace Object

/-- A list of uids that can be told apart is read as it was written. -/
theorem splitOwners_joinOwners {uids : List String} (h : ∀ uid ∈ uids, Listable uid) :
    splitOwners (joinOwners uids) = uids := by
  by_cases hne : uids = []
  · subst hne
    rfl
  · have hparts : Text.splitWhere (· = ',') (joinOwners uids).toList = uids.map String.toList := by
      rw [joinOwners, String.toList_intercalate]
      refine Text.splitWhere_intercalate rfl (by simpa using hne) ?_
      intro part hpart d hd
      obtain ⟨uid, huid, rfl⟩ := List.mem_map.mp hpart
      exact decide_eq_false fun hcomma => (h uid huid).no_comma (hcomma ▸ hd)
    have htrim : (uids.map String.toList).map Text.trim = uids.map String.toList := by
      rw [List.map_map]
      exact List.map_congr_left fun uid huid => (h uid huid).trimmed
    have hfilter : (uids.map String.toList).filter (· ≠ []) = uids.map String.toList := by
      refine List.filter_eq_self.mpr fun part hpart => ?_
      obtain ⟨uid, huid, rfl⟩ := List.mem_map.mp hpart
      simpa using (h uid huid).ne_empty
    simp only [splitOwners, hparts, htrim, hfilter, List.map_map]
    exact List.map_id'' (fun uid => String.ofList_toList) uids

/-- Whatever the text, what is read from it can be told apart. -/
lemma listable_of_mem_splitOwners {text uid : String} (h : uid ∈ splitOwners text) :
    Listable uid := by
  simp only [splitOwners, List.mem_map, List.mem_filter, decide_eq_true_eq] at h
  obtain ⟨cs, ⟨⟨part, hpart, rfl⟩, hne⟩, rfl⟩ := h
  refine ⟨fun hempty => hne ?_, fun hcomma => ?_, ?_⟩
  · simpa using congrArg String.toList hempty
  · rw [String.toList_ofList] at hcomma
    have hsep := Text.not_sep_of_mem_splitWhere hpart _ ((Text.trim_sublist part).subset hcomma)
    simp at hsep
  · rw [String.toList_ofList, Text.trim_trim]

/-! ## What the two layers hold -/

/-- All owners that are recorded on an object. -/
def owners (o : Object) : List String :=
  o.references.map (·.uid) ++ o.annotatedOwners

lemma length_owners (o : Object) : o.owners.length = o.ownerCount := by
  rw [owners, List.length_append, List.length_map, ownerCount]

lemma listable_of_mem_annotatedOwners {o : Object} {uid : String} (h : uid ∈ o.annotatedOwners) :
    Listable uid := by
  unfold annotatedOwners at h
  split at h
  · exact listable_of_mem_splitOwners h
  · exact (List.not_mem_nil h).elim

lemma hasReference_iff {o : Object} {uid : String} :
    o.hasReference uid = true ↔ uid ∈ o.references.map (·.uid) := by
  simp [hasReference]

lemma hasAnnotatedOwner_iff {o : Object} {uid : String} :
    o.hasAnnotatedOwner uid = true ↔ uid ∈ o.annotatedOwners := by
  simp [hasAnnotatedOwner]

@[simp] lemma references_withReferences (o : Object) (refs : List OwnerReference) :
    (o.withReferences (some refs)).references = refs := rfl

@[simp] lemma references_setAnnotatedOwners (o : Object) (uids : List String) :
    (o.setAnnotatedOwners uids).references = o.references := by
  unfold setAnnotatedOwners
  split <;> rfl

/-- What is written into the annotation is read from it. -/
theorem annotatedOwners_setAnnotatedOwners (o : Object) {uids : List String}
    (h : ∀ uid ∈ uids, Listable uid) : (o.setAnnotatedOwners uids).annotatedOwners = uids := by
  unfold setAnnotatedOwners
  by_cases hempty : uids = []
  · rw [if_pos hempty, hempty]
    have hnone : (o.withAnnotations
        (o.metadata.annotations.map (·.erase Metadata.ownerAnnotation))).annotations.get?
          Metadata.ownerAnnotation = none := by
      cases hannotations : o.metadata.annotations with
      | none => simp only [annotations, withAnnotations, Option.map_none]; rfl
      | some m => simp [annotations, withAnnotations, SortedMap.get?_erase]
    rw [annotatedOwners, hnone]
  · rw [if_neg hempty]
    have hsome : (o.withAnnotations (some (o.annotations.insert Metadata.ownerAnnotation
        (joinOwners uids)))).annotations.get? Metadata.ownerAnnotation =
          some (joinOwners uids) := by
      simp [annotations, withAnnotations, SortedMap.get?_insert]
    rw [annotatedOwners, hsome]
    exact splitOwners_joinOwners h

/-! ### Single changes -/

lemma mem_references_addReference (o : Object) (r : OwnerReference) {uid : String} :
    uid ∈ (o.addReference r).2.references.map (·.uid) ↔
      uid = r.uid ∨ uid ∈ o.references.map (·.uid) := by
  unfold addReference
  split
  · next h =>
    rw [hasReference_iff] at h
    exact ⟨Or.inr, fun huid => huid.elim (fun heq => heq ▸ h) id⟩
  · rw [references_withReferences, List.map_append, List.mem_append, or_comm, List.map_singleton,
      List.mem_singleton]

lemma references_removeReference (o : Object) (uid : String) :
    (o.removeReference uid).2.references = o.references.filter fun r => r.uid ≠ uid := by
  unfold removeReference
  split
  · exact references_withReferences o _
  · next h =>
    rw [hasReference_iff, List.mem_map, not_exists] at h
    refine (List.filter_eq_self.mpr fun r hr => ?_).symm
    exact decide_eq_true fun heq => h r ⟨hr, heq⟩

@[simp] lemma annotatedOwners_addReference (o : Object) (r : OwnerReference) :
    (o.addReference r).2.annotatedOwners = o.annotatedOwners := by
  unfold addReference
  split <;> rfl

@[simp] lemma annotatedOwners_removeReference (o : Object) (uid : String) :
    (o.removeReference uid).2.annotatedOwners = o.annotatedOwners := by
  unfold removeReference
  split <;> rfl

lemma mem_annotatedOwners_addAnnotatedOwner (o : Object) {uid uid' : String} (h : Listable uid) :
    uid' ∈ (o.addAnnotatedOwner uid).2.annotatedOwners ↔ uid' = uid ∨ uid' ∈ o.annotatedOwners := by
  unfold addAnnotatedOwner
  split
  · next hthere =>
    rw [hasAnnotatedOwner_iff] at hthere
    exact ⟨Or.inr, fun huid => huid.elim (fun heq => heq ▸ hthere) id⟩
  · have hall : ∀ u ∈ o.annotatedOwners ++ [uid], Listable u := by
      intro u hu
      rcases List.mem_append.mp hu with hu | hu
      · exact listable_of_mem_annotatedOwners hu
      · exact List.mem_singleton.mp hu ▸ h
    rw [annotatedOwners_setAnnotatedOwners o hall, List.mem_append, List.mem_singleton, or_comm]

lemma annotatedOwners_removeAnnotatedOwner (o : Object) (uid : String) :
    (o.removeAnnotatedOwner uid).2.annotatedOwners = o.annotatedOwners.filter (· ≠ uid) := by
  unfold removeAnnotatedOwner
  split
  · -- what is written back was read from the annotation before
    exact annotatedOwners_setAnnotatedOwners o fun u hu =>
      listable_of_mem_annotatedOwners (List.mem_of_mem_filter hu)
  · next h =>
    rw [hasAnnotatedOwner_iff] at h
    refine (List.filter_eq_self.mpr fun u hu => ?_).symm
    exact decide_eq_true fun heq => h (heq ▸ hu)

@[simp] lemma references_addAnnotatedOwner (o : Object) (uid : String) :
    (o.addAnnotatedOwner uid).2.references = o.references := by
  unfold addAnnotatedOwner
  split
  · rfl
  · exact references_setAnnotatedOwners o _

@[simp] lemma references_removeAnnotatedOwner (o : Object) (uid : String) :
    (o.removeAnnotatedOwner uid).2.references = o.references := by
  unfold removeAnnotatedOwner
  split
  · exact references_setAnnotatedOwners o _
  · rfl

/-! ## All but the owners -/

/-- The object without its owners and its version: every other field is that of the object, and so
is every other annotation. -/
def withoutOwners (o : Object) : Object :=
  { o with metadata := { o.metadata with
    ownerReferences := none
    annotations := some (o.annotations.erase Metadata.ownerAnnotation)
    resourceVersion := none } }

@[simp] lemma withoutOwners_setAnnotatedOwners (o : Object) (uids : List String) :
    (o.setAnnotatedOwners uids).withoutOwners = o.withoutOwners := by
  have hsame : ∀ m : Option (SortedMap String String),
      (m.getD {}).erase Metadata.ownerAnnotation = o.annotations.erase Metadata.ownerAnnotation →
        (o.withAnnotations m).withoutOwners = o.withoutOwners := by
    intro m hm
    simp only [withoutOwners, withAnnotations, annotations, hm]
  unfold setAnnotatedOwners
  split
  · refine hsame _ ?_
    cases hannotations : o.metadata.annotations with
    | none => simp [annotations, hannotations]
    | some m => simpa [annotations, hannotations] using SortedMap.erase_erase m _
  · exact hsame _ (SortedMap.erase_insert _ _ _)

@[simp] lemma resourceVersion_setAnnotatedOwners (o : Object) (uids : List String) :
    (o.setAnnotatedOwners uids).metadata.resourceVersion = o.metadata.resourceVersion := by
  unfold setAnnotatedOwners
  split <;> rfl

end Object

/-! ## Marking and unmarking -/

/-- What marking and unmarking leave alone: the version of an object and all but its owners. -/
structure Object.SameButOwners (o o' : Object) : Prop where
  withoutOwners : o'.withoutOwners = o.withoutOwners
  resourceVersion : o'.metadata.resourceVersion = o.metadata.resourceVersion

namespace Object

lemma SameButOwners.refl (o : Object) : o.SameButOwners o := ⟨rfl, rfl⟩

lemma SameButOwners.trans {o o' o'' : Object} (h : o.SameButOwners o')
    (h' : o'.SameButOwners o'') : o.SameButOwners o'' :=
  ⟨h'.withoutOwners.trans h.withoutOwners, h'.resourceVersion.trans h.resourceVersion⟩

/-- The name is not among what is left out with the owners. -/
lemma nameText_of_withoutOwners {o o' : Object} (h : o'.withoutOwners = o.withoutOwners) :
    o'.nameText = o.nameText := by
  change o'.withoutOwners.nameText = o.withoutOwners.nameText
  rw [h]

lemma sameButOwners_withReferences (o : Object) (refs : Option (List OwnerReference)) :
    o.SameButOwners (o.withReferences refs) := ⟨rfl, rfl⟩

lemma sameButOwners_setAnnotatedOwners (o : Object) (uids : List String) :
    o.SameButOwners (o.setAnnotatedOwners uids) :=
  ⟨withoutOwners_setAnnotatedOwners o uids, resourceVersion_setAnnotatedOwners o uids⟩

end Object

namespace Owner

variable (w : Owner) (ns : String) (o : Object)

/-- The owner is among the owners if it is marked. -/
lemma isMarked_iff : w.isMarked o = true ↔ w.uid ∈ o.owners := by
  rw [isMarked, Bool.or_eq_true, Object.hasReference_iff, Object.hasAnnotatedOwner_iff,
    Object.owners, List.mem_append]

/-- A mark adds one owner. -/
theorem mem_owners_mark (hw : Listable w.uid) {uid : String} :
    uid ∈ (w.mark ns o).2.owners ↔ uid = w.uid ∨ uid ∈ o.owners := by
  unfold mark Object.owners
  split
  · rw [List.mem_append, Object.mem_references_addReference, Object.annotatedOwners_addReference,
      List.mem_append, or_assoc]
    rfl
  · rw [List.mem_append, Object.references_addAnnotatedOwner,
      Object.mem_annotatedOwners_addAnnotatedOwner o hw, List.mem_append, or_left_comm]

/-- Unmarking removes one owner; the others stay in their order. -/
theorem owners_unmark : (w.unmark o).2.owners = o.owners.filter (· ≠ w.uid) := by
  change ((o.removeReference w.uid).2.removeAnnotatedOwner w.uid).2.owners = _
  rw [Object.owners, Object.references_removeAnnotatedOwner,
    Object.annotatedOwners_removeAnnotatedOwner, Object.annotatedOwners_removeReference,
    Object.references_removeReference, Object.owners, List.filter_append, List.filter_map]
  rfl

/-- Unmarking tells whether the owner was marked. -/
lemma unmark_fst : (w.unmark o).1 = w.isMarked o := by
  have hlisted : (o.removeReference w.uid).2.hasAnnotatedOwner w.uid =
      o.hasAnnotatedOwner w.uid := by
    rw [Object.hasAnnotatedOwner, Object.annotatedOwners_removeReference, Object.hasAnnotatedOwner]
  have hreferred : (o.removeReference w.uid).1 = o.hasReference w.uid := by
    unfold Object.removeReference
    split
    · next h => exact h.symm
    · next h => exact (Bool.eq_false_iff.mpr h).symm
  have hannotated : ((o.removeReference w.uid).2.removeAnnotatedOwner w.uid).1 =
      o.hasAnnotatedOwner w.uid := by
    rw [← hlisted]
    unfold Object.removeAnnotatedOwner
    split
    · next h => exact h.symm
    · next h => exact (Bool.eq_false_iff.mpr h).symm
  rw [isMarked, ← hreferred, ← hannotated]
  rfl

/-- To unmark an owner that is not marked changes nothing. -/
lemma unmark_eq_self {w : Owner} {o : Object} (h : w.isMarked o = false) :
    w.unmark o = (false, o) := by
  obtain ⟨hreferred, hlisted⟩ := Bool.or_eq_false_iff.mp h
  unfold unmark Object.removeReference
  rw [hreferred]
  simp only [Bool.false_eq_true, if_false, Object.removeAnnotatedOwner, hlisted, Bool.or_false]

/-- No owner is left after unmarking if there was no other. -/
lemma ownerCount_unmark_eq_zero_iff :
    (w.unmark o).2.ownerCount = 0 ↔ ∀ uid ∈ o.owners, uid = w.uid := by
  rw [← Object.length_owners, owners_unmark, List.length_eq_zero_iff, List.filter_eq_nil_iff]
  simp

/-- Marking leaves all but the owners alone. -/
lemma sameButOwners_mark : o.SameButOwners (w.mark ns o).2 := by
  unfold mark
  split
  · unfold Object.addReference
    split
    · exact .refl o
    · exact o.sameButOwners_withReferences _
  · unfold Object.addAnnotatedOwner
    split
    · exact .refl o
    · exact o.sameButOwners_setAnnotatedOwners _

/-- Unmarking leaves all but the owners alone. -/
lemma sameButOwners_unmark : o.SameButOwners (w.unmark o).2 := by
  have hreferences : o.SameButOwners (o.removeReference w.uid).2 := by
    unfold Object.removeReference
    split
    · exact o.sameButOwners_withReferences _
    · exact .refl o
  have hlisted : ∀ x : Object, x.SameButOwners (x.removeAnnotatedOwner w.uid).2 := by
    intro x
    unfold Object.removeAnnotatedOwner
    split
    · exact x.sameButOwners_setAnnotatedOwners _
    · exact .refl x
  exact hreferences.trans (hlisted _)

/-- A mark that is there already changes nothing. -/
lemma mark_eq_self {w : Owner} {ns : String} {o : Object} (h : (w.mark ns o).1 = false) :
    w.mark ns o = (false, o) := by
  unfold mark Object.addReference Object.addAnnotatedOwner at h ⊢
  split at h
  · next hown =>
    rw [if_pos hown]
    split at h
    · next hthere => rw [if_pos hthere]
    · cases h
  · next hown =>
    rw [if_neg hown]
    split at h
    · next hthere => rw [if_pos hthere]
    · cases h

/-- A mark that was set is there. -/
theorem mark_mark (hw : Listable w.uid) : (w.mark ns (w.mark ns o).2).1 = false := by
  by_cases hown : w.canOwn ns
  · have hthere : (o.addReference w.reference).2.hasReference w.reference.uid = true :=
      Object.hasReference_iff.mpr ((o.mem_references_addReference w.reference).mpr (Or.inl rfl))
    simp only [mark, hown, if_true, Object.addReference] at hthere ⊢
    rw [if_pos hthere]
  · have hthere : (o.addAnnotatedOwner w.uid).2.hasAnnotatedOwner w.uid = true :=
      Object.hasAnnotatedOwner_iff.mpr
        ((o.mem_annotatedOwners_addAnnotatedOwner hw).mpr (Or.inl rfl))
    simp only [mark, hown, Bool.false_eq_true, if_false, Object.addAnnotatedOwner] at hthere ⊢
    rw [if_pos hthere]

end Owner

end PipelineStacks
