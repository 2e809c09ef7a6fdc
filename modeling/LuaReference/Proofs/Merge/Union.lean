import LuaReference.Doc.Merge
import Mathlib.Data.List.Basic

set_option autoImplicit false

/-! # The union of two classes

Two descriptions of one class are united member by member: `firstByName` keeps of all members
with one name the first. Looking a name up is blind to that selection (`find?_firstByName`), and
selecting from a part of a list first changes nothing (`firstByName_append_left`,
`firstByName_append_right`). This makes `ClassDoc.merge` associative, and it gives what a member
or a description of many merged classes is in terms of the classes themselves.
-/

namespace LuaReference

/-! ## The first of each name -/

section FirstByName

variable {α : Type} (name : α → Text)

/-- Selecting by name commutes with dropping all elements of one name. -/
theorem filter_firstByName (n : Text) (xs : List α) :
    (firstByName name xs).filter (name · ≠ n) = firstByName name (xs.filter (name · ≠ n)) := by
  induction xs with
  | nil => rfl
  | cons x xs ih =>
      rw [firstByName, List.filter_cons, List.filter_cons]
      by_cases hx : name x = n
      · -- the head is dropped on either side, and so is its name behind it
        subst hx
        simp only [ne_eq, not_true_eq_false, decide_false, Bool.false_eq_true, if_false]
        rw [List.filter_filter, ← ih]
        simp
      · -- the head stays; the two names are dropped behind it in either order
        simp only [ne_eq, hx, not_false_eq_true, decide_true, if_true, firstByName]
        simp only [ne_eq] at ih
        rw [← ih, List.filter_filter, List.filter_filter]
        congr 2
        funext y
        exact Bool.and_comm _ _

/-- What was selected from the front of a list is selected from the whole list. -/
theorem firstByName_append_left (xs ys : List α) :
    firstByName name (firstByName name xs ++ ys) = firstByName name (xs ++ ys) := by
  induction xs with
  | nil => rfl
  | cons x xs ih =>
      simp only [firstByName, List.cons_append]
      rw [filter_firstByName, List.filter_append, List.filter_filter, ← ih, filter_firstByName,
        List.filter_append]
      simp only [Bool.and_self]

/-- Selecting from the back of a list first changes nothing. -/
theorem firstByName_append_right (xs ys : List α) :
    firstByName name (xs ++ firstByName name ys) = firstByName name (xs ++ ys) := by
  induction xs with
  | nil =>
      have h := firstByName_append_left name ys []
      simpa using h
  | cons x xs ih => simp only [firstByName, List.cons_append, ih]

/-- Uniting three lists of members, the grouping is irrelevant. -/
theorem firstByName_assoc (xs ys zs : List α) :
    firstByName name (firstByName name (xs ++ ys) ++ zs) =
      firstByName name (xs ++ firstByName name (ys ++ zs)) := by
  rw [firstByName_append_left, firstByName_append_right, List.append_assoc]

/-- The first element of a name is the one that is selected. -/
theorem find?_firstByName (n : Text) (xs : List α) :
    (firstByName name xs).find? (name · = n) = xs.find? (name · = n) := by
  induction xs with
  | nil => rfl
  | cons x xs ih =>
      rw [firstByName, List.find?_cons, List.find?_cons]
      by_cases hx : name x = n
      · simp [hx]
      · -- only elements named like the head are dropped, and those are not looked for
        simp only [hx, decide_false]
        rw [← ih, List.find?_filter]
        congr 1
        funext y
        by_cases hy : name y = n
        · simp [hy, Ne.symm hx]
        · simp [hy]

/-- A name occurs in a list when looking it up finds something. -/
theorem mem_map_iff_find? (n : Text) (xs : List α) :
    n ∈ xs.map name ↔ (xs.find? (name · = n)).isSome := by
  simp [List.find?_isSome]

end FirstByName

/-! ## Descriptions -/

/-- The description of a class unless it is empty. -/
def ClassDoc.text? (doc : ClassDoc) : Option Text := doc.description.filter (!·.isEmpty)

theorem firstDescription_assoc (a b c : Option Text) :
    firstDescription (firstDescription a b) c = firstDescription a (firstDescription b c) := by
  match a with
  | none => rfl
  | some [] => rfl
  | some (_ :: _) => rfl

/-- The text of two merged classes is the text of the first one that has any. -/
theorem ClassDoc.text?_merge (a b : ClassDoc) : (a.merge b).text? = a.text?.or b.text? := by
  simp only [ClassDoc.text?, ClassDoc.merge]
  match a.description with
  | none => simp [firstDescription]
  | some [] => simp [firstDescription, Option.filter_some]
  | some (_ :: _) => simp [firstDescription, Option.filter_some]

/-! ## Merging classes of one name -/

@[simp] theorem ClassDoc.merge_name (a b : ClassDoc) : (a.merge b).name = a.name := rfl

/-- Merging is associative in name, description, fields and functions. -/
theorem ClassDoc.merge_assoc (a b c : ClassDoc) :
    (a.merge b).merge c = a.merge (b.merge c) := by
  simp only [ClassDoc.merge, firstDescription_assoc, firstByName_assoc]

/-- The first member of a name in merged classes is the first one in all of their members. The
members are the fields or the functions, of both of which a merge keeps the first of each
name. -/
theorem find?_foldl_merge {α : Type} (name : α → Text) (members : ClassDoc → List α)
    (hm : ∀ a b : ClassDoc, members (a.merge b) = firstByName name (members a ++ members b))
    (n : Text) (doc : ClassDoc) (docs : List ClassDoc) :
    (members (docs.foldl ClassDoc.merge doc)).find? (name · = n) =
      ((doc :: docs).flatMap members).find? (name · = n) := by
  induction docs generalizing doc with
  | nil => simp
  | cons next docs ih =>
      rw [List.foldl_cons, ih]
      simp only [List.flatMap_cons, hm, List.find?_append, find?_firstByName, Option.or_assoc]

/-- The text of merged classes is that of the first one that has any. -/
theorem text?_foldl_merge (doc : ClassDoc) (docs : List ClassDoc) :
    (docs.foldl ClassDoc.merge doc).text? = (doc :: docs).findSome? ClassDoc.text? := by
  induction docs generalizing doc with
  | nil => cases h : doc.text? <;> simp [h]
  | cons next docs ih =>
      rw [List.foldl_cons, ih, List.findSome?_cons, List.findSome?_cons, ClassDoc.text?_merge,
        List.findSome?_cons]
      cases doc.text? with
      | none => rfl
      | some text => rfl

end LuaReference
