import LuaReference.Proofs.Registry.Change
import LuaReference.Proofs.Source.AssignmentSearch
import LuaReference.Reader.Basic

set_option autoImplicit false

/-! # The field that a typed assignment documents

Behind a comment that gives a type, an assignment documents a static field: a single name one of the
namespace, a name with an owner one of the class of the owner. Nothing is documented for a longer
path, for a local declaration, and for a name or an owner that is a hidden local.

The path need not be the left side of the assignment. It is the longest one that the left side ends
in, so a member of an indexed table, or the last of several names, is documented as if it stood
alone; and if the left side ends in no path it is one that the value assigns to
(`codeLine_assignment`).
-/

namespace LuaReference

namespace Reader

/-! ## The field of a path -/

/-- The static field of that name, with what a declaration says of it. -/
def staticField (decl : TypeDecl) (name : Text) : FieldDoc where
  name := name
  type := decl.type
  isStatic := true
  description := cleanDescription decl.description

/-- Whether an assignment to a path documents a field: the path is a name or a name with an owner,
and neither it nor the owner is a hidden local. -/
def IsShown (registry : Registry) : List Text → Prop
  | [name] => registry.isHidden name = false
  | [owner, name] =>
      registry.isHidden (dotted [owner, name]) = false ∧ registry.isHidden owner = false
  | _ => False

instance (registry : Registry) : (path : List Text) → Decidable (IsShown registry path)
  | [] => isFalse id
  | [name] => inferInstanceAs (Decidable (registry.isHidden name = false))
  | [owner, name] =>
      inferInstanceAs (Decidable (registry.isHidden (dotted [owner, name]) = false ∧
        registry.isHidden owner = false))
  | _ :: _ :: _ :: _ => isFalse id

/-- The registry with the field of a path. -/
def documentPath (registry : Registry) (decl : TypeDecl) : List Text → Registry
  | [name] => registry.addField (staticField decl name)
  | [owner, name] => registry.addClassFields owner [staticField decl name]
  | _ => registry

/-- The registry with the field of the path that is assigned to, if one is and it is shown. -/
def documentTarget (registry : Registry) (decl : TypeDecl) : Option (List Text) → Registry
  | none => registry
  | some path => if IsShown registry path then documentPath registry decl path else registry

theorem commitField_eq (registry : Registry) (decl : TypeDecl) (line : Text) :
    commitField registry decl line =
      if Declaration.isLocal line then registry
      else documentTarget registry decl (Declaration.target? line) := by
  rw [commitField]
  split
  · rfl
  · cases Declaration.target? line with
    | none => rfl
    | some path =>
        match path with
        | [] => rfl
        | [name] =>
            cases hname : registry.isHidden name <;>
              simp [documentTarget, IsShown, documentPath, hname, staticField, FieldDoc.finish]
        | [owner, name] =>
            cases hmember : registry.isHidden (dotted [owner, name]) <;>
              cases howner : registry.isHidden owner <;>
              simp [documentTarget, IsShown, documentPath, hmember, howner, staticField,
                FieldDoc.finish]
        | _ :: _ :: _ :: _ => rfl

/-- The field of a path that is shown is new. -/
theorem documentPath_ne_self {registry : Registry} {path : List Text} (h : IsShown registry path)
    (decl : TypeDecl) : documentPath registry decl path ≠ registry := by
  match path with
  | [name] =>
      intro heq
      have hfields : registry.fields ++ [staticField decl name] = registry.fields :=
        congrArg Registry.fields heq
      simp at hfields
  | [owner, name] =>
      intro heq
      obtain ⟨doc, -, hdoc⟩ :=
        (Registry.updateClass_eq_self_iff registry.classes).mp (congrArg Registry.classes heq)
      have hfields : doc.fields ++ [staticField decl name] = doc.fields :=
        congrArg ClassDoc.fields hdoc
      simp at hfields

theorem documentTarget_eq_self_iff (registry : Registry) (decl : TypeDecl)
    (target : Option (List Text)) :
    documentTarget registry decl target = registry ↔ ∀ path ∈ target, ¬ IsShown registry path := by
  cases target with
  | none => simp [documentTarget]
  | some path =>
      by_cases hshown : IsShown registry path
      · simp [documentTarget, hshown, documentPath_ne_self hshown]
      · simp [documentTarget, hshown]

/-! ## Lines behind a type -/

open Declaration

/-- **What an assignment documents behind a type**, by its left side and its value. The field is
that of the longest path which the left side ends in, or else of the path which the value assigns
to. If the left side is a path, up to blanks, that is the path; if it is anything else nothing
should be documented, and nothing is exactly if the path that is found is not shown. -/
theorem codeLine_assignment {pending : List Text} {decl : TypeDecl}
    (hclass : (Block.ofLines pending).classDecl = none)
    (htype : (Block.ofLines pending).typeDecl = some decl) {left value : Text}
    (hl : IsLeftSide left value) (registry : Registry) (rest : List Text) :
    let line := left ++ '=' :: value
    let found := (endPath? left).or (target? value)
    let after := codeLine registry pending line rest
    after = { registry := if isLocal line then registry
                          else documentTarget registry decl found } ∧
      (∀ path blanks, IsPath path → (∀ c ∈ blanks, isBlank c = true) →
        left = dotted path ++ blanks → wholePath? left = some path ∧ found = some path) ∧
      (after = { registry := if isLocal line then registry
                             else documentTarget registry decl (wholePath? left) } ↔
        isLocal line = true ∨ (wholePath? left).isSome = true ∨
          ∀ path ∈ found, ¬ IsShown registry path) := by
  intro line found after
  have hfound : target? line = found := target?_leftSide hl
  have hafter : after = { registry := if isLocal line then registry
                                      else documentTarget registry decl found } := by
    simp only [after, codeLine, commitBlock, hclass, htype, commitField_eq, hfound]
  have hwhole {path : List Text} (h : wholePath? left = some path) : found = some path := by
    simp only [found, endPath?_of_wholePath? h, Option.some_or]
  refine ⟨hafter, fun path blanks hpath hblanks hleft => ?_, ?_⟩
  · have hpathText := wholePath?_eq_some_iff.mpr ⟨hpath, blanks, hleft, hblanks⟩
    exact ⟨hpathText, hwhole hpathText⟩
  · rw [hafter]
    cases hlocal : isLocal line with
    | true => simp
    | false =>
        cases hpath : wholePath? left with
        | some path => simp [hwhole hpath]
        | none =>
            have hself := documentTarget_eq_self_iff registry decl found
            simpa [documentTarget] using hself

/-- A member of a row of a table, the row being found by a comparison. -/
theorem codeLine_indexedCount :
    let pending := ["---@type number? how many".toList]
    let left := "rows[a == b].count ".toList
    let decl : TypeDecl := ⟨"number?".toList, some "how many".toList⟩
    (Block.ofLines pending).classDecl = none ∧ (Block.ofLines pending).typeDecl = some decl ∧
      IsLeftSide left " 1".toList ∧ wholePath? left = none ∧
      codeLine {} pending (left ++ '=' :: " 1".toList) [] =
        { registry :=
            { fields := [⟨"count".toList, "number?".toList, true, some "how many".toList⟩] } } := by
  intro pending left decl
  have hclass : (Block.ofLines pending).classDecl = none := by decide +kernel
  have htype : (Block.ofLines pending).typeDecl = some decl := by decide +kernel
  have hleft : IsLeftSide left " 1".toList := by decide +kernel
  refine ⟨hclass, htype, hleft, by decide +kernel, ?_⟩
  rw [(codeLine_assignment hclass htype hleft {} []).1]
  decide +kernel

/-- Fields are documented for the member of a row, for the last of two names, and for an entry of
the table that is assigned to a row. -/
theorem indexedTarget_documented :
    let field (name : String) : FieldDoc := ⟨name.toList, "number".toList, true, none⟩
    wholePath? "t[1].size ".toList = none ∧
      parse "---@type number\nt[1].size = 3".toList defaultNamespace =
        .ok ⟨[⟨defaultNamespace, [], [], [field "size"]⟩]⟩ ∧
      parse "---@type number\nwidth, height = load()".toList defaultNamespace =
        .ok ⟨[⟨defaultNamespace, [], [], [field "height"]⟩]⟩ ∧
      parse "---@type number\nt[1] = \x7b size = 3 \x7d".toList defaultNamespace =
        .ok ⟨[⟨defaultNamespace, [], [], [field "size"]⟩]⟩ := by
  decide +kernel

end Reader

end LuaReference
