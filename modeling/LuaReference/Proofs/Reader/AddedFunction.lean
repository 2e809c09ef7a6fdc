import LuaReference.Proofs.Reader.NormalForm

set_option autoImplicit false

/-! # The function that a line adds

A line of code behind a block that declares no class and no type adds one function or nothing.
`FunctionDoc.Documents` says part by part what the function takes from the header and the block,
`Registry.AddsFunction` where it is put, all else being left as it is, and `Reader.FunctionLine`
which of the four cases a line falls under. The lines further down that are searched for a
returned value are not read by that: the reader goes on with all of them.
-/

namespace LuaReference

/-- What a name is looked up by is the first element of that name. -/
theorem exists_first_of_find? {α : Type} {name : α → Text} {wanted : Text} {list : List α}
    {found : α} (h : list.find? (name · = wanted) = some found) :
    name found = wanted ∧ ∃ before after, list = before ++ found :: after ∧
      ∀ other ∈ before, name other ≠ wanted := by
  obtain ⟨hname, before, after, hlist, hfirst⟩ := List.find?_eq_some_iff_append.mp h
  refine ⟨of_decide_eq_true hname, before, after, hlist, fun other hother => ?_⟩
  simpa using hfirst other hother

/-! ## Parameters -/

/-- What is documented about a parameter, by the entries of a block. -/
inductive ParamDoc.IsFrom (entries : List ParamEntry) (param : ParamDoc) : Prop where
  /-- The first entry of its name says what the parameter is. A question mark at the end of the
  type is no part of it and makes the parameter optional. -/
  | documented {before after : List ParamEntry} {entry : ParamEntry}
      (entries_eq : entries = before ++ entry :: after) (named : entry.name = param.name)
      (first : ∀ other ∈ before, other.name ≠ param.name)
      (type : entry.type = param.type ++ if param.optional then ['?'] else [])
      (optional : param.optional = true ↔ entry.type.getLast? = some '?')
      (description : param.description = cleanDescription entry.description)
  /-- Without an entry nothing is known about it. -/
  | undocumented (unnamed : ∀ entry ∈ entries, entry.name ≠ param.name)
      (type : param.type = anyType) (optional : param.optional = false)
      (description : param.description = none)

/-- The question mark is put back behind the type it was taken from. -/
theorem splitOptional_append (type : Text) :
    (splitOptional type).1 ++ (if (splitOptional type).2 then ['?'] else []) = type := by
  rw [splitOptional]
  by_cases hmark : type.getLast? = some '?'
  · obtain ⟨front, rfl⟩ := List.getLast?_eq_some_iff.mp hmark
    rw [if_pos hmark, List.dropLast_concat]
    rfl
  · rw [if_neg hmark]
    exact List.append_nil type

theorem splitOptional_optional (type : Text) :
    (splitOptional type).2 = true ↔ type.getLast? = some '?' := by
  rw [splitOptional]
  by_cases hmark : type.getLast? = some '?'
  · rw [if_pos hmark]
    exact iff_of_true rfl hmark
  · rw [if_neg hmark]
    exact iff_of_false Bool.false_ne_true hmark

theorem Reader.isFrom_paramDoc (block : Block) (name : Text) :
    (paramDoc block name).IsFrom block.params := by
  cases hfound : block.params.find? (·.name = name) with
  | none =>
      have hdoc : paramDoc block name = ⟨name, anyType, false, none⟩ := by
        rw [paramDoc, Block.findParam?, hfound]
        rfl
      rw [hdoc]
      refine .undocumented ?_ rfl rfl rfl
      simpa using List.find?_eq_none.mp hfound
  | some entry =>
      obtain ⟨rfl, before, after, hentries, hfirst⟩ := exists_first_of_find? hfound
      have hdoc : paramDoc block entry.name = entry.finish := by
        rw [paramDoc, Block.findParam?, hfound]
        rfl
      rw [hdoc]
      exact .documented hentries rfl hfirst (splitOptional_append entry.type).symm
        (splitOptional_optional entry.type) rfl

/-! ## What a function says -/

/-- The parts of a function that a header and the block in front of it document, `returnsValue`
telling whether its text is seen to give back a value. -/
structure FunctionDoc.Documents (block : Block) (header : FunctionHeader) (returnsValue : Bool)
    (function : FunctionDoc) : Prop where
  name : function.name = header.name
  isStatic : function.isStatic = true ↔
    block.nonStatic = false ∧ ∀ owner ∈ header.owner, owner.separator ≠ .colon
  description : function.description = cleanDescription block.description
  /-- There is one parameter for each name in the header, in their order, and no other. -/
  paramNames : function.params.map ParamDoc.name = Declaration.paramNames header.params
  params : ∀ param ∈ function.params, param.IsFrom block.params
  /-- Returned values that the block lists are kept in their order. -/
  returns : block.returns ≠ [] → function.returns = block.returns.map ReturnEntry.finish
  /-- If it lists none, one of any type stands for what the text of the function gives back. -/
  returns_of_nil : block.returns = [] →
    function.returns = if returnsValue then [⟨anyType, [], none⟩] else []

theorem Reader.functionDoc_documents (block : Block) (header : FunctionHeader)
    (returnsValue : Bool) :
    (functionDoc block header returnsValue).Documents block header returnsValue where
  name := rfl
  isStatic := by
    show (!block.nonStatic && header.owner.all (·.separator = .dot)) = true ↔ _
    have hseparator (separator : Separator) : separator = .dot ↔ separator ≠ .colon := by
      cases separator <;> decide
    simp [Option.all_eq_true, hseparator]
  description := rfl
  paramNames := by
    have hname : ParamDoc.name ∘ paramDoc block = id := funext (paramDoc_name block)
    show ((Declaration.paramNames header.params).map (paramDoc block)).map ParamDoc.name = _
    rw [List.map_map, hname, List.map_id]
  params := by
    intro param hparam
    obtain ⟨name, -, rfl⟩ := List.mem_map.mp hparam
    exact isFrom_paramDoc block name
  returns := by
    intro hne
    rw [functionDoc, FunctionDoc.finish]
    cases hreturns : block.returns with
    | nil => exact absurd hreturns hne
    | cons first more => rfl
  returns_of_nil := by
    intro hnil
    rw [functionDoc, FunctionDoc.finish, hnil]
    rfl

/-! ## Where a function goes -/

namespace Registry

/-- One function more: behind the functions of the class that owns it, which comes behind all
other classes if it is new, or behind the functions outside of classes. -/
inductive AddsFunction (registry : Registry) (function : FunctionDoc) :
    Option Owner → Registry → Prop where
  | outside :
      AddsFunction registry function none
        { registry with functions := registry.functions ++ [function.draft] }
  | known {owner : Owner} {before after : List ClassDoc} {doc : ClassDoc}
      (classes_eq : registry.classes = before ++ doc :: after)
      (named : doc.name = dotted owner.path)
      (first : ∀ other ∈ before, other.name ≠ dotted owner.path) :
      AddsFunction registry function (some owner)
        { registry with
          classes := before ++ { doc with functions := doc.functions ++ [function] } :: after }
  | new {owner : Owner} (unnamed : ∀ doc ∈ registry.classes, doc.name ≠ dotted owner.path) :
      AddsFunction registry function (some owner)
        { registry with
          classes := registry.classes ++ [⟨dotted owner.path, none, [], [function]⟩] }

section UpdateClass

variable {name : Text} {change : ClassDoc → ClassDoc}

/-- The first class of a name is changed in its place. -/
theorem updateClass_append_cons {before : List ClassDoc} {doc : ClassDoc}
    (hfirst : ∀ other ∈ before, other.name ≠ name) (hdoc : doc.name = name)
    (after : List ClassDoc) :
    updateClass name change (before ++ doc :: after) = before ++ change doc :: after := by
  induction before with
  | nil => rw [List.nil_append, updateClass, if_pos hdoc, List.nil_append]
  | cons other before ih =>
      have hother : other.name ≠ name := hfirst other List.mem_cons_self
      rw [List.cons_append, updateClass, if_neg hother,
        ih fun doc hmem => hfirst doc (List.mem_cons_of_mem _ hmem), List.cons_append]

/-- A class that is not known yet comes last. -/
theorem updateClass_of_unnamed {classes : List ClassDoc}
    (h : ∀ doc ∈ classes, doc.name ≠ name) :
    updateClass name change classes = classes ++ [change ⟨name, none, [], []⟩] := by
  induction classes with
  | nil => rfl
  | cons doc classes ih =>
      have hdoc : doc.name ≠ name := h doc List.mem_cons_self
      rw [updateClass, if_neg hdoc, ih fun other hmem => h other (List.mem_cons_of_mem _ hmem),
        List.cons_append]

end UpdateClass

theorem addsFunction_addFunction (registry : Registry) (owner : Option Owner)
    (function : FunctionDoc) :
    AddsFunction registry function owner (Reader.addFunction registry owner function) := by
  cases owner with
  | none => exact .outside
  | some owner =>
      show AddsFunction registry function (some owner)
        { registry with
          classes := updateClass (dotted owner.path)
            (fun doc => { doc with functions := doc.functions ++ [function] }) registry.classes }
      cases hfound : registry.classes.find? (·.name = dotted owner.path) with
      | none =>
          have hunnamed : ∀ doc ∈ registry.classes, doc.name ≠ dotted owner.path := by
            simpa using List.find?_eq_none.mp hfound
          rw [updateClass_of_unnamed hunnamed]
          exact .new hunnamed
      | some doc =>
          obtain ⟨hnamed, before, after, hclasses, hfirst⟩ := exists_first_of_find? hfound
          rw [hclasses, updateClass_append_cons hfirst hnamed]
          exact .known hclasses hnamed hfirst

end Registry

/-! ## Lines -/

/-- The line begins with the word that makes a declaration local, and a blank. -/
def Declaration.BeginsLocal (line : Text) : Prop :=
  ∃ blank more, isBlank blank = true ∧ line = "local".toList ++ blank :: more

theorem Declaration.isLocal_iff (line : Text) : isLocal line = true ↔ BeginsLocal line :=
  Tag.isSome_afterKeyword? "local".toList line

namespace Reader

/-- What becomes of a registry when a line of code is read that stands behind a block, `rest`
being the lines that follow: nothing in three cases, else one function is added to it. -/
inductive FunctionLine (registry : Registry) (block : Block) (line : Text) (rest : List Text) :
    Registry → Prop where
  | isLocal (begins : Declaration.BeginsLocal line) :
      FunctionLine registry block line rest registry
  | noHeader (missing : Declaration.headerOf? line = none) :
      FunctionLine registry block line rest registry
  | hiddenOwner {header : FunctionHeader} {owner : Owner}
      (found : Declaration.headerOf? line = some header) (owned : header.owner = some owner)
      (hidden : registry.isHidden (owner.path.headD []) = true) :
      FunctionLine registry block line rest registry
  | added {header : FunctionHeader} {function : FunctionDoc} {new : Registry}
      (notLocal : ¬ Declaration.BeginsLocal line)
      (found : Declaration.headerOf? line = some header)
      (visible : ∀ owner ∈ header.owner, registry.isHidden (owner.path.headD []) = false)
      (documents : function.Documents block header (Returns.afterLine line rest))
      (adds : registry.AddsFunction function header.owner new) :
      FunctionLine registry block line rest new

theorem isHiddenOwner_iff (registry : Registry) (owner : Option Owner) :
    isHiddenOwner registry owner = true ↔
      ∃ table ∈ owner, registry.isHidden (table.path.headD []) = true := by
  cases owner <;> simp [isHiddenOwner]

theorem functionLine_commitFunction (registry : Registry) (block : Block) (line : Text)
    (rest : List Text) :
    FunctionLine registry block line rest (commitFunction registry block line rest) := by
  rw [commitFunction]
  by_cases hlocal : Declaration.isLocal line = true
  · rw [if_pos hlocal]
    exact .isLocal ((Declaration.isLocal_iff line).mp hlocal)
  · rw [if_neg hlocal]
    cases hheader : Declaration.headerOf? line with
    | none => exact .noHeader hheader
    | some header =>
        show FunctionLine registry block line rest
          (if isHiddenOwner registry header.owner then registry
            else addFunction registry header.owner
              (functionDoc block header (Returns.afterLine line rest)))
        by_cases hhidden : isHiddenOwner registry header.owner = true
        · rw [if_pos hhidden]
          obtain ⟨owner, howner, hpath⟩ := (isHiddenOwner_iff registry _).mp hhidden
          exact .hiddenOwner hheader howner hpath
        · rw [if_neg hhidden]
          have hvisible : ∀ owner ∈ header.owner,
              registry.isHidden (owner.path.headD []) = false := by
            intro owner howner
            rw [Bool.eq_false_iff]
            intro hpath
            exact hhidden ((isHiddenOwner_iff registry _).mpr ⟨owner, howner, hpath⟩)
          have hbegins : ¬ Declaration.BeginsLocal line :=
            mt (Declaration.isLocal_iff line).mpr hlocal
          exact .added hbegins hheader hvisible (functionDoc_documents block header _)
            (registry.addsFunction_addFunction header.owner _)

/-- Behind a block that declares nothing a line of code leaves no table open and nothing pending,
and the reader goes on with all lines that follow. -/
theorem run_of_no_declaration {registry : Registry} {pending : List Text} {line : Text}
    (hkind : lineKind line = .code) (hclass : (Block.ofLines pending).classDecl = none)
    (htype : (Block.ofLines pending).typeDecl = none) (rest : List Text) :
    run { registry, pending } (line :: rest) =
      run
        { registry :=
            commitFunction (recordLocal registry (Text.trim line)) (Block.ofLines pending)
              (Text.trim line) rest }
        rest := by
  have hstep : step { registry, pending } line rest =
      codeLine (recordLocal registry (Text.trim line)) pending (Text.trim line) rest := by
    rw [step, plainLine_eq, hkind]
  rw [run, hstep, codeLine, commitBlock, hclass, htype]

/-- **A line of code adds one function or nothing.** The function is the one that its header and
the block document, it goes behind those of its owner, and nothing else changes; of the lines that
follow none is passed over, whether or not a returned value was looked for in them. -/
theorem code_line_adds_one_function (registry : Registry) (block : Block) (line : Text)
    (rest : List Text) :
    FunctionLine registry block line rest (commitFunction registry block line rest) ∧
      ∀ pending raw, Block.ofLines pending = block → block.classDecl = none →
        block.typeDecl = none → Text.trim raw = line → lineKind raw = .code →
        run { registry, pending } (raw :: rest) =
          run { registry := commitFunction (recordLocal registry line) block line rest } rest := by
  refine ⟨functionLine_commitFunction registry block line rest, ?_⟩
  rintro pending raw rfl hclass htype rfl hkind
  exact run_of_no_declaration hkind hclass htype rest

/-- A comment on a method with two entries on one parameter and one on none. -/
def moveComment : List Text :=
  ["--- Moves it".toList, "---@param by number? how far".toList, "---@param by string".toList,
    "---@param speed number".toList]

def moveLine : Text := "function Circle:move(by, , how)".toList

def moveBody : List Text := ["return self".toList, "end".toList]

/-- The first of two entries counts, a name without one is of any type, and what is returned is
found behind the line, where the reader goes on. -/
theorem run_moveLine :
    FunctionLine {} (Block.ofLines moveComment) moveLine moveBody
        (commitFunction {} (Block.ofLines moveComment) moveLine moveBody) ∧
      run { pending := moveComment } (moveLine :: moveBody) =
        run
          { registry :=
              { classes := [⟨"Circle".toList, none, [],
                  [⟨"move".toList, false, some "Moves it".toList,
                    [⟨"by".toList, "number".toList, true, some "how far".toList⟩,
                      ⟨"how".toList, anyType, false, none⟩],
                    [⟨anyType, [], none⟩]⟩]⟩] } }
          moveBody := by
  have h := code_line_adds_one_function {} (Block.ofLines moveComment) moveLine moveBody
  refine ⟨h.1, ?_⟩
  calc run { pending := moveComment } (moveLine :: moveBody)
      = run
          { registry :=
              commitFunction (recordLocal {} moveLine) (Block.ofLines moveComment) moveLine
                moveBody }
          moveBody :=
        h.2 moveComment moveLine rfl (by decide +kernel) (by decide +kernel) (by decide +kernel)
          (by decide +kernel)
    _ = _ := congrArg (fun registry => run { registry } moveBody) (by decide +kernel)

end Reader

end LuaReference
