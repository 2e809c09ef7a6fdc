import LuaReference.Proofs.Reader.Ahead
import LuaReference.Proofs.Reader.Blocks
import LuaReference.Proofs.Source.MarkedReading

set_option autoImplicit false

/-! # Comments behind code

A comment behind a line of code is cut off before the line is asked for a returned value, but what
the line declares is searched for in the whole line. So such a comment matters in one case: nothing
is found in the code and something in the line with its comment. Then a name is documented, or
recorded as local, that no code declares (`commentedHeader_documented`). In all other cases the
documentation stays the same (`parse_withComment`), and as what is found ends in an equals sign or
in a closing parenthesis, a comment that has neither is always harmless.

The code of the line stays the same for the functions above it (`ofLine_append`), what is found in
it stays found (`search_append`), and its first word tells nothing else than before. The one
exception is a line that is the bare word `local`, which makes a local declaration with the blank in
front of the comment.
-/

namespace LuaReference

/-! ## The text behind the code -/

/-- A line of code with a comment behind it. -/
def withComment (line text : Text) : Text := line ++ " -- ".toList ++ text

/-- What stands behind the code of a trimmed line with the comment `text`: blanks, the mark of a
comment, and what is left of the comment. -/
structure IsRemark (text remark : Text) : Prop where
  shape : ∃ blanks more : Text, remark = blanks ++ (commentMarker ++ more) ∧ blanks ≠ [] ∧
    (∀ c ∈ blanks, isBlank c = true) ∧ more <+: ' ' :: text

/-- The trimmed line keeps its code; blanks that stood behind the code are part of the remark. -/
theorem trim_withComment {line : Text} (h : Text.trim line ≠ []) (text : Text) :
    ∃ remark, IsRemark text remark ∧
      Text.trim (withComment line text) = Text.trim line ++ remark := by
  obtain ⟨front, back, hline, hfront, hback⟩ := Text.eq_blanks_append_trim line
  have hdashes : Text.EndsInInk " --".toList := ⟨by decide, by decide⟩
  have hmark : Text.EndsInInk (back ++ " --".toList) := hdashes.append back
  have htext : withComment line text =
      front ++ (Text.trim line ++ ((back ++ " --".toList) ++ ' ' :: text)) := by
    conv_lhs => rw [withComment, hline]
    simp only [List.append_assoc]
    rfl
  refine ⟨(back ++ " --".toList) ++ Text.dropTrailingBlanks (' ' :: text),
    ⟨back ++ [' '], Text.dropTrailingBlanks (' ' :: text), ?_, by simp, ?_, ?_⟩, ?_⟩
  · rw [List.append_assoc, List.append_assoc]
    rfl
  · intro c hc
    rcases List.mem_append.mp hc with hc | hc
    · exact hback c hc
    · obtain rfl := List.mem_singleton.mp hc
      decide
  · rw [Text.dropTrailingBlanks_eq_rdropWhile]
    exact List.rdropWhile_prefix _ _
  · rw [htext, Text.trim_append_left hfront,
      Text.trim_append (Text.endsInInk_trim h) (Text.head_trim line),
      Text.dropTrailingBlanks_append hmark]

namespace IsRemark

variable {text remark : Text}

theorem head (h : IsRemark text remark) : ∀ c ∈ remark.head?, isBlank c = true := by
  obtain ⟨blanks, more, rfl, hne, hblanks, -⟩ := h.shape
  refine Text.head_append hne (fun c hc => hblanks c (List.mem_of_mem_head? hc)) _

/-- A remark has no mark that the comment has not. -/
theorem not_mem (h : IsRemark text remark) {c : Char} (hc : isBlank c = false) (hd : c ≠ '-')
    (ht : c ∉ text) : c ∉ remark := by
  obtain ⟨blanks, more, rfl, -, hblanks, hmore⟩ := h.shape
  intro hmem
  rcases List.mem_append.mp hmem with hmem | hmem
  · exact Text.not_mem_blanks hblanks hc hmem
  rcases List.mem_append.mp hmem with hmem | hmem
  · have hmark : ∀ d ∈ commentMarker, d = '-' := by decide
    exact hd (hmark c hmem)
  rcases List.mem_cons.mp (hmore.subset hmem) with rfl | hmem
  · cases hc
  · exact ht hmem

/-- Whether the code begins with a mark does not depend on the remark. -/
theorem isPrefixOf_append (h : IsRemark text remark) {mark : Text}
    (hm : ∀ c ∈ mark, isBlank c = false) (code : Text) :
    mark.isPrefixOf (code ++ remark) = mark.isPrefixOf code := by
  refine Text.isPrefixOf_append (fun c hc hmem => ?_) code
  have hblank := h.head c hc
  rw [hm c hmem] at hblank
  cases hblank

end IsRemark

namespace Code

/-- A remark is cut off up to the blanks in front of its mark. -/
theorem exists_cutAt_append {text remark : Text} (h : IsRemark text remark) (code : Text) :
    ∃ blanks : Text, (∀ c ∈ blanks, isBlank c = true) ∧
      Text.cutAt commentMarker (code ++ remark) = Text.cutAt commentMarker code ++ blanks := by
  have hhead : ∀ c ∈ remark.head?, c ∉ commentMarker := fun c hc =>
    have hmark : ∀ d ∈ commentMarker, isBlank d = false := by decide
    fun hmem => absurd (h.head c hc) (Bool.eq_false_iff.mp (hmark c hmem))
  obtain ⟨part, hpart, hcut⟩ := Text.exists_cutAt_append hhead code
  refine ⟨part, fun c hc => ?_, hcut⟩
  obtain ⟨blanks, more, rfl, -, hblanks, -⟩ := h.shape
  have hdash : ∀ c ∈ blanks, c ≠ '-' := fun c hc => ne_of_test (hblanks c hc) (by decide)
  have hremark : Text.cutAt commentMarker (blanks ++ (commentMarker ++ more)) = blanks := by
    have hfront : Text.cutAt commentMarker (blanks ++ (commentMarker ++ more)) =
        blanks ++ Text.cutAt commentMarker (commentMarker ++ more) := Text.cutAt_append hdash _
    rw [hfront, Text.cutAt_mark (by decide), List.append_nil]
  rw [hremark] at hpart
  exact hblanks c (hpart.subset hc)

/-- **The code of a line does not depend on the comment behind it.** -/
theorem ofLine_append {text remark : Text} (h : IsRemark text remark) (code : Text) :
    ofLine (code ++ remark) = ofLine code := by
  obtain ⟨blanks, hblanks, hcut⟩ := exists_cutAt_append h code
  rw [ofLine, hcut, Text.trim_append_right hblanks, ofLine]

end Code

/-! ## What is found in a line -/

namespace Declaration

variable {text remark code : Text}

theorem target?_append_of_eq_some (h : IsRemark text remark) {path : List Text}
    (hf : target? code = some path) : target? (code ++ remark) = some path := by
  obtain ⟨found, hfound, rfl⟩ := Option.map_eq_some_iff.mp hf
  have hends : ∀ c ∈ remark.head?, c ≠ '=' := fun c hc => ne_of_test (h.head c hc) (by decide)
  rw [target?, search_append readsTo_assignment? hends hfound]
  rfl

theorem headerOf?_append_of_eq_some {header : FunctionHeader} (hf : headerOf? code = some header) :
    headerOf? (code ++ remark) = some header := by
  obtain ⟨found, hfound, rfl⟩ := Option.map_eq_some_iff.mp hf
  rw [headerOf?, search_append readsTo_header? (fun _ _ => trivial) hfound]
  rfl

theorem target?_append_eq_none (h : IsRemark text remark) (hm : '=' ∉ text)
    (hf : target? code = none) : target? (code ++ remark) = none := by
  have hmark : '=' ∉ remark := h.not_mem (by decide) (by decide) hm
  rw [target?, Option.map_eq_none_iff] at hf ⊢
  exact search_append_eq_none readsTo_assignment? hmark hf

theorem headerOf?_append_eq_none (h : IsRemark text remark) (hm : ')' ∉ text)
    (hf : headerOf? code = none) : headerOf? (code ++ remark) = none := by
  have hmark : ')' ∉ remark := h.not_mem (by decide) (by decide) hm
  rw [headerOf?, Option.map_eq_none_iff] at hf ⊢
  exact search_append_eq_none readsTo_header? hmark hf

/-- Only the bare word `local` makes a declaration with the blank behind it that it does not make
alone, and nothing is found in it. -/
theorem isLocal_append (h : IsRemark text remark) (code : Text) :
    isLocal (code ++ remark) = isLocal code ∨
      isLocal code = false ∧ target? code = none ∧ headerOf? code = none := by
  have hword : "local".toList.isPrefixOf (code ++ remark) = "local".toList.isPrefixOf code :=
    h.isPrefixOf_append (by decide) code
  cases hlocal : "local".toList.isPrefixOf code with
  | false =>
      left
      rw [isLocal_eq_false hlocal, isLocal_eq_false (hword.trans hlocal)]
  | true =>
      obtain ⟨behind, rfl⟩ := List.isPrefixOf_iff_prefix.mp hlocal
      cases behind with
      | nil =>
          right
          rw [List.append_nil, target?, search_eq_none readsTo_assignment? (by decide), headerOf?,
            search_eq_none readsTo_header? (by decide)]
          exact ⟨rfl, rfl, rfl⟩
      | cons c behind =>
          -- whether a blank stands behind the word is seen from the code
          left
          rw [List.append_assoc, isLocal, isLocal, afterLocal?, afterLocal?, Tag.afterKeyword?,
            Tag.afterKeyword?, Text.isPrefixOf?_append, Text.isPrefixOf?_append]
          simp only [Option.bind_some, List.cons_append, Text.afterBlanks?]
          cases isBlank c <;> rfl

end Declaration

namespace Reader

open Declaration

/-! ## The reading of a commented line -/

/-- A line of code behind a block is searched for an assignment if it is local, which records the
name, or if the block gives a type. -/
def SeeksTarget (block : Block) (line : Text) : Prop :=
  isLocal line = true ∨ block.classDecl = none ∧ block.typeDecl ≠ none

/-- It is searched for a function header if it is not local and the block declares nothing else. -/
def SeeksHeader (block : Block) (line : Text) : Prop :=
  isLocal line = false ∧ block.classDecl = none ∧ block.typeDecl = none

/-- If nothing is found in the code of a line, nothing is found in the commented line, as far as
something is searched for. -/
structure AddsNothing (block : Block) (code commented : Text) : Prop where
  target : SeeksTarget block commented → target? code = none → target? commented = none
  header : SeeksHeader block commented → headerOf? code = none → headerOf? commented = none

section AddsNothing

variable {text remark code : Text} {block : Block}

/-- A comment without an equals sign and without a closing parenthesis adds nothing. -/
theorem addsNothing_of_not_mem (h : IsRemark text remark) (hequals : '=' ∉ text)
    (hclose : ')' ∉ text) (block : Block) (code : Text) :
    AddsNothing block code (code ++ remark) :=
  ⟨fun _ => target?_append_eq_none h hequals, fun _ => headerOf?_append_eq_none h hclose⟩

theorem AddsNothing.target_eq (h : AddsNothing block code (code ++ remark))
    (hr : IsRemark text remark) (hs : SeeksTarget block (code ++ remark)) :
    target? (code ++ remark) = target? code := by
  cases hf : target? code with
  | none => exact h.target hs hf
  | some path => exact target?_append_of_eq_some hr hf

theorem AddsNothing.header_eq (h : AddsNothing block code (code ++ remark))
    (hs : SeeksHeader block (code ++ remark)) :
    headerOf? (code ++ remark) = headerOf? code := by
  cases hf : headerOf? code with
  | none => exact h.header hs hf
  | some header => exact headerOf?_append_of_eq_some hf

theorem recordLocal_append (h : AddsNothing block code (code ++ remark))
    (hr : IsRemark text remark) (registry : Registry) :
    recordLocal registry (code ++ remark) = recordLocal registry code := by
  rw [recordLocal, recordLocal]
  rcases isLocal_append hr code with hsame | ⟨hlocal, htarget, -⟩
  · rw [← hsame]
    split
    · rename_i hcommented
      rw [h.target_eq hr (.inl hcommented)]
    · rfl
  · rw [hlocal]
    split
    · rename_i hcommented
      rw [h.target_eq hr (.inl hcommented), htarget]
      rfl
    · rfl

theorem commitField_append (h : AddsNothing block code (code ++ remark))
    (hr : IsRemark text remark) (hclass : block.classDecl = none) {decl : TypeDecl}
    (htype : block.typeDecl = some decl) (registry : Registry) :
    commitField registry decl (code ++ remark) = commitField registry decl code := by
  have htarget := h.target_eq hr (.inr ⟨hclass, by simp [htype]⟩)
  rw [commitField, commitField, htarget]
  rcases isLocal_append hr code with hsame | ⟨hlocal, hnone, -⟩
  · rw [hsame]
  · rw [hlocal, hnone]
    cases isLocal (code ++ remark) <;> rfl

theorem commitFunction_append (h : AddsNothing block code (code ++ remark))
    (hr : IsRemark text remark) (hclass : block.classDecl = none) (htype : block.typeDecl = none)
    (registry : Registry) (rest : List Text) :
    commitFunction registry block (code ++ remark) rest =
      commitFunction registry block code rest := by
  have hreturns : Returns.afterLine (code ++ remark) rest = Returns.afterLine code rest := by
    rw [Returns.afterLine, Returns.inDeclaration, Code.ofLine_append hr, Returns.afterLine,
      Returns.inDeclaration]
  rw [commitFunction, commitFunction, hreturns]
  cases hcommented : isLocal (code ++ remark) with
  | false =>
      have hlocal : isLocal code = false := by
        rcases isLocal_append hr code with hsame | ⟨hlocal, -⟩
        · exact hsame.symm.trans hcommented
        · exact hlocal
      rw [hlocal, h.header_eq ⟨hcommented, hclass, htype⟩]
  | true =>
      rcases isLocal_append hr code with hsame | ⟨hlocal, -, hnone⟩
      · rw [← hsame, hcommented]
        rfl
      · rw [hlocal, hnone]
        rfl

/-- A line of code closes the pending block in the same way with the comment and without it. -/
theorem codeLine_append {pending : List Text}
    (h : AddsNothing (Block.ofLines pending) code (code ++ remark)) (hr : IsRemark text remark)
    (henum : ∀ decl ∈ (Block.ofLines pending).classDecl, decl.isEnum = false)
    (registry : Registry) (rest : List Text) :
    codeLine registry pending (code ++ remark) rest = codeLine registry pending code rest := by
  rw [codeLine, codeLine, commitBlock, commitBlock]
  cases hclass : (Block.ofLines pending).classDecl with
  | some decl =>
      have hplain : decl.isEnum = false := henum decl hclass
      simp only [hplain]
      rfl
  | none =>
      cases htype : (Block.ofLines pending).typeDecl with
      | some decl => simp only [commitField_append h hr hclass htype]
      | none => simp only [commitFunction_append h hr hclass htype]

end AddsNothing

/-- The comment leaves a line of code a line of code. -/
theorem lineKind_withComment {line : Text} (h : lineKind line = .code) (text : Text) :
    lineKind (withComment line text) = .code := by
  obtain ⟨hne, hmark⟩ := (lineKind_eq_code_iff line).mp h
  obtain ⟨remark, hremark, htrim⟩ := trim_withComment hne text
  refine (lineKind_eq_code_iff _).mpr ⟨?_, ?_⟩
  · rw [htrim]
    simp [hne]
  · rw [htrim, hremark.isPrefixOf_append (by decide), hmark]

/-- The functions above a line of code are told the same by it with the comment and without it. -/
theorem sameBody_withComment {line : Text} (h : lineKind line = .code) (text : Text)
    (rest : List Text) : Returns.SameBody (withComment line text :: rest) (line :: rest) := by
  obtain ⟨hne, hmark⟩ := (lineKind_eq_code_iff line).mp h
  obtain ⟨remark, hremark, htrim⟩ := trim_withComment hne text
  obtain ⟨-, hmark'⟩ := (lineKind_eq_code_iff _).mp (lineKind_withComment h text)
  refine .cons (hmark'.trans hmark.symm) ?_ (.refl rest)
  rw [htrim, Code.ofLine_append hremark]

/-- **A comment that adds nothing changes nothing**: the line of code in front of it is read to the
same state. -/
theorem step_withComment {reader : Reader} (ht : reader.table = none) {line text : Text}
    (hk : lineKind line = .code)
    (henum : ∀ decl ∈ (Block.ofLines reader.pending).classDecl, decl.isEnum = false)
    (h : AddsNothing (Block.ofLines reader.pending) (Text.trim line)
      (Text.trim (withComment line text))) (rest : List Text) :
    step reader (withComment line text) rest = step reader line rest := by
  obtain ⟨hne, -⟩ := (lineKind_eq_code_iff line).mp hk
  obtain ⟨remark, hremark, htrim⟩ := trim_withComment hne text
  rw [htrim] at h
  rw [step, step, ht]
  simp only [plainLine_eq, hk, lineKind_withComment hk text, htrim, recordLocal_append h hremark,
    codeLine_append h hremark henum]

end Reader

/-! ## Whole sources -/

/-- **A comment behind a line of code** is harmless unless something is found in it and nothing in
the code. For that it needs an equals sign or a closing parenthesis. -/
theorem parse_withComment {code code' : Text} {before after : List Text} {line text : Text}
    (hcode : Text.lines code = before ++ line :: after)
    (hcode' : Text.lines code' = before ++ withComment line text :: after)
    (hkind : Reader.lineKind line = .code) :
    let reader := Reader.advance {} before (line :: after)
    let block := Block.ofLines reader.pending
    reader.table = none → (∀ decl ∈ block.classDecl, decl.isEnum = false) →
      (Reader.AddsNothing block (Text.trim line) (Text.trim (withComment line text)) →
        ∀ namespaceName, parse code' namespaceName = parse code namespaceName) ∧
      ('=' ∉ text → ')' ∉ text →
        Reader.AddsNothing block (Text.trim line) (Text.trim (withComment line text))) := by
  intro reader block htable henum
  refine ⟨fun h namespaceName => ?_, fun hequals hclose => ?_⟩
  · have hbefore : Reader.advance {} before (withComment line text :: after) = reader :=
      Reader.advance_of_sameBody (Reader.sameBody_withComment hkind text after) {} before
    rw [parse, parse, hcode, hcode', Reader.run_append, Reader.run_append, hbefore, Reader.run,
      Reader.step_withComment htable hkind henum h, Reader.run]
  · obtain ⟨hne, -⟩ := (Reader.lineKind_eq_code_iff line).mp hkind
    obtain ⟨remark, hremark, htrim⟩ := trim_withComment hne text
    rw [htrim]
    exact Reader.addsNothing_of_not_mem hremark hequals hclose block _

/-- A comment behind the header of a documented function, inside of another function: it neither
gives a value back nor declares anything. -/
theorem parse_commentedFunction :
    let before := ["function outer()".toList, "--- Doubles.".toList]
    let line := "function Shape.double(r)".toList
    let text := "return r, unlike function".toList
    let after := ["r = r * 2".toList, "end".toList, "end".toList]
    let code := Text.join ['\n'] (before ++ line :: after)
    let code' := Text.join ['\n'] (before ++ withComment line text :: after)
    let reader := Reader.advance {} before (line :: after)
    let block := Block.ofLines reader.pending
    Text.lines code = before ++ line :: after ∧
      Text.lines code' = before ++ withComment line text :: after ∧
      Reader.lineKind line = .code ∧ reader.table = none ∧
      (∀ decl ∈ block.classDecl, decl.isEnum = false) ∧
      parse code' defaultNamespace = parse code defaultNamespace ∧
      parse code' defaultNamespace = .ok ⟨[⟨defaultNamespace,
        [⟨"Shape".toList, none, [], [⟨"double".toList, true, some "Doubles.".toList,
          [⟨"r".toList, anyType, false, none⟩], []⟩]⟩],
        [⟨"outer".toList, true, none, [], []⟩], []⟩]⟩ := by
  intro before line text after code code' reader block
  have hcode : Text.lines code = before ++ line :: after := by decide +kernel
  have hcode' : Text.lines code' = before ++ withComment line text :: after := by decide +kernel
  have hkind : Reader.lineKind line = .code := by decide +kernel
  have htable : reader.table = none := by decide +kernel
  have henum : ∀ decl ∈ block.classDecl, decl.isEnum = false := by decide +kernel
  have hcomment := parse_withComment hcode hcode' hkind htable henum
  exact ⟨hcode, hcode', hkind, htable, henum,
    hcomment.1 (hcomment.2 (by decide) (by decide)) defaultNamespace, by decide +kernel⟩

/-- Behind code in which nothing is found, a header is taken from the comment, and so is an
assignment behind a type. -/
theorem commentedHeader_documented :
    parse "print(1)".toList defaultNamespace = .ok ⟨[⟨defaultNamespace, [], [], []⟩]⟩ ∧
      parse (withComment "print(1)".toList "function foo()".toList) defaultNamespace =
        .ok ⟨[⟨defaultNamespace, [], [⟨"foo".toList, true, none, [], []⟩], []⟩]⟩ ∧
      parse ("---@type number\n".toList ++ "print(1)".toList) defaultNamespace =
        .ok ⟨[⟨defaultNamespace, [], [], []⟩]⟩ ∧
      parse ("---@type number\n".toList ++ withComment "print(1)".toList "x = 1".toList)
          defaultNamespace =
        .ok ⟨[⟨defaultNamespace, [], [], [⟨"x".toList, "number".toList, true, none⟩]⟩]⟩ := by
  decide +kernel

end LuaReference
