import LuaReference.CommandLine.Basic
import LuaReference.Proofs.Merge.UniqueMembers
import LuaReference.Proofs.Results
import LuaReference.Proofs.Text.Lines

set_option autoImplicit false

/-! # Files and sources

A file is read with its line breaks unified, a source that is given as such is not. Since a source
is read as its lines, and unified breaks close the same lines, files and sources of the same
content have the same documentation (`documentFiles_eq_documentNamespaces`).
-/

namespace LuaReference

/-- Which breaks close the lines of a source does not matter. -/
theorem parse_unifyBreaks (code namespaceName : Text) :
    parse (Text.unifyBreaks code) namespaceName = parse code namespaceName := by
  rw [parse, Text.lines_unifyBreaks, parse]

/-! ## The content of files -/

/-- A byte array lists the bytes it holds. -/
theorem toList_eq_data (bytes : ByteArray) : bytes.toList = bytes.data.toList := by
  -- the loop takes one byte after the other in front of those it has read
  have hloop (i : Nat) (front : List UInt8) :
      ByteArray.toList.loop bytes i front = front.reverse ++ bytes.data.toList.drop i := by
    fun_induction ByteArray.toList.loop bytes i front with
    | case1 i front h ih =>
        have hlt : i < bytes.data.toList.length := by simpa using h
        have hget : bytes.get! i = bytes.data.toList[i] := by
          have hsize : i < bytes.data.size := by simpa using h
          show bytes.data[i]! = _
          rw [getElem!_pos bytes.data i hsize, Array.getElem_toList]
        rw [ih, List.reverse_cons, List.append_assoc, List.drop_eq_getElem_cons hlt, hget]
        rfl
    | case2 i front h =>
        have hle : bytes.data.toList.length ≤ i := by simpa using h
        rw [List.drop_eq_nil_of_le hle, List.append_nil]
  exact hloop 0 []

/-- What is spelled in UTF-8 is read back. -/
theorem Text.ofUtf8?_toUtf8 (text : Text) : ofUtf8? (toUtf8 text) = some text := by
  have hvalid : (String.ofList text).toUTF8.IsValidUTF8 := (String.ofList text).isValidUTF8
  rw [ofUtf8?, toUtf8, toList_eq_data, Array.toArray_toList, String.fromUTF8?, dif_pos hvalid,
    Option.map_some]
  exact congrArg some String.toList_ofList

namespace FileTree

/-- A path leads to a file with that content, its line breaks as they stand in the file. -/
def Holds (tree : FileTree) (path code : Text) : Prop :=
  ∃ bytes, tree.readBytes path = .ok bytes ∧ Text.ofUtf8? bytes = some code

variable {tree : FileTree} {path code : Text}

theorem Holds.readText (h : tree.Holds path code) :
    tree.readText path = .ok (Text.unifyBreaks code) := by
  obtain ⟨bytes, hbytes, hcode⟩ := h
  rw [FileTree.readText, hbytes]
  simp only [Text.ofFile?, hcode, Option.map_some]

/-- A file is documented as its content is. -/
theorem Holds.parseText (h : tree.Holds path code) (name : Text) :
    (do ProjectReport.parseText name (← tree.readText path)) =
      ProjectReport.parseText name code := by
  rw [h.readText]
  show (parse (Text.unifyBreaks code) name).mapError Fault.draft = _
  rw [parse_unifyBreaks, ProjectReport.parseText]

end FileTree

/-! ## Several files -/

/-- Files are documented one by one as their contents are. -/
theorem mapM_parseText_of_holds {tree : FileTree} {name : Text} {files codes : List Text}
    {docs : List Doc} (hfiles : List.Forall₂ tree.Holds files codes)
    (hdocs : List.Forall₂ (fun code doc => parse code name = .ok doc) codes docs) :
    (files.mapM fun path => do ProjectReport.parseText name (← tree.readText path)) =
      .ok docs := by
  rw [mapM_eq_ok_iff]
  induction hfiles generalizing docs with
  | nil =>
      obtain rfl := List.forall₂_nil_left_iff.mp hdocs
      exact .nil
  | cons hfile _ ih =>
      obtain ⟨doc, more, hdoc, hmore, rfl⟩ := List.forall₂_cons_left_iff.mp hdocs
      refine .cons ?_ (ih hmore)
      rw [hfile.parseText, ProjectReport.parseText, hdoc]
      rfl

/-- **Line breaks never matter.** A source has the documentation that it has with its breaks
unified. Hence a file has the documentation of its content as it stands, and the files of a
namespace have that of their contents. -/
theorem documentFiles_eq_documentNamespaces :
    (∀ code name, parse (Text.unifyBreaks code) name = parse code name) ∧
      (∀ (tree : FileTree) (path code : Text), tree.Holds path code →
        ∃ doc, parse code defaultNamespace = .ok doc ∧
          (CommandLine.Task.perform tree (.file path)).2 = .ok doc) ∧
      ∀ (tree : FileTree) (name : Text) (files codes : List Text),
        List.Forall₂ tree.Holds files codes →
          ∃ doc, documentNamespaces [(name, codes)] = .ok ⟨[doc]⟩ ∧
            ProjectReport.documentFiles tree name files = .ok doc := by
  refine ⟨parse_unifyBreaks, fun tree path code hfile => ?_,
    fun tree name files codes hfiles => ?_⟩
  · obtain ⟨functions, -, -, hparse⟩ := exists_parse code defaultNamespace
    refine ⟨_, hparse, ?_⟩
    rw [CommandLine.Task.perform]
    exact (hfile.parseText defaultNamespace).trans (by rw [ProjectReport.parseText, hparse]; rfl)
  · obtain ⟨docs, hdocs, -⟩ := exists_mapM_parse name codes
    have hsources : documentSources name codes = .ok (mergeDocs name docs) := by
      rw [documentSources, hdocs]
      rfl
    refine ⟨mergeDocs name docs, ?_, ?_⟩
    · simp only [documentNamespaces, List.mapM_cons, hsources]
      rfl
    · rw [ProjectReport.documentFiles,
        mapM_parseText_of_holds hfiles ((mapM_eq_ok_iff _ _ _).mp hdocs)]
      rfl

/-- A function whose lines end in a carriage return and a line feed. -/
def pairedSource : Text := "function f()\r\nreturn 1\r\nend\r\n".toList

/-- A comment and a function whose lines end in carriage returns alone. -/
def loneSource : Text := "--- Runs.\rfunction A.run()\r\rend\r\n".toList

/-- Two files with line breaks of several kinds. -/
def mixedTree : FileTree where
  nodes := [(["f.lua".toList], .file (Text.toUtf8 pairedSource)),
    (["a.lua".toList], .file (Text.toUtf8 loneSource))]
  distinct := by decide

theorem mixedTree_documented :
    ∃ doc, documentNamespaces [("game".toList, [pairedSource, loneSource])] = .ok ⟨[doc]⟩ ∧
      ProjectReport.documentFiles mixedTree "game".toList ["f.lua".toList, "a.lua".toList] =
        .ok doc := by
  have hf : mixedTree.Holds "f.lua".toList pairedSource := ⟨_, rfl, Text.ofUtf8?_toUtf8 _⟩
  have ha : mixedTree.Holds "a.lua".toList loneSource := ⟨_, rfl, Text.ofUtf8?_toUtf8 _⟩
  exact documentFiles_eq_documentNamespaces.2.2 mixedTree "game".toList _ _
    (.cons hf (.cons ha .nil))

end LuaReference
