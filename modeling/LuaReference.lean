import LuaReference.CommandLine.Basic
import LuaReference.CommandLine.Setting
import LuaReference.Main
import LuaReference.Proofs.Merge.Lossless
import LuaReference.Proofs.Reader.EnumRoundTrip
import LuaReference.Proofs.Reader.FunctionRoundTrip
import LuaReference.Proofs.Tag.TypeReading
import LuaReference.Reader.Stages
import LuaReference.Registry.Edit
import LuaReference.Service.Basic
import LuaReference.Proofs.Reader.Step
import LuaReference.Proofs.Merge.UniqueMembers
import LuaReference.Proofs.Reader.HiddenLocals
import LuaReference.Proofs.Reader.AppendOnly
import LuaReference.Proofs.Reader.Blocks
import LuaReference.Proofs.Reader.Ahead
import LuaReference.Proofs.Reader.Layout
import LuaReference.Proofs.Source.MarkedReading
import LuaReference.Proofs.Reader.TrailingComments
import LuaReference.Proofs.Project.LineBreaks
import LuaReference.Proofs.Doc.ExportRoundTrip
import LuaReference.Proofs.Reader.NormalForm
import LuaReference.Proofs.Drafts.Agreement
import LuaReference.Proofs.Tag.WrittenTag
import LuaReference.Proofs.Tag.LineReading
import LuaReference.Proofs.CommandLine.AllOrNothing
import LuaReference.Proofs.Tag.LongestType
import LuaReference.Proofs.Tag.Continuation
import LuaReference.Proofs.Reader.AddedFunction
import LuaReference.Proofs.Reader.ParamOrder
import LuaReference.Proofs.Returns.Occurrence
import LuaReference.Proofs.Reader.LocalNames
import LuaReference.Proofs.Returns.Literals
import LuaReference.Proofs.Returns.Lookahead
import LuaReference.Proofs.Returns.OneLine
import LuaReference.Proofs.Reader.TypedAssignment
import LuaReference.Proofs.Reader.EntryTypes
import LuaReference.Proofs.Reader.TableComments
import LuaReference.Proofs.Files.Ways
import LuaReference.Proofs.Project.Overlap
import LuaReference.Proofs.Reader.MissingTable
import LuaReference.Proofs.Reader.StoredTypes
import LuaReference.Proofs.Source.HeaderSearch
import LuaReference.Proofs.Project.Skipping
import LuaReference.Proofs.Project.PatternRoot
import LuaReference.Proofs.Registry.History
import LuaReference.Proofs.Reader.Passes
import LuaReference.Proofs.Source.Stretches
