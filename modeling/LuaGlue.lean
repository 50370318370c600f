import LuaGlue.Conversion.Tags
import LuaGlue.Main
import LuaGlue.Run.CommandLine
import LuaGlue.TypeExpr.Printer
import LuaGlue.Proofs.Except
import LuaGlue.Proofs.Model.Async
import LuaGlue.Proofs.Model.Bindable
import LuaGlue.Proofs.Model.Binding
import LuaGlue.Proofs.Model.ClassForest
import LuaGlue.Proofs.Model.ClassOrder
import LuaGlue.Proofs.Model.Classes
import LuaGlue.Proofs.Model.Registration
import LuaGlue.Proofs.Model.Resolution
import LuaGlue.Proofs.Spec.Reading
import LuaGlue.Proofs.Spec.Expressions
import LuaGlue.Proofs.TypeExpr.Grammar
import LuaGlue.Proofs.TypeExpr.RoundTrip
import LuaGlue.Proofs.Model.Closure
import LuaGlue.Proofs.Model.DeclarationOrder
import LuaGlue.Proofs.Model.Expansion
import LuaGlue.Proofs.Lua.CallingConvention
import LuaGlue.Proofs.TypeExpr.FirstFault
import LuaGlue.Proofs.Conversion.Induction
import LuaGlue.Proofs.Lua.FunctionNames
import LuaGlue.Proofs.Lua.LinearConversion
import LuaGlue.Proofs.Text.Lines
import LuaGlue.Proofs.Code.Lines
import LuaGlue.Proofs.Model.OneLine
import LuaGlue.Proofs.Text.LineStart
import LuaGlue.Proofs.Lua.ConversionLines
import LuaGlue.Proofs.Lua.RecordConversions
import LuaGlue.Proofs.Lua.Symbols
import LuaGlue.Proofs.Lua.UnitDefinitions
import LuaGlue.Proofs.Lua.UnitSymbols
import LuaGlue.Proofs.Model.Lineage
import LuaGlue.Proofs.Lua.DefinedBeforeUse
import LuaGlue.Proofs.Annotations.Type
import LuaGlue.Proofs.Annotations.Coverage
import LuaGlue.Proofs.Document.Merge
import LuaGlue.Proofs.Document.MergedTables
import LuaGlue.Proofs.Spec.Merging
import LuaGlue.Proofs.Spec.Canonical
import LuaGlue.Proofs.Text.SnakeCase
import LuaGlue.Proofs.Lua.HostNames
import LuaGlue.Proofs.Lua.FunctionValues
import LuaGlue.Proofs.Lua.CheckedConversion
import LuaGlue.Proofs.Lua.EagerChecks
import LuaGlue.Proofs.Text.Nesting
import LuaGlue.Proofs.Code.Nesting
import LuaGlue.Proofs.Code.Indentation
import LuaGlue.Proofs.Cpp.Spelling
import LuaGlue.Proofs.Lua.NestedConversion
import LuaGlue.Proofs.Lua.NestedUnit
import LuaGlue.Proofs.Run.Workspace
import LuaGlue.Proofs.Run.Action
import LuaGlue.Proofs.Run.AllOrNothing
import LuaGlue.Proofs.Model.AsyncForm
import LuaGlue.Proofs.Cpp.Spellable
import LuaGlue.Proofs.Lua.Convertible
import LuaGlue.Proofs.Lua.Polarity
import LuaGlue.Proofs.Lua.Constness
import LuaGlue.Proofs.Lua.NilPushed
import LuaGlue.Proofs.Lua.ReadBack
import LuaGlue.Proofs.Model.BaseLoops
import LuaGlue.Proofs.Model.ResolvedSpelling
import LuaGlue.Proofs.Annotations.Nullability
import LuaGlue.Proofs.Document.Grouping
import LuaGlue.Proofs.TypeExpr.Partition
import LuaGlue.Proofs.Spec.Enumerators
import LuaGlue.Proofs.Spec.Attribution
import LuaGlue.Proofs.Text.WordBreaks
import LuaGlue.Proofs.Conversion.MissingRules
import LuaGlue.Proofs.Cpp.Markers
import LuaGlue.Proofs.Lua.Machine
import LuaGlue.Proofs.Lua.Metatables
