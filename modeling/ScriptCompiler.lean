import ScriptCompiler.Main
import ScriptCompiler.Proofs.Cycles
import ScriptCompiler.Proofs.Defects
import ScriptCompiler.Proofs.NameSpelling
import ScriptCompiler.Proofs.FormatString
import ScriptCompiler.Proofs.LineBreaks
import ScriptCompiler.Proofs.RangeValues
import ScriptCompiler.Proofs.EscapeGrammar
import ScriptCompiler.Proofs.DeclaredOnce
import ScriptCompiler.Proofs.BundleIsolation
import ScriptCompiler.Proofs.Awaits
import ScriptCompiler.Proofs.MemberAccess
import ScriptCompiler.Proofs.ComprehensionLoops
import ScriptCompiler.Proofs.Writes
import ScriptCompiler.Proofs.BinderCalls
import ScriptCompiler.Proofs.QuoteReading
import ScriptCompiler.Proofs.Backpatching
import ScriptCompiler.Proofs.BooleanChains
import ScriptCompiler.Proofs.HeaderSearch
import ScriptCompiler.Proofs.Dedentation
import ScriptCompiler.Proofs.ContextAgreement
import ScriptCompiler.Workspace.FileTree
