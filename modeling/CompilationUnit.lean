import CompilationUnit.CommandLine.FileTree
import CompilationUnit.Json.Complete
import CompilationUnit.Main
import CompilationUnit.Proofs.Code.Unambiguity
import CompilationUnit.Proofs.Coherence
import CompilationUnit.Proofs.Components
import CompilationUnit.Proofs.Dangling
import CompilationUnit.Proofs.DeadFunctions
import CompilationUnit.Proofs.Emission.BlockOrder
import CompilationUnit.Proofs.Emission.Decoration
import CompilationUnit.Proofs.Emission.Indentation
import CompilationUnit.Proofs.Emission.Nesting
import CompilationUnit.Proofs.Emission.SectionOrder
import CompilationUnit.Proofs.Emission.Template
import CompilationUnit.Proofs.Emission.Truncation
import CompilationUnit.Proofs.Layout
import CompilationUnit.Proofs.Preorder
import CompilationUnit.Proofs.Recursion
import CompilationUnit.Proofs.Stability
