import JavaSema.Analysis.Basic
import JavaSema.Analysis.Call
import JavaSema.Analysis.Checker
import JavaSema.Analysis.ClassBody
import JavaSema.Analysis.Creation
import JavaSema.Analysis.Declare
import JavaSema.Analysis.Error
import JavaSema.Analysis.Expr
import JavaSema.Analysis.Functional
import JavaSema.Analysis.Inference
import JavaSema.Analysis.Name
import JavaSema.Analysis.Operator
import JavaSema.Analysis.Overload
import JavaSema.Analysis.State
import JavaSema.Analysis.Stmt
import JavaSema.Analysis.TypeName
import JavaSema.Catalog.Basic
import JavaSema.Catalog.Canonical
import JavaSema.Catalog.Imports
import JavaSema.ClassDef.Basic
import JavaSema.ClassDef.Generic
import JavaSema.ClassDef.OfClassFile
import JavaSema.ClassDef.Outline
import JavaSema.ClassEnv.Basic
import JavaSema.ClassEnv.Hierarchy
import JavaSema.ClassEnv.Members
import JavaSema.ClassFile.Access
import JavaSema.ClassFile.Basic
import JavaSema.ClassFile.ConstantPool
import JavaSema.ClassFile.Descriptor
import JavaSema.ClassFile.Error
import JavaSema.ClassFile.ModifiedUtf8
import JavaSema.ClassFile.Reader
import JavaSema.ClassFile.Signature
import JavaSema.ClassPath.Entry
import JavaSema.ClassPath.Index
import JavaSema.ClassPath.Loader
import JavaSema.ClassPath.Trie
import JavaSema.CommandLine.Args
import JavaSema.CommandLine.Basic
import JavaSema.CommandLine.Json
import JavaSema.CommandLine.Report
import JavaSema.Files.Archive
import JavaSema.Files.Inflate
import JavaSema.Files.Path
import JavaSema.Files.Tree
import JavaSema.Files.Zip
import JavaSema.JType.Assign
import JavaSema.JType.Basic
import JavaSema.JType.Equality
import JavaSema.JType.Merge
import JavaSema.JType.Print
import JavaSema.JType.Subst
import JavaSema.Library.Basic
import JavaSema.Library.Function
import JavaSema.Library.Lang
import JavaSema.Library.Outline
import JavaSema.Library.Util
import JavaSema.Log.Buffer
import JavaSema.Log.FieldMatch
import JavaSema.Log.Filter
import JavaSema.Log.Pattern
import JavaSema.Main
import JavaSema.Name
import JavaSema.Number.Binary
import JavaSema.Primitive
import JavaSema.Scope.Error
import JavaSema.Scope.Symbol
import JavaSema.Scope.Table
import JavaSema.Settings.Basic
import JavaSema.Settings.Decode
import JavaSema.Settings.Error
import JavaSema.Source.Builder
import JavaSema.Source.Literal
import JavaSema.Source.Node
import JavaSema.Source.Render
import JavaSema.Source.Tree
import JavaSema.Source.TypeText
import JavaSema.Source.TypeTree
import JavaSema.Text.Blank
import JavaSema.Text.Letter
import JavaSema.Text.Quote
import JavaSema.Text.Split
import JavaSema.Text.Utf8
import JavaSema.Text.Visible
import JavaSema.Toml.Basic
import JavaSema.Toml.Number
import JavaSema.Toml.Scan
import JavaSema.Toml.Table
import JavaSema.Toml.Text
import JavaSema.Toml.Value
import JavaSema.Proofs.Hierarchy.Supertype
import JavaSema.Proofs.Merge.UpperBound
import JavaSema.Proofs.Run
import JavaSema.Proofs.Scope.Reachable
import JavaSema.Proofs.Analysis.Footprint
import JavaSema.Proofs.Analysis.Declare
import JavaSema.Proofs.Analysis.Lookup
import JavaSema.Proofs.Analysis.Balance
import JavaSema.Proofs.Analysis.Typed
import JavaSema.Proofs.Analysis.Coverage
import JavaSema.Proofs.Assign.Preorder
import JavaSema.Proofs.Scope.Bracket
import JavaSema.Proofs.Source.Stops
import JavaSema.Proofs.Analysis.Still
import JavaSema.Proofs.Analysis.Walk
import JavaSema.Proofs.Analysis.Tour
import JavaSema.Proofs.Analysis.Visit
import JavaSema.Proofs.Analysis.Arguments
import JavaSema.Proofs.Analysis.BodyClass
import JavaSema.Proofs.Analysis.TourFunctional
import JavaSema.Proofs.Catalog.Naming
import JavaSema.Proofs.Analysis.TourExpr
import JavaSema.Proofs.Analysis.TourStmt
import JavaSema.Proofs.Analysis.TourClass
import JavaSema.Proofs.Analysis.TourUnit
import JavaSema.Proofs.Analysis.Calls
import JavaSema.Proofs.Source.BodyClasses
import JavaSema.Proofs.Analysis.Classes
import JavaSema.Proofs.ClassPath.Lazy
import JavaSema.Proofs.ClassFile.Layout
import JavaSema.Proofs.ClassFile.RoundTrip
import JavaSema.Proofs.Scope.Depth
import JavaSema.Proofs.Analysis.Nested
import JavaSema.Proofs.Analysis.Composed
import JavaSema.Proofs.Analysis.Again
import JavaSema.Proofs.Analysis.Order
import JavaSema.Proofs.Analysis.Level
import JavaSema.Proofs.Catalog.Remembered
import JavaSema.Proofs.Scope.Uniform
import JavaSema.Proofs.ClassEnv.Headers
import JavaSema.Proofs.ClassEnv.Overlay
import JavaSema.Proofs.Analysis.Agree
import JavaSema.Proofs.Analysis.Members
import JavaSema.Proofs.Independent
import JavaSema.Proofs.Analysis.Headers
import JavaSema.Proofs.Analysis.Height
import JavaSema.Proofs.Analysis.Phase
import JavaSema.Proofs.Catalog.Permuted
import JavaSema.Proofs.Analysis.Reordered
import JavaSema.Proofs.ClassFile.PrefixFree
import JavaSema.Proofs.ClassFile.Grammar
import JavaSema.Proofs.ClassFile.Printed
import JavaSema.Proofs.ClassFile.Parsed
import JavaSema.Proofs.Inference.Inverse
import JavaSema.Proofs.Hierarchy.Closed
import JavaSema.Proofs.Scope.Representation
import JavaSema.Proofs.Scope.Exit
import JavaSema.Proofs.Scope.Methods
import JavaSema.Proofs.ClassEnv.Named
import JavaSema.Proofs.Analysis.Bodies
import JavaSema.Proofs.Analysis.Usage
import JavaSema.Proofs.ClassPath.Loaded
import JavaSema.Proofs.Catalog.Unique
import JavaSema.Proofs.Hierarchy.Unread
import JavaSema.Proofs.Catalog.Declared
import JavaSema.Proofs.Analysis.MethodRefs
import JavaSema.Proofs.Overload.Stable
import JavaSema.Proofs.Hierarchy.Nearest
import JavaSema.Proofs.Hierarchy.Overriding
import JavaSema.Proofs.Assign.Wildcard
import JavaSema.Proofs.Inference.Arrays
import JavaSema.Proofs.Hierarchy.Capture
import JavaSema.Proofs.Merge.Reference
import JavaSema.Proofs.Inference.Demands
import JavaSema.Proofs.Analysis.Returns
import JavaSema.Proofs.Overload.Result
import JavaSema.Proofs.ClassFile.Erasure
import JavaSema.Proofs.Hierarchy.Depth
import JavaSema.Proofs.Text
import JavaSema.Proofs.ClassPath.Paths
import JavaSema.Proofs.ClassPath.Listing
import JavaSema.Proofs.ClassPath.Readable
import JavaSema.Proofs.Overload.Symbols
import JavaSema.Proofs.Analysis.Lambdas
import JavaSema.Proofs.ClassFile.Utf8
import JavaSema.Proofs.ClassFile.Descriptors
import JavaSema.Proofs.Source.TypeText
import JavaSema.Proofs.Catalog.Canonical
import JavaSema.Proofs.Source.Parents
import JavaSema.Proofs.Merge.Marks
import JavaSema.Proofs.Inference.Runs
import JavaSema.Proofs.Analysis.StaticImports
import JavaSema.Proofs.ClassFile.PoolSize
import JavaSema.Proofs.ClassPath.FiniteMap
import JavaSema.Proofs.JType.Bounds
import JavaSema.Proofs.JType.Composition
