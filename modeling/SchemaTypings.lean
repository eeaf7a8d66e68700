import SchemaTypings.Main
import SchemaTypings.Proofs.Emission
import SchemaTypings.Proofs.Views
import SchemaTypings.Proofs.Grammar
import SchemaTypings.Proofs.NormalForm
import SchemaTypings.Proofs.DeclaredNames
import SchemaTypings.Proofs.ImportNames
import SchemaTypings.Proofs.SortedOutput
import SchemaTypings.Proofs.FileNames
import SchemaTypings.Proofs.InlineEnums
import SchemaTypings.Proofs.DocumentOrder
import SchemaTypings.Proofs.ReadBack
import SchemaTypings.Proofs.TrimmedOutput
import SchemaTypings.Proofs.Addition
import SchemaTypings.Proofs.InterfacePrefix
import SchemaTypings.Proofs.Findings
import SchemaTypings.Proofs.Diagnosis
import SchemaTypings.Proofs.Places
import SchemaTypings.Proofs.Writing
import SchemaTypings.Proofs.Runs
import SchemaTypings.Proofs.PrintedTokens
import SchemaTypings.Proofs.Dumps
import SchemaTypings.Proofs.EntityNames
import SchemaTypings.Proofs.Members
import SchemaTypings.Proofs.ReferenceChains
import SchemaTypings.Proofs.ResolverCalls
import SchemaTypings.Proofs.TableSessions
import SchemaTypings.Proofs.Inheritance
import SchemaTypings.Proofs.KeyTypes
import SchemaTypings.Proofs.Sanitizing
import SchemaTypings.Proofs.OnePass
import SchemaTypings.Proofs.ShortNames
import SchemaTypings.Proofs.UnquotedNames
