import PackageScript.Host.Scripted
import PackageScript.Main
import PackageScript.Placeholder.Menu
import PackageScript.Proofs.Engine.Nesting
import PackageScript.Proofs.Engine.RetryChains
import PackageScript.Proofs.Engine.SuccessFlag
import PackageScript.Proofs.Files.Move
import PackageScript.Proofs.Guard.Spellings
import PackageScript.Proofs.Guard.Wildcards
import PackageScript.Proofs.Placeholder.Templates
import PackageScript.Proofs.Script.Printing
import PackageScript.Proofs.Files.Extensionality
import PackageScript.Proofs.Path.Parts
import PackageScript.Proofs.Files.Below
import PackageScript.Proofs.Files.Ways
import PackageScript.Proofs.Files.Layers
import PackageScript.Proofs.Files.TreeCopies
import PackageScript.Proofs.Guard.Confinement
import PackageScript.Proofs.Engine.Notices
import PackageScript.Proofs.Engine.PlatformSections
import PackageScript.Proofs.Files.Inventory
import PackageScript.Proofs.Files.Mirrors
import PackageScript.Proofs.Command.Past
import PackageScript.Proofs.Engine.Lockstep
import PackageScript.Proofs.Engine.Transcript
import PackageScript.Proofs.Engine.Isolation
import PackageScript.Proofs.Engine.Bindings
import PackageScript.Proofs.Engine.Accounting
import PackageScript.Proofs.Command.FileEffects
import PackageScript.Proofs.Files.Counterparts
import PackageScript.Proofs.Files.Replacing
import PackageScript.Proofs.Files.Spared
import PackageScript.Proofs.Guard.MirrorTargets
import PackageScript.Proofs.Guard.MoveTargets
import PackageScript.Proofs.Guard.Rules
import PackageScript.Proofs.Guard.Sweeps
import PackageScript.Proofs.Engine.Menus
import PackageScript.Proofs.Placeholder.Leftovers
import PackageScript.Proofs.Command.DeletedMatches
import PackageScript.Proofs.Files.LinkedTrees
import PackageScript.Proofs.Files.SelfCopies
import PackageScript.Proofs.Command.BulkMoves
import PackageScript.Proofs.Command.BulkCopies
import PackageScript.Proofs.Command.IntoDirectory
import PackageScript.Proofs.Command.LiteralDeletes
import PackageScript.Proofs.Files.Arrivals
import PackageScript.Proofs.Files.Reruns
import PackageScript.Proofs.Script.Concatenation
import PackageScript.Proofs.Script.Layout
import PackageScript.Proofs.Command.Replacements
import PackageScript.Proofs.Placeholder.Lists
import PackageScript.Proofs.Command.Reboots
import PackageScript.Proofs.Script.Loading
import PackageScript.Proofs.Engine.CommandLog
