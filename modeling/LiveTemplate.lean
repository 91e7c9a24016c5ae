import LiveTemplate.Config.File
import LiveTemplate.Iteration.KeyList
import LiveTemplate.Workbench.Session
import LiveTemplate.Proofs.Effects
import LiveTemplate.Proofs.Iteration.Index
import LiveTemplate.Proofs.Reactive.Cells
import LiveTemplate.Proofs.Iteration.Merge
import LiveTemplate.Proofs.Iteration.ItemCells
import LiveTemplate.Proofs.Iteration.Target
import LiveTemplate.Proofs.Iteration.Reconciliation
import LiveTemplate.Proofs.Iteration.History
import LiveTemplate.Proofs.Program.Pools
import LiveTemplate.Proofs.Program.Shape
import LiveTemplate.Proofs.Program.Drafts
import LiveTemplate.Proofs.Program.Emission
import LiveTemplate.Proofs.Program.Names
import LiveTemplate.Proofs.Program.Labels
import LiveTemplate.Proofs.Compile.Expressions
import LiveTemplate.Proofs.Compile.Statements
import LiveTemplate.Proofs.Compile.Compilation
import LiveTemplate.Proofs.Program.Blocks
import LiveTemplate.Proofs.Compile.Program
import LiveTemplate.Proofs.Dom.Tree
import LiveTemplate.Proofs.Reactive.Revisions
import LiveTemplate.Proofs.Value.Likeness
import LiveTemplate.Proofs.Reactive.Invalidation
import LiveTemplate.Proofs.Laws
import LiveTemplate.Proofs.Render.Visits
import LiveTemplate.Proofs.Iteration.Abiding
import LiveTemplate.Proofs.Reactive.Obedience
import LiveTemplate.Proofs.Render.Groups
import LiveTemplate.Proofs.Render.Idling
import LiveTemplate.Proofs.Render.Halting
import LiveTemplate.Proofs.Dom.Growth
import LiveTemplate.Proofs.Meaning.Calls
import LiveTemplate.Proofs.Meaning.Choices
import LiveTemplate.Proofs.Meaning.Lists
import LiveTemplate.Proofs.Meaning.Programs
import LiveTemplate.Proofs.Iteration.Interruption
import LiveTemplate.Proofs.Meaning.Rendering
import LiveTemplate.Proofs.Render.Attributes
import LiveTemplate.Proofs.Render.Removal
import LiveTemplate.Proofs.Reactive.Caching
import LiveTemplate.Proofs.Reactive.Variables
import LiveTemplate.Proofs.Compile.Nesting
import LiveTemplate.Proofs.Render.Arguments
import LiveTemplate.Proofs.Render.Items
import LiveTemplate.Proofs.Render.Savepoints
import LiveTemplate.Proofs.Template.Omission
import LiveTemplate.Proofs.Template.Soundness
import LiveTemplate.Proofs.Meaning.Evaluation
import LiveTemplate.Iteration.Links
import LiveTemplate.Proofs.Dom.Ranges
import LiveTemplate.Proofs.Dom.Markup
import LiveTemplate.Proofs.Iteration.LinkedWalk
