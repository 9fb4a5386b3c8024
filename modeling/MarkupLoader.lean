import MarkupLoader.CommandLine
import MarkupLoader.Heap.Liveness
import MarkupLoader.Inspection
import MarkupLoader.Main
import MarkupLoader.Proofs.Caching
import MarkupLoader.Proofs.Lockstep
import MarkupLoader.Proofs.Omission
import MarkupLoader.Proofs.Rooting
import MarkupLoader.Proofs.RoundTrip
import MarkupLoader.Proofs.Soundness
import MarkupLoader.Proofs.Copies
import MarkupLoader.Proofs.Contents
import MarkupLoader.Proofs.Made
import MarkupLoader.Proofs.Later
import MarkupLoader.Proofs.Course
import MarkupLoader.Proofs.Applying
import MarkupLoader.Proofs.Children
import MarkupLoader.Proofs.DictionaryElements
import MarkupLoader.Proofs.LexicalScope
import MarkupLoader.Proofs.Names
import MarkupLoader.Proofs.Instantiating
import MarkupLoader.Proofs.ExpressionText
import MarkupLoader.Proofs.Commutation
import MarkupLoader.Proofs.Cleaned
import MarkupLoader.Proofs.LiteralLoad
import MarkupLoader.Proofs.Valued
import MarkupLoader.Proofs.Building
import MarkupLoader.Proofs.OwnRules
import MarkupLoader.Proofs.Declarations
import MarkupLoader.Proofs.HandingOn
import MarkupLoader.Proofs.Precedence
import MarkupLoader.Proofs.Releasing
import MarkupLoader.Proofs.DictionaryFold
import MarkupLoader.Proofs.ContentSyntax
import MarkupLoader.Proofs.AttributeSyntax
import MarkupLoader.Proofs.Subtrees
import MarkupLoader.Proofs.Nesting
import MarkupLoader.Proofs.InPlace
import MarkupLoader.Proofs.EarlyFailure
import MarkupLoader.Proofs.Transparency
import MarkupLoader.Proofs.Checking
import MarkupLoader.Proofs.Dumping
import MarkupLoader.Proofs.Inheritance
import MarkupLoader.Proofs.Coerced
import MarkupLoader.Proofs.DocumentOrder
import MarkupLoader.Proofs.Following
import MarkupLoader.Proofs.Onward
import MarkupLoader.Proofs.Positions
import MarkupLoader.Proofs.Sources
import MarkupLoader.Proofs.Directories
import MarkupLoader.Proofs.Detaching
import MarkupLoader.Proofs.Outward
import MarkupLoader.Proofs.References
