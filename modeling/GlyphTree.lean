import GlyphTree.Command
import GlyphTree.Pipeline.Definition
import GlyphTree.Proofs.Ancestry
import GlyphTree.Proofs.Failures
import GlyphTree.Proofs.Swapping
import GlyphTree.Proofs.Transparency
import GlyphTree.View.Listing
import GlyphTree.View.Snapshot
import GlyphTree.Proofs.Views
import GlyphTree.Proofs.Following
import GlyphTree.Proofs.GroupTables
import GlyphTree.Proofs.Resolved
import GlyphTree.Proofs.Captures
import GlyphTree.Proofs.Snapshots
import GlyphTree.Proofs.Json.Definitions
import GlyphTree.Proofs.Json.Snapshots
import GlyphTree.Proofs.Bookkeeping
import GlyphTree.Proofs.Ignoring
import GlyphTree.Proofs.Checked.Histories
import GlyphTree.Proofs.Rounds
import GlyphTree.Proofs.Carrying
import GlyphTree.Proofs.Landing
import GlyphTree.Proofs.Matched
import GlyphTree.Proofs.FreshNodes
import GlyphTree.Proofs.Promotion
import GlyphTree.Proofs.Runs
import GlyphTree.Proofs.Substitution
import GlyphTree.Proofs.Relaid
import GlyphTree.Proofs.GroupHiding
import GlyphTree.Proofs.Wrapping
import GlyphTree.Proofs.Records
import GlyphTree.Proofs.Exchange
import GlyphTree.Proofs.Cursors
import GlyphTree.Proofs.Undefined
import GlyphTree.Proofs.Labelling
import GlyphTree.Proofs.Ranges
import GlyphTree.Proofs.Annotation
