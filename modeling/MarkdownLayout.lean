import MarkdownLayout.Forest.Basic
import MarkdownLayout.Main
import MarkdownLayout.Node.Describe
import MarkdownLayout.Node.Members
import MarkdownLayout.Proofs.BlockStart
import MarkdownLayout.Proofs.Defects
import MarkdownLayout.Proofs.Filling
import MarkdownLayout.Proofs.Nesting
import MarkdownLayout.Proofs.Reflow
import MarkdownLayout.Proofs.Sequence
import MarkdownLayout.Proofs.WellFormed
import MarkdownLayout.Proofs.Width
import MarkdownLayout.Text.Utf8.RoundTrip
import MarkdownLayout.Proofs.Column
import MarkdownLayout.Proofs.Containment
import MarkdownLayout.Proofs.BlankLines
import MarkdownLayout.Proofs.Separation
import MarkdownLayout.Proofs.Commitment
import MarkdownLayout.Proofs.Unbreakable
import MarkdownLayout.Proofs.Walk
import MarkdownLayout.Proofs.LiveWalk
import MarkdownLayout.Proofs.Planting
import MarkdownLayout.Proofs.TokenTrees
import MarkdownLayout.Proofs.InPlace
import MarkdownLayout.Proofs.Signs
import MarkdownLayout.Proofs.Seams
import MarkdownLayout.Proofs.RunningText
import MarkdownLayout.Proofs.Delivery
import MarkdownLayout.Proofs.Refusals
import MarkdownLayout.Proofs.Linewise
import MarkdownLayout.Proofs.CodeBlocks
import MarkdownLayout.Proofs.CodeSpans
import MarkdownLayout.Proofs.RawHtml
import MarkdownLayout.Proofs.Titles
import MarkdownLayout.Proofs.Destinations
import MarkdownLayout.Proofs.ItemStarts
import MarkdownLayout.Proofs.Kinship
import MarkdownLayout.Proofs.Precedence
