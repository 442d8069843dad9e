import VyperFront.Main
import VyperFront.Outcome
import VyperFront.Proofs.BlankLine
import VyperFront.Proofs.BracketBreak
import VyperFront.Proofs.Classification
import VyperFront.Proofs.Command
import VyperFront.Proofs.Comment
import VyperFront.Proofs.Concatenation
import VyperFront.Proofs.Config
import VyperFront.Proofs.Encoding.Column
import VyperFront.Proofs.Header
import VyperFront.Proofs.Indentation
import VyperFront.Proofs.Keyword
import VyperFront.Proofs.LastLine
import VyperFront.Proofs.Layout.Interleaving
import VyperFront.Proofs.Layout.Nesting
import VyperFront.Proofs.Layout.TabWidth
import VyperFront.Proofs.Literal
import VyperFront.Proofs.Location
import VyperFront.Proofs.Outline.Balanced
import VyperFront.Proofs.Outline.Modified
import VyperFront.Proofs.Outline.Mutability
import VyperFront.Proofs.Rejection
import VyperFront.Proofs.RoundTrip
import VyperFront.Proofs.Session
import VyperFront.Proofs.Symbols
import VyperFront.Proofs.Tiling
import VyperFront.Proofs.Tree.Fields
import VyperFront.Proofs.Tree.Geometry
import VyperFront.Proofs.Tree.Leaves
import VyperFront.Proofs.Tree.Skeleton
