import JspLayout.Main
import JspLayout.Proofs.Formatting
import JspLayout.Proofs.Kinds
import JspLayout.Proofs.Nesting
import JspLayout.Proofs.Segmentation
import JspLayout.Proofs.Switches
import JspLayout.Proofs.Pieces
import JspLayout.Proofs.Headings
import JspLayout.Proofs.RowPieces
import JspLayout.Proofs.Relaying
import JspLayout.Proofs.Depths
import JspLayout.Proofs.Indentation
import JspLayout.Proofs.Idempotence
import JspLayout.Proofs.Degradation
import JspLayout.Proofs.Landings
import JspLayout.Proofs.Interiors
import JspLayout.Proofs.Directives
import JspLayout.Proofs.Settling
import JspLayout.Proofs.Stability
import JspLayout.Proofs.Escapes
import JspLayout.Proofs.Rehearsal
import JspLayout.Proofs.Levels
import JspLayout.Proofs.Wrapping
import JspLayout.Proofs.Canonical
import JspLayout.Proofs.Matches
import JspLayout.Proofs.Statements
import JspLayout.Proofs.Classification
import JspLayout.Proofs.Separation
import JspLayout.Proofs.Alignment
import JspLayout.Proofs.Histories
import JspLayout.Proofs.Resolution
import JspLayout.Proofs.Precedence
import JspLayout.Proofs.Placeholders
import JspLayout.Proofs.Margins
