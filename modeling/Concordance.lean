import Concordance.Main
import Concordance.Markup.Path
import Concordance.Proofs.Index.Views
import Concordance.Proofs.Index.Merge
import Concordance.Proofs.TypePhrase.Grammar
import Concordance.Proofs.TypePhrase.Sound
import Concordance.Proofs.TypePhrase.Complete
import Concordance.Proofs.TypePhrase.Spelling
import Concordance.Proofs.TypePhrase.Levels
import Concordance.Proofs.TypePhrase.RoundTrip
import Concordance.Proofs.Numbering.Run
import Concordance.Proofs.Numbering.Outline
import Concordance.Proofs.Entry.Types
import Concordance.Proofs.Entry.RoundTrip
import Concordance.Proofs.Index.Reload
import Concordance.Proofs.Json.RoundTrip
import Concordance.Proofs.Header.Split
import Concordance.Proofs.Text.Trim
import Concordance.Proofs.Header.Phrase
import Concordance.Proofs.Header.Parameter
import Concordance.Proofs.Header.RoundTrip
import Concordance.Proofs.Markup.Keys
import Concordance.Proofs.Survey.Rewriting
import Concordance.Proofs.Build.Links
import Concordance.Proofs.Build.Listings
import Concordance.Proofs.Build.Registry
import Concordance.Proofs.TypePhrase.Scan
import Concordance.Proofs.TypePhrase.Derived
import Concordance.Proofs.TypePhrase.Checked
import Concordance.Proofs.Header.Total
import Concordance.Proofs.TypePhrase.Keywords
import Concordance.Proofs.TypePhrase.Separators
import Concordance.Proofs.TypePhrase.Stable
import Concordance.Proofs.Header.Brackets
import Concordance.Proofs.Header.Reread
import Concordance.Proofs.Markup.Escaped
import Concordance.Proofs.Markup.Segments
import Concordance.Proofs.Signature.Typeset
import Concordance.Proofs.TypePhrase.Depth
import Concordance.Proofs.Index.Imports
import Concordance.Proofs.Survey.References
import Concordance.Proofs.Build.Outcomes
import Concordance.Proofs.Build.Imports
import Concordance.Proofs.Build.Scopes
import Concordance.Proofs.Index.Requests
import Concordance.Proofs.Index.Grouping
import Concordance.Proofs.Index.Supplement
import Concordance.Proofs.Text.Place
import Concordance.Proofs.Text.Pattern
import Concordance.Proofs.TypePhrase.Misparses
import Concordance.Proofs.TypePhrase.Spacing
import Concordance.Proofs.Header.Spelling
import Concordance.Proofs.Header.Pattern
import Concordance.Proofs.Header.Pieces
import Concordance.Proofs.Header.Places
import Concordance.Proofs.Header.Interpretation
import Concordance.Proofs.Header.Nested
import Concordance.Proofs.Header.Embedded
import Concordance.Proofs.Header.Cuts
import Concordance.Proofs.TypePhrase.Coverage
import Concordance.Proofs.TypePhrase.Grouping
import Concordance.Proofs.Numbering.Letters
import Concordance.Proofs.MethodTable.Rows
import Concordance.Proofs.MethodTable.Struck
import Concordance.Proofs.MethodTable.Frame
import Concordance.Proofs.MethodTable.Transcluded
import Concordance.Proofs.Text.Position
import Concordance.Proofs.Index.Export
import Concordance.Proofs.Build.Visible
import Concordance.Proofs.Command
