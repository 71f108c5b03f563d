import Provenance.Plugin
import Provenance.Proofs.Annotation.Splicing
import Provenance.Proofs.Annotation.Location
import Provenance.Proofs.Annotation.SecondPass
import Provenance.Proofs.Annotation.Marker
import Provenance.Proofs.SourceMap.Decode
import Provenance.Proofs.Splice.Place
import Provenance.Proofs.Splice.Segments
import Provenance.Proofs.Splice.Lines
import Provenance.Proofs.Template.Tiling
import Provenance.Proofs.Template.Tiled
import Provenance.Proofs.Template.Printed
import Provenance.Proofs.Template.Roundtrip
import Provenance.Proofs.Template.Extended
import Provenance.Proofs.Template.Later
import Provenance.Proofs.Script.Attribute
import Provenance.Proofs.Annotation.Tree
import Provenance.Proofs.Annotation.Names
import Provenance.Proofs.Annotation.Quoted
import Provenance.Proofs.Snapshot.Content
import Provenance.Proofs.Template.Wrapped
import Provenance.Proofs.Snapshot.Dialects
import Provenance.Proofs.Scanner.Annotation
import Provenance.Proofs.FileIdentity
import Provenance.Proofs.Text.Breaks
import Provenance.Proofs.Template.Shifted
import Provenance.Proofs.Annotation.StartTag
import Provenance.Proofs.Template.Directive
import Provenance.Proofs.Template.Pattern
import Provenance.Proofs.Splice.Order
import Provenance.Proofs.Text.ReferenceGrammar
import Provenance.Proofs.Script.Trailing
import Provenance.Proofs.Snapshot.BoundReference
import Provenance.Proofs.Snapshot.Settings
import Provenance.Proofs.Snapshot.OneLevel
import Provenance.Proofs.Template.ContentRange
import Provenance.Proofs.Template.Justified
import Provenance.Proofs.Scanner.Progress
