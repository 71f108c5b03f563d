import Provenance.Marker
import Provenance.Splice
import Provenance.Tag

/-! # Annotations

  What annotating a file yields: the new text with its source map, why it failed,
  and the events on the way.  For each element it is decided from its tag and its
  attributes alone whether it gets a marker.
-/

namespace Provenance

/-! ## §1. Outcomes -/

/-- A new text with its source map. -/
structure Output where
  code : List Char
  map : SourceMap
deriving DecidableEq, Repr

/-- The output of a splice buffer; nothing if an insertion lies inside a
    character. -/
def SpliceBuffer.output? (buffer : SpliceBuffer) (path : String) : Option Output := do
  let code ← buffer.finish?
  let map ← buffer.map? path
  return ⟨code, map⟩

/-- Why a file was not annotated. -/
inductive TransformError where
  /-- The file does not parse. -/
  | parse (file detail : String)
  /-- The content of a component has no JSON text. -/
  | serialize (detail : String)
deriving DecidableEq, Repr

/-- The words for an error. -/
def TransformError.message : TransformError → String
  | .parse file detail => "failed to parse " ++ file ++ ": " ++ detail
  | .serialize detail => "failed to serialize component content: " ++ detail

/-! ## §2. Decisions -/

/-- What happens to an element. -/
inductive Decision where
  /-- Its tag belongs to a foreign runtime. -/
  | skip (verdict : Tag.Verdict)
  /-- It is identified already. -/
  | keep
  | mark (verdict : Tag.Verdict) (marker : Marker)
deriving DecidableEq, Repr

/-- What annotating the elements of one file depends on. -/
structure FileContext where
  options : TransformOptions
  identity : FileIdentity
  lines : LineIndex

/-- The context of a text under a path. -/
def FileContext.of (code : List Char) (path : String) (options : TransformOptions) :
    FileContext where
  options := options
  identity := FileIdentity.ofPath path options.root
  lines := LineIndex.ofText code

/-- The decision on an element that starts at an offset. -/
def FileContext.decide (context : FileContext) (tag : String) (isIdentified : Bool)
    (offset : Nat) (snapshot : PropertyMap) : Decision :=
  let verdict := Tag.classify tag
  if !verdict.isAnnotatable then .skip verdict
  else if isIdentified then .keep
  else
    .mark verdict
      (Marker.synthesize context.identity (context.lines.position offset) tag snapshot
        context.options)

/-! ## §3. Events -/

/-- How much an event matters. -/
inductive Level where
  | trace
  | debug
  | warn
deriving DecidableEq, Repr

/-- What is reported while files are annotated. -/
inductive Event where
  | annotated (file tag : String) (verdict : Tag.Verdict) (id : String)
  | skipped (file tag : String) (verdict : Tag.Verdict)
  /-- A file stays as it is because of an error. -/
  | untouched (dialect : String) (file : String) (error : TransformError)
  /-- A number of files is about to be annotated. -/
  | batch (size : Nat)
deriving DecidableEq, Repr

/-- The level of an event. -/
def Event.level : Event → Level
  | .annotated _ _ _ _ | .skipped _ _ _ => .debug
  | .untouched _ _ _ => .warn
  | .batch _ => .trace

/-- The words of an event. -/
def Event.message : Event → String
  | .annotated _ _ _ _ => "annotated element"
  | .skipped _ _ _ => "skipping element"
  | .untouched dialect _ _ => "leaving " ++ dialect ++ " source untouched"
  | .batch _ => "scheduling batch transform"

/-- The event that a decision on an element gives rise to, if any. -/
def FileContext.event? (context : FileContext) (tag : String) : Decision → Option Event
  | .skip verdict => some (.skipped context.identity.relativePath tag verdict)
  | .keep => none
  | .mark verdict marker =>
    some (.annotated context.identity.relativePath tag verdict marker.id)

/-- What annotating a file comes to, with the events on the way. -/
structure Annotation where
  result : Except TransformError (Option Output)
  events : List Event

end Provenance
