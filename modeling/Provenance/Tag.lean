/-! # Tags

  Decides from the name of a tag alone whether an element may be annotated: a
  tag of the platform, a component of the project, or a component of a foreign
  runtime that may refuse attributes it does not know.
-/

namespace Provenance.Tag

/-- What a tag stands for. -/
inductive Verdict where
  /-- An element of the platform. -/
  | host
  /-- A component that the project owns. -/
  | firstParty
  /-- A component of a foreign runtime. -/
  | foreignSkip
deriving DecidableEq, Repr

/-- Foreign components are left alone, all else may be annotated. -/
def Verdict.isAnnotatable : Verdict → Bool
  | .foreignSkip => false
  | .host | .firstParty => true

/-- The tags of the platform, all of which take `data-*` attributes. -/
def platformTags : List String :=
  ["html", "head", "body", "title", "meta", "link", "style", "script",
   "header", "nav", "main", "section", "article", "aside", "footer",
   "h1", "h2", "h3", "h4", "h5", "h6", "p", "div", "span",
   "strong", "b", "em", "i", "u", "s", "small", "mark", "del", "ins",
   "sub", "sup", "code", "kbd", "samp", "var", "pre", "blockquote", "cite",
   "ul", "ol", "li", "dl", "dt", "dd",
   "a", "img", "audio", "video", "source", "track", "canvas", "svg",
   "picture", "figure", "figcaption", "embed", "object", "param", "iframe",
   "table", "thead", "tbody", "tfoot", "tr", "th", "td", "caption", "colgroup", "col",
   "form", "fieldset", "legend", "label", "input", "textarea", "select", "option",
   "optgroup", "button", "datalist", "output", "progress", "meter",
   "details", "summary", "dialog",
   "br", "hr", "wbr", "area", "map", "time", "data", "abbr", "address",
   "bdi", "bdo", "dfn", "q", "ruby", "rb", "rt", "rtc", "rp"]

/-- Components of foreign runtimes that are known to check their properties. -/
def foreignComponents : List String :=
  ["ambientLight", "directionalLight", "pointLight", "spotLight", "hemisphereLight",
   "mesh", "group", "scene", "camera", "perspectiveCamera", "orthographicCamera",
   "geometry", "material", "texture", "Canvas", "primitive",
   "boxGeometry", "sphereGeometry", "planeGeometry", "cylinderGeometry",
   "meshBasicMaterial", "meshStandardMaterial", "meshPhongMaterial",
   "OrbitControls", "TransformControls", "Stats", "Environment", "Sky",
   "ContactShadows", "BakeShadows", "softShadows", "Html", "Text",
   "Suspense", "ErrorBoundary", "Provider", "Consumer"]

/-- Whether a tag belongs to the platform. -/
def isPlatform (tag : String) : Bool := platformTags.contains tag

/-- The verdict on a tag.  The list of foreign components comes first; after it
    a lower-case name stands for a foreign custom element unless the platform
    knows it, and every other name for a component of the project. -/
def classify (tag : String) : Verdict :=
  if foreignComponents.contains tag then .foreignSkip
  else match tag.toList with
    | [] => .foreignSkip
    | first :: _ =>
      if first.isLower then
        if isPlatform tag then .host else .foreignSkip
      else .firstParty

end Provenance.Tag
