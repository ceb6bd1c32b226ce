/-!
# Rules

The rules that a hierarchy is checked against.  Each has a code that never changes, a severity, and
a key under which it is exported.  Two rules are about things that do no harm; what violates any
other is an error.

The codes are numbered in the order of `Rule.all`.  That is not quite the order in which a layer is
checked, so the code of a finding does not tell which of two was made first.

A finding may be about a field (`Field`).  The fields of a style and those of a layer are different
fields, with different keys (`Field.key`), but a description has one name for both (`Field.label`).
-/

set_option autoImplicit false

namespace MapLayers

/-- How much a finding matters. -/
inductive Severity where
  /-- It does no harm. -/
  | warning
  /-- The service is not accepted. -/
  | error
deriving DecidableEq, Repr, Inhabited

namespace Severity

/-- The severity in words, which is also its key. -/
def label : Severity → String
  | .warning => "warning"
  | .error => "error"

/-- All severities. -/
def all : List Severity := [.warning, .error]

/-- The severity of a key. -/
def ofLabel (label : String) : Option Severity := all.find? (·.label == label)

end Severity

/-- A rule. -/
inductive Rule where
  /-- No two layers have one name. -/
  | duplicateName
  /-- Every layer but the top has a name. -/
  | missingName
  /-- A visible layer has title, abstract and keywords, and its styles have titles. -/
  | requiredWhenVisible
  /-- A hidden layer has nothing that is only published for visible ones. -/
  | unusedWhenHidden
  /-- The top layer and groups are visible. -/
  | groupHidden
  /-- No two styles of a layer have one name. -/
  | duplicateStyleName
  /-- A service without styles has layers without styles. -/
  | stylesUnsupported
  /-- A style of a data layer refers to drawing instructions, unless these are supplied ready
  made. -/
  | visualizationRequired
  /-- No other style refers to drawing instructions. -/
  | visualizationForbidden
  /-- The top layer and groups have no source. -/
  | dataOnGroup
  /-- Data layers have a source. -/
  | dataRequired
  /-- A service without rasters has no raster sources. -/
  | rasterUnsupported
  /-- No two columns of a source have one name. -/
  | duplicateColumn
  /-- The least scale is below the greatest. -/
  | scaleRange
  /-- No two boxes of a layer have one coordinate system. -/
  | duplicateBoundingBox
  /-- Every layer declares or inherits a box in the primary coordinate system. -/
  | boundingBoxRequired
  /-- No layer declares the box that it would inherit anyway. -/
  | redundantBoundingBox
  /-- No layer uses a style name of its parent. -/
  | styleNameCollision
  /-- Some layer is visible. -/
  | noVisibleLayer
deriving DecidableEq, Repr, Inhabited

namespace Rule

/-- The code of the rule. -/
def code : Rule → String
  | .duplicateName => "LT001"
  | .missingName => "LT002"
  | .requiredWhenVisible => "LT003"
  | .unusedWhenHidden => "LT004"
  | .groupHidden => "LT005"
  | .duplicateStyleName => "LT006"
  | .stylesUnsupported => "LT007"
  | .visualizationRequired => "LT008"
  | .visualizationForbidden => "LT009"
  | .dataOnGroup => "LT010"
  | .dataRequired => "LT011"
  | .rasterUnsupported => "LT012"
  | .duplicateColumn => "LT013"
  | .scaleRange => "LT014"
  | .duplicateBoundingBox => "LT015"
  | .boundingBoxRequired => "LT016"
  | .redundantBoundingBox => "LT017"
  | .styleNameCollision => "LT018"
  | .noVisibleLayer => "LT019"

/-- The key of the rule. -/
def key : Rule → String
  | .duplicateName => "duplicateName"
  | .missingName => "missingName"
  | .requiredWhenVisible => "requiredWhenVisible"
  | .unusedWhenHidden => "unusedWhenHidden"
  | .groupHidden => "groupHidden"
  | .duplicateStyleName => "duplicateStyleName"
  | .stylesUnsupported => "stylesUnsupported"
  | .visualizationRequired => "visualizationRequired"
  | .visualizationForbidden => "visualizationForbidden"
  | .dataOnGroup => "dataOnGroup"
  | .dataRequired => "dataRequired"
  | .rasterUnsupported => "rasterUnsupported"
  | .duplicateColumn => "duplicateColumn"
  | .scaleRange => "scaleRange"
  | .duplicateBoundingBox => "duplicateBoundingBox"
  | .boundingBoxRequired => "boundingBoxRequired"
  | .redundantBoundingBox => "redundantBoundingBox"
  | .styleNameCollision => "styleNameCollision"
  | .noVisibleLayer => "noVisibleLayer"

/-- All rules, in the order of their codes. -/
def all : List Rule :=
  [.duplicateName, .missingName, .requiredWhenVisible, .unusedWhenHidden, .groupHidden,
    .duplicateStyleName, .stylesUnsupported, .visualizationRequired, .visualizationForbidden,
    .dataOnGroup, .dataRequired, .rasterUnsupported, .duplicateColumn, .scaleRange,
    .duplicateBoundingBox, .boundingBoxRequired, .redundantBoundingBox, .styleNameCollision,
    .noVisibleLayer]

/-- The rule of a key. -/
def ofKey (key : String) : Option Rule := all.find? (·.key == key)

/-- The severity of what violates the rule. -/
def severity : Rule → Severity
  | .unusedWhenHidden => .warning
  | .redundantBoundingBox => .warning
  | _ => .error

end Rule

/-- What a finding is about, within a layer or a style. -/
inductive Field where
  | name
  | title
  | abstract
  | keywords
  | datasetMetadataUrl
  | styleTitle
  | styleAbstract
  | visualization
  | data
  | boundingBoxes
  | scale
  | columns
  | styles
deriving DecidableEq, Repr, Inhabited

namespace Field

/-- The key of the field, which tells the fields of styles from those of layers. -/
def key : Field → String
  | .name => "name"
  | .title => "title"
  | .abstract => "abstract"
  | .keywords => "keywords"
  | .datasetMetadataUrl => "datasetMetadataUrl"
  | .styleTitle => "styleTitle"
  | .styleAbstract => "styleAbstract"
  | .visualization => "visualization"
  | .data => "data"
  | .boundingBoxes => "boundingBoxes"
  | .scale => "scale"
  | .columns => "columns"
  | .styles => "styles"

/-- The name that a description has for the field. -/
def label : Field → String
  | .styleTitle => "title"
  | .styleAbstract => "abstract"
  | .scale => "minScale"
  | f => f.key

/-- All fields. -/
def all : List Field :=
  [.name, .title, .abstract, .keywords, .datasetMetadataUrl, .styleTitle, .styleAbstract,
    .visualization, .data, .boundingBoxes, .scale, .columns, .styles]

/-- The field of a key. -/
def ofKey (key : String) : Option Field := all.find? (·.key == key)

end Field

end MapLayers
