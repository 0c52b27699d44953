import MicroLearn.Number.Decimal
import MicroLearn.Tensor.Basic

/-!
# The header file of a prototype model

A model of prototypes as constants for a device: the projection row by row, the
prototypes and their labels column by column.
-/

set_option autoImplicit false

namespace MicroLearn.Gesture

open Number (Cell)

structure Header where
  width : String
  features : Nat
  projected : Nat
  projection : List (List String)
  prototypeCount : Nat
  prototypes : List (List String)
  labelCount : Nat
  labels : List (List String)

def Header.cellText : Cell → String
  | .int n => toString n
  | .real x => Number.floatText x

def Header.fixedCell (c : Cell) : String := Number.fixedText 6 c.toFloat

def rowsText (rows : List (List String)) : String :=
  String.join (rows.map fun r => "\n\t\t"++String.join (r.map (· ++ ",")))

def matrixText (rows : List (List String)) : String := rowsText rows++"\n\t"

def Header.labelText (h : Header) : String := rowsText h.labels++"\n"

def projectionPart (h : Header) : String := String.join [
  "/*\n",
  " * This is an autogenerated file. Modifications\n",
  " * might not be persistent.\n",
  " */\n",
  "namespace protoNNParam \x7b\n",
  "\n",
  "#ifndef __TEST_PROTONN__\n",
  "    /** Gamma for gaussian kernel */\n",
  "    const PROGMEM float gamma = ",
  h.width,
  ";\n",
  "    /** Low Dimensional Projection Matrix */\n",
  "    const PROGMEM unsigned int featDim = ",
  toString h.features,
  ";\n",
  "    const PROGMEM unsigned int ldDim = ",
  toString h.projected,
  ";\n",
  "\n",
  "    /**\n",
  "    * Projectino Matrix (W)\n",
  "    * d_cap x d flattened (dimension of 2D array)\n",
  "    * ldDim x featDim\n",
  "    */\n",
  "    const PROGMEM  float ldProjectionMatrix[]  = \x7b",
  matrixText h.projection,
  "\x7d;\n",
  "    "]

def prototypePart (h : Header) : String := String.join [
  "\n",
  "    /**\n",
  "     * Prototypes (B)\n",
  "     * m x d_cap flattened (dimension of 2D array)\n",
  "     * numPrototypes x d_cap\n",
  "     */\n",
  "    const PROGMEM float prototypeMatrix[] = \x7b",
  matrixText h.prototypes,
  "\x7d;\n",
  "    /** Number of prototypes (m) */\n",
  "    const PROGMEM unsigned int numPrototypes = ",
  toString h.prototypeCount,
  ";\n",
  "    "]

def labelPart (h : Header) : String := String.join [
  "\n",
  "    /**\n",
  "     * Prototype Lables (Z)\n",
  "     * m x L (dimension of 2D array)\n",
  "     * numLabels x numPrototypes\n",
  "     */\n",
  "    const PROGMEM float prototypeLabelMatrix[] = \x7b",
  h.labelText,
  "\x7d;\n",
  "    /** Number of output labels, (L). */\n",
  "    const PROGMEM unsigned int numLabels = ",
  toString h.labelCount,
  "; // 0,1,2,3,4,5\n",
  "    "]

def testPart : String := String.join [
  "\n",
  "#else\n",
  "    const PROGMEM float = 1.0;\n",
  "    const PROGMEM unsigned int featDim = 10;\n",
  "    const PROGMEM unsigned int ldDim = 5;\n",
  "    // Row Major (X.x)\n",
  "    const PROGMEM  float ldProjectionMatrix[]  = \x7b\n",
  "        0.0,1.0,2.0,3.0,4.0,5.0,6.0,7.0,8.0,9.0,\n",
  "        1.0,2.0,3.0,4.0,5.0,6.0,7.0,8.0,9.0,10.0,\n",
  "        2.0,3.0,4.0,5.0,6.0,7.0,8.0,9.0,10.0,11.0,\n",
  "        3.0,4.0,5.0,6.0,7.0,8.0,9.0,10.0,11.0,12.0,\n",
  "        4.0,5.0,6.0,7.0,8.0,9.0,10.0,11.0,12.0,13.0,\n",
  "    \x7d;\n",
  "    // Column Major\n",
  "    const PROGMEM unsigned int numPrototypes = 3;\n",
  "    const PROGMEM float prototypeMatrix[] = \x7b\n",
  "        -1.0,-0.5,0.0,0.5,1.0,\n",
  "        -2.0,-1.0,0.0,1.0,2.0,\n",
  "        -7.51,-7.51,-7.51,-7.51,-7.51,\n",
  "    \x7d;\n",
  "    // column major\n",
  "    const PROGMEM unsigned int numLabels = 4;\n",
  "    const PROGMEM float prototypeLabelMatrix[] = \x7b\n",
  "        0.96,0.01,0.01,0.02,\n",
  "        0.02,0.94,0.02,0.02,\n",
  "        0.10,0.15,0.55,0.20,\n",
  "    \x7d;\n",
  "#endif\n",
  "\x7d;\n",
  "    "]

def Header.text (h : Header) : String := projectionPart h++prototypePart h++labelPart h++testPart

def sizeOf2 (t : Tensor Cell) : Except Fault (Nat × Nat) :=
  match t.shape with
  | [m, n] => .ok (m,n)
  | _ => .error .outOfRange

def rowsOf (t : Tensor Cell) : List (List Cell) := t.toRows?.getD []

def columnsOf (width : Nat) (t : Tensor Cell) : List (List Cell) :=
  (List.range width).map fun i => (rowsOf t).map fun r => r.getD i (.int 0)

def headerText (width : String) (projection prototypes labels : Tensor Cell) :
    Except Fault String := do
  let (projected,features) ← sizeOf2 projection
  demand (prototypes.shape.head? == some projected)
  let (_,count) ← sizeOf2 prototypes
  let (labelCount,labelled) ← sizeOf2 labels
  demand (labelled == count)
  return Header.text {
    width, features, projected, prototypeCount := count, labelCount
    projection := (rowsOf projection).map fun r => r.map Header.cellText
    prototypes := (columnsOf count prototypes).map fun r => r.map Header.fixedCell
    labels := (columnsOf count labels).map fun r => r.map Header.fixedCell }

structure Export where
  asked : List String
  result : Except Fault String

/-- Reads the three matrices one after the other and writes the file. Without a width nothing is
read. -/
def exportHeader (width : Option String) (projection prototypes labels : Tensor Cell) : Export :=
  match width with
  | none => ⟨[],.error .outOfRange⟩
  | some width =>
    if projection.shape.head? = prototypes.shape.head? then
      ⟨["./W", "./B", "./Z"],headerText width projection prototypes labels⟩
    else ⟨["./W", "./B"],.error .requirement⟩

end MicroLearn.Gesture
