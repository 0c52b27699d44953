/-!
# Files of a sketch

The texts that every generated sketch is completed with: the main file, the
settings, the operators and the interface of the prediction, and the
floating-point predictions of the two kinds of models.
-/

set_option autoImplicit false

namespace MicroLearn.Deploy.Sketch

def notice : String :=
  "// Copyright (c) Microsoft Corporation. All rights reserved.\n// Licensed under the MIT license.\n\n"

def mainFile : String := notice++String.join [
  "#include \"config.h\"\n#include \"predict.h\"\n#include \"model.h\"\n\nusing namespace model;\n",
  "\nvoid accuracy();\nvoid predictionTime();\nvoid syncWithMaster();\n\nvoid setup() \x7b\n",
  "\tSerial.begin(115200);\n\treturn;\n\x7d\n\n",
  "// Sketch operates in two modes: accuracy mode and prediction time mode. Refer to config.h for more details.\n",
  "void loop() \x7b\n\n#ifdef ACCURACY\n\taccuracy();\n#endif\n\n#ifdef PREDICTIONTIME\n",
  "\tpredictionTime();\n#endif\n\n\treturn;\n\x7d\n\n",
  "// In this mode, first, the sketch synchronizes with the master using a test message.\n",
  "// Then, each datapoint is read from the serial port and its class ID is predicted.\n",
  "// The class ID and the prediction time is communicated back to the master using the same serial port.\n",
  "void accuracy() \x7b\n\n\tsyncWithMaster();\n\n\twhile (true) \x7b\n",
  "\t\tunsigned long startTime = micros();\n\n\t\tint classID = predict();\n\n",
  "\t\tunsigned long elapsedTime = micros() - startTime;\n\n\t\tSerial.println(classID);\n",
  "\t\tSerial.println(elapsedTime);\n\t\x7d\n\n\treturn;\n\x7d\n\n",
  "// In this mode, a single data point is already available on the device's flash storage.\n",
  "// The data point is stored in the variable X and its class ID is stored in the variable Y.\n",
  "// Prediction is performed on X and the time per prediction is recorded.\n",
  "// The average prediction time for 100 runs is computed and is written to the serial port.\n",
  "void predictionTime() \x7b\n\tunsigned long totalTime = 0;\n\tint iterations = 0;\n\n",
  "\twhile(true) \x7b\n\t\tSerial.print(iterations + 1);\n\t\tSerial.print(\": \");\n\n",
  "\t\tunsigned long startTime = micros();\n\n\t\tint classID = predict();\n\n",
  "\t\tunsigned long elapsedTime = micros() - startTime;\n\t\t\n",
  "\t\tSerial.print(\"Predicted label: \");\n\t\tSerial.print(classID);\n",
  "\t\tSerial.print(\"; True label: \");\n\t\tSerial.print(Y);\n\n\t\tif ((classID) == Y)\x7b\n",
  "\t\t\tSerial.println(\"; Correct prediction\");\n\t\t\x7d\n\t\telse \x7b\n",
  "\t\t\tSerial.println(\"; WARNING: Incorrect prediction\");\n\t\t\x7d\n\n",
  "\t\ttotalTime += elapsedTime;\n\t\titerations++;\n\n\t\tif (iterations % 100 == 0) \x7b\n",
  "\t\t\tSerial.println(\"\\n------------------------\");\n",
  "\t\t\tSerial.println(\"Average prediction time:\");\n",
  "\t\t\tSerial.println((float)totalTime / iterations);\n",
  "\t\t\tSerial.println(\"------------------------\\n\");\n\t\t\x7d\n\t\x7d\n\n\treturn;\n\x7d\n\n",
  "// In accuracy mode, this function reads an integer from the serial port.\n",
  "// In the prediction time mode, this function reads an integer from the array X stored in device's flash memory.\n",
  "MYINT getIntFeature(MYINT i) \x7b\n#ifdef ACCURACY\n#ifdef INT16\n\tchar buff[10];\n",
  "\twhile (!Serial.available())\n\t\t;\n\tSerial.readBytes(buff, 10);\n",
  "\treturn (MYINT)(atol(buff));\n#endif\n#ifdef INT32\n\tchar buff[14];\n",
  "\twhile (!Serial.available())\n\t\t;\n\tSerial.readBytes(buff, 14);\n",
  "\treturn (MYINT)(atoll(buff));\n#endif\n#endif\n\n#ifdef PREDICTIONTIME\n#ifdef INT16\n",
  "\treturn ((MYINT) pgm_read_word_near(&X[i]));\n#endif\n#ifdef INT32\n",
  "\treturn ((MYINT) pgm_read_dword_near(&X[i]));\n#endif\n#endif\n\x7d\n\n",
  "// Function reads a float variable either from the serial port or from the array X stored in devices' flash memory.\n",
  "float getFloatFeature(MYINT i) \x7b\n#ifdef ACCURACY\n\tchar buff[13];\n",
  "\twhile (!Serial.available())\n\t\t;\n\tSerial.readBytes(buff, 13);\n",
  "\treturn (float)(atof(buff));\n#endif\n\n#ifdef PREDICTIONTIME\n",
  "\treturn ((float) pgm_read_float_near(&X[i]));\n#endif\n\x7d\n\n",
  "// Setup serial communication with the computer\nvoid syncWithMaster() \x7b\n\n",
  "\t// Wait for input\n\twhile (!Serial.available())\n\t\t;\n\n\t// Match input with the message\n",
  "\tconst char *syncMsg = \"fixed\";\n\tint len = strlen(syncMsg);\n\tbyte index = 0;\n\tdo \x7b\n",
  "\t\tchar ch = Serial.read();\n\t\tif (ch == syncMsg[index])\n\t\t\tindex += 1;\n",
  "\t\x7d while (index < len);\n\n\tSerial.println(\"point\");\n\n\treturn;\n\x7d\n"]

def settings : String := notice++String.join [
  "#pragma once\n\n// Sketch operates in two modes.\n",
  "// 1. Accuracy mode: Each data point is sent to the device using serial communication for prediction.\n",
  "//    The predicted class label is sent back to the master\n",
  "// 2. Prediction time mode: A single data point is used to compute the prediction time per data point.\n",
  "//    This data point is placed in the flash memory of the device.\n//\n",
  "// Uncomment the below #define to choose the mode. Default is the prediction time mode.\n\n\n",
  "//#define ACCURACY\n#define PREDICTIONTIME\n\n\n",
  "// The datatype of the fixed-point representation is specified below.\n",
  "// The selection below should be equal to the Common.wordLength variable in Common.py\n",
  "// Uncomment the below #define to choose the datatype. Default is INT16.\n\n\n#define INT16\n",
  "//#define INT32\n\n\n#ifdef INT16\ntypedef int16_t MYINT;\n#endif\n\n#ifdef INT32\n",
  "typedef int32_t MYINT;\n#endif\n\ntypedef uint16_t MYUINT;\n"]

def lines (depth : Nat) (texts : List String) : String :=
  String.join (texts.map fun t =>
    (if t.isEmpty then t else String.ofList (.replicate depth '\t')++t)++"\n")

def nest (depth : Nat) (loops : List (String × String)) (body : String) : String :=
  match loops with
  | [] => body
  | (i,n)::inner =>
    lines depth [s!"for (MYINT {i} = 0; {i} < {n}; {i}++) \x7b"]++nest (depth+1) inner body
      ++ lines depth ["\x7d"]

def cells : List (String × String) :=
  [("i","I"), ("j","J")]

inductive Place where
  | working
  | program

def Place.parameter : Place → String → String
  | .working, name => "MYINT *"++name
  | .program, name => "const MYINT *"++name

def Place.read : Place → String → String
  | .working, entry => entry
  | .program, entry => "((MYINT) pgm_read_word_near(&"++entry++"))"

def operator (computes name : String) (operands numbers : List String) (body : String) : String :=
  s!"// {computes}\ninline __attribute__((always_inline)) void {name}(" ++
    ", ".intercalate (operands++numbers.map ("MYINT " ++ ·))++") \x7b\n"++body ++
    "\treturn;\n\x7d\n"

def treeSum (depth : Nat) (bound count : String) : String :=
  lines depth [s!"MYINT count = {count}, depth = 0;", "bool shr = true;", "",
    "while (depth < (H1 + H2)) \x7b", "\tif (depth >= H1)", "\t\tshr = false;", "",
    s!"\tfor (MYINT p = 0; p < ({bound} / 2 + 1); p++) \x7b", "\t\tMYINT sum;",
    "\t\tif (p < (count >> 1))", "\t\t\tsum = tmp[2 * p] + tmp[(2 * p) + 1];",
    "\t\telse if ((p == (count >> 1)) && ((count & 1) == 1))", "\t\t\tsum = tmp[2 * p];",
    "\t\telse", "\t\t\tsum = 0;", "", "\t\tif (shr)", "\t\t\ttmp[p] = sum / 2;", "\t\telse",
    "\t\t\ttmp[p] = sum;", "\t\x7d", "\tcount = (count + 1) >> 1;", "", "\tdepth++;", "\x7d", ""]

def entrywise (name sign : String) (b : Place) : String :=
  operator s!"C = A {sign} B" name ["MYINT *A", b.parameter "B", "MYINT *C"]
    ["I", "J", "shrA", "shrB", "shrC"]
    (nest 1 cells (lines 3 ["MYINT a = A[i * J + j];", "MYINT b = "++b.read "B[i * J + j]"++";",
      "", "a = a / shrA;", "b = b / shrB;", "", s!"MYINT c = a {sign} b;", "c = c / shrC;", "",
      "C[i * J + j] = c;"]))

def product (name : String) (a b : Place) : String :=
  operator "C = A * B" name [a.parameter "A", b.parameter "B", "MYINT *C", "MYINT *tmp"]
    ["I", "K", "J", "shrA", "shrB", "H1", "H2"]
    ("\n"++nest 1 cells (nest 3 [("k","K")] (lines 4 ["MYINT a = "++a.read "A[i * K + k]"++";",
        "MYINT b = "++b.read "B[k * J + j]"++";", "", "a = a / shrA;", "b = b / shrB;", "",
        "tmp[k] = a * b;"])++"\n"++treeSum 3 "K" "K"++lines 3 ["C[i * J + j] = tmp[0];"]))

def addOrSubtract (name : String) (loops : List (String × String)) (entry last : String) : String :=
  operator "A = A <+> B\n// A[N][H][W][C], B[C]" name ["MYINT *A", "const MYINT *B"]
    (loops.map Prod.snd++["shrA", "shrB", "shrC, bool add"])
    ("\n"++nest 1 loops (lines (loops.length+1) [s!"MYINT a = {entry};", "a = a / shrA;", "",
      "MYINT b = "++Place.program.read last++";", "b = b / shrB;", "", "MYINT res;", "if (add)",
      "\tres = a + b;", "else", "\tres = a - b;", "", "res = res / shrC;", "", s!"{entry} = res;"])
      ++ "\n")

def rectify (name : String) (loops : List (String × String)) (entry : String) : String :=
  operator "A = relu(A)\n// A[N][H][W][C]" name ["MYINT *A"] (loops.map Prod.snd)
    ("\n"++nest 1 loops (lines (loops.length+1)
      [s!"MYINT a = {entry};", "if (a < 0)", "\ta = 0;", "", s!"{entry} = a;"])++"\n")

def images : List (String × String) :=
  [("n","N"), ("h","H"), ("w","W"), ("c","C")]

def convolution : String :=
  operator "C = A # B\n// A[N][H][W][CI], B[HF][WF][CI][CO], C[N][H][W][CO]" "Conv"
    ["MYINT *A", "const MYINT *B", "MYINT *C", "MYINT *tmp"]
    ["N", "H", "W", "CI", "HF", "WF", "CO", "shrA", "shrB", "H1", "H2"]
    (lines 1 ["MYINT padH = (HF - 1) / 2;", "MYINT padW = (WF - 1) / 2;", ""] ++
      nest 1 (images.take 3++[("co","CO")]) ("\n"++lines 5 ["MYINT counter = 0;"] ++
        nest 5 [("hf","HF"), ("wf","WF"), ("ci","CI")] (lines 8 [
          "MYINT a = (((((h + hf) < padH) || ((h + hf) >= (H + padH))) || (((w + wf) < padW) || ((w + wf) >= (W + padW)))) ? 0 : A[n * H * W * CI + ((h + hf) - padH) * W * CI + ((w + wf) - padW) * CI + ci]);",
          "a = a / shrA;", "",
          "MYINT b = "++Place.program.read
            "B[hf * WF * CI * CO + wf * CI * CO + ci * CO + co]"++";",
          "b = b / shrB;", "", "tmp[counter] = a * b;", "counter++;"])++"\n" ++
        lines 5 ["MYINT totalEle = HF * WF * CI;"]++treeSum 5 "totalEle" "HF * WF * CI" ++
        lines 5 ["C[n * H * W * CO + h * W * CO + w * CO + co] = tmp[0];"])++"\n")

def operators : String :=
  notice++"#pragma once\n\n#include <Arduino.h>\n\n#include \"config.h\"\n#include \"predict.h\"\n\n" ++
  "// This file contains implementations of the linear algebra operators supported by SeeDot.\n" ++
  "// Each function takes the scaling factors as arguments along with the pointers to the operands.\n\n" ++
  "\n".intercalate [
    entrywise "MatAdd" "+" .working, entrywise "MatSub" "-" .program,
    product "MatMulNN" .working .working, product "MatMulCN" .program .working,
    product "MatMulNC" .working .program, product "MatMulCC" .program .program,
    operator "C = A |*| B" "SparseMatMul" ["const MYINT *Aidx", "const MYINT *Aval", "MYINT *C"]
      ["K", "shrA", "shrB", "shrC"]
      ("\n"++lines 1 ["MYINT ite_idx = 0, ite_val = 0;"]++nest 1 [("k","K")] (lines 2 [
        "MYINT b = getIntFeature(k);", "//MYINT b = B[k * 1][0];", "b = b / shrB;", "",
        "MYINT idx = "++Place.program.read "Aidx[ite_idx]"++";", "while (idx != 0) \x7b",
        "\tMYINT a = "++Place.program.read "Aval[ite_val]"++";", "\ta = a / shrA;", "",
        "\tMYINT c = a * b;", "\tc = c / shrC;", "", "\tC[idx - 1] += c;", "", "\tite_idx++;",
        "\tite_val++;", "", "\tidx = "++Place.program.read "Aidx[ite_idx]"++";", "\x7d",
        "ite_idx++;"])++"\n"),
    operator "C = A <*> B" "MulCir" ["MYINT *A", "MYINT *B", "MYINT *C"] ["I", "J", "shrA", "shrB"]
      (nest 1 cells (lines 3 ["MYINT a = A[i * J + j];", "MYINT b = B[i * J + j];", "",
        "a = a / shrA;", "b = b / shrB;", "", "C[i * J + j] = a * b;"])),
    operator "A = tanh(A)" "TanH" ["MYINT *A"] ["I", "J", "tanh_limit"]
      (nest 1 cells (lines 3 ["MYINT x = A[i * J + j], y;", "", "if (x >= tanh_limit)",
        "\ty = tanh_limit;", "else if (x <= -tanh_limit)", "\ty = -tanh_limit;", "else", "\ty = x;",
        "", "A[i * J + j] = y;"])),
    operator "index = argmax(A)" "ArgMax" ["MYINT *A"] ["I", "J", "*index"]
      ("\n"++lines 1 ["MYINT max = A[0], maxIndex = 0;", "MYINT counter = 0;"] ++
        nest 1 cells (lines 3 ["MYINT x = A[i * J + j];", "", "if (max < x) \x7b",
          "\tmaxIndex = counter;", "\tmax = x;", "\x7d", "", "counter++;"]) ++
        lines 1 ["", "*index = maxIndex;", ""]),
    operator "A = A^T" "Transpose" ["MYINT *A", "MYINT *B"] ["I", "J"]
      (nest 1 cells (lines 3 ["B[i * J + j] = A[j * I + i];"])),
    operator "C = a * B" "ScalarMul" ["MYINT *A", "MYINT *B", "MYINT *C"] ["I", "J", "shrA", "shrB"]
      (lines 1 ["", "MYINT a = *A;", "a = a / shrA;", ""]++nest 1 cells (lines 3
        ["MYINT b = B[i * J + j];", "b = b / shrB;", "", "C[i * J + j] = a * b;"])++"\n"),
    convolution,
    addOrSubtract "AddOrSubCir4D" images "A[n * H * W * C + h * W * C + w * C + c]" "B[c]",
    addOrSubtract "AddOrSubCir2D" [("h","H"), ("w","W")] "A[h * W + w]" "B[w]",
    rectify "Relu4D" images "A[n * H * W * C + h * W * C + w * C + c]",
    rectify "Relu2D" [("h","H"), ("w","W")] "A[h * W + w]",
    operator "B = maxpool(A)\n// A[N][H][W][C], B[N][H][W][C]" "Maxpool" ["MYINT *A", "MYINT *B"]
      ["N", "H", "W", "C", "stride"]
      (lines 1 ["MYINT HO = H / stride;", "MYINT WO = W / stride;", ""] ++
        nest 1 [("n","N"), ("ho","HO"), ("wo","WO"), ("c","C")] ("\n"++lines 5
          ["MYINT max = A[n * H * W * C + (stride * ho) * W * C + (stride * wo) * C + c];"] ++
          nest 5 [("hs","stride"), ("ws","stride")] (lines 7 [
            "MYINT a = A[n * H * W * C + ((stride * ho) + hs) * W * C + ((stride * wo) + ws) * C + c];",
            "if (a > max)", "\tmax = a;"]) ++
          lines 5 ["", "B[n * HO * WO * C + ho * WO * C + wo * C + c] = max;"])++"\n")]

def interface : String := notice++String.join [
  "#pragma once\n\nint predict();\nMYINT getIntFeature(MYINT);\nfloat getFloatFeature(MYINT);\n"]

def projection (opening result matrix sparse : String) (dense : List String) : String :=
  notice++"#include <Arduino.h>\n\n#include \"config.h\"\n#include \"predict.h\"\n" ++
  s!"#include \"model.h\"\n\n{opening}using namespace model;\n\nint predict() \x7b\n" ++
  lines 1 ["MYINT ite_idx, ite_val, index;", "", s!"float {result}[d];",
    s!"memset({result}, 0, sizeof(float) * d);", "", "ite_idx = 0;", "ite_val = 0;",
    "// Dimensionality reduction"] ++
  nest 1 [("i","D")] (lines 2 ["float input = getFloatFeature(i);", ""]++s!"#if {sparse}\n" ++
    lines 2 [s!"index = ((MYINT) pgm_read_word_near(&{matrix}idx[ite_idx]));",
      "while (index != 0) \x7b",
      s!"\t{result}[index - 1] += ((float) pgm_read_float_near(&{matrix}val[ite_val])) * input;",
      "\tite_idx++;", "\tite_val++;",
      s!"\tindex = ((MYINT) pgm_read_word_near(&{matrix}idx[ite_idx]));", "\x7d", "ite_idx++;"] ++
    "#else\n"++lines 2 dense++"#endif\n")++"\n"

def nodeScores (depth : Nat) (about : String) : String :=
  lines depth ["memset(WZX, 0, sizeof(float) * c);", "memset(VZX, 0, sizeof(float) * c);", "",
    about] ++
  nest depth [("i","d")] (lines (depth+1) [
    "for (MYINT j = currNode * c; j < (currNode + 1) * c; j++) \x7b",
    "\tWZX[j % c] += ((float) pgm_read_float_near(&W[j][i])) * ZX[i];",
    "\tVZX[j % c] += ((float) pgm_read_float_near(&V[j][i])) * ZX[i];", "\x7d"])++"\n" ++
  nest depth [("i","c")] (lines (depth+1) ["float t;", "if (VZX[i] > tanh_limit)",
    "\tt = tanh_limit;", "else if (VZX[i] < -tanh_limit)", "\tt = -tanh_limit;", "else",
    "\tt = VZX[i];", ""]++"#if TANH\n"++lines (depth+1) ["score[i] += WZX[i] * tanh(VZX[i]);"] ++
    "#else\n"++lines (depth+1) ["score[i] += WZX[i] * t;"]++"#endif\n")++"\n"

def treeFloat : String :=
  projection "#define TANH 0\n\n" "ZX" "Z" "B_SPARSE_Z" ["for (MYINT j = 0; j < d; j++) \x7b",
    "\tZX[j] += ((float) pgm_read_float_near(&Z[j][i])) * input;", "\x7d"] ++
  lines 1 ["for (MYINT i = 0; i < d; i++)", "\tZX[i] -= ((float) pgm_read_float_near(&mean[i]));",
    "", "", "MYINT currNode = 0;", "float WZX[c], VZX[c], score[c];", "",
    "memset(score, 0, sizeof(float) * c);", "", "while (currNode < internalNodes) \x7b", ""] ++
  nodeScores 2 "// Accumulating score at each node" ++
  lines 2 ["// Computing theta value for branching into a child node", "float val = 0;",
    "for (MYINT i = 0; i < d; i++)",
    "\tval += ((float) pgm_read_float_near(&T[currNode][i])) * ZX[i];", "", "if (val > 0)",
    "\tcurrNode = 2 * currNode + 1;", "else", "\tcurrNode = 2 * currNode + 2;"] ++
  lines 1 ["\x7d", ""]++nodeScores 1 "// Accumulating score for the last node" ++
  lines 1 ["MYINT classID;", "", "// Finding the class ID",
    "// If binary classification, the sign of the score is used",
    "// If multiclass classification, argmax of score is used", "if (c <= 2) \x7b",
    "\tif (score[0] > 0)", "\t\tclassID = 1;", "\telse", "\t\tclassID = 0;", "\x7d", "else \x7b",
    "\tfloat max = score[0];", "\tMYINT maxI = 0;", "\tfor (MYINT i = 1; i < c; i++) \x7b",
    "\t\tif (score[i] > max) \x7b", "\t\t\tmax = score[i];", "\t\t\tmaxI = i;", "\t\t\x7d",
    "\t\x7d", "\tclassID = maxI;", "\x7d", "", "return classID;"]++"\x7d\n"

def prototypeFloat : String :=
  projection "" "WX" "W" "P_SPARSE_W" ["for (MYINT j = 0; j < d; j++)",
    "\tWX[j] += ((float) pgm_read_float_near(&W[j][i])) * input;"] ++
  "#if P_NORM == 0\n#elif P_NORM == 1\n" ++
  lines 1 ["for (MYINT i = 0; i < d; i++)",
    "\tWX[i] -= ((float) pgm_read_float_near(&norm[i]));"] ++
  "#endif\n\n"++lines 1 ["float score[c];", "memset(score, 0, sizeof(float) * c);", ""] ++
  nest 1 [("i","p")] ("\n"++lines 2 ["// Norm of WX - B", "float v = 0;",
    "for (MYINT j = 0; j < d; j++) \x7b",
    "\tfloat t = WX[j] - ((float) pgm_read_float_near(&B[j][i]));", "\tv += t * t;", "\x7d", "",
    "// Prediction distribution", "float e = exp(-g2 * v);", "", "for (MYINT j = 0; j < c; j++)",
    "\tscore[j] += ((float) pgm_read_float_near(&Z[j][i])) * e;"]) ++
  lines 1 ["", "// Argmax of score", "float max = score[0];", "MYINT classID = 0;",
    "for (MYINT i = 1; i < c; i++) \x7b", "\tif (score[i] > max) \x7b", "\t\tmax = score[i];",
    "\t\tclassID = i;", "\t\x7d", "\x7d", "", "return classID;"]++"\x7d\n"

def files : List (String × String) :=
  [("arduino.ino",mainFile), ("config.h",settings), ("library.h",operators),
    ("predict.h",interface)]

def floatCode? (algorithm : String) : Option String :=
  match algorithm with
  | "bonsai" => some treeFloat
  | "protonn" => some prototypeFloat
  | _ => none

def predictorSources : List String :=
  ["Makefile", "bonsai_float.cpp", "bonsai_float_model.h", "datatypes.h", "library.cpp",
    "library.h", "main.cpp", "predictors.h", "profile.cpp", "profile.h", "protonn_float.cpp",
    "protonn_float_model.h", "seedot_fixed.cpp", "seedot_fixed_model.h"]

end MicroLearn.Deploy.Sketch
