import MicroLearn.Gesture.Labelling

/-!
# An archive of recordings

Recordings are kept as tables by path. Raw ones are labelled, labelled ones get
their features, and each result is stored beside its source. The steps say what
they do as they go.
-/

set_option autoImplicit false

namespace MicroLearn.Text.Path

/-- One more part behind those that count so far, the last of which comes first. -/
def step (before : List String) (part : String) : List String :=
  if part = "" ∨ part = "." then before
  else if part = ".." then
    match before with
    | [] => [".."]
    | p::rest => if p = ".." then ".."::before else rest
  else part::before

def parts (path : String) : List String := ((path.splitOn "/").foldl step []).reverse

def ofParts (ps : List String) : String := "/".intercalate ps

def tidy (path : String) : String := ofParts (parts path)

def parent (path : String) : String := ofParts (parts path).dropLast

def chain (path : String) : List String :=
  let ps := parts path
  (List.range ps.length).map fun n => ofParts (ps.take (n+1))

end MicroLearn.Text.Path

namespace MicroLearn.Gesture

open Text (Path.tidy Path.parent Path.chain)

def makeFolder (path : String) (folders : List String) : Except Fault (List String) :=
  if folders.contains path then .ok folders
  else if Path.parent path = "" ∨ folders.contains (Path.parent path) then .ok (folders++[path])
  else .error .missingFile

def closeFolders (folders : List String) : List String := (folders.flatMap Path.chain).eraseDups

structure Archive where
  folders : List String
  tables : List (String × Table)
  written : List String
  out : String
  broken : List Fault

abbrev Keep := ExceptT Fault (StateM Archive)

namespace Keep

def lift {α : Type} : Except Fault α → Keep α
  | .ok x => pure x
  | .error f => throw f

def start {α : Type} (k : Keep α) (a : Archive) : Except Fault α × Archive :=
  StateT.run (ExceptT.run k) a

def say (text : String) : Keep Unit := modify fun a => { a with out := a.out++text }

def needFolder (path : String) : Keep Unit := do
  let folders ← lift (makeFolder path (← get).folders)
  modify fun a => { a with folders }

def load (path : String) : Keep Table := do
  match (← get).tables.lookup (Path.tidy path) with
  | some t => pure t
  | none => throw .missingFile

def store (path : String) (t : Table) : Keep Unit :=
  modify fun a =>
    let key := Path.tidy path
    { a with
      tables := (key,t)::a.tables.filter fun e => e.1 != key
      written := a.written.filter (· != key)++[key] }

end Keep

/-- The features of a recording that is worked on as one part. A fault ends the work and leaves the
table as far as it was filled. Labels are collapsed whatever is asked for. -/
def extractPart (p : Parameters) (_collapsing : Bool) (t : Table) : Option Fault × Table :=
  match (extract p true).start t with
  | (.ok _,t) => (none,t)
  | (.error f,t) => (some f,t)

def standardParameters : Parameters := {
  width := some 400
  stride := some 1
  bins := some 20
  around := some 5
  rawColumns := some ["ax", "ay", "az", "gx", "gy", "gz"]
  limits := some (["ax", "ay", "az", "gx", "gy", "gz"].zip
    ([16384, 16384, 16384, 512, 2048, 512].map limitsAround)) }
where
  limitsAround (n : Int) : Limits := [("min",.int (-n)), ("max",.int n)]

def parameterLines (p : Parameters) : String :=
  let line (name text : String) : String := Number.padLeft 15 ' ' name++": "++text++"\n"
  let number (n : Option Int) : String := toString (n.getD 0)
  let listed (items : List String) : String := ", ".intercalate items
  let braced (items : List String) : String := "\x7b"++listed items++"\x7d"
  let pair (name text : String) : String := Text.quoted name++": "++text
  let limits (own : Limits) : String := braced (own.map fun (k,c) => pair k (cellText c))
  String.join [
    line "windowWidth" (number p.width),
    line "windowStride" (number p.stride),
    line "numHistogramBins" (number p.bins),
    line "rawColumns" ("["++listed ((p.rawColumns.getD []).map Text.quoted)++"]"),
    line "pertubations" (number p.around),
    line "minMaxDict" (braced ((p.limits.getD []).map fun (k,own) => pair k (limits own)))]
where
  cellText : Number.Cell → String
    | .int n => toString n
    | .real x => Number.floatText x

def padRight (width : Nat) (s : String) : String :=
  s++String.ofList (List.replicate (width-s.length) ' ')

def progressLine (place count : Nat) (file : String) : String :=
  let share := Number.floatOfInt place/Number.floatOfInt count*100.0
  "\rFile: "++Number.padLeft 3 ' ' (toString place)++"/"++padRight 3 (toString count)++" (" ++
    Number.fixedText 2 share++"%) "++padRight 20 file

def checkColumns : List String → List String → Except Fault Unit
  | [], _ => .ok ()
  | _::_, [] => .error .outOfRange
  | a::as, b::bs => if a = b then checkColumns as bs else .error .requirement

/-- Extracts the features of one file; `settled` are the columns of the first file, once they are
known. -/
def extractFile (source target file : String) (collapsing : Bool) (settled : Option (List String)) :
    Keep (List String) := do
  let t ← Keep.load (source++"/"++file)
  Keep.say "\n Starting splitting of data frame\nBeginning Spawning Threads\nStarting Threads\nStarting thread: 0\n"
  let (fault,t) := extractPart standardParameters collapsing (t.fill "infile" (.text file))
  modify fun a => { a with broken := a.broken++fault.toList }
  Keep.say "Joining Threads\nJoined thread:  0\nConcatenating dataframes\nFeature extractor done\n"
  let names := settled.getD t.names
  Keep.lift (checkColumns names t.names)
  Keep.say "Starting to write to csv\n"
  Keep.store (target++"/"++withoutEnding file++"_extracted.csv") t
  return names

def extractFiles (source target : String) (files : List String) (collapsing : Bool) :
    Keep Unit := do
  Keep.say (parameterLines standardParameters)
  let mut settled : Option (List String) := none
  for (file,i) in files.zipIdx do
    Keep.say (progressLine (i+1) files.length file)
    settled := some (← extractFile source target file collapsing settled)
  Keep.say "\nElapsed feature Extraction: 0s\n"

def labelledName (file : String) : String := withoutEnding file++"_labelled.csv"

def labelAsNoise (source target : String) (files : List String) : Keep Unit := do
  for file in files do
    let t ← Keep.load (source++"/"++file)
    let column ← Keep.lift (setAt 0 (Entry.whole 0) (List.replicate t.length (Entry.whole 1)))
    Keep.store (target++"/"++labelledName file) (t.put "mlabel" column)

def processNoise (files : List String) : Keep Unit := do
  Keep.needFolder "data/labelled_data"
  Keep.needFolder "data/extracted_data"
  labelAsNoise "./data/raw_data/" "./data/labelled_data/" files
  extractFiles "./data/labelled_data/" "./data/extracted_data/" (files.map labelledName) false

def processLabelled (files : List String) : Keep Unit := do
  Keep.needFolder "data/extracted_data"
  extractFiles "./data/labelled_data/" "./data/extracted_data/" (files.map labelledName) true

structure Incoming where
  text : String
  toggle : Option String
  leave : Option Bool

abbrev Typed := Option String

structure Recorder where
  toggle : String
  leave : Bool
  incoming : List Incoming
  typed : List Typed
  folders : List String
  device : Option String
  closed : Bool
  file : Option (String × String)
  out : String

abbrev Record := ExceptT Fault (StateM Recorder)

namespace Record

def start {α : Type} (r : Record α) (s : Recorder) : Except Fault α × Recorder :=
  StateT.run (ExceptT.run r) s

def say (text : String) : Record Unit := modify fun r => { r with out := r.out++text }

end Record

def Recorder.hear (i : Incoming) (rest : List Incoming) (r : Recorder) : Recorder :=
  { r with toggle := i.toggle.getD r.toggle, leave := i.leave.getD r.leave, incoming := rest }

def receive : Record String := do
  match (← get).incoming with
  | [] => throw .interrupted
  | i::rest =>
    modify (Recorder.hear i rest)
    return i.text

/-- The row for a line, whose last three characters do not count; lines without seven values have
none. -/
def rowFor (toggle line : String) : Option String :=
  let body := String.ofList (line.toList.take (line.length-3))
  if (body.splitOn ",").length = 7 then some (body++(if toggle = "OFF" then ",0\n" else ",1\n"))
    else none

def tally (toggle : String) : String := "\r"++padRight 3 toggle

def Recorder.addRow (row : String) (count : Nat) (r : Recorder) : Recorder :=
  { r with
    file := r.file.map fun (path,text) => (path,text++row)
    out := if count % 500 = 0 then r.out++tally r.toggle++Number.padLeft 5 ' ' (toString count)
      else r.out }

def Recorder.finish (r : Recorder) : Recorder :=
  { r with closed := true, out := r.out++"\nExiting.\n", leave := true, incoming := [] }

def recordLines : List Incoming → (count : Nat) → Recorder → Recorder
  | incoming, count, r =>
    if r.leave then { r with incoming }
    else
      let r := { r with out := r.out++tally r.toggle }
      match incoming with
      | [] => r.finish
      | i::rest =>
        let r := r.hear i rest
        match rowFor r.toggle i.text with
        | none => recordLines rest count r
        | some row => recordLines rest (count+1) (r.addRow row (count+1))

def Recorder.needFolder (path : String) (r : Recorder) : Except Fault Recorder := do
  return { r with folders := ← makeFolder path r.folders }

def record (program : String) (args : List String) : Record Unit := do
  match args with
  | [] =>
    Record.say ("Usage: "++program++" SESSION_KEY [COM Port]\n")
    modify fun r => { r with leave := true }
  | key::rest =>
    modify fun r => { r with device := some (rest.headD "COM13") }
    let first ← receive
    if first.isEmpty then Record.say "No bytes received. Exiting!\n"
    else
      for _ in List.range 5 do
        let _ ← receive
      for folder in ["data", "data/raw_data"] do
        match (← get).needFolder folder with
        | .ok r => set r
        | .error f => throw f
      let path := "./data/raw_data/"++key++".csv"
      if !(← get).folders.contains (Text.Path.parent path) then throw .missingFile
      modify fun r => { r with file := some (Text.Path.tidy path,
        "millis,ax,ay,az,gx,gy,gz,toggle\n") }
      Record.say "Starting fetch\nUse spacebar to toggle label On/Off\n"
      modify fun r => recordLines r.incoming 0 r

def Recorder.flip (r : Recorder) : Recorder :=
  { r with toggle := if r.toggle = "OFF" then "ON" else "OFF" }

/-- Follows what is typed: a blank switches the mark and a `q` leaves. Behind the last line `q` is
typed. -/
def followTyped : List Typed → Recorder → Recorder
  | typed, r =>
    if r.leave then { r with typed }
    else
      match typed with
      | [] => { r with leave := true, typed := [] }
      | none::rest => followTyped rest { r with out := r.out++"\nExiting.\n" }
      | some line::rest =>
        let r := if line.toList.contains ' ' then r.flip else r
        if line.toList.contains 'q' then { r with leave := true, typed := rest }
          else followTyped rest r

end MicroLearn.Gesture
