import Casa.LineStream
import Casa.StepRuns

/-! The log of one engagement and its reader. The logger appends to `current` and rotates it: it
renames it to an archive whose name sorts after all others, then it creates a new `current`. No
archive is removed, so segments are numbered in the order of their creation. The reader is told of
in single file operations; a descriptor shows what has been appended when it is read. -/

namespace Casa.LogSegments
open LineStream

abbrev Bytes := List UInt8

def newline : UInt8 := 10

/-- The archives in the order of their names; `current` is gone while a rotation is half done. -/
structure Log where
  archives : List Bytes
  current : Option Bytes
deriving DecidableEq

/-- `(st_dev, st_ino)` and an offset. -/
structure Coord where
  segment : ℕ
  offset : ℕ
deriving DecidableEq

inductive Path where
  | archive (i : ℕ)
  | current
deriving DecidableEq

namespace Log
variable (l : Log)

def segments : List Bytes := l.archives ++ l.current.toList

def stream : Bytes := l.segments.flatten

def content (i : ℕ) : Bytes := l.segments[i]?.getD []

def position (c : Coord) : ℕ := (l.segments.take c.segment).flatten.length + c.offset

def Valid (c : Coord) : Prop :=
  c.segment < l.segments.length ∧ c.offset ≤ (l.content c.segment).length

instance (c : Coord) : Decidable (l.Valid c) :=
  inferInstanceAs (Decidable (_ ∧ _))

/-- `_seg_ident`, and the identity of a file that is opened. -/
def segIdent : Path → Option ℕ
  | .archive i => if i < l.archives.length then some i else none
  | .current => l.current.map fun _ => l.archives.length

def append (bytes : Bytes) : Log := { l with current := l.current.map (· ++ bytes) }

def rename : Log :=
  match l.current with
  | none => l
  | some bytes => ⟨l.archives ++ [bytes], none⟩

def create : Log :=
  match l.current with
  | none => { l with current := some [] }
  | some _ => l

end Log

/-- From the archives that were listed and the `stat` of `current`; those of the archives never
change. -/
def orderedSegments (archives : ℕ) (current : Option ℕ) : List (Path × ℕ) :=
  (List.range archives).map (fun i => (.archive i, i)) ++ current.toList.map fun i => (.current, i)

def findSegment (entries : List (Path × ℕ)) (seg : ℕ) : Option Path :=
  (entries.find? fun e => decide (e.2 = seg)).map Prod.fst

/-- The loop of `_successor_path`: nothing where `seg` is not named on disk. -/
def successor (seg : ℕ) : List (Path × ℕ) → Option (Option Path)
  | [] => none
  | (_, ident) :: rest => if ident = seg then some (rest.head?.map Prod.fst) else successor seg rest

/-- Where `iter_log_segments` stands, before its next file operation. -/
inductive Reader where
  /-- No call is under way. -/
  | idle
  /-- `_find_segment` lists the directory. -/
  | finding (start : Coord)
  /-- It stats `current`. -/
  | found (start : Coord) (archives : ℕ)
  /-- `_open_seg`. -/
  | opening (path : Path) (offset : ℕ)
  | reading (c : Coord)
  /-- No complete line: `_successor_path` lists the directory. -/
  | ended (seg : ℕ)
  /-- It stats `current`. -/
  | scanned (seg : ℕ) (archives : ℕ)
  /-- `seg` is not named on disk: it stats `current` again. -/
  | unnamed (seg : ℕ)
deriving DecidableEq

/-- The log, the reader, the coordinate that the next call starts from, and what has been yielded:
the lines and the number of gaps. -/
structure World where
  log : Log
  reader : Reader
  last : Option Coord
  lines : List Bytes
  gaps : ℕ

inductive Label where
  | append (bytes : Bytes)
  | rename
  | create
  /-- A call that starts from the last coordinate. -/
  | call
  /-- The next file operation of the call under way. -/
  | advance
  /-- The generator is closed, or the process dies. -/
  | abandon
deriving DecidableEq

namespace World
variable (w : World)

/-- The zero coordinate starts at `current`. -/
def call : World :=
  match w.reader with
  | .idle =>
    match w.last with
    | none => { w with reader := .opening .current 0 }
    | some start => { w with reader := .finding start }
  | _ => w

def advance : World :=
  match w.reader with
  | .idle => w
  | .finding start => { w with reader := .found start w.log.archives.length }
  | .found start archives =>
    match findSegment (orderedSegments archives (w.log.segIdent .current)) start.segment with
    | none => { w with reader := .opening .current 0, gaps := w.gaps + 1 }
    | some path => { w with reader := .opening path start.offset }
  | .opening path offset =>
    match w.log.segIdent path with
    | none => { w with reader := .idle }
    | some seg => { w with reader := .reading ⟨seg, offset⟩ }
  | .reading c =>
    match nextLine newline ((w.log.content c.segment).drop c.offset) with
    | some line =>
      { w with
        reader := .reading ⟨c.segment, c.offset + line.length⟩
        last := some ⟨c.segment, c.offset + line.length⟩
        lines := w.lines ++ [line] }
    | none => { w with reader := .ended c.segment }
  | .ended seg => { w with reader := .scanned seg w.log.archives.length }
  | .scanned seg archives =>
    match successor seg (orderedSegments archives (w.log.segIdent .current)) with
    | none => { w with reader := .unnamed seg }
    | some none => { w with reader := .idle }
    | some (some path) => { w with reader := .opening path 0 }
  | .unnamed seg =>
    match w.log.segIdent .current with
    | none => { w with reader := .idle }
    | some ident =>
      if ident ≠ seg then { w with reader := .opening .current 0 }
      else { w with reader := .idle }

end World

def step : Label → World → World
  | .append bytes, w => { w with log := w.log.append bytes }
  | .rename, w => { w with log := w.log.rename }
  | .create, w => { w with log := w.log.create }
  | .call, w => w.call
  | .advance, w => w.advance
  | .abandon, w => { w with reader := .idle }

def legal : Label → World → Bool
  | .rename, w => w.log.current.all fun bytes => decide (Terminated newline bytes)
  | _, _ => true

end Casa.LogSegments
